import LlmProxy.GuardedRun
import LlmProxy.Router

/-!
# Marks and removals that overlap

A mark of a key between the two accesses of `remove_bad` is dropped with the entry of its pool.
-/

namespace LlmProxy
namespace RegistryRace

open List StepSystem BadKeyRegistry

structure State where
  registry : BadKeyRegistry
  dropping : List String := []

/-- `retain` and `drop` are the two accesses of a removal. -/
inductive Action where
  | mark (poolId keyHash : String)
  | retain (poolId keyHash : String)
  | drop (poolId : String)
  deriving DecidableEq, Repr

variable (s : State) (poolId keyHash : String)

def State.mark : State :=
  { s with registry := s.registry.markBad poolId keyHash }

def State.retain : State :=
  let (registry, empty) := s.registry.retainOthers poolId keyHash
  ⟨registry, if empty then poolId :: s.dropping else s.dropping⟩

/-- `mark_bad` is one access to the registry. `remove_bad` makes two: it takes the key out of the
pool's list, and if the list is then empty it drops the entry of the pool, after the lock was
released. -/
def step : Action → Option State
  | .mark poolId keyHash => some (s.mark poolId keyHash)
  | .retain poolId keyHash => some (s.retain poolId keyHash)
  | .drop poolId =>
    if poolId ∈ s.dropping then
      some ⟨s.registry.dropPool poolId, s.dropping.erase poolId⟩
    else none

def removal : List Action :=
  .retain poolId keyHash ::
    if (s.registry.retainOthers poolId keyHash).2 then [.drop poolId] else []

theorem run_removal :
    runActions step s (removal s poolId keyHash) =
      some { s with registry := s.registry.removeBad poolId keyHash } := by
  unfold removal
  split_ifs with hempty
  · simp [runActions, step, State.retain, BadKeyRegistry.removeBad, hempty]
  · simp [runActions, step, State.retain, BadKeyRegistry.removeBad, hempty]

variable {keyHash poolId : String} {t s : State}

theorem isBad_step_iff {action : Action} (hstep : step s action = some t)
    (poolId keyHash : String) :
    t.registry.isBad poolId keyHash = true ↔ action = .mark poolId keyHash ∨
      (s.registry.isBad poolId keyHash = true ∧ action ≠ .retain poolId keyHash ∧
        action ≠ .drop poolId) := by
  cases action with
  | mark pool hash =>
    cases hstep
    rw [State.mark, isBad_markBad_iff]
    simp only [Action.mark.injEq]
    tauto
  | retain pool hash =>
    cases hstep
    simp only [State.retain, isBad_iff, badList_retainOthers]
    by_cases hpool : poolId = pool
    · subst pool
      simp [ne_comm]
    · simp [hpool, Ne.symm hpool]
  | drop pool =>
    simp only [step] at hstep
    split_ifs at hstep
    cases hstep
    simp only [isBad_iff, badList_dropPool]
    by_cases hpool : poolId = pool
    · simp [hpool]
    · simp [hpool, Ne.symm hpool]

/-! ## The last mark -/

def MarkedUndropped (poolId keyHash : String) (actions : List Action) : Prop :=
  ∃ earlier later, actions = earlier ++ .mark poolId keyHash :: later ∧ .drop poolId ∉ later

theorem markedUndropped_concat_iff (poolId keyHash : String) (actions : List Action)
    (action : Action) :
    MarkedUndropped poolId keyHash (actions ++ [action]) ↔ action = .mark poolId keyHash ∨
      (MarkedUndropped poolId keyHash actions ∧ action ≠ .drop poolId) := by
  constructor
  · intro hmarked
    obtain ⟨earlier, later, hsplit, hdrop⟩ := hmarked
    rcases eq_nil_or_concat later with rfl | ⟨front, last, rfl⟩
    · exact .inl (append_inj_right' hsplit rfl |> singleton_injective)
    · have hfront : actions ++ [action] =
          (earlier ++ .mark poolId keyHash :: front) ++ [last] := by
        simpa using hsplit
      obtain ⟨rfl, hlast⟩ := append_inj' hfront rfl
      cases hlast
      rw [concat_eq_append, mem_append, not_or] at hdrop
      exact .inr ⟨⟨earlier, front, rfl, hdrop.1⟩, by simpa [eq_comm] using hdrop.2⟩
  · intro hcases
    rcases hcases with rfl | ⟨⟨earlier, later, rfl, hdrop⟩, hne⟩
    · exact ⟨actions, [], rfl, not_mem_nil⟩
    · refine ⟨earlier, later ++ [action], by simp, ?_⟩
      simpa [eq_comm, hdrop] using hne

theorem isBad_iff_markedUndropped {after : List Action}
    (hrun : Run step (s.mark poolId keyHash) after t) (hkept : .retain poolId keyHash ∉ after) :
    t.registry.isBad poolId keyHash = true ↔
      MarkedUndropped poolId keyHash (.mark poolId keyHash :: after) := by
  induction hrun with
  | nil =>
    have hbad : (s.mark poolId keyHash).registry.isBad poolId keyHash = true :=
      (s.registry.isBad_markBad_iff poolId keyHash poolId keyHash).mpr (.inr ⟨rfl, rfl⟩)
    exact iff_of_true hbad ⟨[], [], rfl, not_mem_nil⟩
  | snoc _ _ hstep ih =>
    rw [mem_append, not_or, mem_singleton] at hkept
    rw [isBad_step_iff hstep, ← cons_append, markedUndropped_concat_iff]
    tauto

structure Held (poolId keyHash : String) (s : State) : Prop where
  bad : s.registry.isBad poolId keyHash = true
  undisturbed : poolId ∉ s.dropping

theorem Held.step {action : Action} (hheld : Held poolId keyHash s)
    (hkept : action ≠ .retain poolId keyHash) (hstep : step s action = some t) :
    Held poolId keyHash t := by
  have hbad : t.registry.isBad poolId keyHash = true := by
    rw [isBad_step_iff hstep]
    refine .inr ⟨hheld.bad, hkept, ?_⟩
    intro hdrop
    subst action
    simp [RegistryRace.step, hheld.undisturbed] at hstep
  refine ⟨hbad, ?_⟩
  cases action with
  | mark =>
    cases hstep
    exact hheld.undisturbed
  | retain pool =>
    cases hstep
    simp only [State.retain] at hbad ⊢
    split_ifs with hempty
    · rw [mem_cons, not_or]
      refine ⟨?_, hheld.undisturbed⟩
      intro hpool
      -- a list with the key in it was not emptied
      subst pool
      rw [isBad_iff, badList_of_retainOthers_empty hempty] at hbad
      cases hbad
    · exact hheld.undisturbed
  | drop =>
    simp only [RegistryRace.step] at hstep
    split_ifs at hstep
    cases hstep
    exact fun hmem => hheld.undisturbed (mem_of_mem_erase hmem)

theorem Held.run {actions : List Action} (hheld : Held poolId keyHash s)
    (hrun : Run RegistryRace.step s actions t) (hkept : .retain poolId keyHash ∉ actions) :
    Held poolId keyHash t := by
  induction hrun with
  | nil => exact hheld
  | snoc _ _ hstep ih =>
    rw [mem_append, not_or, mem_singleton] at hkept
    exact (ih hkept.1).step (Ne.symm hkept.2) hstep

/-- A key that is not removed after a mark is bad exactly if its pool was not dropped since its
last mark.  No drop follows a mark that was made while none was outstanding. -/
theorem isBad_after_mark {s t : State} {poolId keyHash : String} {after : List Action}
    (hrun : Run step (s.mark poolId keyHash) after t) (hkept : .retain poolId keyHash ∉ after) :
    (t.registry.isBad poolId keyHash = true ↔
        MarkedUndropped poolId keyHash (.mark poolId keyHash :: after)) ∧
      (poolId ∉ s.dropping → t.registry.isBad poolId keyHash = true) := by
  refine ⟨isBad_iff_markedUndropped hrun hkept, fun hundisturbed => ?_⟩
  have hheld : Held poolId keyHash (s.mark poolId keyHash) :=
    ⟨(s.registry.isBad_markBad_iff poolId keyHash poolId keyHash).mpr (.inr ⟨rfl, rfl⟩),
      hundisturbed⟩
  exact (hheld.run hrun hkept).bad

theorem isBad_after_mark_undisturbed :
    ∃ t, runActions step (State.mark ⟨.new, []⟩ "p" "a")
        [.mark "p" "b", .retain "p" "b", .retain "p" "c"] = some t ∧
      t.registry.isBad "p" "a" = true := by
  obtain ⟨t, ht⟩ : ∃ t, runActions step (State.mark ⟨.new, []⟩ "p" "a")
      [.mark "p" "b", .retain "p" "b", .retain "p" "c"] = some t := ⟨_, rfl⟩
  exact ⟨t, ht, (isBad_after_mark (run_of_runActions ht) (by decide)).2 (by decide)⟩

/-- The revival of one key forgets the demotion of another. -/
theorem mark_lost_between_accesses :
    ∃ t, runActions step ⟨.new, []⟩
        [.mark "p" "a", .retain "p" "a", .mark "p" "b", .drop "p"] = some t ∧
      t.registry.isBad "p" "b" = false :=
  ⟨_, rfl, rfl⟩

end RegistryRace
end LlmProxy
