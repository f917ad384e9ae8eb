import LlmProxy.AuthStore
import LlmProxy.GuardedRun

/-!
# Calls to the key store that overlap

The store locks its map for one access at a time.  Between the question whether a key is there and
its insertion another call can insert it.
-/

namespace LlmProxy
namespace KeyRace

open StepSystem

inductive Phase where
  | idle
  | free (record : ClientKeyRecord)
  | found (keyHash old newKey : String)
  | unclaimed (keyHash old newKey : String)
  | answered (result : Except AppError ClientKeyRecord)

/-- `reported` are the records that a client was told of and that were not rotated since. -/
structure State where
  store : AuthStore
  calls : ℕ → Phase
  reported : List ClientKeyRecord

inductive Action where
  | add (task : ℕ) (nowMs : ℤ) (req : CreateKeyRequest)
  | find (task : ℕ) (keyHash newKey : String)
  | ask (task : ℕ)
  | take (task : ℕ) (nowMs : ℤ)
  | insert (task : ℕ)

namespace State

variable (s : State) (task : ℕ)

def goto (phase : Phase) : State :=
  { s with calls := Function.update s.calls task phase }

def fail (error : AppError) : State := s.goto task (.answered (.error error))

def put (record : ClientKeyRecord) : State where
  store := s.store.insert record.key record
  calls := Function.update s.calls task (.answered (.ok record))
  reported := record :: s.reported

def withdraw (old : String) (record : ClientKeyRecord) : State where
  store := s.store.erase old
  calls := Function.update s.calls task (.free record)
  reported := s.reported.filter fun one => one.key ≠ old

end State

section

variable (hash : String → String)

/-- `add` asks whether a key is there and then inserts it; `rotate` looks for the old key, asks for
the new one, removes the old record and inserts the new one. -/
def step (s : State) : Action → Option State
  | .add task nowMs req =>
    match s.calls task with
    | .idle =>
      if req.key = "" then some (s.fail task (.badRequest "key must not be empty"))
      else if (s.store.lookup req.key).isSome then
        some (s.fail task (.badRequest "key already exists"))
      else some (s.goto task (.free
        { ClientKeyEntry.toRecord hash nowMs ⟨req.key, req.tenantId⟩ with label := req.label }))
    | _ => none
  | .find task keyHash newKey =>
    match s.calls task, s.store.findKey keyHash with
    | .idle, none => some (s.fail task (keyNotFound keyHash))
    | .idle, some old => some (s.goto task (.found keyHash old newKey))
    | _, _ => none
  | .ask task =>
    match s.calls task with
    | .found keyHash old newKey =>
      if (s.store.lookup newKey).isSome then
        some (s.fail task (.badRequest "new key already exists in the store"))
      else some (s.goto task (.unclaimed keyHash old newKey))
    | _ => none
  | .take task nowMs =>
    match s.calls task with
    | .unclaimed keyHash old newKey =>
      match s.store.lookup old with
      | none => some (s.fail task (keyNotFound keyHash))
      | some record => some (s.withdraw task old
          { record with key := newKey, keyHash := hash newKey, createdAt := nowMs })
    | _ => none
  | .insert task =>
    match s.calls task with
    | .free record => some (s.put task record)
    | _ => none

def start (initial : List (ClientKeyEntry × ℤ)) : State where
  store := AuthStore.new hash initial
  calls := fun _ => .idle
  reported := (AuthStore.new hash initial).entries.map Sigma.snd

end

/-- Under each key the store has the one record of that key that was reported, if there is any. -/
def Intact (s : State) : Prop :=
  ∀ key, (s.reported.filter fun record => record.key = key) = (s.store.lookup key).toList

/-- Nobody has inserted the key since the call asked for it. -/
def FindsFree (s : State) : Action → Prop
  | .insert task => ∀ record, s.calls task = .free record → s.store.lookup record.key = none
  | _ => True

section

variable {hash : String → String}

theorem intact_start (initial : List (ClientKeyEntry × ℤ)) : Intact (start hash initial) := by
  have hstore := AuthStore.consistent_new hash initial
  intro key
  have hfilter : (((AuthStore.new hash initial).entries.map Sigma.snd).filter
      fun record => record.key = key) =
      ((AuthStore.new hash initial).entries.filter fun entry => entry.1 = key).map Sigma.snd := by
    rw [List.filter_map]
    congr 1
    refine List.filter_congr fun entry hentry => ?_
    rw [Function.comp_apply, (hstore entry.1 entry.2 (AList.mem_lookup_iff.mpr hentry)).1]
  rw [start, hfilter, KeyedFold.filter_entries]
  cases (AuthStore.new hash initial).lookup key <;> rfl

theorem intact_put_iff {s : State} (hintact : Intact s) (task : ℕ) (record : ClientKeyRecord) :
    Intact (s.put task record) ↔ s.store.lookup record.key = none := by
  constructor
  · intro hput
    have hkey := hput record.key
    rw [State.put, List.filter_cons_of_pos (by simp), hintact, AList.lookup_insert] at hkey
    exact Option.toList_eq_nil_iff.mp (List.cons.inj hkey).2
  · intro hfree key
    rw [State.put, KeyedFold.lookup_insert, List.filter_cons]
    by_cases hkey : record.key = key
    · rw [if_pos (by simpa using hkey), if_pos hkey.symm, hintact, ← hkey, hfree]
      rfl
    · rw [if_neg (by simpa using hkey), if_neg (Ne.symm hkey), hintact]

theorem intact_withdraw {s : State} (hintact : Intact s) (task : ℕ) (old : String)
    (record : ClientKeyRecord) : Intact (s.withdraw task old record) := by
  intro key
  rw [State.withdraw, List.filter_filter]
  by_cases hkey : key = old
  · rw [hkey]
    simp
  · rw [AList.lookup_erase_ne hkey, ← hintact]
    refine List.filter_congr fun one _ => ?_
    by_cases hone : one.key = key
    · simp [hone, hkey]
    · simp [hone]

theorem intact_step_iff (s : State) (action : Action) (t : State) (hintact : Intact s)
    (hstep : step hash s action = some t) : Intact t ↔ FindsFree s action := by
  -- Only the insertion can spoil anything: it is the only access that reports a record.
  cases action with
  | insert =>
    simp only [step] at hstep
    split at hstep
    · rename_i record hphase
      cases hstep
      rw [intact_put_iff hintact]
      constructor
      · intro hfree other hother
        rw [hphase] at hother
        cases hother
        exact hfree
      · exact fun hfree => hfree record hphase
    · cases hstep
  | take task =>
    refine iff_of_true ?_ trivial
    simp only [step] at hstep
    split at hstep
    · split at hstep
      · cases hstep
        exact hintact
      · cases hstep
        exact intact_withdraw hintact task _ _
    · cases hstep
  | add | find | ask =>
    refine iff_of_true ?_ trivial
    simp only [step] at hstep
    repeat' split at hstep
    all_goals cases hstep
    all_goals exact hintact

/-- The records stay exactly if every insertion finds its key free. -/
theorem overlapping_calls_intact_iff (hash : String → String)
    (initial : List (ClientKeyEntry × ℤ)) (actions : List Action) (final : State)
    (hrun : Run (step hash) (start hash initial) actions final) :
    GuardedRun (step hash) (fun s _ => Intact s) (start hash initial) actions final ∧ Intact final ↔
      GuardedRun (step hash) FindsFree (start hash initial) actions final :=
  GuardedRun.along_iff intact_step_iff hrun (intact_start initial)

/-- Two calls that overlap and add two keys. -/
def overlappingAdds : List Action :=
  [.add 0 0 { key := "k" }, .add 1 0 { key := "l" }, .insert 0, .insert 1]

theorem overlappingAdds_intact :
    ∃ final, GuardedRun (step id) (fun s _ => Intact s) (start id []) overlappingAdds final ∧
      Intact final := by
  have hguarded : ∃ final, GuardedRun (step id) FindsFree (start id []) overlappingAdds final := by
    refine ⟨_, .cons trivial rfl (.cons trivial rfl (.cons ?_ rfl (.cons ?_ rfl (.nil _))))⟩
    all_goals
      rintro record ⟨⟩
      rfl
  obtain ⟨final, hfinal⟩ := hguarded
  have hrun : Run (step id) (start id []) overlappingAdds final :=
    hfinal.mono fun _ _ _ => trivial
  exact ⟨final, (overlapping_calls_intact_iff id [] overlappingAdds final hrun).mpr hfinal⟩

def twoAdds : List Action :=
  [.add 0 0 { key := "k", tenantId := "a" }, .add 1 0 { key := "k", tenantId := "b" }, .insert 0,
    .insert 1]

/-- Both calls succeed, and the key acts for the second tenant only. -/
theorem second_add_overwrites :
    ∃ final, runActions (step id) (start id []) twoAdds = some final ∧
      final.calls 0 = .answered (.ok ⟨"k", "a", "k", 0, true, ""⟩) ∧
      final.calls 1 = .answered (.ok ⟨"k", "b", "k", 0, true, ""⟩) ∧
      final.store.validate "k" = some ⟨"k", "b"⟩ ∧ ¬Intact final := by
  refine ⟨_, rfl, rfl, rfl, rfl, fun hintact => ?_⟩
  have hkey := congrArg List.length (hintact "k")
  revert hkey
  decide

end

end KeyRace
end LlmProxy
