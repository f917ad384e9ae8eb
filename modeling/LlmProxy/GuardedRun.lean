import Mathlib.Data.List.Basic

/-!
# Guarded runs of a partial step function

A system is a partial step function `step : σ → α → Option σ`.  A guarded run
is a finite sequence of enabled steps, each of which meets a condition in the
state before it.  With the trivial condition these are the ordinary runs, so
one invariant rule serves both.
-/

namespace StepSystem

variable {σ α : Type*}

/-- The actions lead from the first state to the last, each enabled and
admitted by `ok` in the state before it. -/
inductive GuardedRun (step : σ → α → Option σ) (ok : σ → α → Prop) :
    σ → List α → σ → Prop
  | nil (s : σ) : GuardedRun step ok s [] s
  | snoc {s t u : σ} {actions : List α} {action : α} :
      GuardedRun step ok s actions t →
      ok t action →
      step t action = some u →
      GuardedRun step ok s (actions ++ [action]) u

/-- Runs without a side condition. -/
def Run (step : σ → α → Option σ) : σ → List α → σ → Prop :=
  GuardedRun step (fun _ _ => True)

/-- The executable form of `Run`. -/
def runActions (step : σ → α → Option σ) : σ → List α → Option σ
  | s, [] => some s
  | s, action :: rest => (step s action).bind fun t => runActions step t rest

variable {step : σ → α → Option σ} {ok : σ → α → Prop} {actions : List α} {s t u : σ} {action : α}

theorem GuardedRun.trans {before after : List α} (hfirst : GuardedRun step ok s before t)
    (hsecond : GuardedRun step ok t after u) : GuardedRun step ok s (before ++ after) u := by
  induction hsecond with
  | nil => simpa using hfirst
  | snoc _ hok hstep ih =>
    rw [← List.append_assoc]
    exact .snoc ih hok hstep

theorem GuardedRun.cons (hok : ok s action) (hstep : step s action = some t)
    (hrest : GuardedRun step ok t actions u) : GuardedRun step ok s (action :: actions) u :=
  ((GuardedRun.nil s).snoc hok hstep).trans hrest

theorem GuardedRun.mono {weaker : σ → α → Prop} (himp : ∀ s a, ok s a → weaker s a)
    (hrun : GuardedRun step ok s actions t) : GuardedRun step weaker s actions t := by
  induction hrun with
  | nil => exact .nil _
  | snoc _ hok hstep ih => exact .snoc ih (himp _ _ hok) hstep

/-- A property of the initial state which every admitted step keeps holds in
every state a guarded run reaches. -/
theorem GuardedRun.invariant (I : σ → Prop)
    (hkeep : ∀ s a t, I s → ok s a → step s a = some t → I t)
    (hrun : GuardedRun step ok s actions t) (hinit : I s) : I t := by
  induction hrun with
  | nil => exact hinit
  | snoc _ hok hstep ih => exact hkeep _ _ _ ih hok hstep

theorem runActions_append (step : σ → α → Option σ) (s : σ) (before after : List α) :
    runActions step s (before ++ after) =
      (runActions step s before).bind fun t => runActions step t after := by
  induction before generalizing s with
  | nil => rfl
  | cons action rest ih =>
    simp only [List.cons_append, runActions, Option.bind_assoc]
    congr
    funext t
    exact ih t

theorem runActions_concat :
    runActions step s (actions ++ [action]) = some u ↔
      ∃ t, runActions step s actions = some t ∧ step t action = some u := by
  rw [runActions_append, Option.bind_eq_some_iff]
  simp [runActions]

theorem GuardedRun.runActions_eq (hrun : GuardedRun step ok s actions t) :
    runActions step s actions = some t := by
  induction hrun with
  | nil => rfl
  | snoc _ _ hstep ih => exact runActions_concat.mpr ⟨_, ih, hstep⟩

theorem GuardedRun.concat_iff {other : σ → α → Prop} (hrun : GuardedRun step other s actions t)
    (hstep : step t action = some u) :
    GuardedRun step ok s (actions ++ [action]) u ↔
      GuardedRun step ok s actions t ∧ ok t action := by
  constructor
  · intro hall
    generalize hactions : actions ++ [action] = all at hall
    cases hall with
    | nil => simp at hactions
    | snoc hfirst hok =>
      obtain ⟨rfl, hsame⟩ := List.append_inj' hactions rfl
      cases hsame
      have hbefore := hfirst.runActions_eq
      rw [hrun.runActions_eq, Option.some.injEq] at hbefore
      exact hbefore ▸ ⟨hfirst, hok⟩
  · rintro ⟨hfirst, hok⟩
    exact hfirst.snoc hok hstep

theorem GuardedRun.of_forall {admitted : α → Prop} (hrun : GuardedRun step ok s actions t)
    (hall : ∀ action ∈ actions, admitted action) :
    GuardedRun step (fun _ action => admitted action) s actions t := by
  induction hrun with
  | nil => exact .nil _
  | snoc _ _ hstep ih =>
    rw [List.forall_mem_append] at hall
    exact .snoc (ih hall.1) (hall.2 _ (List.mem_singleton_self _)) hstep

/-- If a condition holds after a step exactly if the step is admitted, it holds all along a run
exactly if the run is guarded. -/
theorem GuardedRun.along_iff {I : σ → Prop}
    (hkeep : ∀ s a t, I s → step s a = some t → (I t ↔ ok s a)) (hrun : Run step s actions t)
    (hinit : I s) :
    GuardedRun step (fun s _ => I s) s actions t ∧ I t ↔ GuardedRun step ok s actions t := by
  induction hrun with
  | nil => exact ⟨fun _ => .nil _, fun _ => ⟨.nil _, hinit⟩⟩
  | @snoc t u actions action hfirst _ hstep ih =>
    rw [hfirst.concat_iff hstep, hfirst.concat_iff hstep, ← ih]
    constructor
    · rintro ⟨hbefore, hu⟩
      exact ⟨hbefore, (hkeep t action u hbefore.2 hstep).mp hu⟩
    · rintro ⟨hbefore, hok⟩
      exact ⟨hbefore, (hkeep t action u hbefore.2 hstep).mpr hok⟩

/-- If a condition holds after a step exactly if it held before and the step is admitted, then it
holds at the end of a run exactly if the run is guarded. -/
theorem GuardedRun.reached_iff {I J : σ → Prop} (hkeep : ∀ s a t, J s → step s a = some t → J t)
    (hiff : ∀ s a t, J s → step s a = some t → (I t ↔ I s ∧ ok s a)) (hrun : Run step s actions t)
    (hinv : J s) (hinit : I s) : I t ↔ GuardedRun step ok s actions t := by
  induction hrun with
  | nil => exact ⟨fun _ => .nil _, fun _ => hinit⟩
  | @snoc t u actions action hfirst _ hstep ih =>
    have ht : J t := hfirst.invariant J (fun s a t hs _ => hkeep s a t hs) hinv
    rw [hfirst.concat_iff hstep, hiff t action u ht hstep, ih]

theorem run_of_runActions (hrun : runActions step s actions = some t) : Run step s actions t := by
  induction actions generalizing s with
  | nil =>
    simp only [runActions, Option.some.injEq] at hrun
    subst t
    exact .nil s
  | cons action rest ih =>
    simp only [runActions, Option.bind_eq_some_iff] at hrun
    obtain ⟨u, hstep, hrest⟩ := hrun
    have hone : Run step s [action] u :=
      (GuardedRun.nil s).snoc trivial hstep
    exact GuardedRun.trans hone (ih hrest)

end StepSystem
