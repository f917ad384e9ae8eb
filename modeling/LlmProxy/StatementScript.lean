import Mathlib.Tactic.Common

/-!
# Scripts of database statements

A script is the list of calls a program makes inside one transaction.  The transaction works on a
copy.  Only a script that comes to its end replaces the committed content, and what it leaves does
then not depend on the faults.
-/

namespace StatementScript

universe u v

variable {D : Type u} {E : Type v}

inductive Step (D : Type u) (E : Type v)
  | call (report : String → E) (effect : D → Except String D)
  | fail (error : E)

/-- What a step makes of the copy if the database does not fail. -/
def Step.apply : Step D E → D → Except E D
  | .call report effect, db =>
    match effect db with
    | .ok after => .ok after
    | .error e => .error (report e)
  | .fail error, _ => .error error

def applyAll (steps : List (Step D E)) (db : D) : Except E D :=
  steps.foldlM (fun db step => step.apply db) db

/-- The database can refuse a statement for its effect or for a reason of its own: `faults` gives
the error of each call that fails so. -/
def runAll (faults : ℕ → Option String) : List (Step D E) → D → ℕ → Except E D
  | [], db, _ => .ok db
  | .fail error :: _, _, _ => .error error
  | .call report effect :: rest, db, n =>
    match faults n with
    | some e => .error (report e)
    | none =>
      match effect db with
      | .ok after => runAll faults rest after (n + 1)
      | .error e => .error (report e)

/-! ## Applying steps one after the other -/

variable {steps : List (Step D E)} {before after : D}

@[simp] theorem applyAll_nil (db : D) : applyAll ([] : List (Step D E)) db = .ok db := rfl

theorem applyAll_cons_eq_ok_iff {step : Step D E} {rest : List (Step D E)} :
    applyAll (step :: rest) before = .ok after ↔
      ∃ middle, step.apply before = .ok middle ∧ applyAll rest middle = .ok after := by
  unfold applyAll
  rw [List.foldlM_cons]
  cases step.apply before with
  | error => simp [bind, Except.bind]
  | ok => simp [bind, Except.bind]

theorem applyAll_append_eq_ok_iff {first second : List (Step D E)} :
    applyAll (first ++ second) before = .ok after ↔
      ∃ middle, applyAll first before = .ok middle ∧ applyAll second middle = .ok after := by
  induction first generalizing before with
  | nil => simp
  | cons step rest ih =>
    simp only [List.cons_append, applyAll_cons_eq_ok_iff, ih]
    constructor
    · rintro ⟨middle, hstep, last, hrest, hsecond⟩
      exact ⟨last, ⟨middle, hstep, hrest⟩, hsecond⟩
    · rintro ⟨last, ⟨middle, hstep, hrest⟩, hsecond⟩
      exact ⟨middle, hstep, last, hrest, hsecond⟩

@[simp] theorem apply_call_eq_ok_iff {report : String → E} {effect : D → Except String D} :
    (Step.call report effect).apply before = .ok after ↔ effect before = .ok after := by
  simp only [Step.apply]
  cases effect before with
  | ok => simp
  | error => simp

theorem applyAll_invariant (I : D → Prop)
    (hkeep : ∀ step ∈ steps, ∀ before after, I before → step.apply before = .ok after → I after)
    (hinit : I before) (happly : applyAll steps before = .ok after) : I after := by
  induction steps generalizing before with
  | nil =>
    cases happly
    exact hinit
  | cons step rest ih =>
    rw [List.forall_mem_cons] at hkeep
    obtain ⟨middle, hstep, hrest⟩ := applyAll_cons_eq_ok_iff.mp happly
    exact ih hkeep.2 (hkeep.1 _ _ hinit hstep) hrest

theorem exists_apply_of_applyAll (happly : applyAll steps before = .ok after) {step : Step D E}
    (hstep : step ∈ steps) : ∃ first next, step.apply first = .ok next := by
  induction steps generalizing before with
  | nil => cases hstep
  | cons head rest ih =>
    obtain ⟨middle, hhead, hrest⟩ := applyAll_cons_eq_ok_iff.mp happly
    rcases List.mem_cons.mp hstep with rfl | hmem
    · exact ⟨before, middle, hhead⟩
    · exact ih hrest hmem

/-- A script succeeds if each step does and keeps what the next ones need. -/
theorem exists_applyAll (I : D → Prop)
    (hkeep : ∀ step ∈ steps, ∀ before, I before → ∃ after, step.apply before = .ok after ∧ I after)
    (hinit : I before) : ∃ after, applyAll steps before = .ok after := by
  induction steps generalizing before with
  | nil => exact ⟨before, rfl⟩
  | cons step rest ih =>
    rw [List.forall_mem_cons] at hkeep
    obtain ⟨middle, hstep, hmiddle⟩ := hkeep.1 before hinit
    obtain ⟨after, hafter⟩ := ih hkeep.2 hmiddle
    exact ⟨after, applyAll_cons_eq_ok_iff.mpr ⟨middle, hstep, hafter⟩⟩

theorem applyAll_of_runAll {faults : ℕ → Option String} {n : ℕ}
    (hrun : runAll faults steps before n = .ok after) : applyAll steps before = .ok after := by
  induction steps generalizing before n with
  | nil => exact hrun
  | cons step rest ih =>
    cases step with
    | fail => cases hrun
    | call report effect =>
      simp only [runAll] at hrun
      cases hfault : faults n with
      | some => simp [hfault] at hrun
      | none =>
        cases heffect : effect before with
        | error => simp [hfault, heffect] at hrun
        | ok middle =>
          simp only [hfault, heffect] at hrun
          exact applyAll_cons_eq_ok_iff.mpr
            ⟨middle, apply_call_eq_ok_iff.mpr heffect, ih hrun⟩

theorem runAll_of_applyAll (n : ℕ) (happly : applyAll steps before = .ok after) :
    runAll (fun _ => none) steps before n = .ok after := by
  induction steps generalizing before n with
  | nil => exact happly
  | cons step rest ih =>
    obtain ⟨middle, hstep, hrest⟩ := applyAll_cons_eq_ok_iff.mp happly
    cases step with
    | fail => cases hstep
    | call =>
      rw [apply_call_eq_ok_iff] at hstep
      simp only [runAll, hstep]
      exact ih (n + 1) hrest

end StatementScript
