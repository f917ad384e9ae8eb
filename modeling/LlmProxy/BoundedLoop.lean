import Mathlib.Tactic.Common

/-!
# Loops with early exit, run with fuel

A loop body looks at the state and either goes round again with a new state or leaves the loop with
a result.
-/

namespace BoundedLoop

inductive Round (σ ε : Type) where
  | again (state : σ)
  | leave (result : ε)

variable {σ ε : Type} {body : σ → Round σ ε}

/-- Answers nothing when the number of rounds does not suffice. -/
def runLoop (body : σ → Round σ ε) : ℕ → σ → Option ε
  | 0, _ => none
  | fuel + 1, state =>
    match body state with
    | .again next => runLoop body fuel next
    | .leave result => some result

variable {state : σ} {I : σ → Prop} {result : ε} {fuel : ℕ}

theorem runLoop_leave (hbody : body state = .leave result) (fuel : ℕ) :
    runLoop body (fuel + 1) state = some result := by
  simp only [runLoop, hbody]

theorem runLoop_again {next : σ} (hbody : body state = .again next) (fuel : ℕ) :
    runLoop body (fuel + 1) state = runLoop body fuel next := by
  simp only [runLoop, hbody]

/-- Partial correctness: what every further round keeps and every exit turns
into the postcondition. -/
theorem runLoop_rule {Q : ε → Prop}
    (hagain : ∀ state next, I state → body state = .again next → I next)
    (hleave : ∀ state result, I state → body state = .leave result → Q result) (hinit : I state)
    (hrun : runLoop body fuel state = some result) : Q result := by
  induction fuel generalizing state with
  | zero => simp [runLoop] at hrun
  | succ fuel ih =>
    cases hbody : body state with
    | again next =>
      rw [runLoop_again hbody] at hrun
      exact ih (hagain state next hinit hbody) hrun
    | leave last =>
      rw [runLoop_leave hbody, Option.some.injEq] at hrun
      subst last
      exact hleave state result hinit hbody

/-- Termination: fuel above the measure is enough. -/
theorem runLoop_terminates (measure : σ → ℕ)
    (hagain : ∀ state next, I state → body state = .again next →
      I next ∧ measure next < measure state) (hinit : I state) (hfuel : measure state < fuel) :
    ∃ result, runLoop body fuel state = some result := by
  induction fuel generalizing state with
  | zero => omega
  | succ fuel ih =>
    cases hbody : body state with
    | again next =>
      have hnext := hagain state next hinit hbody
      rw [runLoop_again hbody]
      exact ih hnext.1 (by omega)
    | leave last => exact ⟨last, runLoop_leave hbody fuel⟩

end BoundedLoop
