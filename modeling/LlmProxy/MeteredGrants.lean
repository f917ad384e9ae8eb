import Mathlib.Algebra.Order.Field.Basic
import Mathlib.Tactic.Linarith
import Mathlib.Tactic.Ring

/-!
# Grants of a bucket that is refilled

A bucket is refilled at a constant rate up to its capacity, and each grant takes one
unit.  In any window of time it grants at most its capacity and what flows in during
the window.
-/

namespace MeteredGrants

variable {K : Type*} [Field K] [LinearOrder K] [IsStrictOrderedRing K]

def levelAt (capacity rate level since now : K) : K := min (level + (now - since) * rate) capacity

/-- The events of a bucket, each with its time and whether it is granted a unit, from a
level at some time on.  What is granted and what is left is covered by the level. -/
inductive Metered (capacity rate : K) : K → K → List (K × Bool) → Prop
  | nil (level since : K) : Metered capacity rate level since []
  | cons {level since now left : K} {granted : Bool} {events : List (K × Bool)}
      (hlater : since ≤ now) (hleft : 0 ≤ left)
      (hcovered : left + (if granted then 1 else 0) ≤ levelAt capacity rate level since now)
      (hrest : Metered capacity rate left now events) :
      Metered capacity rate level since ((now, granted) :: events)

def grantsIn (start stop : K) (events : List (K × Bool)) : ℕ :=
  events.countP fun event => event.2 && decide (start ≤ event.1) && decide (event.1 ≤ stop)

variable {capacity rate level since start stop : K} {events : List (K × Bool)}

omit [IsStrictOrderedRing K] in
theorem grantsIn_cons (now : K) (granted : Bool) :
    (grantsIn start stop ((now, granted) :: events) : K) =
      grantsIn start stop events +
        if granted = true ∧ start ≤ now ∧ now ≤ stop then 1 else 0 := by
  unfold grantsIn
  rw [List.countP_cons]
  push_cast
  simp only [Bool.and_eq_true, decide_eq_true_eq, and_assoc]

variable (hmetered : Metered capacity rate level since events)

include hmetered

omit [IsStrictOrderedRing K] in
theorem Metered.since_le : ∀ event ∈ events, since ≤ event.1 := by
  induction hmetered with
  | nil => simp
  | cons hlater _ _ _ ih =>
    refine List.forall_mem_cons.mpr ⟨hlater, ?_⟩
    intro event hevent
    exact hlater.trans (ih event hevent)

omit [IsStrictOrderedRing K] in
theorem Metered.grantsIn_eq_zero (hstop : stop < since) : grantsIn start stop events = 0 := by
  refine List.countP_eq_zero.mpr ?_
  intro event hevent hcounted
  rw [Bool.and_eq_true, decide_eq_true_iff] at hcounted
  exact absurd hcounted.2 (not_le_of_gt (hstop.trans_le (hmetered.since_le event hevent)))

theorem Metered.grantsIn_le (hrate : 0 ≤ rate) (hlevel : 0 ≤ level) (hsince : since ≤ stop) :
    (grantsIn start stop events : K) ≤ level + (stop - since) * rate := by
  induction hmetered with
  | nil level since =>
    have hflow : 0 ≤ (stop - since) * rate := mul_nonneg (by linarith) hrate
    simp only [grantsIn, List.countP_nil, Nat.cast_zero]
    linarith
  | @cons level since now left granted events hlater hleft hcovered hrest ih =>
    have hcover : left + (if granted then 1 else 0) ≤ level + (now - since) * rate :=
      hcovered.trans (min_le_left _ _)
    rw [grantsIn_cons]
    by_cases hnow : now ≤ stop
    · have hlaterGrants := ih hleft hnow
      have hone : (if granted = true ∧ start ≤ now ∧ now ≤ stop then (1 : K) else 0) ≤
          if granted then 1 else 0 := by
        split_ifs with hboth hgranted
        · exact le_rfl
        · exact absurd hboth.1 hgranted
        · exact zero_le_one
        · exact le_rfl
      linarith
    · -- Neither this event nor a later one is in the window.
      have hnone : (if granted = true ∧ start ≤ now ∧ now ≤ stop then (1 : K) else 0) = 0 :=
        if_neg fun hboth => hnow hboth.2.2
      have hzero : grantsIn start stop events = 0 := hrest.grantsIn_eq_zero (lt_of_not_ge hnow)
      have hflow : 0 ≤ (stop - since) * rate := mul_nonneg (by linarith) hrate
      rw [hzero]
      push_cast
      linarith

/-- A window grants at most the capacity and what flows in while it lasts. -/
theorem Metered.grantsIn_window_le (hrate : 0 ≤ rate) (hcapacity : 0 ≤ capacity) {length : K}
    (hlength : 0 ≤ length) :
    (grantsIn start (start + length) events : K) ≤ capacity + length * rate := by
  have hflow : 0 ≤ length * rate := mul_nonneg hlength hrate
  induction hmetered with
  | nil =>
    simp only [grantsIn, List.countP_nil, Nat.cast_zero]
    linarith
  | @cons level since now left granted events hlater hleft hcovered hrest ih =>
    rw [grantsIn_cons]
    by_cases hwindow : start ≤ now ∧ now ≤ start + length
    · -- The first event of the window: the level is at most the capacity.
      have hrestGrants : (grantsIn start (start + length) events : K) ≤
          left + (start + length - now) * rate := hrest.grantsIn_le hrate hleft hwindow.2
      have hcover : left + (if granted then 1 else 0) ≤ capacity :=
        hcovered.trans (min_le_right _ _)
      have hinflow : (start + length - now) * rate ≤ length * rate :=
        mul_le_mul_of_nonneg_right (by linarith [hwindow.1]) hrate
      simp only [hwindow, and_true]
      linarith
    · rw [if_neg fun hboth => hwindow hboth.2, add_zero]
      exact ih

end MeteredGrants
