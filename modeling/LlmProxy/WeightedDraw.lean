import Mathlib

/-!
# Drawing by weight

Items lie one after the other, each as wide as its weight, and a number below the total falls
into one of them.  Counted over all these numbers, the items with a property are drawn as often
as they weigh together.
-/

namespace WeightedDraw

universe u

variable {A : Type u} (weight : A → ℕ)

def total (items : List A) : ℕ := (items.map weight).sum

def pick : List A → ℕ → Option A
  | [], _ => none
  | item :: rest, n => if n < weight item then some item else pick rest (n - weight item)

@[simp] theorem total_nil : total weight [] = 0 := rfl

@[simp] theorem total_cons (item : A) (rest : List A) :
    total weight (item :: rest) = weight item + total weight rest := by
  simp [total]

theorem total_le_of_sublist {items others : List A} (hsub : items.Sublist others) :
    total weight items ≤ total weight others :=
  (hsub.map weight).sum_le_sum fun _ _ => Nat.zero_le _

theorem weight_le_total {item : A} {items : List A} (hmem : item ∈ items) :
    weight item ≤ total weight items :=
  List.single_le_sum (fun _ _ => Nat.zero_le _) _ (List.mem_map_of_mem hmem)

theorem total_map {B : Type u} (f : B → A) (items : List B) :
    total weight (items.map f) = total (fun item => weight (f item)) items := by
  simp [total, Function.comp_def]

theorem count_pick (p : A → Bool) (items : List A) :
    Nat.count (fun n => (pick weight items n).any p = true) (total weight items) =
      total weight (items.filter p) := by
  induction items with
  | nil => rfl
  | cons item rest ih =>
    have hfirst : Nat.count (fun n => (pick weight (item :: rest) n).any p = true)
        (weight item) = if p item then weight item else 0 := by
      split_ifs with hitem
      · exact Nat.count_iff_forall.mpr fun n hn => by simp [pick, hn, hitem]
      · exact Nat.count_iff_forall_not.mpr fun n hn => by simp [pick, hn, hitem]
    have hrest : (fun n => (pick weight (item :: rest) (weight item + n)).any p = true) =
        fun n => (pick weight rest n).any p = true := by
      funext n
      have hge : ¬weight item + n < weight item := by omega
      simp [pick]
    rw [total_cons, Nat.count_add, hfirst]
    simp only [hrest, ih, List.filter_cons]
    split_ifs with hitem
    · rw [total_cons]
    · rw [Nat.zero_add]

/-- A way of drawing that finds the item a number falls into draws each item of a list without
repetition as often as it weighs. -/
theorem count_draw [DecidableEq A] {draw : ℕ → Option A} {items : List A}
    (hdraw : ∀ n < total weight items, draw n = pick weight items n) (hnodup : items.Nodup)
    {item : A} (hmem : item ∈ items) :
    Nat.count (fun n => draw n = some item) (total weight items) = weight item := by
  have hany : ∀ n, (pick weight items n).any (· == item) = true ↔
      pick weight items n = some item := by
    intro n
    cases pick weight items n <;> simp
  have honly : items.filter (· == item) = [item] := by
    rw [List.filter_beq, List.count_eq_one_of_mem hnodup hmem]
    rfl
  have hcount := count_pick weight (· == item) items
  rw [honly, total_cons, total_nil, Nat.add_zero] at hcount
  rw [← hcount]
  apply le_antisymm
  · apply Nat.count_mono_left
    intro n hn hitem
    rwa [hany, ← hdraw n hn]
  · apply Nat.count_mono_left
    intro n hn hitem
    rwa [hdraw n hn, ← hany]

end WeightedDraw
