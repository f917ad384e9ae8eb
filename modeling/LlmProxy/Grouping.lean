import LlmProxy.KeyedFold
import Mathlib.Algebra.BigOperators.Group.List.Lemmas
import Mathlib.Data.List.Dedup

/-!
# Rows in groups

`GROUP BY` splits the rows of a query by a key.  Sums over the groups, added up, are the sums over
all rows, whatever the order of the groups.
-/

namespace Grouping

open List

variable {Row K M : Type*} [DecidableEq K]

def groups (key : Row → K) (rows : List Row) : List K := (rows.map key).dedup

def members (key : Row → K) (rows : List Row) (k : K) : List Row :=
  rows.filter fun row => key row = k

theorem mem_groups {key : Row → K} {rows : List Row} {k : K} :
    k ∈ groups key rows ↔ ∃ row ∈ rows, key row = k := by
  rw [groups, mem_dedup, mem_map]

theorem sum_members [AddCommMonoid M] (key : Row → K) (f : Row → M) {rows : List Row} {ks : List K}
    (hks : ks.Nodup) (hall : ∀ row ∈ rows, key row ∈ ks) :
    (ks.map fun k => ((members key rows k).map f).sum).sum = (rows.map f).sum := by
  induction rows with
  | nil => simp [members]
  | cons row rows ih =>
    rw [forall_mem_cons] at hall
    -- The row adds its value to its own group and nothing to the others.
    have hsplit : ∀ k, ((members key (row :: rows) k).map f).sum =
        (if key row = k then f row else 0) + ((members key rows k).map f).sum := by
      intro k
      by_cases hkey : key row = k
      · simp [members, hkey]
      · simp [members, hkey]
    have hown : (ks.map fun k => if key row = k then f row else 0).sum = f row := by
      rw [sum_map_eq_nsmul_single (key row) _ fun k hk _ => if_neg (Ne.symm hk),
        count_eq_one_of_mem hks hall.1, if_pos rfl, one_nsmul]
    simp only [hsplit]
    rw [sum_map_add, hown, ih hall.2, map_cons, sum_cons]

theorem sum_groups [AddCommMonoid M] (key : Row → K) (f : Row → M) (rows : List Row) :
    ((groups key rows).map fun k => ((members key rows k).map f).sum).sum = (rows.map f).sum :=
  sum_members key f (nodup_dedup _) fun row hrow => mem_groups.mpr ⟨row, hrow, rfl⟩

/-- What a loop with `*map.entry(key).or_default() += value` leaves. -/
def totals [AddCommMonoid M] (key : Row → K) (f : Row → M) (rows : List Row) :
    AList fun _ : K => M :=
  KeyedFold.upsertAll key (fun row old => old.getD 0 + f row) ∅ rows

theorem lookup_totals [AddCommMonoid M] (key : Row → K) (f : Row → M) (rows : List Row) (k : K) :
    ((totals key f rows).lookup k).getD 0 = ((members key rows k).map f).sum := by
  have hfold : ∀ (rows : List Row) (old : Option M),
      (rows.foldl (fun old row => some (old.getD 0 + f row)) old).getD 0 =
        old.getD 0 + (rows.map f).sum := by
    intro rows
    induction rows with
    | nil => simp
    | cons row rows ih => simp [ih, add_assoc]
  rw [totals, KeyedFold.lookup_upsertAll, hfold]
  simp [members]

theorem sum_totals [AddCommMonoid M] (key : Row → K) (f : Row → M) (rows : List Row) {ks : List K}
    (hks : ks.Nodup) (hall : ∀ row ∈ rows, key row ∈ ks) :
    (ks.map fun k => ((totals key f rows).lookup k).getD 0).sum = (rows.map f).sum := by
  simp only [lookup_totals]
  exact sum_members key f hks hall

theorem sum_values_totals [AddCommMonoid M] (key : Row → K) (f : Row → M) (rows : List Row) :
    ((totals key f rows).keys.map fun k => ((totals key f rows).lookup k).getD 0).sum =
      (rows.map f).sum :=
  sum_totals key f rows (AList.keys_nodup _) fun _ hrow =>
    KeyedFold.mem_upsertAll _ _ _ _ (.inr (mem_map_of_mem hrow))

end Grouping
