import Mathlib.Data.List.Nodup
import Mathlib.Tactic.Common

/-!
# Tables with a primary key

A table is the list of its rows in the order of their insertion; no two rows have
the same key.  Statements that would store a key twice fail, so a table is well
formed by construction.
-/

universe u v

@[ext] structure KeyedTable {Row : Type u} {K : Type v} (key : Row → K) where
  rows : List Row
  nodup : (rows.map key).Nodup

namespace KeyedTable

open List

variable {Row : Type u} {K : Type v} {key : Row → K}

instance [DecidableEq Row] : DecidableEq (KeyedTable key) := fun a b =>
  decidable_of_iff (a.rows = b.rows) ⟨KeyedTable.ext, congrArg rows⟩

def empty : KeyedTable key := ⟨[], List.nodup_nil⟩

def single (row : Row) : KeyedTable key := ⟨[row], List.nodup_singleton _⟩

variable (table : KeyedTable key)

@[simp] theorem rows_empty : (empty : KeyedTable key).rows = [] := rfl

def filter (keep : Row → Bool) : KeyedTable key :=
  ⟨table.rows.filter keep, table.nodup.sublist (List.filter_sublist.map key)⟩

@[simp] theorem rows_filter (keep : Row → Bool) :
    (table.filter keep).rows = table.rows.filter keep := rfl

def update (f : Row → Row) (hkey : ∀ row, key (f row) = key row) : KeyedTable key :=
  ⟨table.rows.map f, by simpa [Function.comp_def, hkey] using table.nodup⟩

variable {table : KeyedTable key} {row : Row} {p : K → Bool} {new : List Row}

@[simp] theorem rows_update (table : KeyedTable key) (f : Row → Row)
    (hkey : ∀ row, key (f row) = key row) :
    (table.update f hkey).rows = table.rows.map f := rfl

theorem filter_rows_update (table : KeyedTable key) {f : Row → Row}
    {hkey : ∀ row, key (f row) = key row} (hsame : ∀ row, p (key row) = true → f row = row) :
    ((table.update f hkey).rows.filter fun row => p (key row)) =
      table.rows.filter fun row => p (key row) := by
  have hp : ((fun row => p (key row)) ∘ f) = fun row => p (key row) := by
    funext row
    rw [Function.comp_apply, hkey]
  rw [rows_update, filter_map, hp]
  refine (map_congr_left fun row hrow => ?_).trans (map_id' _)
  exact hsame row (mem_filter.mp hrow).2

theorem find?_eq_some (table : KeyedTable key) (hrow : row ∈ table.rows) {p : Row → Bool}
    (hp : p row = true) (hkey : ∀ other, p other = true → key other = key row) :
    table.rows.find? p = some row := by
  obtain ⟨found, hfound⟩ := Option.isSome_iff_exists.mp (find?_isSome.mpr ⟨row, hrow, hp⟩)
  have hsame : found = row :=
    inj_on_of_nodup_map table.nodup (mem_of_find?_eq_some hfound) hrow
      (hkey found (find?_some hfound))
  rw [hfound, hsame]

variable [DecidableEq K]

/-- `INSERT INTO table`: nothing comes back if the key is taken. -/
def insert (table : KeyedTable key) (row : Row) : Option (KeyedTable key) :=
  if hfresh : key row ∈ table.rows.map key then none
  else
    some ⟨table.rows ++ [row], by
      rw [List.map_append]
      exact table.nodup.append (List.nodup_singleton _) (by simpa using hfresh)⟩

theorem insert_eq_some_iff {grown : KeyedTable key} :
    table.insert row = some grown ↔
      key row ∉ table.rows.map key ∧ grown.rows = table.rows ++ [row] := by
  unfold insert
  split_ifs with hfresh
  · simp [hfresh]
  · simp only [Option.some.injEq, hfresh, not_false_eq_true, true_and]
    constructor
    · rintro rfl
      rfl
    · exact fun hrows => KeyedTable.ext hrows.symm

/-- `INSERT INTO table .. ON CONFLICT DO UPDATE SET ..`: the row takes the place of the
row with its key. -/
def upsert (table : KeyedTable key) (row : Row) : KeyedTable key :=
  if hfresh : key row ∈ table.rows.map key then
    ⟨table.rows.map fun old => if key old = key row then row else old, by
      rw [List.map_map]
      have hkeys : key ∘ (fun old => if key old = key row then row else old) = key := by
        funext old
        by_cases hsame : key old = key row
        · simp [hsame]
        · simp [hsame]
      rw [hkeys]
      exact table.nodup⟩
  else
    ⟨table.rows ++ [row], by
      rw [List.map_append]
      exact table.nodup.append (List.nodup_singleton _) (by simpa using hfresh)⟩

theorem rows_upsert_of_fresh (hfresh : key row ∉ table.rows.map key) :
    (table.upsert row).rows = table.rows ++ [row] := by
  rw [upsert, dif_neg hfresh]

theorem mem_upsert_iff {old : Row} :
    old ∈ (table.upsert row).rows ↔ old = row ∨ old ∈ table.rows ∧ key old ≠ key row := by
  unfold upsert
  split_ifs with hfresh
  · obtain ⟨taken, htaken, hkey⟩ := mem_map.mp hfresh
    simp only [mem_map]
    constructor
    · rintro ⟨other, hother, rfl⟩
      split_ifs with hsame
      · exact .inl rfl
      · exact .inr ⟨hother, hsame⟩
    · rintro (rfl | ⟨hold, hother⟩)
      · exact ⟨taken, htaken, if_pos hkey⟩
      · exact ⟨old, hold, if_neg hother⟩
  · simp only [mem_append, mem_singleton]
    constructor
    · rintro (hold | rfl)
      · exact .inr ⟨hold, fun hsame => hfresh (hsame ▸ mem_map_of_mem hold)⟩
      · exact .inl rfl
    · rintro (rfl | ⟨hold, -⟩)
      · exact .inr rfl
      · exact .inl hold

theorem upsert_of_mem (hmem : row ∈ table.rows) : table.upsert row = table := by
  apply KeyedTable.ext
  rw [upsert, dif_pos (mem_map_of_mem hmem)]
  refine (map_congr_left fun old hold => ?_).trans (map_id' _)
  split_ifs with hsame
  · exact (inj_on_of_nodup_map table.nodup hold hmem hsame).symm
  · rfl

theorem filter_rows_upsert (table : KeyedTable key) (row : Row) (hother : p (key row) = false) :
    ((table.upsert row).rows.filter fun old => p (key old)) =
      table.rows.filter fun old => p (key old) := by
  unfold upsert
  split_ifs with hfresh
  · simp only
    rw [filter_map]
    have hsame : ((fun old => p (key old)) ∘ fun old => if key old = key row then row else old) =
        fun old => p (key old) := by
      funext old
      by_cases hkey : key old = key row
      · simp [hkey]
      · simp [hkey]
    rw [hsame]
    refine (map_congr_left fun old hold => ?_).trans (map_id' _)
    have hkept : key old ≠ key row := by
      intro hkey
      rw [mem_filter, hkey, hother] at hold
      exact Bool.false_ne_true hold.2
    rw [if_neg hkept]
  · simp [hother]

def upsertAll (table : KeyedTable key) (new : List Row) : KeyedTable key :=
  new.foldl upsert table

theorem mem_upsertAll_iff (hnew : (new.map key).Nodup) {old : Row} :
    old ∈ (table.upsertAll new).rows ↔ old ∈ new ∨ old ∈ table.rows ∧ key old ∉ new.map key := by
  induction new generalizing table with
  | nil => simp [upsertAll]
  | cons row new ih =>
    rw [map_cons, nodup_cons] at hnew
    have hstep : table.upsertAll (row :: new) = (table.upsert row).upsertAll new := rfl
    rw [hstep, ih hnew.2, mem_upsert_iff, mem_cons, map_cons, mem_cons, not_or]
    constructor
    · rintro (hold | ⟨rfl | ⟨hold, hother⟩, hrest⟩)
      · exact .inl (.inr hold)
      · exact .inl (.inl rfl)
      · exact .inr ⟨hold, hother, hrest⟩
    · rintro ((rfl | hold) | ⟨hold, hother, hrest⟩)
      · exact .inr ⟨.inl rfl, hnew.1⟩
      · exact .inl hold
      · exact .inr ⟨.inr ⟨hold, hother⟩, hrest⟩

theorem filter_rows_upsertAll (table : KeyedTable key) (hother : ∀ row ∈ new, p (key row) = false) :
    ((table.upsertAll new).rows.filter fun old => p (key old)) =
      table.rows.filter fun old => p (key old) := by
  induction new generalizing table with
  | nil => rfl
  | cons row new ih =>
    rw [forall_mem_cons] at hother
    exact (ih (table.upsert row) hother.2).trans (table.filter_rows_upsert row hother.1)

theorem upsertAll_of_mem (hmem : ∀ row ∈ new, row ∈ table.rows) : table.upsertAll new = table := by
  induction new with
  | nil => rfl
  | cons row new ih =>
    rw [forall_mem_cons] at hmem
    have hstep : table.upsertAll (row :: new) = (table.upsert row).upsertAll new := rfl
    rw [hstep, upsert_of_mem hmem.1, ih hmem.2]

end KeyedTable
