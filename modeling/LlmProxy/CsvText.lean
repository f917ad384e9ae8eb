import Mathlib.Data.List.Basic
import Mathlib.Tactic.Common

/-!
# CSV text

Fields are separated by commas and records end in a line feed, as in RFC 4180 with bare line feeds.
-/

namespace Csv

open List Option

def special (c : Char) : Bool := c = ',' || c = '"' || c = '\n' || c = '\r'

def escape (c : Char) : List Char := if c = '"' then ['"', '"'] else [c]

/-- A field that holds a comma, a quote or a line break stands in quotes, with its quotes doubled.
-/
def quote (s : List Char) : List Char :=
  if s.any special then '"' :: s.flatMap escape ++ ['"'] else s

def line (fields : List (List Char)) : List Char :=
  List.intercalate [','] (fields.map quote) ++ ['\n']

inductive Mode where
  | start
  | bare
  | quoted
  | closed
  deriving DecidableEq, Repr

structure Reader where
  mode : Mode
  field : List Char
  record : List (List Char)
  records : List (List (List Char))

/-- The reader refuses a quote or a carriage return in a bare field and anything but a separator
after a closing quote. -/
def step (s : Reader) (c : Char) : Option Reader :=
  if s.mode = .quoted then
    some (if c = '"' then { s with mode := .closed } else { s with field := s.field ++ [c] })
  else if c = ',' then some ⟨.start, [], s.record ++ [s.field], s.records⟩
  else if c = '\n' then some ⟨.start, [], [], s.records ++ [s.record ++ [s.field]]⟩
  else if c = '"' then
    match s.mode with
    | .start => some { s with mode := .quoted }
    | .closed => some { s with mode := .quoted, field := s.field ++ [c] }
    | _ => none
  else if c = '\r' ∨ s.mode = .closed then none
  else some { s with mode := .bare, field := s.field ++ [c] }

/-- The last record may come without its line feed. -/
def finish (s : Reader) : Option (List (List (List Char))) :=
  if s.mode = .quoted then none
  else if s.mode = .start ∧ s.record = [] then some s.records
  else some (s.records ++ [s.record ++ [s.field]])

def parse (s : List Char) : Option (List (List (List Char))) :=
  (s.foldlM step ⟨.start, [], [], []⟩).bind finish

/-! ## Reading what was written -/

variable {record : List (List Char)} {records : List (List (List Char))} {s : List Char}

theorem quote_of_plain (hplain : ∀ c ∈ s, special c = false) : quote s = s := by
  have hnone : s.any special = false := by simpa using hplain
  rw [quote, hnone]
  rfl

theorem read_bare {mode : Mode} (hmode : mode = .start ∨ mode = .bare) (field : List Char)
    (hplain : ∀ c ∈ s, special c = false) :
    ∃ last, (last = .start ∨ last = .bare) ∧
      s.foldlM step ⟨mode, field, record, records⟩ =
        some ⟨last, field ++ s, record, records⟩ := by
  induction s generalizing mode field with
  | nil => exact ⟨mode, hmode, by simp⟩
  | cons c s ih =>
    have hc := hplain c mem_cons_self
    simp only [special, Bool.or_eq_false_iff, decide_eq_false_iff_not] at hc
    obtain ⟨last, hlast, hread⟩ := ih (.inr rfl) (field ++ [c]) (forall_mem_cons.mp hplain).2
    have hstep : step ⟨mode, field, record, records⟩ c =
        some ⟨.bare, field ++ [c], record, records⟩ := by
      rcases hmode with rfl | rfl <;> simp [step, hc]
    refine ⟨last, hlast, ?_⟩
    rw [foldlM_cons, hstep]
    simpa using hread

theorem read_escaped (s field : List Char) :
    (s.flatMap escape).foldlM step ⟨.quoted, field, record, records⟩ =
      some ⟨.quoted, field ++ s, record, records⟩ := by
  induction s generalizing field with
  | nil => simp
  | cons c s ih =>
    have hchar : (escape c).foldlM step ⟨.quoted, field, record, records⟩ =
        some ⟨.quoted, field ++ [c], record, records⟩ := by
      by_cases hquote : c = '"' <;> simp [escape, step, hquote]
    rw [flatMap_cons, foldlM_append, hchar]
    simpa using ih (field ++ [c])

theorem read_quote (s : List Char) :
    ∃ last, last ≠ .quoted ∧
      (quote s).foldlM step ⟨.start, [], record, records⟩ = some ⟨last, s, record, records⟩ := by
  by_cases hplain : ∀ c ∈ s, special c = false
  · obtain ⟨last, hlast, hread⟩ := @read_bare record records s .start (.inl rfl) [] hplain
    rw [quote_of_plain hplain]
    exact ⟨last, by rcases hlast with rfl | rfl <;> decide, hread⟩
  · have hany : s.any special = true := by simpa using hplain
    refine ⟨.closed, by decide, ?_⟩
    rw [quote, if_pos hany]
    change ((s.flatMap escape ++ ['"']).foldlM step ⟨.quoted, [], record, records⟩) = _
    rw [foldlM_append, read_escaped]
    rfl

theorem step_comma {mode : Mode} (hmode : mode ≠ .quoted) (field : List Char) :
    step ⟨mode, field, record, records⟩ ',' =
      some ⟨.start, [], record ++ [field], records⟩ := by
  simp [step, hmode]

theorem step_lineFeed {mode : Mode} (hmode : mode ≠ .quoted) (field : List Char) :
    step ⟨mode, field, record, records⟩ '\n' =
      some ⟨.start, [], [], records ++ [record ++ [field]]⟩ := by
  simp [step, hmode]

theorem read_line (field : List Char) (fields : List (List Char)) :
    (line (field :: fields)).foldlM step ⟨.start, [], record, records⟩ =
      some ⟨.start, [], [], records ++ [record ++ field :: fields]⟩ := by
  induction fields generalizing field record with
  | nil =>
    obtain ⟨last, hlast, hread⟩ := @read_quote record records field
    simp [line, hread, step_lineFeed hlast]
  | cons next fields ih =>
    obtain ⟨last, hlast, hread⟩ := @read_quote record records field
    have hline : line (field :: next :: fields) = quote field ++ ',' :: line (next :: fields) := by
      simp [line]
    rw [hline, foldlM_append, hread, bind_eq_bind, bind_some,
      foldlM_cons, step_comma hlast, bind_eq_bind, bind_some, ih]
    simp

theorem parse_lines (table : List (List (List Char))) (hfields : ∀ fields ∈ table, fields ≠ []) :
    parse (table.flatMap line) = some table := by
  have hread : ∀ (done : List (List (List Char))),
      (table.flatMap line).foldlM step ⟨.start, [], [], done⟩ =
        some ⟨.start, [], [], done ++ table⟩ := by
    induction table with
    | nil => simp
    | cons fields table ih =>
      intro done
      obtain ⟨hne, hrest⟩ := forall_mem_cons.mp hfields
      obtain ⟨field, more, rfl⟩ := exists_cons_of_ne_nil hne
      rw [flatMap_cons, foldlM_append, read_line, bind_eq_bind, bind_some, ih hrest]
      simp
  rw [parse, hread]
  rfl

end Csv
