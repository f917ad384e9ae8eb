import Mathlib.Data.List.Basic
import Mathlib.Tactic

/-!
# Cutting a byte stream into lines

A stream arrives in pieces and is consumed line by line, where a line ends with its terminator.
-/

namespace LineCut

open List

variable {α : Type} [DecidableEq α] (nl : α)

/-- The first complete line of a buffer and the rest. -/
def takeLine (s : List α) : Option (List α × List α) :=
  (s.findIdx? (· = nl)).map fun position => s.splitAt (position + 1)

/-- The complete lines of a text and the rest. -/
def cutLines : List α → List (List α) × List α
  | [] => ([], [])
  | c :: rest =>
    if c = nl then ([c] :: (cutLines rest).1, (cutLines rest).2)
    else
      match (cutLines rest).1 with
      | [] => ([], c :: (cutLines rest).2)
      | line :: lines => ((c :: line) :: lines, (cutLines rest).2)

/-- Ends an unterminated last line. -/
def closeLine (s : List α) : List α :=
  if s ≠ [] ∧ s.getLast? ≠ some nl then s ++ [nl] else s

def dropEnd (x : α) (s : List α) : List α := if s.getLast? = some x then s.dropLast else s

/-- A buffer is worked off: each complete line is taken without its terminator,
and the unterminated rest stays. -/
def feedLines {σ : Type} (step : σ → List α → σ) (state : σ) (buffer : List α) : σ × List α :=
  (((cutLines nl buffer).1.map List.dropLast).foldl step state, (cutLines nl buffer).2)

def IsLine (line : List α) : Prop := ∃ body, line = body ++ [nl] ∧ nl ∉ body

@[simp] theorem dropEnd_nil (x : α) : dropEnd x [] = [] := rfl

@[simp] theorem dropEnd_concat_self (x : α) (s : List α) : dropEnd x (s ++ [x]) = s := by
  simp [dropEnd]

theorem dropEnd_concat_ne {x y : α} (hne : y ≠ x) (s : List α) :
    dropEnd x (s ++ [y]) = s ++ [y] := by
  simp [dropEnd, hne]

theorem dropEnd_of_not_mem {x : α} {s : List α} (hfree : x ∉ s) : dropEnd x s = s := by
  unfold dropEnd
  rw [if_neg]
  intro hlast
  exact hfree (mem_of_getLast? hlast)

theorem dropEnd_isPrefix (x : α) (s : List α) : dropEnd x s <+: s := by
  unfold dropEnd
  split_ifs
  · exact dropLast_prefix s
  · exact prefix_refl s

section

variable {nl} {s line rest : List α}

theorem cutLines_of_not_mem (hfree : nl ∉ s) : cutLines nl s = ([], s) := by
  induction s with
  | nil => rfl
  | cons c s ih =>
    rw [mem_cons, not_or] at hfree
    simp [cutLines, ih hfree.2, Ne.symm hfree.1]

theorem cutLines_line_append (hline : IsLine nl line) (rest : List α) :
    cutLines nl (line ++ rest) = (line :: (cutLines nl rest).1, (cutLines nl rest).2) := by
  obtain ⟨body, rfl, hfree⟩ := hline
  induction body with
  | nil => simp [cutLines]
  | cons c body ih =>
    rw [mem_cons, not_or] at hfree
    have hrest := ih hfree.2
    simp only [cons_append, cutLines, if_neg (Ne.symm hfree.1), hrest]

theorem cutLines_line (hline : IsLine nl line) : cutLines nl line = ([line], []) := by
  have hcut := cutLines_line_append hline []
  rw [append_nil] at hcut
  exact hcut

theorem free_or_line (nl : α) (s : List α) :
    nl ∉ s ∨ ∃ line rest, IsLine nl line ∧ s = line ++ rest := by
  induction s with
  | nil => exact .inl not_mem_nil
  | cons c s ih =>
    by_cases hc : c = nl
    · exact .inr ⟨[c], s, ⟨[], by rw [hc]; rfl, not_mem_nil⟩, rfl⟩
    · rcases ih with hfree | ⟨line, rest, ⟨body, hbody, hfree⟩, hsplit⟩
      · left
        rw [mem_cons, not_or]
        exact ⟨Ne.symm hc, hfree⟩
      · right
        refine ⟨c :: line, rest, ⟨c :: body, by rw [hbody]; rfl, ?_⟩, by rw [hsplit]; rfl⟩
        rw [mem_cons, not_or]
        exact ⟨Ne.symm hc, hfree⟩

theorem line_induction (nl : α) {P : List α → Prop} (hfree : ∀ s, nl ∉ s → P s)
    (hline : ∀ line rest, IsLine nl line → P rest → P (line ++ rest)) (s : List α) : P s := by
  induction hlength : s.length using Nat.strong_induction_on generalizing s with
  | _ length ih =>
    rcases free_or_line nl s with hnone | ⟨line, rest, hisLine, hsplit⟩
    · exact hfree s hnone
    · have hshort : rest.length < length := by
        obtain ⟨body, hbody, -⟩ := hisLine
        rw [← hlength, hsplit, hbody]
        simp
        omega
      rw [hsplit]
      exact hline line rest hisLine (ih rest.length hshort rest rfl)

theorem isLine_of_mem_cutLines (s : List α) : ∀ line ∈ (cutLines nl s).1, IsLine nl line := by
  induction s using line_induction nl with
  | hfree s hfree => simp [cutLines_of_not_mem hfree]
  | hline line rest hline ih =>
    rw [cutLines_line_append hline]
    simpa using ⟨hline, ih⟩

theorem cutLines_rest_append (a b : List α) :
    cutLines nl (a ++ b) =
      ((cutLines nl a).1 ++ (cutLines nl ((cutLines nl a).2 ++ b)).1,
        (cutLines nl ((cutLines nl a).2 ++ b)).2) := by
  induction a using line_induction nl with
  | hfree a hfree => rw [cutLines_of_not_mem hfree, nil_append]
  | hline line rest hline ih =>
    rw [append_assoc, cutLines_line_append hline, cutLines_line_append hline, ih]
    rfl

theorem cutLines_append {a : List α} (hclosed : (cutLines nl a).2 = []) (b : List α) :
    cutLines nl (a ++ b) = ((cutLines nl a).1 ++ (cutLines nl b).1, (cutLines nl b).2) := by
  rw [cutLines_rest_append, hclosed, nil_append]

theorem not_mem_rest (s : List α) : nl ∉ (cutLines nl s).2 := by
  induction s using line_induction nl with
  | hfree s hfree => rwa [cutLines_of_not_mem hfree]
  | hline line rest hline => rwa [cutLines_line_append hline]

theorem feedLines_append {σ : Type} (step : σ → List α → σ) (state : σ) (a b : List α) :
    feedLines nl step state (a ++ b) =
      feedLines nl step (feedLines nl step state a).1 ((feedLines nl step state a).2 ++ b) := by
  unfold feedLines
  rw [cutLines_rest_append, map_append, foldl_append]

/-- Pieces that arrive one after another are worked off like their
concatenation. -/
theorem foldl_feedLines {σ : Type} (step : σ → List α → σ) {buffer : List α}
    (hfree : nl ∉ buffer) (state : σ) (pieces : List (List α)) :
    pieces.foldl (fun fed piece => feedLines nl step fed.1 (fed.2 ++ piece)) (state, buffer) =
      feedLines nl step state (buffer ++ pieces.flatten) := by
  induction pieces generalizing state buffer with
  | nil =>
    rw [flatten_nil, append_nil, feedLines, cutLines_of_not_mem hfree]
    rfl
  | cons piece pieces ih =>
    rw [flatten_cons, ← append_assoc, feedLines_append]
    exact ih (not_mem_rest _) _

theorem takeLine_eq_none (hnone : takeLine nl s = none) : nl ∉ s := by
  unfold takeLine at hnone
  rw [Option.map_eq_none_iff, findIdx?_eq_none_iff] at hnone
  intro hmem
  simpa using hnone nl hmem

theorem takeLine_eq_some (hsome : takeLine nl s = some (line, rest)) :
    s = line ++ rest ∧ IsLine nl line := by
  obtain ⟨position, hposition, hsplit⟩ := Option.map_eq_some_iff.mp hsome
  rw [splitAt_eq] at hsplit
  obtain ⟨rfl, rfl⟩ := hsplit
  rw [findIdx?_eq_some_iff_getElem] at hposition
  obtain ⟨hlt, hhere, hbefore⟩ := hposition
  refine ⟨(take_append_drop _ _).symm, s.take position, ?_, ?_⟩
  · have hat : s[position] = nl := by simpa using hhere
    rw [take_succ_eq_append_getElem hlt, hat]
  · intro hmem
    obtain ⟨i, hi, heq⟩ := getElem_of_mem hmem
    rw [length_take] at hi
    rw [getElem_take] at heq
    have hearly := hbefore i (by omega)
    simp [heq] at hearly

theorem closeLine_line_append (hline : IsLine nl line) (s : List α) :
    closeLine nl (line ++ s) = line ++ closeLine nl s := by
  obtain ⟨body, rfl, -⟩ := hline
  unfold closeLine
  by_cases hs : s = []
  · simp [hs]
  · have hlast : (body ++ [nl] ++ s).getLast? = s.getLast? := getLast?_append_of_ne_nil _ hs
    rw [hlast]
    by_cases hend : s.getLast? = some nl
    · simp [hend]
    · simp [hs, hend]

theorem closeLine_of_not_mem (hfree : nl ∉ s) (hne : s ≠ []) : closeLine nl s = s ++ [nl] := by
  unfold closeLine
  rw [if_pos]
  refine ⟨hne, ?_⟩
  intro hlast
  exact hfree (mem_of_getLast? hlast)

theorem length_closeLine_le (s : List α) : (closeLine nl s).length ≤ s.length + 1 := by
  unfold closeLine
  split_ifs
  · simp
  · omega

theorem cutLines_closeLine (s : List α) : (cutLines nl (closeLine nl s)).2 = [] := by
  induction s using line_induction nl with
  | hfree s hfree =>
    by_cases hs : s = []
    · simp [hs, closeLine, cutLines]
    · have hline : IsLine nl (s ++ [nl]) := ⟨s, rfl, hfree⟩
      rw [closeLine_of_not_mem hfree hs, cutLines_line hline]
  | hline line rest hline ih =>
    rw [closeLine_line_append hline, cutLines_line_append hline]
    exact ih

theorem closeLine_of_closed (hclosed : (cutLines nl s).2 = []) : closeLine nl s = s := by
  induction s using line_induction nl with
  | hfree s hfree =>
    rw [cutLines_of_not_mem hfree] at hclosed
    simp only at hclosed
    simp [hclosed, closeLine]
  | hline line rest hline ih =>
    rw [cutLines_line_append hline] at hclosed
    rw [closeLine_line_append hline, ih hclosed]

theorem closeLine_append {a : List α} (hclosed : (cutLines nl a).2 = []) (b : List α) :
    closeLine nl (a ++ b) = a ++ closeLine nl b := by
  induction a using line_induction nl with
  | hfree a hfree =>
    rw [cutLines_of_not_mem hfree] at hclosed
    simp only at hclosed
    rw [hclosed, nil_append, nil_append]
  | hline line rest hline ih =>
    rw [cutLines_line_append hline] at hclosed
    rw [append_assoc, closeLine_line_append hline, ih hclosed, append_assoc]

theorem foldl_closeLine {σ : Type} (step : σ → List α → σ) (state : σ) (s : List α) :
    ((cutLines nl (closeLine nl s)).1.map List.dropLast).foldl step state =
      if (feedLines nl step state s).2.isEmpty then (feedLines nl step state s).1
      else step (feedLines nl step state s).1 (feedLines nl step state s).2 := by
  induction s using line_induction nl generalizing state with
  | hfree s hfree =>
    unfold feedLines
    rw [cutLines_of_not_mem hfree]
    by_cases hs : s = []
    · simp [hs, closeLine, cutLines]
    · rw [closeLine_of_not_mem hfree hs, cutLines_line ⟨s, rfl, hfree⟩]
      simp [hs]
  | hline line rest hline ih =>
    have hfed : feedLines nl step state (line ++ rest) =
        feedLines nl step (step state line.dropLast) rest := by
      unfold feedLines
      rw [cutLines_line_append hline]
      rfl
    rw [closeLine_line_append hline, cutLines_line_append hline, hfed]
    exact ih (step state line.dropLast)

end

end LineCut
