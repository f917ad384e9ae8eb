import Mathlib.Data.List.Basic
import Mathlib.Data.List.Infix
import Mathlib.Tactic

/-!
# Text with byte offsets

A text is a list of Unicode scalar values; programs address it by the byte offsets of its UTF-8
form.
-/

namespace Utf8Text

def byteLen (s : List Char) : ℕ := (s.map Char.utf8Size).sum

/-- Answers nothing at an offset inside a character, where a program that slices the text stops. -/
def splitAtOffset : ℕ → List Char → Option (List Char × List Char)
  | 0, s => some ([], s)
  | _ + 1, [] => none
  | offset + 1, c :: rest =>
    if c.utf8Size ≤ offset + 1 then
      (splitAtOffset (offset + 1 - c.utf8Size) rest).map fun parts =>
        (c :: parts.1, parts.2)
    else none

def find (needle : List Char) : List Char → Option ℕ
  | [] => if needle.isEmpty then some 0 else none
  | c :: rest =>
    if needle.isPrefixOf (c :: rest) then some 0
    else (find needle rest).map (· + c.utf8Size)

def charIndices : ℕ → List Char → List (ℕ × Char)
  | _, [] => []
  | offset, c :: rest => (offset, c) :: charIndices (offset + c.utf8Size) rest

@[simp] theorem byteLen_nil : byteLen [] = 0 := rfl

@[simp] theorem byteLen_cons (c : Char) (s : List Char) :
    byteLen (c :: s) = c.utf8Size + byteLen s := by
  simp [byteLen]

@[simp] theorem byteLen_append (a b : List Char) : byteLen (a ++ b) = byteLen a + byteLen b := by
  simp [byteLen]

theorem byteLen_pos {s : List Char} (hne : s ≠ []) : 0 < byteLen s := by
  cases s with
  | nil => exact absurd rfl hne
  | cons c s =>
    have hsize := c.utf8Size_pos
    rw [byteLen_cons]
    omega

theorem splitAtOffset_append (a b : List Char) :
    splitAtOffset (byteLen a) (a ++ b) = some (a, b) := by
  induction a with
  | nil => simp [splitAtOffset]
  | cons c a ih =>
    have hsize := c.utf8Size_pos
    obtain ⟨n, hn⟩ : ∃ n, byteLen (c :: a) = n + 1 :=
      ⟨byteLen (c :: a) - 1, by rw [byteLen_cons]; omega⟩
    have hrest : n + 1 - c.utf8Size = byteLen a := by
      rw [← hn, byteLen_cons]
      omega
    have hfits : c.utf8Size ≤ n + 1 := by
      rw [← hn, byteLen_cons]
      omega
    rw [hn, List.cons_append, splitAtOffset, if_pos hfits, hrest, ih]
    rfl

theorem find_eq_some {needle s : List Char} {n : ℕ} (hfind : find needle s = some n) :
    ∃ before after, s = before ++ needle ++ after ∧ byteLen before = n := by
  induction s generalizing n with
  | nil =>
    unfold find at hfind
    split_ifs at hfind with hnil
    cases hfind
    exact ⟨[], [], by simpa using (List.isEmpty_iff.mp hnil).symm, rfl⟩
  | cons c s ih =>
    unfold find at hfind
    split_ifs at hfind with hpre
    · cases hfind
      obtain ⟨after, hafter⟩ := List.isPrefixOf_iff_prefix.mp hpre
      exact ⟨[], after, hafter.symm, rfl⟩
    · obtain ⟨m, hm, rfl⟩ := Option.map_eq_some_iff.mp hfind
      obtain ⟨before, after, hsplit, hlen⟩ := ih hm
      refine ⟨c :: before, after, by simp [hsplit], ?_⟩
      rw [byteLen_cons, hlen, Nat.add_comm]

theorem find_le (front : List Char) {needle rest : List Char} (hpre : needle <+: rest) :
    ∃ n, find needle (front ++ rest) = some n ∧ n ≤ byteLen front := by
  induction front with
  | nil =>
    cases rest with
    | nil =>
      have hnil := List.prefix_nil.mp hpre
      simp [find, hnil]
    | cons c rest =>
      simp [find, hpre]
  | cons c front ih =>
    obtain ⟨n, hfind, hle⟩ := ih
    rw [List.cons_append]
    unfold find
    split_ifs with hhere
    · exact ⟨0, rfl, Nat.zero_le _⟩
    · refine ⟨n + c.utf8Size, by rw [hfind]; rfl, ?_⟩
      rw [byteLen_cons]
      omega

theorem charIndices_append (offset : ℕ) (a b : List Char) :
    charIndices offset (a ++ b) =
      charIndices offset a ++ charIndices (offset + byteLen a) b := by
  induction a generalizing offset with
  | nil => simp [charIndices]
  | cons c a ih => simp [charIndices, ih, Nat.add_assoc]

end Utf8Text
