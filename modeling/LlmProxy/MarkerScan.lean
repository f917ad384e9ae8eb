import Mathlib.Data.List.Basic
import Mathlib.Data.List.Infix
import Mathlib.Tactic

/-!
# Scanning for marked tags, piece by piece

A text is cut at tags.  Which tags count depends on a mode, and each tag leads to a mode.  If the
tags are well marked, a scanner that sees the text one symbol at a time needs to hold back only the
stretch from the last marker on, and only while a tag could still be completed.
-/

namespace MarkerScan

open List

/-- The tags of each mode with the mode they lead to, the marker symbols, and
the largest size of a stretch that is held back. -/
structure TagTable (α σ : Type) where
  marker : α → Bool
  size : α → ℕ
  limit : ℕ
  tags : σ → List (List α × σ)

variable {α σ : Type} [DecidableEq α] (T : TagTable α σ)

namespace TagTable

variable (s : List α)

def weight : ℕ := (s.map T.size).sum

def tagAt (mode : σ) (s : List α) : Option (List α × σ) :=
  (T.tags mode).find? fun tag => tag.1.isPrefixOf s

def complete (mode : σ) (s : List α) : Option σ :=
  ((T.tags mode).find? fun tag => tag.1 == s).map Prod.snd

/-- Every tag starts with a marker symbol and has no other marker in it, and no tag is the beginning
of another. -/
structure WellMarked : Prop where
  shape : ∀ mode, ∀ tag ∈ T.tags mode, ∃ head body last,
    tag.1 = head :: (body ++ [last]) ∧ T.marker head = true ∧
      (∀ x ∈ body ++ [last], T.marker x = false) ∧ T.weight (head :: body) ≤ T.limit
  prefixFree : ∀ mode, ∀ tag ∈ T.tags mode, ∀ other ∈ T.tags mode,
    tag.1 <+: other.1 → tag = other
  markerFits : ∀ x, T.marker x = true → T.size x ≤ T.limit

def NoTag (mode : σ) (s : List α) : Prop :=
  ∀ rest, rest <:+ s → T.tagAt mode rest = none

structure FirstTag (mode : σ) (s before : List α) (tag : List α × σ)
    (after : List α) : Prop where
  mem : tag ∈ T.tags mode
  split : s = before ++ tag.1 ++ after
  first : T.NoTag mode (before ++ tag.1.dropLast)

def lastMarked : List α → List α
  | [] => []
  | c :: rest =>
    if (lastMarked rest).isEmpty then (if T.marker c then c :: rest else [])
    else lastMarked rest

def heldTail : List α :=
  if T.weight (T.lastMarked s) ≤ T.limit then T.lastMarked s else []

def released : List α := s.take (s.length - (T.heldTail s).length)

end TagTable

section

variable {T} {mode : σ} {s rest : List α} {tag : List α × σ}

theorem tagAt_some (hat : T.tagAt mode s = some tag) : tag ∈ T.tags mode ∧ tag.1 <+: s := by
  have hpre := find?_some hat
  exact ⟨mem_of_find?_eq_some hat, isPrefixOf_iff_prefix.mp hpre⟩

theorem tagAt_eq_none_iff : T.tagAt mode s = none ↔ ∀ tag ∈ T.tags mode, ¬ tag.1 <+: s := by
  unfold TagTable.tagAt
  simp [find?_eq_none]

theorem complete_eq_none (hnone : T.tagAt mode s = none) : T.complete mode s = none := by
  rw [tagAt_eq_none_iff] at hnone
  unfold TagTable.complete
  rw [Option.map_eq_none_iff, find?_eq_none]
  intro tag htag heq
  apply hnone tag htag
  rw [beq_iff_eq] at heq
  rw [heq]

theorem complete_eq_some (hmarked : T.WellMarked) (htag : tag ∈ T.tags mode) :
    T.complete mode tag.1 = some tag.2 := by
  unfold TagTable.complete
  cases hfind : (T.tags mode).find? fun other => other.1 == tag.1 with
  | none =>
    rw [find?_eq_none] at hfind
    exact absurd (beq_self_eq_true _) (hfind tag htag)
  | some other =>
    have heq : other.1 = tag.1 := by simpa using find?_some hfind
    have hsame := hmarked.prefixFree mode other (mem_of_find?_eq_some hfind) tag htag
      (heq ▸ prefix_refl _)
    rw [hsame, Option.map_some]

theorem tagAt_eq_some (hmarked : T.WellMarked) (htag : tag ∈ T.tags mode) (hpre : tag.1 <+: s) :
    T.tagAt mode s = some tag := by
  cases hat : T.tagAt mode s with
  | none => exact absurd hpre (tagAt_eq_none_iff.mp hat tag htag)
  | some other =>
    obtain ⟨hmem, hother⟩ := tagAt_some hat
    rcases prefix_or_prefix_of_prefix hother hpre with hle | hle
    · rw [hmarked.prefixFree mode other hmem tag htag hle]
    · rw [hmarked.prefixFree mode tag htag other hmem hle]

theorem TagTable.NoTag.left (hnone : T.NoTag mode (s ++ rest)) : T.NoTag mode s := by
  intro tail htail
  rw [tagAt_eq_none_iff]
  intro tag htag hpre
  have hsuffix : tail ++ rest <:+ s ++ rest := by
    obtain ⟨front, hfront⟩ := htail
    exact ⟨front, by rw [← hfront, append_assoc]⟩
  exact tagAt_eq_none_iff.mp (hnone _ hsuffix) tag htag
    (hpre.trans (prefix_append _ _))

theorem noTag_nil (hmarked : T.WellMarked) : T.NoTag mode ([] : List α) := by
  intro tail htail
  rw [suffix_nil.mp htail, tagAt_eq_none_iff]
  intro tag htag hpre
  obtain ⟨head, body, last, hshape, -⟩ := hmarked.shape mode tag htag
  rw [hshape] at hpre
  simp at hpre

end

variable {front back : List α}

section

variable {T} {s : List α} {c : α}

omit [DecidableEq α] in
theorem lastMarked_append_singleton (s : List α) (c : α) :
    T.lastMarked (s ++ [c]) =
      if T.marker c then [c]
      else if T.lastMarked s = [] then [] else T.lastMarked s ++ [c] := by
  induction s with
  | nil => simp [TagTable.lastMarked]
  | cons d s ih =>
    simp only [cons_append, TagTable.lastMarked, ih]
    by_cases hc : T.marker c = true
    · simp [hc]
    · by_cases hs : T.lastMarked s = []
      · by_cases hd : T.marker d = true
        · simp [hc, hs, hd]
        · simp [hc, hs, hd]
      · simp [hc, hs]

omit [DecidableEq α] in
theorem lastMarked_suffix (s : List α) : T.lastMarked s <:+ s := by
  induction s with
  | nil => exact suffix_refl _
  | cons c s ih =>
    simp only [TagTable.lastMarked]
    split_ifs with hs hc
    · exact suffix_refl _
    · exact nil_suffix
    · exact ih.trans (suffix_cons c s)

variable (a : List α)

omit [DecidableEq α] in
theorem lastMarked_append {head : α} {body : List α} (hhead : T.marker head = true)
    (hbody : ∀ x ∈ body, T.marker x = false) : T.lastMarked (a ++ head :: body) = head :: body := by
  have hnone : T.lastMarked body = [] := by
    induction body with
    | nil => rfl
    | cons x body ih =>
      have hx := hbody x mem_cons_self
      simp [TagTable.lastMarked, ih (fun y hy => hbody y (mem_cons_of_mem _ hy)), hx]
  induction a with
  | nil => simp [TagTable.lastMarked, hnone, hhead]
  | cons x a ih => simp [TagTable.lastMarked, ih]

omit [DecidableEq α] in
theorem lastMarked_append_unmarked {b : List α} (hb : ∀ x ∈ b, T.marker x = false) :
    T.lastMarked (a ++ b) = if T.lastMarked a = [] then [] else T.lastMarked a ++ b := by
  induction b using List.reverseRecOn with
  | nil => simp
  | append_singleton b c ih =>
    have hc : T.marker c = false := hb c (by simp)
    have hrest := ih (fun x hx => hb x (mem_append_left _ hx))
    rw [← append_assoc, lastMarked_append_singleton, hrest, hc]
    by_cases ha : T.lastMarked a = []
    · simp [ha]
    · simp [ha]

omit [DecidableEq α] in
theorem lastMarked_eq_nil_iff : T.lastMarked s = [] ↔ ∀ x ∈ s, T.marker x = false := by
  induction s with
  | nil => simp [TagTable.lastMarked]
  | cons c s ih =>
    by_cases hs : T.lastMarked s = []
    · have hrest := ih.mp hs
      by_cases hc : T.marker c = true
      · simp [TagTable.lastMarked, hs, hc]
      · simpa [TagTable.lastMarked, hs, hc] using hrest
    · have hsome : ¬ ∀ x ∈ s, T.marker x = false := fun h => hs (ih.mpr h)
      constructor
      · intro hnil
        simp [TagTable.lastMarked, hs] at hnil
      · intro hall
        exact absurd (fun x hx => hall x (mem_cons_of_mem _ hx)) hsome

omit [DecidableEq α] in
theorem lastMarked_shape (s : List α) (hsome : T.lastMarked s ≠ []) :
    ∃ head body, T.lastMarked s = head :: body ∧ T.marker head = true ∧
      ∀ x ∈ body, T.marker x = false := by
  induction s with
  | nil => simp [TagTable.lastMarked] at hsome
  | cons c s ih =>
    by_cases hs : T.lastMarked s = []
    · have hrest := lastMarked_eq_nil_iff.mp hs
      by_cases hc : T.marker c = true
      · exact ⟨c, s, by simp [TagTable.lastMarked, hs, hc], hc, hrest⟩
      · simp [TagTable.lastMarked, hs, hc] at hsome
    · obtain ⟨head, body, hshape, hhead, hbody⟩ := ih hs
      exact ⟨head, body, by simp [TagTable.lastMarked, hshape], hhead, hbody⟩

omit [DecidableEq α] in
@[simp] theorem heldTail_nil : T.heldTail [] = [] := by
  unfold TagTable.heldTail
  split_ifs <;> rfl

omit [DecidableEq α] in
theorem heldTail_heldTail (s : List α) : T.heldTail (T.heldTail s) = T.heldTail s := by
  by_cases hweight : T.weight (T.lastMarked s) ≤ T.limit
  · have hheld : T.heldTail s = T.lastMarked s := if_pos hweight
    rw [hheld]
    by_cases hs : T.lastMarked s = []
    · rw [hs, heldTail_nil]
    · obtain ⟨head, body, hshape, hhead, hbody⟩ := lastMarked_shape s hs
      have hmark : T.lastMarked (head :: body) = head :: body :=
        lastMarked_append [] hhead hbody
      rw [hshape] at hweight ⊢
      unfold TagTable.heldTail
      rw [hmark, if_pos hweight]
  · have hheld : T.heldTail s = [] := if_neg hweight
    rw [hheld, heldTail_nil]

omit [DecidableEq α] in
theorem heldTail_suffix (s : List α) : T.heldTail s <:+ s := by
  unfold TagTable.heldTail
  split_ifs
  · exact lastMarked_suffix s
  · exact nil_suffix

omit [DecidableEq α] in
theorem released_append_heldTail (s : List α) : T.released s ++ T.heldTail s = s := by
  obtain ⟨front, hfront⟩ := heldTail_suffix (T := T) s
  have hreleased : T.released s = front := by
    have hlength := congrArg List.length hfront
    rw [length_append] at hlength
    have htake : s.length - (T.heldTail s).length = front.length := by omega
    calc
      T.released s = (front ++ T.heldTail s).take front.length := by
        rw [TagTable.released, htake, hfront]
      _ = front := take_left
  rw [hreleased, hfront]

omit [DecidableEq α] in
theorem released_eq {held : List α} (hheld : T.heldTail (front ++ held) = held) :
    T.released (front ++ held) = front := by
  have hwhole := released_append_heldTail (T := T) (front ++ held)
  rw [hheld] at hwhole
  exact append_cancel_right hwhole

omit [DecidableEq α] in
theorem weight_append (b : List α) : T.weight (a ++ b) = T.weight a + T.weight b := by
  simp [TagTable.weight]

omit [DecidableEq α] in
/-- A tail without markers that is too long keeps anything before it from
being held. -/
theorem heldTail_eq_nil_of_long (front : List α) {c : α} (hback : ∀ x ∈ back, T.marker x = false)
    (hlong : T.limit < T.weight (c :: back)) : T.heldTail (front ++ c :: back) = [] := by
  have hlast : T.lastMarked (front ++ c :: back) =
      if T.lastMarked (front ++ [c]) = [] then [] else T.lastMarked (front ++ [c]) ++ back := by
    rw [← lastMarked_append_unmarked _ hback, append_assoc, singleton_append]
  have hweight : T.weight (c :: back) = T.weight [c] + T.weight back :=
    weight_append [c] back
  unfold TagTable.heldTail
  rw [hlast, lastMarked_append_singleton]
  by_cases hc : T.marker c = true
  · have hbig : ¬ T.weight ([c] ++ back) ≤ T.limit := by
      rw [weight_append]
      omega
    simpa [hc] using hbig
  · by_cases hfront : T.lastMarked front = []
    · simp [hc, hfront]
    · have hbig : ¬ T.weight (T.lastMarked front ++ [c] ++ back) ≤ T.limit := by
        rw [weight_append, weight_append]
        omega
      simpa [hc, hfront] using hbig

omit [DecidableEq α] in
theorem heldTail_append_singleton (hfits : ∀ x, T.marker x = true → T.size x ≤ T.limit)
    (s : List α) (c : α) :
    T.heldTail (s ++ [c]) =
      if T.marker c then [c]
      else if T.heldTail s ≠ [] ∧ T.weight (T.heldTail s ++ [c]) ≤ T.limit then
        T.heldTail s ++ [c]
      else [] := by
  unfold TagTable.heldTail
  rw [lastMarked_append_singleton]
  by_cases hc : T.marker c = true
  · have hsize : T.weight [c] ≤ T.limit := by
      simpa [TagTable.weight] using hfits c hc
    simp [hc, hsize]
  · simp only [hc, Bool.false_eq_true, if_false]
    by_cases hs : T.lastMarked s = []
    · simp [hs]
    · by_cases hweight : T.weight (T.lastMarked s) ≤ T.limit
      · by_cases hnext : T.weight (T.lastMarked s ++ [c]) ≤ T.limit
        · simp [hs, hweight, hnext]
        · simp [hs, hweight, hnext]
      · have hnext : ¬ T.weight (T.lastMarked s ++ [c]) ≤ T.limit := by
          rw [weight_append]
          omega
        simp [hs, hweight, hnext]

end

/-! ## The scanner -/

structure Scan (α σ : Type) where
  mode : σ
  held : List α
  count : ℕ
  out : List (σ × α)

def emit (mode : σ) (s : List α) : List (σ × α) := s.map fun c => (mode, c)

def scanStep (scan : Scan α σ) (c : α) : Scan α σ :=
  let held := scan.held ++ [c]
  match T.complete scan.mode held with
  | some mode => { scan with mode := mode, held := [], count := scan.count + 1 }
  | none =>
    if T.marker c then
      { scan with held := [c], out := scan.out ++ emit scan.mode scan.held }
    else if scan.held ≠ [] ∧ T.weight held ≤ T.limit then { scan with held := held }
    else { scan with held := [], out := scan.out ++ emit scan.mode held }

variable (start : Scan α σ)

def scan (s : List α) : Scan α σ := s.foldl (scanStep T) start

theorem scan_append (a b : List α) :
    scan T start (a ++ b) = scan T (scan T start a) b := foldl_append

def Scan.after (scan : Scan α σ) (count : ℕ) (out : List (σ × α)) : Scan α σ where
  mode := scan.mode
  held := scan.held
  count := count + scan.count
  out := out ++ scan.out

theorem scanStep_after (count : ℕ) (out : List (σ × α)) (c : α) :
    scanStep T (start.after count out) c = (scanStep T start c).after count out := by
  simp only [scanStep, Scan.after]
  cases T.complete start.mode (start.held ++ [c]) with
  | some => simp [Nat.add_assoc]
  | none =>
    by_cases hc : T.marker c = true
    · simp [hc]
    · by_cases hjoin : start.held ≠ [] ∧ T.weight (start.held ++ [c]) ≤ T.limit
      · simp [hc, hjoin]
      · simp only [hc, Bool.false_eq_true, if_false, if_neg hjoin, append_assoc]

theorem scan_after (count : ℕ) (out : List (σ × α)) (s : List α) :
    scan T (start.after count out) s = (scan T start s).after count out := by
  induction s generalizing start with
  | nil => rfl
  | cons c s ih =>
    simp only [scan, foldl_cons, scanStep_after]
    exact ih (scanStep T start c)

section

variable {T} {mode : σ} {s : List α} (hmarked : T.WellMarked)

include hmarked

theorem scan_noTag (hnone : T.NoTag mode s) (n : ℕ) (out : List (σ × α)) :
    scan T ⟨mode, [], n, out⟩ s = ⟨mode, T.heldTail s, n, out ++ emit mode (T.released s)⟩ := by
  induction s using List.reverseRecOn with
  | nil => simp [scan, TagTable.released, emit]
  | append_singleton s c ih =>
    have hheld := heldTail_append_singleton hmarked.markerFits s c
    have hcomplete : T.complete mode (T.heldTail s ++ [c]) = none := by
      apply complete_eq_none
      apply hnone
      obtain ⟨front, hfront⟩ := heldTail_suffix (T := T) s
      exact ⟨front, by rw [← append_assoc, hfront]⟩
    have hwhole := released_append_heldTail (T := T) s
    have hnext := released_append_heldTail (T := T) (s ++ [c])
    rw [scan_append, ih hnone.left]
    simp only [scan, foldl_cons, foldl_nil, scanStep, hcomplete]
    split_ifs at hheld ⊢ with hc hjoin
    · have hrel : T.released (s ++ [c]) = s := by
        rw [hheld] at hnext
        exact append_cancel_right hnext
      rw [hheld, hrel, append_assoc, emit, emit, emit, ← map_append, hwhole]
    · have hrel : T.released (s ++ [c]) = T.released s := by
        rw [hheld, ← append_assoc] at hnext
        exact append_cancel_right
          ((append_cancel_right hnext).trans hwhole.symm)
      rw [hheld, hrel]
    · have hrel : T.released (s ++ [c]) = s ++ [c] := by
        rw [hheld, append_nil] at hnext
        exact hnext
      rw [hheld, hrel, append_assoc, emit, emit, emit, ← map_append, ← append_assoc, hwhole]

theorem scan_firstTag {before after : List α} {tag : List α × σ}
    (hfirst : T.FirstTag mode s before tag after) (n : ℕ) (out : List (σ × α)) :
    scan T ⟨mode, [], n, out⟩ s = scan T ⟨tag.2, [], n + 1, out ++ emit mode before⟩ after := by
  obtain ⟨head, body, last, hshape, hhead, hbody, hweight⟩ :=
    hmarked.shape mode tag hfirst.mem
  have hdrop : tag.1.dropLast = head :: body := by
    rw [hshape, ← cons_append, dropLast_concat]
  have hheld : T.heldTail (before ++ head :: body) = head :: body := by
    have hmark : T.lastMarked (before ++ head :: body) = head :: body :=
      lastMarked_append before hhead (fun x hx => hbody x (mem_append_left _ hx))
    unfold TagTable.heldTail
    rw [hmark, if_pos hweight]
  have hnone : T.NoTag mode (before ++ head :: body) := hdrop ▸ hfirst.first
  have hsplit : s = (before ++ head :: body) ++ ([last] ++ after) := by
    rw [hfirst.split, hshape]
    simp
  have hcomplete : T.complete mode (head :: body ++ [last]) = some tag.2 := by
    rw [cons_append, ← hshape]
    exact complete_eq_some hmarked hfirst.mem
  rw [hsplit, scan_append, scan_noTag hmarked hnone, scan_append, hheld, released_eq hheld]
  simp only [scan, foldl_cons, foldl_nil, scanStep, hcomplete]

theorem scan_heldTail (hnone : T.NoTag mode s) (n : ℕ) (out : List (σ × α)) :
    scan T ⟨mode, [], n, out⟩ (T.heldTail s) = ⟨mode, T.heldTail s, n, out⟩ := by
  have htail : T.NoTag mode (T.heldTail s) :=
    fun rest hrest => hnone rest (hrest.trans (heldTail_suffix s))
  have hall : T.released (T.heldTail s) = [] :=
    released_eq (show T.heldTail ([] ++ T.heldTail s) = T.heldTail s from heldTail_heldTail s)
  rw [scan_noTag hmarked htail, heldTail_heldTail, hall]
  simp [emit]

end

/-! ## The text cut at its tags -/

def segmentsFrom : σ → ℕ → List α → List (σ × List α)
  | mode, _, [] => [(mode, [])]
  | mode, skip + 1, _ :: rest => segmentsFrom mode skip rest
  | mode, 0, c :: rest =>
    match T.tagAt mode (c :: rest) with
    | some tag => (mode, []) :: segmentsFrom tag.2 (tag.1.length - 1) rest
    | none =>
      match segmentsFrom mode 0 rest with
      | [] => []
      | segment :: more => (segment.1, c :: segment.2) :: more

def segments (mode : σ) (s : List α) : List (σ × List α) := segmentsFrom T mode 0 s

section

variable {T} {mode : σ}

theorem segmentsFrom_skip (skipped rest : List α) :
    segmentsFrom T mode skipped.length (skipped ++ rest) = segmentsFrom T mode 0 rest := by
  induction skipped with
  | nil => rfl
  | cons c skipped ih =>
    exact ih

variable {tag : List α × σ} {s before after : List α}

theorem segments_noTag (hnone : T.NoTag mode s) : segments T mode s = [(mode, s)] := by
  unfold segments
  induction s with
  | nil => rfl
  | cons c s ih =>
    have hat := hnone (c :: s) (suffix_refl _)
    have hrest := ih (fun rest hrest => hnone rest (hrest.trans (suffix_cons c s)))
    simp only [segmentsFrom, hat, hrest]

variable (hmarked : T.WellMarked)

include hmarked

omit [DecidableEq α] in
theorem marker_not_mem_tail (htag : tag ∈ T.tags mode) {x : α}
    (hsplit : tag.1 = front ++ x :: back) (hfront : front ≠ []) : T.marker x = false := by
  obtain ⟨head, body, last, hshape, -, hbody, -⟩ := hmarked.shape mode tag htag
  cases front with
  | nil => exact absurd rfl hfront
  | cons =>
    rw [hshape, cons_append, List.cons.injEq] at hsplit
    apply hbody
    rw [hsplit.2]
    simp

omit [DecidableEq α] in
theorem exists_marker_head (htag : tag ∈ T.tags mode) :
    ∃ head rest, tag.1 = head :: rest ∧ rest ≠ [] ∧ T.marker head = true := by
  obtain ⟨head, body, last, hshape, hhead, -, -⟩ := hmarked.shape mode tag htag
  exact ⟨head, body ++ [last], hshape, by simp, hhead⟩

theorem tagAt_before_firstTag (hfirst : T.FirstTag mode s before tag after)
    (hbefore : before = front ++ back) (hback : back ≠ []) :
    T.tagAt mode (back ++ tag.1 ++ after) = none := by
  rw [tagAt_eq_none_iff]
  intro other hother hpre
  have hshort : back ++ tag.1.dropLast <+: back ++ tag.1 ++ after := by
    rw [append_assoc, prefix_append_right_inj]
    refine .trans ?_ (prefix_append _ _)
    exact dropLast_prefix _
  have hsuffix : back ++ tag.1.dropLast <:+ before ++ tag.1.dropLast := by
    rw [hbefore]
    exact ⟨front, by simp⟩
  rcases prefix_or_prefix_of_prefix hpre hshort with hin | hover
  · exact tagAt_eq_none_iff.mp (hfirst.first _ hsuffix) other hother hin
  · obtain ⟨head, rest, hhead, hrest, hmark⟩ := exists_marker_head hmarked hfirst.mem
    obtain ⟨end_, hend⟩ := hover
    have hdrop : ∃ more, tag.1.dropLast = head :: more := by
      cases rest with
      | nil => exact absurd rfl hrest
      | cons x rest => exact ⟨(x :: rest).dropLast, by rw [hhead]; rfl⟩
    obtain ⟨more, hmore⟩ := hdrop
    rw [hmore, append_assoc] at hend
    have hfalse := marker_not_mem_tail hmarked hother hend.symm hback
    rw [hmark] at hfalse
    cases hfalse

theorem segments_firstTag (hfirst : T.FirstTag mode s before tag after) :
    segments T mode s = (mode, before) :: segments T tag.2 after := by
  obtain ⟨head, rest, hhead, -, -⟩ := exists_marker_head hmarked hfirst.mem
  have hgo : ∀ front back, before = front ++ back →
      segmentsFrom T mode 0 (back ++ tag.1 ++ after) =
        (mode, back) :: segmentsFrom T tag.2 0 after := by
    intro front back hbefore
    induction back generalizing front with
    | nil =>
      have hat : T.tagAt mode (tag.1 ++ after) = some tag :=
        tagAt_eq_some hmarked hfirst.mem (prefix_append _ _)
      have hlength : tag.1.length - 1 = rest.length := by simp [hhead]
      rw [nil_append]
      rw [hhead, cons_append] at hat ⊢
      simp only [segmentsFrom, hat, hlength]
      rw [segmentsFrom_skip]
    | cons c back ih =>
      have hat := tagAt_before_firstTag hmarked hfirst hbefore (cons_ne_nil c back)
      have hback := ih (front ++ [c]) (by simp [hbefore])
      rw [append_assoc, cons_append, ← append_assoc] at hat ⊢
      simp only [segmentsFrom, hat, hback]
  rw [hfirst.split]
  exact hgo [] before rfl

theorem firstTag_of_leftmost (htag : tag ∈ T.tags mode)
    (hsplit : s = before ++ tag.1 ++ after)
    (hleft : ∀ front back, before = front ++ back → back ≠ [] →
      T.tagAt mode (back ++ tag.1 ++ after) = none) : T.FirstTag mode s before tag after := by
  refine ⟨htag, hsplit, ?_⟩
  intro rest hrest
  rw [tagAt_eq_none_iff]
  intro other hother hpre
  obtain ⟨head, more, hhead, -, hmark⟩ := exists_marker_head hmarked hother
  -- A tag that starts inside the first one is a prefix of it or has its marker in its tail.
  have hinside : rest <:+ tag.1.dropLast → False := by
    rintro ⟨front, hfront⟩
    cases front with
    | nil =>
      have hsub : other.1 <+: tag.1 := by
        rw [nil_append] at hfront
        rw [hfront] at hpre
        exact hpre.trans <| dropLast_prefix _
      have hsame := hmarked.prefixFree mode other hother tag htag hsub
      have hlength := hpre.length_le
      rw [hsame, show rest = tag.1.dropLast from hfront, length_dropLast] at hlength
      obtain ⟨first, others, hfirst, -, -⟩ := exists_marker_head hmarked htag
      rw [hfirst, length_cons] at hlength
      omega
    | cons x front =>
      obtain ⟨tail, htail⟩ := hpre
      obtain ⟨last, hlast⟩ := dropLast_prefix tag.1
      have hwhole : tag.1 = (x :: front) ++ head :: (more ++ tail ++ last) := by
        rw [← hlast, ← hfront, ← htail, hhead]
        simp
      have hfalse := marker_not_mem_tail hmarked htag hwhole (cons_ne_nil _ _)
      rw [hmark] at hfalse
      cases hfalse
  rcases suffix_or_suffix_of_suffix hrest (suffix_append before tag.1.dropLast)
    with hin | hover
  · exact hinside hin
  · obtain ⟨back, hback⟩ := hover
    obtain ⟨front, hfront⟩ := hrest
    by_cases hnil : back = []
    · apply hinside
      rw [hnil] at hback
      exact hback ▸ suffix_refl _
    · have hbefore : before = front ++ back := by
        rw [← hback, ← append_assoc] at hfront
        exact (append_cancel_right hfront).symm
      have hnone := hleft front back hbefore hnil
      refine tagAt_eq_none_iff.mp hnone other hother (hpre.trans ?_)
      rw [← hback, append_assoc, prefix_append_right_inj]
      refine .trans ?_ (prefix_append _ _)
      exact dropLast_prefix _

theorem noTag_or_firstTag (mode : σ) (s : List α) :
    T.NoTag mode s ∨ ∃ before tag after, T.FirstTag mode s before tag after := by
  induction s using List.reverseRecOn with
  | nil => exact .inl (noTag_nil hmarked)
  | append_singleton s c ih =>
    rcases ih with hnone | ⟨before, tag, after, hfirst⟩
    · by_cases hnext : T.NoTag mode (s ++ [c])
      · exact .inl hnext
      · right
        unfold TagTable.NoTag at hnext
        push Not at hnext
        obtain ⟨rest, ⟨before, hbefore⟩, hat⟩ := hnext
        obtain ⟨tag, htag⟩ := Option.ne_none_iff_exists'.mp hat
        obtain ⟨hmem, hpre⟩ := tagAt_some htag
        rcases eq_nil_or_concat' rest with hnil | ⟨short, last, hconcat⟩
        · obtain ⟨head, more, hhead, -, -⟩ := exists_marker_head hmarked hmem
          rw [hnil, hhead] at hpre
          simp at hpre
        · rw [hconcat, ← append_assoc] at hbefore
          obtain ⟨hshort, hlast⟩ := append_inj' hbefore rfl
          rw [singleton_inj] at hlast
          subst last
          rw [hconcat, prefix_concat_iff] at hpre
          rcases hpre with hwhole | hearly
          · refine ⟨before, tag, [], hmem, ?_, ?_⟩
            · rw [hwhole, ← hshort]
              simp
            · rw [hwhole, dropLast_concat, hshort]
              exact hnone
          · exact absurd hearly
              (tagAt_eq_none_iff.mp (hnone short ⟨before, hshort⟩) tag hmem)
    · exact .inr ⟨before, tag, after ++ [c], hfirst.mem, by simp [hfirst.split], hfirst.first⟩

/-- The scanner and the cut text: it ends in the mode of the last stretch, has
counted the tags between the stretches and holds back the tail of the last. -/
theorem scan_segments (mode : σ) (s : List α) (n : ℕ) (out : List (σ × α)) :
    ∃ init last, segments T mode s = init ++ [last] ∧
      scan T ⟨mode, [], n, out⟩ s =
        ⟨last.1, T.heldTail last.2, n + init.length,
          out ++ init.flatMap (fun segment => emit segment.1 segment.2) ++
            emit last.1 (T.released last.2)⟩ := by
  induction hlength : s.length using Nat.strong_induction_on generalizing s mode n out with
  | _ length ih =>
    rcases noTag_or_firstTag hmarked mode s with hnone | ⟨before, tag, after, hfirst⟩
    · refine ⟨[], (mode, s), segments_noTag hnone, ?_⟩
      rw [scan_noTag hmarked hnone]
      simp
    · have hshort : after.length < length := by
        obtain ⟨head, more, hhead, -, -⟩ := exists_marker_head hmarked hfirst.mem
        rw [← hlength, hfirst.split, hhead]
        simp
        omega
      obtain ⟨init, last, hsegments, hscan⟩ := ih after.length hshort tag.2 after (n + 1)
        (out ++ emit mode before) rfl
      refine ⟨(mode, before) :: init, last, ?_, ?_⟩
      · rw [segments_firstTag hmarked hfirst, hsegments, cons_append]
      · rw [scan_firstTag hmarked hfirst, hscan]
        simp [Nat.add_assoc, Nat.add_comm 1]

end

end MarkerScan
