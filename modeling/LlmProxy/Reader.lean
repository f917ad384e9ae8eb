import Mathlib.Data.List.Basic
import Mathlib.Data.List.TakeWhile

/-!
# Readers of text

A reader takes a thing off the front of a text and leaves the rest, or fails.
-/

abbrev Reader (α : Type) := StateT (List Char) Option α

namespace Reader

open List

variable {α β : Type} {s rest mid : List Char} {x : α} {read : Reader α} {next : α → Reader β}

def peek : Reader (Option Char) := fun s => some (s.head?, s)

def char : Reader Char
  | [] => none
  | c :: s => some (c, s)

def expect (c : Char) : Reader Unit := do
  if (← char) = c then pure () else failure

def takeWhile (p : Char → Bool) : Reader (List Char) :=
  fun s => some (s.takeWhile p, s.dropWhile p)

/-- Steps until one gives nothing. -/
def steps (step : Reader (Option α)) : ℕ → Reader (List α)
  | 0 => failure
  | fuel + 1 => do
    match ← step with
    | none => pure []
    | some x => (x :: ·) <$> steps step fuel

def many (step : Reader (Option α)) : Reader (List α) := fun s => steps step s.length s

theorem bind_eq_some_iff {r : β × List Char} :
    (read >>= next) s = some r ↔ ∃ x mid, read s = some (x, mid) ∧ next x mid = some r := by
  change (read s).bind (fun y => next y.1 y.2) = some r ↔ _
  rw [Option.bind_eq_some_iff, Prod.exists]

theorem bind_of_read (hread : read s = some (x, mid)) (next : α → Reader β) :
    (read >>= next) s = next x mid := by
  change (read s).bind (fun y => next y.1 y.2) = _
  rw [hread]
  rfl

theorem bind_char (c : Char) (s : List Char) (next : Char → Reader β) :
    (char >>= next) (c :: s) = next c s := rfl

theorem bind_peek (s : List Char) (next : Option Char → Reader β) :
    (peek >>= next) s = next s.head? s := rfl

theorem map_eq_some_iff {f : α → β} {y : β} :
    (f <$> read) s = some (y, rest) ↔ ∃ x, read s = some (x, rest) ∧ f x = y := by
  rw [map_eq_pure_bind, bind_eq_some_iff]
  constructor
  · rintro ⟨x, mid, hread, hpure⟩
    cases hpure
    exact ⟨x, hread, rfl⟩
  · rintro ⟨x, hread, rfl⟩
    exact ⟨x, rest, hread, rfl⟩

theorem map_of_read (hread : read s = some (x, rest)) (f : α → β) :
    (f <$> read) s = some (f x, rest) := map_eq_some_iff.mpr ⟨x, hread, rfl⟩

theorem char_eq_some {c : Char} (hread : char s = some (c, rest)) : s = c :: rest := by
  cases s with
  | nil => cases hread
  | cons =>
    cases hread
    rfl

theorem expect_eq_some_iff {c : Char} : expect c s = some ((), rest) ↔ s = c :: rest := by
  unfold expect
  rw [bind_eq_some_iff]
  constructor
  · rintro ⟨d, mid, hchar, hread⟩
    obtain rfl := char_eq_some hchar
    split_ifs at hread with hd
    · cases hread
      rw [hd]
    · cases hread
  · rintro rfl
    exact ⟨c, rest, rfl, by rw [if_pos rfl]; rfl⟩

/-! ## Local readers -/

/-- What is read is decided by the text that is taken and the character after it. -/
def Local (read : Reader α) : Prop :=
  ∀ s x rest, read s = some (x, rest) → ∃ front, s = front ++ rest ∧
    ∀ other, other.head? = rest.head? → read (front ++ other) = some (x, other)

def Moves (read : Reader α) : Prop :=
  ∀ s x rest, read s = some (x, rest) → rest.length < s.length

theorem Local.suffix (hlocal : read.Local) (hread : read s = some (x, rest)) : rest <:+ s := by
  obtain ⟨front, rfl, -⟩ := hlocal s x rest hread
  exact suffix_append front rest

theorem local_pure (x : α) : Local (pure x) := by
  intro s y rest hread
  cases hread
  exact ⟨[], rfl, fun _ _ => rfl⟩

theorem local_failure : Local (failure : Reader α) := by
  intro s x rest hread
  cases hread

theorem local_peek : Local peek := by
  intro s c rest hread
  cases hread
  exact ⟨[], rfl, fun other hhead => by rw [peek, nil_append, hhead]⟩

theorem local_char : Local char := by
  intro s c rest hread
  exact ⟨[c], char_eq_some hread, fun _ _ => rfl⟩

theorem moves_char : Moves char := by
  intro s c rest hread
  rw [char_eq_some hread]
  exact Nat.lt_succ_self _

theorem Local.bind (hread : read.Local) (hnext : ∀ x, (next x).Local) : (read >>= next).Local := by
  intro s y rest hbind
  obtain ⟨x, mid, hx, hy⟩ := bind_eq_some_iff.mp hbind
  obtain ⟨front, rfl, hfront⟩ := hread s x mid hx
  obtain ⟨back, rfl, hback⟩ := hnext x mid y rest hy
  refine ⟨front ++ back, by rw [append_assoc], ?_⟩
  intro other hhead
  have hmid : (back ++ other).head? = (back ++ rest).head? := by
    rw [head?_append, head?_append, hhead]
  rw [append_assoc, bind_of_read (hfront _ hmid), hback other hhead]

theorem Local.map (hread : read.Local) (f : α → β) : (f <$> read).Local := by
  rw [map_eq_pure_bind]
  exact hread.bind fun x => local_pure (f x)

theorem Local.ite {p : Prop} [Decidable p] {other : Reader α} (hread : read.Local)
    (hother : other.Local) : (if p then read else other).Local := by
  split_ifs
  · exact hread
  · exact hother

theorem Moves.bind (hread : read.Moves) (hnext : ∀ x, (next x).Local) : (read >>= next).Moves := by
  intro s y rest hbind
  obtain ⟨x, mid, hx, hy⟩ := bind_eq_some_iff.mp hbind
  exact ((hnext x).suffix hy).length_le.trans_lt (hread s x mid hx)

theorem Local.bind_moves (hread : read.Local) (hnext : ∀ x, (next x).Moves) :
    (read >>= next).Moves := by
  intro s y rest hbind
  obtain ⟨x, mid, hx, hy⟩ := bind_eq_some_iff.mp hbind
  exact (hnext x mid y rest hy).trans_le (hread.suffix hx).length_le

theorem local_expect (c : Char) : Local (expect c) :=
  local_char.bind fun _ => (local_pure ()).ite local_failure

theorem takeWhile_append {p : Char → Bool} {a : List Char} (ha : ∀ c ∈ a, p c = true)
    (hrest : ∀ c ∈ rest.head?, p c = false) : takeWhile p (a ++ rest) = some (a, rest) := by
  have hstop : rest.takeWhile p = [] ∧ rest.dropWhile p = rest := by
    cases rest with
    | nil => exact ⟨rfl, rfl⟩
    | cons c => simp [hrest c rfl]
  rw [takeWhile, takeWhile_append_of_pos ha, dropWhile_append_of_pos ha, hstop.1, hstop.2,
    append_nil]

theorem local_takeWhile (p : Char → Bool) : Local (takeWhile p) := by
  intro s front rest hread
  cases hread
  refine ⟨s.takeWhile p, takeWhile_append_dropWhile.symm, ?_⟩
  intro other hhead
  refine takeWhile_append (List.all_eq_true.mp all_takeWhile) ?_
  intro c hc
  have hstop := head?_dropWhile_not p s
  rw [← hhead, hc] at hstop
  exact hstop

/-! ## Readers up to a closing character -/

def Closes (close : Char) (read : Reader α) : Prop :=
  ∀ s x rest, read s = some (x, rest) → ∃ front, s = front ++ close :: rest ∧
    ∀ other, read (front ++ close :: other) = some (x, other)

section

variable {close : Char}

theorem closes_expect (c : Char) : Closes c (expect c) := by
  rintro s ⟨⟩ rest hread
  exact ⟨[], expect_eq_some_iff.mp hread, fun other => expect_eq_some_iff.mpr rfl⟩

theorem Closes.isLocal (hcloses : Closes close read) : read.Local := by
  intro s x rest hread
  obtain ⟨front, rfl, hfront⟩ := hcloses s x rest hread
  exact ⟨front ++ [close], by simp, fun other _ => by simp [hfront]⟩

theorem head?_append_close (front rest other : List Char) :
    (front ++ close :: other).head? = (front ++ close :: rest).head? := by
  rw [head?_append, head?_append, head?_cons, head?_cons]

theorem Local.bind_closes (hread : read.Local) (hnext : ∀ x, Closes close (next x)) :
    Closes close (read >>= next) := by
  intro s y rest hbind
  obtain ⟨x, mid, hx, hy⟩ := bind_eq_some_iff.mp hbind
  obtain ⟨front, rfl, hfront⟩ := hread s x mid hx
  obtain ⟨back, rfl, hback⟩ := hnext x mid y rest hy
  refine ⟨front ++ back, by rw [append_assoc], fun other => ?_⟩
  rw [append_assoc, bind_of_read (hfront _ (head?_append_close back rest other)), hback]

theorem Closes.map (hcloses : Closes close read) (f : α → β) : Closes close (f <$> read) := by
  intro s y rest hmap
  obtain ⟨x, hread, rfl⟩ := map_eq_some_iff.mp hmap
  obtain ⟨front, rfl, hfront⟩ := hcloses s x rest hread
  exact ⟨front, rfl, fun other => map_of_read (hfront other) f⟩

theorem Closes.ite {p : Prop} [Decidable p] {other : Reader α} (hread : Closes close read)
    (hother : Closes close other) : Closes close (if p then read else other) := by
  split_ifs
  · exact hread
  · exact hother

end

variable {step : Reader (Option α)} {xs : List α} {fuel : ℕ}

theorem steps_nil (hstep : step s = some (none, rest)) (fuel : ℕ) :
    steps step (fuel + 1) s = some ([], rest) := bind_of_read hstep _

theorem steps_cons (hstep : step s = some (some x, mid))
    (hsteps : steps step fuel mid = some (xs, rest)) :
    steps step (fuel + 1) s = some (x :: xs, rest) :=
  (bind_of_read hstep _).trans (map_of_read hsteps _)

theorem steps_eq_some (hread : steps step (fuel + 1) s = some (xs, rest)) :
    (step s = some (none, rest) ∧ xs = []) ∨ ∃ x mid more, step s = some (some x, mid) ∧
      steps step fuel mid = some (more, rest) ∧ xs = x :: more := by
  obtain ⟨x, mid, hstep, hread⟩ := bind_eq_some_iff.mp hread
  cases x with
  | none =>
    cases hread
    exact .inl ⟨hstep, rfl⟩
  | some x =>
    obtain ⟨more, hmore, rfl⟩ := map_eq_some_iff.mp hread
    exact .inr ⟨x, mid, more, hstep, hmore, rfl⟩

section

variable {close : Char}

/-- A step takes at least one character, so the length of the text is fuel enough. -/
theorem closes_many (hlocal : step.Local) (hmoves : step.Moves)
    (hlast : ∀ s rest, step s = some (none, rest) → ∃ front, s = front ++ close :: rest ∧
      ∀ other, step (front ++ close :: other) = some (none, other)) : Closes close (many step) := by
  have hsteps : ∀ fuel s xs rest, steps step fuel s = some (xs, rest) →
      ∃ front, s = front ++ close :: rest ∧ xs.length ≤ front.length ∧ ∀ more other,
        xs.length < more → steps step more (front ++ close :: other) = some (xs, other) := by
    intro fuel
    induction fuel with
    | zero =>
      intro s xs rest hread
      cases hread
    | succ fuel ih =>
      intro s xs rest hread
      rcases steps_eq_some hread with ⟨hstep, rfl⟩ | ⟨x, mid, xs, hstep, hsteps, rfl⟩
      · obtain ⟨front, rfl, hfront⟩ := hlast s rest hstep
        refine ⟨front, rfl, Nat.zero_le _, ?_⟩
        intro more other hmore
        obtain ⟨more, rfl⟩ := Nat.exists_eq_succ_of_ne_zero (Nat.ne_zero_of_lt hmore)
        exact steps_nil (hfront other) more
      · obtain ⟨front, rfl, hfront⟩ := hlocal s (some x) mid hstep
        obtain ⟨back, rfl, hlong, hback⟩ := ih mid xs rest hsteps
        have hmoved := hmoves _ (some x) _ hstep
        simp only [length_append] at hmoved
        refine ⟨front ++ back, by rw [append_assoc], by rw [length_append, length_cons]; omega, ?_⟩
        intro more other hmore
        obtain ⟨more, rfl⟩ := Nat.exists_eq_succ_of_ne_zero (Nat.ne_zero_of_lt hmore)
        rw [append_assoc]
        exact steps_cons (hfront _ (head?_append_close back rest other))
          (hback more other (Nat.lt_of_succ_lt_succ hmore))
  intro s xs rest hread
  obtain ⟨front, rfl, hlong, hfront⟩ := hsteps s.length s xs rest hread
  refine ⟨front, rfl, fun other => hfront _ other ?_⟩
  rw [length_append, length_cons]
  omega

variable {p : α → List Char} {E : List Char → Prop}

theorem ends_flatMap (hends : E (close :: rest)) (hmore : ∀ x ∈ xs, ∀ rest, E (p x ++ rest)) :
    E (xs.flatMap p ++ close :: rest) := by
  cases xs with
  | nil => exact hends
  | cons x xs =>
    rw [flatMap_cons, append_assoc]
    exact hmore x mem_cons_self _

/-- Printed elements, one after another, are read back by the repeated step. -/
theorem many_flatMap (hmoves : step.Moves) (hclose : step (close :: rest) = some (none, rest))
    (hends : E (close :: rest)) (hmore : ∀ x ∈ xs, ∀ rest, E (p x ++ rest))
    (hstep : ∀ x ∈ xs, ∀ rest, E rest → step (p x ++ rest) = some (some x, rest)) :
    many step (xs.flatMap p ++ close :: rest) = some (xs, rest) := by
  have hall : ∀ fuel, (xs.flatMap p).length < fuel →
      steps step fuel (xs.flatMap p ++ close :: rest) = some (xs, rest) := by
    induction xs with
    | nil =>
      intro fuel hfuel
      obtain ⟨fuel, rfl⟩ := Nat.exists_eq_succ_of_ne_zero (Nat.ne_zero_of_lt hfuel)
      exact steps_nil hclose fuel
    | cons x xs ih =>
      intro fuel hfuel
      rw [forall_mem_cons] at hmore hstep
      have hx := hstep.1 _ (ends_flatMap hends hmore.2)
      have hmoved := hmoves _ (some x) _ hx
      rw [flatMap_cons] at hfuel ⊢
      simp only [length_append] at hfuel hmoved
      obtain ⟨fuel, rfl⟩ := Nat.exists_eq_succ_of_ne_zero (Nat.ne_zero_of_lt hfuel)
      rw [append_assoc]
      exact steps_cons hx (ih hmore.2 hstep.2 fuel (by omega))
  refine hall _ ?_
  rw [length_append, length_cons]
  omega

end

/-! ## What is read -/

/-- From texts with the one property the reader reads things with the other and leaves
such texts. -/
def Passes (T : List Char → Prop) (P : α → Prop) (read : Reader α) : Prop :=
  ∀ s x rest, T s → read s = some (x, rest) → T rest ∧ P x

section

variable {T : List Char → Prop} {P : α → Prop} {Q : β → Prop}

theorem passes_pure (hx : P x) : Passes T P (pure x) := by
  intro s y rest hs hread
  cases hread
  exact ⟨hs, hx⟩

theorem passes_failure : Passes T P failure := by
  intro s x rest hs hread
  cases hread

theorem Passes.bind (hread : Passes T P read) (hnext : ∀ x, P x → Passes T Q (next x)) :
    Passes T Q (read >>= next) := by
  intro s y rest hs hbind
  obtain ⟨x, mid, hx, hy⟩ := bind_eq_some_iff.mp hbind
  obtain ⟨hmid, hpx⟩ := hread s x mid hs hx
  exact hnext x hpx mid y rest hmid hy

theorem Passes.map {f : α → β} (hread : Passes T P read) (hf : ∀ x, P x → Q (f x)) :
    Passes T Q (f <$> read) := by
  rw [map_eq_pure_bind]
  exact hread.bind fun x hx => passes_pure (hf x hx)

theorem Passes.ite {p : Prop} [Decidable p] {other : Reader α} (hread : Passes T P read)
    (hother : Passes T P other) : Passes T P (if p then read else other) := by
  split_ifs
  · exact hread
  · exact hother

theorem Local.passes (hlocal : read.Local) (hsuffix : ∀ s t, t <:+ s → T s → T t) :
    Passes T (fun _ => True) read :=
  fun s _ rest hs hread => ⟨hsuffix s rest (hlocal.suffix hread) hs, trivial⟩

theorem Passes.many (hstep : Passes T (fun x => ∀ y ∈ x, P y) step) :
    Passes T (fun xs => ∀ x ∈ xs, P x) (many step) := by
  have hsteps : ∀ fuel, Passes T (fun xs => ∀ x ∈ xs, P x) (steps step fuel) := by
    intro fuel
    induction fuel with
    | zero => exact passes_failure
    | succ fuel ih =>
      intro s xs rest hs hread
      rcases steps_eq_some hread with ⟨hlast, rfl⟩ | ⟨x, mid, xs, hx, hmore, rfl⟩
      · exact ⟨(hstep s none rest hs hlast).1, forall_mem_nil P⟩
      · obtain ⟨hmid, hpx⟩ := hstep s (some x) mid hs hx
        obtain ⟨hrest, hpxs⟩ := ih mid xs rest hmid hmore
        exact ⟨hrest, forall_mem_cons.mpr ⟨hpx x rfl, hpxs⟩⟩
  exact fun s => hsteps s.length s

end

end Reader
