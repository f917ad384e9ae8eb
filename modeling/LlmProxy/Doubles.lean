import Mathlib.Tactic

/-!
# Doubles

A double is named by the decimal it is written as.  `display` writes a double without an exponent.
-/

namespace Json

open List

def roundTo (unit n : ℕ) : ℕ :=
  let quotient := n / unit
  let rest := n % unit
  (if 2 * rest < unit ∨ 2 * rest = unit ∧ quotient % 2 = 0 then quotient else quotient + 1) * unit

def doubleUnit (n : ℕ) : ℕ := 2 ^ (n.log2 + 1 - 53)

def roundToDouble : ℤ → ℤ
  | .ofNat n => roundTo (doubleUnit n) n
  | .negSucc n => -roundTo (doubleUnit (n + 1)) (n + 1)

/-! ## Lowest terms -/

def Reduced (mantissa exponent : ℤ) : Prop :=
  mantissa = 0 ∧ exponent = 0 ∨ mantissa % 10 ≠ 0

instance (mantissa exponent : ℤ) : Decidable (Reduced mantissa exponent) :=
  inferInstanceAs (Decidable (_ ∨ _))

/-- The mantissa has no trailing zero, so that one double has one name and equal doubles are equal
values. -/
structure F64 where
  mantissa : ℤ
  exponent : ℤ
  reduced : Reduced mantissa exponent
  deriving DecidableEq

def stripZeros : ℕ → ℤ → ℤ → ℤ × ℤ
  | 0, mantissa, exponent => (mantissa, exponent)
  | fuel + 1, mantissa, exponent =>
    if mantissa % 10 = 0 then stripZeros fuel (mantissa / 10) (exponent + 1)
    else (mantissa, exponent)

variable {mantissa : ℤ}

theorem stripZeros_spec (fuel : ℕ) (exponent : ℤ) (hzero : mantissa ≠ 0)
    (hfuel : mantissa.natAbs ≤ fuel) :
    ∃ zeros : ℕ, mantissa = (stripZeros fuel mantissa exponent).1 * 10 ^ zeros ∧
      (stripZeros fuel mantissa exponent).2 = exponent + zeros ∧
      (stripZeros fuel mantissa exponent).1 % 10 ≠ 0 := by
  induction fuel generalizing mantissa exponent with
  | zero => omega
  | succ fuel ih =>
    unfold stripZeros
    split_ifs with hdivides
    · obtain ⟨zeros, hmantissa, hexponent, hlast⟩ :=
        ih (exponent + 1) (by omega : mantissa / 10 ≠ 0) (by omega)
      refine ⟨zeros + 1, ?_, ?_, hlast⟩
      · calc
          mantissa = mantissa / 10 * 10 := by omega
          _ = (stripZeros fuel (mantissa / 10) (exponent + 1)).1 * 10 ^ (zeros + 1) := by
            rw [pow_succ, ← mul_assoc, ← hmantissa]
      · rw [hexponent]
        push_cast
        ring
    · exact ⟨0, by simp, by simp, hdivides⟩

namespace F64

def of (mantissa exponent : ℤ) : F64 :=
  if hzero : mantissa = 0 then ⟨0, 0, .inl ⟨rfl, rfl⟩⟩
  else
    ⟨(stripZeros mantissa.natAbs mantissa exponent).1,
      (stripZeros mantissa.natAbs mantissa exponent).2,
      .inr (stripZeros_spec _ exponent hzero le_rfl).choose_spec.2.2⟩

theorem of_spec (exponent : ℤ) (hzero : mantissa ≠ 0) :
    ∃ zeros : ℕ, mantissa = (of mantissa exponent).mantissa * 10 ^ zeros ∧
      (of mantissa exponent).exponent = exponent + zeros := by
  obtain ⟨zeros, hmantissa, hexponent, -⟩ :=
    stripZeros_spec mantissa.natAbs exponent hzero le_rfl
  refine ⟨zeros, ?_, ?_⟩
  · rw [of, dif_neg hzero]
    exact hmantissa
  · rw [of, dif_neg hzero]
    exact hexponent

variable {c : Char} {x y : F64} {s : List Char} {n : ℕ}

theorem ext_scaled (hle : x.exponent ≤ y.exponent)
    (hscaled : x.mantissa = y.mantissa * 10 ^ (y.exponent - x.exponent).toNat) : x = y := by
  have hexponent : x.exponent = y.exponent := by
    by_contra hne
    obtain ⟨shift, hshift⟩ : ∃ shift, (y.exponent - x.exponent).toNat = shift + 1 :=
      ⟨(y.exponent - x.exponent).toNat - 1, by omega⟩
    rw [hshift, pow_succ, ← mul_assoc] at hscaled
    rcases x.reduced with ⟨hzero, hx⟩ | hx
    · have hy : y.mantissa = 0 := by
        by_contra hy
        have hpow : (10 : ℤ) ^ shift ≠ 0 := pow_ne_zero shift (by decide)
        rw [hzero] at hscaled
        have := mul_ne_zero (mul_ne_zero hy hpow) (by decide : (10 : ℤ) ≠ 0)
        exact this hscaled.symm
      rcases y.reduced with ⟨-, hyexp⟩ | hylast
      · omega
      · rw [hy] at hylast
        exact hylast rfl
    · rw [hscaled] at hx
      exact hx (Int.mul_emod_left _ 10)
  have hmantissa : x.mantissa = y.mantissa := by
    rw [hscaled, hexponent]
    simp
  cases x
  cases hexponent
  cases hmantissa
  rfl

def places (x : F64) : ℕ := (-x.exponent).toNat

def padded (x : F64) : List Char :=
  let digits := Nat.toDigits 10 x.mantissa.natAbs
  List.replicate (x.places + 1 - digits.length) '0' ++ digits

def displayAbs (x : F64) : List Char :=
  if x.places = 0 then
    Nat.toDigits 10 x.mantissa.natAbs ++ List.replicate x.exponent.toNat '0'
  else
    let whole := x.padded.length - x.places
    x.padded.take whole ++ '.' :: x.padded.drop whole

/-- `Display` of the standard library. -/
def display (x : F64) : List Char :=
  if x.mantissa < 0 then '-' :: x.displayAbs else x.displayAbs

/-! ### Reading it again -/

def digitsRead (s : List Char) : ℕ := Nat.ofDigitChars 10 (s.filter (· ≠ '.')) 0

def placesRead (s : List Char) : ℕ := (s.dropWhile (· ≠ '.')).length - 1

theorem isDigit_of_mem_toDigits (hc : c ∈ Nat.toDigits 10 n) : c.isDigit = true :=
  Nat.isDigit_of_mem_toDigits (by decide) (by decide) hc

theorem isDigit_of_mem_padded (hc : c ∈ x.padded) : c.isDigit = true := by
  rcases mem_append.mp hc with hzero | hdigit
  · rw [eq_of_mem_replicate hzero]
    rfl
  · exact isDigit_of_mem_toDigits hdigit

theorem places_lt_length_padded (x : F64) : x.places < x.padded.length := by
  unfold padded
  rw [length_append, length_replicate]
  omega

theorem filter_digits (hdigits : ∀ c ∈ s, c.isDigit = true) : s.filter (· ≠ '.') = s := by
  apply filter_eq_self.mpr
  intro c hc
  apply decide_eq_true
  rintro rfl
  exact absurd (hdigits _ hc) (by decide)

theorem dropWhile_digits (hdigits : ∀ c ∈ s, c.isDigit = true) (rest : List Char) :
    (s ++ rest).dropWhile (· ≠ '.') = rest.dropWhile (· ≠ '.') := by
  apply dropWhile_append_of_pos
  intro c hc
  apply decide_eq_true
  rintro rfl
  exact absurd (hdigits _ hc) (by decide)

theorem isDigit_of_mem_whole {zeros : ℕ} (hc : c ∈ Nat.toDigits 10 n ++ List.replicate zeros '0') :
    c.isDigit = true := by
  rcases mem_append.mp hc with hdigit | hzero
  · exact isDigit_of_mem_toDigits hdigit
  · rw [eq_of_mem_replicate hzero]
    rfl

theorem digitsRead_displayAbs (x : F64) :
    digitsRead x.displayAbs = x.mantissa.natAbs * 10 ^ x.exponent.toNat := by
  unfold digitsRead displayAbs
  split_ifs with hplaces
  · rw [filter_digits fun c hc => isDigit_of_mem_whole hc, Nat.ofDigitChars_append,
      Nat.ofDigitChars_ten_toDigits, Nat.ofDigitChars_replicate_zero, mul_comm]
  · have hexponent : x.exponent.toNat = 0 := by
      unfold places at hplaces
      omega
    rw [filter_append, filter_cons_of_neg (by simp), ← filter_append,
      take_append_drop, filter_digits fun c hc => isDigit_of_mem_padded hc, padded,
      Nat.ofDigitChars_append, Nat.ofDigitChars_replicate_zero, mul_zero,
      Nat.ofDigitChars_ten_toDigits, hexponent, pow_zero, mul_one]

theorem placesRead_displayAbs (x : F64) : placesRead x.displayAbs = x.places := by
  have hlength := places_lt_length_padded x
  unfold placesRead displayAbs
  split_ifs with hplaces
  · have hdigits : ∀ c ∈ Nat.toDigits 10 x.mantissa.natAbs ++
        List.replicate x.exponent.toNat '0', c.isDigit = true :=
      fun c hc => isDigit_of_mem_whole hc
    have hnone := dropWhile_digits hdigits []
    rw [append_nil] at hnone
    rw [hnone, hplaces]
    rfl
  · dsimp only
    rw [dropWhile_digits fun c hc => isDigit_of_mem_padded (mem_of_mem_take hc),
      dropWhile_cons_of_neg (by simp), length_cons, length_drop]
    omega

theorem head_displayAbs (x : F64) : x.displayAbs.head? ≠ some '-' := by
  have hhead : ∀ c ∈ x.displayAbs.head?, c.isDigit = true := by
    intro c hc
    unfold displayAbs at hc
    split_ifs at hc with hplaces
    · exact isDigit_of_mem_whole (mem_of_mem_head? hc)
    · have hlength := places_lt_length_padded x
      rw [head?_append_of_ne_nil _ (by
        intro hnil
        have := congrArg List.length hnil
        rw [length_take, length_nil] at this
        omega)] at hc
      exact isDigit_of_mem_padded (mem_of_mem_take (mem_of_mem_head? hc))
  intro hminus
  exact absurd (hhead '-' hminus) (by decide)

theorem display_ne_nil (x : F64) : x.display ≠ [] := by
  have habs : x.displayAbs ≠ [] := by
    unfold displayAbs
    split_ifs
    · simp [Nat.toDigits_ne_nil]
    · simp
  unfold display
  split_ifs
  · simp
  · exact habs

theorem display_eq (hdisplay : x.display = y.display) :
    (x.mantissa < 0 ↔ y.mantissa < 0) ∧ x.displayAbs = y.displayAbs := by
  unfold display at hdisplay
  split_ifs at hdisplay with hx hy hy
  · exact ⟨by simp [hx, hy], (List.cons.inj hdisplay).2⟩
  · refine absurd ?_ (head_displayAbs y)
    rw [← hdisplay]
    rfl
  · refine absurd ?_ (head_displayAbs x)
    rw [hdisplay]
    rfl
  · exact ⟨by simp [hx, hy], hdisplay⟩

theorem display_injective : Function.Injective display := by
  -- the smaller exponent is given, the other order is symmetric
  have hordered : ∀ x y : F64, x.display = y.display → x.exponent ≤ y.exponent → x = y := by
    intro x y hdisplay hle
    obtain ⟨hsign, habs⟩ := display_eq hdisplay
    have hplaces : x.places = y.places := by
      rw [← placesRead_displayAbs, habs, placesRead_displayAbs]
    have hdigits : x.mantissa.natAbs * 10 ^ x.exponent.toNat =
        y.mantissa.natAbs * 10 ^ y.exponent.toNat := by
      rw [← digitsRead_displayAbs, habs, digitsRead_displayAbs]
    apply ext_scaled hle
    have hshift : y.exponent.toNat = (y.exponent - x.exponent).toNat + x.exponent.toNat := by
      unfold places at hplaces
      omega
    rw [hshift, pow_add, ← mul_assoc] at hdigits
    have hscaled := Nat.eq_of_mul_eq_mul_right (Nat.pow_pos (by decide)) hdigits
    have hpow : 0 < (10 : ℤ) ^ (y.exponent - x.exponent).toNat := pow_pos (by decide) _
    have hnegative : y.mantissa * 10 ^ (y.exponent - x.exponent).toNat < 0 ↔ y.mantissa < 0 :=
      ⟨fun h => neg_of_mul_neg_left h hpow.le, fun h => mul_neg_of_neg_of_pos h hpow⟩
    have hsize : (y.mantissa * 10 ^ (y.exponent - x.exponent).toNat).natAbs =
        x.mantissa.natAbs := by
      rw [Int.natAbs_mul]
      exact hscaled.symm
    omega
  intro x y hdisplay
  rcases le_total x.exponent y.exponent with hle | hle
  · exact hordered x y hdisplay hle
  · exact (hordered y x hdisplay.symm hle).symm

end F64

end Json
