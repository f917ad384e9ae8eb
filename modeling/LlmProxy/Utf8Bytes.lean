import LlmProxy.LineCut

/-!
# Text as UTF-8 bytes

Encoding and decoding between texts and byte sequences.  The bytes below 128
stand for themselves: each of them is a whole character, so a program that
looks for such a byte sees the same places in the bytes as in the text.
-/

namespace Utf8Bytes

open List LineCut

abbrev Bytes := List UInt8

def toBytes (text : List Char) : Bytes := text.flatMap String.utf8EncodeChar

def fromBytes (bytes : Bytes) : Option (List Char) :=
  (bytes.toByteArray.utf8Decode?).map Array.toList

variable {b : UInt8} {c : Char} {text : List Char} {bytes : Bytes}

@[simp] theorem toBytes_nil : toBytes [] = [] := rfl

@[simp] theorem toBytes_append (a b : List Char) : toBytes (a ++ b) = toBytes a ++ toBytes b := by
  simp [toBytes]

@[simp] theorem fromBytes_toBytes (text : List Char) : fromBytes (toBytes text) = some text := by
  have hdecode : text.utf8Encode.utf8Decode? = some text.toArray := utf8Decode?_utf8Encode
  unfold fromBytes toBytes
  rw [← List.utf8Encode.eq_1, hdecode]
  rfl

theorem fromBytes_eq_some : fromBytes bytes = some text ↔ bytes = toBytes text := by
  constructor
  · intro hfrom
    obtain ⟨chars, hchars, rfl⟩ := Option.map_eq_some_iff.mp hfrom
    have hsome : bytes.toByteArray.utf8Decode?.isSome = true := by rw [hchars]; rfl
    have hencode : (bytes.toByteArray.utf8Decode?.get hsome).toList.utf8Encode =
        bytes.toByteArray := ByteArray.utf8Encode_get_utf8Decode?
    simp only [hchars] at hencode
    rw [List.utf8Encode.eq_1, toByteArray_inj] at hencode
    exact hencode.symm
  · rintro rfl
    exact fromBytes_toBytes text

theorem toBytes_injective {a b : List Char} (heq : toBytes a = toBytes b) : a = b := by
  have hfrom := fromBytes_toBytes a
  rw [heq, fromBytes_toBytes, Option.some_inj] at hfrom
  exact hfrom.symm

theorem toBytes_prefix_iff {a b : List Char} : toBytes a <+: toBytes b ↔ a <+: b := by
  constructor
  · rintro ⟨rest, hrest⟩
    have hencode : a.utf8Encode ++ rest.toByteArray = b.utf8Encode := by
      rw [List.utf8Encode.eq_1, ← toByteArray_append]
      exact congrArg List.toByteArray hrest
    exact isPrefix_of_utf8Encode_append_eq_utf8Encode _ hencode
  · rintro ⟨rest, rfl⟩
    exact ⟨toBytes rest, (toBytes_append a rest).symm⟩

theorem utf8EncodeChar_of_mem (hmem : b ∈ String.utf8EncodeChar c) :
    String.utf8EncodeChar c = [b] ∧ b.toNat < 128 ∨ 128 ≤ b.toNat ∧ b.toNat < 248 := by
  have hbig : ∀ n, 128 ≤ n → n < 248 →
      128 ≤ (UInt8.ofNat n).toNat ∧ (UInt8.ofNat n).toNat < 248 := by
    simp only [UInt8.toNat_ofNat']
    omega
  unfold String.utf8EncodeChar at hmem ⊢
  dsimp only at hmem ⊢
  split_ifs at hmem ⊢
  · rw [mem_singleton.mp hmem, UInt8.toNat_ofNat']
    exact .inl ⟨rfl, by omega⟩
  · simp only [mem_cons, not_mem_nil, or_false] at hmem
    rcases hmem with rfl | rfl <;> exact .inr (hbig _ (by omega) (by omega))
  · simp only [mem_cons, not_mem_nil, or_false] at hmem
    rcases hmem with rfl | rfl | rfl <;> exact .inr (hbig _ (by omega) (by omega))
  · simp only [mem_cons, not_mem_nil, or_false] at hmem
    rcases hmem with rfl | rfl | rfl | rfl <;> exact .inr (hbig _ (by omega) (by omega))

theorem toNat_lt_of_mem_toBytes (hmem : b ∈ toBytes text) : b.toNat < 248 := by
  obtain ⟨c, -, hc⟩ := mem_flatMap.mp hmem
  have hbytes := utf8EncodeChar_of_mem hc
  omega

/-! ## Bytes below 128 -/

structure Single (c : Char) (b : UInt8) : Prop where
  small : b.toNat < 128
  bytes : String.utf8EncodeChar c = [b]

theorem Single.eq_of_mem {d : Char} (hsingle : Single c b) (hmem : b ∈ String.utf8EncodeChar d) :
    d = c := by
  obtain ⟨hbytes, -⟩ := (utf8EncodeChar_of_mem hmem).resolve_right
    fun hbig => hbig.1.not_gt hsingle.small
  have hsame : toBytes [d] = toBytes [c] := by
    simp [toBytes, hbytes, hsingle.bytes]
  exact singleton_injective (toBytes_injective hsame)

theorem Single.mem_iff (hsingle : Single c b) (text : List Char) : b ∈ toBytes text ↔ c ∈ text := by
  unfold toBytes
  rw [mem_flatMap]
  constructor
  · rintro ⟨d, hd, hmem⟩
    rw [← hsingle.eq_of_mem hmem]
    exact hd
  · intro hc
    exact ⟨c, hc, by simp [hsingle.bytes]⟩

theorem Single.toBytes_concat (hsingle : Single c b) (text : List Char) :
    toBytes (text ++ [c]) = toBytes text ++ [b] := by
  simp [toBytes, hsingle.bytes]

theorem Single.concat_of_toBytes (hsingle : Single c b) (heq : toBytes text = bytes ++ [b]) :
    ∃ front, text = front ++ [c] ∧ toBytes front = bytes := by
  rcases eq_nil_or_concat' text with rfl | ⟨front, d, rfl⟩
  · simp at heq
  · have hsplit : toBytes front ++ String.utf8EncodeChar d = bytes ++ [b] := by
      rw [← heq]
      simp [toBytes]
    have hmem : b ∈ String.utf8EncodeChar d := by
      rcases eq_nil_or_concat' (String.utf8EncodeChar d) with hnil | ⟨init, last, hlast⟩
      · exact absurd hnil String.utf8EncodeChar_ne_nil
      · rw [hlast, ← append_assoc] at hsplit
        have hsame := (append_inj' hsplit rfl).2
        rw [hlast, ← singleton_injective hsame]
        simp
    obtain rfl := hsingle.eq_of_mem hmem
    rw [hsingle.bytes] at hsplit
    exact ⟨front, rfl, append_cancel_right hsplit⟩

theorem Single.dropEnd_toBytes (hsingle : Single c b) (text : List Char) :
    LineCut.dropEnd b (toBytes text) = toBytes (LineCut.dropEnd c text) := by
  by_cases hend : ∃ bytes, toBytes text = bytes ++ [b]
  · obtain ⟨bytes, hbytes⟩ := hend
    obtain ⟨front, rfl, hfront⟩ := hsingle.concat_of_toBytes hbytes
    rw [hbytes, dropEnd_concat_self, dropEnd_concat_self, hfront]
  · have hbytesKept : LineCut.dropEnd b (toBytes text) = toBytes text := by
      rcases eq_nil_or_concat' (toBytes text) with hnil | ⟨init, last, hlast⟩
      · rw [hnil, dropEnd_nil]
      · rw [hlast]
        apply dropEnd_concat_ne
        rintro rfl
        exact hend ⟨init, hlast⟩
    have htextKept : LineCut.dropEnd c text = text := by
      rcases eq_nil_or_concat' text with rfl | ⟨front, last, rfl⟩
      · rfl
      · apply dropEnd_concat_ne
        rintro rfl
        exact hend ⟨toBytes front, hsingle.toBytes_concat front⟩
    rw [hbytesKept, htextKept]

theorem Single.fromBytes_dropEnd (hsingle : Single c b) (hnone : fromBytes bytes = none) :
    fromBytes (LineCut.dropEnd b bytes) = none := by
  cases hfrom : fromBytes (LineCut.dropEnd b bytes) with
  | none => rfl
  | some text =>
    have htext := fromBytes_eq_some.mp hfrom
    have hwhole : ∃ whole, bytes = toBytes whole := by
      rcases eq_nil_or_concat' bytes with hnil | ⟨front, last, hlast⟩
      · exact ⟨[], hnil⟩
      · by_cases hb : last = b
        · rw [hlast, hb, dropEnd_concat_self] at htext
          exact ⟨text ++ [c], by rw [hsingle.toBytes_concat, ← htext, hlast, hb]⟩
        · rw [hlast, dropEnd_concat_ne hb] at htext
          exact ⟨text, by rw [hlast, htext]⟩
    obtain ⟨whole, rfl⟩ := hwhole
    rw [fromBytes_toBytes] at hnone
    cases hnone

end Utf8Bytes
