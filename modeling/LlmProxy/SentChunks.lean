import LlmProxy.JsonParsed
import LlmProxy.StreamTerminator

/-!
# Chunks as they are read back

The relays print JSON objects and send each as one data event.  Here such
events are read back: a client that parses the data lines of the stream gets
the printed objects, in order.  What this needs of the JSON library is
`SerdeJson.ReadsBack`; the text format of `JsonText` has it.
-/

namespace LlmProxy

open Json (Text Value Fields)
open LineCut List
open Utf8Bytes

/-- What reading back relies on: the text of a plain value parses to it, an
object ends with its brace, and the keys of an object show in its text. -/
structure SerdeJson.ReadsBack [SerdeJson] : Prop where
  reads : ∀ (value : Value) (s : Text), value.Plain Json.depthLimit →
    SerdeJson.toString value = some s → SerdeJson.fromStr s = some value
  closes : ∀ (fields : Fields) (s : Text), SerdeJson.toString (.obj fields) = some s →
    s.getLast? = some '}'
  showsKey : ∀ (fields : Fields) (s : Text) (key : String) (value : Value),
    (key, value) ∈ fields → (∀ c ∈ key.toList, c.isAlpha = true ∨ c = '_') →
    SerdeJson.toString (.obj fields) = some s → key.toList <:+: s

/-! ## The text format of the library -/

variable {s : Text} {fields : Fields} {c : Char}

theorem getLast_append_of_getLast {a b : Text} (hlast : b.getLast? = some c) :
    (a ++ b).getLast? = some c := by
  rw [getLast?_append, hlast]
  rfl

theorem getLast_print_obj (fields : Fields) : (Json.print (.obj fields)).getLast? = some '}' := by
  rw [Json.print]
  exact getLast?_concat

theorem le_toNat_of_isAlpha (halpha : c.isAlpha = true) : 0x40 ≤ c.toNat := by
  have hcase : (c.isUpper || c.isLower) = true := halpha
  rw [Bool.or_eq_true] at hcase
  rcases hcase with hupper | hlower
  · have hbounds : decide (c.val ≥ 'A'.val ∧ c.val ≤ 'Z'.val) = true := hupper
    rw [decide_eq_true_eq] at hbounds
    exact le_trans (by decide) (UInt32.le_iff_toNat_le.mp hbounds.1)
  · have hbounds : (decide (c.val ≥ 'a'.val) && decide (c.val ≤ 'z'.val)) = true := hlower
    rw [Bool.and_eq_true, decide_eq_true_eq] at hbounds
    exact le_trans (by decide) (UInt32.le_iff_toNat_le.mp hbounds.1)

theorem flatMap_escape_of_word {key : Text} (hword : ∀ c ∈ key, c.isAlpha = true ∨ c = '_') :
    key.flatMap Json.escape = key := by
  induction key with
  | nil => rfl
  | cons c key ih =>
    have hcodes : ∀ code ∈ Json.escapes, code.1.isAlpha = false ∧ code.1 ≠ '_' := by decide
    have hplain : (Json.escapes.find? fun code => code.1 = c) = none := by
      refine find?_eq_none.mpr fun code hcode heq => ?_
      obtain rfl : code.1 = c := of_decide_eq_true heq
      rcases hword code.1 mem_cons_self with halpha | hunder
      · exact Bool.false_ne_true ((hcodes code hcode).1.symm.trans halpha)
      · exact (hcodes code hcode).2 hunder
    have hlarge : 0x40 ≤ c.toNat := by
      rcases hword c mem_cons_self with halpha | rfl
      · exact le_toNat_of_isAlpha halpha
      · decide
    have hkept : Json.escape c = [c] := by
      rw [Json.escape, hplain]
      exact if_neg (by omega)
    rw [flatMap_cons, hkept, ih fun other hother => hword other (mem_cons_of_mem _ hother)]
    rfl

theorem infix_printStr {key : Text} (hword : ∀ c ∈ key, c.isAlpha = true ∨ c = '_') :
    key <:+: Json.printStr key := by
  rw [Json.printStr, flatMap_escape_of_word hword]
  exact ⟨['"'], ['"'], rfl⟩

theorem infix_print_obj {key : String} {value : Value} (hmem : (key, value) ∈ fields)
    (hword : ∀ c ∈ key.toList, c.isAlpha = true ∨ c = '_') :
    key.toList <:+: Json.print (.obj fields) := by
  obtain ⟨front, back, rfl⟩ := append_of_mem hmem
  refine List.IsInfix.trans (infix_printStr hword) ?_
  let after := ':' :: Json.print value ++ Json.printFields back ++ ['}']
  rw [Json.print, Json.printFields_eq, flatMap_append, flatMap_cons]
  cases front with
  | nil => exact ⟨['{'], after, by simp [after, Json.printField, Json.printFields_eq]⟩
  | cons field front =>
    refine ⟨'{' :: Json.printField field ++ Json.printFields front ++ [','], after, ?_⟩
    simp [after, Json.printField, Json.printFields_eq]

theorem jsonText_readsBack : @SerdeJson.ReadsBack jsonText := by
  let := jsonText
  constructor
  · intro value s hplain hprint
    cases hprint
    exact Json.parse_print hplain
  · intro fields s hprint
    cases hprint
    exact getLast_print_obj fields
  · intro fields s key value hmem hword hprint
    cases hprint
    exact infix_print_obj hmem hword

/-! ## Sent payloads -/

theorem trim_eq_self {first last : Char} (hhead : s.head? = some first)
    (hfirst : isWhitespace first = false) (hend : s.getLast? = some last)
    (hlast : isWhitespace last = false) : trim s = s := by
  have hstart : trimStart s = s := by
    obtain ⟨rest, rfl⟩ := head?_eq_some_iff.mp hhead
    exact dropWhile_cons_of_neg (by rw [hfirst]; exact Bool.false_ne_true)
  obtain ⟨front, rfl⟩ := getLast?_eq_some_iff.mp hend
  rw [trim, hstart]
  exact rdropWhile_concat_neg _ _ _ (by rw [hlast]; exact Bool.false_ne_true)

theorem trim_printed (hlast : s.getLast? = some '}') :
    trim ("data: ".toList ++ s) = "data: ".toList ++ s :=
  trim_eq_self rfl (by decide) (getLast_append_of_getLast hlast) (by decide)

section

variable [SerdeJson]

def emitted (payload : Value) : List Bytes :=
  ((SerdeJson.toString payload).map dataEvent).toList

def chunksSent (outs : List Bytes) : List Value := (dataLines outs.flatten).filterMap chunkOf

def Sendable (payload : Value) : Prop :=
  (∃ fields, payload = .obj fields) ∧ payload.Plain Json.depthLimit

instance (payload : Value) : Decidable (Sendable payload) :=
  match payload with
  | .obj fields => decidable_of_iff ((Value.obj fields).Plain Json.depthLimit) (by simp [Sendable])
  | .null | .bool _ | .num _ | .str _ | .arr _ => isFalse (by simp [Sendable])

variable (hjson : SerdeJson.Lawful)

include hjson

theorem emitted_ne_nil (payload : Value) : emitted payload ≠ [] := by
  obtain ⟨s, hprint⟩ := hjson.prints payload
  simp [emitted, hprint]

theorem dataLines_dataEvent_eq {payload : Value} (hprint : SerdeJson.toString payload = some s) :
    dataLines (dataEvent s) = [toBytes (dataField ++ ' ' :: s)] := by
  obtain ⟨hnewline, hreturn⟩ := hjson.oneLine _ _ hprint
  have hspace : "data: ".toList ++ s = dataField ++ ' ' :: s := rfl
  have hfree : ∀ c ∈ ['\n', '\r'], c ∉ dataField ++ ' ' :: s := by
    intro c hc
    rw [← hspace, mem_append, not_or]
    simp only [mem_cons, not_mem_nil, or_false] at hc
    rcases hc with rfl | rfl
    · exact ⟨by decide, hnewline⟩
    · exact ⟨by decide, hreturn⟩
  rw [dataEvent_eq, hspace, dataLines_sseLine (hfree _ (by simp)),
    dropEnd_of_not_mem (hfree _ (by simp)), filter_isData_data]

theorem emitted_obj (fields : Fields) :
    ∃ s, SerdeJson.toString (.obj fields) = some s ∧ emitted (.obj fields) = [dataEvent s] := by
  obtain ⟨s, hprint⟩ := hjson.prints (.obj fields)
  exact ⟨s, hprint, by simp [emitted, hprint]⟩

theorem chunkOf_printed (hback : SerdeJson.ReadsBack)
    (hplain : (Value.obj fields).Plain Json.depthLimit)
    (hprint : SerdeJson.toString (.obj fields) = some s) :
    chunkOf (toBytes (dataField ++ ' ' :: s)) = some (.obj fields) := by
  have hhead := hjson.printsObject _ _ hprint
  have htrim : trimStart (' ' :: s) = s := by
    obtain ⟨c, rest, rfl⟩ := exists_cons_of_ne_nil (l := s) (by rintro rfl; cases hhead)
    rw [head?_cons, Option.some_inj] at hhead
    rw [hhead]
    rfl
  rw [chunkOf_data, htrim, parseObject, hback.reads _ _ hplain hprint]

theorem chunksSent_cons_emitted (hback : SerdeJson.ReadsBack) {payload : Value}
    (hsend : Sendable payload) (outs : List Bytes) :
    chunksSent (emitted payload ++ outs) = payload :: chunksSent outs := by
  obtain ⟨⟨fields, rfl⟩, hplain⟩ := hsend
  obtain ⟨s, hprint, hemitted⟩ := emitted_obj hjson fields
  have hclosed := (dataLines_dataEvent hjson hprint).1
  rw [hemitted, chunksSent, cons_append, flatten_cons, dataLines_append hclosed,
    dataLines_dataEvent_eq hjson hprint, filterMap_append,
    filterMap_cons_some (chunkOf_printed hjson hback hplain hprint)]
  rfl

theorem chunksSent_emitted (hback : SerdeJson.ReadsBack) {payloads : List Value}
    (hsend : ∀ payload ∈ payloads, Sendable payload) (outs : List Bytes) :
    chunksSent (payloads.flatMap emitted ++ outs) = payloads ++ chunksSent outs := by
  induction payloads with
  | nil => rfl
  | cons payload payloads ih =>
    have hrest := ih fun other hother => hsend other (mem_cons_of_mem _ hother)
    rw [flatMap_cons, append_assoc,
      chunksSent_cons_emitted hjson hback (hsend payload mem_cons_self), hrest]
    rfl

theorem chunksSent_terminators : chunksSent [doneEvent, doneEvent] = [] := by
  have hlines : dataLines [doneEvent, doneEvent].flatten =
      [toBytes (dataField ++ " [DONE]".toList), toBytes (dataField ++ " [DONE]".toList)] := by
    decide +kernel
  have hnone : chunkOf (toBytes (dataField ++ " [DONE]".toList)) = none := by
    rw [chunkOf_data, parseObject]
    split
    · rename_i fields hparse
      exact absurd (hjson.parsesObject _ _ hparse) (by decide)
    · rfl
  rw [chunksSent, hlines, filterMap_cons_none hnone, filterMap_cons_none hnone]
  rfl

end

end LlmProxy
