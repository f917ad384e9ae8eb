import LlmProxy.JsonKeys
import LlmProxy.StreamInspector

/-!
# The byte filter of the inspector

`ingest_chunk` parses a line only if one of four needles occurs in its bytes.
-/

namespace LlmProxy

open Json (Text Value Fields)
open List Utf8Bytes StreamRecord

/-- A key that is spelled out in an accepted text stands there. -/
def SerdeJson.SpellsKeys [SerdeJson] : Prop :=
  ∀ (s : Text) (value : Value) (key : String), Json.KeysSpelledOut s →
    SerdeJson.fromStr s = some value → value.HasKey key → key.toList <:+: s

theorem jsonText_spellsKeys : @SerdeJson.SpellsKeys jsonText :=
  fun _ _ _ => Json.isInfix_of_hasKey

namespace StreamRecord

def noteEveryLine [SerdeJson] (r : StreamRecord) (line : Bytes) : StreamRecord :=
  match fromBytes line with
  | none => r
  | some text => noteText text r

/-- The keys the record is read from, three of the four needles. -/
def notedKeys : List String := ["usage", "finish_reason", "model"]

variable {chunk value : Value} {line : Bytes} {key : String} {text : Text}

theorem get_eq_none_of_not_hasKey (hkey : ¬ value.HasKey key) : value.get key = none := by
  cases value with
  | obj fields =>
    cases hget : Fields.get key fields with
    | none => exact hget
    | some => exact absurd (.here (Fields.get_mem hget)) hkey
  | _ => rfl

theorem hasKey_of_get {other : String} (hget : chunk.get other = some value)
    (hkey : value.HasKey key) : chunk.HasKey key := by
  cases chunk with
  | obj => exact .field (Fields.get_mem hget) hkey
  | _ => cases hget

theorem foldl_noteFinishReason_eq_self {choices : List Value}
    (hnone : ∀ choice ∈ choices, ¬ choice.HasKey "finish_reason") (r : StreamRecord) :
    choices.foldl noteFinishReason r = r := by
  induction choices with
  | nil => rfl
  | cons choice choices ih =>
    rw [forall_mem_cons] at hnone
    have hfirst : noteFinishReason r choice = r := by
      simp [noteFinishReason, get_eq_none_of_not_hasKey hnone.1]
    rw [foldl_cons, hfirst]
    exact ih hnone.2

theorem noteFinishReasons_eq_self (hkey : ¬ chunk.HasKey "finish_reason") (r : StreamRecord) :
    noteFinishReasons chunk r = r := by
  unfold noteFinishReasons
  split
  · rename_i choices hchoices
    obtain ⟨value, hget, harray⟩ := Option.bind_eq_some_iff.mp hchoices
    cases value with
    | arr =>
      cases harray
      apply foldl_noteFinishReason_eq_self
      intro choice hmem hchoice
      exact hkey (hasKey_of_get hget (.item hmem hchoice))
    | _ => cases harray
  · rfl

theorem noteChunk_eq_self (hkeys : ∀ key ∈ notedKeys, ¬ chunk.HasKey key) (r : StreamRecord) :
    noteChunk chunk r = r := by
  have hmodel := get_eq_none_of_not_hasKey (hkeys "model" (by decide))
  have husage := get_eq_none_of_not_hasKey (hkeys "usage" (by decide))
  have hfinish := noteFinishReasons_eq_self (hkeys "finish_reason" (by decide)) r
  simp [noteChunk, noteDetails, noteUsage, noteModel, hmodel, husage, hfinish]

/-! ## Lines the filter skips -/

theorem trim_within (s : Text) : trim s <:+: s :=
  .trans (IsPrefix.isInfix <| rdropWhile_prefix _ _) (dropWhile_suffix _).isInfix

theorem toBytes_within {a b : Text} (hwithin : a <:+: b) : toBytes a <:+: toBytes b := by
  obtain ⟨before, after, rfl⟩ := hwithin
  exact ⟨toBytes before, toBytes after, by simp⟩

def SpelledOut [SerdeJson] (line : Bytes) : Prop :=
  ∀ (text jsonStr : Text) (value : Value), fromBytes line = some text →
    (trim (trim text)).dropPrefix? "data: ".toList = some jsonStr →
    SerdeJson.fromStr jsonStr = some value → Json.KeysSpelledOut jsonStr

theorem json_within_text {jsonStr : Text}
    (hdata : (trim (trim text)).dropPrefix? "data: ".toList = some jsonStr) :
    jsonStr <:+: text := by
  obtain ⟨front, hsplit, -⟩ := dropPrefix?_eq_some_iff.mp hdata
  have hsuffix : jsonStr <:+: trim (trim text) := by
    rw [hsplit]
    exact (suffix_append _ _).isInfix
  exact hsuffix.trans ((trim_within _).trans (trim_within _))

variable [SerdeJson]

theorem spelledOut_of_not_mem (hfree : '\\' ∉ text) : SpelledOut (toBytes text) := by
  intro decoded jsonStr value hdecoded hdata _
  rw [fromBytes_toBytes, Option.some_inj] at hdecoded
  rw [← hdecoded] at hdata
  apply Json.keysSpelledOut_of_not_mem
  intro hmem
  exact hfree ((json_within_text hdata).subset hmem)

variable (hkeys : SerdeJson.SpellsKeys)
include hkeys

theorem noteEveryLine_eq_self (hspelled : SpelledOut line)
    (hskip : ∀ needle ∈ needles, ¬ needle <:+: line) (r : StreamRecord) :
    r.noteEveryLine line = r := by
  unfold noteEveryLine
  split
  · rfl
  · rename_i text htext
    unfold noteText
    dsimp only
    split_ifs
    · rfl
    · rfl
    · split
      · rfl
      · rename_i jsonStr hdata
        split
        · rfl
        · rename_i chunk hchunk
          apply noteChunk_eq_self
          intro key hnoted hkey
          have hshown := hkeys jsonStr chunk key (hspelled text jsonStr chunk htext hdata hchunk)
            hchunk hkey
          have hbytes := toBytes_within (hshown.trans (json_within_text hdata))
          rw [← fromBytes_eq_some.mp htext] at hbytes
          have hneedle : toBytes key.toList ∈ needles := by
            simp only [notedKeys, mem_cons, not_mem_nil, or_false] at hnoted
            rcases hnoted with rfl | rfl | rfl
            · decide
            · decide
            · decide
          exact hskip _ hneedle hbytes

theorem noteLine_eq_noteEveryLine (hspelled : SpelledOut line) (r : StreamRecord) :
    r.noteLine line = r.noteEveryLine line := by
  unfold noteLine
  split_ifs with hany
  · rfl
  · symm
    apply noteEveryLine_eq_self hkeys hspelled
    intro needle hmem hwithin
    exact hany (any_eq_true.mpr ⟨needle, hmem, decide_eq_true hwithin⟩)

end StreamRecord

namespace StreamInspector

section

variable [SerdeJson]

def ingestEveryChunk (now : ℕ) (s : StreamInspector) (line : Bytes) : StreamInspector :=
  { s with
    toStreamRecord := s.toStreamRecord.noteEveryLine line
    firstChunkAt := some (s.firstChunkAt.getD now) }

theorem ingestChunk_eq_ingestEveryChunk (hkeys : SerdeJson.SpellsKeys) {line : Bytes}
    (hspelled : SpelledOut line) (now : ℕ) (s : StreamInspector) :
    s.ingestChunk now line = s.ingestEveryChunk now line := by
  unfold ingestChunk ingestEveryChunk
  rw [noteLine_eq_noteEveryLine hkeys hspelled]

/-- The filter does not show: with and without it the inspector ends in the
same state, and what it skips would have changed no record. -/
theorem ingestChunk_filter_sound (hkeys : SerdeJson.SpellsKeys) (s : StreamInspector)
    (lines : List (ℕ × Bytes)) (hspelled : ∀ line ∈ lines, SpelledOut line.2) :
    lines.foldl (fun s line => s.ingestChunk line.1 line.2) s =
        lines.foldl (fun s line => s.ingestEveryChunk line.1 line.2) s ∧
      ∀ line ∈ lines, (∀ needle ∈ StreamRecord.needles, ¬ needle <:+: line.2) →
        ∀ r : StreamRecord, r.noteEveryLine line.2 = r := by
  constructor
  · induction lines generalizing s with
    | nil => rfl
    | cons line lines ih =>
      rw [forall_mem_cons] at hspelled
      rw [foldl_cons, ingestChunk_eq_ingestEveryChunk hkeys hspelled.1]
      exact ih _ hspelled.2
  · intro line hmem hskip r
    exact noteEveryLine_eq_self hkeys (hspelled line hmem) hskip r

end

attribute [local instance] jsonText

def contentLine : Text :=
  "data: \x7b\"choices\":[\x7b\"delta\":\x7b\"content\":\"Hi\"\x7d\x7d]\x7d\n".toList

def finishLine : Text := "data: \x7b\"choices\":[\x7b\"finish_reason\":\"stop\"\x7d]\x7d\n".toList

/-- A line that is skipped and one that is read. -/
theorem ingestChunk_filter_contentLine :
    (∀ needle ∈ StreamRecord.needles, ¬ needle <:+: toBytes contentLine) ∧
      (toBytes "finish_reason".toList <:+: toBytes finishLine) ∧
      [(1, toBytes contentLine), (2, toBytes finishLine)].foldl
          (fun s line => s.ingestChunk line.1 line.2) (newStartedAt 0) =
        [(1, toBytes contentLine), (2, toBytes finishLine)].foldl
          (fun s line => s.ingestEveryChunk line.1 line.2) (newStartedAt 0) := by
  refine ⟨by decide, by decide, (ingestChunk_filter_sound jsonText_spellsKeys _ _ ?_).1⟩
  intro line hmem
  simp only [mem_cons, not_mem_nil, or_false] at hmem
  rcases hmem with rfl | rfl
  · exact spelledOut_of_not_mem (by decide)
  · exact spelledOut_of_not_mem (by decide)

end StreamInspector

end LlmProxy
