import LlmProxy.StreamInspector

/-!
# What the inspector records of sent chunks

The inspector reads the lines of a stream of printed payloads.  It skips lines
without its needles, but a payload with a usage field shows the word, so every
usage that is sent is seen; the last readable one is recorded.
-/

namespace LlmProxy

open Json (Text Value Fields)
open LineCut List
open Utf8Bytes

variable {payloads : List Value}

namespace StreamRecord

def usageAfter (recorded : Option Usage) (chunk : Value) : Option Usage :=
  ((chunk.get "usage").bind Usage.fromValue).or recorded

variable (chunk : Value) (r : StreamRecord)

theorem noteFinishReasons_usage :
    (r.noteFinishReasons chunk).accumulatedUsage = r.accumulatedUsage := by
  unfold noteFinishReasons
  split
  · refine foldlRecOn (motive := fun s : StreamRecord => s.accumulatedUsage = r.accumulatedUsage)
      _ _ rfl ?_
    intro s hs choice _
    unfold noteFinishReason
    split
    · split_ifs
      · exact hs
      · exact hs
    · exact hs
  · rfl

theorem noteDetails_usage : (r.noteDetails chunk).accumulatedUsage = r.accumulatedUsage := by
  have hcached : ∀ usage (r : StreamRecord),
      (r.noteCached usage).accumulatedUsage = r.accumulatedUsage := by
    intro usage r
    unfold noteCached
    split
    · rfl
    · rfl
  have hreasoning : ∀ usage (r : StreamRecord),
      (r.noteReasoning usage).accumulatedUsage = r.accumulatedUsage := by
    intro usage r
    unfold noteReasoning
    split
    · rfl
    · rfl
  have haudio : ∀ usage (r : StreamRecord),
      (r.noteAudio usage).accumulatedUsage = r.accumulatedUsage := by
    intro usage r
    unfold noteAudio
    split
    · rfl
    · rfl
  unfold noteDetails
  split
  · rw [haudio, hreasoning, hcached]
  · rfl

theorem noteChunk_usage :
    (r.noteChunk chunk).accumulatedUsage = usageAfter r.accumulatedUsage chunk := by
  have hmodel : (r.noteModel chunk).accumulatedUsage = r.accumulatedUsage := by
    unfold noteModel
    split
    · rfl
    · rfl
  rw [noteChunk, noteDetails_usage, noteFinishReasons_usage, noteUsage, usageAfter]
  split
  · rename_i usage hget
    rw [hget, Option.bind_some]
    split
    · rename_i u hread
      rw [hread]
      rfl
    · rename_i hread
      rw [hread, hmodel]
      rfl
  · rename_i hget
    rw [hget, hmodel]
    rfl

variable [SerdeJson] {s : Text} {fields : Fields}

theorem noteLine_printed (hback : SerdeJson.ReadsBack)
    (hplain : (Value.obj fields).Plain Json.depthLimit)
    (hprint : SerdeJson.toString (.obj fields) = some s) (r : StreamRecord) :
    r.noteLine (toBytes ("data: ".toList ++ s)) =
      if needles.any fun needle => needle <:+: toBytes ("data: ".toList ++ s) then
        r.noteChunk (.obj fields)
      else r := by
  have hlast := hback.closes _ _ hprint
  have hdone : "data: ".toList ++ s ≠ "data: [DONE]".toList := by
    intro heq
    have hend := getLast_append_of_getLast (a := "data: ".toList) hlast
    rw [heq] at hend
    exact absurd hend (by decide)
  unfold noteLine
  split_ifs with hneedle
  · rw [fromBytes_toBytes]
    dsimp only
    unfold noteText
    rw [trim_printed hlast, trim_printed hlast, if_neg (by simp), if_neg hdone, dropPrefix_append]
    dsimp only
    rw [hback.reads _ _ hplain hprint]
  · rfl

theorem noteLine_printed_usage (hback : SerdeJson.ReadsBack)
    (hplain : (Value.obj fields).Plain Json.depthLimit)
    (hprint : SerdeJson.toString (.obj fields) = some s) (r : StreamRecord) :
    (r.noteLine (toBytes ("data: ".toList ++ s))).accumulatedUsage =
      usageAfter r.accumulatedUsage (.obj fields) := by
  rw [noteLine_printed hback hplain hprint]
  split_ifs with hneedle
  · exact noteChunk_usage _ r
  · have hnone : (Value.obj fields).get "usage" = none := by
      rw [Option.eq_none_iff_forall_ne_some]
      intro usage hget
      apply hneedle
      rw [any_eq_true]
      refine ⟨utf8 "usage", by simp [needles], ?_⟩
      rw [decide_eq_true_eq]
      obtain ⟨before, after, hshown⟩ :=
        hback.showsKey fields s "usage" usage (Json.Fields.get_mem hget) (by simp) hprint
      refine ⟨toBytes ("data: ".toList ++ before), toBytes after, ?_⟩
      rw [utf8, ← toBytes_append, ← toBytes_append, ← hshown]
      simp
    rw [usageAfter, hnone]
    rfl

theorem feedLines_dataEvent (hjson : SerdeJson.Lawful) {payload : Value}
    (hprint : SerdeJson.toString payload = some s) (r : StreamRecord) (rest : Bytes) :
    feedLines newline noteLine r (dataEvent s ++ rest) =
      feedLines newline noteLine (r.noteLine (toBytes ("data: ".toList ++ s))) rest := by
  have hfree : '\n' ∉ "data: ".toList ++ s := by
    rw [mem_append, not_or]
    exact ⟨by decide, (hjson.oneLine _ _ hprint).1⟩
  have hblank : ∀ r : StreamRecord, r.noteLine [] = r := by
    intro r
    rfl
  unfold feedLines
  rw [dataEvent_eq, sseLine_eq, append_assoc, cutLines_line_append (isLine_toBytes hfree),
    cutLines_line_append isLine_newline, map_cons, map_cons, foldl_cons,
    foldl_cons, dropLast_concat]
  exact congrArg (fun r => (List.foldl noteLine r _, _)) (hblank _)

theorem feedLines_emitted (hjson : SerdeJson.Lawful) (hback : SerdeJson.ReadsBack)
    (hsend : ∀ payload ∈ payloads, Sendable payload) (r : StreamRecord) :
    (feedLines newline noteLine r (payloads.flatMap emitted).flatten).2 = [] ∧
      (feedLines newline noteLine r (payloads.flatMap emitted).flatten).1.accumulatedUsage =
        payloads.foldl usageAfter r.accumulatedUsage := by
  induction payloads generalizing r with
  | nil => exact ⟨rfl, rfl⟩
  | cons payload payloads ih =>
    obtain ⟨⟨fields, rfl⟩, hplain⟩ := hsend payload mem_cons_self
    obtain ⟨s, hprint, hemitted⟩ := emitted_obj hjson fields
    have hrest := ih fun other hother => hsend other (mem_cons_of_mem _ hother)
    rw [flatMap_cons, hemitted, cons_append, flatten_cons, feedLines_dataEvent hjson hprint,
      foldl_cons, ← noteLine_printed_usage hback hplain hprint]
    exact hrest _

end StreamRecord

variable [SerdeJson]

theorem inspect_emitted_usage (hjson : SerdeJson.Lawful) (hback : SerdeJson.ReadsBack)
    (hsend : ∀ payload ∈ payloads, Sendable payload) {items : List (ℕ × Bytes)}
    (hitems : items.map Prod.snd = payloads.flatMap emitted) (startAt endAt : ℕ) :
    (StreamInspector.inspect startAt items endAt).finalize.usage =
      payloads.foldl StreamRecord.usageAfter none := by
  obtain ⟨hclosed, husage⟩ := StreamRecord.feedLines_emitted hjson hback hsend {}
  have hrecord := inspect_record startAt endAt items
  rw [hitems, recorded, hclosed] at hrecord
  exact (congrArg StreamRecord.accumulatedUsage hrecord).trans husage

end LlmProxy
