import LlmProxy.AnthropicRelay
import LlmProxy.GeminiRelay

/-!
# The terminators of the relays

At the end of an upstream that did not finish, `poll_next` both queues the
terminator and returns it; after a stop event or a finish reason it returns
nothing more.  So a client is sent two terminators or none.
-/

namespace LlmProxy

open Json (Text Value)
open NormalizingStream (Flowing upcoming)
open List

namespace EventRelay

variable {Fields : Type} (R : EventRelay Fields) [SerdeJson]

theorem countP_isDone_emitted (hjson : SerdeJson.Lawful) {payloads : List Value}
    (hsend : ∀ payload ∈ payloads, Sendable payload) (outs : List Utf8Bytes.Bytes) :
    (dataLines (payloads.flatMap emitted ++ outs).flatten).countP isDone =
      (dataLines outs.flatten).countP isDone := by
  induction payloads with
  | nil => rfl
  | cons payload payloads ih =>
    rw [forall_mem_cons] at hsend
    obtain ⟨⟨fields, rfl⟩, -⟩ := hsend.1
    obtain ⟨s, hprint, hemitted⟩ := emitted_obj hjson fields
    obtain ⟨hclosed, line, hline, hundone⟩ := dataLines_dataEvent hjson hprint
    rw [flatMap_cons, hemitted, cons_append, nil_append, cons_append,
      flatten_cons, dataLines_append hclosed, hline, countP_append,
      countP_singleton, hundone, if_neg Bool.false_ne_true, ih hsend.2, Nat.zero_add]

omit [SerdeJson] in
theorem countP_isDone_terminators (done : Bool) :
    (dataLines (terminators done).flatten).countP isDone = if done then 0 else 2 := by
  cases done with
  | true => rfl
  | false => decide +kernel

theorem countP_isDone_collect (hjson : SerdeJson.Lawful) (fields : Fields) {polls : List Poll}
    (hflowing : Flowing polls) :
    (dataLines (R.collect fields polls).flatten).countP isDone =
      if (R.sent fields (R.batchesOf [] (StreamRelay.chunksOf polls))).2 then 0 else 2 := by
  rw [R.collect_eq_output fields hflowing, R.output_eq_sent hjson,
    countP_isDone_emitted hjson (R.sendable_sent fields _), countP_isDone_terminators]

theorem not_endsWithDone_collect (hjson : SerdeJson.Lawful) (fields : Fields) {polls : List Poll}
    (hflowing : Flowing polls) : ¬ EndsWithDone (dataLines (R.collect fields polls).flatten) := by
  intro hends
  obtain ⟨hone, -⟩ := (endsWithDone_iff _).mp hends
  rw [R.countP_isDone_collect hjson fields hflowing] at hone
  split_ifs at hone
  cases hone

theorem collect_nil (fields : Fields) : R.collect fields [] = [doneEvent, doneEvent] := by
  have hflowing : Flowing ([] : List Poll) := forall_mem_nil _
  rw [R.collect_eq_output fields hflowing]
  rfl

end EventRelay

/-- Neither relay ever ends a stream with exactly one terminator. -/
theorem relays_never_end_with_done [SerdeJson] (hjson : SerdeJson.Lawful) (messageId model : Text)
    (created : UInt64) {polls : List Poll} (hflowing : Flowing polls) :
    ¬ EndsWithDone
        (dataLines (anthropicRelay.collect (.new messageId model created) polls).flatten) ∧
      ¬ EndsWithDone
        (dataLines (geminiRelay.collect (.new messageId model created) polls).flatten) :=
  ⟨anthropicRelay.not_endsWithDone_collect hjson _ hflowing,
    geminiRelay.not_endsWithDone_collect hjson _ hflowing⟩

section

attribute [local instance] jsonText

def stoppedMessage : List Value :=
  [.obj [("type", .str "message_start".toList)], .obj [("type", .str "message_stop".toList)]]

def stoppedPolls : List Poll := [.item (stoppedMessage.flatMap emitted).flatten]

theorem stopped_message_never_ends_with_done :
    ¬ EndsWithDone (dataLines (anthropicRelay.collect (.new [] "claude".toList 0)
        stoppedPolls).flatten) ∧
      ¬ EndsWithDone (dataLines (geminiRelay.collect (.new [] "claude".toList 0)
        stoppedPolls).flatten) :=
  relays_never_end_with_done jsonText_lawful _ _ _ (flowing_item _)

def stoppedAnswer : List Value := [GeminiRelay.partsEvent [] (some "STOP".toList)]

theorem terminator_twice_or_missing :
    anthropicRelay.collect (.new [] "claude".toList 0) [] = [doneEvent, doneEvent] ∧
      geminiRelay.collect (.new [] "gemini".toList 0) [] = [doneEvent, doneEvent] ∧
      (dataLines (anthropicRelay.collect (.new [] "claude".toList 0)
        stoppedPolls).flatten).countP isDone = 0 ∧
      (dataLines (geminiRelay.collect (.new [] "gemini".toList 0)
        (GeminiRelay.groupPolls [stoppedAnswer])).flatten).countP isDone = 0 := by
  refine ⟨anthropicRelay.collect_nil _, geminiRelay.collect_nil _, ?_, ?_⟩
  · have hevents := AnthropicRelay.eventsOf_emitted jsonText_lawful jsonText_readsBack
      (by decide +kernel : ∀ event ∈ stoppedMessage, Sendable event)
    rw [stoppedPolls, anthropicRelay.countP_isDone_collect jsonText_lawful _ (flowing_item _)]
    change (if (anthropicRelay.sent _ [anthropicRelay.eventsOf _]).2 = true then 0 else 2) = 0
    rw [nil_append, hevents]
    rfl
  · have hsend : ∀ group ∈ [stoppedAnswer], ∀ event ∈ group, Sendable event := by decide +kernel
    rw [geminiRelay.countP_isDone_collect jsonText_lawful _ (GeminiRelay.flowing_groupPolls _),
      GeminiRelay.groupPolls, EventRelay.chunksOf_items,
      GeminiRelay.batchesOf_eventLines jsonText_lawful jsonText_readsBack hsend]
    rfl

end

end LlmProxy
