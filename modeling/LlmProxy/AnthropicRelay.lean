import LlmProxy.ChunkPayload

/-!
# The Anthropic relay

`RelayState::process_line` of `anthropic_stream.rs`: the events of a message
stream become chunks.  Every branch puts its chunk at the end of the queue and
none looks at the queue.
-/

namespace LlmProxy

open Json (Text Value)
open LineCut List
open NormalizingStream (Flowing upcoming)
open Utf8Bytes

namespace AnthropicRelay

variable (event : Value)

def eventType : Text := ((event.get "type").bind Value.asStr).getD []

def deltaOfEvent (key : String) (event : Value) : Option Value :=
  (event.get "delta").bind (Value.get key)

def isThinking : Bool :=
  ((deltaOfEvent "type" event).bind Value.asStr).getD [] = "thinking_delta".toList

/-- A delta of another kind, such as a signature, reads as an empty text. -/
def deltaText : Text :=
  if isThinking event then ((deltaOfEvent "thinking" event).bind Value.asStr).getD []
  else ((deltaOfEvent "text" event).bind Value.asStr).getD []

/-- The index of the content block, which is sent as that of the choice. -/
def blockIndex : ℕ := ((event.get "index").bind Value.asU64).getD 0

/-- An unknown stop reason becomes `stop`. -/
def finishReasonFor (stopReason : Text) : Text :=
  if stopReason = "end_turn".toList then "stop".toList
  else if stopReason = "max_tokens".toList then "length".toList
  else if stopReason = "stop_sequence".toList then "stop".toList
  else if stopReason = "tool_use".toList then "tool_calls".toList
  else "stop".toList

def stopReason : Option Text := (deltaOfEvent "stop_reason" event).bind Value.asStr

def outputTokens : Option ℕ :=
  ((event.get "usage").bind (Value.get "output_tokens")).bind Value.asU64

/-! ## The fields -/

variable (f : RelayFields)

/-- Id and model of the message replace those of the relay. -/
def noteMessage : RelayFields :=
  match event.get "message" with
  | some message =>
    { f with
      messageId := ((message.get "id").bind Value.asStr).getD f.messageId
      model := ((message.get "model").bind Value.asStr).getD f.model }
  | none => f

def noteBlock : RelayFields :=
  { f with contentIdx := UInt64.ofNat (blockIndex event) }

/-- An event without a finish reason clears it; a missing count keeps the last. -/
def noteStop : RelayFields :=
  { f with
    finishReason := (stopReason event).map finishReasonFor
    streamedTokens := ((outputTokens event).map UInt32.ofNat).getD f.streamedTokens }

section

variable {Item : Type} (emit : Value → List Item)

/-- A chunk goes to the end of the queue. -/
def emitChunk (text : Text) (finishReason : Option Text) (reasoning : Option Bool)
    (s : LineRelay RelayFields Item) : LineRelay RelayFields Item :=
  s.push emit (chunkPayload s.fields text finishReason (reasoning = some true))

/-- The role is sent as the text `assistant`. -/
def messageStart (event : Value) (s : LineRelay RelayFields Item) : LineRelay RelayFields Item :=
  emitChunk emit assistantRole none none { s with fields := noteMessage event s.fields }

/-- Every delta is sent, of whatever kind. -/
def contentBlockDelta (event : Value) (s : LineRelay RelayFields Item) :
    LineRelay RelayFields Item :=
  emitChunk emit (deltaText event) none (if isThinking event then some true else none)
    { s with fields := noteBlock event s.fields }

/-- The finish reason is sent with an empty text. -/
def messageDelta (event : Value) (s : LineRelay RelayFields Item) : LineRelay RelayFields Item :=
  emitChunk emit [] (noteStop event s.fields).finishReason none
    { s with fields := noteStop event s.fields }

variable (s : LineRelay RelayFields Item)

/-- The closing chunk reports no prompt tokens. -/
def messageStop : LineRelay RelayFields Item :=
  { s.push emit (closingPayload s.fields ⟨0, s.fields.streamedTokens, s.fields.streamedTokens⟩) with
    done := true }

/-- `process_line` on the parsed event.  `ping`, `content_block_start`,
`content_block_stop` and events of unknown type do nothing. -/
def onEvent (event : Value) : LineRelay RelayFields Item :=
  if eventType event = "message_start".toList then messageStart emit event s
  else if eventType event = "content_block_delta".toList then contentBlockDelta emit event s
  else if eventType event = "message_delta".toList then messageDelta emit event s
  else if eventType event = "message_stop".toList then messageStop emit s
  else s

end

/-- Only lines that start with `data: ` are read. -/
def readEvent [SerdeJson] (line : Text) : Option Value :=
  match line.dropPrefix? "data: ".toList with
  | some data => if data.isEmpty then none else SerdeJson.fromStr data
  | none => none

def isStop (event : Value) : Bool := eventType event = "message_stop".toList

theorem onEvent_appends {Item : Type} (emit : Value → List Item) (s : LineRelay RelayFields Item)
    (event : Value) :
    onEvent emit s event =
      ⟨(onEvent List.singleton (.new s.fields) event).fields,
        s.pending ++ (onEvent List.singleton (.new s.fields) event).pending.flatMap emit,
        s.done || isStop event⟩ := by
  unfold onEvent isStop
  split_ifs with hstart hblock hdelta hstop
  · rw [hstart]
    simp [messageStart, emitChunk, LineRelay.push, LineRelay.new, List.singleton]
  · rw [hblock]
    simp [contentBlockDelta, emitChunk, LineRelay.push, LineRelay.new, List.singleton]
  · rw [hdelta]
    simp [messageDelta, emitChunk, LineRelay.push, LineRelay.new, List.singleton]
  · rw [hstop]
    simp [messageStop, LineRelay.push, LineRelay.new, List.singleton]
  · rw [decide_eq_false hstop]
    simp [LineRelay.new]

theorem onEvent_sendable (s : LineRelay RelayFields Value) (event : Value)
    (hqueue : ∀ payload ∈ s.pending, Sendable payload) :
    ∀ payload ∈ (onEvent List.singleton s event).pending, Sendable payload := by
  have hpush : ∀ (fields : RelayFields) {payload : Value}, Sendable payload →
      ∀ other ∈ (LineRelay.push List.singleton payload { s with fields := fields }).pending,
        Sendable other := by
    intro fields payload hsend other hother
    rcases mem_append.mp hother with hmem | hmem
    · exact hqueue other hmem
    · rw [mem_singleton.mp hmem]
      exact hsend
  unfold onEvent
  split_ifs
  · exact hpush _ (sendable_chunkPayload _ _ _ _)
  · exact hpush _ (sendable_chunkPayload _ _ _ _)
  · exact hpush _ (sendable_chunkPayload _ _ _ _)
  · exact hpush s.fields (sendable_closingPayload _ _)
  · exact hqueue

end AnthropicRelay

/-- The relay of `relay_anthropic_stream`. -/
def anthropicRelay [SerdeJson] : EventRelay RelayFields where
  readEvent := AnthropicRelay.readEvent
  onEvent := AnthropicRelay.onEvent
  onEvent_map := by
    intro Item emit hemit s event
    have hself : ∀ payloads : List Value, payloads.flatMap List.singleton = payloads :=
      List.flatMap_singleton'
    rw [AnthropicRelay.onEvent_appends, AnthropicRelay.onEvent_appends List.singleton s, hself]
    simp [LineRelay.mapQueue]
  onEvent_sendable := AnthropicRelay.onEvent_sendable

namespace AnthropicRelay

section

variable [SerdeJson]

theorem appends : anthropicRelay.Appends isStop := fun emit s event => onEvent_appends emit s event

theorem eventsOf_emitted (hjson : SerdeJson.Lawful) (hback : SerdeJson.ReadsBack)
    {events : List Value} (hsend : ∀ event ∈ events, Sendable event) :
    anthropicRelay.eventsOf (events.flatMap emitted).flatten = events := by
  induction events with
  | nil => rfl
  | cons event events ih =>
    obtain ⟨⟨fields, rfl⟩, hplain⟩ := hsend event mem_cons_self
    obtain ⟨s, hprint, hemitted⟩ := emitted_obj hjson fields
    have hrest := ih fun other hother => hsend other (mem_cons_of_mem _ hother)
    have hfree : '\n' ∉ "data: ".toList ++ s := by
      rw [mem_append, not_or]
      exact ⟨by decide, (hjson.oneLine _ _ hprint).1⟩
    have hline : anthropicRelay.eventOfLine (toBytes ("data: ".toList ++ s)) =
        some (.obj fields) := by
      have htrim : trimmedLine (toBytes ("data: ".toList ++ s)) = "data: ".toList ++ s := by
        rw [trimmedLine, fromBytes_toBytes, Option.getD_some,
          trim_printed (hback.closes _ _ hprint)]
      have hfull : s.isEmpty = false := by
        cases s with
        | nil => exact absurd (hback.closes _ _ hprint) (by decide)
        | cons => rfl
      rw [EventRelay.eventOfLine, htrim]
      change readEvent ("data: ".toList ++ s) = _
      rw [readEvent, dropPrefix_append]
      dsimp only
      rw [hfull, if_neg Bool.false_ne_true, hback.reads _ _ hplain hprint]
    rw [flatMap_cons, hemitted, cons_append, flatten_cons, dataEvent_eq, sseLine_eq, append_assoc,
      EventRelay.eventsOf, cutLines_line_append (isLine_toBytes hfree), map_cons, dropLast_concat,
      filterMap_cons_some hline]
    exact congrArg (_ :: ·) hrest

/-- Two ways of cutting an upstream give the client the same events. -/
theorem collect_independent_of_cut (fields : RelayFields) {polls other : List Poll}
    (hflowing : Flowing polls) (hother : Flowing other) (hsame : upcoming polls = upcoming other)
    (hlast : EventRelay.StopIsLast isStop (anthropicRelay.eventsOf (upcoming polls))) :
    anthropicRelay.collect fields polls = anthropicRelay.collect fields other := by
  rw [appends.collect_eq fields hflowing hlast,
    appends.collect_eq fields hother (hsame ▸ hlast), hsame]

end

section

attribute [local instance] jsonText

def accentEvents : List Value :=
  [.obj [("delta", .obj [("text", .str "é".toList), ("type", .str "text_delta".toList)]),
      ("index", .num (.int 0)), ("type", .str "content_block_delta".toList)],
    .obj [("type", .str "message_stop".toList)]]

def accentBytes : Bytes := (accentEvents.flatMap emitted).flatten

/-- A cut between the two bytes, and no cut. -/
theorem split_accent_same_events :
    accentBytes.take 25 = utf8 "data: \x7b\"delta\":\x7b\"text\":\"" ++ [195] ∧
    anthropicRelay.collect (.new [] "claude".toList 0)
        [.item (accentBytes.take 25), .pending, .item (accentBytes.drop 25)] =
      anthropicRelay.collect (.new [] "claude".toList 0) [.item accentBytes] := by
  have hsame : upcoming [.item (accentBytes.take 25), .pending, .item (accentBytes.drop 25)] =
      accentBytes := by
    simp [upcoming, Poll.bytes]
  have hevents : anthropicRelay.eventsOf accentBytes = accentEvents := by
    apply eventsOf_emitted jsonText_lawful jsonText_readsBack
    decide +kernel
  refine ⟨by decide +kernel,
    collect_independent_of_cut _ (flowing_pieces _ _) (flowing_item _) ?_ ?_⟩
  · rw [hsame]
    simp [upcoming, Poll.bytes]
  · rw [hsame, hevents]
    exact EventRelay.stopIsLast_concat [_] (by decide) _

end

end AnthropicRelay

end LlmProxy
