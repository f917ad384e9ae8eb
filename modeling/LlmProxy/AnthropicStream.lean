import LlmProxy.AnthropicRelay
import LlmProxy.ChatResponse
import LlmProxy.InspectedChunks

/-!
# Streamed and whole Anthropic answers

A message is streamed as a start, deltas of its content blocks, a closing delta and a stop.  Here
the chunks the relay sends for such a stream are compared with what `anthropic_to_openai` makes of
the whole message.
-/

namespace LlmProxy

open Json (Text Value)
open NormalizingStream (Flowing upcoming)

/-- The text of a content block, or the part of it that one delta carries. -/
structure BlockText where
  index : ℕ
  thinking : Bool
  text : Text
  deriving DecidableEq, Repr

variable (blocks : List BlockText)

def plainText : Text :=
  blocks.flatMap fun block => if block.thinking then [] else block.text

def thinkingText : Text :=
  blocks.flatMap fun block => if block.thinking then block.text else []

/-- The deltas of a block are told by its index, not by the order they arrive in. -/
def byBlock : List BlockText := blocks.insertionSort fun a b => a.index ≤ b.index

def joinBlocks : List BlockText → List BlockText
  | [] => []
  | delta :: deltas =>
    match joinBlocks deltas with
    | [] => [delta]
    | block :: blocks =>
      if block.index = delta.index ∧ block.thinking = delta.thinking then
        { delta with text := delta.text ++ block.text } :: blocks
      else delta :: block :: blocks

def BlockText.content (block : BlockText) : AnthropicContent where
  type_ := if block.thinking then "thinking".toList else "text".toList
  text := if block.thinking then none else some block.text
  thinking := if block.thinking then some block.text else none

/-- The content of the message whose blocks the deltas fill. -/
def assembled (deltas : List BlockText) : List AnthropicContent :=
  (joinBlocks (byBlock deltas)).map BlockText.content

/-- Put together block by block, the texts read as they arrive. -/
def InBlockOrder (deltas : List BlockText) : Prop :=
  plainText (byBlock deltas) = plainText deltas ∧
    thinkingText (byBlock deltas) = thinkingText deltas

namespace AnthropicStream

open AnthropicRelay List Option

theorem texts_joinBlocks (deltas : List BlockText) :
    plainText (joinBlocks deltas) = plainText deltas ∧
      thinkingText (joinBlocks deltas) = thinkingText deltas := by
  induction deltas with
  | nil => exact ⟨rfl, rfl⟩
  | cons delta deltas ih =>
    obtain ⟨hplain, hthinking⟩ := ih
    unfold joinBlocks
    unfold plainText at hplain ⊢
    unfold thinkingText at hthinking ⊢
    rw [flatMap_cons, flatMap_cons, ← hplain, ← hthinking]
    cases joinBlocks deltas with
    | nil => simp
    | cons block =>
      dsimp only
      by_cases hsame : block.index = delta.index ∧ block.thinking = delta.thinking
      · rw [if_pos hsame]
        cases hkind : delta.thinking with
        | true => simp [hsame.2, hkind]
        | false => simp [hsame.2, hkind]
      · rw [if_neg hsame]
        simp

theorem inBlockOrder_of_pairwise {deltas : List BlockText}
    (hsorted : deltas.Pairwise fun a b => a.index ≤ b.index) : InBlockOrder deltas := by
  rw [InBlockOrder, byBlock, hsorted.insertionSort_eq]
  exact ⟨rfl, rfl⟩

theorem flatten_textPart (blocks : List BlockText) :
    ((blocks.map BlockText.content).filterMap AnthropicContent.textPart).flatten =
      plainText blocks := by
  rw [flatten_filterMap, flatMap_map]
  apply flatMap_congr
  intro block _
  cases hkind : block.thinking with
  | true => simp [AnthropicContent.textPart, BlockText.content, hkind]
  | false => simp [AnthropicContent.textPart, BlockText.content, hkind]

theorem flatten_reasoningPart (blocks : List BlockText) :
    ((blocks.map BlockText.content).filterMap AnthropicContent.reasoningPart).flatten =
      thinkingText blocks := by
  rw [flatten_filterMap, flatMap_map]
  apply flatMap_congr
  intro block _
  cases hkind : block.thinking with
  | true => simp [AnthropicContent.reasoningPart, BlockText.content, hkind]
  | false => simp [AnthropicContent.reasoningPart, BlockText.content, hkind]

/-! ## Streams -/

def relayedTypes : List Text :=
  ["message_start".toList, "content_block_delta".toList, "message_delta".toList,
    "message_stop".toList]

def isRelayed (event : Value) : Bool := eventType event ∈ relayedTypes

/-- A complete stream: start, deltas, closing delta and stop.  Events of other
types may stand anywhere before the stop. -/
structure Framed (events : List Value) (start : Value) (middle : List Value) (last stop : Value) :
    Prop where
  split : ∃ body, events = body ++ [stop] ∧ body.filter isRelayed = start :: (middle ++ [last])
  isStart : eventType start = "message_start".toList
  isMiddle : ∀ event ∈ middle, eventType event = "content_block_delta".toList ∨
    eventType event = "message_delta".toList
  isLast : eventType last = "message_delta".toList
  isStop : AnthropicRelay.isStop stop = true

def BlockDeltas (middle : List Value) : Prop :=
  ∀ event ∈ middle, eventType event = "content_block_delta".toList

/-- A complete stream of any content block deltas, of tool calls and signatures too. -/
def Streams (events middle : List Value) (reason : Option Text) : Prop :=
  ∃ start last stop, Framed events start middle last stop ∧ BlockDeltas middle ∧
    stopReason last = reason

/-- What the relay reads in a content block delta. -/
def readDelta (event : Value) : BlockText := ⟨blockIndex event, isThinking event, deltaText event⟩

structure EncodesDelta (event : Value) (delta : BlockText) : Prop where
  isDelta : event.get "type" = some (.str "content_block_delta".toList)
  index : (event.get "index").bind Value.asU64 = some delta.index
  kind : deltaOfEvent "type" event =
    some (.str (if delta.thinking then "thinking_delta".toList else "text_delta".toList))
  text : deltaOfEvent (if delta.thinking then "thinking" else "text") event = some (.str delta.text)

/-- A complete stream of text and thinking deltas. -/
def Carries (events : List Value) (deltas : List BlockText) (reason : Option Text) : Prop :=
  ∃ middle, Streams events middle reason ∧ List.Forall₂ EncodesDelta middle deltas

def inputTokens (start : Value) : Option ℕ :=
  (((start.get "message").bind (Value.get "usage")).bind (Value.get "input_tokens")).bind
    Value.asU64

def Reports (events : List Value) (input output : ℕ) : Prop :=
  ∃ start middle last stop, Framed events start middle last stop ∧
    inputTokens start = some input ∧ outputTokens last = some output

section

variable [SerdeJson] {event : Value}

theorem respond_start (htype : eventType event = "message_start".toList) (f : RelayFields) :
    anthropicRelay.respond f event =
      ⟨noteMessage event f, [chunkPayload (noteMessage event f) assistantRole none false],
        false⟩ := by
  simp [EventRelay.respond, anthropicRelay, onEvent, htype, messageStart, emitChunk,
    LineRelay.push, LineRelay.new, List.singleton]

theorem respond_delta (htype : eventType event = "content_block_delta".toList) (f : RelayFields) :
    anthropicRelay.respond f event =
      ⟨noteBlock event f,
        [chunkPayload (noteBlock event f) (deltaText event) none (isThinking event)], false⟩ := by
  simp [EventRelay.respond, anthropicRelay, onEvent, htype, contentBlockDelta, emitChunk,
    LineRelay.push, LineRelay.new, List.singleton]

theorem respond_last (htype : eventType event = "message_delta".toList) (f : RelayFields) :
    anthropicRelay.respond f event =
      ⟨noteStop event f,
        [chunkPayload (noteStop event f) [] (noteStop event f).finishReason false], false⟩ := by
  simp [EventRelay.respond, anthropicRelay, onEvent, htype, messageDelta, emitChunk,
    LineRelay.push, LineRelay.new, List.singleton]

theorem respond_stop (hstop : isStop event = true) (f : RelayFields) :
    anthropicRelay.respond f event =
      ⟨f, [closingPayload f ⟨0, f.streamedTokens, f.streamedTokens⟩], true⟩ := by
  have htype : eventType event = "message_stop".toList := of_decide_eq_true hstop
  simp [EventRelay.respond, anthropicRelay, onEvent, htype, messageStop,
    LineRelay.push, LineRelay.new, List.singleton]

omit [SerdeJson] in
theorem isRelayed_of_isStop (hstop : isStop event = true) : isRelayed event = true := by
  have htype : eventType event = "message_stop".toList := of_decide_eq_true hstop
  rw [isRelayed, htype]
  decide

theorem respond_other (hother : isRelayed event = false) (f : RelayFields) :
    anthropicRelay.respond f event = .new f := by
  simp only [isRelayed, relayedTypes, mem_cons, decide_eq_false_iff_not, not_or] at hother
  simp only [EventRelay.respond, anthropicRelay, onEvent, hother, if_false]

theorem responses_filter (events : List Value) (f : RelayFields) :
    anthropicRelay.responses f events = anthropicRelay.responses f (events.filter isRelayed) := by
  induction events generalizing f with
  | nil => rfl
  | cons event events ih =>
    cases hrelayed : isRelayed event with
    | true =>
      rw [filter_cons_of_pos hrelayed, EventRelay.responses, EventRelay.responses, ih]
    | false =>
      rw [filter_cons_of_neg (by rw [hrelayed]; exact Bool.false_ne_true),
        EventRelay.responses, respond_other hrelayed, ih]
      rfl

end

variable {reason : Option Text} {event : Value} {n : ℕ}

namespace Framed

variable {events middle : List Value} {start last stop : Value}
  (hframed : Framed events start middle last stop)

include hframed

theorem any_isStop : events.any AnthropicRelay.isStop = true := by
  obtain ⟨body, rfl, -⟩ := hframed.split
  rw [any_append, any_cons, hframed.isStop, Bool.true_or, Bool.or_true]

theorem isStop_eq_false (hmem : event ∈ start :: (middle ++ [last])) :
    AnthropicRelay.isStop event = false := by
  have htype : eventType event = "message_start".toList ∨
      eventType event = "content_block_delta".toList ∨
      eventType event = "message_delta".toList := by
    rcases mem_cons.mp hmem with rfl | hmem
    · exact .inl hframed.isStart
    · rcases mem_append.mp hmem with hmem | hmem
      · exact .inr (hframed.isMiddle event hmem)
      · rw [mem_singleton.mp hmem]
        exact .inr (.inr hframed.isLast)
  unfold AnthropicRelay.isStop
  rcases htype with htype | htype | htype
  · rw [htype]
    decide
  · rw [htype]
    decide
  · rw [htype]
    decide

theorem stopIsLast : EventRelay.StopIsLast AnthropicRelay.isStop events := by
  obtain ⟨body, hevents, hbody⟩ := hframed.split
  rw [hevents]
  apply EventRelay.stopIsLast_concat
  intro event hevent
  rw [Bool.eq_false_iff]
  intro hstop
  have hmem : event ∈ start :: (middle ++ [last]) := by
    rw [← hbody, mem_filter]
    exact ⟨hevent, isRelayed_of_isStop hstop⟩
  exact absurd hstop (Bool.eq_false_iff.mp (hframed.isStop_eq_false hmem))

theorem responses_eq [SerdeJson] (f : RelayFields) :
    anthropicRelay.responses f events =
      anthropicRelay.responses f (start :: (middle ++ [last, stop])) := by
  obtain ⟨body, rfl, hbody⟩ := hframed.split
  rw [responses_filter, filter_append, hbody,
    filter_cons_of_pos (isRelayed_of_isStop hframed.isStop)]
  simp

end Framed

/-! ## The chunks of a stream -/

def deltaChunk (f : RelayFields) (delta : BlockText) : Value :=
  chunkPayload { f with contentIdx := UInt64.ofNat delta.index } delta.text none delta.thinking

def deltaChoice (delta : BlockText) : Value :=
  chunkChoice (UInt64.ofNat delta.index) (chunkDelta delta.text delta.thinking) none

def lastIndex (index : UInt64) (deltas : List BlockText) : UInt64 :=
  deltas.foldl (fun _ delta => UInt64.ofNat delta.index) index

def streamChunks (opening closing : RelayFields) (deltas : List BlockText) : List Value :=
  chunkPayload opening assistantRole none false ::
    (deltas.map (deltaChunk opening) ++
      [chunkPayload closing [] closing.finishReason false,
        closingPayload closing ⟨0, closing.streamedTokens, closing.streamedTokens⟩])

variable {deltas : List BlockText} {events middle : List Value}

theorem blockIndex_lt (event : Value) : blockIndex event < 2 ^ 64 := by
  unfold blockIndex
  cases hindex : (event.get "index").bind Value.asU64 with
  | none => decide
  | some n =>
    obtain ⟨value, -, hvalue⟩ := bind_eq_some_iff.mp hindex
    unfold Value.asU64 at hvalue
    split at hvalue
    · split_ifs at hvalue
      rw [some_inj] at hvalue
      rw [getD_some]
      omega
    · cases hvalue

theorem EncodesDelta.readDelta_eq {delta : BlockText} (hencodes : EncodesDelta event delta) :
    readDelta event = delta := by
  have hindex : blockIndex event = delta.index := by
    rw [blockIndex, hencodes.index, getD_some]
  have hthinking : isThinking event = delta.thinking := by
    rw [isThinking, hencodes.kind]
    cases delta.thinking with
    | true => rfl
    | false => rfl
  have hdelta : deltaText event = delta.text := by
    have htext := hencodes.text
    rw [deltaText, hthinking]
    cases hkind : delta.thinking with
    | true =>
      rw [hkind, if_pos rfl] at htext
      rw [htext]
      rfl
    | false =>
      rw [hkind, if_neg Bool.false_ne_true] at htext
      rw [htext]
      rfl
  rw [readDelta, hindex, hthinking, hdelta]

theorem Carries.exists_streams (hcarries : Carries events deltas reason) :
    ∃ middle, Streams events middle reason ∧ middle.map readDelta = deltas := by
  obtain ⟨middle, hstreams, hmiddle⟩ := hcarries
  refine ⟨middle, hstreams, ?_⟩
  clear hstreams
  induction hmiddle with
  | nil => rfl
  | cons hencodes _ ih => rw [map_cons, hencodes.readDelta_eq, ih]

section

variable [SerdeJson]

theorem responses_deltas (hmiddle : BlockDeltas middle) (f : RelayFields) :
    anthropicRelay.responses f middle = (middle.map readDelta).map (deltaChunk f) ∧
      anthropicRelay.fieldsAfter f middle =
        { f with contentIdx := lastIndex f.contentIdx (middle.map readDelta) } := by
  induction middle generalizing f with
  | nil => exact ⟨rfl, rfl⟩
  | cons event middle ih =>
    rw [BlockDeltas, forall_mem_cons] at hmiddle
    obtain ⟨hchunks, hfields⟩ := ih hmiddle.2 (noteBlock event f)
    constructor
    · rw [EventRelay.responses, respond_delta hmiddle.1, hchunks]
      rfl
    · rw [EventRelay.fieldsAfter, foldl_cons, ← EventRelay.fieldsAfter, respond_delta hmiddle.1,
        hfields]
      rfl

theorem chunksSent_streams (hjson : SerdeJson.Lawful) (hback : SerdeJson.ReadsBack)
    (f : RelayFields) {polls : List Poll} (hflowing : Flowing polls)
    (hstreams : Streams (anthropicRelay.eventsOf (upcoming polls)) middle reason) :
    ∃ opening closing, opening.contentIdx = f.contentIdx ∧
      closing.contentIdx = lastIndex f.contentIdx (middle.map readDelta) ∧
      closing.finishReason = reason.map finishReasonFor ∧
      chunksSent (anthropicRelay.collect f polls) =
        streamChunks opening closing (middle.map readDelta) := by
  obtain ⟨start, last, stop, hframed, hmiddle, hreason⟩ := hstreams
  have hkept : (noteMessage start f).contentIdx = f.contentIdx := by
    unfold noteMessage
    split
    · rfl
    · rfl
  obtain ⟨hchunks, hfields⟩ := responses_deltas hmiddle (noteMessage start f)
  refine ⟨noteMessage start f, noteStop last (anthropicRelay.fieldsAfter (noteMessage start f)
    middle), hkept, ?_, ?_, ?_⟩
  · rw [hfields, ← hkept]
    rfl
  · rw [← hreason]
    rfl
  · rw [appends.chunksSent_collect hjson hback f hflowing hframed.stopIsLast,
      hframed.responses_eq, EventRelay.responses, respond_start hframed.isStart,
      EventRelay.responses_append, hchunks, EventRelay.responses, respond_last hframed.isLast,
      EventRelay.responses, respond_stop hframed.isStop]
    rfl

end

section

variable (opening closing : RelayFields) (deltas : List BlockText)

theorem choicesOf_streamChunks :
    (streamChunks opening closing deltas).flatMap choicesOf =
      chunkChoice opening.contentIdx (chunkDelta assistantRole false) none ::
        (deltas.map deltaChoice ++
          [chunkChoice closing.contentIdx (chunkDelta [] false) closing.finishReason,
            chunkChoice closing.contentIdx (.obj []) closing.finishReason]) := by
  have hdeltas : (deltas.map (deltaChunk opening)).flatMap choicesOf = deltas.map deltaChoice := by
    rw [flatMap_map, map_eq_flatMap]
    rfl
  rw [streamChunks, flatMap_cons, flatMap_append, hdeltas]
  rfl

theorem contentText_streamChunks :
    contentText (streamChunks opening closing deltas) =
      deltas.flatMap fun delta =>
        if delta.text = assistantRole ∨ delta.thinking = true then [] else delta.text := by
  have hclosing : contentOf (chunkChoice closing.contentIdx (.obj []) closing.finishReason) = [] :=
    rfl
  rw [contentText, choicesOf_streamChunks, flatMap_cons, flatMap_append, flatMap_map]
  simp [hclosing, deltaChoice]

theorem reasoningText_streamChunks :
    reasoningText (streamChunks opening closing deltas) =
      deltas.flatMap fun delta =>
        if delta.text = assistantRole ∨ delta.thinking = false then [] else delta.text := by
  have hclosing :
      reasoningContentOf (chunkChoice closing.contentIdx (.obj []) closing.finishReason) = [] :=
    rfl
  rw [reasoningText, choicesOf_streamChunks, flatMap_cons, flatMap_append, flatMap_map]
  simp [hclosing, deltaChoice]

theorem contentText_eq_iff :
    contentText (streamChunks opening closing deltas) = plainText deltas ↔
      ∀ delta ∈ deltas, delta.thinking = true ∨ delta.text ≠ assistantRole := by
  rw [contentText_streamChunks]
  exact flatMap_text_eq_iff deltas BlockText.text (fun delta => delta.thinking = true)

theorem reasoningText_eq_iff :
    reasoningText (streamChunks opening closing deltas) = thinkingText deltas ↔
      ∀ delta ∈ deltas, delta.thinking = false ∨ delta.text ≠ assistantRole := by
  have hthinking : thinkingText deltas =
      deltas.flatMap fun delta => if delta.thinking = false then [] else delta.text := by
    unfold thinkingText
    congr 1
    funext delta
    cases delta.thinking with
    | true => rfl
    | false => rfl
  rw [reasoningText_streamChunks, hthinking]
  exact flatMap_text_eq_iff deltas BlockText.text (fun delta => delta.thinking = false)

theorem roleFirst_streamChunks_iff :
    RoleFirst (streamChunks opening closing deltas) ↔
      ∀ delta ∈ deltas, delta.text ≠ assistantRole := by
  have hlast : ([] : Text) ≠ assistantRole := by decide
  rw [streamChunks, roleFirst_cons_iff, forall_mem_append, List.forall_mem_map]
  simp [deltaChunk, hlast]

theorem lastFinishReason_streamChunks :
    lastFinishReason (streamChunks opening closing deltas) = closing.finishReason := by
  rw [lastFinishReason, choicesOf_streamChunks]
  cases hreason : closing.finishReason with
  | none => simp [deltaChoice]
  | some => simp [deltaChoice]

theorem lastIndex_eq_zero (hzero : ∀ delta ∈ deltas, delta.index = 0) : lastIndex 0 deltas = 0 := by
  unfold lastIndex
  rcases eq_nil_or_concat' deltas with rfl | ⟨front, delta, rfl⟩
  · rfl
  · rw [foldl_append, foldl_cons, hzero delta (by simp)]
    rfl

theorem indices_streamChunks_iff (hopening : opening.contentIdx = 0)
    (hclosing : closing.contentIdx = lastIndex 0 deltas)
    (hsmall : ∀ delta ∈ deltas, delta.index < 2 ^ 64) :
    (∀ chunk ∈ streamChunks opening closing deltas, (choicesOf chunk).map indexOf = [some 0]) ↔
      ∀ delta ∈ deltas, delta.index = 0 := by
  have hdelta : ∀ delta ∈ deltas,
      (choicesOf (deltaChunk opening delta)).map indexOf = [some 0] ↔ delta.index = 0 := by
    intro delta hdelta
    have hindex : (UInt64.ofNat delta.index).toNat = delta.index :=
      UInt64.toNat_ofNat_of_lt' (hsmall delta hdelta)
    simp [deltaChunk, hindex]
  constructor
  · intro hall delta hmem
    refine (hdelta delta hmem).mp (hall _ ?_)
    exact mem_cons_of_mem _ (mem_append_left _ (List.mem_map_of_mem hmem))
  · intro hzero chunk hchunk
    rw [lastIndex_eq_zero deltas hzero] at hclosing
    simp only [streamChunks, mem_cons, mem_append, List.mem_map, not_mem_nil, or_false] at hchunk
    rcases hchunk with rfl | ⟨delta, hmem, rfl⟩ | rfl | rfl
    · simp [hopening]
    · exact (hdelta delta hmem).mpr (hzero delta hmem)
    · simp [hclosing]
    · simp [hclosing]

end

def KeepsText (chunks : List Value) (deltas : List BlockText)
    (answer : ChatCompletionResponse) : Prop :=
  contentText chunks = plainText deltas ∧ reasoningText chunks = thinkingText deltas ∧
    SameText chunks answer

def SingleChoice (chunks : List Value) (answer : ChatCompletionResponse) : Prop :=
  (∀ chunk ∈ chunks, (choicesOf chunk).map indexOf = [some 0]) ∧ RoleFirst chunks ∧
    ∃ choice, answer.choices = [choice] ∧ choice.index = 0 ∧
      lastFinishReason chunks = choice.finishReason

def knownStops : List Text :=
  ["end_turn".toList, "max_tokens".toList, "stop_sequence".toList, "tool_use".toList]

theorem finishReason_eq_iff (reason : Option Text) :
    reason.map finishReasonFor = anthropicFinishReason reason ↔
      ∀ r, reason = some r → r ∈ knownStops := by
  cases reason with
  | none => simp [anthropicFinishReason]
  | some r =>
    unfold anthropicFinishReason finishReasonFor knownStops
    dsimp only [map_some]
    split_ifs with hturn htokens hsequence htool
    · simp [hturn]
    · simp [htokens]
    · simp [hsequence]
    · simp [htool]
    · simp_all

/-! ## Streams of our own -/

variable (input : ℕ)

def startEvent : Value :=
  .obj [("message", .obj [("id", .str "msg_001".toList), ("model", .str "claude".toList),
    ("usage", .obj [("input_tokens", numValue input)])]), ("type", .str "message_start".toList)]

def deltaEvent (delta : BlockText) : Value :=
  .obj [("delta", .obj
      (if delta.thinking then
        [("thinking", .str delta.text), ("type", .str "thinking_delta".toList)]
      else [("text", .str delta.text), ("type", .str "text_delta".toList)])),
    ("index", numValue delta.index), ("type", .str "content_block_delta".toList)]

def closeEvent (reason : Text) (output : ℕ) : Value :=
  .obj [("delta", .obj [("stop_reason", .str reason)]), ("type", .str "message_delta".toList),
    ("usage", .obj [("output_tokens", numValue output)])]

def stopEvent : Value := .obj [("type", .str "message_stop".toList)]

def messageEvents (middle : List Value) (reason : Text) (output : ℕ) : List Value :=
  startEvent input :: (middle ++ [closeEvent reason output]) ++ [stopEvent]

theorem asU64_numValue (hsmall : n < 2 ^ 64) : (numValue n).asU64 = some n := by
  have hrange : (0 : ℤ) ≤ n ∧ (n : ℤ) < 2 ^ 64 :=
    ⟨Int.natCast_nonneg _, by exact_mod_cast hsmall⟩
  rw [numValue, Value.asU64, if_pos hrange, Int.toNat_natCast]

theorem count_of_get {v : Value} {key : String} (hget : v.get key = some (numValue n))
    (hsmall : n < 2 ^ 64) : (v.get key).bind Value.asU64 = some n := by
  rw [hget, bind_some, asU64_numValue hsmall]

theorem framed_messageEvents (reason : Text) (output : ℕ) (hmiddle : BlockDeltas middle) :
    Framed (messageEvents input middle reason output) (startEvent input) middle
      (closeEvent reason output) stopEvent where
  split := by
    refine ⟨_, rfl, ?_⟩
    rw [filter_eq_self]
    intro event hevent
    rcases mem_cons.mp hevent with rfl | hevent
    · rfl
    · rcases mem_append.mp hevent with hmem | hmem
      · rw [isRelayed, hmiddle event hmem]
        rfl
      · rw [mem_singleton.mp hmem]
        rfl
  isStart := rfl
  isMiddle event hevent := .inl (hmiddle event hevent)
  isLast := rfl
  isStop := rfl

theorem encodesDelta_deltaEvent {delta : BlockText} (hsmall : delta.index < 2 ^ 64) :
    EncodesDelta (deltaEvent delta) delta where
  isDelta := rfl
  index := count_of_get rfl hsmall
  kind := by
    unfold deltaEvent
    cases delta.thinking with
    | true => rfl
    | false => rfl
  text := by
    unfold deltaEvent
    cases delta.thinking with
    | true => rfl
    | false => rfl

theorem blockDeltas_deltaEvent (deltas : List BlockText) : BlockDeltas (deltas.map deltaEvent) := by
  intro event hevent
  obtain ⟨delta, -, rfl⟩ := List.mem_map.mp hevent
  rfl

theorem encodesDelta_map (hsmall : ∀ delta ∈ deltas, delta.index < 2 ^ 64) :
    List.Forall₂ EncodesDelta (deltas.map deltaEvent) deltas := by
  induction deltas with
  | nil => exact .nil
  | cons delta deltas ih =>
    rw [forall_mem_cons] at hsmall
    exact .cons (encodesDelta_deltaEvent hsmall.1) (ih hsmall.2)

theorem isObject_messageEvents (output : ℕ) (reason : Text) (hmiddle : BlockDeltas middle) :
    ∀ event ∈ messageEvents input middle reason output, ∃ fields, event = .obj fields := by
  simp only [messageEvents, mem_append, mem_cons, not_mem_nil, or_false]
  rintro event ((rfl | hevent | rfl) | rfl)
  · exact ⟨_, rfl⟩
  · have htype := hmiddle event hevent
    cases event with
    | obj fields => exact ⟨fields, rfl⟩
    | _ => cases htype
  · exact ⟨_, rfl⟩
  · exact ⟨_, rfl⟩

def proseDeltas : List BlockText :=
  [⟨0, true, "hm".toList⟩, ⟨1, false, "Hello".toList⟩]

def proseEvents : List Value := proseDeltas.map deltaEvent

def roleDeltas : List BlockText := [⟨0, false, "assistant".toList⟩]

def wholeMessage (deltas : List BlockText) (reason : Text) (input output : ℕ) :
    AnthropicResponse where
  id := "msg_001".toList
  model := "claude".toList
  content := assembled deltas
  stopReason := some reason
  usage := .obj [("input_tokens", numValue input), ("output_tokens", numValue output)]

section

attribute [local instance] jsonText

def messagePolls (input : ℕ) (middle : List Value) (reason : Text) (output : ℕ) : List Poll :=
  [.item ((messageEvents input middle reason output).flatMap emitted).flatten]

variable (input output : ℕ) (reason : Text)

theorem flowing_messagePolls (middle : List Value) :
    Flowing (messagePolls input middle reason output) :=
  flowing_item _

variable (hmiddle : BlockDeltas middle)
  (hplain : ∀ event ∈ messageEvents input middle reason output, event.Plain Json.depthLimit)

include hmiddle hplain

theorem eventsOf_messagePolls :
    anthropicRelay.eventsOf (upcoming (messagePolls input middle reason output)) =
      messageEvents input middle reason output := by
  rw [messagePolls, upcoming, flatMap_singleton]
  apply eventsOf_emitted jsonText_lawful jsonText_readsBack
  intro event hevent
  exact ⟨isObject_messageEvents input output reason hmiddle event hevent, hplain event hevent⟩

theorem streams_messagePolls :
    Streams (anthropicRelay.eventsOf (upcoming (messagePolls input middle reason output))) middle
      (some reason) := by
  rw [eventsOf_messagePolls input output reason hmiddle hplain]
  exact ⟨_, _, _, framed_messageEvents input reason output hmiddle, hmiddle, rfl⟩

end

section

variable [SerdeJson]

/-- The text of a stream arrives complete and under its name exactly if no delta reads
`assistant` and the blocks do not interrupt each other. -/
theorem relay_keepsText_iff (hjson : SerdeJson.Lawful) (hback : SerdeJson.ReadsBack)
    (messageId model answerModel : Text) (created answered : UInt64) {polls : List Poll}
    (hflowing : Flowing polls) {deltas : List BlockText} {reason : Option Text}
    (hcarries : Carries (anthropicRelay.eventsOf (upcoming polls)) deltas reason)
    (message : AnthropicResponse) (hmessage : message.content = assembled deltas) :
    KeepsText (chunksSent (anthropicRelay.collect (.new messageId model created) polls)) deltas
        (anthropicToOpenai message answerModel answered) ↔
      (∀ delta ∈ deltas, delta.text ≠ assistantRole) ∧ InBlockOrder deltas := by
  obtain ⟨middle, hstreams, hdeltas⟩ := hcarries.exists_streams
  obtain ⟨opening, closing, -, -, -, hchunks⟩ :=
    chunksSent_streams hjson hback (.new messageId model created) hflowing hstreams
  rw [hdeltas] at hchunks
  obtain ⟨hplain, hthinking⟩ := texts_joinBlocks (byBlock deltas)
  have hsame : SameText (streamChunks opening closing deltas)
        (anthropicToOpenai message answerModel answered) ↔
      plainText (byBlock deltas) = contentText (streamChunks opening closing deltas) ∧
        thinkingText (byBlock deltas) = reasoningText (streamChunks opening closing deltas) := by
    rw [sameText_iff rfl, hmessage, assembled, flatten_textPart, flatten_reasoningPart, hplain,
      hthinking]
  rw [hchunks, KeepsText, hsame, InBlockOrder]
  constructor
  · rintro ⟨htext, hthought, hordered⟩
    rw [htext, hthought] at hordered
    rw [contentText_eq_iff] at htext
    rw [reasoningText_eq_iff] at hthought
    refine ⟨?_, hordered⟩
    intro delta hdelta
    rcases htext delta hdelta with hkind | hother
    · rcases hthought delta hdelta with hnot | hother
      · rw [hkind] at hnot
        cases hnot
      · exact hother
    · exact hother
  · rintro ⟨hnone, hordered⟩
    have htext := (contentText_eq_iff opening closing _).mpr
      fun delta hdelta => .inr (hnone delta hdelta)
    have hthought := (reasoningText_eq_iff opening closing _).mpr
      fun delta hdelta => .inr (hnone delta hdelta)
    rw [htext, hthought]
    exact ⟨rfl, rfl, hordered⟩

end

section

attribute [local instance] jsonText

theorem carries_messagePolls (input output : ℕ) (reason : Text) (deltas : List BlockText)
    (hsmall : ∀ delta ∈ deltas, delta.index < 2 ^ 64)
    (hplain : ∀ event ∈ messageEvents input (deltas.map deltaEvent) reason output,
      event.Plain Json.depthLimit) :
    Carries (anthropicRelay.eventsOf
        (upcoming (messagePolls input (deltas.map deltaEvent) reason output))) deltas
      (some reason) :=
  ⟨_, streams_messagePolls input output reason (blockDeltas_deltaEvent deltas) hplain,
    encodesDelta_map hsmall⟩

theorem prose_stream_keepsText :
    KeepsText (chunksSent (anthropicRelay.collect (.new [] "claude".toList 0)
        (messagePolls 7 proseEvents "end_turn".toList 3))) proseDeltas
      (anthropicToOpenai (wholeMessage proseDeltas "end_turn".toList 7 3) "claude".toList 0) :=
  (relay_keepsText_iff jsonText_lawful jsonText_readsBack _ _ _ _ _ (flowing_messagePolls _ _ _ _)
    (carries_messagePolls 7 3 _ _ (by decide) (by decide +kernel)) _ rfl).mpr
    ⟨by decide, inBlockOrder_of_pairwise (by decide)⟩

/-- A delta that reads `assistant` does not arrive as content. -/
theorem assistant_delta_lost :
    Carries (anthropicRelay.eventsOf
        (upcoming (messagePolls 7 (roleDeltas.map deltaEvent) "end_turn".toList 3))) roleDeltas
        (some "end_turn".toList) ∧
      plainText roleDeltas = "assistant".toList ∧
      contentText (chunksSent (anthropicRelay.collect (.new [] "claude".toList 0)
        (messagePolls 7 (roleDeltas.map deltaEvent) "end_turn".toList 3))) = [] := by
  have hcarries := carries_messagePolls 7 3 "end_turn".toList roleDeltas
    (by decide) (by decide +kernel)
  obtain ⟨opening, closing, -, -, -, hchunks⟩ := chunksSent_streams jsonText_lawful
    jsonText_readsBack (.new [] "claude".toList 0) (flowing_messagePolls _ _ _ _)
    (streams_messagePolls 7 3 "end_turn".toList (blockDeltas_deltaEvent roleDeltas)
      (by decide +kernel))
  refine ⟨hcarries, rfl, ?_⟩
  rw [hchunks, contentText_streamChunks]
  decide

end

section

variable [SerdeJson]

/-- A stream is read as one choice, the one of the whole answer, exactly if its
deltas are all of block 0, none reads `assistant`, and the stop reason is known. -/
theorem relay_singleChoice_iff (hjson : SerdeJson.Lawful) (hback : SerdeJson.ReadsBack)
    (messageId model answerModel : Text) (created answered : UInt64) {polls : List Poll}
    (hflowing : Flowing polls) {middle : List Value} {reason : Option Text}
    (hstreams : Streams (anthropicRelay.eventsOf (upcoming polls)) middle reason)
    (message : AnthropicResponse) (hmessage : message.stopReason = reason) :
    SingleChoice (chunksSent (anthropicRelay.collect (.new messageId model created) polls))
        (anthropicToOpenai message answerModel answered) ↔
      (∀ event ∈ middle, blockIndex event = 0) ∧
        (∀ event ∈ middle, deltaText event ≠ assistantRole) ∧
        ∀ r, reason = some r → r ∈ knownStops := by
  obtain ⟨opening, closing, hopening, hclosing, hreason, hchunks⟩ :=
    chunksSent_streams hjson hback (.new messageId model created) hflowing hstreams
  have hsmall : ∀ delta ∈ middle.map readDelta, delta.index < 2 ^ 64 := by
    rw [List.forall_mem_map]
    exact fun event _ => blockIndex_lt event
  have hfinish : (∃ choice, (anthropicToOpenai message answerModel answered).choices = [choice] ∧
      choice.index = 0 ∧
      lastFinishReason (streamChunks opening closing (middle.map readDelta)) =
        choice.finishReason) ↔
      ∀ r, reason = some r → r ∈ knownStops := by
    rw [lastFinishReason_streamChunks, hreason, ← finishReason_eq_iff, ← hmessage]
    constructor
    · rintro ⟨choice, hchoice, -, hsame⟩
      rw [anthropicToOpenai, List.cons.injEq] at hchoice
      rw [hsame, ← hchoice.1]
      rfl
    · intro hsame
      exact ⟨_, rfl, rfl, hsame⟩
  rw [hchunks, SingleChoice, indices_streamChunks_iff opening closing _ hopening hclosing hsmall,
    roleFirst_streamChunks_iff, hfinish, List.forall_mem_map, List.forall_mem_map]
  rfl

end

/-- A thinking block ends with a delta that carries its signature. -/
def signedEvents : List Value :=
  [deltaEvent ⟨0, true, "hm".toList⟩,
    .obj [("delta",
        .obj [("signature", .str "ab".toList), ("type", .str "signature_delta".toList)]),
      ("index", numValue 0), ("type", .str "content_block_delta".toList)]]

section

attribute [local instance] jsonText

theorem one_block_stream_singleChoice :
    SingleChoice (chunksSent (anthropicRelay.collect (.new [] "claude".toList 0)
        (messagePolls 7 signedEvents "max_tokens".toList 3)))
      (anthropicToOpenai (wholeMessage [⟨0, true, "hm".toList⟩] "max_tokens".toList 7 3)
        "claude".toList 0) :=
  (relay_singleChoice_iff jsonText_lawful jsonText_readsBack _ _ _ _ _
    (flowing_messagePolls _ _ _ _)
    (streams_messagePolls 7 3 _ (by unfold BlockDeltas; decide) (by decide +kernel)) _
    rfl).mpr ⟨by decide, by decide, by simp [knownStops]⟩

/-- The text of the second block of a message is sent for choice 1. -/
theorem second_block_sent_as_second_choice :
    Streams (anthropicRelay.eventsOf (upcoming (messagePolls 7 proseEvents "end_turn".toList 3)))
        proseEvents (some "end_turn".toList) ∧
      ((chunksSent (anthropicRelay.collect (.new [] "claude".toList 0)
        (messagePolls 7 proseEvents "end_turn".toList 3))).flatMap choicesOf).map indexOf =
        [some 0, some 0, some 1, some 1, some 1] := by
  have hstreams := streams_messagePolls 7 3 "end_turn".toList
    (blockDeltas_deltaEvent proseDeltas) (by decide +kernel)
  obtain ⟨opening, closing, hopening, hclosing, -, hchunks⟩ := chunksSent_streams jsonText_lawful
    jsonText_readsBack (.new [] "claude".toList 0) (flowing_messagePolls _ _ _ _) hstreams
  refine ⟨hstreams, ?_⟩
  rw [proseEvents, hchunks, choicesOf_streamChunks, hopening, hclosing]
  rfl

end

section

variable [SerdeJson]

/-! ## Usage -/

def ReportsUsage (outs : List Utf8Bytes.Bytes) (answer : ChatCompletionResponse) (usage : Usage) :
    Prop :=
  usagesOf (chunksSent outs) = [usageValue usage] ∧
    (∀ (items : List (ℕ × Utf8Bytes.Bytes)) (startAt endAt : ℕ), items.map Prod.snd = outs →
      (StreamInspector.inspect startAt items endAt).finalize.usage = some usage) ∧
    answer.usage = some usage

theorem respond_usage (hnot : isStop event = false) (f : RelayFields) :
    ∀ payload ∈ (anthropicRelay.respond f event).pending, payload.get "usage" = none := by
  have hsingle : ∀ (g : RelayFields) (text : Text) (reason : Option Text) (reasoning : Bool),
      ∀ payload ∈ [chunkPayload g text reason reasoning], payload.get "usage" = none := by
    intro g text reason reasoning payload hpayload
    rw [mem_singleton.mp hpayload]
    exact usage_chunkPayload _ _ _ _
  cases hrelayed : isRelayed event with
  | false =>
    rw [respond_other hrelayed]
    intro payload hpayload
    cases hpayload
  | true =>
    simp only [isRelayed, relayedTypes, mem_cons, not_mem_nil, or_false,
      decide_eq_true_eq] at hrelayed
    rcases hrelayed with htype | htype | htype | htype
    · rw [respond_start htype]
      exact hsingle _ _ _ _
    · rw [respond_delta htype]
      exact hsingle _ _ _ _
    · rw [respond_last htype]
      exact hsingle _ _ _ _
    · rw [isStop, decide_eq_false_iff_not] at hnot
      exact absurd htype hnot

theorem responses_usage (hnot : ∀ event ∈ events, isStop event = false) (f : RelayFields) :
    ∀ payload ∈ anthropicRelay.responses f events, payload.get "usage" = none := by
  induction events generalizing f with
  | nil =>
    intro payload hpayload
    cases hpayload
  | cons event events ih =>
    rw [EventRelay.responses, forall_mem_append]
    exact ⟨respond_usage (hnot event mem_cons_self) f,
      ih (fun other hother => hnot other (mem_cons_of_mem _ hother)) _⟩

theorem responses_reports {input output : ℕ} (hreports : Reports events input output)
    (f : RelayFields) :
    ∃ front closing, anthropicRelay.responses f events =
        front ++ [closingPayload closing ⟨0, UInt32.ofNat output, UInt32.ofNat output⟩] ∧
      ∀ payload ∈ front, payload.get "usage" = none := by
  obtain ⟨start, middle, last, stop, hframed, -, houtput⟩ := hreports
  have hsplit : start :: (middle ++ [last, stop]) = (start :: middle) ++ [last] ++ [stop] := by
    simp
  have hlast : (anthropicRelay.fieldsAfter f ((start :: middle) ++ [last])).streamedTokens =
      UInt32.ofNat output := by
    rw [EventRelay.fieldsAfter, foldl_append, foldl_cons, respond_last hframed.isLast]
    simp [noteStop, houtput]
  refine ⟨anthropicRelay.responses f ((start :: middle) ++ [last]),
    anthropicRelay.fieldsAfter f ((start :: middle) ++ [last]), ?_, ?_⟩
  · rw [hframed.responses_eq, hsplit, EventRelay.responses_append, EventRelay.responses,
      respond_stop hframed.isStop, hlast]
    rfl
  · apply responses_usage
    intro event hevent
    exact hframed.isStop_eq_false hevent

/-- The usage of a stream is that of the whole answer exactly if the prompt had
no tokens. -/
theorem relay_reportsUsage_iff (hjson : SerdeJson.Lawful) (hback : SerdeJson.ReadsBack)
    (messageId model answerModel : Text) (created answered : UInt64) {polls : List Poll}
    (hflowing : Flowing polls) {input output : ℕ} (hfits : input + output < 2 ^ 32)
    (hreports : Reports (anthropicRelay.eventsOf (upcoming polls)) input output)
    (message : AnthropicResponse)
    (hinput : (message.usage.get "input_tokens").bind Value.asU64 = some input)
    (houtput : (message.usage.get "output_tokens").bind Value.asU64 = some output) :
    ReportsUsage (anthropicRelay.collect (.new messageId model created) polls)
        (anthropicToOpenai message answerModel answered)
        ⟨UInt32.ofNat input, UInt32.ofNat output, UInt32.ofNat (input + output)⟩ ↔
      input = 0 := by
  obtain ⟨front, closing, hresponses, hfront⟩ :=
    responses_reports hreports (.new messageId model created)
  obtain ⟨start, middle, last, stop, hframed, -, -⟩ := hreports
  have hchunks := appends.chunksSent_collect hjson hback (.new messageId model created) hflowing
    hframed.stopIsLast
  have houts := appends.collect_eq (.new messageId model created) hflowing hframed.stopIsLast
  have hsend := appends.sendable_responses (.new messageId model created) hframed.stopIsLast
  have husages : usagesOf (anthropicRelay.responses (.new messageId model created)
      (anthropicRelay.eventsOf (upcoming polls))) =
      [usageValue ⟨0, UInt32.ofNat output, UInt32.ofNat output⟩] := by
    rw [hresponses, usagesOf, filterMap_append, filterMap_eq_nil_iff.mpr hfront]
    rfl
  have hanswer : (anthropicToOpenai message answerModel answered).usage =
      some ⟨UInt32.ofNat input, UInt32.ofNat output, UInt32.ofNat (input + output)⟩ := by
    rw [anthropicToOpenai, countAt_of_get hinput, countAt_of_get houtput, UInt32.ofNat_add]
  rw [hframed.any_isStop, EventRelay.terminators, if_pos rfl, append_nil] at houts
  constructor
  · rintro ⟨hsent, -⟩
    rw [hchunks, husages, List.cons.injEq] at hsent
    have hprompt := congrArg Usage.promptTokens (usageValue_injective _ hsent.1)
    have htoNat := congrArg UInt32.toNat hprompt
    rw [UInt32.toNat_ofNat_of_lt' (by omega : input < 2 ^ 32)] at htoNat
    exact htoNat.symm
  · rintro rfl
    refine ⟨?_, ?_, hanswer⟩
    · rw [hchunks, husages, Nat.zero_add]
      rfl
    · intro items startAt endAt hitems
      rw [houts] at hitems
      rw [inspect_emitted_usage hjson hback hsend hitems, hresponses, foldl_append, Nat.zero_add,
        foldl_cons, StreamRecord.usageAfter, usage_closingPayload, bind_some, fromValue_usageValue]
      rfl

end

section

attribute [local instance] jsonText

theorem reports_messagePolls (input output : ℕ) (reason : Text) (hmiddle : BlockDeltas middle)
    (hinput : input < 2 ^ 64) (houtput : output < 2 ^ 64)
    (hplain : ∀ event ∈ messageEvents input middle reason output, event.Plain Json.depthLimit) :
    Reports (anthropicRelay.eventsOf (upcoming (messagePolls input middle reason output))) input
      output := by
  rw [eventsOf_messagePolls input output reason hmiddle hplain]
  refine ⟨_, _, _, _, framed_messageEvents input reason output hmiddle, ?_, ?_⟩
  · exact count_of_get (v := .obj [("input_tokens", numValue input)]) rfl hinput
  · exact count_of_get (v := .obj [("output_tokens", numValue output)]) rfl houtput

theorem promptless_stream_reportsUsage :
    ReportsUsage (anthropicRelay.collect (.new [] "claude".toList 0)
        (messagePolls 0 proseEvents "end_turn".toList 3))
      (anthropicToOpenai (wholeMessage proseDeltas "end_turn".toList 0 3) "claude".toList 0)
      ⟨0, 3, 3⟩ :=
  (relay_reportsUsage_iff jsonText_lawful jsonText_readsBack _ _ _ _ _
    (flowing_messagePolls _ _ _ _) (by decide : 0 + 3 < 2 ^ 32)
    (reports_messagePolls 0 3 _ (blockDeltas_deltaEvent _) (by decide) (by decide)
      (by decide +kernel)) _
    (count_of_get rfl (by decide)) (count_of_get rfl (by decide))).mpr rfl

/-- Seven prompt tokens are reported as none. -/
theorem prompt_tokens_dropped :
    Reports (anthropicRelay.eventsOf
        (upcoming (messagePolls 7 proseEvents "end_turn".toList 3))) 7 3 ∧
      usagesOf (chunksSent (anthropicRelay.collect (.new [] "claude".toList 0)
        (messagePolls 7 proseEvents "end_turn".toList 3))) = [usageValue ⟨0, 3, 3⟩] ∧
      (anthropicToOpenai (wholeMessage proseDeltas "end_turn".toList 7 3) "claude".toList 0).usage =
        some ⟨7, 3, 10⟩ := by
  have hreports := reports_messagePolls 7 3 "end_turn".toList (blockDeltas_deltaEvent proseDeltas)
    (by decide) (by decide) (by decide +kernel)
  obtain ⟨front, closing, hresponses, hfront⟩ :=
    responses_reports hreports (.new [] "claude".toList 0)
  obtain ⟨start, middle, last, stop, hframed, -, -⟩ := id hreports
  refine ⟨hreports, ?_, by decide +kernel⟩
  rw [proseEvents, appends.chunksSent_collect jsonText_lawful jsonText_readsBack _
    (flowing_messagePolls _ _ _ _) hframed.stopIsLast, hresponses, usagesOf, filterMap_append,
    filterMap_eq_nil_iff.mpr hfront]
  rfl

end

end AnthropicStream

end LlmProxy
