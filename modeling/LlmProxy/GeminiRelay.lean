import LlmProxy.ChatResponse
import LlmProxy.ChunkPayload

/-!
# The Gemini relay

`RelayState::process_line` of `gemini_stream.rs`: each line of the upstream is one JSON object with
candidates.  The role is sent whenever the queue is empty, so here the cut of the upstream does show
in the output.
-/

namespace LlmProxy

open Json (Text Value)
open LineCut List LineRelay
open Utf8Bytes

structure GeminiFields extends RelayFields where
  promptTokens : UInt32
  deriving DecidableEq, Repr

def GeminiFields.new (messageId model : Text) (created : UInt64) : GeminiFields where
  toRelayFields := .new messageId model created
  promptTokens := 0

namespace GeminiRelay

/-! ## Reading an event -/

def candidatesOf (event : Value) : List Value :=
  ((event.get "candidates").bind Value.asArray).getD []

variable (candidate : Value)

def partsOf : Option (List Value) :=
  ((candidate.get "content").bind (Value.get "parts")).bind Value.asArray

def partText (part : Value) : Text := ((part.get "text").bind Value.asStr).getD []

def isThought (part : Value) : Bool := ((part.get "thought").bind Value.asBool).getD false

def joinedText (parts : List Value) : Text := parts.flatMap partText

def anyThought (parts : List Value) : Bool := parts.any isThought

def reasonOf : Option Text :=
  (candidate.get "finishReason").bind Value.asStr

def finishReasonFor : Option Text :=
  ((reasonOf candidate).filter fun reason => reason ≠ "null".toList).map geminiFinishReason

def countOf (key : String) (event : Value) : Option ℕ :=
  ((event.get "usageMetadata").bind (Value.get key)).bind Value.asU64

/-! ## The fields -/

def noteUsage (event : Value) (f : GeminiFields) : GeminiFields :=
  { f with
    promptTokens := ((countOf "promptTokenCount" event).map UInt32.ofNat).getD f.promptTokens
    streamedTokens :=
      ((countOf "candidatesTokenCount" event).map UInt32.ofNat).getD f.streamedTokens }

def noteReason (f : GeminiFields) : GeminiFields :=
  if (finishReasonFor candidate).isSome ∧ finishReasonFor candidate ≠ f.finishReason then
    { f with finishReason := finishReasonFor candidate }
  else f

def usageSent (f : GeminiFields) : Usage where
  promptTokens := f.promptTokens
  completionTokens := f.streamedTokens
  totalTokens := f.promptTokens + f.streamedTokens

section

variable {Item : Type} (emit : Value → List Item)

def emitChunk (text : Text) (finishReason : Option Text) (reasoning : Bool)
    (s : LineRelay GeminiFields Item) : LineRelay GeminiFields Item :=
  s.push emit (chunkPayload s.fields.toRelayFields text finishReason reasoning)

variable (s : LineRelay GeminiFields Item)

def openQueue : LineRelay GeminiFields Item :=
  if s.pending.isEmpty then emitChunk emit assistantRole none false s else s

def sendText (parts : List Value) (s : LineRelay GeminiFields Item) : LineRelay GeminiFields Item :=
  if ¬ (joinedText parts).isEmpty then
    emitChunk emit (joinedText parts) s.fields.finishReason (anyThought parts) s
  else if s.fields.finishReason.isSome then emitChunk emit [] s.fields.finishReason false s
  else s

def closeStream : LineRelay GeminiFields Item :=
  if s.fields.finishReason.isSome then
    { s.push emit (closingPayload s.fields.toRelayFields (usageSent s.fields)) with done := true }
  else s

/-- A candidate with parts is sent as one chunk with all of its text, and closed with a usage chunk
once a finish reason is known. -/
def onCandidate (candidate : Value) : LineRelay GeminiFields Item :=
  match partsOf candidate with
  | none => s
  | some parts =>
    closeStream emit (sendText emit parts
      (openQueue emit { s with fields := noteReason candidate s.fields }))

/-- `process_line` on the parsed event. -/
def onEvent (event : Value) : LineRelay GeminiFields Item :=
  (candidatesOf event).foldl (onCandidate emit) { s with fields := noteUsage event s.fields }

end

def readEvent [SerdeJson] (line : Text) : Option Value := SerdeJson.fromStr line

/-! ## What a candidate brings -/

def fieldsAt (candidate : Value) (f : GeminiFields) : GeminiFields :=
  if (partsOf candidate).isSome then noteReason candidate f else f

def roleChunks (first : Bool) (f : GeminiFields) : List Value :=
  if first then [chunkPayload f.toRelayFields assistantRole none false] else []

def textChunks (parts : List Value) (f : GeminiFields) : List Value :=
  if ¬ (joinedText parts).isEmpty then
    [chunkPayload f.toRelayFields (joinedText parts) f.finishReason (anyThought parts)]
  else if f.finishReason.isSome then [chunkPayload f.toRelayFields [] f.finishReason false]
  else []

def closingChunks (f : GeminiFields) : List Value :=
  if f.finishReason.isSome then [closingPayload f.toRelayFields (usageSent f)] else []

def candidateChunks (first : Bool) (parts : List Value) (f : GeminiFields) : List Value :=
  roleChunks first f ++ textChunks parts f ++ closingChunks f

def chunksFor (first : Bool) (f : GeminiFields) : List Value → List Value
  | [] => []
  | candidate :: candidates =>
    match partsOf candidate with
    | none => chunksFor first f candidates
    | some parts =>
      candidateChunks first parts (noteReason candidate f) ++
        chunksFor false (noteReason candidate f) candidates

def hasParts (event : Value) : Bool := (candidatesOf event).any fun c => (partsOf c).isSome

def endsStream (event : Value) : Bool :=
  (candidatesOf event).any fun c => (partsOf c).isSome && (finishReasonFor c).isSome

def Settled (s : LineRelay GeminiFields Value) : Prop := s.done = s.fields.finishReason.isSome

theorem noteReason_finishReason (candidate : Value) (f : GeminiFields) :
    (noteReason candidate f).finishReason = (finishReasonFor candidate).or f.finishReason := by
  unfold noteReason
  cases hreason : finishReasonFor candidate with
  | none => simp
  | some =>
    split_ifs with hnew
    · rfl
    · simp only [Option.isSome_some, true_and, not_not] at hnew
      rw [← hnew]
      rfl

section

variable {Item : Type} {emit : Value → List Item} (s : LineRelay GeminiFields Value)

theorem openQueue_map (hemit : ∀ payload, emit payload ≠ []) :
    openQueue emit (s.mapQueue emit) = (openQueue List.singleton s).mapQueue emit := by
  have hempty : (s.mapQueue emit).pending.isEmpty = s.pending.isEmpty := by
    rw [mapQueue_pending]
    cases s.pending with
    | nil => rfl
    | cons => simp [hemit]
  unfold openQueue
  rw [hempty]
  split_ifs
  · exact push_mapQueue emit _ s
  · rfl

theorem sendText_map (parts : List Value) :
    sendText emit parts (s.mapQueue emit) = (sendText List.singleton parts s).mapQueue emit := by
  unfold sendText
  rw [mapQueue_fields]
  split_ifs
  · exact push_mapQueue emit _ s
  · rfl
  · exact push_mapQueue emit _ s

theorem closeStream_map :
    closeStream emit (s.mapQueue emit) = (closeStream List.singleton s).mapQueue emit := by
  unfold closeStream
  rw [mapQueue_fields]
  split_ifs
  · rw [push_mapQueue]
    rfl
  · rfl

theorem onCandidate_map (hemit : ∀ payload, emit payload ≠ []) (candidate : Value) :
    onCandidate emit (s.mapQueue emit) candidate =
      (onCandidate List.singleton s candidate).mapQueue emit := by
  unfold onCandidate
  split
  · rfl
  · rw [← closeStream_map, ← sendText_map, ← openQueue_map _ hemit]
    rfl

theorem onEvent_map (hemit : ∀ payload, emit payload ≠ []) (event : Value) :
    onEvent emit (s.mapQueue emit) event = (onEvent List.singleton s event).mapQueue emit := by
  rw [onEvent, onEvent,
    ← foldl_hom (mapQueue emit) fun s candidate => onCandidate_map s hemit candidate]
  rfl

theorem openQueue_eq :
    openQueue List.singleton s =
      { s with pending := s.pending ++ roleChunks s.pending.isEmpty s.fields } := by
  unfold openQueue roleChunks
  split_ifs
  · rfl
  · rw [append_nil]

theorem sendText_eq (parts : List Value) :
    sendText List.singleton parts s =
      { s with pending := s.pending ++ textChunks parts s.fields } := by
  unfold sendText textChunks
  split_ifs
  · rfl
  · rw [append_nil]
  · rfl

theorem closeStream_eq :
    closeStream List.singleton s =
      ⟨s.fields, s.pending ++ closingChunks s.fields,
        s.done || s.fields.finishReason.isSome⟩ := by
  unfold closeStream closingChunks
  split_ifs with hreason
  · rw [hreason, Bool.or_true]
    rfl
  · rw [Bool.eq_false_iff.mpr hreason, Bool.or_false, append_nil]

theorem onCandidate_eq {candidate : Value} {parts : List Value}
    (hparts : partsOf candidate = some parts) :
    onCandidate List.singleton s candidate =
      ⟨noteReason candidate s.fields,
        s.pending ++ candidateChunks s.pending.isEmpty parts (noteReason candidate s.fields),
        s.done || (noteReason candidate s.fields).finishReason.isSome⟩ := by
  unfold onCandidate
  rw [hparts]
  dsimp only
  rw [openQueue_eq, sendText_eq, closeStream_eq, candidateChunks, append_assoc, append_assoc]

theorem onCandidate_none {candidate : Value} (hparts : partsOf candidate = none) :
    onCandidate List.singleton s candidate = s := by
  unfold onCandidate
  rw [hparts]

end

theorem foldl_onCandidate (candidates : List Value) (s : LineRelay GeminiFields Value) :
    (candidates.foldl (onCandidate List.singleton) s).fields =
        candidates.foldl (fun f candidate => fieldsAt candidate f) s.fields ∧
      (candidates.foldl (onCandidate List.singleton) s).pending =
        s.pending ++ chunksFor s.pending.isEmpty s.fields candidates := by
  induction candidates generalizing s with
  | nil => simp [chunksFor]
  | cons candidate candidates ih =>
    cases hparts : partsOf candidate with
    | none =>
      rw [foldl_cons, foldl_cons, onCandidate_none s hparts, fieldsAt, chunksFor, hparts]
      exact ih s
    | some parts =>
      obtain ⟨hfields, hpending⟩ := ih (onCandidate List.singleton s candidate)
      -- A candidate with parts leaves something in the queue, so no later one opens it.
      have hqueued : (s.pending ++ candidateChunks s.pending.isEmpty parts
          (noteReason candidate s.fields)).isEmpty = false := by
        cases hqueue : s.pending with
        | nil =>
          rw [isEmpty_eq_false_iff]
          simp [candidateChunks, roleChunks]
        | cons => rfl
      rw [onCandidate_eq s hparts] at hfields hpending
      rw [foldl_cons, foldl_cons, onCandidate_eq s hparts, fieldsAt, chunksFor, hparts]
      refine ⟨hfields, ?_⟩
      rw [hpending, hqueued, append_assoc]

theorem settled_onCandidate {s : LineRelay GeminiFields Value} (hsettled : Settled s)
    (candidate : Value) : Settled (onCandidate List.singleton s candidate) := by
  cases hparts : partsOf candidate with
  | none =>
    rw [onCandidate_none s hparts]
    exact hsettled
  | some =>
    rw [onCandidate_eq s hparts]
    unfold Settled at hsettled ⊢
    rw [hsettled, noteReason_finishReason]
    cases s.fields.finishReason with
    | none => simp
    | some => simp

def fieldsAfter (f : GeminiFields) (event : Value) : GeminiFields :=
  (candidatesOf event).foldl (fun f candidate => fieldsAt candidate f) (noteUsage event f)

section

variable (s : LineRelay GeminiFields Value) (event : Value)

theorem onEvent_fields : (onEvent List.singleton s event).fields = fieldsAfter s.fields event :=
  (foldl_onCandidate (candidatesOf event) _).1

theorem onEvent_pending :
    (onEvent List.singleton s event).pending =
      s.pending ++ chunksFor s.pending.isEmpty (noteUsage event s.fields) (candidatesOf event) :=
  (foldl_onCandidate (candidatesOf event) _).2

variable {s}

theorem settled_onEvent (hsettled : Settled s) : Settled (onEvent List.singleton s event) := by
  unfold onEvent
  exact foldlRecOn _ _ hsettled fun s hs candidate _ => settled_onCandidate hs candidate

theorem finishReason_fieldsAfter (f : GeminiFields) :
    (fieldsAfter f event).finishReason.isSome = (f.finishReason.isSome || endsStream event) := by
  have hfold : ∀ (candidates : List Value) (f : GeminiFields),
      (candidates.foldl (fun f candidate => fieldsAt candidate f) f).finishReason.isSome =
        (f.finishReason.isSome ||
          candidates.any fun c => (partsOf c).isSome && (finishReasonFor c).isSome) := by
    intro candidates
    induction candidates with
    | nil => simp
    | cons candidate candidates ih =>
      intro f
      rw [foldl_cons, ih, fieldsAt, any_cons]
      cases (partsOf candidate).isSome with
      | false => simp
      | true =>
        rw [if_pos rfl, noteReason_finishReason, Option.isSome_or, Bool.true_and,
          Bool.or_assoc, Bool.or_left_comm]
  exact hfold _ (noteUsage event f)

theorem onEvent_done (hsettled : Settled s) :
    (onEvent List.singleton s event).done = (s.done || endsStream event) := by
  have hafter := settled_onEvent event hsettled
  rw [hafter, onEvent_fields, finishReason_fieldsAfter, hsettled]

end

theorem sendable_candidateChunks (first : Bool) (parts : List Value) (f : GeminiFields) :
    ∀ payload ∈ candidateChunks first parts f, Sendable payload := by
  unfold candidateChunks
  rw [forall_mem_append, forall_mem_append]
  refine ⟨⟨?_, ?_⟩, ?_⟩
  · unfold roleChunks
    split_ifs
    · exact forall_mem_singleton.mpr (sendable_chunkPayload _ _ _ _)
    · exact forall_mem_nil _
  · unfold textChunks
    split_ifs
    · exact forall_mem_singleton.mpr (sendable_chunkPayload _ _ _ _)
    · exact forall_mem_nil _
    · exact forall_mem_singleton.mpr (sendable_chunkPayload _ _ _ _)
  · unfold closingChunks
    split_ifs
    · exact forall_mem_singleton.mpr (sendable_closingPayload _ _)
    · exact forall_mem_nil _

theorem sendable_chunksFor (candidates : List Value) (first : Bool) (f : GeminiFields) :
    ∀ payload ∈ chunksFor first f candidates, Sendable payload := by
  induction candidates generalizing first f with
  | nil => exact forall_mem_nil _
  | cons candidate candidates ih =>
    unfold chunksFor
    split
    · exact ih first f
    · rw [forall_mem_append]
      exact ⟨sendable_candidateChunks _ _ _, ih _ _⟩

end GeminiRelay

def geminiRelay [SerdeJson] : EventRelay GeminiFields where
  readEvent := GeminiRelay.readEvent
  onEvent := GeminiRelay.onEvent
  onEvent_map := by
    intro Item emit hemit s event
    exact GeminiRelay.onEvent_map s hemit event
  onEvent_sendable := by
    intro s event hqueue
    rw [GeminiRelay.onEvent_pending, List.forall_mem_append]
    exact ⟨hqueue, GeminiRelay.sendable_chunksFor _ _ _⟩

namespace GeminiRelay

/-! ## Printed events -/

variable [SerdeJson]

def eventLine (event : Value) : Bytes :=
  ((SerdeJson.toString event).map fun s => toBytes s ++ [newline]).getD []

def eventLines (events : List Value) : Bytes := events.flatMap eventLine

def textPart (text : Text) : Value := .obj [("text", .str text)]

def thoughtPart (text : Text) : Value := .obj [("text", .str text), ("thought", .bool true)]

def partsEvent (parts : List Value) (reason : Option Text) : Value :=
  .obj [("candidates", .arr [.obj [("content", .obj [("parts", .arr parts)]),
    ("finishReason", reasonValue reason)]])]

variable (groups : List (List Value))

def groupPolls : List Poll :=
  (groups.map eventLines).map Poll.item

theorem cutLines_eventLines (hjson : SerdeJson.Lawful) (hback : SerdeJson.ReadsBack)
    {events : List Value} (hsend : ∀ event ∈ events, Sendable event) :
    (cutLines newline (eventLines events)).2 = [] ∧
      geminiRelay.eventsOf (eventLines events) = events := by
  induction events with
  | nil => exact ⟨rfl, rfl⟩
  | cons event events ih =>
    obtain ⟨⟨fields, rfl⟩, hplain⟩ := hsend event mem_cons_self
    obtain ⟨s, hprint⟩ := hjson.prints (.obj fields)
    obtain ⟨hclosed, hevents⟩ := ih fun other hother => hsend other (mem_cons_of_mem _ hother)
    have hhead := hjson.printsObject _ _ hprint
    have htrim : trimmedLine (toBytes s) = s := by
      rw [trimmedLine, fromBytes_toBytes]
      exact trim_eq_self hhead (by decide) (hback.closes _ _ hprint) (by decide)
    have hfull : s.isEmpty = false := by
      cases s with
      | nil => cases hhead
      | cons => rfl
    have hline : geminiRelay.eventOfLine (toBytes s) = some (.obj fields) := by
      rw [EventRelay.eventOfLine, htrim, hfull]
      exact hback.reads _ _ hplain hprint
    have hcons : eventLines (.obj fields :: events) =
        (toBytes s ++ [newline]) ++ eventLines events := by
      rw [eventLines, flatMap_cons, eventLine, hprint]
      rfl
    have hcut := cutLines_line_append (isLine_toBytes (hjson.oneLine _ _ hprint).1)
    rw [hcons, EventRelay.eventsOf, hcut]
    refine ⟨hclosed, ?_⟩
    rw [map_cons, dropLast_concat, filterMap_cons_some hline]
    exact congrArg (_ :: ·) hevents

theorem batchesOf_eventLines (hjson : SerdeJson.Lawful) (hback : SerdeJson.ReadsBack)
    {groups : List (List Value)} (hsend : ∀ group ∈ groups, ∀ event ∈ group, Sendable event) :
    geminiRelay.batchesOf [] (groups.map eventLines) = groups := by
  induction groups with
  | nil => rfl
  | cons group groups ih =>
    obtain ⟨hclosed, hevents⟩ := cutLines_eventLines hjson hback (hsend group mem_cons_self)
    rw [map_cons, EventRelay.batchesOf, nil_append, hclosed, hevents,
      ih fun other hother => hsend other (mem_cons_of_mem _ hother)]

theorem chunksSent_groupPolls (hjson : SerdeJson.Lawful) (hback : SerdeJson.ReadsBack)
    {groups : List (List Value)} (hsend : ∀ group ∈ groups, ∀ event ∈ group, Sendable event)
    (f : GeminiFields) :
    chunksSent (geminiRelay.collect f (groupPolls groups)) = (geminiRelay.sent f groups).1 := by
  rw [groupPolls, geminiRelay.collect_items, batchesOf_eventLines hjson hback hsend,
    geminiRelay.chunksSent_output hjson hback]

theorem upcoming_groupPolls :
    NormalizingStream.upcoming (groupPolls groups) = eventLines groups.flatten := by
  rw [groupPolls, EventRelay.upcoming_items, eventLines, flatMap_flatten, flatten_eq_flatMap,
    flatMap_map]
  rfl

theorem flowing_groupPolls : NormalizingStream.Flowing (groupPolls groups) :=
  EventRelay.flowing_items _

end GeminiRelay

end LlmProxy
