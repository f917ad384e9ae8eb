import LlmProxy.GeminiRelay

/-!
# Streamed and whole Gemini answers

What a client gets from the Gemini relay, for every way the upstream is cut into chunks.  The events
of one chunk are worked off together, even past the first finish reason; with every event in a chunk
of its own nothing after it is read.
-/

namespace LlmProxy

open Json (Text Value)
open NormalizingStream (Flowing upcoming)

namespace GeminiStream

open GeminiRelay List

/-! ## Readings of the queue -/

def contentSent (parts : List Value) : Text :=
  if joinedText parts = assistantRole ∨ anyThought parts = true then [] else joinedText parts

def reasoningSent (parts : List Value) : Text :=
  if joinedText parts = assistantRole ∨ anyThought parts = false then [] else joinedText parts

def overCandidates {β : Type} (read : List Value → List β) (event : Value) : List β :=
  ((candidatesOf event).filterMap partsOf).flatMap read

theorem contentText_append (a b : List Value) :
    contentText (a ++ b) = contentText a ++ contentText b := by
  simp [contentText]

theorem reasoningText_append (a b : List Value) :
    reasoningText (a ++ b) = reasoningText a ++ reasoningText b := by
  simp [reasoningText]

variable {read : List Value → Text} {parts : List Value} {f : GeminiFields}

theorem read_candidateChunks (hread : ∀ a b, read (a ++ b) = read a ++ read b) (hnil : read [] = [])
    (hrole : read [chunkPayload f.toRelayFields assistantRole none false] = [])
    (hclose : read [closingPayload f.toRelayFields (usageSent f)] = []) (first : Bool)
    (parts : List Value) : read (candidateChunks first parts f) = read (textChunks parts f) := by
  have hroles : read (roleChunks first f) = [] := by
    unfold roleChunks
    split_ifs
    · exact hrole
    · exact hnil
  have hcloses : read (closingChunks f) = [] := by
    unfold closingChunks
    split_ifs
    · exact hclose
    · exact hnil
  rw [candidateChunks, hread, hread, hroles, hcloses, nil_append, append_nil]

theorem texts_textChunks (parts : List Value) (f : GeminiFields) :
    contentText (textChunks parts f) = contentSent parts ∧
      reasoningText (textChunks parts f) = reasoningSent parts := by
  unfold textChunks contentSent reasoningSent
  by_cases hempty : (joinedText parts).isEmpty = true
  · rw [if_neg (not_not.mpr hempty), List.isEmpty_iff.mp hempty, ite_self, ite_self]
    split_ifs
    · simp [contentText, reasoningText]
    · exact ⟨rfl, rfl⟩
  · rw [if_pos hempty]
    simp [contentText, reasoningText]

variable {bring : List Value → Text} {events : List Value}

theorem read_chunksFor (hread : ∀ a b, read (a ++ b) = read a ++ read b) (hnil : read [] = [])
    (hcandidate : ∀ first parts f, read (candidateChunks first parts f) = bring parts)
    (candidates : List Value) (first : Bool) (f : GeminiFields) :
    read (chunksFor first f candidates) = (candidates.filterMap partsOf).flatMap bring := by
  induction candidates generalizing first f with
  | nil => exact hnil
  | cons candidate candidates ih =>
    unfold chunksFor
    cases hparts : partsOf candidate with
    | none =>
      rw [filterMap_cons_none hparts]
      exact ih first f
    | some =>
      rw [filterMap_cons_some hparts, flatMap_cons, hread, hcandidate, ih]

theorem settled_drained {s : LineRelay GeminiFields Value} (hsettled : Settled s) :
    Settled s.drained :=
  hsettled

theorem stepReads_of_chunks {β : Type} {read : List Value → List β}
    {bring : GeminiFields → Value → List β} (hread : ∀ a b, read (a ++ b) = read a ++ read b)
    (hevent : ∀ first f event,
      read (chunksFor first (noteUsage event f) (candidatesOf event)) = bring f event) :
    StepReads (onEvent List.singleton) Settled read bring fieldsAfter endsStream where
  append := hread
  drained := fun _ hsettled => settled_drained hsettled
  keeps := fun _ event hsettled => settled_onEvent event hsettled
  reads := by
    intro s event _
    rw [onEvent_pending, hread, hevent]
  fields := onEvent_fields
  done := fun _ event hsettled => onEvent_done event hsettled

theorem stepReads_of_candidates (hread : ∀ a b, read (a ++ b) = read a ++ read b)
    (hnil : read [] = [])
    (hcandidate : ∀ first parts f, read (candidateChunks first parts f) = bring parts) :
    StepReads (onEvent List.singleton) Settled read (fun _ => overCandidates bring) fieldsAfter
      endsStream :=
  stepReads_of_chunks hread fun first f event =>
    read_chunksFor hread hnil hcandidate (candidatesOf event) first (noteUsage event f)

theorem contentReads :
    StepReads (onEvent List.singleton) Settled contentText (fun _ => overCandidates contentSent)
      fieldsAfter endsStream := by
  apply stepReads_of_candidates contentText_append rfl
  intro first parts f
  rw [read_candidateChunks contentText_append rfl (by simp [contentText]) rfl,
    (texts_textChunks parts f).1]

theorem reasoningReads :
    StepReads (onEvent List.singleton) Settled reasoningText
      (fun _ => overCandidates reasoningSent) fieldsAfter endsStream := by
  apply stepReads_of_candidates reasoningText_append rfl
  intro first parts f
  rw [read_candidateChunks reasoningText_append rfl (by simp [reasoningText]) rfl,
    (texts_textChunks parts f).2]

theorem settled_new (f : GeminiFields) (hopen : f.finishReason = none) :
    Settled (.new f : LineRelay GeminiFields Value) := by
  unfold Settled LineRelay.new
  rw [hopen]
  rfl

theorem texts_sent [SerdeJson] (hopen : f.finishReason = none) (batches : List (List Value)) :
    contentText (geminiRelay.sent f batches).1 =
        (workedOff endsStream batches).flatMap (overCandidates contentSent) ∧
      reasoningText (geminiRelay.sent f batches).1 =
        (workedOff endsStream batches).flatMap (overCandidates reasoningSent) := by
  constructor
  · have hserved := contentReads.served batches (settled_new f hopen) rfl
    rw [gathered_const] at hserved
    exact hserved
  · have hserved := reasoningReads.served batches (settled_new f hopen) rfl
    rw [gathered_const] at hserved
    exact hserved

/-! ## The parts of a stream -/

def plainParts (parts : List Value) : Text :=
  parts.flatMap fun part => if isThought part then [] else partText part

def thoughtParts (parts : List Value) : Text :=
  parts.flatMap fun part => if isThought part then partText part else []

def partLists (event : Value) : List (List Value) := (candidatesOf event).filterMap partsOf

def Separable (parts : List Value) : Prop :=
  joinedText parts = [] ∨ joinedText parts ≠ assistantRole ∧
    (anyThought parts = false ∨ plainParts parts = [])

instance (parts : List Value) : Decidable (Separable parts) := by
  unfold Separable
  infer_instance

theorem joinedText_eq_nil_iff (parts : List Value) :
    joinedText parts = [] ↔ plainParts parts = [] ∧ thoughtParts parts = [] := by
  unfold joinedText plainParts thoughtParts
  simp only [flatMap_eq_nil_iff]
  constructor
  · intro hnil
    constructor
    · intro part hpart
      rw [hnil part hpart, ite_self]
    · intro part hpart
      rw [hnil part hpart, ite_self]
  · rintro ⟨hplain, hthought⟩ part hpart
    cases hkind : isThought part with
    | true => simpa [hkind] using hthought part hpart
    | false => simpa [hkind] using hplain part hpart

theorem joinedText_of_no_thought (hnone : anyThought parts = false) :
    joinedText parts = plainParts parts ∧ thoughtParts parts = [] := by
  have hplain : ∀ part ∈ parts, isThought part = false := by
    intro part hpart
    rw [Bool.eq_false_iff]
    intro hthought
    rw [anyThought, any_eq_false] at hnone
    exact hnone part hpart hthought
  constructor
  · unfold plainParts
    apply flatMap_congr
    intro part hpart
    rw [hplain part hpart, if_neg Bool.false_ne_true]
  · unfold thoughtParts
    rw [flatMap_eq_nil_iff]
    intro part hpart
    rw [hplain part hpart, if_neg Bool.false_ne_true]

theorem joinedText_of_no_plain (hnone : plainParts parts = []) :
    joinedText parts = thoughtParts parts := by
  unfold plainParts at hnone
  rw [flatMap_eq_nil_iff] at hnone
  apply flatMap_congr
  intro part hpart
  cases hkind : isThought part with
  | true => rfl
  | false => simpa [hkind] using hnone part hpart

theorem skipped_lossy {skip : Prop} [Decidable skip] {text whole : Text}
    (hkept : ¬ skip → text = whole) :
    (if skip then [] else text) = whole ∨ (if skip then [] else text).length < whole.length := by
  split_ifs with hskip
  · cases whole with
    | nil => exact .inl rfl
    | cons => exact .inr (Nat.succ_pos _)
  · exact .inl (hkept hskip)

theorem contentSent_lossy (parts : List Value) :
    contentSent parts = plainParts parts ∨
      (contentSent parts).length < (plainParts parts).length := by
  apply skipped_lossy
  rw [not_or, Bool.not_eq_true]
  exact fun hsent => (joinedText_of_no_thought hsent.2).1

theorem reasoningSent_lossy (hcontent : contentSent parts = plainParts parts) :
    reasoningSent parts = thoughtParts parts ∨
      (reasoningSent parts).length < (thoughtParts parts).length := by
  apply skipped_lossy
  rw [not_or, Bool.not_eq_false]
  intro hsent
  rw [contentSent, if_pos (.inr hsent.2)] at hcontent
  exact joinedText_of_no_plain hcontent.symm

theorem separable_iff (parts : List Value) :
    Separable parts ↔
      contentSent parts = plainParts parts ∧ reasoningSent parts = thoughtParts parts := by
  constructor
  · rintro (hempty | ⟨hrole, hkind⟩)
    · obtain ⟨hplain, hthought⟩ := (joinedText_eq_nil_iff parts).mp hempty
      rw [contentSent, reasoningSent, hempty, ite_self, ite_self, hplain, hthought]
      exact ⟨rfl, rfl⟩
    · cases hthought : anyThought parts with
      | false =>
        obtain ⟨hplain, hnone⟩ := joinedText_of_no_thought hthought
        rw [contentSent, reasoningSent, hthought, if_neg (by simp [hrole]), if_pos (.inr rfl),
          hnone]
        exact ⟨hplain, rfl⟩
      | true =>
        rw [hthought] at hkind
        have hplain := hkind.resolve_left Bool.true_eq_false_eq_False
        rw [contentSent, reasoningSent, hthought, if_pos (.inr rfl), if_neg (by simp [hrole]),
          hplain]
        exact ⟨rfl, joinedText_of_no_plain hplain⟩
  · rintro ⟨hcontent, hreasoning⟩
    by_cases hempty : joinedText parts = []
    · exact .inl hempty
    · right
      constructor
      · intro hrole
        rw [contentSent, if_pos (.inl hrole)] at hcontent
        rw [reasoningSent, if_pos (.inl hrole)] at hreasoning
        exact hempty ((joinedText_eq_nil_iff parts).mpr ⟨hcontent.symm, hreasoning.symm⟩)
      · cases hthought : anyThought parts with
        | false => exact .inl rfl
        | true =>
          rw [contentSent, if_pos (.inr hthought)] at hcontent
          exact .inr hcontent.symm

def allParts (events : List Value) : List Value := (events.flatMap partLists).flatten

def typedPart (part : Value) : GeminiResponsePart where
  text := (part.get "text").bind Value.asStr
  thought := isThought part

theorem flatten_answerPart (parts : List Value) :
    ((parts.map typedPart).filterMap GeminiResponsePart.answerPart).flatten = plainParts parts := by
  rw [flatten_filterMap, flatMap_map]
  apply flatMap_congr
  intro part _
  cases hkind : isThought part with
  | true => simp [GeminiResponsePart.answerPart, typedPart, hkind]
  | false => simp [GeminiResponsePart.answerPart, typedPart, hkind, partText]

theorem flatten_reasoningPart (parts : List Value) :
    ((parts.map typedPart).filterMap GeminiResponsePart.reasoningPart).flatten =
      thoughtParts parts := by
  rw [flatten_filterMap, flatMap_map]
  apply flatMap_congr
  intro part _
  cases hkind : isThought part with
  | true => simp [GeminiResponsePart.reasoningPart, typedPart, hkind, partText]
  | false => simp [GeminiResponsePart.reasoningPart, typedPart, hkind]

/-- The stream brings the plain and the thought parts apart, as the whole
answer does. -/
def SeparatesParts (chunks parts : List Value) (answer : ChatCompletionResponse) : Prop :=
  contentText chunks = plainParts parts ∧ reasoningText chunks = thoughtParts parts ∧
    SameText chunks answer

/-- What is required of a stream: every candidate is separable, and no text comes
after the first finish reason. -/
def SeparableStream (events : List Value) : Prop :=
  (∀ parts ∈ events.flatMap partLists, Separable parts) ∧
    ∀ front last after, events = front ++ last :: after → endsStream last = true →
      ∀ parts ∈ after.flatMap partLists, joinedText parts = []

theorem plainParts_flatten (lists : List (List Value)) :
    plainParts lists.flatten = lists.flatMap plainParts :=
  flatMap_flatten lists _

theorem thoughtParts_flatten (lists : List (List Value)) :
    thoughtParts lists.flatten = lists.flatMap thoughtParts :=
  flatMap_flatten lists _

def TextsComplete (worked events : List Value) : Prop :=
  (worked.flatMap partLists).flatMap contentSent = plainParts (allParts events) ∧
    (worked.flatMap partLists).flatMap reasoningSent = thoughtParts (allParts events)

theorem textsComplete_self_iff (events : List Value) :
    TextsComplete events events ↔ ∀ parts ∈ events.flatMap partLists, Separable parts := by
  unfold TextsComplete allParts
  rw [plainParts_flatten, thoughtParts_flatten,
    flatMap_eq_iff_of_lossy fun parts _ => contentSent_lossy parts]
  constructor
  · rintro ⟨hcontent, hreasoning⟩
    rw [flatMap_eq_iff_of_lossy fun parts hparts => reasoningSent_lossy (hcontent parts hparts)]
      at hreasoning
    intro parts hparts
    exact (separable_iff parts).mpr ⟨hcontent parts hparts, hreasoning parts hparts⟩
  · intro hall
    refine ⟨fun parts hparts => ((separable_iff parts).mp (hall parts hparts)).1, ?_⟩
    apply flatMap_congr
    intro parts hparts
    exact ((separable_iff parts).mp (hall parts hparts)).2

theorem textsComplete_front_iff {worked rest : List Value}
    (hall : ∀ parts ∈ worked.flatMap partLists, Separable parts) :
    TextsComplete worked (worked ++ rest) ↔
      ∀ parts ∈ rest.flatMap partLists, joinedText parts = [] := by
  obtain ⟨hcontent, hreasoning⟩ := (textsComplete_self_iff worked).mpr hall
  have hplain : plainParts (allParts (worked ++ rest)) =
      plainParts (allParts worked) ++ plainParts (allParts rest) := by
    unfold allParts plainParts
    rw [flatMap_append, flatten_append, flatMap_append]
  have hthought : thoughtParts (allParts (worked ++ rest)) =
      thoughtParts (allParts worked) ++ thoughtParts (allParts rest) := by
    unfold allParts thoughtParts
    rw [flatMap_append, flatten_append, flatMap_append]
  have hrest : joinedText (allParts rest) = [] ↔
      ∀ parts ∈ rest.flatMap partLists, joinedText parts = [] := by
    unfold allParts joinedText
    rw [flatMap_flatten, flatMap_eq_nil_iff]
  rw [TextsComplete, hcontent, hreasoning, hplain, hthought, self_eq_append_right,
    self_eq_append_right, ← joinedText_eq_nil_iff, hrest]

theorem separableStream_of_textsComplete
    (hall : ∀ parts ∈ events.flatMap partLists, Separable parts)
    (hlines : TextsComplete (upToFirst endsStream events) events) : SeparableStream events := by
  refine ⟨hall, ?_⟩
  rintro front last rest rfl hlast
  obtain ⟨more, hmore⟩ := upToFirst_before hlast front rest
  generalize upToFirst endsStream (front ++ last :: rest) = worked at hlines hmore
  rw [hmore] at hlines hall
  rw [flatMap_append, forall_mem_append] at hall
  rw [textsComplete_front_iff hall.1, flatMap_append, forall_mem_append] at hlines
  exact hlines.2

theorem SeparableStream.textsComplete {batches : List (List Value)}
    (hseparable : SeparableStream batches.flatten) :
    TextsComplete (workedOff endsStream batches) batches.flatten := by
  obtain ⟨hall, hsilent⟩ := hseparable
  obtain ⟨extra, rest, hworked, hrest⟩ := workedOff_split endsStream batches
  obtain ⟨after, hsplit, hfirst⟩ := upToFirst_split endsStream batches.flatten
  generalize upToFirst endsStream batches.flatten = first at hworked hsplit hfirst
  have hafter : after = extra ++ rest := by
    rw [hrest, hworked, append_assoc] at hsplit
    exact (append_cancel_left hsplit).symm
  rw [hrest, flatMap_append, forall_mem_append] at hall
  rw [hrest, textsComplete_front_iff hall.1]
  intro parts hparts
  have hne : after ≠ [] := by
    rintro rfl
    rw [(append_eq_nil_iff.mp hafter.symm).2] at hparts
    cases hparts
  obtain ⟨front, last, hfront, hlast⟩ := hfirst hne
  refine hsilent front last after ?_ hlast parts ?_
  · rw [hsplit, hfront, append_assoc, singleton_append]
  · rw [hafter, flatMap_append]
    exact mem_append_right _ hparts

section

variable [SerdeJson]

theorem separatesParts_sent_iff (hopen : f.finishReason = none) (batches : List (List Value))
    {gm : GeminiResponse} (hgm : (gm.candidates.head?.map fun c => c.content.parts) =
      some ((allParts events).map typedPart)) (id model : Text) (created : UInt64) :
    SeparatesParts (geminiRelay.sent f batches).1 (allParts events)
        (geminiToOpenai gm id model created) ↔
      TextsComplete (workedOff endsStream batches) events := by
  obtain ⟨hcontent, hreasoning⟩ := texts_sent hopen batches
  have hlists : ∀ read : List Value → Text,
      (workedOff endsStream batches).flatMap (overCandidates read) =
        ((workedOff endsStream batches).flatMap partLists).flatMap read := by
    intro read
    rw [flatMap_assoc]
    rfl
  rw [hlists] at hcontent hreasoning
  unfold SeparatesParts
  rw [hcontent, hreasoning]
  constructor
  · rintro ⟨htext, hthought, -⟩
    exact ⟨htext, hthought⟩
  · rintro ⟨htext, hthought⟩
    refine ⟨htext, hthought, (sameText_iff rfl).mpr ⟨?_, ?_⟩⟩
    · rw [hgm, Option.getD_some, flatten_answerPart, hcontent, htext]
    · rw [hgm, Option.getD_some, flatten_reasoningPart, hreasoning, hthought]

/-- Whatever the cut, the parts of a stream arrive apart exactly if every
candidate is separable and no text comes after the first finish reason. -/
theorem relay_separatesParts_iff (hjson : SerdeJson.Lawful) (hback : SerdeJson.ReadsBack)
    (messageId model : Text) (created : UInt64) (bytes : Utf8Bytes.Bytes) (gm : GeminiResponse)
    (hgm : (gm.candidates.head?.map fun c => c.content.parts) =
      some ((allParts (geminiRelay.eventsOf bytes)).map typedPart))
    (id answerModel : Text) (answered : UInt64) :
    (∀ polls, Flowing polls → upcoming polls = bytes →
      SeparatesParts (chunksSent (geminiRelay.collect (.new messageId model created) polls))
        (allParts (geminiRelay.eventsOf bytes)) (geminiToOpenai gm id answerModel answered)) ↔
      SeparableStream (geminiRelay.eventsOf bytes) := by
  have hsent : ∀ batches, SeparatesParts (geminiRelay.sent (.new messageId model created) batches).1
      (allParts (geminiRelay.eventsOf bytes)) (geminiToOpenai gm id answerModel answered) ↔
      TextsComplete (workedOff endsStream batches) (geminiRelay.eventsOf bytes) := by
    intro batches
    exact separatesParts_sent_iff rfl batches hgm id answerModel answered
  constructor
  · intro hcuts
    obtain ⟨hwhole, hlines⟩ := geminiRelay.of_forall_cuts hjson hback
      (.new messageId model created) bytes (fun chunks => SeparatesParts chunks _ _) hcuts
    rw [hsent, workedOff_whole, textsComplete_self_iff] at hwhole
    rw [hsent, workedOff_eventwise] at hlines
    exact separableStream_of_textsComplete hwhole hlines
  · intro hseparable
    apply geminiRelay.forall_cuts hjson hback _ _ (fun chunks => SeparatesParts chunks _ _)
    intro batches hflatten
    rw [hsent, ← hflatten]
    rw [← hflatten] at hseparable
    exact hseparable.textsComplete

end

section

attribute [local instance] jsonText

def wholeAnswer (parts : List Value) : GeminiResponse where
  candidates := [⟨⟨parts.map typedPart⟩, none⟩]
  usageMetadata := none

def thoughtThenAnswer : List Value :=
  [partsEvent [thoughtPart "hm".toList] none, partsEvent [textPart "Hi".toList] none]

theorem separate_events_separatesParts :
    SeparableStream (geminiRelay.eventsOf (eventLines thoughtThenAnswer)) ∧
      SeparatesParts (chunksSent (geminiRelay.collect (.new [] "gemini".toList 0)
          (groupPolls [thoughtThenAnswer])))
        (allParts (geminiRelay.eventsOf (eventLines thoughtThenAnswer)))
        (geminiToOpenai (wholeAnswer [thoughtPart "hm".toList, textPart "Hi".toList]) []
          "gemini".toList 0) := by
  have hevents := (cutLines_eventLines jsonText_lawful jsonText_readsBack
    (by decide +kernel : ∀ event ∈ thoughtThenAnswer, Sendable event)).2
  have hseparable : SeparableStream (geminiRelay.eventsOf (eventLines thoughtThenAnswer)) := by
    rw [hevents]
    refine ⟨by decide, ?_⟩
    intro front last after hsplit hlast
    have hnone : ∀ event ∈ thoughtThenAnswer, endsStream event = false := by decide
    rw [hnone last (by simp [hsplit])] at hlast
    cases hlast
  refine ⟨hseparable, (relay_separatesParts_iff jsonText_lawful jsonText_readsBack _ _ _ _ _ ?_
    _ _ _).mpr hseparable _ (flowing_groupPolls _) ?_⟩
  · rw [hevents]
    rfl
  · rw [upcoming_groupPolls, flatten_singleton]

def mixedEvents : List Value :=
  [partsEvent [thoughtPart "hm".toList, textPart "Hi".toList] none]

/-- An answer part next to a thought part is sent as reasoning. -/
theorem mixed_parts_sent_as_reasoning :
    plainParts (allParts (geminiRelay.eventsOf (upcoming (groupPolls [mixedEvents])))) =
        "Hi".toList ∧
      contentText (chunksSent (geminiRelay.collect (.new [] "gemini".toList 0)
        (groupPolls [mixedEvents]))) = [] ∧
      reasoningText (chunksSent (geminiRelay.collect (.new [] "gemini".toList 0)
        (groupPolls [mixedEvents]))) = "hmHi".toList := by
  have hsend : ∀ group ∈ [mixedEvents], ∀ event ∈ group, Sendable event := by decide +kernel
  have hevents := (cutLines_eventLines jsonText_lawful jsonText_readsBack
    (hsend mixedEvents mem_cons_self)).2
  rw [chunksSent_groupPolls jsonText_lawful jsonText_readsBack hsend, upcoming_groupPolls,
    flatten_singleton, hevents]
  exact ⟨rfl, rfl, rfl⟩

end

end GeminiStream

end LlmProxy
