import LlmProxy.GeminiStream

/-!
# Finish reason and usage of a Gemini stream

A candidate with parts is closed once a finish reason is known; a candidate
without parts is passed over, its finish reason with it.  The usage sent is that
of the first event in which a candidate with parts has a finish reason.
-/

namespace LlmProxy

open Json (Text Value)
open NormalizingStream (Flowing upcoming)

namespace GeminiStream

open GeminiRelay List

/-! ## Closing chunks -/

def closingsSent (chunks : List Value) : List Value :=
  chunks.filter fun chunk => (chunk.get "usage").isSome

def closingsFor (f : GeminiFields) : List Value → List Value
  | [] => []
  | candidate :: candidates =>
    match partsOf candidate with
    | none => closingsFor f candidates
    | some _ =>
      closingChunks (noteReason candidate f) ++ closingsFor (noteReason candidate f) candidates

theorem closingsSent_append (a b : List Value) :
    closingsSent (a ++ b) = closingsSent a ++ closingsSent b :=
  filter_append _ _

theorem closingsSent_candidateChunks (first : Bool) (parts : List Value) (f : GeminiFields) :
    closingsSent (candidateChunks first parts f) = closingChunks f := by
  have hroles : closingsSent (roleChunks first f) = [] := by
    unfold roleChunks
    split_ifs
    · rfl
    · rfl
  have htexts : closingsSent (textChunks parts f) = [] := by
    unfold textChunks
    split_ifs
    · rfl
    · rfl
    · rfl
  have hcloses : closingsSent (closingChunks f) = closingChunks f := by
    unfold closingChunks
    split_ifs
    · rfl
    · rfl
  rw [candidateChunks, closingsSent_append, closingsSent_append, hroles, htexts, hcloses]
  rfl

theorem closingsSent_chunksFor (candidates : List Value) (first : Bool) (f : GeminiFields) :
    closingsSent (chunksFor first f candidates) = closingsFor f candidates := by
  induction candidates generalizing first f with
  | nil => rfl
  | cons candidate candidates ih =>
    unfold chunksFor closingsFor
    cases partsOf candidate with
    | none => exact ih first f
    | some =>
      rw [closingsSent_append, closingsSent_candidateChunks, ih]

def closingsAt (f : GeminiFields) (event : Value) : List Value :=
  closingsFor (noteUsage event f) (candidatesOf event)

theorem closingReads :
    StepReads (onEvent List.singleton) Settled closingsSent closingsAt fieldsAfter endsStream :=
  stepReads_of_chunks closingsSent_append fun first f event =>
    closingsSent_chunksFor (candidatesOf event) first (noteUsage event f)

variable {f : GeminiFields} {candidates : List Value} {reason : Text}

theorem closings_sent [SerdeJson] (hopen : f.finishReason = none) (batches : List (List Value)) :
    closingsSent (geminiRelay.sent f batches).1 =
      gathered closingsAt fieldsAfter f (workedOff endsStream batches) :=
  closingReads.served batches (settled_new f hopen) rfl

/-! ## The token counts -/

def lastCount (key : String) (events : List Value) : ℕ :=
  (events.filterMap (countOf key)).getLast?.getD 0

variable (events : List Value)

def usageAt : Usage where
  promptTokens := .ofNat (lastCount "promptTokenCount" events)
  completionTokens := .ofNat (lastCount "candidatesTokenCount" events)
  totalTokens :=
    .ofNat (lastCount "promptTokenCount" events + lastCount "candidatesTokenCount" events)

def reportedUsage : Value :=
  let prompt := lastCount "promptTokenCount" events
  let completion := lastCount "candidatesTokenCount" events
  let total := lastCount "totalTokenCount" events
  .obj [("completion_tokens", numValue completion), ("prompt_tokens", numValue prompt),
    ("total_tokens", numValue (if 0 < total then total else prompt + completion))]

theorem usageSent_noteReason (candidate : Value) (f : GeminiFields) :
    usageSent (noteReason candidate f) = usageSent f := by
  unfold noteReason
  split_ifs
  · rfl
  · rfl

theorem lastCount_concat (key : String) (events : List Value) (event : Value) :
    lastCount key (events ++ [event]) = (countOf key event).getD (lastCount key events) := by
  unfold lastCount
  cases hcount : countOf key event with
  | none => simp [hcount]
  | some => simp [hcount]

theorem tokens_fieldsAfter (f : GeminiFields) (event : Value) :
    (fieldsAfter f event).promptTokens = (noteUsage event f).promptTokens ∧
      (fieldsAfter f event).streamedTokens = (noteUsage event f).streamedTokens := by
  refine foldlRecOn (motive := fun g : GeminiFields =>
    g.promptTokens = (noteUsage event f).promptTokens ∧
      g.streamedTokens = (noteUsage event f).streamedTokens) _ _ ⟨rfl, rfl⟩ ?_
  intro g hg candidate _
  unfold fieldsAt noteReason
  split_ifs
  · exact hg
  · exact hg
  · exact hg

theorem noteUsage_tokens {events : List Value}
    (hprompt : f.promptTokens = .ofNat (lastCount "promptTokenCount" events))
    (hstreamed : f.streamedTokens = .ofNat (lastCount "candidatesTokenCount" events))
    (event : Value) :
    (noteUsage event f).promptTokens =
        .ofNat (lastCount "promptTokenCount" (events ++ [event])) ∧
      (noteUsage event f).streamedTokens =
        .ofNat (lastCount "candidatesTokenCount" (events ++ [event])) := by
  rw [lastCount_concat, lastCount_concat]
  unfold noteUsage
  rw [hprompt, hstreamed]
  constructor
  · cases countOf "promptTokenCount" event with
    | none => rfl
    | some => rfl
  · cases countOf "candidatesTokenCount" event with
    | none => rfl
    | some => rfl

variable (messageId model : Text) (created : UInt64)

theorem tokens_foldl (events : List Value) :
    (events.foldl fieldsAfter (.new messageId model created)).promptTokens =
        .ofNat (lastCount "promptTokenCount" events) ∧
      (events.foldl fieldsAfter (.new messageId model created)).streamedTokens =
        .ofNat (lastCount "candidatesTokenCount" events) := by
  induction events using List.reverseRecOn with
  | nil => exact ⟨rfl, rfl⟩
  | append_singleton events event ih =>
    rw [foldl_append, foldl_cons, foldl_nil, (tokens_fieldsAfter _ event).1,
      (tokens_fieldsAfter _ event).2]
    exact noteUsage_tokens ih.1 ih.2 event

theorem usageSent_foldl (events : List Value) (event : Value) :
    usageSent (noteUsage event (events.foldl fieldsAfter (.new messageId model created))) =
      usageAt (events ++ [event]) := by
  obtain ⟨hprompt, hstreamed⟩ := tokens_foldl messageId model created events
  obtain ⟨hnext, hstreamedNext⟩ := noteUsage_tokens hprompt hstreamed event
  rw [usageSent, hnext, hstreamedNext, ← UInt32.ofNat_add]
  rfl

theorem finishReason_foldl (f : GeminiFields) (events : List Value) :
    (events.foldl fieldsAfter f).finishReason.isSome =
      (f.finishReason.isSome || events.any endsStream) := by
  induction events generalizing f with
  | nil => simp
  | cons event events ih =>
    rw [foldl_cons, ih, finishReason_fieldsAfter, any_cons, Bool.or_assoc]

/-! ## The finish chunk -/

def ReportsFinish (chunks : List Value) (reason : Text) (usage : Value) : Prop :=
  ∃ chunk ∈ chunks, (∃ choice ∈ choicesOf chunk, finishReasonOf choice = some reason) ∧
    chunk.get "usage" = some usage

theorem reportsFinish_closings_iff (chunks : List Value) (reason : Text) (usage : Value) :
    ReportsFinish (closingsSent chunks) reason usage ↔ ReportsFinish chunks reason usage := by
  constructor
  · rintro ⟨chunk, hchunk, hreason, husage⟩
    exact ⟨chunk, mem_of_mem_filter hchunk, hreason, husage⟩
  · rintro ⟨chunk, hchunk, hreason, husage⟩
    refine ⟨chunk, mem_filter.mpr ⟨hchunk, ?_⟩, hreason, husage⟩
    rw [husage]
    rfl

theorem reportsFinish_append_iff (front chunks : List Value) (reason : Text) (usage : Value) :
    ReportsFinish (front ++ chunks) reason usage ↔
      ReportsFinish front reason usage ∨ ReportsFinish chunks reason usage := by
  constructor
  · rintro ⟨chunk, hchunk, hreads⟩
    rcases mem_append.mp hchunk with hfront | hrest
    · exact .inl ⟨chunk, hfront, hreads⟩
    · exact .inr ⟨chunk, hrest, hreads⟩
  · rintro (⟨chunk, hchunk, hreads⟩ | ⟨chunk, hchunk, hreads⟩)
    · exact ⟨chunk, mem_append_left _ hchunk, hreads⟩
    · exact ⟨chunk, mem_append_right _ hchunk, hreads⟩

theorem reportsFinish_closingChunks_iff (f : GeminiFields) (reason : Text) (usage : Value) :
    ReportsFinish (closingChunks f) reason usage ↔
      f.finishReason = some reason ∧ usageValue (usageSent f) = usage := by
  unfold ReportsFinish closingChunks
  cases hreason : f.finishReason with
  | none => simp
  | some => simp [hreason]

def Finishes (reason : Text) (candidates : List Value) : Prop :=
  ∃ candidate ∈ candidates, (partsOf candidate).isSome = true ∧
    finishReasonFor candidate = some reason

theorem reportsFinish_of_closingsFor {usage : Value}
    (hreports : ReportsFinish (closingsFor f candidates) reason usage) :
    (f.finishReason = some reason ∨ Finishes reason candidates) ∧
      usageValue (usageSent f) = usage := by
  induction candidates generalizing f with
  | nil =>
    obtain ⟨chunk, hchunk, -⟩ := hreports
    cases hchunk
  | cons candidate candidates ih =>
    unfold closingsFor at hreports
    have hlater : Finishes reason candidates → Finishes reason (candidate :: candidates) := by
      rintro ⟨other, hother, hfinishes⟩
      exact ⟨other, mem_cons_of_mem _ hother, hfinishes⟩
    cases hparts : partsOf candidate with
    | none =>
      rw [hparts] at hreports
      obtain ⟨hfound, husage⟩ := ih hreports
      exact ⟨hfound.imp_right hlater, husage⟩
    | some =>
      rw [hparts] at hreports
      -- The reason in the fields is the one they had, unless the candidate brings its own.
      have hnoted : (noteReason candidate f).finishReason = some reason →
          f.finishReason = some reason ∨ Finishes reason (candidate :: candidates) := by
        rw [noteReason_finishReason, Option.or_eq_some_iff]
        rintro (hown | ⟨-, hknown⟩)
        · exact .inr ⟨candidate, mem_cons_self, by rw [hparts]; rfl, hown⟩
        · exact .inl hknown
      rcases (reportsFinish_append_iff _ _ _ _).mp hreports with hhere | hrest
      · obtain ⟨hreason, husage⟩ := (reportsFinish_closingChunks_iff _ _ _).mp hhere
        rw [usageSent_noteReason] at husage
        exact ⟨hnoted hreason, husage⟩
      · obtain ⟨hfound, husage⟩ := ih hrest
        rw [usageSent_noteReason] at husage
        exact ⟨hfound.elim hnoted fun hfinishes => .inr (hlater hfinishes), husage⟩

theorem reportsFinish_closingsFor (hfinishes : Finishes reason candidates) (f : GeminiFields) :
    ReportsFinish (closingsFor f candidates) reason (usageValue (usageSent f)) := by
  induction candidates generalizing f with
  | nil =>
    obtain ⟨candidate, hmem, -⟩ := hfinishes
    cases hmem
  | cons candidate candidates ih =>
    obtain ⟨finishing, hmem, hsome, hreason⟩ := hfinishes
    unfold closingsFor
    rcases mem_cons.mp hmem with rfl | hlater
    · obtain ⟨parts, hparts⟩ := Option.isSome_iff_exists.mp hsome
      rw [hparts]
      refine (reportsFinish_append_iff _ _ _ _).mpr (.inl ?_)
      rw [reportsFinish_closingChunks_iff, noteReason_finishReason, hreason, usageSent_noteReason]
      exact ⟨rfl, rfl⟩
    · have hrest := ih ⟨finishing, hlater, hsome, hreason⟩
      cases partsOf candidate with
      | none => exact hrest f
      | some =>
        refine (reportsFinish_append_iff _ _ _ _).mpr (.inr ?_)
        rw [← usageSent_noteReason]
        exact hrest (noteReason candidate f)

theorem reportsFinish_upToFirst_iff (f : GeminiFields) (reason : Text) (usage : Value) :
    ReportsFinish (gathered closingsAt fieldsAfter f (upToFirst endsStream events)) reason usage ↔
      ∃ front last after, events = front ++ last :: after ∧
        (∀ event ∈ front, endsStream event = false) ∧
        ReportsFinish (closingsAt (front.foldl fieldsAfter f) last) reason usage := by
  induction events generalizing f with
  | nil =>
    constructor
    · rintro ⟨chunk, hchunk, -⟩
      cases hchunk
    · rintro ⟨front, last, after, hsplit, -⟩
      exact absurd hsplit.symm (by simp)
  | cons event events ih =>
    rw [upToFirst, gathered, reportsFinish_append_iff]
    constructor
    · rintro (hhere | hlater)
      · exact ⟨[], event, events, rfl, forall_mem_nil _, hhere⟩
      · cases hends : endsStream event with
        | true =>
          rw [hends] at hlater
          obtain ⟨chunk, hchunk, -⟩ := hlater
          cases hchunk
        | false =>
          rw [hends, if_neg Bool.false_ne_true, ih] at hlater
          obtain ⟨front, last, after, rfl, hfront, hreports⟩ := hlater
          exact ⟨event :: front, last, after, rfl, forall_mem_cons.mpr ⟨hends, hfront⟩, hreports⟩
    · rintro ⟨front, last, after, hsplit, hfront, hreports⟩
      cases front with
      | nil =>
        rw [nil_append, List.cons.injEq] at hsplit
        rw [hsplit.1]
        exact .inl hreports
      | cons first front =>
        obtain ⟨rfl, rfl⟩ := hsplit
        rw [forall_mem_cons] at hfront
        rw [hfront.1, if_neg Bool.false_ne_true, ih]
        exact .inr ⟨front, last, after, rfl, hfront.2, hreports⟩

/-- The first event that ends the stream does so with the finish reason, and the
counts the relay has by then are those of the usage. -/
def FinishSent (reason : Text) (usage : Value) : Prop :=
  ∃ front last after, events = front ++ last :: after ∧
    (∀ event ∈ front, endsStream event = false) ∧ Finishes reason (candidatesOf last) ∧
    usageValue (usageAt (front ++ [last])) = usage

theorem finishSent_iff (reason : Text) (usage : Value) :
    FinishSent events reason usage ↔
      ReportsFinish (gathered closingsAt fieldsAfter (.new messageId model created)
        (upToFirst endsStream events)) reason usage := by
  rw [reportsFinish_upToFirst_iff]
  constructor
  · rintro ⟨front, last, after, hsplit, hfront, hfinishes, husage⟩
    refine ⟨front, last, after, hsplit, hfront, ?_⟩
    rw [← husage, ← usageSent_foldl]
    exact reportsFinish_closingsFor hfinishes _
  · rintro ⟨front, last, after, hsplit, hfront, hreports⟩
    obtain ⟨hfound, husage⟩ := reportsFinish_of_closingsFor hreports
    have hnone : (front.foldl fieldsAfter (.new messageId model created)).finishReason = none := by
      rw [← Option.not_isSome_iff_eq_none, finishReason_foldl, any_eq_false.mpr]
      · exact Bool.false_ne_true
      · intro event hevent
        rw [hfront event hevent]
        exact Bool.false_ne_true
    rw [usageSent_foldl] at husage
    refine ⟨front, last, after, hsplit, hfront, hfound.resolve_left ?_, husage⟩
    change (front.foldl fieldsAfter (.new messageId model created)).finishReason ≠ some reason
    rw [hnone]
    exact Option.some_ne_none reason |>.symm

def CarriesReason (before : List Value) (event : Value) (reason : Text) : Prop :=
  (∃ after, events = before ++ event :: after) ∧
    ∃ candidate ∈ candidatesOf event, reasonOf candidate = some reason

section

variable [SerdeJson]

theorem reportsFinish_cuts_iff (hjson : SerdeJson.Lawful) (hback : SerdeJson.ReadsBack)
    (messageId model : Text) (created : UInt64) (bytes : Utf8Bytes.Bytes) (reason : Text)
    (usage : Value) :
    (∀ polls, Flowing polls → upcoming polls = bytes →
      ReportsFinish (chunksSent (geminiRelay.collect (.new messageId model created) polls)) reason
        usage) ↔
      FinishSent (geminiRelay.eventsOf bytes) reason usage := by
  rw [finishSent_iff]
  constructor
  · intro hcuts
    obtain ⟨-, hlines⟩ := geminiRelay.of_forall_cuts hjson hback (.new messageId model created)
      bytes (fun chunks => ReportsFinish chunks reason usage) hcuts
    rw [← reportsFinish_closings_iff, closings_sent rfl, workedOff_eventwise] at hlines
    exact hlines
  · intro hreports
    apply geminiRelay.forall_cuts hjson hback _ _ (fun chunks => ReportsFinish chunks reason usage)
    intro batches hflatten
    obtain ⟨extra, -, hworked, -⟩ := workedOff_split endsStream batches
    rw [← reportsFinish_closings_iff, closings_sent rfl, hworked, hflatten, gathered_append,
      reportsFinish_append_iff]
    exact .inl hreports

/-- Whatever the cut, the finish reasons of a stream arrive, each with the counts
reported so far, exactly if they are those of the first event that ends it. -/
theorem relay_reportsFinish_iff (hjson : SerdeJson.Lawful) (hback : SerdeJson.ReadsBack)
    (messageId model : Text) (created : UInt64) (bytes : Utf8Bytes.Bytes) :
    (∀ polls, Flowing polls → upcoming polls = bytes →
      ∀ before event reason, CarriesReason (geminiRelay.eventsOf bytes) before event reason →
        ReportsFinish (chunksSent (geminiRelay.collect (.new messageId model created) polls))
          (geminiFinishReason reason) (reportedUsage (before ++ [event]))) ↔
      ∀ before event reason, CarriesReason (geminiRelay.eventsOf bytes) before event reason →
        FinishSent (geminiRelay.eventsOf bytes) (geminiFinishReason reason)
          (reportedUsage (before ++ [event])) := by
  constructor
  · intro hcuts before event reason hcarries
    rw [← reportsFinish_cuts_iff hjson hback]
    intro polls hflowing hbytes
    exact hcuts polls hflowing hbytes before event reason hcarries
  · intro hsent polls hflowing hbytes before event reason hcarries
    exact (reportsFinish_cuts_iff hjson hback messageId model created bytes _ _).mpr
      (hsent before event reason hcarries) polls hflowing hbytes

end

section

attribute [local instance] jsonText

def usageMetadata (prompt completion total : ℕ) : Value :=
  .obj [("candidatesTokenCount", numValue completion), ("promptTokenCount", numValue prompt),
    ("totalTokenCount", numValue total)]

def stopEvent : Value :=
  .obj [("candidates", .arr [.obj [("content", .obj [("parts", .arr [textPart "Hi".toList])]),
      ("finishReason", .str "STOP".toList)]]), ("usageMetadata", usageMetadata 5 3 8)]

theorem stop_event_reportsFinish :
    CarriesReason (geminiRelay.eventsOf (eventLines [stopEvent])) [] stopEvent "STOP".toList ∧
      ReportsFinish (chunksSent (geminiRelay.collect (.new [] "gemini".toList 0)
          (groupPolls [[stopEvent]])))
        (geminiFinishReason "STOP".toList) (reportedUsage [stopEvent]) := by
  have hevents := (cutLines_eventLines jsonText_lawful jsonText_readsBack
    (by decide +kernel : ∀ event ∈ [stopEvent], Sendable event)).2
  have hcarries : CarriesReason (geminiRelay.eventsOf (eventLines [stopEvent])) [] stopEvent
      "STOP".toList := by
    rw [hevents]
    exact ⟨⟨[], rfl⟩, _, mem_singleton.mpr rfl, rfl⟩
  refine ⟨hcarries, (relay_reportsFinish_iff jsonText_lawful jsonText_readsBack _ _ _
    (eventLines [stopEvent])).mpr ?_ _ (flowing_groupPolls _) ?_ [] _ _ hcarries⟩
  · rw [hevents]
    rintro before event reason ⟨⟨after, hsplit⟩, candidate, hmem, hreason⟩
    obtain ⟨rfl, rfl⟩ : before = [] ∧ event = stopEvent := by
      cases before with
      | nil => exact ⟨rfl, (List.cons.inj hsplit).1.symm⟩
      | cons => exact absurd (List.cons.inj hsplit).2.symm (by simp)
    obtain rfl : reason = "STOP".toList := by
      rw [mem_singleton.mp hmem] at hreason
      exact (Option.some.inj hreason).symm
    exact ⟨[], stopEvent, [], rfl, forall_mem_nil _, ⟨_, mem_singleton.mpr rfl, rfl, rfl⟩, rfl⟩
  · rw [upcoming_groupPolls, flatten_singleton]

def blockedEvent : Value :=
  .obj [("candidates", .arr [.obj [("finishReason", .str "SAFETY".toList)]]),
    ("usageMetadata", usageMetadata 5 3 8)]

def blockedGroups : List (List Value) :=
  [[partsEvent [textPart "Hi".toList] none], [blockedEvent]]

/-- The finish reason of a blocked answer is not sent, nor is its usage. -/
theorem blocked_answer_unfinished :
    CarriesReason (geminiRelay.eventsOf (upcoming (groupPolls blockedGroups)))
        [partsEvent [textPart "Hi".toList] none] blockedEvent "SAFETY".toList ∧
      lastFinishReason (chunksSent (geminiRelay.collect (.new [] "gemini".toList 0)
        (groupPolls blockedGroups))) = none ∧
      usagesOf (chunksSent (geminiRelay.collect (.new [] "gemini".toList 0)
        (groupPolls blockedGroups))) = [] := by
  have hsend : ∀ group ∈ blockedGroups, ∀ event ∈ group, Sendable event := by decide +kernel
  have hevents := (cutLines_eventLines jsonText_lawful jsonText_readsBack
    (by decide +kernel : ∀ event ∈ blockedGroups.flatten, Sendable event)).2
  rw [chunksSent_groupPolls jsonText_lawful jsonText_readsBack hsend, upcoming_groupPolls, hevents]
  exact ⟨⟨⟨[], rfl⟩, _, mem_singleton.mpr rfl, rfl⟩, rfl, rfl⟩

end

end GeminiStream

end LlmProxy
