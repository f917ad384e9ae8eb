import LlmProxy.GeminiFinish

/-!
# The role chunk of a Gemini stream

The role is sent whenever the queue is empty, and it is empty at the start of
every chunk of the upstream.  Two events with parts therefore bring one role
chunk or two, as their bytes were cut.
-/

namespace LlmProxy

open Json (Text Value)
open NormalizingStream (Flowing upcoming)

namespace GeminiStream

open GeminiRelay List LineRelay

variable {event : Value} {events : List Value} {f : GeminiFields}

theorem partsOf_of_quiet (hquiet : hasParts event = false) :
    ∀ candidate ∈ candidatesOf event, partsOf candidate = none := by
  intro candidate hcandidate
  rw [hasParts, any_eq_false] at hquiet
  exact Option.not_isSome_iff_eq_none.mp (hquiet candidate hcandidate)

theorem chunksFor_of_quiet (hquiet : hasParts event = false) (first : Bool) (f : GeminiFields) :
    chunksFor first f (candidatesOf event) = [] := by
  have hnone := partsOf_of_quiet hquiet
  generalize candidatesOf event = candidates at hnone
  induction candidates with
  | nil => rfl
  | cons candidate candidates ih =>
    rw [forall_mem_cons] at hnone
    rw [chunksFor, hnone.1]
    exact ih hnone.2

theorem onEvent_quiet (hquiet : hasParts event = false) (s : LineRelay GeminiFields Value) :
    onEvent List.singleton s event = { s with fields := fieldsAfter s.fields event } := by
  rw [← onEvent_fields, onEvent]
  refine foldlRecOn (motive := fun t : LineRelay _ _ => t = { s with fields := t.fields })
    _ _ rfl ?_
  intro t ht candidate hcandidate
  rw [onCandidate_none _ (partsOf_of_quiet hquiet candidate hcandidate)]
  exact ht

theorem foldl_quiet (hquiet : ∀ event ∈ events, hasParts event = false)
    (s : LineRelay GeminiFields Value) :
    events.foldl (onEvent List.singleton) s =
      { s with fields := events.foldl fieldsAfter s.fields } := by
  induction events generalizing s with
  | nil => rfl
  | cons event events ih =>
    rw [forall_mem_cons] at hquiet
    rw [foldl_cons, onEvent_quiet hquiet.1, ih hquiet.2]
    rfl

variable {s : LineRelay GeminiFields Value} {batches : List (List Value)} {candidates : List Value}

theorem served_quiet (hquiet : ∀ event ∈ batches.flatten, hasParts event = false)
    (s : LineRelay GeminiFields Value) :
    served (onEvent List.singleton) s batches = (s.pending, s.done) := by
  induction batches generalizing s with
  | nil => rfl
  | cons batch batches ih =>
    rw [flatten_cons, forall_mem_append] at hquiet
    cases hopen : s.done with
    | true => exact served_done hopen _
    | false =>
      rw [served_cons hopen, foldl_quiet hquiet.1, ih hquiet.2, drained_pending,
        append_nil, drained_done, hopen]

/-! ## Events with parts -/

def openingAt (f : GeminiFields) (event : Value) : List Value :=
  chunksFor true (noteUsage event f) (candidatesOf event)

theorem chunksFor_true (hparts : (candidates.any fun c => (partsOf c).isSome) = true)
    (f : GeminiFields) :
    ∃ g, chunksFor true f candidates =
      chunkPayload g assistantRole none false :: chunksFor false f candidates := by
  induction candidates with
  | nil => cases hparts
  | cons candidate candidates ih =>
    unfold chunksFor
    cases hpart : partsOf candidate with
    | none =>
      rw [any_cons, hpart] at hparts
      exact ih hparts
    | some => exact ⟨(noteReason candidate f).toRelayFields, rfl⟩

theorem roleless_textChunks_iff (parts : List Value) (f : GeminiFields) :
    (∀ chunk ∈ textChunks parts f, isRoleChunk chunk = false) ↔
      joinedText parts ≠ assistantRole := by
  have hempty : assistantRole ≠ [] := by decide
  unfold textChunks
  by_cases hnone : joinedText parts = []
  · rw [hnone, isEmpty_nil, if_neg (not_not.mpr rfl)]
    split_ifs
    · simp [hempty.symm]
    · simp [hempty.symm]
  · rw [if_pos (by simpa using hnone)]
    simp

theorem roleless_chunksFor_iff (candidates : List Value) (f : GeminiFields) :
    (∀ chunk ∈ chunksFor false f candidates, isRoleChunk chunk = false) ↔
      ∀ parts ∈ candidates.filterMap partsOf, joinedText parts ≠ assistantRole := by
  induction candidates generalizing f with
  | nil => simp [chunksFor]
  | cons candidate candidates ih =>
    unfold chunksFor
    cases hparts : partsOf candidate with
    | none =>
      rw [filterMap_cons_none hparts]
      exact ih f
    | some =>
      have hclosing : ∀ chunk ∈ closingChunks (noteReason candidate f),
          isRoleChunk chunk = false := by
        unfold closingChunks
        split_ifs
        · exact forall_mem_singleton.mpr (isRoleChunk_closingPayload _ _)
        · exact forall_mem_nil _
      have hroles : roleChunks false (noteReason candidate f) = [] := rfl
      dsimp only
      rw [filterMap_cons_some hparts, forall_mem_cons, candidateChunks, hroles,
        nil_append, forall_mem_append, forall_mem_append, ih, roleless_textChunks_iff]
      exact ⟨fun hall => ⟨hall.1.1, hall.2⟩, fun hall => ⟨⟨hall.1, hclosing⟩, hall.2⟩⟩

theorem roleFirst_openingAt_append_iff (hparts : hasParts event = true) (f : GeminiFields)
    (chunks : List Value) :
    RoleFirst (openingAt f event ++ chunks) ↔
      (∀ parts ∈ partLists event, joinedText parts ≠ assistantRole) ∧
        ∀ chunk ∈ chunks, isRoleChunk chunk = false := by
  obtain ⟨g, hopening⟩ := chunksFor_true hparts (noteUsage event f)
  rw [openingAt, hopening, cons_append, roleFirst_cons_iff, forall_mem_append,
    roleless_chunksFor_iff, isRoleChunk_chunkPayload, decide_eq_true_iff, eq_self_iff_true,
    true_and]
  rfl

theorem openingAt_of_quiet (hquiet : hasParts event = false) (f : GeminiFields) :
    openingAt f event = [] :=
  chunksFor_of_quiet hquiet true (noteUsage event f)

theorem roleless_gathered_iff (events : List Value) (f : GeminiFields) :
    (∀ chunk ∈ gathered openingAt fieldsAfter f events, isRoleChunk chunk = false) ↔
      events.filter hasParts = [] := by
  induction events generalizing f with
  | nil => simp [gathered]
  | cons event events ih =>
    rw [gathered, forall_mem_append, ih]
    cases hparts : hasParts event with
    | false =>
      rw [openingAt_of_quiet hparts, filter_cons_of_neg (by rw [hparts]; simp)]
      exact ⟨fun hall => hall.2, fun hnone => ⟨forall_mem_nil _, hnone⟩⟩
    | true =>
      rw [filter_cons_of_pos hparts]
      obtain ⟨g, hopening⟩ := chunksFor_true hparts (noteUsage event f)
      rw [openingAt, hopening, forall_mem_cons, isRoleChunk_chunkPayload]
      simp

/-- A single event has parts, and no text of it reads `assistant`. -/
def OpensOnce (events : List Value) : Prop :=
  ∃ event, events.filter hasParts = [event] ∧
    ∀ parts ∈ partLists event, joinedText parts ≠ assistantRole

theorem roleFirst_gathered_iff (events : List Value) (f : GeminiFields) :
    RoleFirst (gathered openingAt fieldsAfter f events) ↔ OpensOnce events := by
  induction events generalizing f with
  | nil =>
    constructor
    · rintro ⟨first, rest, hsplit, -⟩
      cases hsplit
    · rintro ⟨event, hfilter, -⟩
      cases hfilter
  | cons event events ih =>
    rw [gathered]
    cases hparts : hasParts event with
    | false =>
      rw [openingAt_of_quiet hparts, nil_append, ih, OpensOnce, OpensOnce,
        filter_cons_of_neg (by rw [hparts]; simp)]
    | true =>
      rw [roleFirst_openingAt_append_iff hparts, roleless_gathered_iff, OpensOnce,
        filter_cons_of_pos hparts]
      constructor
      · rintro ⟨htexts, hnone⟩
        exact ⟨event, by rw [hnone], htexts⟩
      · rintro ⟨other, hsingle, htexts⟩
        rw [List.cons.injEq] at hsingle
        rw [hsingle.1]
        exact ⟨htexts, hsingle.2⟩

/-- With every event in a chunk of its own, each finds the queue empty. -/
theorem served_opening (hsettled : Settled s) (hopen : s.done = false) (events : List Value) :
    (served (onEvent List.singleton) s (events.map List.singleton)).1 =
      s.pending ++ gathered openingAt fieldsAfter s.fields (upToFirst endsStream events) := by
  induction events generalizing s with
  | nil => simp [served, upToFirst, gathered]
  | cons event events ih =>
    have hpending : (onEvent List.singleton s.drained event).pending = openingAt s.fields event :=
      onEvent_pending s.drained event
    have hdone : (onEvent List.singleton s.drained event).done = endsStream event := by
      rw [onEvent_done event (settled_drained hsettled), drained_done, hopen,
        Bool.false_or]
    have hnext := settled_onEvent event (settled_drained hsettled)
    have hfold : (List.singleton event).foldl (onEvent List.singleton) s.drained =
        onEvent List.singleton s.drained event := rfl
    rw [map_cons, served_cons hopen, upToFirst, gathered, hfold]
    cases hends : endsStream event with
    | true =>
      rw [hends] at hdone
      rw [served_done hdone, hpending, if_pos rfl, gathered, append_nil]
    | false =>
      rw [hends] at hdone
      rw [ih hnext hdone, hpending, onEvent_fields]
      rfl

theorem served_once {before after : List Value}
    (hflatten : batches.flatten = before ++ event :: after)
    (hbefore : ∀ other ∈ before, hasParts other = false)
    (hafter : ∀ other ∈ after, hasParts other = false) (hsettled : Settled s)
    (hempty : s.pending = []) (hopen : s.done = false) :
    served (onEvent List.singleton) s batches =
      (openingAt (before.foldl fieldsAfter s.fields) event, endsStream event) := by
  induction batches generalizing s before with
  | nil => exact absurd hflatten.symm (by simp)
  | cons batch batches ih =>
    -- A batch of events without parts only moves the fields.
    have hlater : ∀ rest, before = batch ++ rest → batches.flatten = rest ++ event :: after →
        served (onEvent List.singleton) s (batch :: batches) =
          (openingAt (before.foldl fieldsAfter s.fields) event, endsStream event) := by
      rintro rest rfl hrest
      rw [forall_mem_append] at hbefore
      have hsettledNext : Settled (batch.foldl (onEvent List.singleton) s.drained) :=
        (closingReads.foldl batch (settled_drained hsettled)).1
      rw [foldl_quiet hbefore.1] at hsettledNext
      have hnext := ih hrest hbefore.2 hsettledNext rfl hopen
      rw [served_cons hopen, foldl_quiet hbefore.1, hempty, hnext, foldl_append]
      rfl
    rcases append_eq_append_iff.mp hflatten with
      ⟨rest, hbatch, hrest⟩ | ⟨rest, hbatch, hrest⟩
    · exact hlater rest hbatch hrest
    · cases rest with
      | nil =>
        rw [append_nil] at hbatch
        exact hlater [] (by rw [hbatch, append_nil]) hrest.symm
      | cons first rest =>
        rw [cons_append] at hrest
        obtain ⟨rfl, rfl⟩ := hrest
        rw [forall_mem_append] at hafter
        have hbatchState : batch.foldl (onEvent List.singleton) s.drained =
            { onEvent List.singleton
                { s.drained with fields := before.foldl fieldsAfter s.fields } event with
              fields := rest.foldl fieldsAfter
                (fieldsAfter (before.foldl fieldsAfter s.fields) event) } := by
          rw [hbatch, foldl_append, foldl_cons, foldl_quiet hbefore,
            foldl_quiet hafter.1, onEvent_fields]
          rfl
        have hsettledNext : Settled
            { s.drained with fields := before.foldl fieldsAfter s.fields } := by
          rw [← drained_fields, ← foldl_quiet hbefore]
          exact (closingReads.foldl before (settled_drained hsettled)).1
        rw [served_cons hopen, hempty, hbatchState, served_quiet hafter.2]
        rw [onEvent_pending, onEvent_done event hsettledNext]
        rw [drained_done, hopen]
        rfl

/-! ## Every cut -/

theorem closingsFor_ne_nil (hparts : (candidates.any fun c => (partsOf c).isSome) = true)
    (hreason : f.finishReason.isSome = true) : closingsFor f candidates ≠ [] := by
  induction candidates with
  | nil => cases hparts
  | cons candidate candidates ih =>
    unfold closingsFor
    cases hpart : partsOf candidate with
    | none =>
      rw [any_cons, hpart] at hparts
      exact ih hparts
    | some =>
      have hclosing : closingChunks (noteReason candidate f) ≠ [] := by
        rw [closingChunks, noteReason_finishReason, Option.isSome_or, hreason, Bool.or_true]
        exact cons_ne_nil _ _
      exact append_ne_nil_of_left_ne_nil hclosing _

theorem quiet_of_unclosed (hreason : f.finishReason.isSome = true)
    (hnone : gathered closingsAt fieldsAfter f events = []) : events.filter hasParts = [] := by
  induction events generalizing f with
  | nil => rfl
  | cons event events ih =>
    rw [gathered, append_eq_nil_iff] at hnone
    have hquiet : ¬ hasParts event = true := by
      intro hparts
      exact closingsFor_ne_nil (f := noteUsage event f) hparts hreason hnone.1
    rw [filter_cons_of_neg hquiet]
    apply ih _ hnone.2
    rw [finishReason_fieldsAfter, hreason, Bool.true_or]

theorem opensOnce_of_upToFirst (honce : OpensOnce (upToFirst endsStream events))
    (hsame : gathered closingsAt fieldsAfter f events =
      gathered closingsAt fieldsAfter f (upToFirst endsStream events)) : OpensOnce events := by
  obtain ⟨event, hfilter, htexts⟩ := honce
  obtain ⟨after, hsplit, hfirst⟩ := upToFirst_split endsStream events
  refine ⟨event, ?_, htexts⟩
  by_cases hnil : after = []
  · rw [hnil, append_nil] at hsplit
    rw [hsplit, hfilter]
  -- What comes after a finish reason is read if all is one chunk, and not if each line is one.
  · obtain ⟨front, last, hfront, hlast⟩ := hfirst hnil
    generalize upToFirst endsStream events = worked at hfilter hsplit hsame hfront
    have hreason : (worked.foldl fieldsAfter f).finishReason.isSome = true := by
      rw [finishReason_foldl, hfront, any_append, any_cons, hlast]
      simp
    rw [hsplit, gathered_append, append_right_eq_self] at hsame
    rw [hsplit, filter_append, hfilter, quiet_of_unclosed hreason hsame, append_nil]

section

variable [SerdeJson]

/-- Every cut brings the same events, with one role chunk and that first, exactly
if a single event has parts and no text of it reads `assistant`. -/
theorem relay_opensOnce_iff (hjson : SerdeJson.Lawful) (hback : SerdeJson.ReadsBack)
    (messageId model : Text) (created : UInt64) (bytes : Utf8Bytes.Bytes) :
    ((∀ polls other, Flowing polls → Flowing other → upcoming polls = bytes →
        upcoming other = bytes →
        geminiRelay.collect (.new messageId model created) polls =
          geminiRelay.collect (.new messageId model created) other) ∧
      ∀ polls, Flowing polls → upcoming polls = bytes →
        RoleFirst (chunksSent (geminiRelay.collect (.new messageId model created) polls))) ↔
      OpensOnce (geminiRelay.eventsOf bytes) := by
  have hsettled : Settled (.new (.new messageId model created)) := settled_new _ rfl
  constructor
  · rintro ⟨hsame, hrole⟩
    obtain ⟨-, hlines⟩ := geminiRelay.of_forall_cuts hjson hback (.new messageId model created)
      bytes RoleFirst hrole
    have hchunks := geminiRelay.sent_whole_eq_eventwise hjson hback
      (.new messageId model created) bytes hsame
    have hclosings := congrArg closingsSent hchunks
    rw [closings_sent rfl, closings_sent rfl, workedOff_whole, workedOff_eventwise] at hclosings
    have hopening := served_opening hsettled rfl (geminiRelay.eventsOf bytes)
    change RoleFirst (served (onEvent List.singleton) _ _).1 at hlines
    rw [hopening] at hlines
    exact opensOnce_of_upToFirst ((roleFirst_gathered_iff _ _).mp hlines) hclosings
  · rintro ⟨event, hfilter, htexts⟩
    obtain ⟨before, after, hsplit, hbefore, hparts, hafter⟩ := filter_eq_cons_iff.mp hfilter
    have hsent : ∀ batches : List (List Value), batches.flatten = geminiRelay.eventsOf bytes →
        geminiRelay.sent (.new messageId model created) batches =
          (openingAt (before.foldl fieldsAfter (.new messageId model created)) event,
            endsStream event) := by
      intro batches hflatten
      rw [hsplit] at hflatten
      refine served_once hflatten ?_ ?_ hsettled rfl rfl
      · intro other hother
        exact Bool.eq_false_iff.mpr (hbefore other hother)
      · intro other hother
        exact Bool.eq_false_iff.mpr (filter_eq_nil_iff.mp hafter other hother)
    constructor
    · intro polls other hflowing hother hbytes hbytesOther
      obtain ⟨batches, hflatten, hcollect⟩ := geminiRelay.collect_batches
        (.new messageId model created) hflowing
      obtain ⟨batchesOther, hflattenOther, hcollectOther⟩ := geminiRelay.collect_batches
        (.new messageId model created) hother
      rw [hbytes] at hflatten
      rw [hbytesOther] at hflattenOther
      rw [hcollect, hcollectOther, geminiRelay.output_eq_sent hjson,
        geminiRelay.output_eq_sent hjson, hsent _ hflatten, hsent _ hflattenOther]
    · apply geminiRelay.forall_cuts hjson hback _ _ RoleFirst
      intro batches hflatten
      have hfirst := (roleFirst_openingAt_append_iff hparts
        (before.foldl fieldsAfter (.new messageId model created)) []).mpr
        ⟨htexts, forall_mem_nil _⟩
      rw [append_nil] at hfirst
      rw [hsent batches hflatten]
      exact hfirst

end

section

attribute [local instance] jsonText

def helloEvent : Value := partsEvent [textPart "Hello".toList] none

theorem single_event_opensOnce :
    (∀ polls other, Flowing polls → Flowing other → upcoming polls = eventLines [helloEvent] →
        upcoming other = eventLines [helloEvent] →
        geminiRelay.collect (.new [] "gemini".toList 0) polls =
          geminiRelay.collect (.new [] "gemini".toList 0) other) ∧
      ∀ polls, Flowing polls → upcoming polls = eventLines [helloEvent] →
        RoleFirst (chunksSent (geminiRelay.collect (.new [] "gemini".toList 0) polls)) := by
  have hevents := (cutLines_eventLines jsonText_lawful jsonText_readsBack
    (by decide +kernel : ∀ event ∈ [helloEvent], Sendable event)).2
  refine (relay_opensOnce_iff jsonText_lawful jsonText_readsBack _ _ _ _).mpr ?_
  rw [hevents]
  exact ⟨helloEvent, rfl, by decide⟩

def worldEvent : Value := partsEvent [textPart " world".toList] none

/-- The same bytes in one chunk and in two: the second chunk repeats the role. -/
theorem second_chunk_repeats_role :
    upcoming (groupPolls [[helloEvent, worldEvent]]) =
        upcoming (groupPolls [[helloEvent], [worldEvent]]) ∧
      (chunksSent (geminiRelay.collect (.new [] "gemini".toList 0)
        (groupPolls [[helloEvent, worldEvent]]))).map isRoleChunk = [true, false, false] ∧
      (chunksSent (geminiRelay.collect (.new [] "gemini".toList 0)
        (groupPolls [[helloEvent], [worldEvent]]))).map isRoleChunk =
          [true, false, true, false] := by
  have hsend : ∀ event ∈ [helloEvent, worldEvent], Sendable event := by decide +kernel
  rw [upcoming_groupPolls, upcoming_groupPolls,
    chunksSent_groupPolls jsonText_lawful jsonText_readsBack (by simpa using hsend),
    chunksSent_groupPolls jsonText_lawful jsonText_readsBack (by simpa using hsend)]
  exact ⟨rfl, by decide +kernel, by decide +kernel⟩

end

end GeminiStream

end LlmProxy
