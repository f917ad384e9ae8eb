import LlmProxy.GeminiRole

/-!
# The framing of a Gemini upstream

`gemini.rs` asks for `alt=sse`, so each event arrives as a line `data: ` followed by a JSON object,
and an empty line.  `process_line` parses the whole line.
-/

namespace LlmProxy

open Json (Text Value)
open LineCut List EventRelay
open NormalizingStream (Flowing upcoming)
open Utf8Bytes

theorem trim_append_of_blank {s : Text} {c : Char} (hblank : isWhitespace c = true) :
    trim (s ++ [c]) = trim s := by
  have hstart : trimStart (s ++ [c]) =
      if (trimStart s).isEmpty then [] else trimStart s ++ [c] := by
    rw [trimStart, dropWhile_append, dropWhile_cons_of_pos hblank]
    rfl
  rw [trim, trim, hstart]
  split_ifs with hempty
  · rw [List.isEmpty_iff.mp hempty]
  · rw [rdropWhile_concat_pos _ _ _ hblank]

theorem exists_trim_cons {c : Char} (hvisible : isWhitespace c = false) (s : Text) :
    ∃ rest, trim (c :: s) = c :: rest := by
  have hneg : ¬ isWhitespace c = true := by
    rw [hvisible]
    exact Bool.false_ne_true
  have htrim : trim (c :: s) = (c :: s).rdropWhile isWhitespace := by
    rw [trim, trimStart, dropWhile_cons_of_neg hneg]
  obtain ⟨dropped, hdropped⟩ := rdropWhile_prefix isWhitespace (c :: s)
  rw [htrim]
  cases hkept : (c :: s).rdropWhile isWhitespace with
  | nil => exact absurd (rdropWhile_eq_nil_iff.mp hkept c mem_cons_self) hneg
  | cons d rest =>
    rw [hkept, cons_append, List.cons.injEq] at hdropped
    exact ⟨rest, by rw [hdropped.1]⟩

/-! ## Two framings -/

inductive LineEnd
  | lf
  | crlf
  deriving DecidableEq, Repr

def LineEnd.returns : LineEnd → Text
  | .lf => []
  | .crlf => ['\r']

def lineBytes (ending : LineEnd) (text : Text) : Bytes :=
  toBytes (text ++ ending.returns) ++ [newline]

theorem trimmedLine_returns (ending : LineEnd) (text : Text) :
    trimmedLine (toBytes (text ++ ending.returns)) = trim text := by
  rw [trimmedLine, fromBytes_toBytes, Option.getD_some]
  cases ending with
  | lf => rw [LineEnd.returns, append_nil]
  | crlf => exact trim_append_of_blank (by decide)

namespace GeminiRelay

theorem hasParts_of_not_obj {event : Value} (hobj : ∀ fields, event ≠ .obj fields) :
    hasParts event = false := by
  cases event with
  | obj fields => exact absurd rfl (hobj fields)
  | _ => rfl

variable [SerdeJson]

structure EventText where
  text : Text
  fields : Json.Fields
  oneLine : '\n' ∉ text
  reads : SerdeJson.fromStr (trim text) = some (.obj fields)

def EventText.event (t : EventText) : Value := .obj t.fields

variable (ending : LineEnd) (texts : List EventText)

def bareFraming : Bytes :=
  texts.flatMap fun t => lineBytes ending t.text

def sseFraming : Bytes :=
  texts.flatMap fun t => lineBytes ending ("data: ".toList ++ t.text) ++ lineBytes ending []

theorem eventsOf_lineBytes_append {text : Text} (hone : '\n' ∉ text) (rest : Bytes) :
    geminiRelay.eventsOf (lineBytes ending text ++ rest) =
      (if (trim text).isEmpty then none else SerdeJson.fromStr (trim text)).toList ++
        geminiRelay.eventsOf rest := by
  have hfree : '\n' ∉ text ++ ending.returns := by
    rw [mem_append, not_or]
    refine ⟨hone, ?_⟩
    cases ending with
    | lf => exact not_mem_nil
    | crlf => decide
  have hevent : geminiRelay.eventOfLine (toBytes (text ++ ending.returns)) =
      if (trim text).isEmpty then none else SerdeJson.fromStr (trim text) := by
    rw [EventRelay.eventOfLine, trimmedLine_returns]
    rfl
  rw [lineBytes, EventRelay.eventsOf, cutLines_line_append (isLine_toBytes hfree), map_cons,
    dropLast_concat, filterMap_cons, hevent]
  cases (if (trim text).isEmpty then none else SerdeJson.fromStr (trim text)) with
  | none => rfl
  | some => rfl

theorem eventsOf_bareFraming (hjson : SerdeJson.Lawful) (ending : LineEnd)
    (texts : List EventText) :
    geminiRelay.eventsOf (bareFraming ending texts) = texts.map EventText.event := by
  induction texts with
  | nil => rfl
  | cons t texts ih =>
    have hfull : (trim t.text).isEmpty = false := by
      rw [isEmpty_eq_false_iff]
      intro hnil
      have hhead := hjson.parsesObject _ _ t.reads
      rw [hnil] at hhead
      cases hhead
    rw [bareFraming, flatMap_cons, eventsOf_lineBytes_append ending t.oneLine, hfull, t.reads]
    exact congrArg (t.event :: ·) ih

theorem not_reads_data (hjson : SerdeJson.Lawful) (text : Text) (fields : Json.Fields) :
    SerdeJson.fromStr (trim ("data: ".toList ++ text)) ≠ some (.obj fields) := by
  intro hreads
  obtain ⟨rest, hrest⟩ := exists_trim_cons (c := 'd') (by decide) ("ata: ".toList ++ text)
  have hhead := hjson.parsesObject _ _ hreads
  have hline : "data: ".toList ++ text = 'd' :: ("ata: ".toList ++ text) := rfl
  rw [hline, hrest, trimStart, dropWhile_cons_of_neg (by decide), head?_cons] at hhead
  exact absurd hhead (by decide)

theorem quiet_sseFraming (hjson : SerdeJson.Lawful) (ending : LineEnd) (texts : List EventText) :
    ∀ event ∈ geminiRelay.eventsOf (sseFraming ending texts), hasParts event = false := by
  induction texts with
  | nil =>
    intro event hevent
    cases hevent
  | cons t texts ih =>
    have hfree : '\n' ∉ "data: ".toList ++ t.text := by
      rw [mem_append, not_or]
      exact ⟨by decide, t.oneLine⟩
    intro event hevent
    rw [sseFraming, flatMap_cons, append_assoc, eventsOf_lineBytes_append ending hfree,
      eventsOf_lineBytes_append ending not_mem_nil, mem_append, mem_append] at hevent
    rcases hevent with hline | hblank | hlater
    · apply hasParts_of_not_obj
      rintro fields rfl
      split_ifs at hline
      · cases hline
      · exact not_reads_data hjson _ _ (Option.mem_toList.mp hline)
    · cases hblank
    · exact ih event hlater

end GeminiRelay

namespace GeminiStream

open GeminiRelay

/-! ## Events with parts show -/

variable {s : LineRelay GeminiFields Value}

theorem pending_onEvent_ne_nil {event : Value} (hshown : s.pending ≠ [] ∨ hasParts event = true) :
    (onEvent List.singleton s event).pending ≠ [] := by
  rw [onEvent_pending]
  cases hqueue : s.pending with
  | cons => exact cons_ne_nil _ _
  | nil =>
    have hparts := hshown.resolve_left (not_not.mpr hqueue)
    obtain ⟨g, hopening⟩ := chunksFor_true hparts (noteUsage event s.fields)
    rw [isEmpty_nil, hopening]
    exact cons_ne_nil _ _

theorem pending_foldl_ne_nil {events : List Value}
    (hshown : s.pending ≠ [] ∨ ∃ event ∈ events, hasParts event = true) :
    (events.foldl (onEvent List.singleton) s).pending ≠ [] := by
  induction events generalizing s with
  | nil =>
    rcases hshown with hqueue | ⟨event, hevent, -⟩
    · exact hqueue
    · cases hevent
  | cons event events ih =>
    apply ih
    rcases hshown with hqueue | ⟨other, hother, hparts⟩
    · exact .inl (pending_onEvent_ne_nil (.inl hqueue))
    · rcases mem_cons.mp hother with rfl | hlater
      · exact .inl (pending_onEvent_ne_nil (.inr hparts))
      · exact .inr ⟨other, hlater, hparts⟩

theorem served_ne_nil {batches : List (List Value)} (hopen : s.done = false)
    (hshown : ∃ event ∈ batches.flatten, hasParts event = true) :
    (served (onEvent List.singleton) s batches).1 ≠ [] := by
  induction batches generalizing s with
  | nil =>
    obtain ⟨event, hevent, -⟩ := hshown
    cases hevent
  | cons batch batches ih =>
    obtain ⟨event, hevent, hparts⟩ := hshown
    rw [served_cons hopen]
    apply append_ne_nil_of_right_ne_nil
    by_cases hbatch : ∃ other ∈ batch, hasParts other = true
    · have hqueue := pending_foldl_ne_nil (s := s.drained) (.inr hbatch)
      rw [served_queue]
      exact append_ne_nil_of_left_ne_nil hqueue _
    · have hquiet : ∀ other ∈ batch, hasParts other = false := by
        intro other hother
        rw [Bool.eq_false_iff]
        intro hsome
        exact hbatch ⟨other, hother, hsome⟩
      rw [flatten_cons, mem_append] at hevent
      rw [foldl_quiet hquiet]
      refine ih (s := { s.drained with fields := batch.foldl fieldsAfter s.drained.fields })
        hopen ⟨event, hevent.resolve_left ?_, hparts⟩
      intro hmem
      exact hbatch ⟨event, hmem, hparts⟩

theorem upcoming_item (bytes : Bytes) : upcoming [.item bytes] = bytes :=
  (upcoming_items [bytes]).trans flatten_singleton

section

variable [SerdeJson] {messageId model : Text} {created : UInt64} {polls : List Poll}

theorem collect_of_quiet (hjson : SerdeJson.Lawful) (hflowing : Flowing polls)
    (hquiet : ∀ event ∈ geminiRelay.eventsOf (upcoming polls), hasParts event = false) :
    geminiRelay.collect (.new messageId model created) polls = [doneEvent, doneEvent] := by
  obtain ⟨batches, hflatten, hcollect⟩ := geminiRelay.collect_batches
    (.new messageId model created) hflowing
  rw [← hflatten] at hquiet
  have hsent : geminiRelay.sent (.new messageId model created) batches = ([], false) :=
    served_quiet hquiet _
  rw [hcollect, geminiRelay.output_eq_sent hjson, hsent]
  rfl

theorem collect_ne_of_parts (hjson : SerdeJson.Lawful) (hback : SerdeJson.ReadsBack)
    (hflowing : Flowing polls)
    (hshown : ∃ event ∈ geminiRelay.eventsOf (upcoming polls), hasParts event = true) :
    geminiRelay.collect (.new messageId model created) polls ≠ [doneEvent, doneEvent] := by
  obtain ⟨batches, hflatten, hchunks⟩ := geminiRelay.chunksSent_collect hjson hback
    (.new messageId model created) hflowing
  rw [← hflatten] at hshown
  have hsent : (geminiRelay.sent (.new messageId model created) batches).1 ≠ [] :=
    served_ne_nil rfl hshown
  intro hterminators
  rw [hterminators, chunksSent_terminators hjson] at hchunks
  exact hsent hchunks.symm

/-- Events in the framing of `alt=sse` are relayed as from bare lines exactly if
none of them has parts. -/
theorem sse_like_bare_iff_quiet (hjson : SerdeJson.Lawful) (hback : SerdeJson.ReadsBack)
    (messageId model : Text) (created : UInt64) (texts : List EventText)
    (ending other : LineEnd) {framed bare : List Poll} (hframed : Flowing framed)
    (hbare : Flowing bare) (hframedBytes : upcoming framed = sseFraming ending texts)
    (hbareBytes : upcoming bare = bareFraming other texts) :
    geminiRelay.collect (.new messageId model created) framed =
        geminiRelay.collect (.new messageId model created) bare ↔
      ∀ t ∈ texts, hasParts t.event = false := by
  have hsse : ∀ event ∈ geminiRelay.eventsOf (upcoming framed), hasParts event = false := by
    rw [hframedBytes]
    exact quiet_sseFraming hjson ending texts
  have hevents : geminiRelay.eventsOf (upcoming bare) = texts.map EventText.event := by
    rw [hbareBytes]
    exact eventsOf_bareFraming hjson other texts
  rw [collect_of_quiet hjson hframed hsse]
  constructor
  · intro hsame t ht
    rw [Bool.eq_false_iff]
    intro hparts
    refine collect_ne_of_parts hjson hback hbare ?_ hsame.symm
    rw [hevents]
    exact ⟨t.event, mem_map_of_mem ht, hparts⟩
  · intro hquiet
    refine (collect_of_quiet hjson hbare ?_).symm
    rw [hevents]
    exact forall_mem_map.mpr hquiet

end

section

attribute [local instance] jsonText

def printedText (fields : Json.Fields) (hsend : Sendable (.obj fields)) : EventText where
  text := Json.print (.obj fields)
  fields := fields
  oneLine := (jsonText_lawful.oneLine _ _ rfl).1
  reads := by
    rw [trim_eq_self (jsonText_lawful.printsObject fields _ rfl) (by decide)
      (getLast_print_obj fields) (by decide)]
    exact jsonText_readsBack.reads _ _ hsend.2 rfl

def countsText : EventText :=
  printedText [("usageMetadata", .obj [("promptTokenCount", .num (.int 5))])] (by decide +kernel)

theorem counts_relayed_alike :
    geminiRelay.collect (.new [] "gemini".toList 0) [.item (sseFraming .crlf [countsText])] =
      geminiRelay.collect (.new [] "gemini".toList 0) [.item (bareFraming .lf [countsText])] := by
  refine (sse_like_bare_iff_quiet jsonText_lawful jsonText_readsBack [] "gemini".toList 0
    [countsText] .crlf .lf (flowing_items [_]) (flowing_items [_])
    (upcoming_item _) (upcoming_item _)).mpr ?_
  decide

def helloText : EventText :=
  printedText [("candidates", .arr [.obj [("content", .obj [("parts",
    .arr [textPart "Hello".toList])])]])] (by decide +kernel)

/-- One text event: from bare lines it is relayed, in the framing asked for it is lost. -/
theorem sse_event_lost :
    geminiRelay.collect (.new [] "gemini".toList 0) [.item (sseFraming .crlf [helloText])] =
        [doneEvent, doneEvent] ∧
      geminiRelay.collect (.new [] "gemini".toList 0) [.item (bareFraming .lf [helloText])] ≠
        [doneEvent, doneEvent] := by
  constructor
  · refine collect_of_quiet jsonText_lawful (flowing_items [_]) ?_
    rw [upcoming_item]
    exact quiet_sseFraming jsonText_lawful .crlf [helloText]
  · refine collect_ne_of_parts jsonText_lawful jsonText_readsBack (flowing_items [_]) ?_
    rw [upcoming_item, eventsOf_bareFraming jsonText_lawful]
    exact ⟨helloText.event, mem_singleton_self _, by decide⟩

end

end GeminiStream

end LlmProxy
