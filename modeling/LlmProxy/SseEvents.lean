import LlmProxy.SentChunks

/-!
# Events of the normalised stream

A client reads the stream as events: blank lines separate them, and the data
lines of one event are joined.
-/

namespace LlmProxy

open Json (Text Value Fields)
open LineCut List Option
open NormalizingStream
open Utf8Bytes

/-! ## Decoding -/

def lineContents (bytes : Bytes) : List Bytes :=
  (cutLines newline (closeLine newline bytes)).1.map lineContent

/-- The data lines of the events: blank lines separate events, and an event
without data lines is none. -/
def eventGroups (contents : List Bytes) : List (List Bytes) :=
  ((contents.splitOnP List.isEmpty).map (List.filter isData)).filter fun group => !group.isEmpty

def dataValue (content : Bytes) : Bytes :=
  match content.drop dataField.length with
  | 32 :: value => value
  | value => value

def eventData (group : List Bytes) : Bytes := [newline].intercalate (group.map dataValue)

def sseEvents (bytes : Bytes) : List Bytes := (eventGroups (lineContents bytes)).map eventData

theorem lineContents_append {a : Bytes} (hclosed : (cutLines newline a).2 = []) (b : Bytes) :
    lineContents (a ++ b) = lineContents a ++ lineContents b := by
  unfold lineContents
  rw [closeLine_append hclosed, cutLines_append hclosed, closeLine_of_closed hclosed, map_append]

theorem lineContents_line {line : Bytes} (hline : IsLine newline line) :
    lineContents line = [lineContent line] := by
  have hcut := cutLines_line hline
  have hclosed : (cutLines newline line).2 = [] := by rw [hcut]
  rw [lineContents, closeLine_of_closed hclosed, hcut, map_singleton]

variable {content : Bytes} {text rest : Text}

theorem lineContents_sseLine (hone : '\n' ∉ text) :
    lineContents (sseLine text) = [toBytes (dropEnd '\r' text), []] := by
  have hfirst := isLine_toBytes hone
  have hclosed : (cutLines newline (toBytes text ++ [newline])).2 = [] := by
    rw [cutLines_line hfirst]
  have hblank : lineContents [newline] = [[]] := by decide
  rw [sseLine_eq, lineContents_append hclosed, lineContents_line hfirst, hblank,
    ← newline_single.toBytes_concat, lineContent_toBytes, dropEnd_concat_self, singleton_append]

section

variable (hdata : isData content = true)

include hdata

theorem isEmpty_of_isData : content.isEmpty = false := by
  cases content with
  | nil => exact absurd hdata (by decide)
  | cons => rfl

theorem eventGroups_closed (contents : List Bytes) :
    eventGroups (content :: [] :: contents) = [content] :: eventGroups contents := by
  have hfirst : (content :: [] :: contents).splitOnP List.isEmpty =
      [content] :: contents.splitOnP List.isEmpty :=
    splitOnP_append_cons_of_forall_mem
      (forall_mem_singleton.mpr (isEmpty_of_isData hdata)) [] rfl contents
  rw [eventGroups, hfirst, map_cons, filter_cons_of_pos hdata, filter_nil,
    filter_cons_of_pos rfl, eventGroups]

theorem eventGroups_single : eventGroups [content] = [[content]] := by
  have hsingle : [content].splitOnP List.isEmpty = [[content]] :=
    splitOnP_eq_singleton (forall_mem_singleton.mpr (isEmpty_of_isData hdata))
  rw [eventGroups, hsingle, map_singleton, filter_cons_of_pos hdata, filter_nil,
    filter_cons_of_pos rfl, filter_nil]

theorem length_eventGroups_join {next : Bytes} (hnext : isData next = true) (contents : List Bytes)
    :
    (eventGroups (content :: next :: contents)).length =
      (eventGroups (next :: contents)).length := by
  obtain ⟨group, groups, hsplit⟩ :=
    exists_cons_of_ne_nil (splitOnP_ne_nil List.isEmpty contents)
  unfold eventGroups
  rw [splitOnP_cons_eq_if_modifyHead, splitOnP_cons_eq_if_modifyHead,
    isEmpty_of_isData hdata, isEmpty_of_isData hnext, hsplit]
  simp [hnext]

end

/-! ## Items -/

structure SentItem where
  bytes : Bytes
  verbatim : Bool

structure SentItem.WellSent (item : SentItem) : Prop where
  closed : (cutLines newline item.bytes).2 = []
  reads : ∃ content, isData content = true ∧
    lineContents item.bytes = content :: if item.verbatim then [] else [[]]

def VerbatimIsLast (items : List SentItem) : Prop :=
  ∀ before item after, items = before ++ item :: after → item.verbatim = true → after = []

def EventPerItem (items : List SentItem) (bytes : Bytes) : Prop :=
  List.Forall₂ (fun item event => sseEvents item.bytes = [event]) items (sseEvents bytes)

theorem verbatimIsLast_cons_iff (item : SentItem) (items : List SentItem) :
    VerbatimIsLast (item :: items) ↔
      (item.verbatim = true → items = []) ∧ VerbatimIsLast items := by
  constructor
  · intro hlast
    refine ⟨hlast [] item items rfl, ?_⟩
    intro before other after hsplit
    exact hlast (item :: before) other after (by rw [hsplit, cons_append])
  · rintro ⟨hfirst, hrest⟩ before other after hsplit
    cases before with
    | nil =>
      rw [nil_append, List.cons.injEq] at hsplit
      rw [← hsplit.1, ← hsplit.2]
      exact hfirst
    | cons head before =>
      rw [cons_append, List.cons.injEq] at hsplit
      exact hrest before other after hsplit.2

theorem SentItem.WellSent.event {item : SentItem} (hsent : item.WellSent) :
    ∃ content, isData content = true ∧ sseEvents item.bytes = [eventData [content]] ∧
      lineContents item.bytes = content :: if item.verbatim then [] else [[]] := by
  obtain ⟨content, hdata, hreads⟩ := hsent.reads
  refine ⟨content, hdata, ?_, hreads⟩
  rw [sseEvents, hreads]
  cases item.verbatim with
  | true =>
    rw [if_pos rfl, eventGroups_single hdata]
    rfl
  | false =>
    rw [if_neg Bool.false_ne_true, eventGroups_closed hdata]
    rfl

section

variable {items : List SentItem} (hsent : ∀ item ∈ items, item.WellSent)

include hsent

theorem lineContents_items :
    lineContents (items.flatMap SentItem.bytes) =
      items.flatMap fun item => lineContents item.bytes := by
  induction items with
  | nil => rfl
  | cons item items ih =>
    rw [forall_mem_cons] at hsent
    rw [flatMap_cons, lineContents_append hsent.1.closed, ih hsent.2, flatMap_cons]

theorem length_eventGroups :
    (eventGroups (items.flatMap fun item => lineContents item.bytes)).length ≤ items.length ∧
      ((eventGroups (items.flatMap fun item => lineContents item.bytes)).length = items.length →
        VerbatimIsLast items) := by
  induction items with
  | nil =>
    refine ⟨le_refl _, ?_⟩
    intro _ before item after hsplit
    exact absurd hsplit.symm (by simp)
  | cons item items ih =>
    rw [forall_mem_cons] at hsent
    obtain ⟨content, hdata, hreads⟩ := hsent.1.reads
    obtain ⟨hle, hlast⟩ := ih hsent.2
    rw [flatMap_cons, hreads, length_cons, verbatimIsLast_cons_iff]
    cases hverbatim : item.verbatim with
    | false =>
      rw [if_neg Bool.false_ne_true, cons_append, singleton_append,
        eventGroups_closed hdata, length_cons]
      refine ⟨by omega, ?_⟩
      intro hlength
      exact ⟨fun htrue => absurd htrue Bool.false_ne_true, hlast (by omega)⟩
    | true =>
      rw [if_pos rfl, cons_append, nil_append]
      cases items with
      | nil =>
        rw [flatMap_nil, eventGroups_single hdata]
        exact ⟨le_refl _, fun _ => ⟨fun _ => rfl, hlast rfl⟩⟩
      | cons next items =>
        -- The line joins the next item: there are no more events than without it.
        obtain ⟨first, hfirst, hnext⟩ := (hsent.2 next mem_cons_self).reads
        rw [flatMap_cons, hnext, cons_append] at hle ⊢
        rw [length_eventGroups_join hdata hfirst]
        exact ⟨by omega, fun hlength => by omega⟩

theorem eventPerItem_of_verbatimIsLast (hlast : VerbatimIsLast items) :
    List.Forall₂ (fun item event => sseEvents item.bytes = [event]) items
      ((eventGroups (items.flatMap fun item => lineContents item.bytes)).map eventData) := by
  induction items with
  | nil => exact .nil
  | cons item items ih =>
    rw [forall_mem_cons] at hsent
    rw [verbatimIsLast_cons_iff] at hlast
    obtain ⟨content, hdata, hevent, hreads⟩ := hsent.1.event
    rw [flatMap_cons, hreads]
    cases hverbatim : item.verbatim with
    | false =>
      rw [if_neg Bool.false_ne_true, cons_append, singleton_append, eventGroups_closed hdata]
      exact .cons hevent (ih hsent.2 hlast.2)
    | true =>
      rw [hlast.1 hverbatim, if_pos rfl, flatMap_nil, append_nil, eventGroups_single hdata]
      exact .cons hevent .nil

theorem eventPerItem_iff :
    EventPerItem items (items.flatMap SentItem.bytes) ↔ VerbatimIsLast items := by
  unfold EventPerItem sseEvents
  rw [lineContents_items hsent]
  constructor
  · intro hevents
    apply (length_eventGroups hsent).2
    rw [hevents.length_eq, length_map]
  · exact eventPerItem_of_verbatimIsLast hsent

end

/-! ## Forms of items -/

theorem wellSent_doneEvent : SentItem.WellSent ⟨doneEvent, false⟩ :=
  ⟨by decide, utf8 "data: [DONE]", by decide, by decide⟩

theorem wellSent_sseLine (hone : '\n' ∉ dataField ++ rest) :
    SentItem.WellSent ⟨sseLine (dataField ++ rest), false⟩ := by
  refine ⟨cutLines_sseLine hone, _, ?_, lineContents_sseLine hone⟩
  rw [dropEnd_data, isData_toBytes]
  exact prefix_append _ _

theorem wellSent_line {line : Bytes} (hline : IsLine newline line)
    (hdata : isData (lineContent line) = true) : SentItem.WellSent ⟨line, true⟩ := by
  refine ⟨?_, lineContent line, hdata, lineContents_line hline⟩
  rw [cutLines_line hline]

section

variable [SerdeJson]

/-- Whether a line that is sent is sent as it is: it is not UTF-8, or its payload
is the text of its own rewritten chunk. -/
def keepsLine (n : LineNormaliser) (line : Bytes) : Bool :=
  match fromBytes line with
  | none => true
  | some text =>
    match (dropEnd '\r' (dropEnd '\n' text)).dropPrefix? dataField with
    | none => false
    | some rest =>
      match SerdeJson.fromStr (trimStart rest) with
      | some (.obj fields) =>
        match rewriteChunkValue n.acc (.obj fields) with
        | some (chunk, _, _) => SerdeJson.toString chunk = some (trimStart rest)
        | none => false
      | _ => false

def sentItems (n : LineNormaliser) : List Bytes → Option (List SentItem × LineNormaliser)
  | [] => some ([], n)
  | line :: rest =>
    match transformLine n line with
    | none => none
    | some (out, next) =>
      (sentItems next rest).map fun result =>
        ((out.map fun bytes => ⟨bytes, keepsLine n line⟩).toList ++ result.1, result.2)

def flushItems (n : LineNormaliser) : List SentItem :=
  (if n.acc.pending.isEmpty then []
    else [⟨drainedChunk n.acc.pending (flushesAsReasoning n.acc), false⟩]) ++
  (if n.seenDone then [] else [⟨doneEvent, false⟩])

def streamItems (bytes : Bytes) : Option (List SentItem) :=
  (sentItems .new (cutLines newline (closeLine newline bytes)).1).map fun result =>
    result.1 ++ flushItems result.2

variable {line : Bytes} {n : LineNormaliser}

theorem keepsLine_data (hfrom : fromBytes line = some text)
    (hdrop : (dropEnd '\r' (dropEnd '\n' text)).dropPrefix? dataField = some rest)
    (n : LineNormaliser) :
    keepsLine n line =
      match SerdeJson.fromStr (trimStart rest) with
      | some (.obj fields) =>
        match rewriteChunkValue n.acc (.obj fields) with
        | some (chunk, _, _) => SerdeJson.toString chunk = some (trimStart rest)
        | none => false
      | _ => false := by
  rw [keepsLine, hfrom]
  dsimp only
  rw [hdrop]

section

variable (hjson : SerdeJson.Lawful)

include hjson

theorem wellSent_dataEvent {fields : Fields} {s : Text}
    (hprint : SerdeJson.toString (.obj fields) = some s) :
    SentItem.WellSent ⟨dataEvent s, false⟩ := by
  obtain ⟨hnewline, -⟩ := hjson.oneLine _ _ hprint
  have hfree : '\n' ∉ dataField ++ ' ' :: s := by
    rw [mem_append, not_or, mem_cons, not_or]
    exact ⟨by decide, by decide, hnewline⟩
  have hevent : dataEvent s = sseLine (dataField ++ ' ' :: s) := dataEvent_eq s
  rw [hevent]
  refine ⟨cutLines_sseLine hfree, _, ?_, lineContents_sseLine hfree⟩
  rw [dropEnd_data, isData_toBytes]
  exact prefix_append _ _

theorem wellSent_forwardedLine {payload : Text} {chunk : Fields} (hline : IsLine newline line)
    (hdata : isData (lineContent line) = true) :
    SentItem.WellSent ⟨forwardedLine line payload (.obj chunk),
      decide (SerdeJson.toString (.obj chunk) = some payload)⟩ := by
  obtain ⟨s, hprint⟩ := hjson.prints (.obj chunk)
  unfold forwardedLine
  rw [hprint]
  dsimp only
  by_cases hsame : s = payload
  · rw [if_neg (not_not.mpr hsame), hsame, decide_eq_true rfl]
    exact wellSent_line hline hdata
  · rw [if_pos hsame, decide_eq_false (by simpa using hsame)]
    exact wellSent_dataEvent hjson hprint

theorem wellSent_transformPayload {next : LineNormaliser} {out : Bytes}
    (hline : IsLine newline line) (hdata : isData (lineContent line) = true)
    (hfrom : fromBytes line = some text)
    (hdrop : (dropEnd '\r' (dropEnd '\n' text)).dropPrefix? dataField = some rest)
    (hone : '\n' ∉ dataField ++ rest)
    (hstep : transformPayload n line (dataField ++ rest) (trimStart rest) = some (some out, next)) :
    SentItem.WellSent ⟨out, keepsLine n line⟩ := by
  rw [keepsLine_data hfrom hdrop]
  rcases transformPayload_path hstep with
    ⟨hdone, hout, -⟩ | ⟨fields, chunk, emit, acc, hparse, -, hrewrite, hout, -⟩ |
      ⟨hother, -, hout, -⟩
  · cases hout
    rw [hdone]
    split
    · rename_i fields hparse
      exact absurd (hjson.parsesObject _ _ hparse) (by decide)
    · exact wellSent_doneEvent
  · obtain ⟨rewritten, rfl⟩ := rewriteChunkValue_obj hrewrite
    rw [hparse]
    dsimp only
    rw [hrewrite]
    cases emit with
    | false => cases hout
    | true =>
      cases hout
      exact wellSent_forwardedLine hjson hline hdata
  · cases hout
    split
    · rename_i fields hparse
      exact absurd hparse (hother fields)
    · exact wellSent_sseLine hone

theorem wellSent_transformLine {next : LineNormaliser} {out : Bytes} (hline : IsLine newline line)
    (hdata : isData (lineContent line) = true ∨ lineContent line = [])
    (hstep : transformLine n line = some (some out, next)) :
    SentItem.WellSent ⟨out, keepsLine n line⟩ := by
  unfold transformLine at hstep
  cases hfrom : fromBytes line with
  | none =>
    have hfull : lineContent line ≠ [] := by
      intro hblank
      have hinvalid : fromBytes (lineContent line) = none :=
        carriageReturn_single.fromBytes_dropEnd (newline_single.fromBytes_dropEnd hfrom)
      rw [hblank] at hinvalid
      cases hinvalid
    rw [hfrom] at hstep
    cases hstep
    rw [keepsLine, hfrom]
    exact wellSent_line hline (hdata.resolve_right hfull)
  | some text =>
    obtain ⟨hcontent, hone⟩ := lineContent_of_text hline hfrom
    rw [hfrom] at hstep
    dsimp only at hstep
    split_ifs at hstep with hempty
    · cases hstep
    · have hfull : lineContent line ≠ [] := by
        rw [hcontent]
        intro hnil
        exact hempty (List.isEmpty_iff.mpr (toBytes_injective (b := []) hnil))
      have hisData := hdata.resolve_right hfull
      obtain ⟨rest, hrest⟩ : dataField <+: dropEnd '\r' (dropEnd '\n' text) := by
        rw [hcontent, isData_toBytes] at hisData
        exact hisData
      have hdrop : (dropEnd '\r' (dropEnd '\n' text)).dropPrefix? dataField = some rest := by
        rw [← hrest, dropPrefix_append]
      rw [hdrop, ← hrest] at hstep
      rw [← hrest] at hone
      exact wellSent_transformPayload hjson hline hisData hfrom hdrop hone hstep

theorem sentItems_spec (hsettled : n.acc.Settled) {lines : List Bytes}
    (hlines : ∀ line ∈ lines, IsLine newline line)
    (hdata : ∀ line ∈ lines, isData (lineContent line) = true ∨ lineContent line = []) :
    ∃ items next, sentItems n lines = some (items, next) ∧
      transformLines n lines = some (items.flatMap SentItem.bytes, next) ∧
      ∀ item ∈ items, item.WellSent := by
  induction lines generalizing n with
  | nil => exact ⟨[], n, rfl, rfl, forall_mem_nil _⟩
  | cons line lines ih =>
    rw [forall_mem_cons] at hlines hdata
    obtain ⟨out, mid, hstep, hmid⟩ := transformLine_settled hsettled line
    obtain ⟨items, next, hitems, hout, hsent⟩ := ih hmid hlines.2 hdata.2
    refine ⟨(out.map fun bytes => ⟨bytes, keepsLine n line⟩).toList ++ items, next, ?_, ?_, ?_⟩
    · rw [sentItems, hstep]
      dsimp only
      rw [hitems, map_some]
    · rw [transformLines, hstep]
      dsimp only
      rw [hout]
      cases out with
      | none => rfl
      | some => simp
    · rw [forall_mem_append]
      refine ⟨?_, hsent⟩
      cases out with
      | none => exact forall_mem_nil _
      | some =>
        exact forall_mem_singleton.mpr
          (wellSent_transformLine hjson hlines.1 hdata.1 hstep)

theorem flushItems_spec (n : LineNormaliser) :
    (flushItems n).flatMap SentItem.bytes = (flushEof n).1.getD [] ∧
      ∀ item ∈ flushItems n, item.WellSent := by
  have hflush : (flushEof n).1 =
      assembleDrained n.acc.pending (flushesAsReasoning n.acc) n.seenDone := rfl
  obtain ⟨s, hprint⟩ := hjson.prints (flushedChunk n.acc.pending (flushesAsReasoning n.acc))
  have hchunk : ∀ pending, ¬ pending.isEmpty = true → pending = n.acc.pending →
      drainedChunk pending (flushesAsReasoning n.acc) = dataEvent s := by
    rintro pending hfull rfl
    rw [drainedChunk, if_neg hfull, hprint]
  rw [hflush, getD_assembleDrained]
  unfold flushItems
  constructor
  · rw [flatMap_append]
    congr 1
    · split_ifs with hempty
      · rw [drainedChunk, if_pos hempty]
        rfl
      · simp
    · split_ifs
      · rfl
      · simp
  · rw [forall_mem_append]
    constructor
    · split_ifs with hempty
      · exact forall_mem_nil _
      · rw [hchunk _ hempty rfl]
        exact forall_mem_singleton.mpr (wellSent_dataEvent hjson hprint)
    · split_ifs
      · exact forall_mem_nil _
      · exact forall_mem_singleton.mpr wellSent_doneEvent

end

/-- For an upstream of data lines, with or without blank lines, a client reads one
event for each item exactly if no line is passed on as it was, except at the very
end. -/
theorem stream_eventPerItem_iff (hjson : SerdeJson.Lawful) {events : List Poll}
    (hflowing : Flowing events)
    (hdata : ∀ content ∈ lineContents (upcoming events), isData content = true ∨ content = []) :
    ∃ outs items, collect (events ++ [.finished]) = some outs ∧
      streamItems (upcoming events) = some items ∧
      items.flatMap SentItem.bytes = outs.flatten ∧
      (EventPerItem items outs.flatten ↔ VerbatimIsLast items) := by
  have hsettled : LineNormaliser.new.acc.Settled := ThinkTagAccumulator.settled_new
  obtain ⟨outs, hcollect, hnormalised⟩ := collect_eq_normalised hflowing
  obtain ⟨items, next, hitems, hlines, hsent⟩ := sentItems_spec hjson hsettled
    (isLine_of_mem_cutLines (closeLine newline (upcoming events)))
    (List.forall_mem_map.mp hdata)
  obtain ⟨hflush, hsentFlush⟩ := flushItems_spec hjson next
  have hbytes : (items ++ flushItems next).flatMap SentItem.bytes = outs.flatten := by
    rw [normalised, hlines, map_some, some_inj] at hnormalised
    rw [flatMap_append, hflush, hnormalised]
  refine ⟨outs, items ++ flushItems next, hcollect, ?_, hbytes, ?_⟩
  · rw [streamItems, hitems, map_some]
  · rw [← hbytes]
    exact eventPerItem_iff (forall_mem_append.mpr ⟨hsent, hsentFlush⟩)

end

section

attribute [local instance] jsonText

def compactPayload : String :=
  "\x7b\"choices\":[\x7b\"delta\":\x7b\"content\":\"Hi\"\x7d,\"index\":0\x7d]\x7d"

def spacedPayload : String :=
  "\x7b\"choices\": [\x7b\"delta\":\x7b\"content\":\"Hi\"\x7d,\"index\":0\x7d]\x7d"

def chunkLines (payload : String) : Bytes := utf8 ("data: " ++ payload ++ "\n\n")

def spacedBytes : Bytes := chunkLines spacedPayload ++ chunkLines spacedPayload

theorem spaced_chunks_eventPerItem :
    ∃ outs items, collect ([.item spacedBytes] ++ [.finished]) = some outs ∧
      streamItems (upcoming [.item spacedBytes]) = some items ∧
      items.map SentItem.verbatim = [false, false, false] ∧
      EventPerItem items outs.flatten := by
  obtain ⟨outs, items, hcollect, hitems, -, hevents⟩ := stream_eventPerItem_iff jsonText_lawful
    (flowing_item spacedBytes) (by decide +kernel)
  have hverbatim : (streamItems (upcoming [.item spacedBytes])).map (List.map SentItem.verbatim) =
      some [false, false, false] := by decide +kernel
  rw [hitems, map_some, some_inj] at hverbatim
  refine ⟨outs, items, hcollect, hitems, hverbatim, hevents.mpr ?_⟩
  rintro before item after rfl hkept
  have hmem : item.verbatim ∈ [false, false, false] := by
    rw [← hverbatim]
    exact List.mem_map_of_mem (by simp)
  rw [hkept] at hmem
  exact absurd hmem (by decide)

/-- Two chunks in compact text are read as one event. -/
theorem compact_chunks_merged :
    collect ([.item (chunkLines compactPayload ++ chunkLines compactPayload)] ++ [.finished]) =
        some [utf8 ("data: " ++ compactPayload ++ "\n"), utf8 ("data: " ++ compactPayload ++ "\n"),
          doneEvent] ∧
      sseEvents (utf8 ("data: " ++ compactPayload ++ "\n") ++
          utf8 ("data: " ++ compactPayload ++ "\n") ++ doneEvent) =
        [utf8 (compactPayload ++ "\n" ++ compactPayload ++ "\n[DONE]")] := by
  constructor
  · decide +kernel
  · decide +kernel

end

end LlmProxy
