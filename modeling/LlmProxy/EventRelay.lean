import LlmProxy.BatchRun
import LlmProxy.SentChunks

/-!
# Relays of events

A line of the upstream is an event, or nothing: `readEvent` says which.  An event changes the fields
of the relay and puts payloads into its queue.
-/

namespace LlmProxy

open Json (Text Value)
open LineCut List
open NormalizingStream (Flowing upcoming)
open Utf8Bytes

/-- A relay given by its events.  Printing the queue commutes with a step, and
only plain objects are queued. -/
structure EventRelay (Fields : Type) where
  readEvent : Text → Option Value
  onEvent : {Item : Type} → (Value → List Item) → LineRelay Fields Item → Value →
    LineRelay Fields Item
  onEvent_map : ∀ {Item : Type} {emit : Value → List Item}, (∀ payload, emit payload ≠ []) →
    ∀ s event, onEvent emit (s.mapQueue emit) event =
      (onEvent List.singleton s event).mapQueue emit
  onEvent_sendable : ∀ s event, (∀ payload ∈ s.pending, Sendable payload) →
    ∀ payload ∈ (onEvent List.singleton s event).pending, Sendable payload

namespace EventRelay

variable {Fields : Type} (R : EventRelay Fields)

def eventOfLine (line : Bytes) : Option Value :=
  if (trimmedLine line).isEmpty then none else R.readEvent (trimmedLine line)

def eventsOf (bytes : Bytes) : List Value :=
  ((cutLines newline bytes).1.map List.dropLast).filterMap R.eventOfLine

def sent (fields : Fields) (batches : List (List Value)) : List Value × Bool :=
  served (R.onEvent List.singleton) (.new fields) batches

def batchesOf (buffer : Bytes) : List Bytes → List (List Value)
  | [] => []
  | chunk :: chunks =>
    R.eventsOf (buffer ++ chunk) :: batchesOf (cutLines newline (buffer ++ chunk)).2 chunks

theorem flatten_batchesOf (chunks : List Bytes) {buffer : Bytes} (hfree : newline ∉ buffer) :
    (R.batchesOf buffer chunks).flatten = R.eventsOf (buffer ++ chunks.flatten) := by
  induction chunks generalizing buffer with
  | nil =>
    rw [batchesOf, flatten_nil, flatten_nil, append_nil, eventsOf, cutLines_of_not_mem hfree]
    rfl
  | cons chunk chunks ih =>
    rw [batchesOf, flatten_cons, ih (not_mem_rest _), flatten_cons, ← append_assoc]
    unfold eventsOf
    rw [cutLines_rest_append (buffer ++ chunk), map_append, filterMap_append]

variable {polls : List Poll}

theorem flatten_chunksOf (hflowing : Flowing polls) :
    (StreamRelay.chunksOf polls).flatten = upcoming polls := by
  induction polls with
  | nil => rfl
  | cons poll polls ih =>
    have hrest := ih fun other hother => hflowing other (mem_cons_of_mem _ hother)
    rcases hflowing poll mem_cons_self with ⟨bytes, rfl⟩ | rfl
    · exact congrArg (bytes ++ ·) hrest
    · exact hrest

variable (chunks : List Bytes)

theorem flowing_items : Flowing (chunks.map Poll.item) := by
  intro poll hpoll
  obtain ⟨bytes, -, rfl⟩ := mem_map.mp hpoll
  exact .inl ⟨bytes, rfl⟩

theorem chunksOf_items : StreamRelay.chunksOf (chunks.map Poll.item) = chunks := by
  induction chunks with
  | nil => rfl
  | cons chunk chunks ih => exact congrArg (chunk :: ·) ih

theorem upcoming_items : upcoming (chunks.map Poll.item) = chunks.flatten := by
  rw [← flatten_chunksOf (flowing_items chunks), chunksOf_items]

theorem batchesOf_lines {lines : List Bytes} (hlines : ∀ line ∈ lines, IsLine newline line)
    {rest : Bytes} (hfree : newline ∉ rest) :
    (∀ batch ∈ R.batchesOf [] (lines ++ [rest]), batch.length ≤ 1) := by
  induction lines with
  | nil =>
    intro batch hbatch
    have hnone : R.eventsOf rest = [] := by
      rw [eventsOf, cutLines_of_not_mem hfree]
      rfl
    rw [nil_append, batchesOf, nil_append, hnone, batchesOf, mem_singleton] at hbatch
    rw [hbatch]
    exact Nat.zero_le 1
  | cons line lines ih =>
    intro batch hbatch
    have hcut := cutLines_line (hlines line mem_cons_self)
    rw [cons_append, batchesOf, nil_append, hcut] at hbatch
    rcases mem_cons.mp hbatch with rfl | hmem
    · rw [eventsOf, hcut]
      exact length_filterMap_le _ _
    · exact ih (fun other hother => hlines other (mem_cons_of_mem _ hother)) batch hmem

theorem flatten_cutLines (bytes : Bytes) :
    ((cutLines newline bytes).1 ++ [(cutLines newline bytes).2]).flatten = bytes := by
  induction bytes using line_induction newline with
  | hfree s hfree => simp [cutLines_of_not_mem hfree]
  | hline line rest hline ih =>
    rw [cutLines_line_append hline, cons_append, flatten_cons, ih]

theorem sendable_sent (fields : Fields) (batches : List (List Value)) :
    ∀ payload ∈ (R.sent fields batches).1, Sendable payload := by
  apply forall_served R.onEvent_sendable
  intro payload hpayload
  cases hpayload

/-! ## Polls -/

variable [SerdeJson] (s : LineRelay Fields Bytes)

def processLine (line : Text) : LineRelay Fields Bytes :=
  match R.readEvent line with
  | some event => R.onEvent emitted s event
  | none => s

variable (fields : Fields)

def collect (polls : List Poll) : List Bytes :=
  StreamRelay.collect R.processLine (.new fields) (polls ++ [.finished])

def terminators (done : Bool) : List Bytes := if done then [] else [doneEvent, doneEvent]

/-- What the client gets for batches of events. -/
def output (s : LineRelay Fields Bytes) (batches : List (List Value)) : List Bytes :=
  (served (R.onEvent emitted) s batches).1 ++ terminators (served (R.onEvent emitted) s batches).2

theorem feedLine_eq (line : Bytes) :
    feedLine R.processLine s line =
      match R.eventOfLine line with
      | some event => R.onEvent emitted s event
      | none => s := by
  unfold feedLine eventOfLine
  split_ifs with hempty
  · rfl
  · rfl

theorem foldl_feedLine (lines : List Bytes) :
    lines.foldl (feedLine R.processLine) s =
      (lines.filterMap R.eventOfLine).foldl (R.onEvent emitted) s := by
  induction lines generalizing s with
  | nil => rfl
  | cons line lines ih =>
    rw [foldl_cons, ih, feedLine_eq]
    cases hevent : R.eventOfLine line with
    | none => rw [filterMap_cons_none hevent]
    | some => rw [filterMap_cons_some hevent, foldl_cons]

theorem relayed_eq_output (s : RelayState Fields) (chunks : List Bytes) :
    StreamRelay.relayed R.processLine s chunks =
      R.output s.toLineRelay (R.batchesOf s.buffer chunks) := by
  unfold output
  induction chunks generalizing s with
  | nil => rfl
  | cons chunk chunks ih =>
    cases hdone : s.done with
    | true =>
      rw [served_done hdone, StreamRelay.relayed, if_pos hdone]
      rfl
    | false =>
      -- The batch of a chunk: the lines it completes, the first with what was buffered.
      have hfed : (feedBytes R.processLine s.drained chunk).toLineRelay =
          (R.eventsOf (s.buffer ++ chunk)).foldl (R.onEvent emitted) s.toLineRelay.drained :=
        R.foldl_feedLine _ _
      have hrest : (feedBytes R.processLine s.drained chunk).buffer =
          (cutLines newline (s.buffer ++ chunk)).2 := rfl
      rw [batchesOf, served_cons hdone, StreamRelay.relayed,
        if_neg (by rw [hdone]; exact Bool.false_ne_true), ih, hfed, hrest, append_assoc]

theorem collect_eq_output (hflowing : Flowing polls) :
    R.collect fields polls =
      R.output (.new fields) (R.batchesOf [] (StreamRelay.chunksOf polls)) := by
  have hrelayed := StreamRelay.collect_eq_relayed R.processLine hflowing (.new fields)
  exact hrelayed.trans (R.relayed_eq_output _ _)

theorem collect_items :
    R.collect fields (chunks.map Poll.item) = R.output (.new fields) (R.batchesOf [] chunks) := by
  rw [R.collect_eq_output fields (flowing_items chunks), chunksOf_items]

theorem collect_batches (hflowing : Flowing polls) :
    ∃ batches, batches.flatten = R.eventsOf (upcoming polls) ∧
      R.collect fields polls = R.output (.new fields) batches := by
  refine ⟨R.batchesOf [] (StreamRelay.chunksOf polls), ?_, R.collect_eq_output fields hflowing⟩
  rw [R.flatten_batchesOf _ not_mem_nil, nil_append, flatten_chunksOf hflowing]

/-! ## Reading what was sent -/

section

variable (hjson : SerdeJson.Lawful)

include hjson

theorem output_eq_sent (fields : Fields) (batches : List (List Value)) :
    R.output (.new fields) batches =
      (R.sent fields batches).1.flatMap emitted ++ terminators (R.sent fields batches).2 := by
  have hserved := served_map (R.onEvent_map (emitted_ne_nil hjson)) (.new fields) batches
  unfold output
  exact congrArg (fun out => out.1 ++ terminators out.2) hserved

variable (hback : SerdeJson.ReadsBack) (fields : Fields)

include hback

theorem chunksSent_output (batches : List (List Value)) :
    chunksSent (R.output (.new fields) batches) = (R.sent fields batches).1 := by
  have hend : ∀ done, chunksSent (terminators done) = [] := by
    intro done
    cases done with
    | true => rfl
    | false => exact chunksSent_terminators hjson
  rw [R.output_eq_sent hjson, chunksSent_emitted hjson hback (R.sendable_sent fields batches), hend,
    append_nil]

theorem chunksSent_collect (hflowing : Flowing polls) :
    ∃ batches, batches.flatten = R.eventsOf (upcoming polls) ∧
      chunksSent (R.collect fields polls) = (R.sent fields batches).1 := by
  obtain ⟨batches, hflatten, hcollect⟩ := R.collect_batches fields hflowing
  refine ⟨batches, hflatten, ?_⟩
  rw [hcollect, R.chunksSent_output hjson hback]

theorem forall_cuts (bytes : Bytes) (P : List Value → Prop)
    (hruns : ∀ batches, batches.flatten = R.eventsOf bytes → P (R.sent fields batches).1) :
    ∀ polls, Flowing polls → upcoming polls = bytes → P (chunksSent (R.collect fields polls)) := by
  intro polls hflowing hbytes
  obtain ⟨batches, hflatten, hsent⟩ := R.chunksSent_collect hjson hback fields hflowing
  rw [hsent]
  apply hruns
  rw [hflatten, hbytes]

/-- What holds for every cut holds with all bytes in one chunk and with each line
in a chunk of its own. -/
theorem of_forall_cuts (bytes : Bytes) (P : List Value → Prop)
    (hcuts : ∀ polls, Flowing polls → upcoming polls = bytes →
      P (chunksSent (R.collect fields polls))) :
    P (R.sent fields [R.eventsOf bytes]).1 ∧
      P (R.sent fields ((R.eventsOf bytes).map List.singleton)).1 := by
  have hcut : ∀ chunks : List Bytes, chunks.flatten = bytes →
      P (R.sent fields (R.batchesOf [] chunks)).1 := by
    intro chunks hchunks
    rw [← R.chunksSent_output hjson hback, ← R.collect_items]
    exact hcuts _ (flowing_items chunks) ((upcoming_items chunks).trans hchunks)
  have hflatten := flatten_cutLines bytes
  have hsmall := R.batchesOf_lines (isLine_of_mem_cutLines bytes) (not_mem_rest bytes)
  have hlines := hcut _ hflatten
  rw [sent, served_eventwise hsmall, R.flatten_batchesOf _ not_mem_nil, nil_append, hflatten]
    at hlines
  exact ⟨hcut [bytes] (flatten_singleton ..), hlines⟩

theorem sent_whole_eq_eventwise (bytes : Bytes)
    (hsame : ∀ polls other, Flowing polls → Flowing other → upcoming polls = bytes →
      upcoming other = bytes → R.collect fields polls = R.collect fields other) :
    (R.sent fields [R.eventsOf bytes]).1 =
      (R.sent fields ((R.eventsOf bytes).map List.singleton)).1 := by
  have hbytes := (upcoming_items [bytes]).trans (flatten_singleton ..)
  obtain ⟨hwhole, hlines⟩ := R.of_forall_cuts hjson hback fields bytes
    (· = chunksSent (R.collect fields ([bytes].map Poll.item))) (by
      intro polls hflowing hupcoming
      rw [hsame polls _ hflowing (flowing_items [bytes]) hupcoming hbytes])
  rw [hwhole, hlines]

end

section

omit [SerdeJson]

def respond (fields : Fields) (event : Value) : LineRelay Fields Value :=
  R.onEvent List.singleton (.new fields) event

def fieldsAfter (fields : Fields) (events : List Value) : Fields :=
  events.foldl (fun fields event => (R.respond fields event).fields) fields

def responses (fields : Fields) : List Value → List Value
  | [] => []
  | event :: events =>
    (R.respond fields event).pending ++ responses (R.respond fields event).fields events

/-- The queue is not looked at: what an event puts there depends on the fields,
and whether it ends the stream on the event alone. -/
def Appends (stops : Value → Bool) : Prop :=
  ∀ {Item : Type} (emit : Value → List Item) (s : LineRelay Fields Item) (event : Value),
    R.onEvent emit s event =
      ⟨(R.respond s.fields event).fields,
        s.pending ++ (R.respond s.fields event).pending.flatMap emit, s.done || stops event⟩

def StopIsLast (stops : Value → Bool) (events : List Value) : Prop :=
  ∀ before stop after, events = before ++ stop :: after → stops stop = true → after = []

variable {stops : Value → Bool} {events : List Value}

theorem StopIsLast.of_cons {event : Value} (hlast : StopIsLast stops (event :: events)) :
    StopIsLast stops events := by
  intro before stop after hsplit hstop
  exact hlast (event :: before) stop after (by rw [hsplit, cons_append]) hstop

theorem stopIsLast_concat (front : List Value) (hfront : ∀ event ∈ front, stops event = false)
    (last : Value) : StopIsLast stops (front ++ [last]) := by
  intro before stop after hsplit hstop
  rcases eq_nil_or_concat' after with rfl | ⟨rest, final, rfl⟩
  · rfl
  · exfalso
    rw [← cons_append, ← append_assoc] at hsplit
    have hmem : stop ∈ front := by
      rw [(append_inj' hsplit rfl).1]
      exact mem_append_right _ mem_cons_self
    rw [hfront stop hmem] at hstop
    cases hstop

theorem StopIsLast.of_append {front : List Value} (hlast : StopIsLast stops (front ++ events)) :
    StopIsLast stops events ∧ (front.any stops = true → events = []) := by
  induction front with
  | nil => exact ⟨hlast, fun hnone => absurd hnone Bool.false_ne_true⟩
  | cons event front ih =>
    obtain ⟨hevents, hstopped⟩ := ih hlast.of_cons
    refine ⟨hevents, ?_⟩
    intro hany
    rw [any_cons, Bool.or_eq_true] at hany
    rcases hany with hstop | hlater
    · have hnil := hlast [] event (front ++ events) rfl hstop
      exact (append_eq_nil_iff.mp hnil).2
    · exact hstopped hlater

theorem responses_append (fields : Fields) (front events : List Value) :
    R.responses fields (front ++ events) =
      R.responses fields front ++ R.responses (R.fieldsAfter fields front) events := by
  induction front generalizing fields with
  | nil => rfl
  | cons event front ih =>
    rw [cons_append, responses, ih, responses, append_assoc]
    rfl

variable {R} {stops : Value → Bool} {Item : Type}

variable {batches : List (List Value)}

section

variable (happends : R.Appends stops)

include happends

theorem Appends.foldl (emit : Value → List Item) (events : List Value) (s : LineRelay Fields Item) :
    events.foldl (R.onEvent emit) s =
      ⟨R.fieldsAfter s.fields events, s.pending ++ (R.responses s.fields events).flatMap emit,
        s.done || events.any stops⟩ := by
  induction events generalizing s with
  | nil => simp [fieldsAfter, responses]
  | cons event events ih =>
    rw [foldl_cons, happends, ih]
    simp [fieldsAfter, responses, Bool.or_assoc]

theorem Appends.served_eq (emit : Value → List Item) (hlast : StopIsLast stops batches.flatten)
    {s : LineRelay Fields Item} (hdone : s.done = true → batches.flatten = []) :
    served (R.onEvent emit) s batches =
      (s.pending ++ (R.responses s.fields batches.flatten).flatMap emit,
        s.done || batches.flatten.any stops) := by
  induction batches generalizing s with
  | nil => simp [served, responses]
  | cons batch batches ih =>
    rw [flatten_cons] at hlast hdone ⊢
    cases hopen : s.done with
    | true =>
      rw [served_done hopen, hdone hopen]
      simp [responses]
    | false =>
      obtain ⟨hrest, hstopped⟩ := hlast.of_append
      rw [served_cons hopen, happends.foldl, ih hrest ?_, responses_append]
      · simp [hopen]
      · intro hbatch
        apply hstopped
        simpa [hopen] using hbatch

theorem Appends.sent_eq (fields : Fields) (hlast : StopIsLast stops batches.flatten) :
    R.sent fields batches = (R.responses fields batches.flatten, batches.flatten.any stops) := by
  have hself : ∀ payloads : List Value, payloads.flatMap List.singleton = payloads :=
    flatMap_singleton'
  have hserved := happends.served_eq List.singleton hlast (s := .new fields)
    (fun hdone => absurd hdone Bool.false_ne_true)
  rw [hself] at hserved
  exact hserved

theorem Appends.sendable_responses (fields : Fields) (hlast : StopIsLast stops events) :
    ∀ payload ∈ R.responses fields events, Sendable payload := by
  have hsend := R.sendable_sent fields [events]
  rw [happends.sent_eq fields (by simpa using hlast)] at hsend
  simpa using hsend

end

end

variable {stops : Value → Bool} {R : EventRelay Fields}

theorem Appends.collect_eq (happends : R.Appends stops) (fields : Fields) (hflowing : Flowing polls)
    (hlast : StopIsLast stops (R.eventsOf (upcoming polls))) :
    R.collect fields polls =
      (R.responses fields (R.eventsOf (upcoming polls))).flatMap emitted ++
        terminators ((R.eventsOf (upcoming polls)).any stops) := by
  obtain ⟨batches, hflatten, hcollect⟩ := R.collect_batches fields hflowing
  rw [← hflatten] at hlast ⊢
  rw [hcollect, output,
    happends.served_eq emitted hlast (fun hdone => absurd hdone Bool.false_ne_true)]
  rfl

theorem Appends.chunksSent_collect (happends : R.Appends stops) (hjson : SerdeJson.Lawful)
    (hback : SerdeJson.ReadsBack) (fields : Fields) (hflowing : Flowing polls)
    (hlast : StopIsLast stops (R.eventsOf (upcoming polls))) :
    chunksSent (R.collect fields polls) = R.responses fields (R.eventsOf (upcoming polls)) := by
  obtain ⟨batches, hflatten, hsent⟩ := R.chunksSent_collect hjson hback fields hflowing
  rw [← hflatten] at hlast ⊢
  rw [hsent, happends.sent_eq fields hlast]

end EventRelay

end LlmProxy
