import LlmProxy.StreamRelay

/-!
# Events in batches

A chunk of the upstream brings a batch of events; the queue is sent before the next chunk is read,
and nothing is read once the relay is done.  How the upstream was cut shows only through them.
-/

namespace LlmProxy

open Json (Value)
open List LineRelay

namespace LineRelay

variable {Fields Item : Type}

def new (fields : Fields) : LineRelay Fields Item where
  fields := fields
  pending := []
  done := false

variable (s : LineRelay Fields Item)

def drained : LineRelay Fields Item := { s with pending := [] }

variable (emit : Value → List Item)

def push (payload : Value) (s : LineRelay Fields Item) : LineRelay Fields Item :=
  { s with pending := s.pending ++ emit payload }

def mapQueue (s : LineRelay Fields Value) : LineRelay Fields Item where
  fields := s.fields
  pending := s.pending.flatMap emit
  done := s.done

@[simp] theorem drained_pending : s.drained.pending = [] := rfl

@[simp] theorem drained_done : s.drained.done = s.done := rfl

@[simp] theorem drained_fields : s.drained.fields = s.fields := rfl

@[simp] theorem mapQueue_fields (s : LineRelay Fields Value) :
    (s.mapQueue emit).fields = s.fields := rfl

@[simp] theorem mapQueue_pending (s : LineRelay Fields Value) :
    (s.mapQueue emit).pending = s.pending.flatMap emit := rfl

theorem push_mapQueue (payload : Value) (s : LineRelay Fields Value) :
    (s.mapQueue emit).push emit payload = (s.push List.singleton payload).mapQueue emit := by
  simp [push, mapQueue, List.singleton]

end LineRelay

section

variable {Fields Item : Type}
  (step : LineRelay Fields Item → Value → LineRelay Fields Item)

def served (s : LineRelay Fields Item) : List (List Value) → List Item × Bool
  | [] => (s.pending, s.done)
  | batch :: batches =>
    if s.done then (s.pending, true)
    else
      let more := served (batch.foldl step s.drained) batches
      (s.pending ++ more.1, more.2)

variable {step} {s : LineRelay Fields Item}

theorem served_done (hdone : s.done = true) (batches : List (List Value)) :
    served step s batches = (s.pending, true) := by
  cases batches with
  | nil => rw [served, hdone]
  | cons => rw [served, if_pos hdone]

theorem served_cons (hopen : s.done = false) (batch : List Value) (batches : List (List Value)) :
    served step s (batch :: batches) =
      (s.pending ++ (served step (batch.foldl step s.drained) batches).1,
        (served step (batch.foldl step s.drained) batches).2) := by
  rw [served, if_neg (by rw [hopen]; exact Bool.false_ne_true)]

theorem served_queue (s : LineRelay Fields Item) (batches : List (List Value)) :
    served step s batches =
      (s.pending ++ (served step s.drained batches).1, (served step s.drained batches).2) := by
  cases hdone : s.done with
  | true =>
    rw [served_done hdone, served_done (s := s.drained) hdone, drained_pending,
      append_nil]
  | false =>
    cases batches with
    | nil => rw [served, served, drained_pending, append_nil, drained_done]
    | cons =>
      rw [served_cons hdone, served_cons (s := s.drained) hdone]
      rfl

theorem served_nil_cons (s : LineRelay Fields Item) (batches : List (List Value)) :
    served step s ([] :: batches) = served step s batches := by
  cases hdone : s.done with
  | true => rw [served_done hdone, served_done hdone]
  | false => rw [served_cons hdone, served_queue s, foldl_nil]

theorem served_eventwise {batches : List (List Value)}
    (hsmall : ∀ batch ∈ batches, batch.length ≤ 1) (s : LineRelay Fields Item) :
    served step s batches = served step s (batches.flatten.map List.singleton) := by
  induction batches generalizing s with
  | nil => rfl
  | cons batch batches ih =>
    have hrest := ih fun other hother => hsmall other (mem_cons_of_mem _ hother)
    match batch, hsmall batch mem_cons_self with
    | [], _ =>
      rw [served_nil_cons, hrest]
      rfl
    | [event], _ =>
      cases hdone : s.done with
      | true => rw [served_done hdone, served_done hdone]
      | false =>
        rw [served_cons hdone, flatten_cons, map_append, map_singleton,
          singleton_append, served_cons hdone, hrest]
        rfl

theorem served_map {emit : Value → List Item}
    {stepValue : LineRelay Fields Value → Value → LineRelay Fields Value}
    (hstep : ∀ s event, step (s.mapQueue emit) event = (stepValue s event).mapQueue emit)
    (s : LineRelay Fields Value) (batches : List (List Value)) :
    served step (s.mapQueue emit) batches =
      ((served stepValue s batches).1.flatMap emit, (served stepValue s batches).2) := by
  have hbatch : ∀ (events : List Value) (s : LineRelay Fields Value),
      events.foldl step (s.mapQueue emit) = (events.foldl stepValue s).mapQueue emit := by
    intro events
    induction events with
    | nil =>
      intro s
      rfl
    | cons event events ih =>
      intro s
      rw [foldl_cons, foldl_cons, hstep, ih]
  induction batches generalizing s with
  | nil => rfl
  | cons batch batches ih =>
    cases hdone : s.done with
    | true => rw [served_done hdone, served_done (s := s.mapQueue emit) hdone]; rfl
    | false =>
      have hdrained : (s.mapQueue emit).drained = s.drained.mapQueue emit := rfl
      rw [served_cons hdone, served_cons (s := s.mapQueue emit) hdone, hdrained, hbatch, ih,
        flatMap_append]
      rfl

theorem forall_served {P : Item → Prop}
    (hstep : ∀ s event, (∀ item ∈ s.pending, P item) → ∀ item ∈ (step s event).pending, P item)
    (hqueue : ∀ item ∈ s.pending, P item) (batches : List (List Value)) :
    ∀ item ∈ (served step s batches).1, P item := by
  have hbatch : ∀ (events : List Value) (s : LineRelay Fields Item),
      (∀ item ∈ s.pending, P item) → ∀ item ∈ (events.foldl step s).pending, P item := by
    intro events
    induction events with
    | nil =>
      intro s hs
      exact hs
    | cons event events ih =>
      intro s hs
      exact ih _ (hstep s event hs)
  induction batches generalizing s with
  | nil => exact hqueue
  | cons batch batches ih =>
    cases hdone : s.done with
    | true =>
      rw [served_done hdone]
      exact hqueue
    | false =>
      rw [served_cons hdone]
      intro item hitem
      rcases mem_append.mp hitem with hmem | hmem
      · exact hqueue item hmem
      · refine ih ?_ item hmem
        apply hbatch
        intro other hother
        cases hother

/-! ### Reading a run event by event -/

/-- The events that are worked off: all batches up to the first one in which an
event finishes the stream. -/
def workedOff (finishes : Value → Bool) : List (List Value) → List Value
  | [] => []
  | batch :: batches => batch ++ if batch.any finishes then [] else workedOff finishes batches

def upToFirst (finishes : Value → Bool) : List Value → List Value
  | [] => []
  | event :: events => event :: if finishes event then [] else upToFirst finishes events

def gathered {β : Type} (bring : Fields → Value → List β) (next : Fields → Value → Fields)
    (fields : Fields) : List Value → List β
  | [] => []
  | event :: events => bring fields event ++ gathered bring next (next fields event) events

variable (finishes : Value → Bool)

theorem workedOff_whole (events : List Value) : workedOff finishes [events] = events := by
  simp [workedOff]

theorem workedOff_eventwise (events : List Value) :
    workedOff finishes (events.map List.singleton) = upToFirst finishes events := by
  induction events with
  | nil => rfl
  | cons event events ih =>
    rw [map_cons, workedOff, upToFirst, ih]
    simp [List.singleton]

theorem upToFirst_append (front events : List Value) :
    upToFirst finishes (front ++ events) =
      if front.any finishes then upToFirst finishes front
      else front ++ upToFirst finishes events := by
  induction front with
  | nil => rfl
  | cons event front ih =>
    rw [cons_append, upToFirst, ih, upToFirst, any_cons]
    cases finishes event with
    | true => simp
    | false =>
      cases front.any finishes with
      | true => simp
      | false => simp

theorem upToFirst_split (events : List Value) :
    ∃ after, events = upToFirst finishes events ++ after ∧
      (after ≠ [] → ∃ front last, upToFirst finishes events = front ++ [last] ∧
        finishes last = true) := by
  induction events with
  | nil => exact ⟨[], rfl, fun hne => absurd rfl hne⟩
  | cons event events ih =>
    obtain ⟨after, hsplit, hlast⟩ := ih
    rw [upToFirst]
    cases hfinishes : finishes event with
    | true => exact ⟨events, rfl, fun _ => ⟨[], event, rfl, hfinishes⟩⟩
    | false =>
      refine ⟨after, congrArg (event :: ·) hsplit, ?_⟩
      intro hne
      obtain ⟨front, last, hfront, hfinal⟩ := hlast hne
      exact ⟨event :: front, last, congrArg (event :: ·) hfront, hfinal⟩

theorem upToFirst_before {finishes : Value → Bool} {last : Value} (hlast : finishes last = true)
    (front rest : List Value) :
    ∃ more, front ++ last :: rest =
      upToFirst finishes (front ++ last :: rest) ++ (more ++ rest) := by
  have hcons : front ++ last :: rest = (front ++ [last]) ++ rest := by simp
  obtain ⟨more, hmore, -⟩ := upToFirst_split finishes (front ++ [last])
  refine ⟨more, ?_⟩
  rw [hcons, upToFirst_append, if_pos (by simp [hlast]), ← append_assoc, ← hmore]

theorem workedOff_split (batches : List (List Value)) :
    ∃ extra rest, workedOff finishes batches = upToFirst finishes batches.flatten ++ extra ∧
      batches.flatten = workedOff finishes batches ++ rest := by
  induction batches with
  | nil => exact ⟨[], [], rfl, rfl⟩
  | cons batch batches ih =>
    obtain ⟨extra, rest, hworked, hflatten⟩ := ih
    rw [flatten_cons, workedOff, upToFirst_append]
    cases hany : batch.any finishes with
    | true =>
      obtain ⟨more, hmore, -⟩ := upToFirst_split finishes batch
      exact ⟨more, batches.flatten, by simpa using hmore, by simp⟩
    | false =>
      refine ⟨extra, rest, ?_, ?_⟩
      · simp [hworked]
      · simp [← hflatten]

section

variable {β : Type} {read : List Item → List β} {bring : Fields → Value → List β}
  {next : Fields → Value → Fields} {finishes : Value → Bool} {Inv : LineRelay Fields Item → Prop}

theorem gathered_append (fields : Fields) (front events : List Value) :
    gathered bring next fields (front ++ events) =
      gathered bring next fields front ++ gathered bring next (front.foldl next fields) events := by
  induction front generalizing fields with
  | nil => rfl
  | cons event front ih => rw [cons_append, gathered, gathered, ih, append_assoc, foldl_cons]

theorem gathered_const {bring : Value → List β} (fields : Fields) (events : List Value) :
    gathered (fun _ => bring) next fields events = events.flatMap bring := by
  induction events generalizing fields with
  | nil => rfl
  | cons event events ih => rw [gathered, ih, flatMap_cons]

/-- A step seen through a reading of the queue that does not depend on what is
already queued. -/
structure StepReads (step : LineRelay Fields Item → Value → LineRelay Fields Item)
    (Inv : LineRelay Fields Item → Prop) (read : List Item → List β)
    (bring : Fields → Value → List β) (next : Fields → Value → Fields)
    (finishes : Value → Bool) : Prop where
  append : ∀ a b, read (a ++ b) = read a ++ read b
  drained : ∀ s, Inv s → Inv s.drained
  keeps : ∀ s event, Inv s → Inv (step s event)
  reads : ∀ s event, Inv s → read (step s event).pending = read s.pending ++ bring s.fields event
  fields : ∀ s event, (step s event).fields = next s.fields event
  done : ∀ s event, Inv s → (step s event).done = (s.done || finishes event)

theorem StepReads.nil (hreads : StepReads step Inv read bring next finishes) : read [] = [] := by
  have hself := hreads.append [] []
  simpa using hself

theorem StepReads.foldl (hreads : StepReads step Inv read bring next finishes) (events : List Value)
    (hinv : Inv s) :
    Inv (events.foldl step s) ∧
      read (events.foldl step s).pending =
        read s.pending ++ gathered bring next s.fields events ∧
      (events.foldl step s).fields = events.foldl next s.fields ∧
      (events.foldl step s).done = (s.done || events.any finishes) := by
  induction events generalizing s with
  | nil => simp [gathered, hinv]
  | cons event events ih =>
    obtain ⟨hlast, hread, hfields, hdone⟩ := ih (hreads.keeps s event hinv)
    refine ⟨hlast, ?_, ?_, ?_⟩
    · rw [foldl_cons, hread, hreads.reads s event hinv, hreads.fields, gathered, append_assoc]
    · rw [foldl_cons, hfields, hreads.fields, foldl_cons]
    · rw [foldl_cons, hdone, hreads.done s event hinv, any_cons, Bool.or_assoc]

/-- Such a reading of all that is sent depends on the batches only through the
events that are worked off. -/
theorem StepReads.served (hreads : StepReads step Inv read bring next finishes)
    (batches : List (List Value)) (hinv : Inv s) (hopen : s.done = false) :
    read (LlmProxy.served step s batches).1 =
      read s.pending ++ gathered bring next s.fields (workedOff finishes batches) := by
  induction batches generalizing s with
  | nil => simp [LlmProxy.served, workedOff, gathered]
  | cons batch batches ih =>
    obtain ⟨hlast, hread, hfields, hdone⟩ := hreads.foldl batch (hreads.drained s hinv)
    rw [served_cons hopen, hreads.append, workedOff, gathered_append]
    rw [drained_pending, hreads.nil, nil_append, drained_fields] at hread
    rw [drained_done, hopen] at hdone
    rw [drained_fields] at hfields
    -- A batch in which an event finishes the stream is the last one that is read.
    cases hany : batch.any finishes with
    | true =>
      rw [hany] at hdone
      rw [served_done hdone, hread, if_pos rfl, gathered, append_nil]
    | false =>
      rw [hany] at hdone
      rw [ih hlast hdone, hread, hfields, if_neg Bool.false_ne_true]

end

end

end LlmProxy
