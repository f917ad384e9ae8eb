import LlmProxy.DataLines

/-!
# Relayed streams

The provider relays turn an upstream byte stream into events of their own (`anthropic_stream.rs`,
`gemini_stream.rs`).  They differ in the fields of their state and in what a line does, and share
everything else: the line buffer, the queue of events, the `done` flag and `poll_next`.  A line is
worked on by `processLine`, the parameter of this module.
-/

namespace LlmProxy

open Json (Text Value)
open LineCut List
open NormalizingStream (Flowing upcoming)
open Utf8Bytes

structure LineRelay (Fields Item : Type) where
  fields : Fields
  pending : List Item
  done : Bool

structure RelayState (Fields : Type) extends LineRelay Fields Bytes where
  buffer : Bytes

structure StreamRelay (Fields : Type) where
  state : RelayState Fields
  upstreamDone : Bool

variable {Fields : Type}

namespace RelayState

def new (fields : Fields) : RelayState Fields where
  fields := fields
  pending := []
  done := false
  buffer := []

variable (s : RelayState Fields)

def nextChunk : Option (Bytes × RelayState Fields) :=
  match s.pending with
  | [] => none
  | chunk :: rest => some (chunk, { s with pending := rest })

def drained : RelayState Fields := { s with pending := [] }

@[simp] theorem drained_pending : s.drained.pending = [] := rfl

@[simp] theorem drained_done : s.drained.done = s.done := rfl

theorem nextChunk_nil {s : RelayState Fields} (hempty : s.pending = []) : s.nextChunk = none := by
  unfold nextChunk
  rw [hempty]

theorem nextChunk_cons {s : RelayState Fields} {chunk : Bytes} {rest : List Bytes}
    (hpending : s.pending = chunk :: rest) :
    s.nextChunk = some (chunk, { s with pending := rest }) := by
  unfold nextChunk
  rw [hpending]

end RelayState

def trimmedLine (line : Bytes) : Text := trim ((fromBytes line).getD [])

variable (processLine : LineRelay Fields Bytes → Text → LineRelay Fields Bytes)

def feedLine (s : LineRelay Fields Bytes) (line : Bytes) : LineRelay Fields Bytes :=
  if (trimmedLine line).isEmpty then s else processLine s (trimmedLine line)

/-- Complete lines are worked off, the rest is kept. -/
def feedBytes (s : RelayState Fields) (bytes : Bytes) : RelayState Fields :=
  let fed := feedLines newline (feedLine processLine) s.toLineRelay (s.buffer ++ bytes)
  { toLineRelay := fed.1, buffer := fed.2 }

namespace StreamRelay

def new (fields : Fields) : StreamRelay Fields := ⟨.new fields, false⟩

variable (r : StreamRelay Fields)

def finish : Poll × StreamRelay Fields :=
  match r.state.nextChunk with
  | some (chunk, state) => (.item chunk, ⟨state, true⟩)
  | none =>
    if !r.state.done then
      (.item doneEvent,
        ⟨{ r.state with pending := r.state.pending ++ [doneEvent], done := true }, true⟩)
    else (.finished, ⟨r.state, true⟩)

/-- The queue comes first; nothing is read once the relay is done. -/
def pollNext (script : List Poll) : Poll × StreamRelay Fields × List Poll :=
  match r.state.nextChunk with
  | some (chunk, state) => (.item chunk, { r with state := state }, script)
  | none =>
    if r.state.done then (.finished, r, script)
    else if r.upstreamDone then (.finished, r, script)
    else
      match script with
      | [] => (.pending, r, [])
      | .item bytes :: script =>
        let state := feedBytes processLine r.state bytes
        match state.nextChunk with
        | some (chunk, state) => (.item chunk, { r with state := state }, script)
        | none => (.pending, { r with state := state }, script)
      | .error e :: script => (.error e, { r with upstreamDone := true }, script)
      | .finished :: script => (r.finish.1, r.finish.2, script)
      | .pending :: script => (.pending, r, script)

def Spends (script : List Poll) (next : StreamRelay Fields) (rest : List Poll) : Prop :=
  rest.length < script.length ∨
    rest = script ∧ next.state.pending.length < r.state.pending.length

theorem pollNext_spends (script : List Poll) :
    (pollNext processLine r script).1 = .finished ∨
      (pollNext processLine r script).1 = .pending ∧ script = [] ∨
      Spends r script (pollNext processLine r script).2.1
        (pollNext processLine r script).2.2 := by
  unfold pollNext
  cases hpending : r.state.pending with
  | cons =>
    rw [RelayState.nextChunk_cons hpending]
    right; right; right
    refine ⟨rfl, ?_⟩
    rw [hpending]
    exact Nat.lt_succ_self _
  | nil =>
    rw [RelayState.nextChunk_nil hpending]
    split_ifs
    · exact .inl rfl
    · exact .inl rfl
    · cases script with
      | nil => exact .inr (.inl ⟨rfl, rfl⟩)
      | cons first =>
        right; right; left
        cases first with
        | item bytes =>
          dsimp only
          cases (feedBytes processLine r.state bytes).nextChunk with
          | none => exact Nat.lt_succ_self _
          | some => exact Nat.lt_succ_self _
        | _ => exact Nat.lt_succ_self _

variable {r next : StreamRelay Fields} {script rest : List Poll} {s : RelayState Fields}

theorem pollNext_decreases {poll : Poll}
    (hpoll : pollNext processLine r script = (poll, next, rest)) (hmore : poll ≠ .finished)
    (hasked : poll = .pending → script ≠ []) :
    Prod.Lex (· < ·) (· < ·) (rest.length, next.state.pending.length)
      (script.length, r.state.pending.length) := by
  have hspends := pollNext_spends processLine r script
  rw [hpoll] at hspends
  rcases hspends with hfinished | ⟨hpending, hnil⟩ | hshort | ⟨hsame, hless⟩
  · exact absurd hfinished hmore
  · exact absurd hnil (hasked hpending)
  · exact .left _ _ hshort
  · dsimp only at hsame hless
    rw [hsame]
    exact .right _ hless

def collect (r : StreamRelay Fields) (script : List Poll) : List Bytes :=
  match hpoll : pollNext processLine r script with
  | (.finished, _, _) => []
  | (.item bytes, next, rest) => bytes :: collect next rest
  | (.error _, next, rest) => collect next rest
  | (.pending, next, rest) => if hnone : script = [] then [] else collect next rest
termination_by (script.length, r.state.pending.length)
decreasing_by
  · exact pollNext_decreases processLine hpoll (by simp) (by simp)
  · exact pollNext_decreases processLine hpoll (by simp) (by simp)
  · exact pollNext_decreases processLine hpoll (by simp) (fun _ => hnone)

/-! ## The stream without polls -/

def chunksOf (script : List Poll) : List Bytes :=
  script.filterMap fun poll =>
    match poll with
    | .item bytes => some bytes
    | _ => none

/-- What is sent from a state on: the queue, and unless the relay is done, what
the next chunk brings; at the end of the upstream the terminator, twice. -/
def relayed (s : RelayState Fields) : List Bytes → List Bytes
  | [] => s.pending ++ (if s.done then [] else [doneEvent, doneEvent])
  | chunk :: chunks =>
    s.pending ++
      (if s.done then []
      else relayed (feedBytes processLine s.drained chunk) chunks)

theorem collect_item {bytes : Bytes}
    (hpoll : pollNext processLine r script = (.item bytes, next, rest)) :
    collect processLine r script = bytes :: collect processLine next rest := by
  rw [collect]
  split
  all_goals
    rename_i hsame
    rw [hpoll] at hsame
    cases hsame
  rfl

theorem collect_pending (hasked : script ≠ [])
    (hpoll : pollNext processLine r script = (.pending, next, rest)) :
    collect processLine r script = collect processLine next rest := by
  rw [collect]
  split
  all_goals
    rename_i hsame
    rw [hpoll] at hsame
    cases hsame
  rw [dif_neg hasked]

theorem collect_finished (hpoll : pollNext processLine r script = (.finished, next, rest)) :
    collect processLine r script = [] := by
  rw [collect]
  split
  all_goals
    rename_i hsame
    cases hpoll.symm.trans hsame
  rfl

theorem collect_done (hempty : r.state.pending = []) (hdone : r.state.done = true)
    (script : List Poll) : collect processLine r script = [] := by
  have hpoll : pollNext processLine r script = (.finished, r, script) := by
    unfold pollNext
    rw [RelayState.nextChunk_nil hempty]
    rw [if_pos hdone]
  exact collect_finished processLine hpoll

theorem collect_queue (r : StreamRelay Fields) (script : List Poll) :
    collect processLine r script =
      r.state.pending ++ collect processLine ⟨r.state.drained, r.upstreamDone⟩ script := by
  obtain ⟨⟨⟨fields, pending, done⟩, buffer⟩, upstreamDone⟩ := r
  induction pending with
  | nil => rfl
  | cons chunk pending ih =>
    have hpoll : pollNext processLine ⟨⟨⟨fields, chunk :: pending, done⟩, buffer⟩, upstreamDone⟩
        script = (.item chunk, ⟨⟨⟨fields, pending, done⟩, buffer⟩, upstreamDone⟩, script) := rfl
    rw [collect_item processLine hpoll, ih]
    rfl

theorem relayed_queue (s : RelayState Fields) (chunks : List Bytes) :
    relayed processLine s chunks = s.pending ++ relayed processLine s.drained chunks := by
  cases chunks with
  | nil => rfl
  | cons => rfl

theorem collect_upstream_end (hempty : s.pending = []) (hopen : s.done = false) :
    collect processLine ⟨s, false⟩ [.finished] = [doneEvent, doneEvent] := by
  have hpoll : pollNext processLine ⟨s, false⟩ [.finished] =
      (.item doneEvent, ⟨{ s with pending := [doneEvent], done := true }, true⟩, []) := by
    unfold pollNext finish
    rw [RelayState.nextChunk_nil hempty]
    rw [hopen, hempty]
    rfl
  rw [collect_item processLine hpoll, collect_queue, collect_done processLine rfl rfl]
  rfl

theorem collect_chunk (hempty : s.pending = []) (hopen : s.done = false) (bytes : Bytes)
    (script : List Poll) :
    collect processLine ⟨s, false⟩ (.item bytes :: script) =
      collect processLine ⟨feedBytes processLine s bytes, false⟩ script := by
  have hasked : (Poll.item bytes :: script) ≠ [] := cons_ne_nil _ _
  cases hpending : (feedBytes processLine s bytes).pending with
  | nil =>
    refine collect_pending processLine hasked ?_
    unfold pollNext
    rw [RelayState.nextChunk_nil hempty]
    dsimp only
    rw [hopen, RelayState.nextChunk_nil hpending]
    rfl
  | cons chunk rest =>
    have hpoll : pollNext processLine ⟨s, false⟩ (.item bytes :: script) =
        (.item chunk, ⟨{ feedBytes processLine s bytes with pending := rest }, false⟩, script) := by
      unfold pollNext
      rw [RelayState.nextChunk_nil hempty]
      dsimp only
      rw [hopen, RelayState.nextChunk_cons hpending]
      rfl
    rw [collect_item processLine hpoll, collect_queue processLine ⟨feedBytes _ _ _, false⟩,
      collect_queue, hpending]
    rfl

theorem collect_wait (hempty : s.pending = []) (hopen : s.done = false) (script : List Poll) :
    collect processLine ⟨s, false⟩ (.pending :: script) =
      collect processLine ⟨s, false⟩ script := by
  refine collect_pending processLine (cons_ne_nil _ _) ?_
  unfold pollNext
  rw [RelayState.nextChunk_nil hempty]
  rw [hopen]
  rfl

theorem collect_eq_relayed {events : List Poll} (hflowing : Flowing events)
    (s : RelayState Fields) :
    collect processLine ⟨s, false⟩ (events ++ [.finished]) =
      relayed processLine s (chunksOf events) := by
  induction events generalizing s with
  | nil =>
    rw [collect_queue]
    cases hdone : s.done with
    | true =>
      rw [collect_done processLine (r := ⟨s.drained, false⟩) rfl hdone]
      simp [relayed, chunksOf, hdone]
    | false =>
      rw [nil_append, collect_upstream_end processLine (s := s.drained) rfl hdone]
      simp [relayed, chunksOf, hdone]
  | cons event events ih =>
    have hrest : Flowing events := fun poll hpoll => hflowing poll (mem_cons_of_mem _ hpoll)
    rw [collect_queue, relayed_queue]
    cases hdone : s.done with
    | true =>
      rw [collect_done processLine (r := ⟨s.drained, false⟩) rfl hdone]
      cases chunksOf (event :: events) <;> simp [relayed, hdone]
    | false =>
      rcases hflowing event mem_cons_self with ⟨bytes, rfl⟩ | rfl
      · rw [cons_append, collect_chunk processLine (s := s.drained) rfl hdone, ih hrest]
        simp [relayed, chunksOf, hdone]
        rfl
      · rw [cons_append, collect_wait processLine (s := s.drained) rfl hdone, ih hrest]
        rfl

end StreamRelay

end LlmProxy
