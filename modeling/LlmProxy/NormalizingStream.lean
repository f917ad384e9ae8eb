import LlmProxy.KeyPool
import LlmProxy.StreamReading
import LlmProxy.Utf8Bytes

/-!
# The normalising stream

`NormalizingStream` as a polled stream of byte chunks (`stream_normalize.rs`).  Each poll first
works off the complete lines of the pending bytes, then asks the inner stream for more.
-/

namespace LlmProxy

open BoundedLoop List
open Json (Text Value Fields)
open LineCut
open Utf8Bytes

/-- The JSON library: parsing and compact printing. -/
class SerdeJson where
  fromStr : Text → Option Value
  toString : Value → Option Text

def newline : UInt8 := 10

def carriageReturn : UInt8 := 13

def utf8 (s : String) : Bytes := toBytes s.toList

def dataField : Text := "data:".toList

def isWhitespace (c : Char) : Bool :=
  let v := c.val.toNat
  (0x9 ≤ v && v ≤ 0xD) || v == 0x20 || v == 0x85 || v == 0xA0 || v == 0x1680 ||
    (0x2000 ≤ v && v ≤ 0x200A) || v == 0x2028 || v == 0x2029 || v == 0x202F || v == 0x205F ||
    v == 0x3000

def trimStart (s : Text) : Text := s.dropWhile isWhitespace

structure LineNormaliser where
  acc : ThinkTagAccumulator
  seenDone : Bool

structure NormalizingStream extends LineNormaliser where
  pending : Bytes
  innerEof : Bool
  completed : Bool

def LineNormaliser.new : LineNormaliser where
  acc := .new builtinThinkPairs
  seenDone := false

def NormalizingStream.new : NormalizingStream where
  toLineNormaliser := .new
  pending := []
  innerEof := false
  completed := false

inductive Poll where
  | item (bytes : Bytes)
  | error (e : AppError)
  | finished
  | pending

def Poll.weight : Poll → ℕ
  | .item bytes => bytes.length + 1
  | .finished => 2
  | _ => 1

def Poll.bytes : Poll → Bytes
  | .item bytes => bytes
  | _ => []

section

variable [SerdeJson]

def sseLine (line : Text) : Bytes := toBytes line ++ utf8 "\n\n"

def dataEvent (payload : Text) : Bytes := utf8 "data: " ++ toBytes payload ++ utf8 "\n\n"

def doneEvent : Bytes := utf8 "data: [DONE]\n\n"

def forwardedLine (line : Bytes) (payload : Text) (chunk : Value) : Bytes :=
  match SerdeJson.toString chunk with
  | some s => if s ≠ payload then dataEvent s else line
  | none => line

variable (n : LineNormaliser)

def transformPayload (line : Bytes) (lineNoCr payload : Text) :
    Option (Option Bytes × LineNormaliser) :=
  if payload = "[DONE]".toList then some (some doneEvent, { n with seenDone := true })
  else
    match SerdeJson.fromStr payload with
    | some (.obj fields) =>
      match rewriteChunkValue n.acc (.obj fields) with
      | none => none
      | some (chunk, emit, acc) =>
        some (if emit then some (forwardedLine line payload chunk) else none,
          { n with acc := acc })
    | _ => some (some (sseLine lineNoCr), n)

/-- A line that is no UTF-8 is passed on. -/
def transformLine (line : Bytes) : Option (Option Bytes × LineNormaliser) :=
  match fromBytes line with
  | none => some (some line, n)
  | some text =>
    let lineNoCr := dropEnd '\r' (dropEnd '\n' text)
    if lineNoCr.isEmpty then some (none, n)
    else
      match lineNoCr.dropPrefix? dataField with
      | some payload => transformPayload n line lineNoCr (trimStart payload)
      | none => some (some (sseLine lineNoCr), n)

def drainedChunk (flushed : Text) (asReasoning : Bool) : Bytes :=
  if flushed.isEmpty then []
  else
    match SerdeJson.toString (flushedChunk flushed asReasoning) with
    | some s => dataEvent s
    | none => []

def assembleDrained (flushed : Text) (asReasoning seenDone : Bool) : Option Bytes :=
  let out := drainedChunk flushed asReasoning ++ (if seenDone then [] else doneEvent)
  if out.isEmpty then none else some out

/-- At the end the held text is sent, and the terminator if the upstream had none. -/
def flushEof : Option Bytes × LineNormaliser :=
  let asReasoning := flushesAsReasoning n.acc
  let (flushed, acc) := n.acc.flush
  (assembleDrained flushed asReasoning n.seenDone, { acc := acc, seenDone := true })

namespace NormalizingStream

variable (s : NormalizingStream)

def processBody : Round NormalizingStream (Option (Option Bytes × NormalizingStream)) :=
  match takeLine newline s.pending with
  | none => .leave (some (none, s))
  | some (line, rest) =>
    match transformLine s.toLineNormaliser line with
    | none => .leave none
    | some (some out, n) =>
      .leave (some (some out, { s with toLineNormaliser := n, pending := rest }))
    | some (none, n) => .again { s with toLineNormaliser := n, pending := rest }

/-- `process_pending`: each round takes a line off the pending bytes, so as
many rounds as there are bytes are enough. -/
def processPending : Option (Option Bytes × NormalizingStream) :=
  (runLoop processBody (s.pending.length + 1) s).join

def finish : Poll × NormalizingStream :=
  let (flushed, n) := flushEof s.toLineNormaliser
  (match flushed with
    | some bytes => .item bytes
    | none => .finished,
    { s with toLineNormaliser := n, completed := true })

/-- `poll_next`: the poll result, the stream and the rest of the script.  An
inner stream whose script is used up is never ready again. -/
def pollNext (s : NormalizingStream) (script : List Poll) :
    Option (Poll × NormalizingStream × List Poll) :=
  if s.completed then some (.finished, s, script)
  else
    match s.processPending with
    | none => none
    | some (some out, s) => some (.item out, s, script)
    | some (none, s) =>
      if s.innerEof then some ((finish s).1, (finish s).2, script)
      else
        match script with
        | [] => some (.pending, s, [])
        | .item bytes :: script => pollNext { s with pending := s.pending ++ bytes } script
        | .error e :: script => some (.error e, s, script)
        | .finished :: script =>
          pollNext { s with innerEof := true, pending := closeLine newline s.pending } script
        | .pending :: script => some (.pending, s, script)

def weight (script : List Poll) : ℕ :=
  s.pending.length + (script.map Poll.weight).sum + (if s.completed then 0 else 1)

def collectBody (c : NormalizingStream × List Poll × List Bytes) :
    Round (NormalizingStream × List Poll × List Bytes) (Option (List Bytes)) :=
  match pollNext c.1 c.2.1 with
  | none => .leave none
  | some (.item bytes, s, script) => .again (s, script, c.2.2 ++ [bytes])
  | some (.error _, s, script) => .again (s, script, c.2.2)
  | some (.pending, s, script) => .again (s, script, c.2.2)
  | some (.finished, _, _) => .leave (some c.2.2)

/-- A client that polls until the stream ends.  Each poll uses up script or
pending bytes, so the weight bounds the number of polls. -/
def collect (script : List Poll) : Option (List Bytes) :=
  (runLoop collectBody (weight new script + 1) (new, script, [])).join

end NormalizingStream

/-! ## The lines of a whole upstream -/

def transformLines (n : LineNormaliser) : List Bytes → Option (Bytes × LineNormaliser)
  | [] => some ([], n)
  | line :: rest =>
    match transformLine n line with
    | none => none
    | some (out, next) =>
      (transformLines next rest).map fun result => (out.getD [] ++ result.1, result.2)

def normalised (bytes : Bytes) : Option Bytes :=
  (transformLines n (cutLines newline (closeLine newline bytes)).1).map fun result =>
    result.1 ++ (flushEof result.2).1.getD []

variable {n : LineNormaliser} {line rest : Bytes}

/-- A payload ends the stream, is a chunk, or is passed on. -/
theorem transformPayload_path {next : LineNormaliser} {lineNoCr payload : Text} {out : Option Bytes}
    (hstep : transformPayload n line lineNoCr payload = some (out, next)) :
    (payload = "[DONE]".toList ∧ out = some doneEvent ∧ next = { n with seenDone := true }) ∨
      (∃ fields chunk emit acc, SerdeJson.fromStr payload = some (.obj fields) ∧
        payload ≠ "[DONE]".toList ∧
        rewriteChunkValue n.acc (.obj fields) = some (chunk, emit, acc) ∧
        out = (if emit then some (forwardedLine line payload chunk) else none) ∧
        next = { n with acc := acc }) ∨
      ((∀ fields, SerdeJson.fromStr payload ≠ some (.obj fields)) ∧
        payload ≠ "[DONE]".toList ∧ out = some (sseLine lineNoCr) ∧ next = n) := by
  unfold transformPayload at hstep
  split_ifs at hstep with hdone
  · cases hstep
    exact .inl ⟨hdone, rfl, rfl⟩
  · split at hstep
    · rename_i fields hparse
      cases hrewrite : rewriteChunkValue n.acc (.obj fields) with
      | none =>
        rw [hrewrite] at hstep
        cases hstep
      | some result =>
        obtain ⟨chunk, emit, acc⟩ := result
        rw [hrewrite] at hstep
        cases hstep
        exact .inr (.inl ⟨fields, chunk, emit, acc, hparse, hdone, hrewrite, rfl, rfl⟩)
    · rename_i hother
      cases hstep
      exact .inr (.inr ⟨hother, hdone, rfl, rfl⟩)

theorem transformLine_data {text rest : Text} (htext : fromBytes line = some text)
    (hdata : (dropEnd '\r' (dropEnd '\n' text)).dropPrefix? dataField = some rest) :
    transformLine n line =
      transformPayload n line (dropEnd '\r' (dropEnd '\n' text)) (trimStart rest) := by
  have hline : (dropEnd '\r' (dropEnd '\n' text)).isEmpty = false := by
    rw [isEmpty_eq_false_iff]
    intro hnil
    rw [hnil] at hdata
    cases hdata
  unfold transformLine
  rw [htext]
  dsimp only
  rw [hline, if_neg Bool.false_ne_true, hdata]

theorem transformPayload_settled (hsettled : n.acc.Settled) (line : Bytes)
    (lineNoCr payload : Text) :
    ∃ out next, transformPayload n line lineNoCr payload = some (out, next) ∧ next.acc.Settled := by
  unfold transformPayload
  split_ifs
  · exact ⟨_, _, rfl, hsettled⟩
  · split
    · rename_i fields _
      obtain ⟨chunk, emit, next, hrewrite, hnext, -, -⟩ :=
        rewriteChunkValue_spec hsettled (.obj fields)
      rw [hrewrite]
      exact ⟨_, _, rfl, hnext⟩
    · exact ⟨_, _, rfl, hsettled⟩

theorem transformLine_settled (hsettled : n.acc.Settled) (line : Bytes) :
    ∃ out next, transformLine n line = some (out, next) ∧ next.acc.Settled := by
  unfold transformLine
  split
  · exact ⟨_, _, rfl, hsettled⟩
  · dsimp only
    split_ifs
    · exact ⟨_, _, rfl, hsettled⟩
    · split
      · exact transformPayload_settled hsettled _ _ _
      · exact ⟨_, _, rfl, hsettled⟩

theorem transformLines_settled (hsettled : n.acc.Settled) (lines : List Bytes) :
    ∃ out next, transformLines n lines = some (out, next) ∧ next.acc.Settled := by
  induction lines generalizing n with
  | nil => exact ⟨[], n, rfl, hsettled⟩
  | cons line lines ih =>
    obtain ⟨added, mid, hstep, hmid⟩ := transformLine_settled hsettled line
    obtain ⟨out, next, hrest, hnext⟩ := ih hmid
    exact ⟨added.getD [] ++ out, next, by simp [transformLines, hstep, hrest], hnext⟩

theorem normalised_isSome (hsettled : n.acc.Settled) (bytes : Bytes) :
    ∃ out, normalised n bytes = some out := by
  obtain ⟨out, next, hlines, -⟩ := transformLines_settled hsettled
    (cutLines newline (closeLine newline bytes)).1
  exact ⟨out ++ (flushEof next).1.getD [], by simp [normalised, hlines]⟩

theorem normalised_line_append {next : LineNormaliser} {out : Bytes} {added : Option Bytes}
    (hline : IsLine newline line) (hstep : transformLine n line = some (added, next))
    (hrest : normalised next rest = some out) :
    normalised n (line ++ rest) = some (added.getD [] ++ out) := by
  unfold normalised at hrest ⊢
  obtain ⟨result, hresult, rfl⟩ := Option.map_eq_some_iff.mp hrest
  rw [closeLine_line_append hline, cutLines_line_append hline]
  simp [transformLines, hstep, hresult]

theorem normalised_nil (n : LineNormaliser) : normalised n [] = some ((flushEof n).1.getD []) := by
  simp [normalised, closeLine, cutLines, transformLines]

theorem normalised_closeLine (n : LineNormaliser) (bytes : Bytes) :
    normalised n (closeLine newline bytes) = normalised n bytes := by
  unfold normalised
  rw [closeLine_of_closed (cutLines_closeLine bytes)]

namespace NormalizingStream

def upcoming (script : List Poll) : Bytes := script.flatMap Poll.bytes

def owed (s : NormalizingStream) (script : List Poll) : Option Bytes :=
  if s.completed then some [] else normalised s.toLineNormaliser (s.pending ++ upcoming script)

def Flowing (script : List Poll) : Prop :=
  ∀ poll ∈ script, (∃ bytes, poll = .item bytes) ∨ poll = .pending

structure Sound (s : NormalizingStream) (script : List Poll) : Prop where
  running : s.completed = false
  settled : s.acc.Settled
  open_ : s.innerEof = false → ∃ events, script = events ++ [.finished] ∧ Flowing events
  closed : s.innerEof = true → script = [] ∧ (cutLines newline s.pending).2 = []

structure Worked (s : NormalizingStream) (out : Bytes) (next : NormalizingStream) : Prop where
  settled : next.acc.Settled
  innerEof : next.innerEof = s.innerEof
  completed : next.completed = s.completed
  closed : (cutLines newline s.pending).2 = [] → (cutLines newline next.pending).2 = []
  owed : ∀ more rest, normalised next.toLineNormaliser (next.pending ++ more) = some rest →
    normalised s.toLineNormaliser (s.pending ++ more) = some (out ++ rest)
  noLonger : next.pending.length ≤ s.pending.length

variable {s t : NormalizingStream} {script : List Poll}
  {result : Option (Poll × NormalizingStream × List Poll)}
  {c : NormalizingStream × List Poll × List Bytes} {out whole : Bytes}

theorem Worked.step {added : Option Bytes} (hworked : Worked s [] t)
    (htake : takeLine newline t.pending = some (line, rest))
    (hstep : transformLine t.toLineNormaliser line = some (added, n)) :
    Worked s (added.getD []) { t with toLineNormaliser := n, pending := rest } ∧
      rest.length < t.pending.length := by
  obtain ⟨hsplit, hline⟩ := takeLine_eq_some htake
  have hshorter : rest.length < t.pending.length := by
    obtain ⟨body, hbody, -⟩ := hline
    rw [hsplit, hbody]
    simp
    omega
  obtain ⟨out, next, hsettledStep, hnext⟩ := transformLine_settled hworked.settled line
  rw [hstep] at hsettledStep
  obtain ⟨rfl, rfl⟩ := hsettledStep
  refine ⟨?_, hshorter⟩
  constructor
  · exact hnext
  · exact hworked.innerEof
  · exact hworked.completed
  · intro hclosed
    have htail := hworked.closed hclosed
    rw [hsplit, cutLines_line_append hline] at htail
    exact htail
  · intro more remaining hremaining
    have hthere := normalised_line_append hline hstep hremaining
    rw [← append_assoc, ← hsplit] at hthere
    exact hworked.owed more _ hthere
  · exact hshorter.le.trans hworked.noLonger

def Processed (s : NormalizingStream)
    (result : Option (Option Bytes × NormalizingStream)) : Prop :=
  ∃ out next, result = some (out, next) ∧ Worked s (out.getD []) next ∧
    (out.isSome → next.pending.length < s.pending.length) ∧
    (out = none → newline ∉ next.pending)

theorem processBody_again {next : NormalizingStream} (hworked : Worked s [] t)
    (hbody : processBody t = .again next) :
    Worked s [] next ∧ next.pending.length < t.pending.length := by
  unfold processBody at hbody
  cases htake : takeLine newline t.pending with
  | none => simp [htake] at hbody
  | some cut =>
    obtain ⟨line, rest⟩ := cut
    cases hstep : transformLine t.toLineNormaliser line with
    | none => simp [htake, hstep] at hbody
    | some result =>
      obtain ⟨added, n⟩ := result
      cases added with
      | some => simp [htake, hstep] at hbody
      | none =>
        simp only [htake, hstep, Round.again.injEq] at hbody
        subst next
        exact hworked.step htake hstep

theorem processBody_leave {result : Option (Option Bytes × NormalizingStream)}
    (hworked : Worked s [] t) (hbody : processBody t = .leave result) : Processed s result := by
  unfold processBody at hbody
  cases htake : takeLine newline t.pending with
  | none =>
    simp only [htake, Round.leave.injEq] at hbody
    subst result
    refine ⟨none, t, rfl, hworked, ?_, ?_⟩
    · intro hsome
      cases hsome
    · intro
      exact takeLine_eq_none htake
  | some cut =>
    obtain ⟨line, rest⟩ := cut
    obtain ⟨added, n, hstep, -⟩ := transformLine_settled hworked.settled line
    obtain ⟨hnext, hshorter⟩ := hworked.step htake hstep
    cases added with
    | none => simp [htake, hstep] at hbody
    | some out =>
      simp only [htake, hstep, Round.leave.injEq] at hbody
      subst result
      refine ⟨some out, _, rfl, hnext, ?_, ?_⟩
      · intro
        exact hshorter.trans_le hworked.noLonger
      · intro hnone
        cases hnone

theorem processPending_spec (hsettled : s.acc.Settled) : Processed s s.processPending := by
  have hinit : Worked s [] s :=
    ⟨hsettled, rfl, rfl, id, fun _ _ hrest => by simpa using hrest, le_refl _⟩
  obtain ⟨result, hrun⟩ := runLoop_terminates (I := Worked s []) (fun t => t.pending.length)
    (fun _ _ hworked hbody => processBody_again hworked hbody) hinit (Nat.lt_succ_self _)
  have hresult := runLoop_rule (I := Worked s []) (Q := Processed s)
    (fun _ _ hworked hbody => (processBody_again hworked hbody).1)
    (fun _ _ hworked hbody => processBody_leave hworked hbody) hinit hrun
  rw [processPending, hrun]
  exact hresult

/-- What a poll answers: the script and the pending bytes shrink, and the item
is the next part of what was owed. -/
def Answered (s : NormalizingStream) (script : List Poll)
    (result : Option (Poll × NormalizingStream × List Poll)) : Prop :=
  ∃ poll next later, result = some (poll, next, later) ∧
    (poll = .finished → owed s script = some []) ∧
    (poll ≠ .finished → (∀ e, poll ≠ .error e) ∧
      (next.completed = true ∨ Sound next later) ∧ weight next later < weight s script ∧
      ∀ rest, owed next later = some rest → owed s script = some (poll.bytes ++ rest))

theorem Answered.before {later : List Poll} (hanswered : Answered t later result)
    (howed : ∀ rest, owed t later = some rest → owed s script = some rest)
    (hweight : weight t later ≤ weight s script) : Answered s script result := by
  obtain ⟨poll, next, last, hresult, hfinished, hmore⟩ := hanswered
  refine ⟨poll, next, last, hresult, fun h => howed _ (hfinished h), ?_⟩
  intro hne
  obtain ⟨herror, hsound, hless, hrest⟩ := hmore hne
  exact ⟨herror, hsound, hless.trans_le hweight, fun rest h => howed _ (hrest rest h)⟩

theorem owed_of_running (hrunning : s.completed = false) (script : List Poll) :
    owed s script = normalised s.toLineNormaliser (s.pending ++ upcoming script) := by
  rw [owed, hrunning, if_neg Bool.false_ne_true]

omit [SerdeJson] in
theorem weight_of_running (hrunning : s.completed = false) (script : List Poll) :
    weight s script = s.pending.length + (script.map Poll.weight).sum + 1 := by
  rw [weight, hrunning, if_neg Bool.false_ne_true]

theorem finish_answered (hsound : Sound s []) (heof : s.innerEof = true) (hworked : Worked s [] t)
    (hfree : newline ∉ t.pending) : Answered s [] (some ((finish t).1, (finish t).2, [])) := by
  have hnone : t.pending = [] := by
    have hclosed := hworked.closed (hsound.closed heof).2
    rw [cutLines_of_not_mem hfree] at hclosed
    exact hclosed
  have howed : owed s [] = some ((flushEof t.toLineNormaliser).1.getD []) := by
    have hflush := normalised_nil t.toLineNormaliser
    have hrest := hworked.owed [] _ (by rw [hnone]; exact hflush)
    rw [owed_of_running hsound.running]
    exact hrest
  refine ⟨_, _, _, rfl, ?_, ?_⟩
  · intro hfinished
    rw [howed]
    unfold finish at hfinished
    dsimp only at hfinished
    split at hfinished
    · cases hfinished
    · rename_i hflushed
      rw [hflushed]
      rfl
  · intro hne
    unfold finish at hne ⊢
    dsimp only at hne ⊢
    cases hflushed : (flushEof t.toLineNormaliser).1 with
    | none => simp [hflushed] at hne
    | some bytes =>
      refine ⟨by simp, .inl rfl, ?_, ?_⟩
      · have hless := hworked.noLonger
        rw [weight_of_running hsound.running]
        simp only [weight, if_true]
        omega
      · intro rest hrest
        rw [owed, if_pos rfl, Option.some_inj] at hrest
        rw [howed, hflushed, ← hrest]
        simp [Poll.bytes]

section

variable (hsound : Sound s script) (hworked : Worked s out t)

include hsound hworked

theorem Sound.worked : Sound t script where
  running := hworked.completed.trans hsound.running
  settled := hworked.settled
  open_ := fun hopen => hsound.open_ (hworked.innerEof ▸ hopen)
  closed := fun heof =>
    have hclosed := hsound.closed (hworked.innerEof ▸ heof)
    ⟨hclosed.1, hworked.closed hclosed.2⟩

theorem owed_worked (hrest : owed t script = some rest) : owed s script = some (out ++ rest) := by
  rw [owed_of_running (hsound.worked hworked).running] at hrest
  rw [owed_of_running hsound.running]
  exact hworked.owed _ _ hrest

theorem weight_worked_le : weight t script ≤ weight s script := by
  have hless := hworked.noLonger
  rw [weight_of_running (hsound.worked hworked).running, weight_of_running hsound.running]
  omega

theorem item_answered (hshorter : t.pending.length < s.pending.length) :
    Answered s script (some (.item out, t, script)) := by
  have hnext := hsound.worked hworked
  refine ⟨_, _, _, rfl, ?_, ?_⟩
  · intro hfinished
    cases hfinished
  · intro
    refine ⟨by simp, .inr hnext, ?_, fun rest => owed_worked hsound hworked⟩
    rw [weight_of_running hnext.running, weight_of_running hsound.running]
    omega

end

omit [SerdeJson] in
theorem Sound.ask {first : Poll} (hsound : Sound s (first :: script)) :
    s.innerEof = false ∧
      ((first = .finished ∧ script = []) ∨
        (((∃ bytes, first = .item bytes) ∨ first = .pending) ∧
          ∃ events, script = events ++ [.finished] ∧ Flowing events)) := by
  have heof : s.innerEof = false := by
    rw [Bool.eq_false_iff]
    intro heof
    have hnil := (hsound.closed heof).1
    cases hnil
  refine ⟨heof, ?_⟩
  obtain ⟨events, hscript, hflowing⟩ := hsound.open_ heof
  cases events with
  | nil =>
    left
    simpa using hscript
  | cons event events =>
    right
    obtain ⟨rfl, rfl⟩ := List.cons.inj hscript
    refine ⟨hflowing first mem_cons_self, events, rfl, ?_⟩
    intro poll hpoll
    exact hflowing poll (mem_cons_of_mem _ hpoll)

def receive (s : NormalizingStream) (bytes : Bytes) : NormalizingStream :=
  { s with pending := s.pending ++ bytes }

def close (s : NormalizingStream) : NormalizingStream :=
  { s with innerEof := true, pending := closeLine newline s.pending }

theorem receive_answered {bytes : Bytes} (hrunning : s.completed = false)
    (hanswered : Answered (s.receive bytes) script result) :
    Answered s (.item bytes :: script) result := by
  have hreceived : (s.receive bytes).completed = false := hrunning
  apply hanswered.before
  · intro rest hrest
    rw [owed_of_running hreceived] at hrest
    rw [owed_of_running hrunning, ← hrest]
    simp [receive, upcoming, Poll.bytes]
  · rw [weight_of_running hrunning, weight_of_running hreceived]
    simp only [receive, Poll.weight, length_append, map_cons, sum_cons]
    omega

theorem close_answered (hrunning : s.completed = false) (hanswered : Answered s.close [] result) :
    Answered s [.finished] result := by
  have hclosed : s.close.completed = false := hrunning
  have hlength : (closeLine newline s.pending).length ≤ s.pending.length + 1 :=
    length_closeLine_le s.pending
  apply hanswered.before
  · intro rest hrest
    rw [owed_of_running hclosed] at hrest
    rw [owed_of_running hrunning, ← hrest]
    simp [close, upcoming, Poll.bytes, normalised_closeLine]
  · rw [weight_of_running hrunning, weight_of_running hclosed]
    simp only [close, Poll.weight, map_cons, sum_cons]
    omega

theorem pending_answered (hsound : Sound s script) :
    Answered s (.pending :: script) (some (.pending, s, script)) := by
  refine ⟨_, _, _, rfl, ?_, ?_⟩
  · intro hfinished
    cases hfinished
  · intro
    refine ⟨by simp, .inr hsound, ?_, ?_⟩
    · rw [weight_of_running hsound.running, weight_of_running hsound.running]
      simp only [map_cons, sum_cons, Poll.weight]
      omega
    · intro rest hrest
      exact hrest

theorem pollNext_answered (hsound : Sound s script) : Answered s script (pollNext s script) := by
  have hrunning : ¬ s.completed = true := by
    rw [hsound.running]
    exact Bool.false_ne_true
  induction script generalizing s with
  | nil =>
    obtain ⟨out, t, hprocess, hworked, hshorter, hfree⟩ := processPending_spec hsound.settled
    have heof : s.innerEof = true := by
      cases heof : s.innerEof with
      | true => rfl
      | false =>
        obtain ⟨events, hscript, -⟩ := hsound.open_ heof
        simp at hscript
    unfold pollNext
    rw [if_neg hrunning, hprocess]
    cases out with
    | some => exact item_answered hsound hworked (hshorter rfl)
    | none =>
      dsimp only
      rw [if_pos (hworked.innerEof.trans heof)]
      exact finish_answered hsound heof hworked (hfree rfl)
  | cons first script ih =>
    obtain ⟨out, t, hprocess, hworked, hshorter, hfree⟩ := processPending_spec hsound.settled
    obtain ⟨heof, hscript⟩ := hsound.ask
    have hopen : ¬ t.innerEof = true := by
      rw [hworked.innerEof, heof]
      exact Bool.false_ne_true
    have hrunningT := (hsound.worked hworked).running
    unfold pollNext
    rw [if_neg hrunning, hprocess]
    cases out with
    | some => exact item_answered hsound hworked (hshorter rfl)
    | none =>
      dsimp only
      rw [if_neg hopen]
      -- The inner stream ends, brings bytes or has nothing yet; only then is the poll over.
      rcases hscript with ⟨rfl, rfl⟩ | ⟨⟨bytes, rfl⟩ | rfl, hevents⟩
      · have hclosed : Sound t.close [] :=
          ⟨hrunningT, hworked.settled, fun hopen => absurd hopen (by simp [close]),
            fun _ => ⟨rfl, cutLines_closeLine t.pending⟩⟩
        have hanswered := close_answered hrunningT
          (ih hclosed (by rw [hclosed.running]; exact Bool.false_ne_true))
        exact hanswered.before (fun rest => owed_worked hsound hworked)
          (weight_worked_le hsound hworked)
      · have hreceived : Sound (t.receive bytes) script :=
          ⟨hrunningT, hworked.settled, fun _ => hevents, fun h => absurd h hopen⟩
        have hanswered := receive_answered hrunningT
          (ih hreceived (by rw [hreceived.running]; exact Bool.false_ne_true))
        exact hanswered.before (fun rest => owed_worked hsound hworked)
          (weight_worked_le hsound hworked)
      · have hwaiting : Sound t script :=
          ⟨hrunningT, hworked.settled, fun _ => hevents, fun h => absurd h hopen⟩
        exact (pending_answered hwaiting).before (fun rest => owed_worked hsound hworked)
          (weight_worked_le hsound hworked)

/-! ## A whole run -/

theorem owed_isSome (hsound : s.completed = true ∨ Sound s script) :
    ∃ rest, owed s script = some rest := by
  rcases hsound with hcompleted | hsound
  · exact ⟨[], by rw [owed, if_pos hcompleted]⟩
  · rw [owed_of_running hsound.running]
    exact normalised_isSome hsound.settled _

theorem pollNext_answered_always (hsound : s.completed = true ∨ Sound s script) :
    Answered s script (pollNext s script) := by
  rcases hsound with hcompleted | hsound
  · refine ⟨.finished, s, script, ?_, ?_, ?_⟩
    · unfold pollNext
      rw [if_pos hcompleted]
    · intro
      rw [owed, if_pos hcompleted]
    · intro hne
      exact absurd rfl hne
  · exact pollNext_answered hsound

def Collecting (whole : Bytes) (c : NormalizingStream × List Poll × List Bytes) : Prop :=
  (c.1.completed = true ∨ Sound c.1 c.2.1) ∧
    ∀ rest, owed c.1 c.2.1 = some rest → whole = c.2.2.flatten ++ rest

theorem Collecting.next (hcollecting : Collecting whole c) {poll : Poll} {outs : List Bytes}
    (hsound : s.completed = true ∨ Sound s script)
    (hrest : ∀ rest, owed s script = some rest → owed c.1 c.2.1 = some (poll.bytes ++ rest))
    (houts : outs.flatten = c.2.2.flatten ++ poll.bytes) : Collecting whole (s, script, outs) := by
  refine ⟨hsound, ?_⟩
  intro rest howed
  rw [hcollecting.2 _ (hrest rest howed), houts, append_assoc]

theorem collectBody_again {next : NormalizingStream × List Poll × List Bytes}
    (hcollecting : Collecting whole c) (hbody : collectBody c = .again next) :
    Collecting whole next ∧ weight next.1 next.2.1 < weight c.1 c.2.1 := by
  obtain ⟨poll, s, script, hpoll, -, hmore⟩ := pollNext_answered_always hcollecting.1
  unfold collectBody at hbody
  rw [hpoll] at hbody
  cases poll with
  | error e => exact absurd rfl ((hmore (by simp)).1 e)
  | finished => cases hbody
  | _ =>
    obtain ⟨-, hnext, hless, hrest⟩ := hmore (by simp)
    cases hbody
    exact ⟨hcollecting.next hnext hrest (by simp [Poll.bytes]), hless⟩

theorem collectBody_leave {result : Option (List Bytes)} (hcollecting : Collecting whole c)
    (hbody : collectBody c = .leave result) :
    ∃ outs, result = some outs ∧ whole = outs.flatten := by
  obtain ⟨hsound, hwhole⟩ := hcollecting
  obtain ⟨poll, s, script, hpoll, hfinished, -⟩ := pollNext_answered_always hsound
  unfold collectBody at hbody
  rw [hpoll] at hbody
  cases poll with
  | finished =>
    cases hbody
    refine ⟨c.2.2, rfl, ?_⟩
    rw [hwhole [] (hfinished rfl), append_nil]
  | _ => cases hbody

theorem collect_eq_normalised {events : List Poll} (hflowing : Flowing events) :
    ∃ outs, collect (events ++ [.finished]) = some outs ∧
      normalised .new (upcoming events) = some outs.flatten := by
  have hsound : Sound new (events ++ [.finished]) :=
    ⟨rfl, ThinkTagAccumulator.settled_new, fun _ => ⟨events, rfl, hflowing⟩,
      fun heof => by cases heof⟩
  obtain ⟨whole, hwhole⟩ := owed_isSome (.inr hsound)
  have hinit : Collecting whole (new, events ++ [.finished], []) := by
    refine ⟨.inr hsound, ?_⟩
    intro rest hrest
    rw [hwhole, Option.some_inj] at hrest
    simp [hrest]
  obtain ⟨result, hrun⟩ := runLoop_terminates (I := Collecting whole)
    (fun c => weight c.1 c.2.1) (fun _ _ hcollecting hbody => collectBody_again hcollecting hbody)
    hinit (Nat.lt_succ_self _)
  obtain ⟨outs, rfl, houts⟩ := runLoop_rule (I := Collecting whole)
    (fun _ _ hcollecting hbody => (collectBody_again hcollecting hbody).1)
    (fun _ _ hcollecting hbody => collectBody_leave hcollecting hbody) hinit hrun
  refine ⟨outs, by rw [collect, hrun]; rfl, ?_⟩
  have hstart : owed new (events ++ [.finished]) = normalised .new (upcoming events) := by
    rw [owed_of_running rfl]
    simp [new, upcoming, Poll.bytes]
  rw [← hstart, hwhole, houts]

end NormalizingStream

end

end LlmProxy
