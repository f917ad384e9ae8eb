import LlmProxy.StreamRewrite

/-!
# What a client reads from a normalised stream

A choice is read as its index, its content and its reasoning.  The forwarded chunks are read in the
same way, except that choices with nothing to read may be missing.
-/

namespace LlmProxy

open List MarkerScan
open Json (Text Value Fields)

structure Reading where
  index : Option ℤ
  content : Text
  reasoning : Text
  deriving DecidableEq, Repr

def readingOf (choice : Value) : Reading where
  index := indexOf choice
  content := contentOf choice
  reasoning := reasoningContentOf choice

def Reading.spoken (reading : Reading) : Bool :=
  !reading.content.isEmpty || !reading.reasoning.isEmpty

def heard (choices : List Value) : List Reading :=
  (choices.map readingOf).filter Reading.spoken

/-! ## The choices of a stream under one scanner -/

abbrev ThinkScan := Scan Char ThinkState

def ThinkScan.start : ThinkScan := ⟨.inText, [], 0, []⟩

def scanned (s : Text) : ThinkScan := scan thinkTable ThinkScan.start s

variable (state : ThinkScan)

def ThinkScan.quiet : ThinkScan := { state with out := [] }

def splitReading (released : ThinkScan) (choice : Value) : Reading where
  index := indexOf choice
  content := sideOf .inText released.out
  reasoning := ownReasoning choice ++ sideOf .inReasoning released.out

/-- One scanner reads the contents in the order of arrival, each choice gets what the scanner
releases while it reads that choice, and keeps the reasoning it brought along. -/
def splitReadings (state : ThinkScan) : List Value → List Reading × ThinkScan
  | [] => ([], state)
  | choice :: rest =>
    let released := scan thinkTable state.quiet (contentOf choice)
    let more := splitReadings (ThinkScan.quiet released) rest
    (splitReading released choice :: more.1, more.2)

theorem splitReadings_append (a b : List Value) :
    splitReadings state (a ++ b) =
      ((splitReadings state a).1 ++ (splitReadings (splitReadings state a).2 b).1,
        (splitReadings (splitReadings state a).2 b).2) := by
  induction a generalizing state with
  | nil => rfl
  | cons choice a ih =>
    simp only [cons_append, splitReadings]
    rw [ih]

def ThinkScan.asReasoning : Bool :=
  state.mode = .inReasoning || 0 < state.count

def flushReading (held : Text) (asReasoning : Bool) : Reading :=
  if asReasoning then ⟨some 0, [], held⟩ else ⟨some 0, held, []⟩

def flushReadings : List Reading :=
  if state.held.isEmpty then [] else [flushReading state.held state.asReasoning]

/-! ## The normaliser follows the scanner -/

variable {acc : ThinkTagAccumulator}

theorem ChoiceRewritten.reading {next : ThinkTagAccumulator} {choice rewritten : Value}
    {emit : Bool} {events : List ThinkEvent}
    (hrewritten : ChoiceRewritten acc choice rewritten emit next events) :
    scan thinkTable (acc.scanOf []) (contentOf choice) = next.scanOf (eventsOut events) ∧
      readingOf rewritten = splitReading (next.scanOf (eventsOut events)) choice := by
  constructor
  · simpa using hrewritten.scanned []
  · unfold readingOf
    rw [hrewritten.index, hrewritten.content, hrewritten.reasoning, textOf_eq_sideOf,
      reasoningOf_eq_sideOf]
    rfl

theorem rewriteChoices_spec (hsettled : acc.Settled) (choices : List Value) :
    ∃ rewritten emit next, rewriteChoices acc choices = some (rewritten, emit, next) ∧
      next.Settled ∧
      splitReadings (acc.scanOf []) choices = (rewritten.map readingOf, next.scanOf []) ∧
      (emit = false → heard rewritten = []) := by
  induction choices generalizing acc with
  | nil => exact ⟨[], false, acc, rfl, hsettled, rfl, fun _ => rfl⟩
  | cons choice choices ih =>
    obtain ⟨first, emit, mid, events, hfirst, hrewritten⟩ := rewriteChoice_spec hsettled choice
    obtain ⟨rest, emitRest, next, hrest, hnext, hsplit, hsilent⟩ := ih hrewritten.settled
    obtain ⟨hscan, hreading⟩ := hrewritten.reading
    refine ⟨first :: rest, emit || emitRest, next, ?_, hnext, ?_, ?_⟩
    · simp [rewriteChoices, hfirst, hrest]
    · have hquiet : ThinkScan.quiet (acc.scanOf []) = acc.scanOf [] := rfl
      have hafter : ThinkScan.quiet (mid.scanOf (eventsOut events)) = mid.scanOf [] := rfl
      simp only [splitReadings, hquiet, hscan, hafter, hsplit, map_cons, hreading]
    · intro hemit
      obtain ⟨hfalse, hfalseRest⟩ := Bool.or_eq_false_iff.mp hemit
      obtain ⟨hcontent, hreasoning⟩ := hrewritten.silent hfalse
      have hfirstSilent : (readingOf first).spoken = false := by
        simp [Reading.spoken, readingOf, hcontent, hreasoning]
      have hnone := hsilent hfalseRest
      unfold heard at hnone ⊢
      rw [map_cons, filter_cons_of_neg (by simp [hfirstSilent]), hnone]

theorem heard_append (a b : List Value) : heard (a ++ b) = heard a ++ heard b := by
  simp [heard]

theorem rewriteChunkValue_spec (hsettled : acc.Settled) (chunk : Value) :
    ∃ rewritten emit next, rewriteChunkValue acc chunk = some (rewritten, emit, next) ∧
      next.Settled ∧
      splitReadings (acc.scanOf []) (choicesOf chunk) =
        ((choicesOf rewritten).map readingOf, next.scanOf []) ∧
      (emit = false → heard (choicesOf rewritten) = []) := by
  rcases rewriteChunkValue_cases acc chunk with
    ⟨hchoices, hrewrite⟩ | ⟨fields, choice, rest, rfl, hget⟩
  · refine ⟨chunk, true, acc, hrewrite, hsettled, ?_, ?_⟩
    · rw [hchoices]
      rfl
    · intro hemit
      cases hemit
  · obtain ⟨rewritten, emit, next, hrewrite, hnext, hsplit, hsilent⟩ :=
      rewriteChoices_spec hsettled (choice :: rest)
    have hbefore : choicesOf (.obj fields) = choice :: rest := by
      simp [choicesOf, Value.get, hget]
    have hafter : choicesOf (.obj (Fields.insert "choices" (.arr rewritten) fields)) =
        rewritten := by
      simp [choicesOf, Value.get]
    refine ⟨.obj (Fields.insert "choices" (.arr rewritten) fields),
      (Fields.get "usage" fields).isSome || emit, next, ?_, hnext, ?_, ?_⟩
    · simp [rewriteChunkValue, hget, hrewrite]
    · rw [hbefore, hafter, hsplit]
    · intro hemit
      rw [hafter]
      exact hsilent (Bool.or_eq_false_iff.mp hemit).2

theorem rewriteChunkValue_obj {next : ThinkTagAccumulator} {fields : Fields} {chunk : Value}
    {emit : Bool} (hrewrite : rewriteChunkValue acc (.obj fields) = some (chunk, emit, next)) :
    ∃ rewritten, chunk = .obj rewritten := by
  rcases rewriteChunkValue_path hrewrite with
    ⟨-, rfl, -, -⟩ | ⟨_, _, _, choices, _, -, -, -, rfl, -⟩
  · exact ⟨fields, rfl⟩
  · exact ⟨_, rfl⟩

theorem forwardChunks_spec (hsettled : acc.Settled) (chunks : List Value) :
    ∃ out last, forwardChunks acc chunks = some (out, last) ∧ last.Settled ∧
      (splitReadings (acc.scanOf []) (chunks.flatMap choicesOf)).2 = last.scanOf [] ∧
      heard (out.flatMap choicesOf) =
        (splitReadings (acc.scanOf []) (chunks.flatMap choicesOf)).1.filter Reading.spoken := by
  induction chunks generalizing acc with
  | nil => exact ⟨[], acc, rfl, hsettled, rfl, rfl⟩
  | cons chunk chunks ih =>
    obtain ⟨first, emit, next, hfirst, hnext, hsplit, hsilent⟩ :=
      rewriteChunkValue_spec hsettled chunk
    obtain ⟨out, last, hout, hlast, hstate, hheard⟩ := ih hnext
    have hforwarded : heard ((if emit then [first] else []).flatMap choicesOf) =
        heard (choicesOf first) := by
      cases emit with
      | true => simp
      | false =>
        rw [hsilent rfl]
        rfl
    refine ⟨(if emit then [first] else []) ++ out, last, ?_, hlast, ?_, ?_⟩
    · simp [forwardChunks, hfirst, hout]
    · rw [flatMap_cons, splitReadings_append, hsplit]
      exact hstate
    · rw [flatMap_append, heard_append, hforwarded, hheard, flatMap_cons,
        splitReadings_append, hsplit, filter_append]
      rfl

theorem heard_flushedChunk {flushed : Text} (hne : flushed ≠ []) (asReasoning : Bool) :
    heard (choicesOf (flushedChunk flushed asReasoning)) = [flushReading flushed asReasoning] := by
  cases asReasoning with
  | true =>
    simp [heard, choicesOf, flushedChunk, flushReading, readingOf, indexOf, contentOf,
      reasoningContentOf, deltaOf, strAt, Value.get, Fields.get, Reading.spoken, hne]
  | false =>
    simp [heard, choicesOf, flushedChunk, flushReading, readingOf, indexOf, contentOf,
      reasoningContentOf, deltaOf, strAt, Value.get, Fields.get, Reading.spoken, hne]

theorem heard_flushChunks (acc : ThinkTagAccumulator) :
    heard ((flushChunks acc).flatMap choicesOf) = flushReadings (acc.scanOf []) := by
  have hflag : flushesAsReasoning acc = ThinkScan.asReasoning (acc.scanOf []) := rfl
  have hheld : (acc.scanOf []).held = acc.pending := rfl
  have hflush : acc.flush.1 = acc.pending := rfl
  unfold flushChunks flushReadings
  rw [hflag, hheld, hflush]
  cases hpending : acc.pending with
  | nil => rfl
  | cons c held =>
    have hread := heard_flushedChunk (cons_ne_nil c held)
      (ThinkScan.asReasoning (acc.scanOf []))
    simpa using hread

theorem normaliseChunks_spec (chunks : List Value) :
    ∃ out, normaliseChunks chunks = some out ∧
      heard (out.flatMap choicesOf) =
        (splitReadings .start (chunks.flatMap choicesOf)).1.filter Reading.spoken ++
          flushReadings (splitReadings .start (chunks.flatMap choicesOf)).2 := by
  obtain ⟨out, last, hout, -, hstate, hheard⟩ :=
    forwardChunks_spec ThinkTagAccumulator.settled_new chunks
  have hstart : (ThinkTagAccumulator.new builtinThinkPairs).scanOf [] = ThinkScan.start := rfl
  rw [hstart] at hstate hheard
  refine ⟨out ++ flushChunks last, by simp [normaliseChunks, hout], ?_⟩
  rw [flatMap_append, heard_append, hheard, heard_flushChunks, hstate]

end LlmProxy
