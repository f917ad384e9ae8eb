import LlmProxy.BoundedLoop
import LlmProxy.JsonValue
import LlmProxy.Utf8Text

/-!
# The think-tag accumulator

`ThinkTagAccumulator` and its one-shot use `extract_think_tags`
(`response_normalize.rs`).  Offsets are byte offsets, and every slice and
drain of the source is a `splitAtOffset` here: the functions answer nothing
where the source would panic on an offset inside a character.
-/

namespace LlmProxy

open BoundedLoop
open Json (Text)
open Utf8Text

inductive ThinkEvent where
  | reasoning (s : Text)
  | text (s : Text)
  | pending
  deriving DecidableEq, Repr

inductive ThinkState where
  | inText
  | inReasoning
  deriving DecidableEq, Repr

inductive TagKind where
  | opening
  | closing
  deriving DecidableEq, Repr

abbrev TagPair := Text × Text

def builtinThinkPairs : List TagPair :=
  [("<think>".toList, "</think>".toList), ("<thinking>".toList, "</thinking>".toList)]

structure ThinkTagAccumulator where
  pairs : List TagPair
  state : ThinkState
  pending : Text
  longestTag : ℕ
  tagCount : ℕ
  deriving DecidableEq, Repr

def ThinkState.event (state : ThinkState) (s : Text) : List ThinkEvent :=
  if s.isEmpty then []
  else
    match state with
    | .inText => [.text s]
    | .inReasoning => [.reasoning s]

def TagKind.target : TagKind → ThinkState
  | .opening => .inReasoning
  | .closing => .inText

namespace ThinkTagAccumulator

def new (pairs : List TagPair) : ThinkTagAccumulator where
  pairs := pairs
  state := .inText
  pending := []
  longestTag := ((pairs.map fun pair => max (byteLen pair.1) (byteLen pair.2)).max?).getD 0
  tagCount := 0

variable (acc : ThinkTagAccumulator)

def inReasoning : Bool := acc.state = .inReasoning

abbrev FoundTag := ℕ × Text × TagKind

/-- The inner loop body of `find_next_tag`: an earlier match replaces the best
one, and so does a longer match at the same offset. -/
def considerNeedle (best : Option FoundTag) (needle : Text) (kind : TagKind) : Option FoundTag :=
  if needle.isEmpty then best
  else if kind = .closing ∧ acc.state = .inText then best
  else
    match find needle acc.pending with
    | none => best
    | some idx =>
      match best with
      | none => some (idx, needle, kind)
      | some (b, bestTag, _) =>
        if idx < b ∨ (idx = b ∧ byteLen bestTag < byteLen needle) then
          some (idx, needle, kind)
        else best

/-- The first tag, of several at one offset the longest. -/
def findNextTag : Option FoundTag :=
  acc.pairs.foldl
    (fun best pair =>
      if pair.1.isEmpty then best
      else
        acc.considerNeedle (acc.considerNeedle best pair.1 .opening) pair.2 .closing)
    none

def startsTag (pairs : List TagPair) (substr : Text) : Bool :=
  pairs.any fun pair =>
    !pair.1.isEmpty &&
      [pair.1, pair.2].any fun needle => !needle.isEmpty && substr.isPrefixOf needle

def tailStartsTag (pairs : List TagPair) (tail : Text) : ℕ → Text → Option Bool
  | _, [] => some false
  | stop, ch :: rest =>
    match splitAtOffset (stop + ch.utf8Size) tail with
    | none => none
    | some (substr, _) =>
      if startsTag pairs substr then some true
      else tailStartsTag pairs tail (stop + ch.utf8Size) rest

def latestTagStart (acc : ThinkTagAccumulator) (minPos : ℕ) :
    List (ℕ × Char) → Option (Option ℕ)
  | [] => some none
  | (pos, _) :: rest =>
    if pos < minPos then some none
    else
      match splitAtOffset pos acc.pending with
      | none => none
      | some (_, tail) =>
        match tailStartsTag acc.pairs tail 0 tail with
        | none => none
        | some true => some (some pos)
        | some false => latestTagStart acc minPos rest

/-- Cuts off a tail that may be the start of a tag. -/
def holdPartialTail : Option (Text × Text) :=
  if acc.pending.isEmpty ∨ acc.longestTag = 0 then some (acc.pending, [])
  else
    let maxKeep := acc.longestTag - 1
    let minPos := byteLen acc.pending - maxKeep
    match acc.latestTagStart minPos (charIndices 0 acc.pending).reverse with
    | none => none
    | some none => some (acc.pending, [])
    | some (some pos) => splitAtOffset pos acc.pending

def cutTag (pos : ℕ) (tag : Text) : Option (Text × Text) :=
  match splitAtOffset pos acc.pending with
  | none => none
  | some (before, rest) =>
    match splitAtOffset (byteLen tag) rest with
    | none => none
    | some (_, after) => some (before, after)

/-- The exit of `drain_resolved`: no complete tag is left. -/
def finishDrain (events : List ThinkEvent) : Option (List ThinkEvent × ThinkTagAccumulator) :=
  match acc.holdPartialTail with
  | none => none
  | some (flushed, held) =>
    some (events ++ acc.state.event flushed ++ (if held.isEmpty then [] else [.pending]),
      { acc with pending := held })

def drainBody (s : List ThinkEvent × ThinkTagAccumulator) :
    Round (List ThinkEvent × ThinkTagAccumulator)
      (Option (List ThinkEvent × ThinkTagAccumulator)) :=
  match s.2.findNextTag with
  | none => .leave (s.2.finishDrain s.1)
  | some (pos, tag, kind) =>
    match s.2.cutTag pos tag with
    | none => .leave none
    | some (before, after) =>
      .again (s.1 ++ s.2.state.event before,
        { s.2 with
          pending := after
          tagCount := s.2.tagCount + 1
          state := kind.target })

/-- `drain_resolved`: each round takes a non-empty tag out of the pending text,
so as many rounds as it has characters are enough. -/
def drainResolved : Option (List ThinkEvent × ThinkTagAccumulator) :=
  (runLoop drainBody (acc.pending.length + 1) ([], acc)).join

def feed (delta : Text) : Option (List ThinkEvent × ThinkTagAccumulator) :=
  drainResolved { acc with pending := acc.pending ++ delta }

def flush : Text × ThinkTagAccumulator :=
  (acc.pending, { acc with pending := [] })

end ThinkTagAccumulator

def collectEvent (collected : Text × Text × Bool) : ThinkEvent → Text × Text × Bool
  | .reasoning s =>
    let (reasoning, text, _) := collected
    let joined :=
      if !reasoning.isEmpty && !s.isEmpty then reasoning ++ ['\n'] ++ s else reasoning ++ s
    (joined, text, true)
  | .text s =>
    let (reasoning, text, saw) := collected
    (reasoning, text ++ s, saw)
  | .pending => collected

/-- Without a tag there is no reasoning. -/
def extractThinkTags (content : Text) (pairs : List TagPair) : Option (Option Text × Text) :=
  match (ThinkTagAccumulator.new pairs).feed content with
  | none => none
  | some (events, acc) =>
    let (reasoning, text, saw) := events.foldl collectEvent ([], [], false)
    let flushed := acc.flush.1
    let (reasoning, text, saw) :=
      if flushed.isEmpty then (reasoning, text, saw)
      else if acc.inReasoning then
        (if reasoning.isEmpty then flushed else reasoning ++ ['\n'] ++ flushed, text, true)
      else (reasoning, text ++ flushed, saw)
    some (if saw || 0 < acc.tagCount then some reasoning else none, text)

end LlmProxy
