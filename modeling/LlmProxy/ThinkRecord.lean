import LlmProxy.ThinkTagScan

/-!
# What the accumulator keeps, for arbitrary tag pairs

The pairs here are any texts, empty, overlapping or equal ones included.  Nothing that was fed is
missing from the record and the text that is still held back.
-/

namespace LlmProxy

open BoundedLoop List Utf8Text
open Json (Text)

inductive ThinkPiece where
  | payload (state : ThinkState) (s : Text)
  | tag (s : Text) (kind : TagKind)
  deriving DecidableEq, Repr

namespace ThinkPiece

def text : ThinkPiece → Text
  | payload _ s => s
  | tag s _ => s

def events : ThinkPiece → List ThinkEvent
  | payload state s => state.event s
  | tag _ _ => []

end ThinkPiece

theorem ThinkState.filter_event (state : ThinkState) (s : Text) :
    (state.event s).filter (· ≠ .pending) = state.event s := by
  unfold ThinkState.event
  split_ifs
  · rfl
  · cases state <;> simp

namespace ThinkTagAccumulator

variable {acc mid final : ThinkTagAccumulator} {pairs : List TagPair} {state : ThinkState}
  {tag : Text} {kind : TagKind}

def passTag (acc : ThinkTagAccumulator) (kind : TagKind) (after : Text) : ThinkTagAccumulator :=
  { acc with pending := after, tagCount := acc.tagCount + 1, state := kind.target }

/-- The rounds of `drain_resolved`, by what each takes off the pending text. -/
def drainRecord : ℕ → ThinkTagAccumulator → List ThinkPiece
  | 0, _ => []
  | fuel + 1, acc =>
    match acc.findNextTag with
    | none =>
      match acc.holdPartialTail with
      | none => []
      | some (flushed, _) => [.payload acc.state flushed]
    | some (pos, tag, kind) =>
      match acc.cutTag pos tag with
      | none => []
      | some (before, after) =>
        .payload acc.state before :: .tag tag kind ::
          drainRecord fuel (acc.passTag kind after)

/-- What the rounds of a feed took off the pending text, the removed tags at their places. -/
def feedRecord (acc : ThinkTagAccumulator) : List Text → List ThinkPiece
  | [] => []
  | delta :: rest =>
    let fed := { acc with pending := acc.pending ++ delta }
    match acc.feed delta with
    | none => []
    | some (_, next) =>
      drainRecord (fed.pending.length + 1) fed ++ feedRecord next rest

/-- Some usable pair has this tag on a side that counts in this state. -/
def Matchable (pairs : List TagPair) (state : ThinkState) (tag : Text) : Prop :=
  tag ≠ [] ∧ ∃ pair ∈ pairs, pair.1 ≠ [] ∧ (tag = pair.1 ∨ tag = pair.2 ∧ state = .inReasoning)

theorem Matchable.mem_usableNeedles (hmatch : Matchable pairs state tag) :
    ∃ kind, (tag, kind) ∈ usableNeedles pairs state := by
  obtain ⟨hne, pair, hpair, hopen, hside⟩ := hmatch
  rcases hside with rfl | ⟨rfl, rfl⟩
  · refine ⟨.opening, mem_flatMap.mpr ⟨pair, hpair, ?_⟩⟩
    simp [usableNeedle, hopen]
  · refine ⟨.closing, mem_flatMap.mpr ⟨pair, hpair, ?_⟩⟩
    simp [usableNeedle, hopen, hne]

theorem ne_nil_of_mem_usableNeedles (hmem : (tag, kind) ∈ usableNeedles pairs state) :
    tag ≠ [] := by
  obtain ⟨pair, -, hpair⟩ := mem_flatMap.mp hmem
  unfold usableNeedle at hpair
  grind

theorem not_infix_of_findNextTag (hnone : acc.findNextTag = none)
    (hmatch : Matchable acc.pairs acc.state tag) : ¬ tag <:+: acc.pending := by
  rintro ⟨front, back, hsplit⟩
  obtain ⟨kind, hmem⟩ := hmatch.mem_usableNeedles
  obtain ⟨n, hfind, -⟩ := find_le front (prefix_append tag back)
  rw [← append_assoc, hsplit, (searchedFor_findNextTag acc).missed hnone (tag, kind) hmem] at hfind
  cases hfind

theorem exists_tailStartsTag (pairs : List TagPair) (done rest : Text) :
    ∃ starts, tailStartsTag pairs (done ++ rest) (byteLen done) rest = some starts := by
  induction rest generalizing done with
  | nil => exact ⟨false, rfl⟩
  | cons ch rest ih =>
    have hcut := splitAtOffset_append (done ++ [ch]) rest
    have hlater := ih (done ++ [ch])
    simp only [append_assoc, singleton_append, byteLen_append, byteLen_cons,
      byteLen_nil, Nat.add_zero] at hcut hlater
    unfold tailStartsTag
    rw [hcut]
    dsimp only
    split_ifs
    · exact ⟨true, rfl⟩
    · exact hlater

/-- Where the backward walk stops, if it stops at all, is a place between two
characters and not before `minPos`. -/
theorem exists_latestTagStart (minPos : ℕ) (front back : Text)
    (hsplit : acc.pending = front ++ back) :
    ∃ found, acc.latestTagStart minPos (charIndices 0 front).reverse = some found ∧
      ∀ pos, found = some pos →
        minPos ≤ pos ∧ ∃ a b, acc.pending = a ++ b ∧ byteLen a = pos := by
  induction front using List.reverseRecOn generalizing back with
  | nil => exact ⟨none, rfl, by simp⟩
  | append_singleton front c ih =>
    have hwhole : acc.pending = front ++ c :: back := by simpa using hsplit
    have hindices : (charIndices 0 (front ++ [c])).reverse =
        (byteLen front, c) :: (charIndices 0 front).reverse := by
      simp [charIndices_append, charIndices]
    obtain ⟨starts, hstarts⟩ := exists_tailStartsTag acc.pairs [] (c :: back)
    rw [hindices]
    unfold latestTagStart
    by_cases hbreak : byteLen front < minPos
    · exact ⟨none, if_pos hbreak, by simp⟩
    · have hcut := splitAtOffset_append front (c :: back)
      rw [← hwhole] at hcut
      rw [if_neg hbreak, hcut]
      simp only [nil_append, byteLen_nil] at hstarts
      simp only [hstarts]
      cases starts with
      | true =>
        refine ⟨some (byteLen front), rfl, ?_⟩
        intro pos hpos
        cases hpos
        exact ⟨Nat.le_of_not_lt hbreak, front, c :: back, hwhole, rfl⟩
      | false => exact ih (c :: back) hwhole

theorem exists_holdPartialTail (acc : ThinkTagAccumulator) :
    ∃ flushed held, acc.holdPartialTail = some (flushed, held) ∧
      acc.pending = flushed ++ held ∧ (held = [] ∨ byteLen held < acc.longestTag) := by
  obtain ⟨found, hfound, hpos⟩ := exists_latestTagStart
    (byteLen acc.pending - (acc.longestTag - 1)) acc.pending [] (append_nil _).symm
  unfold holdPartialTail
  by_cases hstop : acc.pending.isEmpty ∨ acc.longestTag = 0
  · exact ⟨acc.pending, [], if_pos hstop, (append_nil _).symm, .inl rfl⟩
  · rw [if_neg hstop]
    simp only [hfound]
    cases found with
    | none => exact ⟨acc.pending, [], rfl, (append_nil _).symm, .inl rfl⟩
    | some pos =>
      obtain ⟨hlow, flushed, held, hsplit, hlen⟩ := hpos pos rfl
      have hcut := splitAtOffset_append flushed held
      have hsum : byteLen acc.pending = byteLen flushed + byteLen held := by
        rw [hsplit, byteLen_append]
      rw [← hsplit, hlen] at hcut
      refine ⟨flushed, held, hcut, hsplit, .inr ?_⟩
      omega

/-! ## The rounds of a drain -/

/-- From `acc` to `final` the events come from the record, and the record with
the pending text gives the input. -/
structure Kept (acc : ThinkTagAccumulator) (input : Text) (final : ThinkTagAccumulator)
    (events : List ThinkEvent) (record : List ThinkPiece) : Prop where
  pairs : final.pairs = acc.pairs
  longestTag : final.longestTag = acc.longestTag
  emitted : events.filter (· ≠ .pending) = record.flatMap ThinkPiece.events
  text : record.flatMap ThinkPiece.text ++ final.pending = acc.pending ++ input

structure Resting (acc : ThinkTagAccumulator) : Prop where
  short : acc.pending = [] ∨ byteLen acc.pending < acc.longestTag
  noTag : ∀ tag, Matchable acc.pairs acc.state tag → ¬ tag <:+: acc.pending

theorem Kept.trans {first second : Text} {events later : List ThinkEvent}
    {record more : List ThinkPiece} (hfirst : Kept acc first mid events record)
    (hsecond : Kept mid second final later more) :
    Kept acc (first ++ second) final (events ++ later) (record ++ more) where
  pairs := hsecond.pairs.trans hfirst.pairs
  longestTag := hsecond.longestTag.trans hfirst.longestTag
  emitted := by rw [filter_append, hfirst.emitted, hsecond.emitted, flatMap_append]
  text := by
    rw [flatMap_append, append_assoc, hsecond.text, ← append_assoc, hfirst.text, append_assoc]

theorem exists_cutTag {pos : ℕ} (hsome : acc.findNextTag = some (pos, tag, kind)) :
    ∃ before after, acc.cutTag pos tag = some (before, after) ∧
      acc.pending = before ++ tag ++ after ∧ tag ≠ [] := by
  obtain ⟨hmem, hfind, -⟩ := (searchedFor_findNextTag acc).found pos tag kind hsome
  obtain ⟨before, after, hsplit, hlen⟩ := find_eq_some hfind
  refine ⟨before, after, ?_, hsplit, ne_nil_of_mem_usableNeedles hmem⟩
  unfold cutTag
  rw [hsplit, ← hlen, append_assoc, splitAtOffset_append]
  dsimp only
  rw [splitAtOffset_append]

/-- With more rounds than characters the drain ends; each round takes out a
non-empty tag. -/
theorem kept_drain (fuel : ℕ) (done : List ThinkEvent) (hfuel : acc.pending.length < fuel) :
    ∃ events final, runLoop drainBody fuel (done, acc) = some (some (done ++ events, final)) ∧
      Kept acc [] final events (drainRecord fuel acc) ∧ final.Resting := by
  induction fuel generalizing acc done with
  | zero => omega
  | succ fuel ih =>
    cases hfind : acc.findNextTag with
    | none =>
      obtain ⟨flushed, held, hhold, hsplit, hshort⟩ := exists_holdPartialTail acc
      refine ⟨acc.state.event flushed ++ (if held.isEmpty then [] else [.pending]),
        { acc with pending := held }, ?_, ⟨rfl, rfl, ?_, ?_⟩, hshort, ?_⟩
      · simp [runLoop, drainBody, hfind, finishDrain, hhold]
      · rw [filter_append, ThinkState.filter_event]
        split_ifs <;> simp [drainRecord, hfind, hhold, ThinkPiece.events]
      · simp [drainRecord, hfind, hhold, ThinkPiece.text, hsplit]
      · intro tag hmatch hinfix
        apply not_infix_of_findNextTag hfind hmatch
        rw [hsplit]
        exact hinfix.trans (suffix_append flushed held).isInfix
    | some foundTag =>
      obtain ⟨pos, tag, kind⟩ := foundTag
      obtain ⟨before, after, hcut, hsplit, hne⟩ := exists_cutTag hfind
      have hshorter : after.length < fuel := by
        have hpos := length_pos_of_ne_nil hne
        rw [hsplit] at hfuel
        simp only [length_append] at hfuel
        omega
      obtain ⟨events, final, hrun, hkept, hresting⟩ :=
        @ih (acc.passTag kind after) (done ++ acc.state.event before) hshorter
      refine ⟨acc.state.event before ++ events, final, ?_, ?_, hresting⟩
      · simpa [runLoop, drainBody, hfind, hcut, passTag] using hrun
      · have hround : Kept acc [] (acc.passTag kind after) (acc.state.event before)
            [.payload acc.state before, .tag tag kind] := by
          refine ⟨rfl, rfl, ?_, ?_⟩
          · rw [ThinkState.filter_event]
            simp [ThinkPiece.events]
          · simp [ThinkPiece.text, passTag, hsplit]
        simpa [drainRecord, hfind, hcut] using hround.trans hkept

theorem kept_feed (acc : ThinkTagAccumulator) (delta : Text) :
    ∃ events final, acc.feed delta = some (events, final) ∧
      Kept acc delta final events
        (drainRecord ((acc.pending ++ delta).length + 1)
          { acc with pending := acc.pending ++ delta }) ∧ final.Resting := by
  obtain ⟨events, final, hrun, hkept, hresting⟩ := @kept_drain
    { acc with pending := acc.pending ++ delta } _ [] (Nat.lt_succ_self _)
  refine ⟨events, final, ?_, ⟨hkept.pairs, hkept.longestTag, hkept.emitted, ?_⟩, hresting⟩
  · unfold feed drainResolved
    rw [hrun]
    rfl
  · simpa using hkept.text

theorem Resting.feedAll (hresting : acc.Resting) (deltas : List Text) :
    ∃ events final, acc.feedAll deltas = some (events, final) ∧
      Kept acc deltas.flatten final events (acc.feedRecord deltas) ∧ final.Resting := by
  induction deltas generalizing acc with
  | nil => exact ⟨[], acc, rfl, ⟨rfl, rfl, rfl, by simp [feedRecord]⟩, hresting⟩
  | cons delta rest ih =>
    obtain ⟨events, next, hfeed, hkept, hnext⟩ := kept_feed acc delta
    obtain ⟨later, final, hrest, hlater, hfinal⟩ := ih hnext
    refine ⟨events ++ later, final, ?_, ?_, hfinal⟩
    · simp [ThinkTagAccumulator.feedAll, hfeed, hrest]
    · simpa [feedRecord, hfeed] using hkept.trans hlater

theorem exists_pair_of_lt_longestTag {n : ℕ} (hlt : n < (new pairs).longestTag) :
    ∃ pair ∈ pairs, n < max (byteLen pair.1) (byteLen pair.2) := by
  simp only [new] at hlt
  cases hmax : (pairs.map fun pair => max (byteLen pair.1) (byteLen pair.2)).max? with
  | none => simp [hmax] at hlt
  | some =>
    obtain ⟨pair, hpair, rfl⟩ := mem_map.mp (max?_mem hmax)
    rw [hmax] at hlt
    exact ⟨pair, hpair, hlt⟩

/-- After every sequence of feeds, whatever the pairs, no slice went wrong, the
held text is short and without a tag, and the record of what was emitted and
removed continues with it to everything that was fed. -/
theorem feedAll_conserves_text (pairs : List TagPair) (deltas : List Text) :
    ∃ events acc, (new pairs).feedAll deltas = some (events, acc) ∧
      (acc.pending = [] ∨
        ∃ pair ∈ pairs, byteLen acc.pending < max (byteLen pair.1) (byteLen pair.2)) ∧
      (∀ tag, Matchable pairs acc.state tag → ¬ tag <:+: acc.pending) ∧
      events.filter (· ≠ .pending) =
        ((new pairs).feedRecord deltas).flatMap ThinkPiece.events ∧
      ((new pairs).feedRecord deltas).flatMap ThinkPiece.text ++ acc.pending =
        deltas.flatten := by
  have hnew : (new pairs).Resting := by
    refine ⟨.inl rfl, ?_⟩
    rintro tag ⟨hne, -⟩ hinfix
    exact hne (infix_nil.mp hinfix)
  obtain ⟨events, acc, hfeed, hkept, hresting⟩ := hnew.feedAll deltas
  have hpairs : acc.pairs = pairs := hkept.pairs
  have hnoTag := hresting.noTag
  rw [hpairs] at hnoTag
  refine ⟨events, acc, hfeed, ?_, hnoTag, hkept.emitted, hkept.text⟩
  rcases hresting.short with hempty | hshort
  · exact .inl hempty
  · rw [hkept.longestTag] at hshort
    exact .inr (exists_pair_of_lt_longestTag hshort)

end ThinkTagAccumulator

end LlmProxy
