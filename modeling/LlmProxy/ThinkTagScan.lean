import LlmProxy.MarkerScan
import LlmProxy.ThinkTags

/-!
# The accumulator is the marker scanner

With the built-in pairs every tag starts with `<` and has no other `<` in it,
so the scanner of `MarkerScan` describes what the accumulator does: feeding it
a text, in whatever pieces, scans the text symbol by symbol.
-/

namespace LlmProxy

open BoundedLoop List MarkerScan Utf8Text
open Json (Text)

/-! ## The tag table -/

def usableNeedle (state : ThinkState) (needle : Text) (kind : TagKind) : List (Text × TagKind) :=
  if needle.isEmpty ∨ (kind = .closing ∧ state = .inText) then [] else [(needle, kind)]

def usableNeedles (pairs : List TagPair) (state : ThinkState) : List (Text × TagKind) :=
  pairs.flatMap fun pair =>
    if pair.1.isEmpty then []
    else usableNeedle state pair.1 .opening ++ usableNeedle state pair.2 .closing

def thinkTable : TagTable Char ThinkState where
  marker := (· == '<')
  size := Char.utf8Size
  limit := 10
  tags := fun state =>
    (usableNeedles builtinThinkPairs state).map fun needle => (needle.1, needle.2.target)

theorem thinkTable_wellMarked : thinkTable.WellMarked := by
  have htags : ∀ state, ∀ tag ∈ thinkTable.tags state,
      tag.1 ∈ ["<think>".toList, "</think>".toList, "<thinking>".toList, "</thinking>".toList] := by
    intro state
    cases state <;> decide
  constructor
  · intro state tag htag
    have hmem := htags state tag htag
    simp only [mem_cons, not_mem_nil, or_false] at hmem
    rcases hmem with heq | heq | heq | heq
    · exact ⟨'<', "think".toList, '>', heq, rfl, by simp [thinkTable], by decide⟩
    · exact ⟨'<', "/think".toList, '>', heq, rfl, by simp [thinkTable], by decide⟩
    · exact ⟨'<', "thinking".toList, '>', heq, rfl, by simp [thinkTable], by decide⟩
    · exact ⟨'<', "/thinking".toList, '>', heq, rfl, by simp [thinkTable], by decide⟩
  · intro state
    cases state <;> decide
  · intro c hc
    have heq : c = '<' := by simpa [thinkTable] using hc
    subst heq
    decide

theorem thinkTable_weight (s : Text) : thinkTable.weight s = byteLen s := rfl

namespace ThinkTagAccumulator

structure SearchedFor (acc : ThinkTagAccumulator) (seen : List (Text × TagKind))
    (best : Option FoundTag) : Prop where
  missed : best = none → ∀ needle ∈ seen, find needle.1 acc.pending = none
  found : ∀ idx tag kind, best = some (idx, tag, kind) →
    (tag, kind) ∈ seen ∧ find tag acc.pending = some idx ∧
      ∀ needle ∈ seen, ∀ i, find needle.1 acc.pending = some i → idx ≤ i

variable {acc : ThinkTagAccumulator} {seen : List (Text × TagKind)} {best : Option FoundTag}

theorem SearchedFor.keep (hseen : acc.SearchedFor seen best) {needle : Text × TagKind}
    (hlate : ∀ i, find needle.1 acc.pending = some i →
      ∃ idx tag kind, best = some (idx, tag, kind) ∧ idx ≤ i) :
    acc.SearchedFor (seen ++ [needle]) best := by
  constructor
  · intro hnone other hother
    rcases mem_append.mp hother with hold | hnew
    · exact hseen.missed hnone other hold
    · rw [mem_singleton] at hnew
      subst other
      cases hfind : find needle.1 acc.pending with
      | none => rfl
      | some i =>
        obtain ⟨idx, tag, kind, hbest, -⟩ := hlate i hfind
        rw [hnone] at hbest
        cases hbest
  · intro idx tag kind hbest
    obtain ⟨hmem, hfind, hfirst⟩ := hseen.found idx tag kind hbest
    refine ⟨mem_append_left _ hmem, hfind, ?_⟩
    intro other hother i hi
    rcases mem_append.mp hother with hold | hnew
    · exact hfirst other hold i hi
    · rw [mem_singleton] at hnew
      subst other
      obtain ⟨idx', tag', kind', hbest', hle⟩ := hlate i hi
      rw [hbest] at hbest'
      cases hbest'
      exact hle

variable {kind : TagKind} {idx : ℕ} {c : Char}

theorem SearchedFor.replace (hseen : acc.SearchedFor seen best) {needle : Text}
    (hfind : find needle acc.pending = some idx)
    (hfirst : ∀ b tag k, best = some (b, tag, k) → idx ≤ b) :
    acc.SearchedFor (seen ++ [(needle, kind)]) (some (idx, needle, kind)) := by
  constructor
  · intro hnone
    cases hnone
  · intro idx' tag' kind' hbest
    cases hbest
    refine ⟨by simp, hfind, ?_⟩
    intro other hother i hi
    rcases mem_append.mp hother with hold | hnew
    · cases hbest : best with
      | none =>
        rw [hseen.missed hbest other hold] at hi
        cases hi
      | some foundTag =>
        have hle := (hseen.found _ _ _ hbest).2.2 other hold i hi
        have hidx := hfirst _ _ _ hbest
        omega
    · rw [mem_singleton] at hnew
      subst other
      rw [hfind] at hi
      cases hi
      exact le_refl _

theorem SearchedFor.considerNeedle (hseen : acc.SearchedFor seen best) (needle : Text)
    (kind : TagKind) :
    acc.SearchedFor (seen ++ usableNeedle acc.state needle kind)
      (acc.considerNeedle best needle kind) := by
  unfold ThinkTagAccumulator.considerNeedle usableNeedle
  by_cases hempty : needle.isEmpty = true
  · simpa [hempty] using hseen
  · by_cases hskip : kind = .closing ∧ acc.state = .inText
    · simpa [hskip] using hseen
    · simp only [hempty, hskip, Bool.false_eq_true, or_self, if_false]
      cases hfind : find needle acc.pending with
      | none =>
        apply hseen.keep
        intro i hi
        rw [hfind] at hi
        cases hi
      | some idx =>
        cases hbest : best with
        | none =>
          apply hseen.replace hfind
          intro b tag k hsome
          rw [hbest] at hsome
          cases hsome
        | some foundTag =>
          obtain ⟨b, tag, k⟩ := foundTag
          dsimp only
          split_ifs with hbetter
          · apply hseen.replace hfind
            intro b' tag' k' hsome
            rw [hbest] at hsome
            cases hsome
            omega
          · rw [← hbest]
            apply hseen.keep
            intro i hi
            rw [hfind] at hi
            cases hi
            exact ⟨b, tag, k, hbest, by omega⟩

theorem searchedFor_findNextTag (acc : ThinkTagAccumulator) :
    acc.SearchedFor (usableNeedles acc.pairs acc.state) acc.findNextTag := by
  have hgo : ∀ (pairs : List TagPair) (seen : List (Text × TagKind))
      (best : Option FoundTag), acc.SearchedFor seen best →
      acc.SearchedFor (seen ++ usableNeedles pairs acc.state)
        (pairs.foldl (fun best pair =>
          if pair.1.isEmpty then best
          else acc.considerNeedle (acc.considerNeedle best pair.1 .opening) pair.2 .closing)
          best) := by
    intro pairs
    induction pairs with
    | nil =>
      intro seen best hseen
      simpa [usableNeedles] using hseen
    | cons pair pairs ih =>
      intro seen best hseen
      rw [usableNeedles, flatMap_cons, foldl_cons, ← append_assoc]
      apply ih
      by_cases hempty : pair.1.isEmpty = true
      · rw [if_pos hempty, if_pos hempty, append_nil]
        exact hseen
      · rw [if_neg hempty, if_neg hempty, ← append_assoc]
        exact (hseen.considerNeedle pair.1 .opening).considerNeedle pair.2 .closing
  have hstart : acc.SearchedFor [] none := by
    constructor
    · intro _ needle hmem
      cases hmem
    · intro idx tag kind hnone
      cases hnone
  exact hgo acc.pairs [] none hstart

structure Builtin (acc : ThinkTagAccumulator) : Prop where
  pairs : acc.pairs = builtinThinkPairs
  longestTag : acc.longestTag = 11

theorem builtin_new : (new builtinThinkPairs).Builtin := ⟨rfl, by decide⟩

theorem startsTag_builtin (rest : Text) (hc : c ≠ '<') :
    startsTag builtinThinkPairs (c :: rest) = false := by
  simp [startsTag, builtinThinkPairs, List.isPrefixOf, hc]

theorem tailStartsTag_builtin_rest (hc : c ≠ '<') (done rest : Text) :
    tailStartsTag builtinThinkPairs (c :: done ++ rest) (byteLen (c :: done)) rest =
      some false := by
  induction rest generalizing done with
  | nil => rfl
  | cons ch rest ih =>
    have hsplit : splitAtOffset (byteLen (c :: done) + ch.utf8Size)
        (c :: done ++ ch :: rest) = some (c :: (done ++ [ch]), rest) := by
      have hcut := splitAtOffset_append (c :: (done ++ [ch])) rest
      simpa [Nat.add_assoc] using hcut
    have hrest := ih (done ++ [ch])
    unfold tailStartsTag
    rw [hsplit]
    dsimp only
    rw [startsTag_builtin _ hc]
    simpa [Nat.add_assoc] using hrest

theorem tailStartsTag_builtin (c : Char) (rest : Text) :
    tailStartsTag builtinThinkPairs (c :: rest) 0 (c :: rest) = some (c == '<') := by
  have hsplit : splitAtOffset (0 + c.utf8Size) (c :: rest) = some ([c], rest) := by
    have hcut := splitAtOffset_append [c] rest
    simpa using hcut
  unfold tailStartsTag
  rw [hsplit]
  dsimp only
  by_cases hc : c = '<'
  · subst hc
    rfl
  · rw [startsTag_builtin _ hc]
    have hrest := tailStartsTag_builtin_rest hc [] rest
    have hbeq : (c == '<') = false := by simpa using hc
    rw [hbeq]
    simpa using hrest

section

variable (hbuiltin : acc.Builtin)

include hbuiltin

theorem Builtin.mem_tags {tag : Text × ThinkState} :
    tag ∈ thinkTable.tags acc.state ↔
      ∃ needle ∈ usableNeedles acc.pairs acc.state, (needle.1, needle.2.target) = tag := by
  rw [hbuiltin.pairs]
  exact mem_map

theorem Builtin.noTag (hnone : acc.findNextTag = none) :
    thinkTable.NoTag acc.state acc.pending := by
  intro rest hrest
  rw [tagAt_eq_none_iff]
  intro tag htag hpre
  obtain ⟨needle, hneedle, rfl⟩ := hbuiltin.mem_tags.mp htag
  obtain ⟨front, hfront⟩ := hrest
  obtain ⟨n, hfind, -⟩ := find_le front hpre
  rw [hfront, (searchedFor_findNextTag acc).missed hnone needle hneedle] at hfind
  cases hfind

theorem Builtin.firstTag {tag : Text} (hsome : acc.findNextTag = some (idx, tag, kind)) :
    ∃ before after, acc.cutTag idx tag = some (before, after) ∧
      thinkTable.FirstTag acc.state acc.pending before (tag, kind.target) after := by
  obtain ⟨hmem, hfind, hfirst⟩ := (searchedFor_findNextTag acc).found idx tag kind hsome
  obtain ⟨before, after, hsplit, hlen⟩ := find_eq_some hfind
  have hcut : acc.cutTag idx tag = some (before, after) := by
    unfold cutTag
    rw [hsplit, ← hlen, append_assoc, splitAtOffset_append]
    dsimp only
    rw [splitAtOffset_append]
  refine ⟨before, after, hcut, ?_⟩
  refine firstTag_of_leftmost thinkTable_wellMarked
    (hbuiltin.mem_tags.mpr ⟨(tag, kind), hmem, rfl⟩) hsplit ?_
  intro front back hbefore hback
  rw [tagAt_eq_none_iff]
  intro other hother hpre
  obtain ⟨needle, hneedle, rfl⟩ := hbuiltin.mem_tags.mp hother
  obtain ⟨n, hn, hle⟩ := find_le front hpre
  have hwhole : front ++ (back ++ tag ++ after) = acc.pending := by
    rw [hsplit, hbefore]
    simp
  have hearly := hfirst needle hneedle n (hwhole ▸ hn)
  have hpos := byteLen_pos hback
  rw [← hlen, hbefore, byteLen_append] at hearly
  omega

/-- From a split whose right part has no `<`, the loop finds the start of the
held tail. -/
theorem latestTagStart_builtin (front back : Text) (hsplit : acc.pending = front ++ back)
    (hback : ∀ x ∈ back, thinkTable.marker x = false) :
    acc.latestTagStart (byteLen acc.pending - 10) (charIndices 0 front).reverse =
      some (if thinkTable.heldTail acc.pending = [] then none
        else some (byteLen (thinkTable.released acc.pending))) := by
  -- The search goes backwards: `back` is what it has passed without finding a `<`.
  induction front using List.reverseRecOn generalizing back with
  | nil =>
    have hlast : thinkTable.lastMarked acc.pending = [] := by
      rw [lastMarked_eq_nil_iff, hsplit]
      exact hback
    have hheld : thinkTable.heldTail acc.pending = [] := by
      unfold TagTable.heldTail
      rw [hlast]
      exact if_pos (Nat.zero_le _)
    simp [charIndices, latestTagStart, hheld]
  | append_singleton front c ih =>
    have hwhole : acc.pending = front ++ c :: back := by simpa using hsplit
    have hlen : byteLen acc.pending = byteLen front + byteLen (c :: back) := by
      rw [hwhole, byteLen_append]
    have hindices : (charIndices 0 (front ++ [c])).reverse =
        (byteLen front, c) :: (charIndices 0 front).reverse := by
      simp [charIndices_append, charIndices]
    rw [hindices]
    unfold latestTagStart
    by_cases hbreak : byteLen front < byteLen acc.pending - 10
    · have hheld : thinkTable.heldTail acc.pending = [] := by
        rw [hwhole]
        apply heldTail_eq_nil_of_long front hback
        rw [thinkTable_weight]
        simp only [thinkTable]
        omega
      rw [if_pos hbreak, if_pos hheld]
    · have hcut : splitAtOffset (byteLen front) acc.pending = some (front, c :: back) := by
        rw [hwhole, splitAtOffset_append]
      rw [if_neg hbreak, hcut, hbuiltin.pairs]
      dsimp only
      rw [tailStartsTag_builtin]
      by_cases hc : c = '<'
      · have hmark : thinkTable.marker c = true := by simp [thinkTable, hc]
        have hfits : thinkTable.weight (c :: back) ≤ thinkTable.limit := by
          rw [thinkTable_weight]
          simp only [thinkTable]
          omega
        have hheld : thinkTable.heldTail (front ++ c :: back) = c :: back := by
          unfold TagTable.heldTail
          rw [lastMarked_append front hmark hback, if_pos hfits]
        have hbeq : (c == '<') = true := by simpa using hc
        rw [hbeq, hwhole, released_eq hheld, hheld]
        rfl
      · have hbeq : (c == '<') = false := by simpa using hc
        rw [hbeq]
        apply ih (c :: back) hwhole
        intro x hx
        rcases mem_cons.mp hx with rfl | hx
        · exact hbeq
        · exact hback x hx

theorem Builtin.holdPartialTail :
    acc.holdPartialTail =
      some (thinkTable.released acc.pending, thinkTable.heldTail acc.pending) := by
  have hloop := latestTagStart_builtin hbuiltin acc.pending [] (by simp) (by simp)
  have hwhole := released_append_heldTail (T := thinkTable) acc.pending
  unfold ThinkTagAccumulator.holdPartialTail
  by_cases hempty : acc.pending = []
  · simp [hempty, TagTable.released]
  · have hgo : ¬ (acc.pending.isEmpty = true ∨ acc.longestTag = 0) := by
      simp [hempty, hbuiltin.longestTag]
    rw [if_neg hgo, hbuiltin.longestTag]
    dsimp only
    rw [hloop]
    by_cases hheld : thinkTable.heldTail acc.pending = []
    · rw [hheld, append_nil] at hwhole
      rw [if_pos hheld, hheld, hwhole]
    · have hcut := splitAtOffset_append (thinkTable.released acc.pending)
        (thinkTable.heldTail acc.pending)
      rw [hwhole] at hcut
      rw [if_neg hheld]
      exact hcut

end

end ThinkTagAccumulator

def eventsOut (events : List ThinkEvent) : List (ThinkState × Char) :=
  events.flatMap fun event =>
    match event with
    | .text s => emit .inText s
    | .reasoning s => emit .inReasoning s
    | .pending => []

theorem eventsOut_append (a b : List ThinkEvent) :
    eventsOut (a ++ b) = eventsOut a ++ eventsOut b := by
  simp [eventsOut]

theorem eventsOut_event (state : ThinkState) (s : Text) :
    eventsOut (state.event s) = emit state s := by
  unfold ThinkState.event
  cases s with
  | nil => rfl
  | cons => cases state <;> simp [eventsOut]

namespace ThinkTagAccumulator

def scanOf (acc : ThinkTagAccumulator) (out : List (ThinkState × Char)) : Scan Char ThinkState where
  mode := acc.state
  held := acc.pending
  count := acc.tagCount
  out := out

structure Settled (acc : ThinkTagAccumulator) : Prop where
  builtin : acc.Builtin
  noTag : thinkTable.NoTag acc.state acc.pending
  held : thinkTable.heldTail acc.pending = acc.pending

theorem settled_new : (new builtinThinkPairs).Settled where
  builtin := builtin_new
  noTag := noTag_nil thinkTable_wellMarked
  held := heldTail_nil

/-! ### The rounds of a drain -/

variable {s : List ThinkEvent × ThinkTagAccumulator} {acc : ThinkTagAccumulator}
  {result : Option (List ThinkEvent × ThinkTagAccumulator)}
  {next : List ThinkEvent × ThinkTagAccumulator} {start : ThinkTagAccumulator}

theorem Builtin.drainBody_again (hbuiltin : s.2.Builtin) (hbody : drainBody s = .again next) :
    ∃ before tag after, thinkTable.FirstTag s.2.state s.2.pending before tag after ∧
      next = (s.1 ++ s.2.state.event before,
        { s.2 with pending := after, tagCount := s.2.tagCount + 1, state := tag.2 }) := by
  unfold drainBody at hbody
  cases hfind : s.2.findNextTag with
  | none =>
    rw [hfind] at hbody
    cases hbody
  | some foundTag =>
    obtain ⟨pos, tag, kind⟩ := foundTag
    obtain ⟨before, after, hcut, hfirst⟩ := hbuiltin.firstTag hfind
    rw [hfind] at hbody
    simp only [hcut] at hbody
    cases hbody
    exact ⟨before, (tag, kind.target), after, hfirst, rfl⟩

theorem Builtin.drainBody_leave (hbuiltin : s.2.Builtin) (hbody : drainBody s = .leave result) :
    thinkTable.NoTag s.2.state s.2.pending ∧
      result = some (s.1 ++ s.2.state.event (thinkTable.released s.2.pending) ++
        (if (thinkTable.heldTail s.2.pending).isEmpty then [] else [.pending]),
        { s.2 with pending := thinkTable.heldTail s.2.pending }) := by
  unfold drainBody at hbody
  cases hfind : s.2.findNextTag with
  | none =>
    rw [hfind] at hbody
    cases hbody
    unfold finishDrain
    rw [hbuiltin.holdPartialTail]
    exact ⟨hbuiltin.noTag hfind, rfl⟩
  | some =>
    obtain ⟨before, after, hcut, -⟩ := hbuiltin.firstTag hfind
    rw [hfind] at hbody
    simp only [hcut] at hbody
    cases hbody

structure Draining (start : ThinkTagAccumulator)
    (s : List ThinkEvent × ThinkTagAccumulator) : Prop where
  builtin : s.2.Builtin
  scanned : ∀ out,
    scan thinkTable ⟨start.state, [], start.tagCount, out⟩ start.pending =
      scan thinkTable ⟨s.2.state, [], s.2.tagCount, out ++ eventsOut s.1⟩ s.2.pending

theorem Draining.again (hinv : Draining start s) (hbody : drainBody s = .again next) :
    Draining start next ∧ next.2.pending.length < s.2.pending.length := by
  obtain ⟨before, tag, after, hfirst, rfl⟩ := hinv.builtin.drainBody_again hbody
  refine ⟨⟨⟨hinv.builtin.pairs, hinv.builtin.longestTag⟩, ?_⟩, ?_⟩
  · intro out
    rw [hinv.scanned, scan_firstTag thinkTable_wellMarked hfirst, eventsOut_append,
      eventsOut_event, append_assoc]
  · obtain ⟨head, more, htag, -, -⟩ := exists_marker_head thinkTable_wellMarked hfirst.mem
    rw [hfirst.split, htag]
    simp
    omega

def Drained (start : ThinkTagAccumulator)
    (result : Option (List ThinkEvent × ThinkTagAccumulator)) : Prop :=
  ∃ events acc, result = some (events, acc) ∧ acc.Settled ∧
    ∀ out, scan thinkTable ⟨start.state, [], start.tagCount, out⟩ start.pending =
      acc.scanOf (out ++ eventsOut events)

theorem Draining.leave (hinv : Draining start s) (hbody : drainBody s = .leave result) :
    Drained start result := by
  obtain ⟨hnone, rfl⟩ := hinv.builtin.drainBody_leave hbody
  refine ⟨_, _, rfl, ⟨⟨hinv.builtin.pairs, hinv.builtin.longestTag⟩, ?_, ?_⟩, ?_⟩
  · exact fun rest hrest => hnone rest (hrest.trans (heldTail_suffix _))
  · exact heldTail_heldTail _
  · intro out
    have hmark : eventsOut (if (thinkTable.heldTail s.2.pending).isEmpty then []
        else [.pending]) = [] := by
      split_ifs <;> rfl
    rw [hinv.scanned, scan_noTag thinkTable_wellMarked hnone, eventsOut_append,
      eventsOut_append, eventsOut_event, hmark, append_nil, append_assoc]
    rfl

theorem Builtin.drainResolved (hbuiltin : acc.Builtin) : Drained acc acc.drainResolved := by
  have hinit : Draining acc ([], acc) := ⟨hbuiltin, fun out => by simp [eventsOut]⟩
  obtain ⟨result, hrun⟩ := runLoop_terminates (I := Draining acc)
    (fun s => s.2.pending.length) (fun _ _ hinv hbody => hinv.again hbody) hinit
    (Nat.lt_succ_self _)
  have hdrained := runLoop_rule (I := Draining acc) (Q := Drained acc)
    (fun _ _ hinv hbody => (hinv.again hbody).1) (fun _ _ hinv hbody => hinv.leave hbody)
    hinit hrun
  unfold ThinkTagAccumulator.drainResolved
  rw [hrun]
  exact hdrained

theorem Settled.feed (hsettled : acc.Settled) (delta : Text) :
    ∃ events next, acc.feed delta = some (events, next) ∧ next.Settled ∧
      ∀ out, scan thinkTable (acc.scanOf out) delta =
        next.scanOf (out ++ eventsOut events) := by
  have hbuiltin : Builtin { acc with pending := acc.pending ++ delta } :=
    ⟨hsettled.builtin.pairs, hsettled.builtin.longestTag⟩
  obtain ⟨events, next, hfeed, hnext, hscan⟩ := hbuiltin.drainResolved
  refine ⟨events, next, hfeed, hnext, ?_⟩
  intro out
  have hheld := scan_heldTail thinkTable_wellMarked hsettled.noTag acc.tagCount out
  rw [hsettled.held] at hheld
  rw [← hscan, scan_append, hheld]
  rfl

def feedAll (acc : ThinkTagAccumulator) :
    List Text → Option (List ThinkEvent × ThinkTagAccumulator)
  | [] => some ([], acc)
  | piece :: rest =>
    match acc.feed piece with
    | none => none
    | some (events, next) =>
      (feedAll next rest).map fun result => (events ++ result.1, result.2)

theorem Settled.feedAll (hsettled : acc.Settled) (pieces : List Text) :
    ∃ events next, acc.feedAll pieces = some (events, next) ∧ next.Settled ∧
      ∀ out, scan thinkTable (acc.scanOf out) pieces.flatten =
        next.scanOf (out ++ eventsOut events) := by
  induction pieces generalizing acc with
  | nil => exact ⟨[], acc, rfl, hsettled, fun out => by simp [scan, eventsOut]⟩
  | cons piece rest ih =>
    obtain ⟨events, next, hfeed, hnext, hscan⟩ := hsettled.feed piece
    obtain ⟨later, last, hrest, hlast, hscanRest⟩ := ih hnext
    refine ⟨events ++ later, last, ?_, hlast, ?_⟩
    · simp [ThinkTagAccumulator.feedAll, hfeed, hrest]
    · intro out
      rw [flatten_cons, scan_append, hscan, hscanRest, eventsOut_append, append_assoc]

end ThinkTagAccumulator

/-! ## Pieces and the whole -/

variable (events : List ThinkEvent)

def textOf : Text :=
  events.flatMap fun event =>
    match event with
    | .text s => s
    | _ => []

def reasoningOf : Text :=
  events.flatMap fun event =>
    match event with
    | .reasoning s => s
    | _ => []

variable (side : ThinkState)

def sideOf (out : List (ThinkState × Char)) : Text :=
  (out.filter (·.1 = side)).map Prod.snd

theorem sideOf_append (a b : List (ThinkState × Char)) :
    sideOf side (a ++ b) = sideOf side a ++ sideOf side b := by
  simp [sideOf]

theorem sideOf_emit (state : ThinkState) (s : Text) :
    sideOf side (emit state s) = if state = side then s else [] := by
  unfold sideOf emit
  rw [filter_map]
  split_ifs with hside
  · subst hside
    simp [Function.comp_def]
  · simp [hside]

theorem sideOf_eventsOut (events : List ThinkEvent) :
    sideOf side (eventsOut events) =
      events.flatMap fun event => sideOf side (eventsOut [event]) := by
  induction events with
  | nil => rfl
  | cons event events ih =>
    have hcons : eventsOut (event :: events) = eventsOut [event] ++ eventsOut events :=
      eventsOut_append [event] events
    rw [hcons, sideOf_append, ih, flatMap_cons]

theorem textOf_eq_sideOf : textOf events = sideOf .inText (eventsOut events) := by
  rw [sideOf_eventsOut, textOf]
  congr 1
  funext event
  cases event with
  | pending => rfl
  | _ => simp [eventsOut, sideOf_emit]

theorem reasoningOf_eq_sideOf : reasoningOf events = sideOf .inReasoning (eventsOut events) := by
  rw [sideOf_eventsOut, reasoningOf]
  congr 1
  funext event
  cases event with
  | pending => rfl
  | _ => simp [eventsOut, sideOf_emit]

/-- Feeding a text in pieces gives what feeding it at once gives. -/
theorem feedAll_eq_feed_flatten (pieces : List Text) :
    ∃ events acc whole final,
      (ThinkTagAccumulator.new builtinThinkPairs).feedAll pieces = some (events, acc) ∧
      (ThinkTagAccumulator.new builtinThinkPairs).feed pieces.flatten = some (whole, final) ∧
      textOf events = textOf whole ∧
      reasoningOf events = reasoningOf whole ∧
      acc.inReasoning = final.inReasoning ∧
      acc.tagCount = final.tagCount ∧
      acc.flush.1 = final.flush.1 := by
  have hsettled := ThinkTagAccumulator.settled_new
  obtain ⟨events, acc, hpieces, -, hscan⟩ := hsettled.feedAll pieces
  obtain ⟨whole, final, hwhole, -, hscanWhole⟩ := hsettled.feed pieces.flatten
  have hsame : acc.scanOf (eventsOut events) = final.scanOf (eventsOut whole) :=
    (hscan []).symm.trans (hscanWhole [])
  simp only [ThinkTagAccumulator.scanOf, Scan.mk.injEq] at hsame
  obtain ⟨hstate, hpending, hcount, hout⟩ := hsame
  refine ⟨events, acc, whole, final, hpieces, hwhole, ?_, ?_, ?_, hcount, hpending⟩
  · rw [textOf_eq_sideOf, textOf_eq_sideOf, hout]
  · rw [reasoningOf_eq_sideOf, reasoningOf_eq_sideOf, hout]
  · rw [ThinkTagAccumulator.inReasoning, ThinkTagAccumulator.inReasoning, hstate]

end LlmProxy
