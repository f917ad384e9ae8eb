import LlmProxy.StreamSplit

/-!
# One-shot extraction of think blocks

What `extract_think_tags` returns with the built-in pairs.  The tags cut the content into
stretches of text and blocks of reasoning.  The text comes back as it is, and the blocks joined by
newlines.
-/

namespace LlmProxy

open BoundedLoop List MarkerScan ThinkTagAccumulator
open Json (Text)

/-! ## Joining pieces -/

def joinLines (pieces : List Text) : Text :=
  ['\n'].intercalate (pieces.filter fun piece => !piece.isEmpty)

def joinLine (joined piece : Text) : Text :=
  if !joined.isEmpty && !piece.isEmpty then joined ++ ['\n'] ++ piece else joined ++ piece

theorem joinLine_nil (joined : Text) : joinLine joined [] = joined := by
  simp [joinLine]

theorem nil_joinLine (piece : Text) : joinLine [] piece = piece := by
  simp [joinLine]

variable {init : List (ThinkState × Text)} {last : ThinkState × Text} {content joined piece : Text}

theorem joinLine_eq (hjoined : joined ≠ []) (hpiece : piece ≠ []) :
    joinLine joined piece = joined ++ ['\n'] ++ piece := by
  simp [joinLine, hjoined, hpiece]

theorem joinLine_ne_nil (hpiece : piece ≠ []) : joinLine joined piece ≠ [] := by
  unfold joinLine
  split_ifs <;> simp [hpiece]

theorem joinLine_append (hpiece : piece ≠ []) (more : Text) :
    joinLine joined (piece ++ more) = joinLine joined piece ++ more := by
  cases joined with
  | nil => rw [nil_joinLine, nil_joinLine]
  | cons =>
    rw [joinLine_eq (cons_ne_nil _ _) (append_ne_nil_of_left_ne_nil hpiece more),
      joinLine_eq (cons_ne_nil _ _) hpiece, ← append_assoc]

theorem joinLines_cons_nil (pieces : List Text) : joinLines ([] :: pieces) = joinLines pieces := by
  simp [joinLines]

theorem joinLines_joinLine (joined piece : Text) (pieces : List Text) :
    joinLines (joinLine joined piece :: pieces) = joinLines (joined :: piece :: pieces) := by
  by_cases hpiece : piece = []
  · subst hpiece
    rw [joinLine_nil]
    unfold joinLines
    rw [filter_cons, filter_cons, filter_cons_of_neg (by simp)]
  · by_cases hjoined : joined = []
    · subst hjoined
      rw [nil_joinLine, joinLines_cons_nil]
    · rw [joinLine_eq hjoined hpiece]
      unfold joinLines
      rw [filter_cons_of_pos (by simp), filter_cons_of_pos (by simp [hjoined]),
        filter_cons_of_pos (by simp [hpiece])]
      cases pieces.filter fun piece => !piece.isEmpty with
      | nil => simp [List.intercalate]
      | cons => simp [List.intercalate]

theorem foldl_joinLine (joined : Text) (pieces : List Text) :
    pieces.foldl joinLine joined = joinLines (joined :: pieces) := by
  induction pieces generalizing joined with
  | nil => by_cases hjoined : joined = [] <;> simp [joinLines, hjoined]
  | cons piece pieces ih => rw [foldl_cons, ih, joinLines_joinLine]

theorem joinLine_joinLine_iff (joined front back : Text) :
    joinLine (joinLine joined front) back = joinLine joined (front ++ back) ↔
      front = [] ∨ back = [] := by
  constructor
  · intro hsame
    by_contra hboth
    rw [not_or] at hboth
    rw [joinLine_append hboth.1, joinLine_eq (joinLine_ne_nil hboth.1) hboth.2] at hsame
    have hlength := congrArg List.length hsame
    simp at hlength
  · rintro (rfl | rfl)
    · rw [joinLine_nil, nil_append]
    · rw [joinLine_nil, append_nil]

def segmentEvents (segments : List (ThinkState × Text)) : List ThinkEvent :=
  segments.flatMap fun segment => segment.1.event segment.2

def thinkBlocks (cut : List (ThinkState × Text)) : List Text :=
  (cut.filter (·.1 = .inReasoning)).map Prod.snd

def blockReasoning (content : Text) : Option Text :=
  let cut := segments thinkTable .inText content
  if cut.length = 1 then none else some (joinLines (thinkBlocks cut))

def SplitsLastBlock (content : Text) : Prop :=
  ∃ body, (segments thinkTable .inText content).getLast? = some (.inReasoning, body) ∧
    thinkTable.released body ≠ [] ∧ thinkTable.heldTail body ≠ []

/-! ## What is returned -/

theorem foldl_collectEvent_event (state : ThinkState) (s : Text) (collected : Text × Text × Bool) :
    ((state.event s).foldl collectEvent collected).1 =
      if state = .inReasoning then joinLine collected.1 s else collected.1 := by
  unfold ThinkState.event
  cases s with
  | nil => simp [joinLine_nil]
  | cons => cases state <;> simp [collectEvent, joinLine]

theorem foldl_collectEvent_segments (cut : List (ThinkState × Text))
    (collected : Text × Text × Bool) :
    ((segmentEvents cut).foldl collectEvent collected).1 =
      (thinkBlocks cut).foldl joinLine collected.1 := by
  induction cut generalizing collected with
  | nil => rfl
  | cons segment rest ih =>
    have hcons : segmentEvents (segment :: rest) =
        segment.1.event segment.2 ++ segmentEvents rest := rfl
    rw [hcons, foldl_append, ih, foldl_collectEvent_event]
    by_cases hblock : segment.1 = .inReasoning <;> simp [thinkBlocks, hblock]

theorem length_segments_eq_one_iff (content : Text) :
    (segments thinkTable .inText content).length = 1 ↔ thinkTable.NoTag .inText content := by
  constructor
  · intro hone
    refine (noTag_or_firstTag thinkTable_wellMarked .inText content).resolve_right ?_
    rintro ⟨before, tag, after, hfirst⟩
    obtain ⟨init, last, hrest, -⟩ := scan_segments thinkTable_wellMarked tag.2 after 0 []
    rw [segments_firstTag thinkTable_wellMarked hfirst, hrest] at hone
    simp at hone
  · intro hnone
    rw [segments_noTag hnone, length_singleton]

theorem foldl_collectEvent_pending (held : Bool) (collected : Text × Text × Bool) :
    (if held then [] else [ThinkEvent.pending]).foldl collectEvent collected = collected := by
  cases held <;> rfl

theorem collectEvent_noTag (released : Text) (held : Bool) :
    ((ThinkState.inText.event released ++ if held then [] else [ThinkEvent.pending]).foldl
      collectEvent ([], [], false)).2.2 = false := by
  rw [foldl_append, foldl_collectEvent_pending]
  cases released <;> rfl

variable {s : List ThinkEvent × ThinkTagAccumulator} {done : List (ThinkState × Text)}
  {start acc : ThinkTagAccumulator}

theorem extractThinkTags_of_feed {pairs : List TagPair} {events : List ThinkEvent}
    (hfeed : (new pairs).feed content = some (events, acc)) :
    (extractThinkTags content pairs).map Prod.fst =
      let collected := events.foldl collectEvent ([], [], false)
      some (if collected.2.2 || (acc.inReasoning && !acc.pending.isEmpty) || 0 < acc.tagCount then
        some (if acc.inReasoning then joinLine collected.1 acc.pending else collected.1)
        else none) := by
  have hflush : acc.flush.1 = acc.pending := rfl
  unfold extractThinkTags
  rw [hfeed]
  simp only [hflush]
  generalize events.foldl collectEvent ([], [], false) = collected
  obtain ⟨reasoning, text, saw⟩ := collected
  cases acc.pending with
  | nil => simp [joinLine_nil]
  | cons => cases reasoning <;> cases acc.inReasoning <;> simp [joinLine]

structure CutSoFar (start : ThinkTagAccumulator) (done : List (ThinkState × Text))
    (s : List ThinkEvent × ThinkTagAccumulator) : Prop where
  builtin : s.2.Builtin
  cut : segments thinkTable start.state start.pending =
    done ++ segments thinkTable s.2.state s.2.pending
  events : s.1 = segmentEvents done
  count : s.2.tagCount = start.tagCount + done.length

theorem CutSoFar.again {next : List ThinkEvent × ThinkTagAccumulator} (hcut : CutSoFar start done s)
    (hbody : drainBody s = .again next) : ∃ more, CutSoFar start more next := by
  obtain ⟨before, tag, after, hfirst, rfl⟩ := hcut.builtin.drainBody_again hbody
  refine ⟨done ++ [(s.2.state, before)], ⟨hcut.builtin.pairs, hcut.builtin.longestTag⟩, ?_, ?_, ?_⟩
  · rw [hcut.cut, segments_firstTag thinkTable_wellMarked hfirst]
    simp
  · simp [hcut.events, segmentEvents]
  · simp [hcut.count, Nat.add_assoc]

def CutAnswer (start : ThinkTagAccumulator)
    (result : Option (List ThinkEvent × ThinkTagAccumulator)) : Prop :=
  ∃ init last acc, segments thinkTable start.state start.pending = init ++ [last] ∧
    result = some (segmentEvents init ++ last.1.event (thinkTable.released last.2) ++
      (if (thinkTable.heldTail last.2).isEmpty then [] else [.pending]), acc) ∧
    acc.state = last.1 ∧ acc.pending = thinkTable.heldTail last.2 ∧
    acc.tagCount = start.tagCount + init.length

theorem CutSoFar.leave {result : Option (List ThinkEvent × ThinkTagAccumulator)}
    (hcut : CutSoFar start done s) (hbody : drainBody s = .leave result) :
    CutAnswer start result := by
  obtain ⟨hnone, rfl⟩ := hcut.builtin.drainBody_leave hbody
  refine ⟨done, (s.2.state, s.2.pending),
    { s.2 with pending := thinkTable.heldTail s.2.pending }, ?_, by rw [hcut.events], rfl, rfl,
    hcut.count⟩
  rw [hcut.cut, segments_noTag hnone]

theorem ThinkTagAccumulator.Builtin.drainResolved_cut (hbuiltin : acc.Builtin) :
    CutAnswer acc acc.drainResolved := by
  -- that the loop ends is known from the scan it makes
  obtain ⟨events, next, hdrain, -⟩ := hbuiltin.drainResolved
  have hrun : runLoop drainBody (acc.pending.length + 1) ([], acc) = some acc.drainResolved := by
    rw [hdrain]
    exact Option.join_eq_some_iff.mp hdrain
  have hinit : ∃ done, CutSoFar acc done ([], acc) := ⟨[], hbuiltin, rfl, rfl, rfl⟩
  exact runLoop_rule (I := fun s => ∃ done, CutSoFar acc done s) (Q := CutAnswer acc)
    (fun _ _ ⟨_, hcut⟩ hbody => hcut.again hbody)
    (fun _ _ ⟨_, hcut⟩ hbody => hcut.leave hbody) hinit hrun

/-- The reasoning is collected block by block, and the held tail is one more piece. -/
theorem extractThinkTags_reasoning (content : Text)
    (hcut : segments thinkTable .inText content = init ++ [last]) :
    (extractThinkTags content builtinThinkPairs).map Prod.fst =
      some (if init = [] then none
        else some (if last.1 = .inReasoning then
          joinLine (joinLine ((thinkBlocks init).foldl joinLine []) (thinkTable.released last.2))
            (thinkTable.heldTail last.2)
          else (thinkBlocks init).foldl joinLine [])) := by
  have hbuiltin : Builtin { new builtinThinkPairs with pending := content } :=
    ⟨builtin_new.pairs, builtin_new.longestTag⟩
  obtain ⟨first, final, acc, hsegments, hfeed, hstate, hpending, hcount⟩ :=
    hbuiltin.drainResolved_cut
  obtain ⟨rfl, hlast⟩ := append_inj' (hcut.symm.trans hsegments) rfl
  cases singleton_inj.mp hlast
  have hfeed' : (new builtinThinkPairs).feed content = _ := hfeed
  have hreasoning : ((segmentEvents init ++ last.1.event (thinkTable.released last.2) ++
      if (thinkTable.heldTail last.2).isEmpty then [] else [ThinkEvent.pending]).foldl
        collectEvent ([], [], false)).1 =
      if last.1 = .inReasoning then
        joinLine ((thinkBlocks init).foldl joinLine []) (thinkTable.released last.2)
      else (thinkBlocks init).foldl joinLine [] := by
    rw [foldl_append, foldl_collectEvent_pending, foldl_append,
      foldl_collectEvent_event, foldl_collectEvent_segments]
  rw [extractThinkTags_of_feed hfeed']
  have hside : acc.inReasoning = decide (last.1 = .inReasoning) := by
    rw [ThinkTagAccumulator.inReasoning, hstate]
  have hnew : (new builtinThinkPairs).tagCount = 0 := rfl
  simp only [hside, hpending, hcount, hreasoning, hnew]
  by_cases hinit : init = []
  · subst hinit
    have hnone := (length_segments_eq_one_iff content).mp (by rw [hcut]; rfl)
    rw [segments_noTag hnone] at hcut
    cases singleton_inj.mp hcut
    have hsaw := collectEvent_noTag (thinkTable.released content)
    simp only [segmentEvents, flatMap_nil, nil_append, hsaw]
    simp
  · have hpos : 0 < init.length := length_pos_of_ne_nil hinit
    by_cases hblock : last.1 = .inReasoning <;> simp [hinit, hblock]

theorem joinLines_eq_foldl (pieces : List Text) : joinLines pieces = pieces.foldl joinLine [] := by
  rw [foldl_joinLine, joinLines_cons_nil]

theorem splitsLastBlock_iff (hcut : segments thinkTable .inText content = init ++ [last]) :
    SplitsLastBlock content ↔ last.1 = .inReasoning ∧ thinkTable.released last.2 ≠ [] ∧
      thinkTable.heldTail last.2 ≠ [] := by
  unfold SplitsLastBlock
  rw [hcut, getLast?_concat]
  constructor
  · rintro ⟨body, hlast, hsplit⟩
    cases hlast
    exact ⟨rfl, hsplit⟩
  · rintro ⟨hblock, hsplit⟩
    exact ⟨last.2, by rw [← hblock], hsplit⟩

theorem blockReasoning_eq (hcut : segments thinkTable .inText content = init ++ [last]) :
    blockReasoning content = if init = [] then none
      else some (if last.1 = .inReasoning then
        joinLine ((thinkBlocks init).foldl joinLine []) last.2
        else (thinkBlocks init).foldl joinLine []) := by
  have hlength : (init ++ [last]).length = 1 ↔ init = [] := by
    rw [length_append, length_singleton, Nat.add_eq_right, length_eq_zero_iff]
  have hblocks : thinkBlocks (init ++ [last]) =
      thinkBlocks init ++ if last.1 = .inReasoning then [last.2] else [] := by
    by_cases hblock : last.1 = .inReasoning <;> simp [thinkBlocks, hblock]
  unfold blockReasoning
  simp only [hcut, hblocks, joinLines_eq_foldl]
  by_cases hblock : last.1 = .inReasoning <;> simp [hblock]

/-- The text is what stands outside the blocks, reasoning is returned if a tag is matched, and it
is the joined blocks unless the last block is open and split at its held tail. -/
theorem extractThinkTags_spec (content : Text) :
    ∃ reasoning, extractThinkTags content builtinThinkPairs =
        some (reasoning, sideText .inText content) ∧
      (reasoning = none ↔ thinkTable.NoTag .inText content) ∧
      (thinkTable.NoTag .inText content → sideText .inText content = content) ∧
      (reasoning = blockReasoning content ↔ ¬ SplitsLastBlock content) := by
  obtain ⟨init, last, hcut, -⟩ := scan_segments thinkTable_wellMarked ThinkState.inText content 0 []
  obtain ⟨reasoning, hextract⟩ := extractThinkTags_text content
  have hreasoning := extractThinkTags_reasoning content hcut
  rw [hextract, Option.map_some, Option.some.injEq] at hreasoning
  have hone : init = [] ↔ thinkTable.NoTag .inText content := by
    rw [← length_segments_eq_one_iff, hcut]
    simp
  refine ⟨reasoning, hextract, ?_, fun hnone => ?_, ?_⟩
  · rw [← hone, show reasoning = _ from hreasoning]
    simp
  · rw [sideText, segments_noTag hnone]
    simp
  · rw [show reasoning = _ from hreasoning, blockReasoning_eq hcut, splitsLastBlock_iff hcut]
    by_cases hinit : init = []
    · have hlast : last.1 = .inText := by
        rw [hinit, segments_noTag (hone.mp hinit)] at hcut
        cases singleton_inj.mp hcut
        rfl
      simp [hlast]
    · rw [if_neg hinit, if_neg hinit, Option.some.injEq]
      by_cases hblock : last.1 = .inReasoning
      · have hjoin := joinLine_joinLine_iff ((thinkBlocks init).foldl joinLine [])
          (thinkTable.released last.2) (thinkTable.heldTail last.2)
        rw [released_append_heldTail] at hjoin
        rw [if_pos hblock, if_pos hblock, hjoin]
        simp only [hblock, true_and, not_and_or, not_not]
      · simp [hblock]

/-- The tail `<` of an open block is taken for the start of a tag. -/
theorem extractThinkTags_open_block :
    extractThinkTags "<think>a<".toList builtinThinkPairs = some (some "a\n<".toList, []) ∧
      blockReasoning "<think>a<".toList = some "a<".toList := by
  decide +kernel

end LlmProxy
