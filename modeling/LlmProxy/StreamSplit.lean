import LlmProxy.StreamReading

/-!
# Streamed and one-shot answers

The text of a stream is the concatenation of its contents.  Cut at its think tags it has a plain
part and the bodies of its think blocks.  The one-shot extraction returns the plain part.
-/

namespace LlmProxy

open List MarkerScan
open Json (Text Value Fields)

def contentText (chunks : List Value) : Text :=
  (chunks.flatMap choicesOf).flatMap contentOf

def reasoningText (chunks : List Value) : Text :=
  (chunks.flatMap choicesOf).flatMap reasoningContentOf

variable (side : ThinkState) (s : Text)

def sideText : Text :=
  ((segments thinkTable .inText s).filter (·.1 = side)).flatMap Prod.snd

def thinkBodies : Text := sideText .inReasoning s

def LeavesTail : Prop :=
  match (segments thinkTable .inText s).reverse with
  | (.inText, tail) :: _ :: _ => thinkTable.heldTail tail ≠ []
  | _ => False

/-! ## One scanner over the whole text -/

theorem sideOf_flatMap_emit (cut : List (ThinkState × Text)) :
    sideOf side (cut.flatMap fun segment => emit segment.1 segment.2) =
      (cut.filter (·.1 = side)).flatMap Prod.snd := by
  induction cut with
  | nil => rfl
  | cons segment cut ih =>
    rw [flatMap_cons, sideOf_append, sideOf_emit, ih]
    by_cases hside : segment.1 = side
    · simp [hside]
    · simp [hside]

theorem sideText_eq :
    sideText side s = sideOf side (scanned s).out ++
      (if (scanned s).mode = side then (scanned s).held
        else []) := by
  obtain ⟨init, last, hsegments, hscan⟩ :=
    scan_segments thinkTable_wellMarked ThinkState.inText s 0 []
  have hwhole := released_append_heldTail (T := thinkTable) last.2
  rw [scanned, ThinkScan.start, hscan, sideText, hsegments]
  simp only [nil_append, sideOf_append, sideOf_flatMap_emit, sideOf_emit]
  by_cases hside : last.1 = side
  · simp [hside, hwhole]
  · simp [hside]

theorem leavesTail_iff :
    LeavesTail s ↔ (scanned s).mode = .inText ∧ 0 < (scanned s).count ∧ (scanned s).held ≠ [] := by
  obtain ⟨init, last, hsegments, hscan⟩ :=
    scan_segments thinkTable_wellMarked ThinkState.inText s 0 []
  rw [scanned, ThinkScan.start, hscan, LeavesTail, hsegments]
  obtain ⟨mode, tail⟩ := last
  cases mode with
  | inReasoning => simp
  | inText =>
    rcases eq_nil_or_concat' init with rfl | ⟨front, segment, rfl⟩
    · simp
    · simp

theorem ThinkScan.after_quiet (state : ThinkScan) :
    (ThinkScan.quiet state).after 0 state.out = state := by
  simp [ThinkScan.quiet, Scan.after]

structure ReadsAs (readings : List Reading) (state released : ThinkScan) : Prop where
  state : state = ThinkScan.quiet released
  content : readings.flatMap Reading.content = sideOf .inText released.out
  reasoning : readings.flatMap Reading.reasoning = sideOf .inReasoning released.out

theorem splitReadings_flatten {state : ThinkScan} (hquiet : state.quiet = state)
    {choices : List Value} (hown : ∀ choice ∈ choices, ownReasoning choice = []) :
    ReadsAs (splitReadings state choices).1 (splitReadings state choices).2
      (scan thinkTable state (choices.flatMap contentOf)) := by
  induction choices generalizing state with
  | nil =>
    have hout : state.out = [] := by
      rw [← hquiet]
      rfl
    constructor
    · exact hquiet.symm
    · simp [splitReadings, scan, hout, sideOf]
    · simp [splitReadings, scan, hout, sideOf]
  | cons choice choices ih =>
    have hagain : ThinkScan.quiet (ThinkScan.quiet (scan thinkTable state (contentOf choice))) =
        ThinkScan.quiet (scan thinkTable state (contentOf choice)) := rfl
    obtain ⟨hstate, hcontent, hreasoning⟩ :=
      ih hagain (fun other hother => hown other (mem_cons_of_mem _ hother))
    have hfirst := hown choice mem_cons_self
    have hscan : scan thinkTable state ((choice :: choices).flatMap contentOf) =
        (scan thinkTable (ThinkScan.quiet (scan thinkTable state (contentOf choice)))
          (choices.flatMap contentOf)).after 0
            (scan thinkTable state (contentOf choice)).out := by
      rw [← scan_after, ThinkScan.after_quiet, flatMap_cons, scan_append]
    rw [hscan]
    simp only [splitReadings, hquiet]
    constructor
    · rw [hstate]
      simp [ThinkScan.quiet, Scan.after]
    · rw [flatMap_cons, hcontent]
      simp [splitReading, Scan.after, sideOf_append]
    · rw [flatMap_cons, hreasoning]
      simp [splitReading, Scan.after, sideOf_append, hfirst]

theorem foldl_collectEvent_text (events : List ThinkEvent) (collected : Text × Text × Bool) :
    (events.foldl collectEvent collected).2.1 = collected.2.1 ++ textOf events := by
  induction events generalizing collected with
  | nil => simp [textOf]
  | cons event events ih =>
    rw [foldl_cons, ih]
    cases event with
    | _ => simp [collectEvent, textOf]

theorem extractThinkTags_text :
    ∃ reasoning, extractThinkTags s builtinThinkPairs = some (reasoning, sideText .inText s) := by
  obtain ⟨events, acc, hfeed, -, hscan⟩ := ThinkTagAccumulator.settled_new.feed s
  have hrun : scanned s = acc.scanOf (eventsOut events) := hscan []
  have htext : sideText .inText s =
      textOf events ++ (if acc.state = .inText then acc.pending else []) := by
    rw [sideText_eq, hrun, textOf_eq_sideOf]
    rfl
  have hcollected := foldl_collectEvent_text events ([], [], false)
  have hflush : acc.flush.1 = acc.pending := rfl
  have hsecond : (extractThinkTags s builtinThinkPairs).map Prod.snd =
      some (sideText .inText s) := by
    unfold extractThinkTags
    rw [hfeed, htext]
    simp only [hflush, ThinkTagAccumulator.inReasoning]
    cases acc.pending with
    | nil => simp [hcollected]
    | cons =>
      cases acc.state with
      | inText => simp [hcollected]
      | inReasoning => simp [hcollected]
  obtain ⟨⟨reasoning, text⟩, hextract, htextEq⟩ := Option.map_eq_some_iff.mp hsecond
  exact ⟨reasoning, by rw [hextract, ← htextEq]⟩

/-! ## The comparison -/

structure OneChoiceStream (chunks : List Value) : Prop where
  single : ∀ chunk ∈ chunks, (choicesOf chunk).length ≤ 1
  plain : ∀ chunk ∈ chunks, ∀ choice ∈ choicesOf chunk, ownReasoning choice = []

theorem flatMap_filter_spoken (readings : List Reading) :
    (readings.filter Reading.spoken).flatMap Reading.content =
        readings.flatMap Reading.content ∧
      (readings.filter Reading.spoken).flatMap Reading.reasoning =
        readings.flatMap Reading.reasoning := by
  induction readings with
  | nil => exact ⟨rfl, rfl⟩
  | cons reading readings ih =>
    cases hspoken : reading.spoken with
    | true => simp [hspoken, ih.1, ih.2]
    | false =>
      have hempty : reading.content = [] ∧ reading.reasoning = [] := by
        simpa [Reading.spoken] using hspoken
      simp [hspoken, ih.1, ih.2, hempty.1, hempty.2]

theorem flatMap_heard (choices : List Value) :
    (heard choices).flatMap Reading.content = choices.flatMap contentOf ∧
      (heard choices).flatMap Reading.reasoning = choices.flatMap reasoningContentOf := by
  obtain ⟨hcontent, hreasoning⟩ := flatMap_filter_spoken (choices.map readingOf)
  unfold heard
  rw [hcontent, hreasoning, flatMap_map, flatMap_map]
  exact ⟨rfl, rfl⟩

theorem flatMap_flushReadings (state : ThinkScan) :
    (flushReadings state).flatMap Reading.content =
        (if state.asReasoning then [] else state.held) ∧
      (flushReadings state).flatMap Reading.reasoning =
        (if state.asReasoning then state.held else []) := by
  unfold flushReadings
  cases state.held with
  | nil => simp
  | cons => cases state.asReasoning <;> simp [flushReading]

theorem normaliseChunks_texts {chunks : List Value}
    (hplain : ∀ chunk ∈ chunks, ∀ choice ∈ choicesOf chunk, ownReasoning choice = []) :
    ∃ out, normaliseChunks chunks = some out ∧
      contentText out =
        sideOf .inText (scanned (contentText chunks)).out ++
          (if ThinkScan.asReasoning (scanned (contentText chunks)) then []
            else (scanned (contentText chunks)).held) ∧
      reasoningText out =
        sideOf .inReasoning (scanned (contentText chunks)).out ++
          (if ThinkScan.asReasoning (scanned (contentText chunks)) then
            (scanned (contentText chunks)).held else []) := by
  obtain ⟨out, hout, hheard⟩ := normaliseChunks_spec chunks
  have hown : ∀ choice ∈ chunks.flatMap choicesOf, ownReasoning choice = [] := by
    intro choice hchoice
    obtain ⟨chunk, hchunk, hmem⟩ := mem_flatMap.mp hchoice
    exact hplain chunk hchunk choice hmem
  have hquiet : ThinkScan.quiet ThinkScan.start = ThinkScan.start := rfl
  obtain ⟨hstate, hcontent, hreasoning⟩ := splitReadings_flatten hquiet hown
  obtain ⟨hflushContent, hflushReasoning⟩ := flatMap_flushReadings
    (ThinkScan.quiet (scanned (contentText chunks)))
  obtain ⟨hfilterContent, hfilterReasoning⟩ := flatMap_filter_spoken
    (splitReadings .start (chunks.flatMap choicesOf)).1
  obtain ⟨hheardContent, hheardReasoning⟩ := flatMap_heard (out.flatMap choicesOf)
  refine ⟨out, hout, ?_, ?_⟩
  · rw [contentText, ← hheardContent, hheard, flatMap_append, hfilterContent, hcontent, hstate]
    exact congrArg _ hflushContent
  · rw [reasoningText, ← hheardReasoning, hheard, flatMap_append, hfilterReasoning,
      hreasoning, hstate]
    exact congrArg _ hflushReasoning

/-- A stream is split like the one-shot extraction exactly when its text
leaves no tail. -/
theorem stream_splits_like_extract_iff {chunks : List Value}
    (hstream : OneChoiceStream chunks) :
    ∃ out reasoning cleaned, normaliseChunks chunks = some out ∧
      extractThinkTags (contentText chunks) builtinThinkPairs = some (reasoning, cleaned) ∧
      ((contentText out = cleaned ∧ reasoningText out = thinkBodies (contentText chunks)) ↔
        ¬ LeavesTail (contentText chunks)) := by
  obtain ⟨out, hout, hcontent, hreasoning⟩ := normaliseChunks_texts hstream.plain
  obtain ⟨reasoning, hextract⟩ := extractThinkTags_text (contentText chunks)
  refine ⟨out, reasoning, sideText .inText (contentText chunks), hout, hextract, ?_⟩
  rw [leavesTail_iff, hcontent, hreasoning, thinkBodies, sideText_eq, sideText_eq]
  generalize scanned (contentText chunks) = state
  cases hmode : state.mode with
  | inReasoning => simp [ThinkScan.asReasoning, hmode]
  | inText =>
    by_cases hcount : 0 < state.count
    · simp [ThinkScan.asReasoning, hmode]
    · simp [ThinkScan.asReasoning, hmode, hcount]

def contentChunk (index : ℤ) (content : String) : Value :=
  .obj [("choices", .arr [.obj [("delta", .obj [("content", .str content.toList)]),
    ("index", .num (.int index))]])]

theorem oneChoiceStream_contentChunks (deltas : List String) :
    OneChoiceStream (deltas.map (contentChunk 0)) := by
  constructor
  · intro chunk hchunk
    obtain ⟨delta, -, rfl⟩ := mem_map.mp hchunk
    exact Nat.le_refl 1
  · intro chunk hchunk choice hchoice
    obtain ⟨delta, -, rfl⟩ := mem_map.mp hchunk
    obtain rfl := mem_singleton.mp hchoice
    rfl

/-- The end of the visible answer `1 < 2` reaches the client as reasoning. -/
theorem visible_tail_streamed_as_reasoning :
    OneChoiceStream [contentChunk 0 "<think>a</think>", contentChunk 0 "1 < 2"] ∧
      (normaliseChunks [contentChunk 0 "<think>a</think>", contentChunk 0 "1 < 2"]).map
        (fun out => (contentText out, reasoningText out)) =
          some ("1 ".toList, "a< 2".toList) ∧
      extractThinkTags (contentText [contentChunk 0 "<think>a</think>", contentChunk 0 "1 < 2"])
        builtinThinkPairs = some (some "a".toList, "1 < 2".toList) ∧
      thinkBodies (contentText [contentChunk 0 "<think>a</think>", contentChunk 0 "1 < 2"]) =
        "a".toList :=
  ⟨oneChoiceStream_contentChunks ["<think>a</think>", "1 < 2"], by decide, by decide, by decide⟩

theorem split_think_block_streamed_like_extract :
    ∃ out reasoning cleaned,
      normaliseChunks [contentChunk 0 "<thi", contentChunk 0 "nk>a</think>b"] = some out ∧
      extractThinkTags "<think>a</think>b".toList builtinThinkPairs = some (reasoning, cleaned) ∧
      contentText out = cleaned ∧ reasoningText out = thinkBodies "<think>a</think>b".toList := by
  obtain ⟨out, reasoning, cleaned, hout, hextract, hsplit⟩ := stream_splits_like_extract_iff
    (oneChoiceStream_contentChunks ["<thi", "nk>a</think>b"])
  have htext : contentText (["<thi", "nk>a</think>b"].map (contentChunk 0)) =
      "<think>a</think>b".toList := by decide
  rw [htext] at hextract hsplit
  have htail : ¬ LeavesTail "<think>a</think>b".toList := by
    rw [leavesTail_iff]
    decide
  obtain ⟨hcontent, hreasoning⟩ := hsplit.mpr htail
  exact ⟨out, reasoning, cleaned, hout, hextract, hcontent, hreasoning⟩

end LlmProxy
