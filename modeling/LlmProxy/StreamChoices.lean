import LlmProxy.StreamSplit

/-!
# The choices of one stream

A stream carries the deltas of several choices, interleaved, and the normaliser reads all of them
with one accumulator.  What it sends for one choice is a function of that choice alone as long as
the accumulator stands, at each delta of the choice, where the choice's own text would have left it.
-/

namespace LlmProxy

open List MarkerScan
open Json (Text Value Fields)

def standing (s : Text) : Option (ThinkState × Text) :=
  (segments thinkTable .inText s).getLast?.map fun last => (last.1, thinkTable.heldTail last.2)

def leftOver (s : Text) : Option (Text × Bool) :=
  match (segments thinkTable .inText s).reverse with
  | [] => none
  | last :: tagged =>
    if thinkTable.heldTail last.2 = [] then none
    else some (thinkTable.heldTail last.2, last.1 = .inReasoning || !tagged.isEmpty)

theorem standing_eq (s : Text) : standing s = some ((scanned s).mode, (scanned s).held) := by
  obtain ⟨init, last, hsegments, hscan⟩ :=
    scan_segments thinkTable_wellMarked ThinkState.inText s 0 []
  rw [standing, hsegments, scanned, ThinkScan.start, hscan]
  simp

theorem flushReadings_scanned (s : Text) :
    flushReadings (scanned s) = (leftOver s).toList.map fun left => flushReading left.1 left.2 := by
  obtain ⟨init, last, hsegments, hscan⟩ :=
    scan_segments thinkTable_wellMarked ThinkState.inText s 0 []
  have htagged : decide (0 < init.length) = !init.reverse.isEmpty := by
    cases init <;> simp
  rw [leftOver, hsegments, scanned, ThinkScan.start, hscan, reverse_append]
  simp only [flushReadings, ThinkScan.asReasoning, Nat.zero_add, htagged, List.isEmpty_iff,
    reverse_cons, reverse_nil, nil_append, cons_append]
  split_ifs
  · rfl
  · rfl

def readAfter (before : Text) (choice : Value) : Reading :=
  splitReading (scan thinkTable (ThinkScan.quiet (scanned before)) (contentOf choice)) choice

theorem splitReadings_state (choices : List Value) :
    (splitReadings .start choices).2 = ThinkScan.quiet (scanned (choices.flatMap contentOf)) := by
  induction choices using List.reverseRecOn with
  | nil => rfl
  | append_singleton choices choice ih =>
    have hscan : scanned (choices.flatMap contentOf ++ contentOf choice) =
        (scan thinkTable (ThinkScan.quiet (scanned (choices.flatMap contentOf)))
          (contentOf choice)).after 0 (scanned (choices.flatMap contentOf)).out := by
      rw [← scan_after, ThinkScan.after_quiet, scanned, scan_append]
      rfl
    rw [splitReadings_append, ih, flatMap_append, flatMap_cons, flatMap_nil, append_nil, hscan]
    simp [splitReadings, ThinkScan.quiet, Scan.after]

theorem splitReadings_concat (choices : List Value) (choice : Value) :
    (splitReadings .start (choices ++ [choice])).1 =
      (splitReadings .start choices).1 ++
        [readAfter (choices.flatMap contentOf) choice] := by
  rw [splitReadings_append, splitReadings_state]
  rfl

theorem readAfter_congr {a b : Text} {choice : Value}
    (hstanding : contentOf choice ≠ [] → standing a = standing b) :
    readAfter a choice = readAfter b choice := by
  by_cases hempty : contentOf choice = []
  · simp [readAfter, hempty, scan, ThinkScan.quiet, splitReading]
  · have hplace := hstanding hempty
    rw [standing_eq, standing_eq, Option.some_inj, Prod.mk.injEq] at hplace
    have hcontinue : ∀ s : Text, ThinkScan.quiet (scanned s) =
        Scan.after ⟨(scanned s).mode, (scanned s).held, 0, []⟩ (scanned s).count [] := by
      simp [ThinkScan.quiet, Scan.after]
    unfold readAfter
    rw [hcontinue, hcontinue, scan_after, scan_after, hplace.1, hplace.2]
    simp [splitReading, Scan.after]

/-! ## Keeping the choices apart -/

def ownChoices (i : ℤ) (choices : List Value) : List Value :=
  choices.filter fun choice => indexOf choice = some i

def heardAt (i : ℤ) (out : List Value) : List Reading :=
  (heard (out.flatMap choicesOf)).filter fun reading => reading.index = some i

/-- At each delta of the choice the text of all choices and its own text stand
at the same place.  The text left over at the end of the stream goes to the
choice with index zero. -/
structure KeptApart (i : ℤ) (choices : List Value) : Prop where
  delta : ∀ before choice after, choices = before ++ choice :: after →
    indexOf choice = some i → contentOf choice ≠ [] →
      standing (before.flatMap contentOf) =
        standing ((ownChoices i before).flatMap contentOf)
  finish : i = 0 → leftOver (choices.flatMap contentOf) =
    leftOver ((ownChoices i choices).flatMap contentOf)

theorem splitReadings_own {i : ℤ} {choices : List Value}
    (hdelta : ∀ before choice after, choices = before ++ choice :: after →
      indexOf choice = some i → contentOf choice ≠ [] → standing (before.flatMap contentOf) =
          standing ((ownChoices i before).flatMap contentOf)) :
    (splitReadings .start choices).1.filter (fun reading => reading.index = some i) =
      (splitReadings .start (ownChoices i choices)).1 := by
  induction choices using List.reverseRecOn with
  | nil => rfl
  | append_singleton choices choice ih =>
    have hrest := ih fun before other after hsplit =>
      hdelta before other (after ++ [choice]) (by rw [hsplit]; simp)
    have hindex : (readAfter (choices.flatMap contentOf) choice).index = indexOf choice := rfl
    rw [splitReadings_concat, filter_append, hrest]
    by_cases hown : indexOf choice = some i
    · have hchoices : ownChoices i (choices ++ [choice]) = ownChoices i choices ++ [choice] := by
        simp [ownChoices, hown]
      have hread := readAfter_congr
        (hdelta choices choice [] rfl hown)
      rw [hchoices, splitReadings_concat, ← hread]
      simp [hindex, hown]
    · have hchoices : ownChoices i (choices ++ [choice]) = ownChoices i choices := by
        simp [ownChoices, hown]
      rw [hchoices]
      simp [hindex, hown]

def ownHeard (i : ℤ) (own : List Value) : List Reading :=
  (splitReadings .start own).1.filter Reading.spoken ++
    (if i = 0 then flushReadings (splitReadings .start own).2 else [])

theorem index_flushReadings (state : ThinkScan) :
    ∀ reading ∈ flushReadings state, reading.index = some 0 := by
  intro reading hmem
  unfold flushReadings at hmem
  split_ifs at hmem with hempty
  · cases hmem
  · rw [mem_singleton.mp hmem, flushReading]
    split_ifs
    · rfl
    · rfl

theorem KeptApart.heardAt_eq {i : ℤ} {chunks : List Value}
    (hkept : KeptApart i (chunks.flatMap choicesOf)) :
    ∃ out, normaliseChunks chunks = some out ∧
      heardAt i out = ownHeard i (ownChoices i (chunks.flatMap choicesOf)) := by
  obtain ⟨out, hout, hheard⟩ := normaliseChunks_spec chunks
  have hflush : ∀ choices : List Value, flushReadings (splitReadings .start choices).2 =
      flushReadings (scanned (choices.flatMap contentOf)) := by
    intro choices
    rw [splitReadings_state]
    rfl
  have hend : (flushReadings (splitReadings .start (chunks.flatMap choicesOf)).2).filter
      (fun reading => reading.index = some i) =
        if i = 0 then flushReadings (splitReadings .start
          (ownChoices i (chunks.flatMap choicesOf))).2 else [] := by
    split_ifs with hzero
    · rw [hflush, hflush, flushReadings_scanned, flushReadings_scanned,
        ← hkept.finish hzero, ← flushReadings_scanned, filter_eq_self]
      intro reading hmem
      simp [index_flushReadings _ reading hmem, hzero]
    · rw [filter_eq_nil_iff]
      intro reading hmem
      rw [index_flushReadings _ reading hmem]
      simpa using fun h => hzero h.symm
  refine ⟨out, hout, ?_⟩
  rw [heardAt, hheard, filter_append, hend, ownHeard, ← splitReadings_own hkept.delta, filter_comm]

/-- Two upstreams that agree on a choice send the same for it, if both keep it
apart. -/
theorem heardAt_determined_by_own_choices {i : ℤ} {u v : List Value}
    (hu : KeptApart i (u.flatMap choicesOf)) (hv : KeptApart i (v.flatMap choicesOf))
    (hagree : ownChoices i (u.flatMap choicesOf) = ownChoices i (v.flatMap choicesOf)) :
    ∃ outU outV, normaliseChunks u = some outU ∧ normaliseChunks v = some outV ∧
      heardAt i outU = heardAt i outV := by
  obtain ⟨outU, houtU, hheardU⟩ := hu.heardAt_eq
  obtain ⟨outV, houtV, hheardV⟩ := hv.heardAt_eq
  exact ⟨outU, outV, houtU, houtV, by rw [hheardU, hheardV, hagree]⟩

/-- An open think block of choice one turns the text of choice zero into
reasoning. -/
theorem open_block_of_other_choice_takes_text :
    ownChoices 0 ([contentChunk 1 "<think>", contentChunk 0 "hi"].flatMap choicesOf) =
        ownChoices 0 ([contentChunk 1 "x", contentChunk 0 "hi"].flatMap choicesOf) ∧
      (normaliseChunks [contentChunk 1 "<think>", contentChunk 0 "hi"]).map (heardAt 0) =
        some [⟨some 0, [], "hi".toList⟩] ∧
      (normaliseChunks [contentChunk 1 "x", contentChunk 0 "hi"]).map (heardAt 0) =
        some [⟨some 0, "hi".toList, []⟩] :=
  ⟨rfl, by decide, by decide⟩

theorem keptApart_second_choice {other : String} (hstanding : standing other.toList = standing [])
    (hleft : leftOver (other.toList ++ "hi".toList) = leftOver "hi".toList) :
    KeptApart 0 ([contentChunk 1 other, contentChunk 0 "hi"].flatMap choicesOf) := by
  constructor
  · rintro before choice after hsplit hindex -
    cases before with
    | nil =>
      obtain ⟨rfl, -⟩ := List.cons.inj hsplit
      cases hindex
    | cons first before =>
      obtain ⟨rfl, htail⟩ := List.cons.inj hsplit
      cases before with
      | nil =>
        simpa [contentOf]
      | cons =>
        have hlength := congrArg List.length htail
        simp [contentChunk, choicesOf, Value.get, Fields.get] at hlength
  · intro
    simpa [contentChunk, choicesOf, contentOf, deltaOf, strAt, Value.get, Fields.get, ownChoices,
      indexOf] using hleft

theorem closed_block_of_other_choice_keeps_text :
    ∃ outU outV,
      normaliseChunks [contentChunk 1 "<think>a</think>b", contentChunk 0 "hi"] = some outU ∧
      normaliseChunks [contentChunk 1 "x", contentChunk 0 "hi"] = some outV ∧
      heardAt 0 outU = heardAt 0 outV :=
  heardAt_determined_by_own_choices
    (keptApart_second_choice (by decide) (by decide))
    (keptApart_second_choice (by decide) (by decide)) rfl

end LlmProxy
