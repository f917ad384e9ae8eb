import LlmProxy.ThinkTagScan

/-!
# Rewriting stream chunks

The part of the stream normaliser that works on parsed chunks (`stream_normalize.rs`): reasoning
aliases are folded into one field, string contents pass through the one accumulator of the stream,
and a chunk that is left without anything to say is dropped.
-/

namespace LlmProxy

open Json.Fields List MarkerScan
open Json (Text Value Fields)

def reasoningAliases : List String := ["reasoning_content", "reasoning", "reasoning_text"]

def nonEmptyStr (key : String) (delta : Fields) : List Text :=
  match Fields.get key delta with
  | some (.str s) => if s.isEmpty then [] else [s]
  | _ => []

variable (delta : Fields)

/-- All aliases are joined into `reasoning_content`. -/
def foldReasoningAliases : Fields :=
  let parts := reasoningAliases.flatMap fun key => nonEmptyStr key delta
  let stripped := reasoningAliases.foldl (fun fields key => Fields.remove key fields) delta
  let thinking := nonEmptyStr "thinking" stripped
  let rest := if thinking.isEmpty then stripped else Fields.remove "thinking" stripped
  let parts := parts ++ thinking
  if parts.isEmpty then rest
  else Fields.insert "reasoning_content" (.str parts.flatten) rest

def appendReasoning (extra : Text) : Fields :=
  if extra.isEmpty then delta
  else
    match Fields.get "reasoning_content" delta with
    | some (.str existing) => Fields.insert "reasoning_content" (.str (existing ++ extra)) delta
    | _ => Fields.insert "reasoning_content" (.str extra) delta

def hasPayload : Value → Bool
  | .null => false
  | .str s => !s.isEmpty
  | .arr items => !items.isEmpty
  | .obj fields => !fields.isEmpty
  | _ => true

def deltaHasPayload : Bool := delta.any fun field => hasPayload field.2

def replaceContent (text : Text) : Fields :=
  if text.isEmpty then Fields.remove "content" delta
  else Fields.insert "content" (.str text) delta

variable (acc : ThinkTagAccumulator)

def splitContent (delta : Fields) : Option (Fields × ThinkTagAccumulator) :=
  match nonEmptyStr "content" delta with
  | [] => some (delta, acc)
  | content :: _ =>
    match acc.feed content with
    | none => none
    | some (events, next) =>
      some (appendReasoning (replaceContent delta (textOf events)) (reasoningOf events),
        next)

def finishes (choice : Value) : Bool :=
  match choice.get "finish_reason" with
  | some (.str s) => !s.isEmpty
  | _ => false

/-- The loop body of `rewrite_chunk_value`: the choice, whether it is a reason
to forward the chunk, and the accumulator. -/
def rewriteChoice (choice : Value) : Option (Value × Bool × ThinkTagAccumulator) :=
  match choice with
  | .obj fields =>
    match Fields.get "delta" fields with
    | some (.obj delta) =>
      match splitContent acc (foldReasoningAliases delta) with
      | none => none
      | some (delta, next) =>
        some (.obj (Fields.insert "delta" (.obj delta) fields),
          finishes choice || deltaHasPayload delta, next)
    | _ => some (choice, true, acc)
  | _ => some (choice, true, acc)

def rewriteChoices (acc : ThinkTagAccumulator) :
    List Value → Option (List Value × Bool × ThinkTagAccumulator)
  | [] => some ([], false, acc)
  | choice :: rest =>
    match rewriteChoice acc choice with
    | none => none
    | some (choice, emit, next) =>
      match rewriteChoices next rest with
      | none => none
      | some (rest, emitRest, last) => some (choice :: rest, emit || emitRest, last)

/-- The flag says whether the chunk is sent; one with usage always is. -/
def rewriteChunkValue (chunk : Value) : Option (Value × Bool × ThinkTagAccumulator) :=
  match chunk with
  | .obj fields =>
    match Fields.get "choices" fields with
    | some (.arr []) => some (chunk, true, acc)
    | some (.arr choices) =>
      match rewriteChoices acc choices with
      | none => none
      | some (choices, emit, next) =>
        some (.obj (Fields.insert "choices" (.arr choices) fields),
          (Fields.get "usage" fields).isSome || emit, next)
    | _ => some (chunk, true, acc)
  | _ => some (chunk, true, acc)

/-- At the end of the stream the text the accumulator still holds is sent in a chunk of its own. -/
def flushedChunk (flushed : Text) (asReasoning : Bool) : Value :=
  let field := if asReasoning then "reasoning_content" else "content"
  .obj [("choices", .arr [.obj
    [("delta", .obj [(field, .str flushed)]), ("index", .num (.int 0))]])]

def flushesAsReasoning : Bool :=
  acc.inReasoning || 0 < acc.tagCount

/-- The chunks of `flush_eof`. -/
def flushChunks : List Value :=
  let flushed := acc.flush.1
  if flushed.isEmpty then [] else [flushedChunk flushed (flushesAsReasoning acc)]

def forwardChunks (acc : ThinkTagAccumulator) :
    List Value → Option (List Value × ThinkTagAccumulator)
  | [] => some ([], acc)
  | chunk :: rest =>
    match rewriteChunkValue acc chunk with
    | none => none
    | some (chunk, emit, next) =>
      (forwardChunks next rest).map fun result =>
        ((if emit then [chunk] else []) ++ result.1, result.2)

def normaliseChunks (chunks : List Value) : Option (List Value) :=
  (forwardChunks (.new builtinThinkPairs) chunks).map fun result =>
    result.1 ++ flushChunks result.2

variable {acc next : ThinkTagAccumulator} {key : String} {delta : Fields} {choice : Value}
  {emit : Bool}

theorem forwardChunks_append {mid last : ThinkTagAccumulator} {chunks more out outMore : List Value}
    (hfirst : forwardChunks acc chunks = some (out, mid))
    (hmore : forwardChunks mid more = some (outMore, last)) :
    forwardChunks acc (chunks ++ more) = some (out ++ outMore, last) := by
  induction chunks generalizing acc out with
  | nil =>
    cases hfirst
    exact hmore
  | cons chunk chunks ih =>
    simp only [forwardChunks, cons_append] at hfirst ⊢
    cases hrewrite : rewriteChunkValue acc chunk with
    | none => simp [hrewrite] at hfirst
    | some =>
      simp only [hrewrite] at hfirst ⊢
      obtain ⟨rest, hrest, heq⟩ := Option.map_eq_some_iff.mp hfirst
      cases heq
      rw [ih hrest]
      simp

/-! ## What a client reads -/

def choicesOf (chunk : Value) : List Value :=
  match chunk.get "choices" with
  | some (.arr choices) => choices
  | _ => []

def deltaOf (choice : Value) : Fields :=
  match choice.get "delta" with
  | some (.obj delta) => delta
  | _ => []

def strAt (key : String) (delta : Fields) : Text :=
  match Fields.get key delta with
  | some (.str s) => s
  | _ => []

def contentOf (choice : Value) : Text := strAt "content" (deltaOf choice)

def reasoningContentOf (choice : Value) : Text := strAt "reasoning_content" (deltaOf choice)

def ownReasoning (choice : Value) : Text :=
  (reasoningAliases.flatMap fun key => nonEmptyStr key (deltaOf choice)).flatten ++
    (nonEmptyStr "thinking" (deltaOf choice)).flatten

def indexOf (choice : Value) : Option ℤ :=
  match choice.get "index" with
  | some (.num (.int i)) => some i
  | _ => none

theorem nonEmptyStr_eq_nil_iff (key : String) (delta : Fields) :
    nonEmptyStr key delta = [] ↔ strAt key delta = [] := by
  unfold nonEmptyStr strAt
  cases Fields.get key delta with
  | none => simp
  | some value =>
    cases value with
    | str s => cases s <;> simp
    | _ => simp

theorem nonEmptyStr_congr {a b : Fields} (hget : Fields.get key a = Fields.get key b) :
    nonEmptyStr key a = nonEmptyStr key b := by
  unfold nonEmptyStr
  rw [hget]

theorem strAt_congr {a b : Fields} (hget : Fields.get key a = Fields.get key b) :
    strAt key a = strAt key b := by
  unfold strAt
  rw [hget]

/-! ## Folding the aliases -/

theorem get_foldReasoningAliases_ne (delta : Fields) (hkey : key ∉ reasoningAliases)
    (hthinking : key ≠ "thinking") :
    Fields.get key (foldReasoningAliases delta) = Fields.get key delta := by
  simp only [reasoningAliases, mem_cons, not_mem_nil, or_false, not_or] at hkey
  obtain ⟨hcontent, hreasoning, htext⟩ := hkey
  have hstripped : Fields.get key
      (reasoningAliases.foldl (fun fields key => Fields.remove key fields) delta) =
        Fields.get key delta := by
    simp only [reasoningAliases, foldl_cons, foldl_nil]
    rw [get_remove_ne htext, get_remove_ne hreasoning, get_remove_ne hcontent]
  unfold foldReasoningAliases
  dsimp only
  split_ifs
  · exact hstripped
  · rw [get_remove_ne hthinking, hstripped]
  · rw [get_insert_ne hcontent, hstripped]
  · rw [get_insert_ne hcontent, get_remove_ne hthinking, hstripped]

def unlessEmpty (s : Text) : Option Value := if s.isEmpty then none else some (.str s)

theorem strAt_of_unlessEmpty {s : Text} (hget : Fields.get key delta = unlessEmpty s) :
    strAt key delta = s := by
  unfold strAt
  rw [hget, unlessEmpty]
  split_ifs with hempty
  · exact (List.isEmpty_iff.mp hempty).symm
  · rfl

theorem flatten_ne_nil_of_nonEmptyStr {keys : List String}
    (hparts : keys.flatMap (fun key => nonEmptyStr key delta) ≠ []) :
    (keys.flatMap fun key => nonEmptyStr key delta).flatten ≠ [] := by
  intro hnil
  apply hparts
  rw [eq_nil_iff_forall_not_mem]
  intro part hmem
  obtain ⟨key, -, hpart⟩ := mem_flatMap.mp hmem
  have hempty : part = [] := flatten_eq_nil_iff.mp hnil part hmem
  unfold nonEmptyStr at hpart
  split at hpart
  · split_ifs at hpart with hs
    · cases hpart
    · rw [mem_singleton.mp hpart] at hempty
      exact hs (List.isEmpty_iff.mpr hempty)
  · cases hpart

def reasoningKeys : List String := reasoningAliases ++ ["thinking"]

def gatheredReasoning (delta : Fields) : Text :=
  (reasoningKeys.flatMap fun key => nonEmptyStr key delta).flatten

theorem get_foldReasoningAliases_self (delta : Fields) :
    Fields.get "reasoning_content" (foldReasoningAliases delta) =
      unlessEmpty (gatheredReasoning delta) := by
  have hstripped : Fields.get "reasoning_content"
      (reasoningAliases.foldl (fun fields key => Fields.remove key fields) delta) = none := by
    simp only [reasoningAliases, foldl_cons, foldl_nil]
    rw [get_remove_ne (by decide), get_remove_ne (by decide), get_remove_self]
  have hthinking : nonEmptyStr "thinking"
      (reasoningAliases.foldl (fun fields key => Fields.remove key fields) delta) =
        nonEmptyStr "thinking" delta := by
    apply nonEmptyStr_congr
    simp only [reasoningAliases, foldl_cons, foldl_nil]
    rw [get_remove_ne (by decide), get_remove_ne (by decide),
      get_remove_ne (by decide)]
  have hparts : (reasoningAliases.flatMap fun key => nonEmptyStr key delta) ++
      nonEmptyStr "thinking" delta = reasoningKeys.flatMap fun key => nonEmptyStr key delta := by
    simp [reasoningKeys]
  unfold foldReasoningAliases gatheredReasoning
  dsimp only
  rw [hthinking, hparts]
  by_cases hnone : reasoningKeys.flatMap (fun key => nonEmptyStr key delta) = []
  · have hunused : nonEmptyStr "thinking" delta = [] := by
      rw [hnone] at hparts
      exact (append_eq_nil_iff.mp hparts).2
    rw [if_pos (List.isEmpty_iff.mpr hnone), if_pos (List.isEmpty_iff.mpr hunused), hstripped,
      hnone]
    rfl
  · have hflat := flatten_ne_nil_of_nonEmptyStr hnone
    rw [if_neg (mt List.isEmpty_iff.mp hnone), get_insert_self, unlessEmpty,
      if_neg (mt List.isEmpty_iff.mp hflat)]

theorem strAt_foldReasoningAliases (delta : Fields) :
    strAt "reasoning_content" (foldReasoningAliases delta) =
      (reasoningAliases.flatMap fun key => nonEmptyStr key delta).flatten ++
        (nonEmptyStr "thinking" delta).flatten := by
  rw [strAt_of_unlessEmpty (get_foldReasoningAliases_self delta)]
  simp [gatheredReasoning, reasoningKeys]

/-! ## One choice -/

theorem get_appendReasoning_ne (delta : Fields) (extra : Text) (hkey : key ≠ "reasoning_content") :
    Fields.get key (appendReasoning delta extra) = Fields.get key delta := by
  unfold appendReasoning
  split_ifs
  · rfl
  · split
    · exact get_insert_ne hkey _ _
    · exact get_insert_ne hkey _ _

theorem strAt_appendReasoning (delta : Fields) (extra : Text) :
    strAt "reasoning_content" (appendReasoning delta extra) =
      strAt "reasoning_content" delta ++ extra := by
  unfold appendReasoning
  split_ifs with hempty
  · rw [List.isEmpty_iff.mp hempty, append_nil]
  · cases hget : Fields.get "reasoning_content" delta with
    | none => simp [strAt, hget]
    | some value => cases value <;> simp [strAt, hget]

theorem get_appendReasoning_self {reasoning : Text}
    (hget : Fields.get "reasoning_content" delta = unlessEmpty reasoning) (extra : Text) :
    Fields.get "reasoning_content" (appendReasoning delta extra) =
      unlessEmpty (reasoning ++ extra) := by
  unfold appendReasoning
  rw [hget]
  cases extra with
  | nil => simpa using hget
  | cons => cases reasoning <;> simp [unlessEmpty]

theorem get_replaceContent_ne (delta : Fields) (text : Text) (hkey : key ≠ "content") :
    Fields.get key (replaceContent delta text) = Fields.get key delta := by
  unfold replaceContent
  split_ifs
  · exact get_remove_ne hkey _
  · exact get_insert_ne hkey _ _

theorem strAt_replaceContent (delta : Fields) (text : Text) :
    strAt "content" (replaceContent delta text) = text := by
  unfold replaceContent
  split_ifs with hempty
  · simp [strAt, List.isEmpty_iff.mp hempty]
  · simp [strAt]

theorem splitContent_spec (hsettled : acc.Settled) (delta : Fields) :
    ∃ split next events, splitContent acc delta = some (split, next) ∧ next.Settled ∧
      (∀ out, scan thinkTable (acc.scanOf out) (strAt "content" delta) =
        next.scanOf (out ++ eventsOut events)) ∧
      strAt "content" split = textOf events ∧
      strAt "reasoning_content" split =
        strAt "reasoning_content" delta ++ reasoningOf events := by
  unfold splitContent
  cases hcontent : nonEmptyStr "content" delta with
  | nil =>
    have hnil := (nonEmptyStr_eq_nil_iff _ _).mp hcontent
    refine ⟨delta, acc, [], rfl, hsettled, ?_, ?_, ?_⟩
    · intro out
      rw [hnil]
      simp [scan, eventsOut]
    · simpa [textOf] using hnil
    · simp [reasoningOf]
  | cons content =>
    have hwhole : strAt "content" delta = content := by
      unfold nonEmptyStr at hcontent
      unfold strAt
      split at hcontent
      · split_ifs at hcontent
        cases hcontent
        rfl
      · cases hcontent
    obtain ⟨events, next, hfeed, hnext, hscan⟩ := hsettled.feed content
    dsimp only
    rw [hfeed]
    refine ⟨_, next, events, rfl, hnext, ?_, ?_, ?_⟩
    · rw [hwhole]
      exact hscan
    · rw [strAt_congr (get_appendReasoning_ne _ _ (by decide)), strAt_replaceContent]
    · rw [strAt_appendReasoning, strAt_congr (get_replaceContent_ne _ _ (by decide))]

theorem strAt_eq_nil_of_no_payload (hpayload : deltaHasPayload delta = false) (key : String) :
    strAt key delta = [] := by
  unfold strAt
  cases hget : Fields.get key delta with
  | none => rfl
  | some value =>
    cases value with
    | str =>
      have hmem := get_mem hget
      unfold deltaHasPayload at hpayload
      rw [any_eq_false] at hpayload
      have hnone := hpayload _ hmem
      simpa [hasPayload] using hnone
    | _ => rfl

/-- What becomes of a choice: its content is scanned, its index stays, and a
choice that is no reason to forward its chunk has nothing to read. -/
structure ChoiceRewritten (acc : ThinkTagAccumulator) (choice rewritten : Value)
    (emit : Bool) (next : ThinkTagAccumulator) (events : List ThinkEvent) : Prop where
  settled : next.Settled
  scanned : ∀ out, scan thinkTable (acc.scanOf out) (contentOf choice) =
    next.scanOf (out ++ eventsOut events)
  content : contentOf rewritten = textOf events
  reasoning : reasoningContentOf rewritten = ownReasoning choice ++ reasoningOf events
  index : indexOf rewritten = indexOf choice
  silent : emit = false → contentOf rewritten = [] ∧ reasoningContentOf rewritten = []

theorem choiceRewritten_of_no_delta (hsettled : acc.Settled) (hdelta : deltaOf choice = []) :
    ChoiceRewritten acc choice choice true acc [] where
  settled := hsettled
  scanned := by
    simp [contentOf, hdelta, strAt, scan, eventsOut]
  content := by simp [contentOf, hdelta, strAt, textOf]
  reasoning := by
    simp [reasoningContentOf, ownReasoning, nonEmptyStr, hdelta, strAt, reasoningOf]
  index := rfl
  silent := by
    intro hemit
    cases hemit

theorem deltaOf_eq_nil (hdelta : ∀ delta, choice.get "delta" ≠ some (.obj delta)) :
    deltaOf choice = [] := by
  unfold deltaOf
  split
  · rename_i delta hget
    exact absurd hget (hdelta delta)
  · rfl

theorem rewriteChoice_cases (acc : ThinkTagAccumulator) (choice : Value) :
    ((∀ delta, choice.get "delta" ≠ some (.obj delta)) ∧
        rewriteChoice acc choice = some (choice, true, acc)) ∨
      ∃ fields delta, choice = .obj fields ∧ Fields.get "delta" fields = some (.obj delta) := by
  cases choice with
  | obj fields =>
    cases hget : Fields.get "delta" fields with
    | none => exact .inl (by simp [Value.get, rewriteChoice, hget])
    | some value =>
      cases value with
      | obj delta => exact .inr ⟨fields, delta, rfl, hget⟩
      | _ => exact .inl (by simp [Value.get, rewriteChoice, hget])
  | _ => exact .inl (by simp [Value.get, rewriteChoice])

theorem rewriteChoice_path {rewritten : Value}
    (hrewrite : rewriteChoice acc choice = some (rewritten, emit, next)) :
    ((∀ delta, choice.get "delta" ≠ some (.obj delta)) ∧ rewritten = choice ∧ emit = true ∧
        next = acc) ∨
      ∃ fields delta split, choice = .obj fields ∧
        Fields.get "delta" fields = some (.obj delta) ∧
        splitContent acc (foldReasoningAliases delta) = some (split, next) ∧
        rewritten = .obj (Fields.insert "delta" (.obj split) fields) ∧
        emit = (finishes choice || deltaHasPayload split) := by
  rcases rewriteChoice_cases acc choice with ⟨hdelta, hplain⟩ | ⟨fields, delta, rfl, hget⟩
  · rw [hplain] at hrewrite
    cases hrewrite
    exact .inl ⟨hdelta, rfl, rfl, rfl⟩
  · simp only [rewriteChoice, hget] at hrewrite
    cases hsplit : splitContent acc (foldReasoningAliases delta) with
    | none => simp [hsplit] at hrewrite
    | some result =>
      obtain ⟨split, last⟩ := result
      rw [hsplit] at hrewrite
      cases hrewrite
      exact .inr ⟨fields, delta, split, rfl, hget, hsplit, rfl, rfl⟩

theorem rewriteChoices_path {choices rewritten : List Value}
    (hrewrite : rewriteChoices acc (choice :: choices) = some (rewritten, emit, next)) :
    ∃ first firstEmit mid rest restEmit,
      rewriteChoice acc choice = some (first, firstEmit, mid) ∧
        rewriteChoices mid choices = some (rest, restEmit, next) ∧
        rewritten = first :: rest ∧ emit = (firstEmit || restEmit) := by
  simp only [rewriteChoices] at hrewrite
  cases hfirst : rewriteChoice acc choice with
  | none => simp [hfirst] at hrewrite
  | some result =>
    obtain ⟨first, firstEmit, mid⟩ := result
    simp only [hfirst] at hrewrite
    cases hrest : rewriteChoices mid choices with
    | none => simp [hrest] at hrewrite
    | some others =>
      obtain ⟨rest, restEmit, last⟩ := others
      rw [hrest] at hrewrite
      cases hrewrite
      exact ⟨first, firstEmit, mid, rest, restEmit, rfl, hrest, rfl, rfl⟩

theorem rewriteChunkValue_cases (acc : ThinkTagAccumulator) (chunk : Value) :
    (choicesOf chunk = [] ∧ rewriteChunkValue acc chunk = some (chunk, true, acc)) ∨
      ∃ fields choice rest, chunk = .obj fields ∧
        Fields.get "choices" fields = some (.arr (choice :: rest)) := by
  cases chunk with
  | obj fields =>
    cases hget : Fields.get "choices" fields with
    | none => exact .inl (by simp [choicesOf, Value.get, rewriteChunkValue, hget])
    | some value =>
      cases value with
      | arr items =>
        cases items with
        | nil => exact .inl (by simp [choicesOf, Value.get, rewriteChunkValue, hget])
        | cons choice rest => exact .inr ⟨fields, choice, rest, rfl, hget⟩
      | _ => exact .inl (by simp [choicesOf, Value.get, rewriteChunkValue, hget])
  | _ => exact .inl ⟨rfl, rfl⟩

theorem rewriteChunkValue_path {chunk rewritten : Value}
    (hrewrite : rewriteChunkValue acc chunk = some (rewritten, emit, next)) :
    (choicesOf chunk = [] ∧ rewritten = chunk ∧ emit = true ∧ next = acc) ∨
      ∃ fields choice rest choices restEmit, chunk = .obj fields ∧
        Fields.get "choices" fields = some (.arr (choice :: rest)) ∧
        rewriteChoices acc (choice :: rest) = some (choices, restEmit, next) ∧
        rewritten = .obj (Fields.insert "choices" (.arr choices) fields) ∧
        emit = ((Fields.get "usage" fields).isSome || restEmit) := by
  rcases rewriteChunkValue_cases acc chunk with ⟨hnone, hplain⟩ | ⟨fields, choice, rest, rfl, hget⟩
  · rw [hplain] at hrewrite
    cases hrewrite
    exact .inl ⟨hnone, rfl, rfl, rfl⟩
  · simp only [rewriteChunkValue, hget] at hrewrite
    cases hchoices : rewriteChoices acc (choice :: rest) with
    | none => simp [hchoices] at hrewrite
    | some result =>
      obtain ⟨choices, restEmit, last⟩ := result
      rw [hchoices] at hrewrite
      cases hrewrite
      exact .inr ⟨fields, choice, rest, choices, restEmit, rfl, hget, hchoices, rfl, rfl⟩

theorem rewriteChoice_spec (hsettled : acc.Settled) (choice : Value) :
    ∃ rewritten emit next events, rewriteChoice acc choice = some (rewritten, emit, next) ∧
      ChoiceRewritten acc choice rewritten emit next events := by
  rcases rewriteChoice_cases acc choice with
    ⟨hdelta, hrewrite⟩ | ⟨fields, delta, rfl, hget⟩
  · exact ⟨choice, true, acc, [], hrewrite,
      choiceRewritten_of_no_delta hsettled (deltaOf_eq_nil hdelta)⟩
  · have hdelta : deltaOf (.obj fields) = delta := by simp [deltaOf, Value.get, hget]
    obtain ⟨split, next, events, hsplit, hnext, hscan, htext, hreasoning⟩ :=
      splitContent_spec hsettled (foldReasoningAliases delta)
    have hcontent : strAt "content" (foldReasoningAliases delta) = strAt "content" delta :=
      strAt_congr (get_foldReasoningAliases_ne delta (by decide) (by decide))
    have hafter : deltaOf (.obj (Fields.insert "delta" (.obj split) fields)) = split := by
      simp [deltaOf, Value.get]
    have hindex : Fields.get "index" (Fields.insert "delta" (.obj split) fields) =
        Fields.get "index" fields := get_insert_ne (by decide) _ _
    refine ⟨.obj (Fields.insert "delta" (.obj split) fields),
      finishes (.obj fields) || deltaHasPayload split, next, events,
      by simp [rewriteChoice, hget, hsplit], ?_⟩
    constructor
    · exact hnext
    · intro out
      rw [contentOf, hdelta, ← hcontent]
      exact hscan out
    · rw [contentOf, hafter, htext]
    · rw [reasoningContentOf, hafter, hreasoning, strAt_foldReasoningAliases, ownReasoning, hdelta]
    · simp [indexOf, Value.get, hindex]
    · intro hemit
      have hsilent : deltaHasPayload split = false := (Bool.or_eq_false_iff.mp hemit).2
      rw [contentOf, reasoningContentOf, hafter]
      exact ⟨strAt_eq_nil_of_no_payload hsilent _, strAt_eq_nil_of_no_payload hsilent _⟩

end LlmProxy
