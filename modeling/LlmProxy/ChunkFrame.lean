import LlmProxy.SentChunks

/-!
# What rewriting a chunk leaves alone

The normaliser prints a chunk anew after it has worked on the deltas of its choices.
-/

namespace LlmProxy

open Json (Text Value Fields)
open LineCut List
open Utf8Bytes

def rewrittenKeys : List String := "content" :: reasoningKeys

def releasedFrom (acc : ThinkTagAccumulator) (delta : Fields) :
    Option (List ThinkEvent × ThinkTagAccumulator) :=
  match nonEmptyStr "content" delta with
  | [] => some ([], acc)
  | content :: _ => acc.feed content

structure DeltaFramed (delta rewritten : Fields) (events : List ThinkEvent) : Prop where
  frame : ∀ key, key ∉ rewrittenKeys → Fields.get key rewritten = Fields.get key delta
  reasoning : Fields.get "reasoning_content" rewritten =
    unlessEmpty (gatheredReasoning delta ++ reasoningOf events)

inductive ChoiceFramed :
    ThinkTagAccumulator → Value → Value → ThinkTagAccumulator → Prop
  | whole {acc : ThinkTagAccumulator} {choice : Value}
      (hdelta : ∀ delta, choice.get "delta" ≠ some (.obj delta)) :
      ChoiceFramed acc choice choice acc
  | split {acc next : ThinkTagAccumulator} {choice rewritten : Value} {delta split : Fields}
      {events : List ThinkEvent}
      (hdelta : choice.get "delta" = some (.obj delta))
      (hreleased : releasedFrom acc delta = some (events, next))
      (hframe : ∀ key, key ≠ "delta" → rewritten.get key = choice.get key)
      (hsplit : rewritten.get "delta" = some (.obj split))
      (hkept : DeltaFramed delta split events) :
      ChoiceFramed acc choice rewritten next

inductive ChoicesFramed :
    ThinkTagAccumulator → List Value → List Value → ThinkTagAccumulator → Prop
  | nil {acc : ThinkTagAccumulator} : ChoicesFramed acc [] [] acc
  | cons {acc mid last : ThinkTagAccumulator} {choice rewritten : Value}
      {choices others : List Value} (hfirst : ChoiceFramed acc choice rewritten mid)
      (hrest : ChoicesFramed mid choices others last) :
      ChoicesFramed acc (choice :: choices) (rewritten :: others) last

inductive ChunkFramed :
    ThinkTagAccumulator → Value → Value → ThinkTagAccumulator → Prop
  | whole {acc : ThinkTagAccumulator} {chunk : Value} (hnone : choicesOf chunk = []) :
      ChunkFramed acc chunk chunk acc
  | split {acc next : ThinkTagAccumulator} {chunk rewritten : Value}
      (hsome : choicesOf chunk ≠ [])
      (hframe : ∀ key, key ≠ "choices" → rewritten.get key = chunk.get key)
      (hkept : ChoicesFramed acc (choicesOf chunk) (choicesOf rewritten) next) :
      ChunkFramed acc chunk rewritten next

structure Mute (choice rewritten : Value) : Prop where
  unfinished : finishes choice = false
  hasDelta : ∃ delta, choice.get "delta" = some (.obj delta)
  silent : ∀ field ∈ deltaOf rewritten, hasPayload field.2 = false

structure NothingLeft (chunk rewritten : Value) : Prop where
  noUsage : chunk.get "usage" = none
  hasChoice : choicesOf chunk ≠ []
  mute : List.Forall₂ Mute (choicesOf chunk) (choicesOf rewritten)

section

variable {acc next : ThinkTagAccumulator}

theorem deltaFramed_of_splitContent {delta split : Fields}
    (hsplit : splitContent acc (foldReasoningAliases delta) = some (split, next)) :
    ∃ events, releasedFrom acc delta = some (events, next) ∧ DeltaFramed delta split events := by
  have hfolded : ∀ key, key ∉ reasoningKeys →
      Fields.get key (foldReasoningAliases delta) = Fields.get key delta := by
    intro key hkey
    rw [reasoningKeys, mem_append, not_or, mem_singleton] at hkey
    exact get_foldReasoningAliases_ne delta hkey.1 hkey.2
  have hreasoning := get_foldReasoningAliases_self delta
  have hcontent : nonEmptyStr "content" (foldReasoningAliases delta) =
      nonEmptyStr "content" delta := nonEmptyStr_congr (hfolded "content" (by decide))
  unfold splitContent at hsplit
  unfold releasedFrom
  rw [hcontent] at hsplit
  cases hown : nonEmptyStr "content" delta with
  | nil =>
    rw [hown] at hsplit
    cases hsplit
    refine ⟨[], rfl, ⟨?_, ?_⟩⟩
    · intro key hkey
      exact hfolded key (fun hmem => hkey (mem_cons_of_mem _ hmem))
    · rw [hreasoning, show reasoningOf [] = [] from rfl, append_nil]
  | cons content =>
    rw [hown] at hsplit
    dsimp only at hsplit ⊢
    cases hfeed : acc.feed content with
    | none => simp [hfeed] at hsplit
    | some result =>
      obtain ⟨events, last⟩ := result
      rw [hfeed] at hsplit
      cases hsplit
      refine ⟨events, rfl, ⟨?_, ?_⟩⟩
      · intro key hkey
        rw [rewrittenKeys, mem_cons, not_or] at hkey
        have hother : key ≠ "reasoning_content" := by
          rintro rfl
          exact hkey.2 (by decide)
        rw [get_appendReasoning_ne _ _ hother, get_replaceContent_ne _ _ hkey.1, hfolded key hkey.2]
      · apply get_appendReasoning_self
        rw [get_replaceContent_ne _ _ (by decide), hreasoning]

/-! ## Choices and chunks -/

theorem choiceFramed_of_rewriteChoice {choice rewritten : Value} {emit : Bool}
    (hrewrite : rewriteChoice acc choice = some (rewritten, emit, next)) :
    ChoiceFramed acc choice rewritten next ∧ (emit = false ↔ Mute choice rewritten) := by
  rcases rewriteChoice_path hrewrite with
    ⟨hdelta, rfl, rfl, rfl⟩ | ⟨fields, delta, split, rfl, hget, hsplit, rfl, rfl⟩
  · refine ⟨.whole hdelta, ?_⟩
    constructor
    · intro hemit
      cases hemit
    · intro hmute
      obtain ⟨delta, hget⟩ := hmute.hasDelta
      exact absurd hget (hdelta delta)
  · obtain ⟨events, hreleased, hkept⟩ := deltaFramed_of_splitContent hsplit
    have hafter : deltaOf (.obj (Fields.insert "delta" (.obj split) fields)) = split := by
      simp [deltaOf, Value.get]
    constructor
    · refine .split hget hreleased ?_ (Fields.get_insert_self _ _ _) hkept
      intro key hkey
      exact Fields.get_insert_ne hkey _ _
    · rw [Bool.or_eq_false_iff, deltaHasPayload, any_eq_false]
      simp only [Bool.not_eq_true]
      constructor
      · intro hquiet
        exact ⟨hquiet.1, ⟨delta, hget⟩, by rw [hafter]; exact hquiet.2⟩
      · intro hmute
        have hsilent := hmute.silent
        rw [hafter] at hsilent
        exact ⟨hmute.unfinished, hsilent⟩

theorem choicesFramed_of_rewriteChoices {choices rewritten : List Value} {emit : Bool}
    (hrewrite : rewriteChoices acc choices = some (rewritten, emit, next)) :
    ChoicesFramed acc choices rewritten next ∧
      (emit = false ↔ List.Forall₂ Mute choices rewritten) := by
  induction choices generalizing acc rewritten emit with
  | nil =>
    cases hrewrite
    exact ⟨.nil, by simp⟩
  | cons choice choices ih =>
    obtain ⟨first, firstEmit, mid, rest, restEmit, hfirst, hrest, rfl, rfl⟩ :=
      rewriteChoices_path hrewrite
    obtain ⟨hkept, hmute⟩ := choiceFramed_of_rewriteChoice hfirst
    obtain ⟨hothers, hmutes⟩ := ih hrest
    refine ⟨.cons hkept hothers, ?_⟩
    rw [Bool.or_eq_false_iff, forall₂_cons, hmute, hmutes]

theorem chunkFramed_of_rewriteChunkValue {chunk rewritten : Value} {emit : Bool}
    (hrewrite : rewriteChunkValue acc chunk = some (rewritten, emit, next)) :
    ChunkFramed acc chunk rewritten next ∧ (emit = false ↔ NothingLeft chunk rewritten) := by
  rcases rewriteChunkValue_path hrewrite with
    ⟨hnone, rfl, rfl, rfl⟩ | ⟨fields, choice, rest, choices, restEmit, rfl, hget, hrest, rfl, rfl⟩
  · refine ⟨.whole hnone, ?_⟩
    constructor
    · intro hemit
      cases hemit
    · intro hleft
      exact absurd hnone hleft.hasChoice
  · obtain ⟨hkept, hmute⟩ := choicesFramed_of_rewriteChoices hrest
    have hbefore : choicesOf (.obj fields) = choice :: rest := by
      simp [choicesOf, Value.get, hget]
    have hafter : choicesOf (.obj (Fields.insert "choices" (.arr choices) fields)) = choices := by
      simp [choicesOf, Value.get]
    have hsome : choicesOf (.obj fields) ≠ [] := by
      rw [hbefore]
      exact cons_ne_nil _ _
    constructor
    · refine .split hsome ?_ (by rw [hbefore, hafter]; exact hkept)
      intro key hkey
      exact Fields.get_insert_ne hkey _ _
    · rw [Bool.or_eq_false_iff, hmute, Option.isSome_eq_false_iff, Option.isNone_iff_eq_none]
      constructor
      · intro hquiet
        exact ⟨hquiet.1, hsome, by rw [hbefore, hafter]; exact hquiet.2⟩
      · intro hleft
        have hall := hleft.mute
        rw [hbefore, hafter] at hall
        exact ⟨hleft.noUsage, hall⟩

end

section

variable [SerdeJson]

/-- The text sent for a chunk: a data event with the printed value, or the
line as it came if its payload is that text already. -/
def SentAs (line : Bytes) (payload : Text) (value : Value) (bytes : Bytes) : Prop :=
  ∃ s, SerdeJson.toString value = some s ∧ (bytes = dataEvent s ∨ (bytes = line ∧ s = payload))

theorem sentAs_forwardedLine (hjson : SerdeJson.Lawful) (line : Bytes) (payload : Text)
    (chunk : Value) : SentAs line payload chunk (forwardedLine line payload chunk) := by
  obtain ⟨s, hprint⟩ := hjson.prints chunk
  refine ⟨s, hprint, ?_⟩
  unfold forwardedLine
  rw [hprint]
  dsimp only
  split_ifs with hsame
  · exact .inl rfl
  · exact .inr ⟨rfl, not_not.mp hsame⟩

/-- The printed value is compared with the one that came in, for any state of the accumulator. -/
theorem transformLine_chunk (hjson : SerdeJson.Lawful) {n next : LineNormaliser} {line : Bytes}
    {text payload : Text} {fields : Fields} {out : Option Bytes}
    (htext : fromBytes line = some text)
    (hdata : (dropEnd '\r' (dropEnd '\n' text)).dropPrefix? dataField = some payload)
    (hchunk : SerdeJson.fromStr (trimStart payload) = some (.obj fields))
    (hstep : transformLine n line = some (out, next)) :
    ∃ rewritten, ChunkFramed n.acc (.obj fields) rewritten next.acc ∧
      (∀ bytes, out = some bytes → SentAs line (trimStart payload) rewritten bytes) ∧
      (out = none ↔ NothingLeft (.obj fields) rewritten) := by
  rw [transformLine_data htext hdata] at hstep
  rcases transformPayload_path hstep with
    ⟨hdone, -, -⟩ | ⟨found, rewritten, emit, acc, hfound, -, hrewrite, rfl, rfl⟩ | ⟨hother, -, -, -⟩
  · rw [hdone] at hchunk
    exact absurd (hjson.parsesObject _ _ hchunk) (by decide)
  · rw [hchunk, Option.some_inj, Value.obj.injEq] at hfound
    subst hfound
    obtain ⟨hkept, hdropped⟩ := chunkFramed_of_rewriteChunkValue hrewrite
    refine ⟨rewritten, hkept, ?_, ?_⟩
    · intro bytes hbytes
      split_ifs at hbytes
      cases hbytes
      exact sentAs_forwardedLine hjson _ _ _
    · rw [← hdropped]
      cases emit with
      | true => simp
      | false => simp
  · exact absurd hchunk (hother fields)

end

section

attribute [local instance] jsonText

def aliasedFields : Fields :=
  [("choices", .arr [.obj [("delta", .obj [("content", .str "<think>b".toList),
    ("reasoning", .null), ("thinking", .str "a".toList)])]]), ("id", .num (.int 7))]

def aliasedText : Text := Json.print (.obj aliasedFields)

def aliasedLine : Bytes := toBytes ("data: ".toList ++ aliasedText ++ "\n".toList)

theorem transformLine_aliased :
    ∃ out next rewritten, transformLine .new aliasedLine = some (out, next) ∧
      ChunkFramed LineNormaliser.new.acc (.obj aliasedFields) rewritten next.acc ∧
      (∀ bytes, out = some bytes →
        SentAs aliasedLine (trimStart (' ' :: aliasedText)) rewritten bytes) ∧
      (out = none ↔ NothingLeft (.obj aliasedFields) rewritten) := by
  have htext : fromBytes aliasedLine = some ("data: ".toList ++ aliasedText ++ "\n".toList) := by
    decide +kernel
  have hdata : (dropEnd '\r' (dropEnd '\n' ("data: ".toList ++ aliasedText ++
      "\n".toList))).dropPrefix? dataField = some (' ' :: aliasedText) := by decide +kernel
  have hchunk : SerdeJson.fromStr (trimStart (' ' :: aliasedText)) = some (.obj aliasedFields) := by
    decide +kernel
  have hsettled : LineNormaliser.new.acc.Settled := ThinkTagAccumulator.settled_new
  obtain ⟨out, next, hstep, -⟩ := transformLine_settled hsettled aliasedLine
  obtain ⟨rewritten, hkept⟩ := transformLine_chunk jsonText_lawful htext hdata hchunk hstep
  exact ⟨out, next, rewritten, hstep, hkept⟩

end

end LlmProxy
