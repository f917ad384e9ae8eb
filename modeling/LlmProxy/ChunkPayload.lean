import LlmProxy.EventRelay
import LlmProxy.StreamInspector

/-!
# The payloads of the relays

Both relays send chunks of one shape: an identification, one choice with its delta, and at the end a
usage object (`emit_chunk` and the closing payload in `anthropic_stream.rs` and `gemini_stream.rs`).
-/

namespace LlmProxy

open Json (Text Value Fields)
open List

structure RelayFields where
  messageId : Text
  model : Text
  created : UInt64
  contentIdx : UInt64
  streamedTokens : UInt32
  finishReason : Option Text
  deriving DecidableEq, Repr

def RelayFields.new (messageId model : Text) (created : UInt64) : RelayFields where
  messageId := messageId
  model := model
  created := created
  contentIdx := 0
  streamedTokens := 0
  finishReason := none

def numValue (n : ℕ) : Value := .num (.int n)

def reasonValue : Option Text → Value
  | some reason => .str reason
  | none => .null

def assistantRole : Text := "assistant".toList

variable (text : Text)

/-- The delta is chosen by its text: the text `assistant` stands for the role. -/
def chunkDelta (reasoning : Bool) : Value :=
  if text = assistantRole then .obj [("role", .str assistantRole)]
  else if reasoning then .obj [("reasoning_content", .str text)]
  else if text.isEmpty then .obj []
  else .obj [("content", .str text)]

def chunkChoice (index : UInt64) (delta : Value) (finishReason : Option Text) : Value :=
  .obj [("delta", delta), ("finish_reason", reasonValue finishReason),
    ("index", numValue index.toNat)]

variable (f : RelayFields)

def payloadFields (delta : Value) (finishReason : Option Text) : Fields :=
  [("choices", .arr [chunkChoice f.contentIdx delta finishReason]),
    ("created", numValue f.created.toNat), ("id", .str f.messageId), ("model", .str f.model),
    ("object", .str "chat.completion.chunk".toList)]

def chunkPayload (text : Text) (finishReason : Option Text) (reasoning : Bool) : Value :=
  .obj (payloadFields f (chunkDelta text reasoning) finishReason)

variable (usage : Usage)

def usageValue : Value :=
  .obj [("completion_tokens", numValue usage.completionTokens.toNat),
    ("prompt_tokens", numValue usage.promptTokens.toNat),
    ("total_tokens", numValue usage.totalTokens.toNat)]

def closingPayload : Value :=
  .obj (payloadFields f (.obj []) f.finishReason ++ [("usage", usageValue usage)])

/-! ## Plain objects -/

theorem ordered_of_keys {fields : Fields} (keys : List String)
    (hkeys : fields.map Prod.fst = keys) (hordered : (keys.map String.toList).Pairwise (· < ·)) :
    Json.Fields.Ordered fields := by
  rw [← hkeys, map_map, pairwise_map] at hordered
  exact hordered.imp fun hlt => String.lt_iff_toList_lt.mpr hlt

theorem plain_numValue {n : ℕ} (hsmall : n < 2 ^ 64) (depth : ℕ) : (numValue n).Plain depth := by
  cases depth with
  | zero => exact ⟨by omega, by exact_mod_cast hsmall⟩
  | succ depth => exact ⟨by omega, by exact_mod_cast hsmall⟩

theorem plain_str (s : Text) (depth : ℕ) : (Value.str s).Plain depth := by
  cases depth with
  | zero => trivial
  | succ => trivial

theorem plain_reasonValue (reason : Option Text) (depth : ℕ) :
    (reasonValue reason).Plain depth := by
  cases reason with
  | some reason => exact plain_str reason depth
  | none =>
    cases depth with
    | zero => trivial
    | succ => trivial

theorem plain_obj_single (key : String) (s : Text) (depth : ℕ) :
    (Value.obj [(key, .str s)]).Plain (depth + 1) := by
  refine ⟨pairwise_singleton _ _, ?_⟩
  intro field hfield
  rw [mem_singleton.mp hfield]
  exact plain_str s depth

theorem plain_obj_nil (depth : ℕ) : (Value.obj []).Plain (depth + 1) :=
  ⟨List.Pairwise.nil, fun _ hfield => absurd hfield not_mem_nil⟩

theorem plain_chunkDelta (reasoning : Bool) (depth : ℕ) :
    (chunkDelta text reasoning).Plain (depth + 1) := by
  unfold chunkDelta
  split_ifs
  · exact plain_obj_single _ _ depth
  · exact plain_obj_single _ _ depth
  · exact plain_obj_nil depth
  · exact plain_obj_single _ _ depth

theorem plain_chunkChoice (index : UInt64) {delta : Value} {depth : ℕ} (hdelta : delta.Plain depth)
    (finishReason : Option Text) : (chunkChoice index delta finishReason).Plain (depth + 1) := by
  refine ⟨ordered_of_keys ["delta", "finish_reason", "index"] rfl (by decide), ?_⟩
  intro field hfield
  simp only [mem_cons, not_mem_nil, or_false] at hfield
  rcases hfield with rfl | rfl | rfl
  · exact hdelta
  · exact plain_reasonValue finishReason depth
  · exact plain_numValue index.toNat_lt depth

theorem plain_payloadFields {delta : Value} {depth : ℕ} (hdelta : delta.Plain depth)
    (finishReason : Option Text) :
    ∀ field ∈ payloadFields f delta finishReason, field.2.Plain (depth + 2) := by
  intro field hfield
  simp only [payloadFields, mem_cons, not_mem_nil, or_false] at hfield
  rcases hfield with rfl | rfl | rfl | rfl | rfl
  · intro choice hchoice
    rw [mem_singleton.mp hchoice]
    exact plain_chunkChoice f.contentIdx hdelta finishReason
  · exact plain_numValue f.created.toNat_lt _
  · exact plain_str _ _
  · exact plain_str _ _
  · exact plain_str _ _

theorem sendable_chunkPayload (text : Text) (finishReason : Option Text) (reasoning : Bool) :
    Sendable (chunkPayload f text finishReason reasoning) := by
  refine ⟨⟨_, rfl⟩, ?_, ?_⟩
  · exact ordered_of_keys ["choices", "created", "id", "model", "object"] rfl (by decide)
  · exact plain_payloadFields f (plain_chunkDelta text reasoning 123) finishReason

theorem plain_usageValue (depth : ℕ) : (usageValue usage).Plain (depth + 1) := by
  have hsmall : ∀ n : UInt32, n.toNat < 2 ^ 64 := fun n => lt_trans n.toNat_lt (by decide)
  refine ⟨ordered_of_keys ["completion_tokens", "prompt_tokens", "total_tokens"] rfl
    (by decide), ?_⟩
  intro field hfield
  simp only [mem_cons, not_mem_nil, or_false] at hfield
  rcases hfield with rfl | rfl | rfl
  · exact plain_numValue (hsmall _) depth
  · exact plain_numValue (hsmall _) depth
  · exact plain_numValue (hsmall _) depth

theorem sendable_closingPayload : Sendable (closingPayload f usage) := by
  refine ⟨⟨_, rfl⟩, ?_, ?_⟩
  · exact ordered_of_keys ["choices", "created", "id", "model", "object", "usage"] rfl (by decide)
  · intro field hfield
    rcases mem_append.mp hfield with hmem | hmem
    · exact plain_payloadFields f (plain_obj_nil 123) f.finishReason field hmem
    · rw [mem_singleton.mp hmem]
      exact plain_usageValue usage _

/-! ## What a client reads -/

def roleOf (choice : Value) : Text := strAt "role" (deltaOf choice)

def finishReasonOf (choice : Value) : Option Text := (choice.get "finish_reason").bind Value.asStr

def isRoleChunk (chunk : Value) : Bool :=
  (choicesOf chunk).any fun choice => roleOf choice = assistantRole

def RoleFirst (chunks : List Value) : Prop :=
  ∃ first rest, chunks = first :: rest ∧ isRoleChunk first = true ∧
    ∀ chunk ∈ rest, isRoleChunk chunk = false

theorem roleFirst_cons_iff (first : Value) (rest : List Value) :
    RoleFirst (first :: rest) ↔
      isRoleChunk first = true ∧ ∀ chunk ∈ rest, isRoleChunk chunk = false := by
  constructor
  · rintro ⟨other, others, hsplit, hfirst, hrest⟩
    rw [List.cons.injEq] at hsplit
    rw [hsplit.1, hsplit.2]
    exact ⟨hfirst, hrest⟩
  · rintro ⟨hfirst, hrest⟩
    exact ⟨first, rest, rfl, hfirst, hrest⟩

def usagesOf (chunks : List Value) : List Value := chunks.filterMap (Value.get "usage")

def lastFinishReason (chunks : List Value) : Option Text :=
  ((chunks.flatMap choicesOf).filterMap finishReasonOf).getLast?

section

variable (f : RelayFields) (text : Text) (finishReason : Option Text) (reasoning : Bool)
  (usage : Usage) (index : UInt64)

@[simp] theorem choicesOf_chunkPayload :
    choicesOf (chunkPayload f text finishReason reasoning) =
      [chunkChoice f.contentIdx (chunkDelta text reasoning) finishReason] := rfl

@[simp] theorem choicesOf_closingPayload :
    choicesOf (closingPayload f usage) = [chunkChoice f.contentIdx (.obj []) f.finishReason] := rfl

@[simp] theorem finishReasonOf_chunkChoice (delta : Value) :
    finishReasonOf (chunkChoice index delta finishReason) = finishReason := by
  cases finishReason with
  | none => rfl
  | some => rfl

@[simp] theorem indexOf_chunkChoice (delta : Value) :
    indexOf (chunkChoice index delta finishReason) = some (index.toNat : ℤ) := rfl

@[simp] theorem usage_chunkPayload :
    (chunkPayload f text finishReason reasoning).get "usage" = none := rfl

@[simp] theorem usage_closingPayload :
    (closingPayload f usage).get "usage" = some (usageValue usage) := rfl

@[simp] theorem contentsOf_chunkChoice :
    contentOf (chunkChoice index (chunkDelta text reasoning) finishReason) =
        (if text = assistantRole ∨ reasoning = true then [] else text) ∧
      reasoningContentOf (chunkChoice index (chunkDelta text reasoning) finishReason) =
        if text = assistantRole ∨ reasoning = false then [] else text := by
  unfold chunkDelta
  by_cases hrole : text = assistantRole
  · rw [if_pos hrole, if_pos (.inl hrole), if_pos (.inl hrole)]
    exact ⟨rfl, rfl⟩
  · simp only [hrole]
    cases reasoning with
    | true => exact ⟨rfl, rfl⟩
    | false =>
      cases text with
      | nil => exact ⟨rfl, rfl⟩
      | cons => exact ⟨rfl, rfl⟩

@[simp] theorem roleOf_chunkChoice :
    roleOf (chunkChoice index (chunkDelta text reasoning) finishReason) =
      if text = assistantRole then text else [] := by
  unfold chunkDelta
  by_cases hrole : text = assistantRole
  · rw [hrole]
    rfl
  · rw [if_neg hrole]
    split_ifs
    · rfl
    · rfl
    · rfl

@[simp] theorem isRoleChunk_chunkPayload :
    isRoleChunk (chunkPayload f text finishReason reasoning) = decide (text = assistantRole) := by
  rw [isRoleChunk, choicesOf_chunkPayload, any_cons, any_nil, Bool.or_false, roleOf_chunkChoice]
  by_cases hrole : text = assistantRole
  · rw [if_pos hrole]
  · rw [if_neg hrole, decide_eq_false hrole]
    rfl

@[simp] theorem isRoleChunk_closingPayload : isRoleChunk (closingPayload f usage) = false := rfl

theorem usageValue_injective {other : Usage} (hsame : usageValue usage = usageValue other) :
    usage = other := by
  simp only [usageValue, numValue, Value.obj.injEq, List.cons.injEq, Prod.mk.injEq, Value.num.injEq,
    Json.Number.int.injEq, Nat.cast_inj, UInt32.toNat_inj] at hsame
  cases usage
  simp_all

theorem tokenCount_numValue (n : UInt32) : tokenCount (numValue n.toNat) = some n := by
  have hrange : (0 : ℤ) ≤ n.toNat ∧ (n.toNat : ℤ) < 2 ^ 32 :=
    ⟨Int.natCast_nonneg _, by exact_mod_cast n.toNat_lt⟩
  rw [numValue, tokenCount, if_pos hrange, Int.toNat_natCast, UInt32.ofNat_toNat]

theorem fromValue_usageValue : Usage.fromValue (usageValue usage) = some usage := by
  rw [usageValue, Usage.fromValue]
  have hprompt := tokenCount_numValue usage.promptTokens
  have hcompletion := tokenCount_numValue usage.completionTokens
  have htotal := tokenCount_numValue usage.totalTokens
  simp [tokenField, Json.Fields.get_cons, hprompt, hcompletion, htotal]

end

/-- A concatenation in which some pieces are left out or shortened is the full
one only if every piece is complete. -/
theorem flatMap_eq_iff_of_lossy {α β : Type} {l : List α} {g h : α → List β}
    (hlossy : ∀ x ∈ l, g x = h x ∨ (g x).length < (h x).length) :
    l.flatMap g = l.flatMap h ↔ ∀ x ∈ l, g x = h x := by
  have hle : ∀ l : List α, (∀ x ∈ l, g x = h x ∨ (g x).length < (h x).length) →
      (l.flatMap g).length ≤ (l.flatMap h).length := by
    intro l hl
    induction l with
    | nil => exact le_refl _
    | cons x l ih =>
      have hrest := ih fun y hy => hl y (mem_cons_of_mem _ hy)
      have hfirst : (g x).length ≤ (h x).length := by
        rcases hl x mem_cons_self with heq | hlt
        · rw [heq]
        · exact hlt.le
      rw [flatMap_cons, flatMap_cons, length_append, length_append]
      omega
  induction l with
  | nil => simp
  | cons x l ih =>
    have hrest : ∀ y ∈ l, g y = h y ∨ (g y).length < (h y).length :=
      fun y hy => hlossy y (mem_cons_of_mem _ hy)
    rw [flatMap_cons, flatMap_cons, forall_mem_cons]
    rcases hlossy x mem_cons_self with heq | hlt
    · rw [heq]
      simpa using ih hrest
    -- What is lost at `x` cannot be made up for, since nothing arrives that is longer.
    · have hmore := hle l hrest
      constructor
      · intro hsame
        have hlength := congrArg List.length hsame
        rw [length_append, length_append] at hlength
        omega
      · rintro ⟨heq, -⟩
        rw [heq] at hlt
        exact absurd hlt (lt_irrefl _)

/-- The texts that arrive are those that should, except where one reads
`assistant`. -/
theorem flatMap_text_eq_iff {α : Type} (l : List α) (text : α → Text) (skipped : α → Prop)
    [DecidablePred skipped] :
    (l.flatMap fun x => if text x = assistantRole ∨ skipped x then [] else text x) =
        (l.flatMap fun x => if skipped x then [] else text x) ↔
      ∀ x ∈ l, skipped x ∨ text x ≠ assistantRole := by
  have hempty : assistantRole ≠ [] := by decide
  have hpiece : ∀ x, (if text x = assistantRole ∨ skipped x then [] else text x) =
      (if skipped x then [] else text x) ↔ skipped x ∨ text x ≠ assistantRole := by
    intro x
    by_cases hskip : skipped x
    · simp [hskip]
    · by_cases hrole : text x = assistantRole
      · simp [hrole, hempty.symm]
      · simp [hrole]
  rw [flatMap_eq_iff_of_lossy]
  · apply forall₂_congr
    intro x hx
    exact hpiece x
  · intro x hx
    by_cases hkept : skipped x ∨ text x ≠ assistantRole
    · exact .inl ((hpiece x).mpr hkept)
    · right
      rw [not_or, not_not] at hkept
      rw [if_pos (.inl hkept.2), if_neg hkept.1, hkept.2]
      decide

end LlmProxy
