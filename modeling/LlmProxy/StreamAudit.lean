import LlmProxy.AuditedLines

/-!
# The audit of a stream and of a whole answer

Token details of a usage object are read twice: by `extract_audit` in the usage of
a whole answer, and by the inspector in each usage of a stream.
-/

namespace LlmProxy

open Json (Text Value Fields)
open LineCut List Option
open Utf8Bytes

/-! ## Counts -/

variable (usage : Value)

def cachedCount : Option ℤ :=
  (pointer "prompt_tokens_details" "cached_tokens" usage).bind Value.asI64

def reasoningCount : Option ℤ :=
  (pointer "completion_tokens_details" "reasoning_tokens" usage).bind Value.asI64

def audioCount : Option ℤ :=
  (pointer "completion_tokens_details" "audio_tokens" usage).bind Value.asI64

def deepSeekCount : Option ℤ :=
  (usage.get "prompt_cache_hit_tokens").bind Value.asI64

def lastCount (count : Value → Option ℤ) (usages : List Value) : Option ℤ :=
  usages.foldl (fun known usage => (count usage).or known) none

theorem lastCount_concat (count : Value → Option ℤ) (usages : List Value) (usage : Value) :
    lastCount count (usages ++ [usage]) = (count usage).or (lastCount count usages) := by
  rw [lastCount, foldl_append]
  rfl

def usageObject (chunk : Value) : Option Value :=
  match chunk.get "usage" with
  | some (.obj fields) => some (.obj fields)
  | _ => none

/-! ## The record of the inspector -/

structure HoldsDetails (r : StreamRecord) (usages : List Value) : Prop where
  hit : r.cacheHitTokens = lastCount cachedCount usages
  source : r.cacheSource =
    if (lastCount cachedCount usages).isSome then .openAiPromptCache else .none
  reasoning : r.reasoningTokens = (lastCount reasoningCount usages).getD 0
  audio : r.audioTokens = (lastCount audioCount usages).getD 0

structure SameDetails (r t : StreamRecord) : Prop where
  hit : r.cacheHitTokens = t.cacheHitTokens
  source : r.cacheSource = t.cacheSource
  reasoning : r.reasoningTokens = t.reasoningTokens
  audio : r.audioTokens = t.audioTokens

variable {r : StreamRecord} {usages : List Value}

namespace SameDetails

theorem refl (r : StreamRecord) : SameDetails r r := ⟨rfl, rfl, rfl, rfl⟩

theorem trans {t u : StreamRecord} (hrt : SameDetails r t) (htu : SameDetails t u) :
    SameDetails r u :=
  ⟨hrt.hit.trans htu.hit, hrt.source.trans htu.source, hrt.reasoning.trans htu.reasoning,
    hrt.audio.trans htu.audio⟩

variable (chunk : Value)

theorem noteModel (r : StreamRecord) : SameDetails (r.noteModel chunk) r := by
  unfold StreamRecord.noteModel
  split
  · exact ⟨rfl, rfl, rfl, rfl⟩
  · exact refl r

theorem noteUsage (r : StreamRecord) : SameDetails (r.noteUsage chunk) r := by
  unfold StreamRecord.noteUsage
  split
  · split
    · exact ⟨rfl, rfl, rfl, rfl⟩
    · exact refl r
  · exact refl r

theorem noteFinishReason (choice : Value) (r : StreamRecord) :
    SameDetails (r.noteFinishReason choice) r := by
  unfold StreamRecord.noteFinishReason
  split
  · split_ifs
    · exact ⟨rfl, rfl, rfl, rfl⟩
    · exact refl r
  · exact refl r

theorem foldl_noteFinishReason (choices : List Value) (r : StreamRecord) :
    SameDetails (choices.foldl StreamRecord.noteFinishReason r) r := by
  induction choices generalizing r with
  | nil => exact refl r
  | cons choice choices ih => exact (ih _).trans (noteFinishReason choice r)

theorem noteFinishReasons (r : StreamRecord) : SameDetails (r.noteFinishReasons chunk) r := by
  unfold StreamRecord.noteFinishReasons
  split
  · exact foldl_noteFinishReason _ r
  · exact refl r

end SameDetails

theorem HoldsDetails.congr {t : StreamRecord} (hdetails : HoldsDetails r usages)
    (hsame : SameDetails t r) : HoldsDetails t usages where
  hit := hsame.hit.trans hdetails.hit
  source := hsame.source.trans hdetails.source
  reasoning := hsame.reasoning.trans hdetails.reasoning
  audio := hsame.audio.trans hdetails.audio

theorem holdsDetails_fresh : HoldsDetails {} [] := ⟨rfl, rfl, rfl, rfl⟩

section

variable (usage : Value) (r : StreamRecord)

theorem noteCached_eq :
    r.noteCached usage =
      { r with
        cacheHitTokens := (cachedCount usage).or r.cacheHitTokens
        cacheSource :=
          if (cachedCount usage).isSome then .openAiPromptCache else r.cacheSource } := by
  unfold StreamRecord.noteCached
  split
  · rename_i cached hcached
    rw [show cachedCount usage = some cached from hcached]
    rfl
  · rename_i hnone
    rw [show cachedCount usage = none from hnone]
    rfl

theorem noteReasoning_eq :
    r.noteReasoning usage =
      { r with reasoningTokens := (reasoningCount usage).getD r.reasoningTokens } := by
  unfold StreamRecord.noteReasoning
  split
  · rename_i tokens htokens
    rw [show reasoningCount usage = some tokens from htokens]
    rfl
  · rename_i hnone
    rw [show reasoningCount usage = none from hnone]
    rfl

theorem noteAudio_eq :
    r.noteAudio usage = { r with audioTokens := (audioCount usage).getD r.audioTokens } := by
  unfold StreamRecord.noteAudio
  split
  · rename_i tokens htokens
    rw [show audioCount usage = some tokens from htokens]
    rfl
  · rename_i hnone
    rw [show audioCount usage = none from hnone]
    rfl

end

theorem HoldsDetails.noteUsageDetails (hdetails : HoldsDetails r usages) (usage : Value) :
    HoldsDetails (((r.noteCached usage).noteReasoning usage).noteAudio usage)
      (usages ++ [usage]) := by
  rw [noteAudio_eq, noteReasoning_eq, noteCached_eq]
  constructor
  · rw [lastCount_concat, ← hdetails.hit]
  · rw [lastCount_concat]
    cases hcount : cachedCount usage with
    | none => exact hdetails.source
    | some => rfl
  · rw [lastCount_concat]
    cases hcount : reasoningCount usage with
    | none => exact hdetails.reasoning
    | some => rfl
  · rw [lastCount_concat]
    cases hcount : audioCount usage with
    | none => exact hdetails.audio
    | some => rfl

theorem SameDetails.noteDetails {chunk : Value} (hnone : usageObject chunk = none)
    (r : StreamRecord) : SameDetails (r.noteDetails chunk) r := by
  unfold StreamRecord.noteDetails
  unfold usageObject at hnone
  split
  · rename_i usage husage
    rw [husage] at hnone
    cases usage with
    | obj => cases hnone
    | _ => exact refl r
  · exact refl r

theorem HoldsDetails.noteChunk (hdetails : HoldsDetails r usages) (chunk : Value) :
    HoldsDetails (r.noteChunk chunk) (usages ++ (usageObject chunk).toList) := by
  have hsame : SameDetails ((r.noteModel chunk).noteUsage chunk |>.noteFinishReasons chunk) r :=
    (SameDetails.noteFinishReasons chunk _).trans
      ((SameDetails.noteUsage chunk _).trans (SameDetails.noteModel chunk r))
  unfold StreamRecord.noteChunk
  cases hobject : usageObject chunk with
  | none =>
    rw [toList_none, append_nil]
    exact hdetails.congr ((SameDetails.noteDetails hobject _).trans hsame)
  | some usage =>
    have husage : chunk.get "usage" = some usage := by
      unfold usageObject at hobject
      split at hobject
      · rename_i fields hfields
        rw [hfields, hobject]
      · cases hobject
    rw [StreamRecord.noteDetails, husage]
    exact (hdetails.congr hsame).noteUsageDetails usage

section

variable [SerdeJson]

def auditedUsages (bytes : Bytes) : List Value :=
  ((streamLines bytes).filterMap auditChunk).filterMap usageObject

theorem holdsDetails_foldl (hdetails : HoldsDetails r usages) (lines : List Bytes) :
    HoldsDetails (lines.foldl StreamRecord.noteLine r)
      (usages ++ (lines.filterMap auditChunk).filterMap usageObject) := by
  induction lines generalizing r usages with
  | nil =>
    rw [filterMap_nil, filterMap_nil, append_nil]
    exact hdetails
  | cons line lines ih =>
    rw [foldl_cons, noteLine_eq_auditChunk]
    cases hchunk : auditChunk line with
    | none =>
      rw [filterMap_cons_none hchunk]
      exact ih hdetails
    | some chunk =>
      have hrun := ih (hdetails.noteChunk chunk)
      rw [filterMap_cons_some hchunk]
      cases hobject : usageObject chunk with
      | none =>
        rw [filterMap_cons_none hobject]
        rw [hobject, toList_none, append_nil] at hrun
        exact hrun
      | some =>
        rw [filterMap_cons_some hobject]
        rw [hobject, append_assoc] at hrun
        exact hrun

theorem holdsDetails_recorded (bytes : Bytes) :
    HoldsDetails (recorded bytes) (auditedUsages bytes) := by
  rw [recorded_eq_foldl]
  exact holdsDetails_foldl holdsDetails_fresh (streamLines bytes)

end

/-! ## The two audits -/

structure SameUsageAudit (a b : AuditFromProvider) : Prop where
  source : a.cache.source = b.cache.source
  hit : a.cache.hitTokens = b.cache.hitTokens
  reasoning : a.reasoningTokens = b.reasoningTokens
  audio : a.audioTokens = b.audioTokens

/-- The last usage has a count of cached tokens, or neither it nor an earlier one of the stream
says anything about a cache. -/
def CacheAgrees (earlier : List Value) (usage : Value) : Prop :=
  (cachedCount usage).isSome ∨ (deepSeekCount usage = none ∧ lastCount cachedCount earlier = none)

/-- A count of the last usage is positive; if it is absent, no positive one is left from
earlier. -/
def CountAgrees (count : Value → Option ℤ) (earlier : List Value) (usage : Value) : Prop :=
  (∀ n, count usage = some n → 0 < n) ∧
    (count usage = none → (lastCount count earlier).getD 0 ≤ 0)

theorem positive_eq_some_iff {n m : ℤ} :
    (if 0 < n then some n else none) = some m ↔ n = m ∧ 0 < m := by
  rw [ite_none_right_eq_some, some_inj]
  constructor
  · rintro ⟨hpos, rfl⟩
    exact ⟨rfl, hpos⟩
  · rintro ⟨rfl, hpos⟩
    exact ⟨hpos, rfl⟩

theorem positive_eq_none_iff {n : ℤ} : (if 0 < n then some n else none) = none ↔ n ≤ 0 := by
  split_ifs with hpos
  · simp [hpos]
  · simp [not_lt.mp hpos]

theorem positive_iff_countAgrees (count : Value → Option ℤ) (earlier : List Value) (usage : Value) :
    (if 0 < (lastCount count (earlier ++ [usage])).getD 0 then
        some ((lastCount count (earlier ++ [usage])).getD 0) else none) = count usage ↔
      CountAgrees count earlier usage := by
  have hlast := lastCount_concat count earlier usage
  cases hcount : count usage with
  | none =>
    rw [positive_eq_none_iff, hlast, CountAgrees, hcount]
    simp
  | some =>
    rw [positive_eq_some_iff, hlast, CountAgrees, hcount]
    simp

theorem cache_iff_cacheAgrees (earlier : List Value) (usage : Value) :
    ((if (lastCount cachedCount (earlier ++ [usage])).isSome then
        ProviderCacheKind.openAiPromptCache else .none) = (extractCacheFromUsage usage).source ∧
      lastCount cachedCount (earlier ++ [usage]) = (extractCacheFromUsage usage).hitTokens) ↔
      CacheAgrees earlier usage := by
  rw [lastCount_concat, CacheAgrees]
  unfold extractCacheFromUsage
  cases hcached : cachedCount usage with
  | some cached =>
    rw [show (pointer "prompt_tokens_details" "cached_tokens" usage).bind Value.asI64 = some cached
      from hcached]
    simp
  | none =>
    rw [show (pointer "prompt_tokens_details" "cached_tokens" usage).bind Value.asI64 = none
      from hcached]
    cases hdeep : deepSeekCount usage with
    | some cached =>
      rw [show (usage.get "prompt_cache_hit_tokens").bind Value.asI64 = some cached from hdeep]
      cases lastCount cachedCount earlier with
      | none => simp
      | some => simp
    | none =>
      rw [show (usage.get "prompt_cache_hit_tokens").bind Value.asI64 = none from hdeep]
      cases lastCount cachedCount earlier with
      | none => simp [CacheReport.none]
      | some => simp [CacheReport.none]

namespace ChatCall

section

variable [SerdeJson] {Cost : Type} (call : ChatCall Cost)

theorem holdsDetails_inspected (script : List Poll) :
    HoldsDetails (call.inspected script).toStreamRecord
      (auditedUsages (call.streamItems script).flatten) := by
  have hrecord := call.inspected_record script
  rw [hrecord]
  exact holdsDetails_recorded _

/-- The rows of a stream and of a whole answer with the same last usage. -/
theorem sameUsageAudit_iff {won : Success} (hkind : won.provider.kind = .openAi)
    {script : List Poll} {earlier : List Value} {usage raw : Value}
    {answer : ChatCompletionResponse}
    (hlast : auditedUsages (call.streamItems script).flatten = earlier ++ [usage])
    (hanswer : OpenAiProvider.readAnswer raw = some answer)
    (hraw : raw.get "usage" = some usage) :
    SameUsageAudit (call.streamRow won script).audit.fromProvider
        (call.onceRow won answer).audit.fromProvider ↔
      CacheAgrees earlier usage ∧ CountAgrees reasoningCount earlier usage ∧
        CountAgrees audioCount earlier usage := by
  have hdetails := call.holdsDetails_inspected script
  rw [hlast] at hdetails
  obtain ⟨decoded, -, hdecoded⟩ := map_eq_some_iff.mp hanswer
  have husage : answer.rawUsageJson = some usage := by
    rw [← hdecoded, ← hraw]
  have hwhole : (call.onceRow won answer).audit.fromProvider =
      { ProviderKind.openAi.usageAudit usage with
        upstreamModel := some answer.model
        finishReason := answer.choices.head?.bind Choice.finishReason } := by
    unfold onceRow ProviderKind.extractAudit
    rw [hkind, husage]
    rfl
  have hstream : (call.streamRow won script).audit.fromProvider =
      (call.inspected script).intoAudit := rfl
  rw [hwhole, ← cache_iff_cacheAgrees, ← positive_iff_countAgrees, ← positive_iff_countAgrees,
    ← hdetails.source, ← hdetails.hit, ← hdetails.reasoning, ← hdetails.audio]
  constructor
  · intro hsame
    exact ⟨⟨hsame.source, hsame.hit⟩, hsame.reasoning, hsame.audio⟩
  · rintro ⟨⟨hsource, hhit⟩, hreasoning, haudio⟩
    exact ⟨hsource, hhit, hreasoning, haudio⟩

end

attribute [local instance] jsonText

def detailedUsage : Value :=
  .obj [("completion_tokens", .num (.int 50)),
    ("completion_tokens_details", .obj [("reasoning_tokens", .num (.int 30))]),
    ("prompt_tokens", .num (.int 1000)),
    ("prompt_tokens_details", .obj [("cached_tokens", .num (.int 0))])]

def deepSeekUsage : Value :=
  .obj [("completion_tokens", .num (.int 50)), ("prompt_cache_hit_tokens", .num (.int 500)),
    ("prompt_tokens", .num (.int 1000)), ("total_tokens", .num (.int 1050))]

def usageStream (usage : Value) : List Poll :=
  [.item (dataEvent (Json.print (.obj [("choices", .arr []), ("usage", usage)]))), .item doneEvent,
    .finished]

def usageBody (usage : Value) : Value :=
  .obj [("choices", .arr []), ("id", .str "x".toList), ("usage", usage)]

theorem detailed_same_audit :
    auditedUsages ((relayCall false).streamItems (usageStream detailedUsage)).flatten =
        [] ++ [detailedUsage] ∧
      SameUsageAudit
        ((relayCall false).streamRow relayed (usageStream detailedUsage)).audit.fromProvider
        ((relayCall false).onceRow relayed ((OpenAiProvider.readAnswer
          (usageBody detailedUsage)).get (by decide +kernel))).audit.fromProvider := by
  have hlast : auditedUsages ((relayCall false).streamItems (usageStream detailedUsage)).flatten =
      [] ++ [detailedUsage] := by
    decide +kernel
  have hreasoning : reasoningCount detailedUsage = some 30 := by decide
  have hagrees : CountAgrees reasoningCount [] detailedUsage ∧
      CountAgrees audioCount [] detailedUsage := by
    constructor
    · simp [CountAgrees, hreasoning]
    · simp [CountAgrees, show audioCount detailedUsage = none by decide, lastCount]
  exact ⟨hlast, ((relayCall false).sameUsageAudit_iff rfl hlast (some_get _).symm rfl).mpr
    ⟨.inl (by decide), hagrees⟩⟩

/-- The hit of a DeepSeek cache is in the audit of the whole answer only. -/
theorem deepSeek_cache_missed :
    auditedUsages ((relayCall false).streamItems (usageStream deepSeekUsage)).flatten =
        [deepSeekUsage] ∧
      Usage.fromValue deepSeekUsage = some ⟨1000, 50, 1050⟩ ∧
      ((relayCall false).streamRow relayed (usageStream deepSeekUsage)).audit.fromProvider.cache =
        ⟨none, none, .none⟩ ∧
      (OpenAiProvider.readAnswer (usageBody deepSeekUsage)).map (fun answer =>
        ((relayCall false).onceRow relayed answer).audit.fromProvider.cache) =
        some ⟨some 500, none, .deepSeekPromptCache⟩ := by
  decide +kernel

end ChatCall

end LlmProxy
