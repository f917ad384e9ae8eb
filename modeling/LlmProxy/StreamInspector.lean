import LlmProxy.SentChunks

/-!
# The stream inspector

`StreamInspector` reads the lines a client is sent and keeps the last usage, finish reason and model
it saw, with the token details of the usage (`provider/inspector.rs`).  A task of the handler cuts
the forwarded items into lines and hands them over (`build_stream_response`).
-/

namespace LlmProxy

open Json (Text Value Fields)
open LineCut
open NormalizingStream
open Utf8Bytes

structure Usage where
  promptTokens : UInt32 := 0
  completionTokens : UInt32 := 0
  totalTokens : UInt32 := 0
  deriving DecidableEq, Repr

inductive ProviderCacheKind where
  | none
  | openAiPromptCache
  | deepSeekPromptCache
  | geminiCachedContent
  | anthropicCacheControl
  deriving DecidableEq, Repr

structure CacheReport where
  hitTokens : Option ℤ
  creationTokens : Option ℤ
  source : ProviderCacheKind
  deriving DecidableEq, Repr

structure AuditFromProvider where
  cache : CacheReport
  reasoningTokens : Option ℤ
  audioTokens : Option ℤ
  upstreamModel : Option Text
  systemFingerprint : Option Text
  finishReason : Option Text
  deriving DecidableEq, Repr

structure StreamSummary where
  usage : Option Usage
  finishReason : Option Text
  upstreamModel : Option Text
  rawUsageJson : Option Value

structure StreamRecord where
  accumulatedUsage : Option Usage := none
  finishReason : Option Text := none
  upstreamModel : Option Text := none
  rawUsageJson : Option Value := none
  reasoningTokens : ℤ := 0
  audioTokens : ℤ := 0
  cacheHitTokens : Option ℤ := none
  cacheSource : ProviderCacheKind := .none

structure StreamInspector extends StreamRecord where
  firstChunkAt : Option ℕ := none
  startAt : ℕ

/-! ## Reading usage -/

/-- A `u32` field: only an integer in range is accepted. -/
def tokenCount : Value → Option UInt32
  | .num (.int n) => if 0 ≤ n ∧ n < 2 ^ 32 then some (UInt32.ofNat n.toNat) else none
  | _ => none

def tokenField (key : String) (fields : Fields) : Option UInt32 :=
  match Fields.get key fields with
  | some value => tokenCount value
  | none => some 0

/-- `serde_json::from_value::<Usage>`.  Absent fields are zero, and the derived
reader also takes an array of at most three counts. -/
def Usage.fromValue : Value → Option Usage
  | .obj fields => do
      let promptTokens ← tokenField "prompt_tokens" fields
      let completionTokens ← tokenField "completion_tokens" fields
      let totalTokens ← tokenField "total_tokens" fields
      pure ⟨promptTokens, completionTokens, totalTokens⟩
  | .arr items => do
      let counts ← items.mapM tokenCount
      if counts.length ≤ 3 then
        pure ⟨counts.getD 0 0, counts.getD 1 0, counts.getD 2 0⟩
      else none
  | _ => none

/-- `pointer("/outer/inner")` for keys that are no array positions. -/
def pointer (outer inner : String) (value : Value) : Option Value :=
  (value.get outer).bind (Value.get inner)

namespace StreamRecord

variable (chunk : Value) (r : StreamRecord)

def noteModel : StreamRecord :=
  match (chunk.get "model").bind Value.asStr with
  | some model => { r with upstreamModel := some model }
  | none => r

def noteUsage : StreamRecord :=
  match chunk.get "usage" with
  | some usage =>
    match Usage.fromValue usage with
    | some u => { r with accumulatedUsage := some u, rawUsageJson := some usage }
    | none => r
  | none => r

def noteFinishReason (choice : Value) : StreamRecord :=
  match (choice.get "finish_reason").bind Value.asStr with
  | some reason => if reason ≠ "null".toList then { r with finishReason := some reason } else r
  | none => r

def noteFinishReasons : StreamRecord :=
  match (chunk.get "choices").bind Value.asArray with
  | some choices => choices.foldl noteFinishReason r
  | none => r

def noteCached (usage : Value) (r : StreamRecord) : StreamRecord :=
  match (pointer "prompt_tokens_details" "cached_tokens" usage).bind Value.asI64 with
  | some cached => { r with cacheHitTokens := some cached, cacheSource := .openAiPromptCache }
  | none => r

def noteReasoning (usage : Value) (r : StreamRecord) : StreamRecord :=
  match (pointer "completion_tokens_details" "reasoning_tokens" usage).bind Value.asI64 with
  | some tokens => { r with reasoningTokens := tokens }
  | none => r

def noteAudio (usage : Value) (r : StreamRecord) : StreamRecord :=
  match (pointer "completion_tokens_details" "audio_tokens" usage).bind Value.asI64 with
  | some tokens => { r with audioTokens := tokens }
  | none => r

def noteDetails : StreamRecord :=
  match chunk.get "usage" with
  | some usage => noteAudio usage (noteReasoning usage (noteCached usage r))
  | none => r

def noteChunk : StreamRecord :=
  noteDetails chunk (noteFinishReasons chunk (noteUsage chunk (noteModel chunk r)))

/-- `NEEDLES`: lines without any of these are not parsed. -/
def needles : List Bytes := [utf8 "usage", utf8 "finish_reason", utf8 "model", utf8 "[DONE]"]

variable [SerdeJson]

def noteText (text : Text) (r : StreamRecord) : StreamRecord :=
  let trimmed := trim (trim text)
  if trimmed.isEmpty then r
  else if trimmed = "data: [DONE]".toList then r
  else
    match trimmed.dropPrefix? "data: ".toList with
    | none => r
    | some jsonStr =>
      match SerdeJson.fromStr jsonStr with
      | none => r
      | some chunk => noteChunk chunk r

/-- `ingest_chunk` without its clock. -/
def noteLine (r : StreamRecord) (line : Bytes) : StreamRecord :=
  if needles.any fun needle => needle <:+: line then
    match fromBytes line with
    | none => r
    | some text => noteText text r
  else r

end StreamRecord

namespace StreamInspector

def newStartedAt (startAt : ℕ) : StreamInspector where
  startAt := startAt

/-- Counts of zero are left out. -/
def intoAudit (s : StreamInspector) : AuditFromProvider where
  cache := ⟨s.cacheHitTokens, none, s.cacheSource⟩
  reasoningTokens := if 0 < s.reasoningTokens then some s.reasoningTokens else none
  audioTokens := if 0 < s.audioTokens then some s.audioTokens else none
  upstreamModel := s.upstreamModel
  systemFingerprint := none
  finishReason := s.finishReason

def finalize (s : StreamInspector) : StreamSummary where
  usage := s.accumulatedUsage
  finishReason := s.finishReason
  upstreamModel := s.upstreamModel
  rawUsageJson := s.rawUsageJson

theorem intoAudit_congr {s t : StreamInspector} (hrecord : s.toStreamRecord = t.toStreamRecord) :
    s.intoAudit = t.intoAudit ∧ s.finalize = t.finalize := by
  unfold intoAudit finalize
  rw [hrecord]
  exact ⟨rfl, rfl⟩

variable [SerdeJson]

/-- The instant of the first line is kept. -/
def ingestChunk (now : ℕ) (s : StreamInspector) (line : Bytes) : StreamInspector :=
  { s with
    toStreamRecord := s.toStreamRecord.noteLine line
    firstChunkAt := some (s.firstChunkAt.getD now) }

/-- The loop of the handler's task for one received item, with the instant it
arrives at. -/
def receive (task : StreamInspector × Bytes) (item : ℕ × Bytes) : StreamInspector × Bytes :=
  feedLines newline (ingestChunk item.1) task.1 (task.2 ++ item.2)

/-- The task of `build_stream_response`: an unterminated last line is handed
over at the end. -/
def inspect (startAt : ℕ) (items : List (ℕ × Bytes)) (endAt : ℕ) : StreamInspector :=
  let task := items.foldl receive (newStartedAt startAt, [])
  if task.2.isEmpty then task.1 else ingestChunk endAt task.1 task.2

end StreamInspector

section

variable [SerdeJson]

def recorded (bytes : Bytes) : StreamRecord :=
  let fed := feedLines newline StreamRecord.noteLine {} bytes
  if fed.2.isEmpty then fed.1 else fed.1.noteLine fed.2

theorem foldl_ingestChunk_record (now : ℕ) (s : StreamInspector) (lines : List Bytes) :
    (lines.foldl (StreamInspector.ingestChunk now) s).toStreamRecord =
      lines.foldl StreamRecord.noteLine s.toStreamRecord := by
  induction lines generalizing s with
  | nil => rfl
  | cons line lines ih => exact ih (StreamInspector.ingestChunk now s line)

theorem foldl_receive_record (items : List (ℕ × Bytes)) (task : StreamInspector × Bytes) :
    ((items.foldl StreamInspector.receive task).1.toStreamRecord,
        (items.foldl StreamInspector.receive task).2) =
      (items.map Prod.snd).foldl
        (fun fed piece => feedLines newline StreamRecord.noteLine fed.1 (fed.2 ++ piece))
        (task.1.toStreamRecord, task.2) := by
  induction items generalizing task with
  | nil => rfl
  | cons item items ih =>
    rw [List.foldl_cons, List.map_cons, List.foldl_cons, ih]
    congr 1
    exact Prod.ext (foldl_ingestChunk_record item.1 task.1 _) rfl

theorem inspect_record (startAt endAt : ℕ) (items : List (ℕ × Bytes)) :
    (StreamInspector.inspect startAt items endAt).toStreamRecord =
      recorded (items.map Prod.snd).flatten := by
  have hfold := foldl_receive_record items (StreamInspector.newStartedAt startAt, [])
  have hfresh : (StreamInspector.newStartedAt startAt).toStreamRecord = {} := rfl
  rw [foldl_feedLines _ List.not_mem_nil, List.nil_append, hfresh] at hfold
  have hrecord := congrArg Prod.fst hfold
  have hrest := congrArg Prod.snd hfold
  unfold StreamInspector.inspect recorded
  dsimp only
  rw [hrest, ← hrecord, apply_ite StreamInspector.toStreamRecord]
  rfl

/-- Two ways of cutting an upstream give the client the same bytes and leave
the same audit. -/
theorem stream_and_audit_independent_of_cut {events other : List Poll}
    (hflowing : Flowing events) (hother : Flowing other)
    (hsame : upcoming events = upcoming other) :
    ∃ outs outsOther, collect (events ++ [.finished]) = some outs ∧
      collect (other ++ [.finished]) = some outsOther ∧ outs.flatten = outsOther.flatten ∧
      ∀ (items itemsOther : List (ℕ × Bytes)) (startAt startOther endAt endOther : ℕ),
        items.map Prod.snd = outs → itemsOther.map Prod.snd = outsOther →
        (StreamInspector.inspect startAt items endAt).intoAudit =
            (StreamInspector.inspect startOther itemsOther endOther).intoAudit ∧
          (StreamInspector.inspect startAt items endAt).finalize =
            (StreamInspector.inspect startOther itemsOther endOther).finalize := by
  obtain ⟨outs, hcollect, hnormalised⟩ := collect_eq_normalised hflowing
  obtain ⟨outsOther, hcollectOther, hnormalisedOther⟩ := collect_eq_normalised hother
  have hbytes : outs.flatten = outsOther.flatten := by
    rw [hsame, hnormalisedOther, Option.some_inj] at hnormalised
    exact hnormalised.symm
  refine ⟨outs, outsOther, hcollect, hcollectOther, hbytes, ?_⟩
  intro items itemsOther startAt startOther endAt endOther hitems hitemsOther
  apply StreamInspector.intoAudit_congr
  rw [inspect_record, inspect_record, hitems, hitemsOther, hbytes]

end

section

attribute [local instance] jsonText

def accentLine : Bytes := utf8 "data: \x7b\"model\":\"é\",\"choices\":[]\x7d\r\n\r\n"

/-- A cut between the two bytes, and no cut. -/
theorem split_accent_same_audit :
    accentLine.take 17 = utf8 "data: \x7b\"model\":\"" ++ [195] ∧
    ∃ outs outsOther,
      collect ([.item (accentLine.take 17), .pending, .item (accentLine.drop 17)] ++ [.finished]) =
          some outs ∧
        collect ([.item accentLine] ++ [.finished]) = some outsOther ∧
        outs.flatten = outsOther.flatten ∧
        ∀ (items itemsOther : List (ℕ × Bytes)) (startAt startOther endAt endOther : ℕ),
          items.map Prod.snd = outs → itemsOther.map Prod.snd = outsOther →
          (StreamInspector.inspect startAt items endAt).intoAudit =
              (StreamInspector.inspect startOther itemsOther endOther).intoAudit ∧
            (StreamInspector.inspect startAt items endAt).finalize =
              (StreamInspector.inspect startOther itemsOther endOther).finalize := by
  refine ⟨by decide, stream_and_audit_independent_of_cut (flowing_pieces _ _) (flowing_item _) ?_⟩
  simp [upcoming, Poll.bytes]

end

end LlmProxy
