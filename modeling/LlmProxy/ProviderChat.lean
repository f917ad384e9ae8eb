import LlmProxy.ChatCodec
import LlmProxy.RetryLoop

/-!
# One call of a provider

`Provider::chat` for the three kinds of provider, and the errors it hands to the
retry loop.  An error status is classified in five places, by three rules.
`openai.rs` documents the table that all of them should follow.
-/

namespace LlmProxy

open Json

/-! ## Answers of an upstream -/

structure StatusCode where
  code : UInt16
  valid : 100 ≤ code.toNat ∧ code.toNat < 1000

namespace StatusCode

def ok : StatusCode := ⟨200, by decide⟩

def isSuccess (s : StatusCode) : Bool := 200 ≤ s.code ∧ s.code < 300

def isServerError (s : StatusCode) : Bool := 500 ≤ s.code ∧ s.code < 600

end StatusCode

structure HttpResponse (Body : Type) where
  status : StatusCode
  contentType : Option Text
  text : Text
  stream : Body

/-- What a provider gets for its request.  The texts of the libraries' own errors
are arbitrary. -/
structure Exchange (Body : Type) where
  answer : Except String (HttpResponse Body)
  jsonError : String

inductive ProviderResponse (Body : Type)
  | once (response : ChatCompletionResponse)
  | stream (body : Body)

inductive ProviderKind
  | openAi
  | anthropic
  | gemini
  deriving DecidableEq, Repr

/-! ## Error messages -/

def maxUpstreamErrorChars : ℕ := 512

def collapseSpace (s : Text) : Text :=
  [' '].intercalate ((s.splitOnP isWhitespace).filter fun piece => !piece.isEmpty)

/-- White space is collapsed first. -/
def truncateErrorBody (body : Text) : Text :=
  let collapsed := collapseSpace body
  if collapsed.length ≤ maxUpstreamErrorChars then collapsed
  else collapsed.take maxUpstreamErrorChars ++ ['…']

/-- `error.message`, `message` or `error`, the first that is a text. -/
def extractJsonErrorMessage (json : Value) : Option Text :=
  ((pointer "error" "message" json).bind Value.asStr).or
    (((json.get "message").bind Value.asStr).or ((json.get "error").bind Value.asStr))

section

variable [SerdeJson]

/-- The message in the body, or else the body. -/
def formatUpstreamError (status : UInt16) (body : Text) : String :=
  let trimmed := trim body
  if trimmed.isEmpty then s!"upstream {status}"
  else
    let detail := String.ofList
      (truncateErrorBody (((SerdeJson.fromStr trimmed).bind extractJsonErrorMessage).getD trimmed))
    s!"upstream {status}: {detail}"

variable {Body : Type}

def statusError (retryable badKeyHint : Bool) (response : HttpResponse Body) : AppError :=
  .upstream (some response.status.code) retryable badKeyHint
    (formatUpstreamError response.status.code response.text)

def connectError (action : String) (error : String) : AppError :=
  .upstream none true false s!"{action}: {error}"

variable (response : HttpResponse Body)

def bodyError (action error : String) : AppError :=
  .upstream (some response.status.code) false false s!"{action}: {error}"

/-- A listed status is a hint at a bad key. -/
def classified (serverError : Bool) (badStatusCodes : List UInt16) (response : HttpResponse Body) :
    AppError :=
  if serverError then statusError true false response
  else if badStatusCodes.contains response.status.code then statusError true true response
  else statusError false false response

namespace OpenAiProvider

variable (badStatusCodes : List UInt16)

def failure (response : HttpResponse Body) : AppError :=
  classified response.status.isServerError badStatusCodes response

def isStream (response : HttpResponse Body) : Bool :=
  response.contentType.any fun ct => "text/event-stream".toList.isPrefixOf ct

def readAnswer (raw : Value) : Option ChatCompletionResponse :=
  (ChatCompletionResponse.codec.decode raw).map fun answer =>
    { answer with rawUsageJson := raw.get "usage" }

def onResponse (jsonError : String) (response : HttpResponse Body) :
    Except AppError (ProviderResponse Body) :=
  if response.status.isSuccess then
    if isStream response then .ok (.stream response.stream)
    else
      match (SerdeJson.fromStr response.text).bind readAnswer with
      | some answer => .ok (.once answer)
      | none => .error (bodyError response "failed to parse upstream response" jsonError)
  else .error (failure badStatusCodes response)

def chat (req : ChatCompletionRequest) (exchange : Exchange Body) :
    Except AppError (ProviderResponse Body) :=
  match req.encode with
  | none =>
    let error := exchange.jsonError
    .error (.internal s!"failed to serialize request: {error}")
  | some _ =>
    match exchange.answer with
    | .error error => .error (connectError "upstream connect error" error)
    | .ok response => onResponse badStatusCodes exchange.jsonError response

end OpenAiProvider

/-! ## Anthropic and Gemini -/

variable (badStatusCodes : List UInt16)

def streamFailure (response : HttpResponse Body) : AppError :=
  statusError (500 ≤ response.status.code) (badStatusCodes.contains response.status.code) response

def wholeFailure (response : HttpResponse Body) : AppError :=
  classified (500 ≤ response.status.code) badStatusCodes response

def streamedChat (relay : Body → Body) (exchange : Exchange Body) :
    Except AppError (ProviderResponse Body) :=
  match exchange.answer with
  | .error error => .error (connectError "stream connect" error)
  | .ok response =>
    if response.status.isSuccess then .ok (.stream (relay response.stream))
    else .error (streamFailure badStatusCodes response)

def wholeChat (provider : String) (badStatusCodes : List UInt16)
    (readAnswer : Value → Option ChatCompletionResponse) (exchange : Exchange Body) :
    Except AppError (ProviderResponse Body) :=
  match exchange.answer with
  | .error error => .error (connectError s!"{provider} connect error" error)
  | .ok response =>
    if response.status.isSuccess then
      match SerdeJson.fromStr response.text with
      | none => .error (bodyError response "parse error" exchange.jsonError)
      | some raw =>
        match readAnswer raw with
        | none => .error (bodyError response "deserialize error" exchange.jsonError)
        | some answer => .ok (.once answer)
    else .error (wholeFailure badStatusCodes response)

end

namespace AnthropicProvider

def contentRecord : Record AnthropicContent :=
  ((Record.field (.required "type" .text)).and <|
    (Record.field ((Field.skipped "text" .text).orDefault none)).and
    (.field ((Field.skipped "thinking" .text).orDefault none))).as
    (fun ⟨type_, text, thinking⟩ => ⟨type_, text, thinking⟩)
    (fun c => (c.type_, c.text, c.thinking)) fun _ => rfl

def responseRecord : Record AnthropicResponse :=
  ((Record.field (.required "id" .text)).and <|
    (Record.field (.required "model" .text)).and <|
    (Record.field (.required "content" (contentRecord.codec (by decide)).list)).and <|
    (Record.field (.skipped "stop_reason" .text)).and
    (.field (.required "usage" .value))).as
    (fun ⟨id, model, content, stopReason, usage⟩ => ⟨id, model, content, stopReason, usage⟩)
    (fun r => (r.id, r.model, r.content, r.stopReason, r.usage)) fun _ => rfl

def readAnswer (model : Text) (created : UInt64) (raw : Value) : Option ChatCompletionResponse :=
  ((responseRecord.codec (by decide)).decode raw).map fun an =>
    { anthropicToOpenai an model created with rawUsageJson := raw.get "usage" }

def chat [SerdeJson] {Body : Type} (badStatusCodes : List UInt16) (relay : Body → Body)
    (created : UInt64) (req : ChatCompletionRequest) (exchange : Exchange Body) :
    Except AppError (ProviderResponse Body) :=
  if req.stream.getD false then streamedChat badStatusCodes relay exchange
  else wholeChat "anthropic" badStatusCodes (readAnswer req.model.toList created) exchange

end AnthropicProvider

namespace GeminiProvider

def partRecord : Record GeminiResponsePart :=
  ((Record.field ((Field.skipped "text" .text).orDefault none)).and
    (.field ((Field.required "thought" .bool).orDefault false))).as
    (fun ⟨text, thought⟩ => ⟨text, thought⟩) (fun p => (p.text, p.thought)) fun _ => rfl

def contentRecord : Record GeminiContentResponse :=
  (Record.field (.required "parts" (partRecord.codec (by decide)).list)).as
    GeminiContentResponse.mk GeminiContentResponse.parts fun _ => rfl

def candidateRecord : Record GeminiCandidate :=
  ((Record.field (.required "content" (contentRecord.codec (by decide)))).and
    (.field (.skipped "finishReason" .text))).as
    (fun ⟨content, finishReason⟩ => ⟨content, finishReason⟩)
    (fun c => (c.content, c.finishReason)) fun _ => rfl

def responseRecord : Record GeminiResponse :=
  ((Record.field (.required "candidates" (candidateRecord.codec (by decide)).list)).and
    (.field (.skipped "usageMetadata" .value))).as
    (fun ⟨candidates, usageMetadata⟩ => ⟨candidates, usageMetadata⟩)
    (fun r => (r.candidates, r.usageMetadata)) fun _ => rfl

def readAnswer (id model : Text) (created : UInt64) (raw : Value) : Option ChatCompletionResponse :=
  ((responseRecord.codec (by decide)).decode raw).map fun gm =>
    { geminiToOpenai gm id model created with rawUsageJson := raw.get "usageMetadata" }

def chat [SerdeJson] {Body : Type} (badStatusCodes : List UInt16) (relay : Body → Body)
    (id : Text) (created : UInt64) (req : ChatCompletionRequest) (exchange : Exchange Body) :
    Except AppError (ProviderResponse Body) :=
  if req.stream.getD false then streamedChat badStatusCodes relay exchange
  else wholeChat "gemini" badStatusCodes (readAnswer id req.model.toList created) exchange

end GeminiProvider

/-- What a provider has from outside: the relay of its streams, and an
identification and an instant for answers it makes up itself. -/
structure ProviderSetting (Body : Type) where
  badStatusCodes : List UInt16
  relay : Body → Body
  id : Text
  created : UInt64

def ProviderKind.chat [SerdeJson] {Body : Type} (setting : ProviderSetting Body)
    (req : ChatCompletionRequest) (exchange : Exchange Body) :
    ProviderKind → Except AppError (ProviderResponse Body)
  | .openAi => OpenAiProvider.chat setting.badStatusCodes req exchange
  | .anthropic =>
    AnthropicProvider.chat setting.badStatusCodes setting.relay setting.created req exchange
  | .gemini =>
    GeminiProvider.chat setting.badStatusCodes setting.relay setting.id setting.created req
      exchange

variable {badKeyHint : Bool} {code : UInt16} {msg : String}

namespace RetryLoop

variable [Sha256] {Response : Type} {ctx : RetryContext} {attempts : ℕ}
  {input : AttemptInput Response} {shared : Shared} {drawn entry : KeyEntry}

theorem runAttempt_of_asked (hasked : Asked ctx input shared drawn entry true) :
    runAttempt ctx attempts input shared =
      onChat ctx attempts input entry (asked ctx input shared entry) := by
  unfold runAttempt
  rw [hasked.pick]
  dsimp only
  rw [hasked.fresh]
  dsimp only
  rw [hasked.answer]
  rfl

theorem exit_eq_none_of_retryable (hasked : Asked ctx input shared drawn entry true)
    {status : Option UInt16} (hchat : input.chat = .error (.upstream status true badKeyHint msg))
    (hcount : CountsAnother ctx input (failed ctx input shared entry))
    (hleft : attempts ≤ ctx.failover.maxRetries) :
    (runAttempt ctx attempts input shared).exit = none := by
  have hretry :
      (retryOrReturn ctx attempts status true msg : Option (LoopExit Response)) = none := by
    rw [retryOrReturn, exitIfSpent, if_neg (by decide), if_neg (not_lt.mpr hleft)]
  rw [runAttempt_of_asked hasked, onChat, hchat]
  dsimp only
  unfold onUpstreamError
  cases hblame : blamesKey ctx status badKeyHint with
  | false =>
    exact hretry
  | true =>
    have hfailed : { input.meddle .record (asked ctx input shared entry) with
        breaker := ((input.meddle .record (asked ctx input shared entry)).breaker.recordFailure
          (ctx.poolId, entry.identityHash) input.failedAt).2 } =
        failed ctx input shared entry := rfl
    simp only [hfailed, tryDemote_of_countsAnother ctx input entry hcount]
    exact hretry

/-- With another healthy key and an attempt left, the loop goes on. -/
def LeadsToAnother (chat : Except AppError Response) : Prop :=
  ∀ (ctx : RetryContext) (attempts : ℕ) (input : AttemptInput Response) (shared : Shared)
    (drawn entry : KeyEntry), input.chat = chat → Asked ctx input shared drawn entry true →
    CountsAnother ctx input (failed ctx input shared entry) →
    attempts ≤ ctx.failover.maxRetries → (runAttempt ctx attempts input shared).exit = none

theorem leadsToAnother_iff {status : Option UInt16} {retryable : Bool} :
    LeadsToAnother (.error (.upstream status retryable badKeyHint msg) : Except AppError Response) ↔
      retryable = true := by
  constructor
  · intro hleads
    let ctx : RetryContext := { poolId := "p", pool := twoKeyPool, failover := ⟨1, []⟩ }
    let input : AttemptInput Response :=
      { chosen := 0, refresh := .unchanged, allowAt := 0, failedAt := 0,
        chat := .error (.upstream status retryable badKeyHint msg) }
    have hasked : Asked ctx input ⟨.new, .new .defaults⟩ (twoKeyPool.keys.head (by decide))
      (twoKeyPool.keys.head (by decide)) true := ⟨rfl, rfl, rfl⟩
    have hexit := hleads ctx 1 input _ _ _ rfl hasked Nat.one_lt_two le_rfl
    have hblame : blamesKey ctx status badKeyHint = false := by
      cases status <;> simp [blamesKey, ctx]
    rw [runAttempt_of_asked hasked, onChat] at hexit
    dsimp only [input] at hexit
    rw [onUpstreamError, hblame, if_neg Bool.false_ne_true] at hexit
    cases retryable with
    | true => rfl
    | false => cases hexit
  · rintro rfl ctx attempts input shared drawn entry hinput hasked hcount hleft
    exact exit_eq_none_of_retryable hasked hinput hcount hleft

end RetryLoop

/-! ## The table -/

structure FollowsTable (badStatusCodes : List UInt16) (code : UInt16)
    (retryable badKeyHint : Bool) : Prop where
  serverError : 500 ≤ code → code < 600 → retryable = true ∧ badKeyHint = false
  listed : 400 ≤ code → code < 500 → code ∈ badStatusCodes → retryable = true ∧ badKeyHint = true
  unlisted : 400 ≤ code → code < 500 → code ∉ badStatusCodes →
    retryable = false ∧ badKeyHint = false

theorem followsTable_classified (badStatusCodes : List UInt16) {server : Bool}
    (hserver : code < 600 → (server = true ↔ 500 ≤ code)) :
    FollowsTable badStatusCodes code (server || badStatusCodes.contains code)
      (!server && badStatusCodes.contains code) := by
  constructor
  · intro hlow hhigh
    rw [(hserver hhigh).mpr hlow]
    simp
  · intro _ hhigh hlisted
    have hclient : server = false := by
      rw [Bool.eq_false_iff, ne_eq, hserver (UInt16.lt_trans hhigh (by decide))]
      exact UInt16.not_le.mpr hhigh
    rw [hclient, List.contains_iff_mem.mpr hlisted]
    simp
  · intro _ hhigh hlisted
    have hclient : server = false := by
      rw [Bool.eq_false_iff, ne_eq, hserver (UInt16.lt_trans hhigh (by decide))]
      exact UInt16.not_le.mpr hhigh
    have hnone : badStatusCodes.contains code = false := by
      rw [Bool.eq_false_iff, ne_eq, List.contains_iff_mem]
      exact hlisted
    rw [hclient, hnone]
    simp

theorem followsTable_streamed_iff (badStatusCodes : List UInt16) (code : UInt16) :
    FollowsTable badStatusCodes code (500 ≤ code) (badStatusCodes.contains code) ↔
      ¬ (code ∈ badStatusCodes ∧ 400 ≤ code ∧ code < 600) := by
  constructor
  · rintro ⟨hserver, hclient, -⟩ ⟨hlisted, hlow, hhigh⟩
    by_cases hcode : 500 ≤ code
    · have hhint := (hserver hcode hhigh).2
      rw [List.contains_iff_mem.mpr hlisted] at hhint
      cases hhint
    · have hretry := (hclient hlow (UInt16.not_le.mp hcode) hlisted).1
      exact hcode (of_decide_eq_true hretry)
  · intro hunlisted
    constructor
    · intro hlow hhigh
      refine ⟨decide_eq_true hlow, ?_⟩
      rw [Bool.eq_false_iff, ne_eq, List.contains_iff_mem]
      exact fun hlisted => hunlisted ⟨hlisted, UInt16.le_trans (by decide) hlow, hhigh⟩
    · intro hlow hhigh hlisted
      exact absurd ⟨hlisted, hlow, UInt16.lt_trans hhigh (by decide)⟩ hunlisted
    · intro _ hhigh hlisted
      refine ⟨decide_eq_false (UInt16.not_le.mpr hhigh), ?_⟩
      rw [Bool.eq_false_iff, ne_eq, List.contains_iff_mem]
      exact hlisted

section

variable [SerdeJson] {Body : Type} (setting : ProviderSetting Body) {req : ChatCompletionRequest}
  {exchange : Exchange Body} {response : HttpResponse Body}

theorem classified_eq (server : Bool) (badStatusCodes : List UInt16)
    (response : HttpResponse Body) :
    classified server badStatusCodes response =
      statusError (server || badStatusCodes.contains response.status.code)
        (!server && badStatusCodes.contains response.status.code) response := by
  unfold classified
  cases server with
  | true => rfl
  | false =>
    cases hlisted : badStatusCodes.contains response.status.code with
    | true => simp
    | false => simp

section

variable (hanswer : exchange.answer = .ok response) (hrefused : response.status.isSuccess = false)

include hanswer hrefused in
theorem chat_refused_classified (kind : ProviderKind) (hbody : req.encode.isSome = true)
    (hplain : kind = .openAi ∨ req.stream.getD false = false) :
    ∃ server : Bool, (response.status.code < 600 → (server = true ↔ 500 ≤ response.status.code)) ∧
      kind.chat setting req exchange =
        .error (classified server setting.badStatusCodes response) := by
  obtain ⟨written, hwritten⟩ := Option.isSome_iff_exists.mp hbody
  have hfail : ¬ response.status.isSuccess = true := by
    rw [hrefused]
    exact Bool.false_ne_true
  have hrange : response.status.code < 600 →
      (response.status.isServerError = true ↔ 500 ≤ response.status.code) := by
    intro hhigh
    rw [StatusCode.isServerError, decide_eq_true_iff]
    exact ⟨fun hboth => hboth.1, fun hlow => ⟨hlow, hhigh⟩⟩
  have hle : response.status.code < 600 →
      (decide (500 ≤ response.status.code) = true ↔ 500 ≤ response.status.code) :=
    fun _ => decide_eq_true_iff
  cases kind with
  | openAi =>
    refine ⟨response.status.isServerError, hrange, ?_⟩
    rw [ProviderKind.chat, OpenAiProvider.chat, hwritten]
    dsimp only
    rw [hanswer]
    dsimp only
    rw [OpenAiProvider.onResponse, if_neg hfail, OpenAiProvider.failure]
  | anthropic =>
    refine ⟨decide (500 ≤ response.status.code), hle, ?_⟩
    have hwhole := hplain.resolve_left (by decide)
    rw [ProviderKind.chat, AnthropicProvider.chat, hwhole, if_neg Bool.false_ne_true, wholeChat,
      hanswer]
    dsimp only
    rw [if_neg hfail, wholeFailure]
  | gemini =>
    refine ⟨decide (500 ≤ response.status.code), hle, ?_⟩
    have hwhole := hplain.resolve_left (by decide)
    rw [ProviderKind.chat, GeminiProvider.chat, hwhole, if_neg Bool.false_ne_true, wholeChat,
      hanswer]
    dsimp only
    rw [if_neg hfail, wholeFailure]

include hanswer hrefused in
theorem chat_refused_streamed {kind : ProviderKind} (hkind : kind ≠ .openAi)
    (hstream : req.stream.getD false = true) :
    kind.chat setting req exchange = .error (streamFailure setting.badStatusCodes response) := by
  have hfail : ¬ response.status.isSuccess = true := by
    rw [hrefused]
    exact Bool.false_ne_true
  cases kind with
  | openAi => exact absurd rfl hkind
  | anthropic =>
    rw [ProviderKind.chat, AnthropicProvider.chat, if_pos hstream, streamedChat, hanswer]
    dsimp only
    rw [if_neg hfail]
  | gemini =>
    rw [ProviderKind.chat, GeminiProvider.chat, if_pos hstream, streamedChat, hanswer]
    dsimp only
    rw [if_neg hfail]

end

/-- Every refused answer gives the signals of the table, and after a listed one another
attempt follows. -/
def ErrorsFollowTable [Sha256] (kind : ProviderKind) (req : ChatCompletionRequest) : Prop :=
  ∀ (exchange : Exchange Body) (response : HttpResponse Body),
    exchange.answer = .ok response → response.status.isSuccess = false →
    ∃ retryable badKeyHint msg,
      kind.chat setting req exchange =
        .error (.upstream (some response.status.code) retryable badKeyHint msg) ∧
      FollowsTable setting.badStatusCodes response.status.code retryable badKeyHint ∧
      (response.status.code ∈ setting.badStatusCodes →
        RetryLoop.LeadsToAnother (kind.chat setting req exchange))

/-- The table is followed by the OpenAI provider and by whole answers, and on the
other streaming paths exactly if every status up to 599 in the list is a success. -/
theorem errorsFollowTable_iff [Sha256] [Inhabited Body] (kind : ProviderKind)
    (req : ChatCompletionRequest) (hbody : req.encode.isSome = true) :
    ErrorsFollowTable setting kind req ↔
      kind = .openAi ∨ req.stream.getD false = false ∨
        ∀ code ∈ setting.badStatusCodes, 100 ≤ code → code < 600 → 200 ≤ code ∧ code < 300 := by
  constructor
  · intro hfollows
    by_contra hnone
    simp only [not_or, not_forall] at hnone
    obtain ⟨hkind, hstream, code, hlisted, hlow, hhigh, hfailed⟩ := hnone
    have hlowNat : 100 ≤ code.toNat := UInt16.le_iff_toNat_le.mp hlow
    have hhighNat : code.toNat < 600 := UInt16.lt_iff_toNat_lt.mp hhigh
    let response : HttpResponse Body :=
      { status := ⟨code, by omega, by omega⟩, contentType := none, text := [], stream := default }
    have hrefused : response.status.isSuccess = false := decide_eq_false hfailed
    obtain ⟨retryable, badKeyHint, msg, hchat, htable, hanother⟩ :=
      hfollows ⟨.ok response, ""⟩ response rfl hrefused
    have hleads := hanother hlisted
    rw [hchat, RetryLoop.leadsToAnother_iff] at hleads
    rw [chat_refused_streamed setting rfl hrefused hkind (by simpa using hstream)] at hchat
    cases hchat
    have hserver : 500 ≤ code := of_decide_eq_true hleads
    exact (followsTable_streamed_iff _ _).mp htable
      ⟨hlisted, UInt16.le_trans (by decide) hserver, hhigh⟩
  · intro hcase exchange response hanswer hrefused
    rw [← or_assoc] at hcase
    by_cases hplain : kind = .openAi ∨ req.stream.getD false = false
    · obtain ⟨server, hserver, hchat⟩ :=
        chat_refused_classified setting hanswer hrefused kind hbody hplain
      rw [classified_eq] at hchat
      refine ⟨_, _, _, hchat, followsTable_classified setting.badStatusCodes hserver, ?_⟩
      intro hlisted
      rw [hchat, statusError, RetryLoop.leadsToAnother_iff, List.contains_iff_mem.mpr hlisted,
        Bool.or_true]
    · have hsuccess := hcase.resolve_left hplain
      rw [not_or] at hplain
      have hbeyond : response.status.code ∈ setting.badStatusCodes →
          600 ≤ response.status.code := by
        intro hlisted
        by_contra hbelow
        exact absurd (decide_eq_true (hsuccess _ hlisted
          (UInt16.le_iff_toNat_le.mpr response.status.valid.1) (UInt16.not_le.mp hbelow)))
          (Bool.eq_false_iff.mp hrefused)
      refine ⟨_, _, _, chat_refused_streamed setting hanswer hrefused hplain.1
        (by simpa using hplain.2), ?_, ?_⟩
      · rw [followsTable_streamed_iff]
        rintro ⟨hlisted, -, hhigh⟩
        exact UInt16.not_le.mpr hhigh (hbeyond hlisted)
      · intro hlisted
        rw [chat_refused_streamed setting hanswer hrefused hplain.1 (by simpa using hplain.2),
          streamFailure, statusError, RetryLoop.leadsToAnother_iff]
        exact decide_eq_true (UInt16.le_trans (by decide) (hbeyond hlisted))

end

section

attribute [local instance] jsonText

def rateListed : ProviderSetting Unit where
  badStatusCodes := [429]
  relay := id
  id := []
  created := 0

def streamedRequest : ChatCompletionRequest where
  model := "m"
  messages := []
  stream := some true
  extra := .obj []

theorem openAi_errorsFollowTable :
    letI := zeroSha256
    ErrorsFollowTable rateListed .openAi streamedRequest := by
  let := zeroSha256
  exact (errorsFollowTable_iff rateListed .openAi streamedRequest rfl).mpr (.inl rfl)

def tooMany : Exchange Unit where
  answer := .ok
    { status := ⟨429, by decide⟩
      contentType := none
      text := []
      stream := () }
  jsonError := ""

def firstAttempt (kind : ProviderKind) : RetryLoop.AttemptInput (ProviderResponse Unit) where
  chosen := 0
  refresh := .unchanged
  allowAt := 0
  chat := kind.chat rateListed streamedRequest tooMany
  failedAt := 0

def firstExit [Sha256] (kind : ProviderKind) :
    Option (RetryLoop.LoopExit (ProviderResponse Unit)) :=
  (RetryLoop.runAttempt
    { poolId := "p"
      pool := twoKeyPool
      failover := { maxRetries := 1, badStatusCodes := [429] } } 1
    (firstAttempt kind) ⟨.new, .new .defaults⟩).exit

/-- In a stream of Anthropic, a listed client error is returned, with a healthy key
and an attempt left; with OpenAI it is retried. -/
theorem streamed_rate_limit_returned :
    letI := zeroSha256
    AnthropicProvider.chat [429] id 0 streamedRequest tooMany =
        .error (.upstream (some 429) false true "upstream 429") ∧
      firstExit .anthropic = some (.notRetryable (some 429) "upstream 429") ∧
      firstExit .openAi = none := by
  exact ⟨rfl, rfl, rfl⟩

end

end LlmProxy
