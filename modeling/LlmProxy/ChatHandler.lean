import LlmProxy.AnswerForwarding
import LlmProxy.CacheHits

/-!
# The chat handler

`chat_completions_handler` from the arrival of a request to its answer, with the task that
`build_stream_response` leaves behind for a streamed one.
-/

namespace LlmProxy

open Json Utf8Bytes
open RetryLoop (AttemptEvent AttemptInput FailoverPolicy LoopExit LoopPoint LoopState RetryContext
  Shared retryLoop)

/-! ## The row of a request -/

structure AuditFromRouter where
  retryCount : ℤ := 0
  ttftMs : Option ℤ := none

structure AuditFromAuth where
  tenantId : String := "default"

structure AuditDetail where
  fromProvider : AuditFromProvider
  fromRouter : AuditFromRouter
  fromAuth : AuditFromAuth

def CacheReport.none : CacheReport := ⟨Option.none, Option.none, .none⟩

def AuditFromProvider.default : AuditFromProvider :=
  ⟨CacheReport.none, none, none, none, none, none⟩

def AuditDetail.none : AuditDetail := ⟨.default, {}, {}⟩

structure RequestLog (Cost : Type) where
  id : String
  ts : ℤ
  clientIp : Option Text
  model : String
  poolId : String
  keyHash : String
  upstream : Option String
  statusCode : Option ℤ
  latencyMs : Option ℤ
  promptTokens : Option ℤ
  completionTokens : Option ℤ
  totalTokens : Option ℤ
  isStream : Bool
  error : Option String
  audit : AuditDetail
  errorCode : Option String
  userAgent : Option Text
  costUsd : Option Cost

structure AccountingPricing (Cost : Type) where
  costUsd : String → Option String → ℤ → ℤ → Option Cost

/-- There is no cost without usage. -/
def computeCost {Cost : Type} (pricing : AccountingPricing Cost) (model tenant : String)
    (usage : Option Usage) : Option Cost :=
  usage.bind fun u =>
    pricing.costUsd model (some tenant) u.promptTokens.toNat u.completionTokens.toNat

/-- The cached tokens as OpenAI reports them, or else as DeepSeek does. -/
def extractCacheFromUsage (raw : Value) : CacheReport :=
  match (pointer "prompt_tokens_details" "cached_tokens" raw).bind Value.asI64 with
  | some cached => ⟨some cached, none, .openAiPromptCache⟩
  | none =>
    match (raw.get "prompt_cache_hit_tokens").bind Value.asI64 with
    | some cached => ⟨some cached, none, .deepSeekPromptCache⟩
    | none => CacheReport.none

def ProviderKind.usageAudit (raw : Value) : ProviderKind → AuditFromProvider
  | .openAi =>
    { AuditFromProvider.default with
      cache := extractCacheFromUsage raw
      reasoningTokens :=
        (pointer "completion_tokens_details" "reasoning_tokens" raw).bind Value.asI64
      audioTokens := (pointer "completion_tokens_details" "audio_tokens" raw).bind Value.asI64 }
  | .anthropic =>
    let hit := (raw.get "cache_read_input_tokens").bind Value.asI64
    let creation := (raw.get "cache_creation_input_tokens").bind Value.asI64
    if hit.isSome || creation.isSome then
      { AuditFromProvider.default with cache := ⟨hit, creation, .anthropicCacheControl⟩ }
    else .default
  | .gemini =>
    match (raw.get "cachedContentTokenCount").bind Value.asI64 with
    | some cached =>
      { AuditFromProvider.default with cache := ⟨some cached, none, .geminiCachedContent⟩ }
    | none => .default

/-- `extract_audit` for an answer that is not streamed. -/
def ProviderKind.extractAudit (kind : ProviderKind) (resp : ChatCompletionResponse) :
    AuditFromProvider :=
  { (resp.rawUsageJson.elim .default fun raw => kind.usageAudit raw : AuditFromProvider) with
    upstreamModel := some resp.model
    finishReason := resp.choices.head?.bind Choice.finishReason }

/-- In milliseconds, rounded down. -/
def StreamInspector.ttftMs (s : StreamInspector) : Option ℤ :=
  s.firstChunkAt.map fun at_ => ((at_ - s.startAt) / 10 ^ 6 : ℕ)

/-! ## One call -/

abbrev ResponseCache := PromptCache String ChatCompletionResponse

structure Provider where
  kind : ProviderKind
  baseUrl : String

structure RuntimePolicy where
  failover : FailoverPolicy
  cacheMaxEntries : ℕ

structure AttemptSetting where
  chosen : UInt32
  refresh : RefreshAnswer
  allowAt : ℕ
  failedAt : ℕ
  exchange : Exchange (List Poll)
  provider : ProviderSetting (List Poll)
  meddle : LoopPoint → Shared → Shared := fun _ shared => shared

/-- The clocks a call reads: instants in nanoseconds, times of day in milliseconds. -/
structure CallTimes where
  startedAt : ℕ
  lookupAt : ℕ
  hitTs : ℤ
  answeredTs : ℤ
  elapsedMs : ℕ
  storedAt : ℕ
  receivedAt : ℕ → ℕ
  endedAt : ℕ

/-- A request with all that comes from outside while it is handled: whether it got a permit, the
copy of the cache it works on, the router it sees, the answers of the upstream and the clocks. -/
structure ChatCall (Cost : Type) where
  requestId : String
  tenantId : String
  headers : String → Option Bytes
  req : ChatCompletionRequest
  permit : Bool
  cache : ResponseCache
  router : Router Provider
  registry : List ModelRegistryEntry
  policy : RuntimePolicy
  stripThinkTags : Bool
  pricing : AccountingPricing Cost
  shared : Shared
  attempts : ℕ → AttemptSetting
  /-- The order in which the cache is scanned for its oldest entry. -/
  scan : List String
  /-- How many items of a stream the client reads. -/
  itemsRead : ℕ
  times : CallTimes

inductive Effect (Cost : Type)
  | incTotalRequests
  | incFailed
  | incStream
  | incCacheHit
  | incKeyDemotion
  | addPromptTokens (n : ℕ)
  | addCompletionTokens (n : ℕ)
  | recordLatencyMs (ms : ℕ)
  | logRequest (row : RequestLog Cost)

inductive Reply
  | cached (response : ChatCompletionResponse)
  | whole (response : ChatCompletionResponse)
  | streamed (items : List Bytes)

/-- What the handler leaves behind; the counters it raises and the rows it logs are in their order.
-/
structure Handled (Cost : Type) where
  answer : Except AppError Reply
  effects : List (Effect Cost)
  cache : ResponseCache
  /-- The attempts of the retry loop. -/
  attempts : List (AttemptEvent (ProviderResponse (List Poll)))

/-- A header value as text: visible ASCII only. -/
def headerText (bytes : Bytes) : Option Text :=
  if bytes.all fun b => (32 ≤ b && b < 127) || b == 9 then fromBytes bytes else none

def clientIpOf (headers : String → Option Bytes) : Option Text :=
  (((headers "x-real-ip").or (headers "x-forwarded-for")).bind headerText).map fun s =>
    trim (s.takeWhile (· ≠ ','))

def userAgentOf (headers : String → Option Bytes) : Option Text :=
  (headers "user-agent").bind headerText

namespace ChatCall

variable {Cost : Type} (call : ChatCall Cost)

def isStreaming : Bool := call.req.stream.getD false

def cacheable : Bool :=
  !call.isStreaming && (call.req.temperature.getD (.of 0 0)).number.less (.float 1 (-2))

def concurrencyRejected : AppError :=
  .upstream (some 429) true false "tenant concurrency limit reached"

def admittedEffects : List (Effect Cost) :=
  .incTotalRequests :: if call.isStreaming then [.incStream] else []

def cacheHitRow (cached : ChatCompletionResponse) : RequestLog Cost where
  id := call.requestId
  ts := call.times.hitTs
  clientIp := clientIpOf call.headers
  model := call.req.model
  poolId := "cache"
  keyHash := "cache-hit"
  upstream := none
  statusCode := some 200
  latencyMs := some 0
  promptTokens := cached.usage.map fun u => u.promptTokens.toNat
  completionTokens := cached.usage.map fun u => u.completionTokens.toNat
  totalTokens := cached.usage.map fun u => u.totalTokens.toNat
  isStream := false
  error := none
  audit := AuditDetail.none
  errorCode := none
  userAgent := userAgentOf call.headers
  costUsd := computeCost call.pricing call.req.model call.tenantId cached.usage

structure Success where
  provider : Provider
  route : RouteEntry
  sent : ChatCompletionRequest
  retries : ℕ
  keyHash : String

def asI32 (n : ℕ) : ℤ := (Int32.ofNat n).toInt

variable (won : Success)

def upstreamRow (latencyMs : ℤ) (usage : Usage) (isStream : Bool) (fromProvider : AuditFromProvider)
    (ttftMs : Option ℤ) (cost : Option Cost) : RequestLog Cost where
  id := call.requestId
  ts := call.times.answeredTs
  clientIp := clientIpOf call.headers
  model := won.sent.model
  poolId := won.route.poolId
  keyHash := won.keyHash
  upstream := some won.provider.baseUrl
  statusCode := some 200
  latencyMs := some latencyMs
  promptTokens := some usage.promptTokens.toNat
  completionTokens := some usage.completionTokens.toNat
  totalTokens := some usage.totalTokens.toNat
  isStream := isStream
  error := none
  audit := ⟨fromProvider, ⟨asI32 won.retries, ttftMs⟩, ⟨call.tenantId⟩⟩
  errorCode := none
  userAgent := userAgentOf call.headers
  costUsd := cost

variable (resp : ChatCompletionResponse)

def onceRow : RequestLog Cost :=
  let forwarded := wholeAnswer call.stripThinkTags resp
  call.upstreamRow won call.times.elapsedMs (forwarded.usage.getD {}) false
    (won.provider.kind.extractAudit resp) none
    (computeCost call.pricing won.sent.model call.tenantId forwarded.usage)

def onceEffects : List (Effect Cost) :=
  let usage := (wholeAnswer call.stripThinkTags resp).usage.getD {}
  [.recordLatencyMs call.times.elapsedMs, .addPromptTokens usage.promptTokens.toNat,
    .addCompletionTokens usage.completionTokens.toNat, .logRequest (call.onceRow won resp)]

section

variable [SerdeJson]

/-- What is sent until the client stops reading. -/
def streamItems (script : List Poll) : List Bytes :=
  let items := if call.stripThinkTags then (NormalizingStream.collect script).getD []
    else script.filterMap fun poll => match poll with | .item bytes => some bytes | _ => none
  items.take call.itemsRead

def inspected (script : List Poll) : StreamInspector :=
  .inspect call.times.startedAt
    ((call.streamItems script).zipIdx.map fun item => (call.times.receivedAt item.2, item.1))
    call.times.endedAt

def streamLatencyMs : ℕ := (call.times.endedAt - call.times.startedAt) / 10 ^ 6

/-- The task that is left behind logs the row when the body is gone. -/
def streamRow (won : Success) (script : List Poll) : RequestLog Cost :=
  let inspector := call.inspected script
  let usage := inspector.finalize.usage.getD {}
  call.upstreamRow won call.streamLatencyMs usage true inspector.intoAudit inspector.ttftMs
    (computeCost call.pricing won.sent.model call.tenantId (some usage))

def streamEffects (won : Success) (script : List Poll) : List (Effect Cost) :=
  [.recordLatencyMs call.streamLatencyMs, .logRequest (call.streamRow won script)]

variable [Sha256]

/-- A request that is not cacheable is not looked up. -/
def lookup : Option ChatCompletionResponse × ResponseCache :=
  if call.cacheable then call.cache.get shortDigest call.times.lookupAt call.req
  else (none, call.cache)

def rejected : Handled Cost where
  answer := .error concurrencyRejected
  effects := [.incTotalRequests, .incFailed]
  cache := call.cache
  attempts := []

def answeredFromCache (cached : ChatCompletionResponse) (cache : ResponseCache) : Handled Cost where
  answer := .ok (.cached cached)
  effects := call.admittedEffects ++ [.incCacheHit, .logRequest (call.cacheHitRow cached)]
  cache := cache
  attempts := []

/-- Routing or the reasoning level failed: nothing is counted or logged. -/
def refused (error : AppError) (cache : ResponseCache) : Handled Cost where
  answer := .error error
  effects := call.admittedEffects
  cache := cache
  attempts := []

/-! ### The loop -/

def retryContext (route : RouteEntry) : RetryContext :=
  ⟨route.poolId, route.pool, call.policy.failover⟩

def attemptInput (provider : Provider) (sent : ChatCompletionRequest) (n : ℕ) :
    AttemptInput (ProviderResponse (List Poll)) :=
  let setting := call.attempts n
  { chosen := setting.chosen
    refresh := setting.refresh
    allowAt := setting.allowAt
    chat := provider.kind.chat setting.provider sent setting.exchange
    failedAt := setting.failedAt
    meddle := setting.meddle }

variable (provider : Provider) (route : RouteEntry) (sent : ChatCompletionRequest)

theorem isSome_retryLoop :
    (retryLoop (call.retryContext route) (call.attemptInput provider sent)
      call.shared).isSome = true := by
  obtain ⟨exit, final, hloop⟩ : ∃ exit final, retryLoop (call.retryContext route)
      (call.attemptInput provider sent) call.shared = some (exit, final) :=
    RetryLoop.exists_retryLoop _ _ call.shared
  rw [hloop]
  rfl

def loopResult :
    LoopExit (ProviderResponse (List Poll)) × LoopState (ProviderResponse (List Poll)) :=
  (retryLoop (call.retryContext route) (call.attemptInput provider sent) call.shared).get
    (call.isSome_retryLoop provider route sent)

variable (final : LoopState (ProviderResponse (List Poll)))

def demotionEffects : List (Effect Cost) :=
  final.log.filterMap fun event =>
    match event with
    | .called _ (.error _) true => some .incKeyDemotion
    | _ => none

def wonBy : Success where
  provider := provider
  route := route
  sent := sent
  retries := final.retries.length
  keyHash := ((final.log.getLast?.bind AttemptEvent.usedKey).map KeyEntry.identityHash).getD ""

def stored (resp : ChatCompletionResponse) (cache : ResponseCache) : ResponseCache :=
  if 0 < call.policy.cacheMaxEntries then
    cache.put shortDigest call.times.storedAt call.scan sent
      (wholeAnswer call.stripThinkTags resp)
  else cache

def finalState : LoopState (ProviderResponse (List Poll)) :=
  (call.loopResult provider route sent).2

def loopAnswer : Except AppError (ProviderResponse (List Poll)) :=
  (call.loopResult provider route sent).1.toResult (call.retryContext route)

def loopEffects : List (Effect Cost) :=
  call.admittedEffects ++ demotionEffects (call.finalState provider route sent)

def success : Success :=
  wonBy provider route sent (call.finalState provider route sent)

def afterLoop (cache : ResponseCache) : Handled Cost :=
  let counted := call.loopEffects provider route sent
  let log := (call.finalState provider route sent).log
  match call.loopAnswer provider route sent with
  | .error error => ⟨.error error, counted, cache, log⟩
  | .ok (.once resp) =>
    { answer := .ok (.whole (wholeAnswer call.stripThinkTags resp))
      effects := counted ++ call.onceEffects (call.success provider route sent) resp
      cache := call.stored sent resp cache
      attempts := log }
  | .ok (.stream script) =>
    { answer := .ok (.streamed (call.streamItems script))
      effects := counted ++ call.streamEffects (call.success provider route sent) script
      cache := cache
      attempts := log }

/-- `chat_completions_handler`. -/
def handle : Handled Cost :=
  if !call.permit then call.rejected
  else
    let (hit, cache) := call.lookup
    match hit with
    | some cached => call.answeredFromCache cached cache
    | none =>
      match call.router.resolve call.req.model with
      | .error error => call.refused error cache
      | .ok (provider, route) =>
        match rewriteRequest call.registry route call.req with
        | .error error => call.refused error cache
        | .ok sent => call.afterLoop provider route sent cache

structure Sent : Prop where
  permit : call.permit = true
  miss : call.lookup.1 = none
  resolve : call.router.resolve call.req.model = .ok (provider, route)
  rewrite : rewriteRequest call.registry route call.req = .ok sent

inductive ChatPath : Handled Cost → Prop
  | rejected (hpermit : call.permit = false) : ChatPath call.rejected
  | cacheHit {cached : ChatCompletionResponse} (hpermit : call.permit = true)
      (hhit : call.lookup.1 = some cached) :
      ChatPath (call.answeredFromCache cached call.lookup.2)
  | unknownModel {error : AppError} (hpermit : call.permit = true)
      (hmiss : call.lookup.1 = none)
      (hresolve : call.router.resolve call.req.model = .error error) :
      ChatPath (call.refused error call.lookup.2)
  | refusedLevel {provider : Provider} {route : RouteEntry} {error : AppError}
      (hpermit : call.permit = true) (hmiss : call.lookup.1 = none)
      (hresolve : call.router.resolve call.req.model = .ok (provider, route))
      (hrewrite : rewriteRequest call.registry route call.req = .error error) :
      ChatPath (call.refused error call.lookup.2)
  | failed {provider : Provider} {route : RouteEntry} {sent : ChatCompletionRequest}
      {error : AppError} (hsent : call.Sent provider route sent)
      (hanswer : call.loopAnswer provider route sent = .error error) :
      ChatPath ⟨.error error, call.loopEffects provider route sent, call.lookup.2,
        (call.finalState provider route sent).log⟩
  | whole {provider : Provider} {route : RouteEntry} {sent : ChatCompletionRequest}
      {resp : ChatCompletionResponse} (hsent : call.Sent provider route sent)
      (hanswer : call.loopAnswer provider route sent = .ok (.once resp)) :
      ChatPath ⟨.ok (.whole (wholeAnswer call.stripThinkTags resp)),
        call.loopEffects provider route sent ++
          call.onceEffects (call.success provider route sent) resp,
        call.stored sent resp call.lookup.2, (call.finalState provider route sent).log⟩
  | streamed {provider : Provider} {route : RouteEntry} {sent : ChatCompletionRequest}
      {script : List Poll} (hsent : call.Sent provider route sent)
      (hanswer : call.loopAnswer provider route sent = .ok (.stream script)) :
      ChatPath ⟨.ok (.streamed (call.streamItems script)),
        call.loopEffects provider route sent ++
          call.streamEffects (call.success provider route sent) script,
        call.lookup.2, (call.finalState provider route sent).log⟩

variable {call provider route sent}

theorem afterLoop_path (hsent : call.Sent provider route sent) :
    call.ChatPath (call.afterLoop provider route sent call.lookup.2) := by
  unfold afterLoop
  cases hanswer : call.loopAnswer provider route sent with
  | error => exact .failed hsent hanswer
  | ok response =>
    cases response with
    | once => exact .whole hsent hanswer
    | stream => exact .streamed hsent hanswer

variable (call)

theorem handle_path : call.ChatPath call.handle := by
  unfold handle
  cases hpermit : call.permit with
  | false => exact .rejected hpermit
  | true =>
    simp only [Bool.not_true]
    cases hhit : call.lookup.1 with
    | some => exact .cacheHit hpermit hhit
    | none =>
      cases hresolve : call.router.resolve call.req.model with
      | error => exact .unknownModel hpermit hhit hresolve
      | ok target =>
        obtain ⟨provider, route⟩ := target
        dsimp only
        cases hrewrite : rewriteRequest call.registry route call.req with
        | error => exact .refusedLevel hpermit hhit hresolve hrewrite
        | ok => exact afterLoop_path ⟨hpermit, hhit, hresolve, hrewrite⟩

end

end ChatCall

end LlmProxy
