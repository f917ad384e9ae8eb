import LlmProxy.Pricing
import LlmProxy.RequestAccounting

/-!
# The price of a request on its three paths

An answer with status 200 is logged by the cache-hit path, by the non-streaming path or by the task
of the streaming path (`server/handler.rs`).
-/

namespace LlmProxy

open Json Utf8Bytes

variable {Cost : Type}

inductive AnswerPath
  | cacheHit
  | whole
  | streamed
  deriving DecidableEq, Repr

namespace ChatCall

section

variable [SerdeJson] [Sha256]

def inspectItems (call : ChatCall Cost) (items : List Bytes) : StreamInspector :=
  .inspect call.times.startedAt
    (items.zipIdx.map fun item => (call.times.receivedAt item.2, item.1)) call.times.endedAt

def answeredBy (call : ChatCall Cost) : Option (AnswerPath × Option Usage) :=
  match call.handle.answer with
  | .error _ => none
  | .ok (.cached response) => some (.cacheHit, response.usage)
  | .ok (.whole response) => some (.whole, response.usage)
  | .ok (.streamed items) => some (.streamed, (call.inspectItems items).finalize.usage)

/-- Each path prices the request by the variable it has at hand. -/
def pricedModel (model : String) (upstream : Option String) : AnswerPath → String
  | .cacheHit => model
  | .whole => upstream.getD model
  | .streamed => upstream.getD model

def pricedUsage (usage : Option Usage) : AnswerPath → Option Usage
  | .cacheHit => usage
  | .whole => usage
  | .streamed => some (usage.getD {})

structure Asks (call : ChatCall Cost) [Float64 Cost] (table : PricingConfig Cost)
    (model tenant : String) (upstream : Option String) : Prop where
  requested : call.req.model = model
  owner : call.tenantId = tenant
  prices : call.pricing = table.accounting
  routed : ∀ provider route, call.router.resolve call.req.model = .ok (provider, route) →
    route.upstreamModel = upstream

variable [Float64 Cost] {call : ChatCall Cost} {table : PricingConfig Cost}
  {model tenant : String} {upstream : Option String}

theorem Asks.model_of_sent (hasks : call.Asks table model tenant upstream) {provider : Provider}
    {route : RouteEntry} {sent : ChatCompletionRequest} (hsent : call.Sent provider route sent) :
    sent.model = upstream.getD model := by
  obtain ⟨_, -, hsame⟩ := extra_of_rewriteRequest hsent.rewrite
  rw [hsame, hasks.requested, hasks.routed provider route hsent.resolve]

theorem Asks.rows (hasks : call.Asks table model tenant upstream) {path : AnswerPath}
    {usage : Option Usage} (hanswered : call.answeredBy = some (path, usage)) :
    ∃ row, call.rows = [row] ∧ row.model = pricedModel model upstream path ∧
      row.costUsd = computeCost table.accounting (pricedModel model upstream path) tenant
        (pricedUsage usage path) := by
  have hpath := call.handle_path
  unfold answeredBy at hanswered
  unfold ChatCall.rows
  generalize call.handle = handled at hpath hanswered
  cases hpath with
  | cacheHit =>
    cases hanswered
    refine ⟨_, (call.tally_admitted.append ⟨rfl, rfl, rfl⟩).rows, hasks.requested, ?_⟩
    rw [← hasks.prices, ← hasks.owner]
    simp only [← hasks.requested]
    rfl
  | whole hsent =>
    cases hanswered
    refine ⟨_, ((call.tally_loop _ _ _).append ⟨rfl, rfl, rfl⟩).rows, hasks.model_of_sent hsent, ?_⟩
    rw [← hasks.prices, ← hasks.owner, pricedModel, ← hasks.model_of_sent hsent]
    rfl
  | streamed hsent =>
    cases hanswered
    refine ⟨_, ((call.tally_loop _ _ _).append ⟨rfl, rfl, rfl⟩).rows, hasks.model_of_sent hsent, ?_⟩
    rw [← hasks.prices, ← hasks.owner, pricedModel, ← hasks.model_of_sent hsent]
    rfl
  | _ => cases hanswered

omit [SerdeJson] [Sha256] in
theorem computeCost_eq_none_iff (table : PricingConfig Cost) (model tenant : String)
    (usage : Usage) :
    computeCost table.accounting model tenant (some usage) = none ↔
      (table.lookup model (some tenant)).isZero = true := by
  simp only [computeCost, Option.bind_some, PricingConfig.accounting, PricingConfig.costUsd]
  split_ifs with hzero
  · simp [hzero]
  · simp [hzero]

/-- For one model, tenant and usage the three paths log the model of the client and its price
exactly if the route sends the model under its own name and, where no usage is reported, the
model has no price. -/
theorem rows_price_client_model_iff (table : PricingConfig Cost) (model tenant : String)
    (upstream : Option String) (usage : Option Usage) (hit whole streamed : ChatCall Cost)
    (hasks : ∀ call ∈ [hit, whole, streamed], call.Asks table model tenant upstream)
    (hhit : hit.answeredBy = some (.cacheHit, usage))
    (hwhole : whole.answeredBy = some (.whole, usage))
    (hstreamed : streamed.answeredBy = some (.streamed, usage)) :
    (∀ call ∈ [hit, whole, streamed], ∃ row, call.rows = [row] ∧ row.model = model ∧
        row.costUsd = computeCost table.accounting model tenant usage) ↔
      upstream.getD model = model ∧
        (usage = none → (table.lookup model (some tenant)).isZero = true) := by
  obtain ⟨hitRow, hhitRows, hhitModel, hhitCost⟩ := (hasks hit (by simp)).rows hhit
  obtain ⟨wholeRow, hwholeRows, hwholeModel, hwholeCost⟩ := (hasks whole (by simp)).rows hwhole
  obtain ⟨streamRow, hstreamRows, hstreamModel, hstreamCost⟩ :=
    (hasks streamed (by simp)).rows hstreamed
  simp only [pricedModel] at hhitModel hwholeModel hstreamModel
  simp only [pricedModel, pricedUsage] at hhitCost hwholeCost hstreamCost
  simp only [List.forall_mem_cons, hhitRows, hwholeRows, hstreamRows, List.cons.injEq, and_true,
    exists_eq_left', hhitModel, hhitCost, hwholeModel, hwholeCost, hstreamModel, hstreamCost,
    true_and, List.not_mem_nil, false_imp_iff, implies_true]
  constructor
  · rintro ⟨⟨hname, -⟩, -, hcost⟩
    refine ⟨hname, ?_⟩
    rintro rfl
    rw [hname] at hcost
    exact (computeCost_eq_none_iff table model tenant _).mp hcost
  · rintro ⟨hname, hunpriced⟩
    rw [hname]
    refine ⟨⟨rfl, rfl⟩, rfl, ?_⟩
    cases usage with
    | some => rfl
    | none => exact (computeCost_eq_none_iff table model tenant _).mpr (hunpriced rfl)

end

section

attribute [local instance] jsonText zeroSha256

def millionTokens : Usage := ⟨1000000, 0, 1000000⟩

def millionUsage : Value :=
  .obj [("completion_tokens", .num (.int 0)), ("prompt_tokens", .num (.int 1000000)),
    ("total_tokens", .num (.int 1000000))]

def clientTable : PricingConfig ℚ := ⟨AList.singleton "m" ⟨⟨2, 0⟩, ∅⟩⟩

/-- The question of a tenant on a route with an upstream name, to an upstream that answers it
whole or streamed. -/
def pricedCall (upstream : Option String) (stream : Bool) (cache : ResponseCache) : ChatCall ℚ where
  requestId := "r1"
  tenantId := "acme"
  headers := fun _ => none
  req := { askRequest with stream := some stream }
  permit := true
  cache := cache
  router := ⟨AList.singleton "m" ⟨"p", twoKeyPool, none, upstream⟩,
    AList.singleton "p" ⟨.openAi, "u"⟩⟩
  registry := []
  policy := ⟨⟨0, []⟩, 256⟩
  stripThinkTags := false
  pricing := clientTable.accounting
  shared := ⟨.new, .new ⟨1, 0, 1⟩⟩
  attempts := fun _ =>
    { chosen := 0
      refresh := .unchanged
      allowAt := 0
      failedAt := 0
      exchange := ⟨.ok ⟨.ok, if stream then some "text/event-stream".toList else none,
        print (.obj [("choices", .arr []), ("id", .str "x".toList), ("usage", millionUsage)]),
        [.item (toBytes ("data: ".toList ++ print (.obj [("usage", millionUsage)]) ++ ['\n'])),
          .finished]⟩, ""⟩
      provider := ⟨[], id, [], 0⟩ }
  scan := []
  itemsRead := 1
  times := ⟨0, 0, 0, 0, 0, 0, fun _ => 0, 0⟩

def millionCache : ResponseCache :=
  (PromptCache.new 256).put shortDigest 0 [] { askRequest with stream := some false }
    { bareAnswer with usage := some millionTokens }

theorem asks_pricedCall (upstream : Option String) (stream : Bool) (cache : ResponseCache) :
    (pricedCall upstream stream cache).Asks clientTable "m" "acme" upstream where
  requested := rfl
  owner := rfl
  prices := rfl
  routed := by
    intro provider route hresolve
    cases hresolve
    rfl

theorem rows_price_plain_route :
    computeCost clientTable.accounting "m" "acme" (some millionTokens) = some 2 ∧
      ∀ call ∈ [pricedCall none false millionCache, pricedCall none false (.new 256),
          pricedCall none true (.new 256)], ∃ row, call.rows = [row] ∧ row.model = "m" ∧
        row.costUsd = computeCost clientTable.accounting "m" "acme" (some millionTokens) := by
  refine ⟨by decide +kernel, ?_⟩
  apply (rows_price_client_model_iff clientTable "m" "acme" none (some millionTokens) _ _ _ ?_ ?_
    ?_ ?_).mpr ⟨rfl, nofun⟩
  · simp only [List.forall_mem_cons]
    exact ⟨asks_pricedCall _ _ _, asks_pricedCall _ _ _, asks_pricedCall _ _ _, by simp⟩
  · decide +kernel
  · decide +kernel
  · decide +kernel

/-- With an upstream name only the cache hit is logged under the model of the client and with
its price. -/
theorem rows_price_upstream_name :
    (pricedCall (some "m-1") false millionCache).rows.map
        (fun row => (row.model, row.promptTokens, row.costUsd)) = [("m", some 1000000, some 2)] ∧
      (pricedCall (some "m-1") false (.new 256)).rows.map
        (fun row => (row.model, row.promptTokens, row.costUsd)) = [("m-1", some 1000000, none)] ∧
      (pricedCall (some "m-1") true (.new 256)).rows.map
        (fun row => (row.model, row.promptTokens, row.costUsd)) = [("m-1", some 1000000, none)] ∧
      ∀ stream cache, (pricedCall (some "m-1") stream cache).Asks clientTable "m" "acme"
        (some "m-1") :=
  ⟨by decide +kernel, by decide +kernel, by decide +kernel, fun _ _ => asks_pricedCall _ _ _⟩

end

end ChatCall

end LlmProxy
