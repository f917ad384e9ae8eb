import LlmProxy.RetryCircuit

/-!
# Requests one after another

Two mechanisms take keys out of use: the registry, which keeps the last healthy key of a pool, and
the breaker, which does not.  Over any sequence of requests they meet in one place only.
-/

namespace LlmProxy

open List

namespace CircuitEntry

def Unopened (policy : BreakerPolicy) (entry : CircuitEntry) : Prop :=
  entry.state = .closed ∨
    (entry.state = .halfOpen ∧ entry.successes < policy.halfOpenMax)

variable {policy : BreakerPolicy} {entry : CircuitEntry}

theorem Unopened.allow (hunopened : entry.Unopened policy) (now : ℕ) :
    entry.allow policy now = (true, entry) := by
  rcases hunopened with hclosed | ⟨hhalf, hroom⟩
  · simp [CircuitEntry.allow, hclosed]
  · simp [CircuitEntry.allow, hhalf, hroom]

theorem Unopened.recordSuccess (hunopened : entry.Unopened policy) :
    (entry.recordSuccess policy).Unopened policy := by
  rcases hunopened with hclosed | ⟨hhalf, hroom⟩
  · left
    simp [CircuitEntry.recordSuccess, hclosed]
  · simp only [CircuitEntry.recordSuccess, hhalf]
    split_ifs with hdone
    · exact .inl rfl
    · refine .inr ⟨rfl, ?_⟩
      dsimp only
      omega

end CircuitEntry

theorem Router.candidates_sublist_markBad [Sha256] (bad : BadKeyRegistry)
    (pool : PoolConfig) (poolId keyHash : String) :
    (candidates (bad.markBad poolId keyHash) pool poolId).Sublist (candidates bad pool poolId) := by
  rw [candidates_markBad]
  exact filter_sublist

theorem Router.WeightsFit.markBad [Sha256] {bad : BadKeyRegistry} {pool : PoolConfig}
    {poolId : String} (hfit : WeightsFit bad pool poolId) (keyHash : String) :
    WeightsFit (bad.markBad poolId keyHash) pool poolId := by
  have hsub := ((candidates_sublist_markBad bad pool poolId keyHash).map
    KeyEntry.weight).map UInt32.toNat
  exact lt_of_le_of_lt (hsub.sum_le_sum (by simp)) hfit

namespace RetryLoop

variable {Response : Type}

/-! ## The pool stays in service -/

structure InService [Sha256] (ctx : RetryContext) (shared : Shared) : Prop where
  fit : Router.WeightsFit shared.bad ctx.pool ctx.poolId
  healthy : 0 < Router.healthyKeyCount shared.bad ctx.pool ctx.poolId
  unopened : 1 < Router.healthyKeyCount shared.bad ctx.pool ctx.poolId →
    ∀ entry ∈ Router.candidates shared.bad ctx.pool ctx.poolId,
      (circuitOf ctx shared entry).Unopened shared.breaker.policy

structure AttemptInput.Plain (input : AttemptInput Response) : Prop where
  quiet : input.Quiet
  refreshes : ∀ error, input.refresh ≠ .failed error

section

variable [Sha256] {ctx : RetryContext} {attempts : ℕ} {input : AttemptInput Response}
  {shared : Shared} {result : AttemptResult Response}

theorem AttemptInput.Plain.not_refused (hplain : input.Plain) {drawn : KeyEntry}
    {error : AppError} : ¬ RefreshRefused ctx input shared drawn error := by
  intro hrefused
  have hfresh := hrefused.fresh
  unfold ensureFresh at hfresh
  split at hfresh
  · cases hfresh
  · cases hanswer : input.refresh with
    | failed reason => exact hplain.refreshes reason hanswer
    | _ =>
      rw [hanswer] at hfresh
      cases hfresh

theorem unopened_asked (hquiet : input.Quiet) (entry other : KeyEntry)
    (hunopened : (circuitOf ctx shared other).Unopened shared.breaker.policy) :
    (circuitOf ctx (asked ctx input shared entry) other).Unopened
      (asked ctx input shared entry).breaker.policy := by
  rw [circuitOf_asked hquiet, asked_policy hquiet]
  split_ifs with hhash
  · have hsame : circuitOf ctx shared entry = circuitOf ctx shared other := by
      unfold circuitOf
      rw [hhash]
    rw [hsame, hunopened.allow]
    exact hunopened
  · exact hunopened

theorem circuitOf_recordSuccess (before : Shared) (entry other : KeyEntry) :
    circuitOf ctx
        { before with
          breaker := before.breaker.recordSuccess (ctx.poolId, entry.identityHash) }
        other =
      if other.identityHash = entry.identityHash then
        (circuitOf ctx before entry).recordSuccess before.breaker.policy
      else circuitOf ctx before other := by
  unfold circuitOf
  rw [CircuitBreaker.recordSuccess, CircuitBreaker.entryOf_update]
  simp [Prod.ext_iff]

section

variable {after : Shared} (hservice : InService ctx shared)

include hservice

theorem InService.exists_pickKey (chosen : UInt32) :
    ∃ drawn, Router.pickKey shared.bad ctx.pool ctx.poolId chosen = some drawn :=
  Router.pickKey_isSome hservice.fit chosen (ne_nil_of_length_pos hservice.healthy)

theorem AttemptPath.denied_or_called (hpath : AttemptPath ctx attempts input shared result)
    (hplain : input.Plain) :
    (∃ entry, result.event = .denied entry ∧
        Router.healthyKeyCount shared.bad ctx.pool ctx.poolId = 1 ∧
        result.shared.bad = shared.bad ∧
        (result.exit = none ∨ result.exit = some .circuitOpen)) ∨
      (result.event.isCall = true ∧ result.exit ≠ some .poolExhausted) := by
  have hreturn : ∀ {status retryable msg},
      retryOrReturn ctx attempts status retryable msg ≠
        some (.poolExhausted : LoopExit Response) := by
    intro status retryable msg hreturn
    rcases retryOrReturn_eq_some hreturn with heq | heq
    · cases heq
    · cases heq
  cases hpath with
  | noKey hpick =>
    obtain ⟨drawn, hdrawn⟩ := hservice.exists_pickKey input.chosen
    rw [hplain.quiet.picking_eq, hdrawn] at hpick
    cases hpick
  | refreshReturned hrefused => exact absurd hrefused hplain.not_refused
  | refreshLastKey hrefused => exact absurd hrefused hplain.not_refused
  | refreshDemoted hrefused => exact absurd hrefused hplain.not_refused
  | @denied drawn entry hasked =>
    left
    refine ⟨entry, rfl, ?_, hplain.quiet.asked_bad shared entry, ?_⟩
    · by_contra hcount
      have hhealthy := hservice.healthy
      have hmem := hasked.mem_candidates
      rw [hplain.quiet.picking_eq] at hmem
      have hunopened := hservice.unopened (by omega) drawn hmem
      have hallows := CircuitEntry.allow_eq_true_iff.mp
        (congrArg Prod.fst (hunopened.allow input.allowAt))
      exact Bool.false_ne_true ((hasked.allows_iff hplain.quiet).mp hallows)
    · unfold exitIfSpent
      split_ifs
      · exact .inr rfl
      · exact .inl rfl
  | upstreamError => exact .inr ⟨rfl, hreturn⟩
  | upstreamDemoted => exact .inr ⟨rfl, hreturn⟩
  | _ => exact .inr ⟨rfl, by simp⟩

theorem InService.of_circuits (hbad : after.bad = shared.bad) (hcircuits : ∀ entry : KeyEntry,
      (circuitOf ctx shared entry).Unopened shared.breaker.policy →
      (circuitOf ctx after entry).Unopened after.breaker.policy) : InService ctx after := by
  constructor
  · rw [hbad]
    exact hservice.fit
  · rw [hbad]
    exact hservice.healthy
  · rw [hbad]
    intro hcount entry hentry
    exact hcircuits entry (hservice.unopened hcount entry hentry)

theorem InService.asked (hquiet : input.Quiet) (entry : KeyEntry) :
    InService ctx (asked ctx input shared entry) :=
  hservice.of_circuits (hquiet.asked_bad shared entry) (unopened_asked hquiet entry)

theorem InService.recordSuccess (entry : KeyEntry) :
    InService ctx
      { shared with
        breaker := shared.breaker.recordSuccess (ctx.poolId, entry.identityHash) } := by
  apply hservice.of_circuits
  · rfl
  · intro other hunopened
    rw [circuitOf_recordSuccess]
    split_ifs with hhash
    · have hsame : circuitOf ctx shared entry = circuitOf ctx shared other := by
        unfold circuitOf
        rw [hhash]
      rw [hsame]
      exact hunopened.recordSuccess
    · exact hunopened

theorem InService.of_lone (hbad : after.bad = shared.bad)
    (hlone : ¬ 1 < Router.healthyKeyCount shared.bad ctx.pool ctx.poolId) :
    InService ctx after := by
  constructor
  · rw [hbad]
    exact hservice.fit
  · rw [hbad]
    exact hservice.healthy
  · rw [hbad]
    intro hcount
    exact absurd hcount hlone

theorem InService.demoted (hdistinct : Router.DistinctIdentities ctx.pool) (hquiet : input.Quiet)
    (entry : KeyEntry) (hcount : 1 < Router.healthyKeyCount shared.bad ctx.pool ctx.poolId) :
    InService ctx (demoted ctx input (failed ctx input shared entry) entry) := by
  rw [hquiet.demoted_eq]
  constructor
  · simp only [hquiet.failed_bad]
    exact hservice.fit.markBad _
  · simp only [hquiet.failed_bad]
    exact Router.healthyKeyCount_markBad_pos hdistinct hcount
  · intro _ other hother
    simp only [hquiet.failed_bad] at hother
    obtain ⟨hmem, hne⟩ := mem_candidates_markBad.mp hother
    have hcircuit : circuitOf ctx (failed ctx input shared entry) other =
        circuitOf ctx shared other := circuitOf_failed_ne hquiet hne
    have hpolicy : (failed ctx input shared entry).breaker.policy =
        shared.breaker.policy := failed_policy hquiet entry
    have hunopened := hservice.unopened hcount other hmem
    rw [← hcircuit, ← hpolicy] at hunopened
    exact hunopened

theorem AttemptPath.inService (hpath : AttemptPath ctx attempts input shared result)
    (hplain : input.Plain) (hdistinct : Router.DistinctIdentities ctx.pool) :
    InService ctx result.shared := by
  have hquiet := hplain.quiet
  have hfailed : ∀ entry, CountsAnother ctx input (failed ctx input shared entry) ↔
      1 < Router.healthyKeyCount shared.bad ctx.pool ctx.poolId := by
    intro entry
    unfold CountsAnother
    rw [hquiet, hquiet.failed_bad]
  cases hpath with
  | noKey =>
    rw [hquiet.picking_eq]
    exact hservice
  | refreshReturned hrefused => exact absurd hrefused hplain.not_refused
  | refreshLastKey hrefused => exact absurd hrefused hplain.not_refused
  | refreshDemoted hrefused => exact absurd hrefused hplain.not_refused
  | succeeded =>
    rw [hquiet]
    exact (hservice.asked hquiet _).recordSuccess _
  | upstreamLastKey hasked hchat hblame hlast =>
    rw [hfailed] at hlast
    rw [hquiet]
    exact hservice.of_lone (hquiet.failed_bad shared _) hlast
  | upstreamDemoted hasked hchat hblame hcount =>
    rw [hfailed] at hcount
    exact hservice.demoted hdistinct hquiet _ hcount
  | _ => exact hservice.asked hquiet _

end

end

section

variable [Sha256] {ctx : RetryContext} {inputs : ℕ → AttemptInput Response} {shared : Shared}
  {exit : LoopExit Response} {final : LoopState Response}

theorem retryLoop_inService (hdistinct : Router.DistinctIdentities ctx.pool)
    (hplain : ∀ i, (inputs i).Plain) (hservice : InService ctx shared)
    (hrun : retryLoop ctx inputs shared = some (exit, final)) : InService ctx final.shared :=
  retryLoop_keeps (I := fun state => InService ctx state.shared) hservice
    (fun state _ hstate hpath => hpath.inService hstate (hplain state.attempts) hdistinct)
    hrun

structure OnlyDenied (ctx : RetryContext) (shared : Shared)
    (state : LoopState Response) : Prop where
  denied : ∀ event ∈ state.log, ∃ entry, event = .denied entry
  bad : state.shared.bad = shared.bad
  lone : state.log ≠ [] → Router.healthyKeyCount shared.bad ctx.pool ctx.poolId = 1

def CalledOrDenied (ctx : RetryContext) (shared : Shared)
    (state : LoopState Response) : Prop :=
  (∃ event ∈ state.log, event.isCall = true) ∨ OnlyDenied ctx shared state

theorem CalledOrDenied.after {state : LoopState Response}
    {result : AttemptResult Response} {attempts : ℕ} {input : AttemptInput Response}
    (hinv : CalledOrDenied ctx shared state) (hservice : InService ctx state.shared)
    (hplain : input.Plain) (hpath : AttemptPath ctx attempts input state.shared result) :
    CalledOrDenied ctx shared (state.after result) := by
  rcases hinv with ⟨event, hevent, hcall⟩ | honly
  · exact .inl ⟨event, mem_append_left _ hevent, hcall⟩
  · rcases hpath.denied_or_called hservice hplain with
      ⟨entry, hevent, hcount, hbad, -⟩ | ⟨hcall, -⟩
    · right
      rw [honly.bad] at hcount hbad
      refine ⟨?_, hbad, fun _ => hcount⟩
      intro event hmem
      simp only [LoopState.after, mem_append, mem_singleton] at hmem
      rcases hmem with hold | rfl
      · exact honly.denied event hold
      · exact ⟨entry, hevent⟩
    · exact .inl ⟨result.event, by simp [LoopState.after], hcall⟩

/-- What a request does to a pool in service: it is never told that the pool
is exhausted, and without a call it was denied at the pool's last key. -/
def CallsOrLoneDenied (ctx : RetryContext) (shared : Shared) (exit : LoopExit Response)
    (final : LoopState Response) : Prop :=
  exit ≠ .poolExhausted ∧
    ((∃ event ∈ final.log, event.isCall = true) ∨
      (Router.healthyKeyCount shared.bad ctx.pool ctx.poolId = 1 ∧
        exit = .circuitOpen ∧ ∀ event ∈ final.log, ∃ entry, event = .denied entry))

theorem retryLoop_callsOrLoneDenied (hdistinct : Router.DistinctIdentities ctx.pool)
    (hplain : ∀ i, (inputs i).Plain) (hservice : InService ctx shared)
    (hrun : retryLoop ctx inputs shared = some (exit, final)) :
    CallsOrLoneDenied ctx shared exit final := by
  refine retryLoop_rule
    (I := fun state => InService ctx state.shared ∧ CalledOrDenied ctx shared state)
    ⟨hservice, .inr ⟨by simp [LoopState.start], rfl, fun h => absurd rfl h⟩⟩ ?_ ?_ hrun
  · intro state result hstate hpath _
    exact ⟨hpath.inService hstate.1 (hplain _) hdistinct, hstate.2.after hstate.1 (hplain _) hpath⟩
  · intro state result exit hstate hpath hexit
    have hafter := hstate.2.after hstate.1 (hplain _) hpath
    rcases hpath.denied_or_called hstate.1 (hplain _) with
      ⟨entry, hevent, hcount, -, hend⟩ | ⟨hcall, hend⟩
    · have hopen : exit = .circuitOpen := by
        rw [hexit] at hend
        simpa using hend
      refine ⟨by simp [hopen], ?_⟩
      rcases hafter with hcall | honly
      · exact .inl hcall
      · exact .inr ⟨honly.lone (by simp [LoopState.after]), hopen, honly.denied⟩
    · refine ⟨?_, .inl ⟨result.event, by simp [LoopState.after], hcall⟩⟩
      intro hexhausted
      rw [hexit, hexhausted] at hend
      exact hend rfl

end

/-! ## A sequence of requests -/

structure Request (Response : Type) where
  failover : FailoverPolicy
  inputs : ℕ → AttemptInput Response

structure Served (Response : Type) where
  request : Request Response
  before : Shared
  exit : LoopExit Response
  final : LoopState Response

section

variable [Sha256] (poolId : String) (pool : PoolConfig)

def Request.context (request : Request Response) : RetryContext where
  poolId := poolId
  pool := pool
  failover := request.failover

def serve : Shared → List (Request Response) → Option (List (Served Response))
  | _, [] => some []
  | shared, request :: rest => do
      let (exit, final) ← retryLoop (request.context poolId pool) request.inputs shared
      let served ← serve final.shared rest
      return ⟨request, shared, exit, final⟩ :: served

variable {poolId pool} {shared : Shared}

theorem InService.serve {failover : FailoverPolicy}
    (hdistinct : Router.DistinctIdentities pool)
    (hservice : InService ⟨poolId, pool, failover⟩ shared) (requests : List (Request Response))
    (hplain : ∀ request ∈ requests, ∀ i, (request.inputs i).Plain) :
    ∃ served, serve poolId pool shared requests = some served ∧
      served.map Served.request = requests ∧
      ∀ one ∈ served,
        CallsOrLoneDenied (one.request.context poolId pool) one.before one.exit one.final := by
  induction requests generalizing shared failover with
  | nil => exact ⟨[], rfl, rfl, by simp⟩
  | cons request rest ih =>
    have hready : InService (request.context poolId pool) shared :=
      ⟨hservice.fit, hservice.healthy, hservice.unopened⟩
    have hinputs := hplain request mem_cons_self
    obtain ⟨exit, final, hrun⟩ :=
      exists_retryLoop (request.context poolId pool) request.inputs shared
    have hnext := retryLoop_inService hdistinct hinputs hready hrun
    obtain ⟨served, hserved, hsame, hall⟩ := ih hnext
      (fun later hlater => hplain later (mem_cons_of_mem _ hlater))
    refine ⟨⟨request, shared, exit, final⟩ :: served, ?_, by simp [hsame], ?_⟩
    · simp [RetryLoop.serve, hrun, hserved]
    intro one hone
    rcases mem_cons.mp hone with rfl | hrest
    · exact retryLoop_callsOrLoneDenied hdistinct hinputs hready hrun
    · exact hall one hrest

theorem InService.of_clean {failover : FailoverPolicy}
    (hkey : ∃ entry ∈ pool.keys, 0 < entry.weight)
    (hfit : ((pool.keys.map KeyEntry.weight).map UInt32.toNat).sum < 2 ^ 32)
    (hclean : ∀ entry ∈ pool.keys, shared.bad.isBad poolId entry.identityHash = false)
    (hcircuits : ∀ entry ∈ pool.keys,
      (shared.breaker.entryOf (poolId, entry.identityHash)).Unopened shared.breaker.policy) :
    InService ⟨poolId, pool, failover⟩ shared := by
  constructor
  · have hsub : (Router.candidates shared.bad pool poolId).Sublist pool.keys :=
      filter_sublist
    exact lt_of_le_of_lt (((hsub.map _).map _).sum_le_sum (by simp)) hfit
  · obtain ⟨entry, hentry, hweight⟩ := hkey
    apply length_pos_of_mem (a := entry)
    rw [Router.mem_candidates, Router.selectable_iff]
    exact ⟨hentry, hweight, hclean entry hentry⟩
  · intro _ entry hentry
    exact hcircuits entry (Router.mem_candidates.mp hentry).1

end

/-- Starting clean, no request of a sequence finds the pool exhausted, and one
that makes no call was denied at every attempt by the circuit of the pool's
only selectable key. -/
theorem serve_callsOrLoneDenied [Sha256] (poolId : String) (pool : PoolConfig)
    (shared : Shared) (requests : List (Request Response))
    (hkey : ∃ entry ∈ pool.keys, 0 < entry.weight)
    (hdistinct : Router.DistinctIdentities pool)
    (hfit : ((pool.keys.map KeyEntry.weight).map UInt32.toNat).sum < 2 ^ 32)
    (hclean : ∀ entry ∈ pool.keys, shared.bad.isBad poolId entry.identityHash = false)
    (hcircuits : ∀ entry ∈ pool.keys,
      (shared.breaker.entryOf (poolId, entry.identityHash)).Unopened shared.breaker.policy)
    (hplain : ∀ request ∈ requests, ∀ i, (request.inputs i).Plain) :
    ∃ served, serve poolId pool shared requests = some served ∧
      served.map Served.request = requests ∧
      ∀ one ∈ served,
        CallsOrLoneDenied (one.request.context poolId pool) one.before one.exit one.final := by
  have hservice : InService ⟨poolId, pool, ⟨0, []⟩⟩ shared :=
    InService.of_clean hkey hfit hclean hcircuits
  exact hservice.serve hdistinct requests hplain

def oneKeyPool : PoolConfig where
  keys := [{ key := "sk-a", weight := 1, identity := some "a" }]

def rateLimited : Request Unit where
  failover := { maxRetries := 1, badStatusCodes := [429] }
  inputs := fun _ =>
    { chosen := 0
      refresh := .unchanged
      allowAt := 0
      chat := .error (.upstream (some 429) true true "")
      failedAt := 0 }

theorem rateLimited_plain (i : ℕ) : (rateLimited.inputs i).Plain :=
  ⟨fun _ _ => rfl, fun _ hfailed => by cases hfailed⟩

/-- After five rate-limited requests the circuit of the only key is open, and
the sixth request makes no call. -/
theorem sixth_rateLimited_request_makes_no_call :
    ¬ ∀ (Response : Type) (_ : Sha256) (poolId : String) (pool : PoolConfig)
      (shared : Shared) (requests : List (Request Response)),
      (∃ entry ∈ pool.keys, 0 < entry.weight) →
      (∀ entry ∈ pool.keys, shared.bad.isBad poolId entry.identityHash = false) →
      (∀ entry ∈ pool.keys,
        (shared.breaker.entryOf (poolId, entry.identityHash)).Unopened
          shared.breaker.policy) →
      (∀ request ∈ requests, ∀ i, (request.inputs i).Plain) →
      ∃ served, serve poolId pool shared requests = some served ∧
        ∀ one ∈ served, ∃ event ∈ one.final.log, event.isCall = true := by
  intro hclaim
  let := zeroSha256
  let start : Shared := ⟨.new, .new .defaults⟩
  obtain ⟨served, hserved, hcalls⟩ := hclaim Unit zeroSha256 "p" oneKeyPool start
    (List.replicate 6 rateLimited) ⟨_, mem_singleton_self _, by decide⟩
    (fun _ _ => rfl) (fun _ _ => .inl rfl)
    (fun request hrequest => (eq_of_mem_replicate hrequest) ▸ rateLimited_plain)
  have hnone : (serve "p" oneKeyPool start (List.replicate 6 rateLimited)).map
      (fun served => served.all fun one => one.final.log.any AttemptEvent.isCall) =
        some false := by decide
  have hall : (served.all fun one => one.final.log.any AttemptEvent.isCall) = true := by
    simpa only [all_eq_true, any_eq_true] using hcalls
  rw [hserved, Option.map_some, hall] at hnone
  cases hnone

theorem rateLimited_requests_callsOrLoneDenied :
    letI := zeroSha256
    ∃ served, serve "p" twoKeyPool ⟨.new, .new .defaults⟩
        (List.replicate 8 rateLimited) = some served ∧
      served.map Served.request = List.replicate 8 rateLimited ∧
      ∀ one ∈ served,
        CallsOrLoneDenied (one.request.context "p" twoKeyPool) one.before one.exit
          one.final := by
  let := zeroSha256
  apply serve_callsOrLoneDenied
  · exact ⟨_, mem_cons_self, by decide⟩
  · unfold Router.DistinctIdentities
    decide
  · decide
  · exact fun _ _ => rfl
  · exact fun _ _ => .inl rfl
  · exact fun request hrequest => (eq_of_mem_replicate hrequest) ▸ rateLimited_plain

end RetryLoop

end LlmProxy
