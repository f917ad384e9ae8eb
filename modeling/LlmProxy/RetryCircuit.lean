import LlmProxy.RetryContract

/-!
# Open circuits and the attempt budget

A key is drawn without regard to its circuit, and an attempt on a key whose circuit denies it is
spent.  So a request can end with the circuit-breaker error although another selectable key would
have been allowed.  This file says exactly when it cannot.
-/

namespace LlmProxy

open CircuitEntry

namespace CircuitEntry

def Allows (policy : BreakerPolicy) (now : ℕ) (entry : CircuitEntry) : Prop :=
  entry.state = .closed ∨
    (entry.state = .opened ∧ entry.cooldownElapsed policy now = true) ∨
    (entry.state = .halfOpen ∧ entry.successes < policy.halfOpenMax)

variable {policy : BreakerPolicy} {entry : CircuitEntry} {now : ℕ}

theorem allow_eq_true_iff : (entry.allow policy now).1 = true ↔ entry.Allows policy now := by
  unfold allow Allows
  cases hstate : entry.state with
  | opened =>
    cases helapsed : entry.cooldownElapsed policy now with
    | false => simp
    | true => simp
  | _ => simp

theorem cooldownElapsed_mono {later : ℕ} (hle : now ≤ later)
    (helapsed : entry.cooldownElapsed policy now = true) :
    entry.cooldownElapsed policy later = true := by
  unfold cooldownElapsed at helapsed ⊢
  cases hopened : entry.openedAt with
  | none => simp [hopened] at helapsed
  | some at_ =>
    simp only [hopened, decide_eq_true_eq] at helapsed ⊢
    omega

structure Steady (policy : BreakerPolicy) (maxRetries now : ℕ)
    (entry : CircuitEntry) : Prop where
  allows : entry.Allows policy now
  again : maxRetries = 0 ∨ entry.state ≠ .opened ∨ 0 < policy.halfOpenMax

theorem Steady.later {policy : BreakerPolicy} {maxRetries now later : ℕ}
    {entry : CircuitEntry} (hsteady : entry.Steady policy maxRetries now) (hle : now ≤ later) :
    entry.Steady policy maxRetries later := by
  refine ⟨?_, hsteady.again⟩
  rcases hsteady.allows with hclosed | ⟨hopened, helapsed⟩ | hhalf
  · exact .inl hclosed
  · exact .inr (.inl ⟨hopened, cooldownElapsed_mono hle helapsed⟩)
  · exact .inr (.inr hhalf)

variable {maxRetries : ℕ}

theorem Steady.allow (hsteady : entry.Steady policy maxRetries now) (hretries : 0 < maxRetries) :
    (entry.allow policy now).2.Steady policy maxRetries now := by
  by_cases hopened : entry.state = .opened
  · have hmax : 0 < policy.halfOpenMax :=
      (hsteady.again.resolve_left (by omega)).resolve_left fun h => h hopened
    have helapsed : entry.cooldownElapsed policy now = true := by
      simpa [Allows, hopened] using hsteady.allows
    have hentry : (entry.allow policy now).2 =
        { entry with state := .halfOpen, successes := 0 } := by
      simp [CircuitEntry.allow, hopened, helapsed]
    rw [hentry]
    exact ⟨.inr (.inr ⟨rfl, hmax⟩), .inr (.inr hmax)⟩
  · have hentry : (entry.allow policy now).2 = entry := by
      unfold CircuitEntry.allow
      cases hstate : entry.state with
      | opened => exact absurd hstate hopened
      | _ => rfl
    rw [hentry]
    exact hsteady

theorem allow_of_not_allows (hdenied : ¬ entry.Allows policy now) :
    entry.allow policy now = (false, entry) := by
  unfold Allows at hdenied
  unfold allow
  cases hstate : entry.state with
  | closed => simp [hstate] at hdenied
  | opened =>
    simp only [hstate, true_and, reduceCtorEq, false_or, false_and, or_false] at hdenied
    simp [hdenied]
  | halfOpen =>
    simp only [hstate, true_and, reduceCtorEq, false_or, false_and] at hdenied
    simp [hdenied]

/-- An unsteady circuit denies every request but, with retries left, perhaps
the first. -/
theorem not_allows_of_not_steady (hunsteady : ¬ entry.Steady policy maxRetries now) :
    ¬ entry.Allows policy now ∨
      (0 < maxRetries ∧ ¬ (entry.allow policy now).2.Allows policy now) := by
  by_cases hallows : entry.Allows policy now
  · right
    have hagain : ¬ (maxRetries = 0 ∨ entry.state ≠ .opened ∨ 0 < policy.halfOpenMax) :=
      fun hagain => hunsteady ⟨hallows, hagain⟩
    simp only [not_or, not_not] at hagain
    obtain ⟨hretries, hopened, hmax⟩ := hagain
    have helapsed : entry.cooldownElapsed policy now = true := by
      simpa [Allows, hopened] using hallows
    refine ⟨by omega, ?_⟩
    simp [CircuitEntry.allow, Allows, hopened, helapsed, hmax]
  · exact .inl hallows

end CircuitEntry

namespace RetryLoop

variable {Response : Type}

section

variable [Sha256] (ctx : RetryContext) (inputs : ℕ → AttemptInput Response)

def stateAt (shared : Shared) : ℕ → LoopState Response
  | 0 => .start shared
  | i + 1 => (stateAt shared i).after (attemptOf ctx inputs (stateAt shared i))

structure Clocked (now : ℕ) : Prop where
  start : (inputs 0).allowAt = now
  call : ∀ i, (inputs i).allowAt ≤ (inputs i).failedAt
  retry : ∀ i, (inputs i).failedAt ≤ (inputs (i + 1)).allowAt

def circuitOf (shared : Shared) (entry : KeyEntry) : CircuitEntry :=
  shared.breaker.entryOf (ctx.poolId, entry.identityHash)

/-- The key is selectable and its circuit allows a request whenever one of
the first `n` attempts asks. -/
def AllowedThroughout (shared : Shared) (entry : KeyEntry) (n : ℕ) : Prop :=
  ∀ i < n,
    entry ∈ Router.candidates (stateAt ctx inputs shared i).shared.bad ctx.pool ctx.poolId ∧
      (circuitOf ctx (stateAt ctx inputs shared i).shared entry).Allows
        shared.breaker.policy (inputs i).allowAt

variable (Response) in
/-- While some key is allowed throughout, no draws and no answers lead to the
circuit-breaker error. -/
def SkipsOpenCircuits (shared : Shared) (now : ℕ) : Prop :=
  ∀ inputs : ℕ → AttemptInput Response, (∀ i, (inputs i).Quiet) → Clocked inputs now →
    ∀ exit final, retryLoop ctx inputs shared = some (exit, final) →
      (∃ entry, AllowedThroughout ctx inputs shared entry final.attempts) →
      exit ≠ .circuitOpen

def OthersSteady (shared : Shared) (now : ℕ) : Prop :=
  ∀ entry ∈ Router.candidates shared.bad ctx.pool ctx.poolId,
    ∀ other ∈ Router.candidates shared.bad ctx.pool ctx.poolId,
      other.identityHash ≠ entry.identityHash →
      (circuitOf ctx shared entry).Allows shared.breaker.policy now →
      (circuitOf ctx shared other).Steady shared.breaker.policy
        ctx.failover.maxRetries now

end

section

variable [Sha256] {ctx : RetryContext} {attempts : ℕ} {input : AttemptInput Response}
  {shared : Shared} {result : AttemptResult Response}

variable {other entry : KeyEntry}

theorem mem_candidates_markBad {bad : BadKeyRegistry} {pool : PoolConfig}
    {poolId keyHash : String} :
    entry ∈ Router.candidates (bad.markBad poolId keyHash) pool poolId ↔
      entry ∈ Router.candidates bad pool poolId ∧ entry.identityHash ≠ keyHash := by
  rw [Router.candidates_markBad, List.mem_filter, decide_eq_true_eq]

section

variable (hquiet : input.Quiet)

include hquiet

theorem asked_policy (entry : KeyEntry) :
    (asked ctx input shared entry).breaker.policy = shared.breaker.policy := by
  rw [hquiet.asked_breaker]
  rfl

theorem failed_policy (entry : KeyEntry) :
    (failed ctx input shared entry).breaker.policy = shared.breaker.policy := by
  rw [hquiet.failed_breaker, CircuitBreaker.recordFailure_policy, asked_policy hquiet]

theorem AttemptPath.policy_eq (hpath : AttemptPath ctx attempts input shared result) :
    result.shared.breaker.policy = shared.breaker.policy := by
  cases hpath with
  | noKey => rw [hquiet.picking_eq]
  | refreshReturned => rw [hquiet.picking_eq]
  | refreshLastKey => rw [hquiet, hquiet.picking_eq]
  | refreshDemoted => rw [hquiet.demoted_eq, hquiet.picking_eq]
  | @succeeded _ entry =>
    have hpolicy : (asked ctx input shared entry).breaker.policy =
        shared.breaker.policy := asked_policy hquiet entry
    rw [hquiet]
    exact hpolicy
  | upstreamLastKey =>
    rw [hquiet]
    exact failed_policy hquiet _
  | upstreamDemoted =>
    rw [hquiet.demoted_eq]
    exact failed_policy hquiet _
  | _ => exact asked_policy hquiet _

theorem circuitOf_asked (entry other : KeyEntry) :
    circuitOf ctx (asked ctx input shared entry) other =
      if other.identityHash = entry.identityHash then
        ((circuitOf ctx shared entry).allow shared.breaker.policy input.allowAt).2
      else circuitOf ctx shared other := by
  unfold circuitOf
  rw [hquiet.asked_breaker, CircuitBreaker.entryOf_allow]
  simp [Prod.ext_iff]

theorem circuitOf_failed_ne (hne : other.identityHash ≠ entry.identityHash) :
    circuitOf ctx (failed ctx input shared entry) other = circuitOf ctx shared other := by
  have hasked : circuitOf ctx (asked ctx input shared entry) other =
      circuitOf ctx shared other := by
    rw [circuitOf_asked hquiet, if_neg hne]
  rw [← hasked]
  unfold circuitOf
  rw [hquiet.failed_breaker, CircuitBreaker.entryOf_recordFailure]
  simp [hne]

/-- An attempt that goes round again leaves every remaining candidate a
candidate it was before, with a circuit as steady as before. -/
theorem AttemptPath.steady_kept (hpath : AttemptPath ctx attempts input shared result)
    (hagain : result.exit = none) (hattempt : 0 < attempts)
    (hother : other ∈ Router.candidates result.shared.bad ctx.pool ctx.poolId) :
    other ∈ Router.candidates shared.bad ctx.pool ctx.poolId ∧
      ((circuitOf ctx shared other).Steady shared.breaker.policy
          ctx.failover.maxRetries input.allowAt →
        (circuitOf ctx result.shared other).Steady shared.breaker.policy
          ctx.failover.maxRetries input.allowAt) := by
  have hretries : 0 < ctx.failover.maxRetries := by
    have hle := hpath.attempts_le hagain
    omega
  have hasked : ∀ entry : KeyEntry,
      (circuitOf ctx shared other).Steady shared.breaker.policy
        ctx.failover.maxRetries input.allowAt →
      (circuitOf ctx (asked ctx input shared entry) other).Steady shared.breaker.policy
        ctx.failover.maxRetries input.allowAt := by
    intro entry hsteady
    rw [circuitOf_asked hquiet]
    split_ifs with hhash
    · have hsame : circuitOf ctx shared entry = circuitOf ctx shared other := by
        unfold circuitOf
        rw [hhash]
      rw [hsame]
      exact hsteady.allow hretries
    · exact hsteady
  cases hpath with
  | refreshDemoted =>
    rw [hquiet.demoted_eq, hquiet.picking_eq] at hother ⊢
    exact ⟨(mem_candidates_markBad.mp hother).1, id⟩
  | denied =>
    rw [hquiet.asked_bad] at hother
    exact ⟨hother, hasked _⟩
  | upstreamError =>
    rw [hquiet.asked_bad] at hother
    exact ⟨hother, hasked _⟩
  | @upstreamDemoted _ entry =>
    rw [hquiet.demoted_eq] at hother ⊢
    simp only [hquiet.failed_bad] at hother
    obtain ⟨hmem, hne⟩ := mem_candidates_markBad.mp hother
    refine ⟨hmem, fun hsteady => ?_⟩
    have hcircuit : circuitOf ctx (failed ctx input shared entry) other =
        circuitOf ctx shared other := circuitOf_failed_ne hquiet hne
    rw [← hcircuit] at hsteady
    exact hsteady
  | _ => cases hagain

end

theorem AttemptPath.denied_of_circuitOpen (hpath : AttemptPath ctx attempts input shared result)
    (hexit : result.exit = some .circuitOpen) :
    ∃ drawn entry, Asked ctx input shared drawn entry false := by
  have hreturn : ∀ {status retryable msg},
      retryOrReturn ctx attempts status retryable msg ≠
        some (.circuitOpen : LoopExit Response) := by
    intro status retryable msg hreturn
    rcases retryOrReturn_eq_some hreturn with heq | heq
    · cases heq
    · cases heq
  cases hpath with
  | refreshDemoted => cases exitIfSpent_eq_some hexit
  | denied hasked => exact ⟨_, _, hasked⟩
  | upstreamError => exact absurd hexit hreturn
  | upstreamDemoted => exact absurd hexit hreturn
  | _ => cases hexit

end

variable {exit : LoopExit Response} {final : LoopState Response}

section

variable [Sha256] {ctx : RetryContext} {inputs : ℕ → AttemptInput Response} {shared : Shared}
  {now : ℕ}

structure StillSteady (ctx : RetryContext) (inputs : ℕ → AttemptInput Response)
    (shared : Shared) (entry : KeyEntry) (state : LoopState Response) : Prop where
  reached : state = stateAt ctx inputs shared state.attempts
  policy : state.shared.breaker.policy = shared.breaker.policy
  steady : ∀ other ∈ Router.candidates state.shared.bad ctx.pool ctx.poolId,
    other.identityHash ≠ entry.identityHash →
    (circuitOf ctx state.shared other).Steady shared.breaker.policy
      ctx.failover.maxRetries (inputs state.attempts).allowAt

variable {entry : KeyEntry} {state : LoopState Response}

theorem StillSteady.after (hinv : StillSteady ctx inputs shared entry state)
    (hquiet : ∀ i, (inputs i).Quiet) (hclock : Clocked inputs now)
    (hagain : (attemptOf ctx inputs state).exit = none) :
    StillSteady ctx inputs shared entry (state.after (attemptOf ctx inputs state)) := by
  have hpath := runAttempt_path ctx (state.attempts + 1) (inputs state.attempts) state.shared
  have hstay := hquiet state.attempts
  constructor
  · simp only [LoopState.after, stateAt]
    rw [← hinv.reached]
  · rw [← hinv.policy]
    exact hpath.policy_eq hstay
  · intro other hother hne
    obtain ⟨hmem, hkept⟩ := hpath.steady_kept hstay hagain (Nat.succ_pos _) hother
    have hbefore := hinv.steady other hmem hne
    rw [← hinv.policy] at hbefore ⊢
    have hle : (inputs state.attempts).allowAt ≤ (inputs (state.attempts + 1)).allowAt :=
      le_trans (hclock.call _) (hclock.retry _)
    exact (hkept hbefore).later hle

theorem Asked.allows_iff {input : AttemptInput Response} {drawn : KeyEntry} {allowed : Bool}
    (hasked : Asked ctx input shared drawn entry allowed) (hquiet : input.Quiet) :
    (circuitOf ctx shared drawn).Allows shared.breaker.policy input.allowAt ↔ allowed = true := by
  rw [← allow_eq_true_iff, ← hasked.answer]
  unfold circuitAnswer
  rw [hquiet.asking_eq, hasked.identityHash_eq]
  rfl

theorem StillSteady.exit_ne (hinv : StillSteady ctx inputs shared entry state)
    (hquiet : ∀ i, (inputs i).Quiet) (hallows : (circuitOf ctx state.shared entry).Allows
      shared.breaker.policy (inputs state.attempts).allowAt) :
    (attemptOf ctx inputs state).exit ≠ some .circuitOpen := by
  intro hopen
  have hpath := runAttempt_path ctx (state.attempts + 1) (inputs state.attempts) state.shared
  obtain ⟨drawn, fresh, hasked⟩ := hpath.denied_of_circuitOpen hopen
  have hdenied : ¬ (circuitOf ctx state.shared drawn).Allows
      shared.breaker.policy (inputs state.attempts).allowAt := by
    rw [← hinv.policy, hasked.allows_iff (hquiet _)]
    simp
  by_cases hhash : drawn.identityHash = entry.identityHash
  · apply hdenied
    unfold circuitOf at hallows ⊢
    rw [hhash]
    exact hallows
  · have hmem := hasked.mem_candidates
    rw [(hquiet _).picking_eq] at hmem
    exact hdenied (hinv.steady drawn hmem hhash).allows

theorem retryLoop_attempts_pos (hrun : retryLoop ctx inputs shared = some (exit, final)) :
    0 < final.attempts :=
  retryLoop_rule (I := fun _ => True) (Q := fun _ final => 0 < final.attempts) trivial
    (fun _ _ _ _ _ => trivial) (fun _ _ _ _ _ _ => Nat.succ_pos _) hrun

theorem OthersSteady.skipsOpenCircuits (hsteady : OthersSteady ctx shared now) :
    SkipsOpenCircuits Response ctx shared now := by
  intro inputs hquiet hclock exit final hrun hallowed
  obtain ⟨entry, hentry⟩ := hallowed
  have hfirst := hentry 0 (retryLoop_attempts_pos hrun)
  rw [hclock.start] at hfirst
  have hinit : StillSteady ctx inputs shared entry (.start shared) := by
    constructor
    · rfl
    · rfl
    · intro other hother hne
      have hstart := hsteady entry hfirst.1 other hother hne hfirst.2
      rw [← hclock.start] at hstart
      exact hstart
  refine BoundedLoop.runLoop_rule (I := StillSteady ctx inputs shared entry)
    (Q := fun result => AllowedThroughout ctx inputs shared entry result.2.attempts →
      result.1 ≠ .circuitOpen) ?_ ?_ hinit hrun hentry
  · intro state next hstate hbody
    obtain ⟨hagain, rfl⟩ := loopBody_again hbody
    exact hstate.after hquiet hclock hagain
  · intro state result hstate hbody hthroughout hopen
    obtain ⟨hexit, hfinal⟩ := loopBody_leave hbody
    have hnow := (hthroughout state.attempts (by
      rw [hfinal]
      exact Nat.lt_succ_self _)).2
    rw [← hstate.reached] at hnow
    rw [hopen] at hexit
    exact hstate.exit_ne hquiet hnow hexit

end

/-! ## Why it is needed -/

variable (Response) in
/-- The same number is drawn, and every call fails with a retryable error
that blames no key. -/
def drawOnly (chosen : UInt32) (now : ℕ) : AttemptInput Response where
  chosen := chosen
  refresh := .unchanged
  allowAt := now
  chat := .error (.upstream (some 500) true false "")
  failedAt := now

theorem drawOnly_quiet (Response : Type) (chosen : UInt32) (now : ℕ) :
    (drawOnly Response chosen now).Quiet := fun _ _ => rfl

section

variable [Sha256] {ctx : RetryContext} {shared : Shared} {now : ℕ} {chosen : UInt32}

theorem ensureFresh_unchanged (entry : KeyEntry) : ensureFresh entry .unchanged = .ok entry := by
  unfold ensureFresh
  split <;> rfl

variable {drawn : KeyEntry} {state : LoopState Response}

def RunsDry (ctx : RetryContext) (drawn : KeyEntry) (now : ℕ)
    (state : LoopState Response) : Prop :=
  ¬ (circuitOf ctx state.shared drawn).Allows state.shared.breaker.policy now ∨
    (state.attempts = 0 ∧ 0 < ctx.failover.maxRetries ∧
      ¬ ((circuitOf ctx state.shared drawn).allow state.shared.breaker.policy now
        |>.2).Allows state.shared.breaker.policy now)

section

variable (hpick : Router.pickKey state.shared.bad ctx.pool ctx.poolId chosen = some drawn)

include hpick

theorem attempt_drawOnly :
    (attemptOf ctx (fun _ => drawOnly Response chosen now) state).shared =
        asked ctx (drawOnly Response chosen now) state.shared drawn ∧
      (attemptOf ctx (fun _ => drawOnly Response chosen now) state).exit =
        exitIfSpent ctx (state.attempts + 1)
          (if (circuitOf ctx state.shared drawn).allow state.shared.breaker.policy now
              |>.1 then .maxRetries (some 500) "" else .circuitOpen) := by
  have hanswer : (circuitAnswer ctx (drawOnly Response chosen now) state.shared drawn).1 =
        ((circuitOf ctx state.shared drawn).allow state.shared.breaker.policy now).1 := rfl
  have hdraw : Router.pickKey (picking (drawOnly Response chosen now)
      state.shared).bad ctx.pool ctx.poolId chosen = some drawn := hpick
  unfold attemptOf runAttempt
  rw [show (drawOnly Response chosen now).chosen = chosen from rfl, hdraw,
    show (drawOnly Response chosen now).refresh = .unchanged from rfl]
  simp only [ensureFresh_unchanged]
  rw [hanswer]
  cases ((circuitOf ctx state.shared drawn).allow state.shared.breaker.policy now).1 with
  | false => exact ⟨rfl, rfl⟩
  | true => exact ⟨rfl, rfl⟩

theorem RunsDry.after (hdry : RunsDry ctx drawn now state) :
    RunsDry ctx drawn now
      (state.after (attemptOf ctx (fun _ => drawOnly Response chosen now) state)) := by
  have hquiet := drawOnly_quiet Response chosen now
  left
  simp only [LoopState.after, (attempt_drawOnly hpick).1, circuitOf_asked hquiet]
  rcases hdry with hdenied | ⟨-, -, hnext⟩
  · rw [show (drawOnly Response chosen now).allowAt = now from rfl,
      allow_of_not_allows hdenied]
    exact hdenied
  · exact hnext

theorem RunsDry.exit_eq (hdry : RunsDry ctx drawn now state)
    (hexit : (attemptOf ctx (fun _ => drawOnly Response chosen now) state).exit = some exit) :
    exit = .circuitOpen := by
  rw [(attempt_drawOnly hpick).2] at hexit
  unfold exitIfSpent at hexit
  split_ifs at hexit with hspent hallow
  · have hallows := allow_eq_true_iff.mp hallow
    rcases hdry with hdenied | ⟨hfirst, hretries, -⟩
    · exact absurd hallows hdenied
    · omega
  · exact (Option.some.inj hexit).symm

end

structure OnlyAsked (ctx : RetryContext) (shared : Shared) (drawn : KeyEntry)
    (state : LoopState Response) : Prop where
  bad : state.shared.bad = shared.bad
  policy : state.shared.breaker.policy = shared.breaker.policy
  others : ∀ other : KeyEntry, other.identityHash ≠ drawn.identityHash →
    circuitOf ctx state.shared other = circuitOf ctx shared other

section

variable (hpick : Router.pickKey shared.bad ctx.pool ctx.poolId chosen = some drawn)

include hpick

theorem OnlyAsked.after (hinv : OnlyAsked ctx shared drawn state) :
    OnlyAsked ctx shared drawn
      (state.after (attemptOf ctx (fun _ => drawOnly Response chosen now) state)) := by
  have hquiet := drawOnly_quiet Response chosen now
  rw [← hinv.bad] at hpick
  constructor
  · simp only [LoopState.after, (attempt_drawOnly hpick).1, hquiet.asked_bad, hinv.bad]
  · simp only [LoopState.after, (attempt_drawOnly hpick).1, asked_policy hquiet, hinv.policy]
  · intro other hne
    simp only [LoopState.after, (attempt_drawOnly hpick).1, circuitOf_asked hquiet, if_neg hne]
    exact hinv.others other hne

theorem stateAt_onlyAsked (i : ℕ) :
    OnlyAsked ctx shared drawn (stateAt ctx
      (fun _ => (drawOnly Response chosen now)) shared i) := by
  induction i with
  | zero => exact ⟨rfl, rfl, fun _ _ => rfl⟩
  | succ i ih => exact ih.after hpick

theorem retryLoop_drawOnly (hunsteady : ¬ (circuitOf ctx shared drawn).Steady shared.breaker.policy
      ctx.failover.maxRetries now)
    (hrun : retryLoop ctx (fun _ => drawOnly Response chosen now) shared = some (exit, final)) :
    exit = .circuitOpen := by
  have hstart : RunsDry ctx drawn now (.start shared : LoopState Response) := by
    rcases not_allows_of_not_steady hunsteady with hdenied | ⟨hretries, hnext⟩
    · exact .inl hdenied
    · exact .inr ⟨rfl, hretries, hnext⟩
  refine BoundedLoop.runLoop_rule
    (I := fun state => OnlyAsked ctx shared drawn state ∧ RunsDry ctx drawn now state)
    (Q := fun result => result.1 = .circuitOpen) ?_ ?_
    ⟨⟨rfl, rfl, fun _ _ => rfl⟩, hstart⟩ hrun
  · intro state next hstate hbody
    obtain ⟨-, rfl⟩ := loopBody_again hbody
    have hdraw := hpick
    rw [← hstate.1.bad] at hdraw
    exact ⟨hstate.1.after hpick, hstate.2.after hdraw⟩
  · intro state result hstate hbody
    obtain ⟨hexit, -⟩ := loopBody_leave hbody
    have hdraw := hpick
    rw [← hstate.1.bad] at hdraw
    exact hstate.2.exit_eq hdraw hexit

end

theorem SkipsOpenCircuits.othersSteady (hfit : Router.WeightsFit shared.bad ctx.pool ctx.poolId)
    (hskips : SkipsOpenCircuits Response ctx shared now) : OthersSteady ctx shared now := by
  intro entry hentry other hother hne hallows
  by_contra hunsteady
  obtain ⟨chosen, hpick⟩ := Router.exists_pickKey hfit hother
  let inputs : ℕ → AttemptInput Response := fun _ => drawOnly Response chosen now
  obtain ⟨exit, final, hrun⟩ := exists_retryLoop ctx inputs shared
  have hclock : Clocked inputs now := ⟨rfl, fun _ => le_refl _, fun _ => le_refl _⟩
  have hallowed : AllowedThroughout ctx inputs shared entry final.attempts := by
    intro i _
    have honly : OnlyAsked ctx shared other (stateAt ctx inputs shared i) :=
      stateAt_onlyAsked hpick i
    constructor
    · rw [honly.bad]
      exact hentry
    · rw [honly.others entry (Ne.symm hne)]
      exact hallows
  exact hskips inputs (fun _ => drawOnly_quiet Response chosen now) hclock exit final hrun
    ⟨entry, hallowed⟩ (retryLoop_drawOnly hpick hunsteady hrun)

end

/-- An open circuit is only skipped, whatever is drawn, if and, as far as the
draws reach every candidate, only if the other candidates are steady. -/
theorem skipsOpenCircuits_iff_othersSteady [Sha256] (Response : Type)
    (ctx : RetryContext) (shared : Shared) (now : ℕ) :
    (OthersSteady ctx shared now → SkipsOpenCircuits Response ctx shared now) ∧
      (Router.WeightsFit shared.bad ctx.pool ctx.poolId →
        (SkipsOpenCircuits Response ctx shared now ↔ OthersSteady ctx shared now)) := by
  refine ⟨OthersSteady.skipsOpenCircuits, fun hfit => ?_⟩
  exact ⟨SkipsOpenCircuits.othersSteady hfit, OthersSteady.skipsOpenCircuits⟩

def oneRetry : RetryContext where
  poolId := "p"
  pool := twoKeyPool
  failover := { maxRetries := 1, badStatusCodes := [429] }

def firstKeyTripped : Shared where
  bad := .new
  breaker := (List.range 5).foldl
    (fun breaker _ => (breaker.recordFailure ("p", "a") 0).2) (.new .defaults)

/-- Both attempts draw the key whose circuit is open. -/
theorem open_circuit_drawn_twice :
    ¬ ∀ (Response : Type) (_ : Sha256) (ctx : RetryContext) (shared : Shared) (now : ℕ),
      SkipsOpenCircuits Response ctx shared now := by
  intro hclaim
  let := zeroSha256
  let inputs : ℕ → AttemptInput Unit := fun _ => drawOnly Unit 0 0
  have hclock : Clocked inputs 0 := ⟨rfl, fun _ => le_refl _, fun _ => le_refl _⟩
  obtain ⟨exit, final, hrun⟩ := exists_retryLoop oneRetry inputs firstKeyTripped
  have hexit : (retryLoop oneRetry inputs firstKeyTripped).map Prod.fst =
      some .circuitOpen := by decide
  have hattempts : (retryLoop oneRetry inputs firstKeyTripped).map (·.2.attempts) =
      some 2 := by decide
  rw [hrun] at hexit hattempts
  have hallowed : AllowedThroughout oneRetry inputs firstKeyTripped
      { key := "sk-b", weight := 1, identity := some "b" } final.attempts := by
    intro i hi
    have htwo : final.attempts = 2 := Option.some.inj hattempts
    rw [htwo] at hi
    interval_cases i
    · exact ⟨by decide, .inl (by decide)⟩
    · exact ⟨by decide, .inl (by decide)⟩
  exact hclaim Unit zeroSha256 oneRetry firstKeyTripped 0 inputs
    (fun _ => drawOnly_quiet Unit 0 0) hclock exit final hrun ⟨_, hallowed⟩
    (Option.some.inj hexit)

theorem closed_circuits_skipsOpenCircuits :
    letI := zeroSha256
    SkipsOpenCircuits Unit oneRetry ⟨.new, .new .defaults⟩ 0 := by
  let := zeroSha256
  apply (skipsOpenCircuits_iff_othersSteady Unit oneRetry ⟨.new, .new .defaults⟩ 0).1
  intro entry _ other _ _ _
  exact ⟨.inl rfl, .inr (.inr (by decide))⟩

end RetryLoop

end LlmProxy
