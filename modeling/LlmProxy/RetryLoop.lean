import LlmProxy.BoundedLoop
import LlmProxy.CircuitBreaker
import LlmProxy.Router

/-!
# The retry loop of the chat handler

One request works through its pool attempt by attempt (`chat_completions_handler`): draw a key,
refresh it, ask its circuit, call the upstream, and on an error either leave the loop or go round
again.
-/

namespace LlmProxy.RetryLoop

open BoundedLoop

structure Shared where
  bad : BadKeyRegistry
  breaker : CircuitBreaker

structure FailoverPolicy where
  maxRetries : ℕ
  badStatusCodes : List UInt16
  deriving DecidableEq, Repr

structure RetryContext where
  poolId : String
  pool : PoolConfig
  failover : FailoverPolicy
  deriving DecidableEq, Repr

inductive LoopPoint where
  | pick
  | allow
  | record
  | count
  | mark
  deriving DecidableEq, Repr

/-- What the loop does not decide itself: the drawn number, the refresh answer, the upstream answer
and the instants at which the breaker is asked. Other requests and the health task change the
registry and the breaker between any two atomic accesses; `meddle` is what they did before each of
them. -/
structure AttemptInput (Response : Type) where
  chosen : UInt32
  refresh : RefreshAnswer
  allowAt : ℕ
  chat : Except AppError Response
  failedAt : ℕ
  meddle : LoopPoint → Shared → Shared := fun _ shared => shared

/-- One constructor for each `return` of the loop. -/
inductive LoopExit (Response : Type) where
  | poolExhausted
  | refreshFailed (error : AppError)
  | circuitOpen
  | success (response : Response)
  | lastHealthyKey (status : Option UInt16) (msg : String)
  | notRetryable (status : Option UInt16) (msg : String)
  | maxRetries (status : Option UInt16) (msg : String)
  | other (error : AppError)
  deriving DecidableEq, Repr

inductive AttemptEvent (Response : Type) where
  | noKey
  | refreshFailed (entry : KeyEntry) (error : AppError) (demoted : Bool)
  | denied (entry : KeyEntry)
  | called (entry : KeyEntry) (outcome : Except AppError Response) (demoted : Bool)

structure AttemptResult (Response : Type) where
  shared : Shared
  /-- The hash pushed on `retries`. -/
  retried : Option String
  event : AttemptEvent Response
  exit : Option (LoopExit Response)

structure LoopState (Response : Type) where
  shared : Shared
  attempts : ℕ
  retries : List String
  log : List (AttemptEvent Response)

variable {Response : Type}

def LoopState.start (shared : Shared) : LoopState Response where
  shared := shared
  attempts := 0
  retries := []
  log := []

def LoopState.after (state : LoopState Response) (result : AttemptResult Response) :
    LoopState Response where
  shared := result.shared
  attempts := state.attempts + 1
  retries := state.retries ++ result.retried.toList
  log := state.log ++ [result.event]

def LoopExit.toResult (ctx : RetryContext) : LoopExit Response → Except AppError Response
  | .poolExhausted => .error (Router.poolExhausted ctx.poolId)
  | .refreshFailed error => .error error
  | .circuitOpen =>
    let poolId := ctx.poolId
    .error (.upstream (some 429) true false s!"circuit breaker open for pool '{poolId}'")
  | .success response => .ok response
  | .lastHealthyKey status msg => .error (.upstream status false false msg)
  | .notRetryable status msg => .error (.upstream status false false msg)
  | .maxRetries status msg =>
    let maxRetries := ctx.failover.maxRetries
    .error (.upstream status false false s!"max retries ({maxRetries}) exceeded: {msg}")
  | .other error => .error error

def AttemptEvent.usedKey : AttemptEvent Response → Option KeyEntry
  | .noKey => none
  | .refreshFailed entry _ _ => some entry
  | .denied entry => some entry
  | .called entry _ _ => some entry

def AttemptEvent.demotedKey : AttemptEvent Response → Option KeyEntry
  | .refreshFailed entry _ true => some entry
  | .called entry _ true => some entry
  | _ => none

def AttemptEvent.error : AttemptEvent Response → Option AppError
  | .refreshFailed _ error _ => some error
  | .called _ (.error error) _ => some error
  | _ => none

def AttemptEvent.isCall : AttemptEvent Response → Bool
  | .called _ _ _ => true
  | _ => false

def AttemptEvent.succeeded : AttemptEvent Response → Bool
  | .called _ (.ok _) _ => true
  | _ => false

section

variable [Sha256] (ctx : RetryContext) (attempts : ℕ) (input : AttemptInput Response)
  (entry : KeyEntry)

def tryDemote (shared : Shared) : Shared × Bool :=
  let counted := input.meddle .count shared
  if Router.healthyKeyCount counted.bad ctx.pool ctx.poolId ≤ 1 then (counted, false)
  else
    let marking := input.meddle .mark counted
    ({ marking with bad := Router.markBad marking.bad ctx.poolId entry }, true)

/-- `if attempts > max_retries { return .. } continue`. -/
def exitIfSpent (exit : LoopExit Response) : Option (LoopExit Response) :=
  if ctx.failover.maxRetries < attempts then some exit else none

def onRefreshError (error : AppError) (shared : Shared) : AttemptResult Response :=
  if error.badKey then
    let (shared, demoted) := tryDemote ctx input entry shared
    if demoted then
      { shared := shared
        retried := some entry.identityHash
        event := .refreshFailed entry error true
        exit := exitIfSpent ctx attempts (.refreshFailed error) }
    else ⟨shared, none, .refreshFailed entry error false, some (.refreshFailed error)⟩
  else ⟨shared, none, .refreshFailed entry error false, some (.refreshFailed error)⟩

variable (status : Option UInt16)

def retryOrReturn (retryable : Bool) (msg : String) : Option (LoopExit Response) :=
  if !retryable then some (.notRetryable status msg)
  else exitIfSpent ctx attempts (.maxRetries status msg)

/-- `bad_key_hint && status.is_some_and(|s| bad_status_codes.contains(&s))`. -/
def blamesKey (badKeyHint : Bool) : Bool :=
  badKeyHint && status.any (ctx.failover.badStatusCodes.contains ·)

def onUpstreamError (retryable badKeyHint : Bool) (msg : String) (shared : Shared) :
    AttemptResult Response :=
  let error := AppError.upstream status retryable badKeyHint msg
  if blamesKey ctx status badKeyHint then
    let recording := input.meddle .record shared
    let (_, breaker) :=
      recording.breaker.recordFailure (ctx.poolId, entry.identityHash) input.failedAt
    let (shared, demoted) := tryDemote ctx input entry { recording with breaker := breaker }
    if demoted then
      { shared := shared
        retried := some entry.identityHash
        event := .called entry (.error error) true
        exit := retryOrReturn ctx attempts status retryable msg }
    else
      ⟨shared, none, .called entry (.error error) false, some (.lastHealthyKey status msg)⟩
  else
    { shared := shared
      retried := none
      event := .called entry (.error error) false
      exit := retryOrReturn ctx attempts status retryable msg }

def onChat (shared : Shared) : AttemptResult Response :=
  match input.chat with
  | .ok response =>
    let recording := input.meddle .record shared
    let breaker := recording.breaker.recordSuccess (ctx.poolId, entry.identityHash)
    { shared := { recording with breaker := breaker }
      retried := none
      event := .called entry (.ok response) false
      exit := some (.success response) }
  | .error (.upstream status retryable badKeyHint msg) =>
    onUpstreamError ctx attempts input entry status retryable badKeyHint msg shared
  | .error error => ⟨shared, none, .called entry (.error error) false, some (.other error)⟩

variable (shared : Shared)

def picking : Shared := input.meddle .pick shared

def asking : Shared := input.meddle .allow (picking input shared)

def circuitAnswer (entry : KeyEntry) : Bool × CircuitBreaker :=
  (asking input shared).breaker.allow (ctx.poolId, entry.identityHash) input.allowAt

def asked (entry : KeyEntry) : Shared :=
  { asking input shared with breaker := (circuitAnswer ctx input shared entry).2 }

def runAttempt : AttemptResult Response :=
  match Router.pickKey (picking input shared).bad ctx.pool ctx.poolId input.chosen with
  | none => ⟨picking input shared, none, .noKey, some .poolExhausted⟩
  | some drawn =>
    match ensureFresh drawn input.refresh with
    | .error error => onRefreshError ctx attempts input drawn error (picking input shared)
    | .ok entry =>
      if !(circuitAnswer ctx input shared entry).1 then
        { shared := asked ctx input shared entry
          retried := some entry.identityHash
          event := .denied entry
          exit := exitIfSpent ctx attempts .circuitOpen }
      else onChat ctx attempts input entry (asked ctx input shared entry)

end

variable {status : Option UInt16} {retryable : Bool} {msg : String}

section

variable {ctx : RetryContext} {attempts : ℕ} {exit : LoopExit Response}

theorem exitIfSpent_eq_some {spent : LoopExit Response}
    (hexit : exitIfSpent ctx attempts spent = some exit) : exit = spent := by
  unfold exitIfSpent at hexit
  split_ifs at hexit
  exact (Option.some.inj hexit).symm

theorem retryOrReturn_eq_some
    (hexit : retryOrReturn ctx attempts status retryable msg = some exit) :
    exit = .notRetryable status msg ∨ exit = .maxRetries status msg := by
  unfold retryOrReturn at hexit
  split_ifs at hexit
  · exact .inl (Option.some.inj hexit).symm
  · exact .inr (exitIfSpent_eq_some hexit)

theorem retryOrReturn_eq_none (hnone : (retryOrReturn ctx attempts status retryable msg :
      Option (LoopExit Response)) = none) : retryable = true := by
  unfold retryOrReturn at hnone
  split_ifs at hnone with hretry
  simpa using hretry

end

section

variable [Sha256] (ctx : RetryContext) (attempts : ℕ) (input : AttemptInput Response)
  (shared : Shared)

def failed (entry : KeyEntry) : Shared :=
  let recording := input.meddle .record (asked ctx input shared entry)
  { recording with
    breaker := (recording.breaker.recordFailure
      (ctx.poolId, entry.identityHash) input.failedAt).2 }

def demoted (entry : KeyEntry) : Shared :=
  let marking := input.meddle .mark (input.meddle .count shared)
  { marking with bad := marking.bad.markBad ctx.poolId entry.identityHash }

def CountsAnother : Prop :=
  1 < Router.healthyKeyCount (input.meddle .count shared).bad ctx.pool ctx.poolId

structure Asked (drawn entry : KeyEntry) (allowed : Bool) : Prop where
  pick : Router.pickKey (picking input shared).bad ctx.pool ctx.poolId input.chosen =
    some drawn
  fresh : ensureFresh drawn input.refresh = .ok entry
  answer : (circuitAnswer ctx input shared entry).1 = allowed

structure RefreshRefused (drawn : KeyEntry) (error : AppError) : Prop where
  pick : Router.pickKey (picking input shared).bad ctx.pool ctx.poolId input.chosen =
    some drawn
  fresh : ensureFresh drawn input.refresh = .error error

inductive AttemptPath : AttemptResult Response → Prop where
  | noKey
      (hpick : Router.pickKey (picking input shared).bad ctx.pool ctx.poolId input.chosen =
        none) :
      AttemptPath ⟨picking input shared, none, .noKey, some .poolExhausted⟩
  | refreshReturned {drawn : KeyEntry} {error : AppError}
      (hrefused : RefreshRefused ctx input shared drawn error)
      (hbad : error.badKey = false) :
      AttemptPath ⟨picking input shared, none, .refreshFailed drawn error false,
        some (.refreshFailed error)⟩
  | refreshLastKey {drawn : KeyEntry} {error : AppError}
      (hrefused : RefreshRefused ctx input shared drawn error)
      (hbad : error.badKey = true)
      (hlast : ¬ CountsAnother ctx input (picking input shared)) :
      AttemptPath ⟨input.meddle .count (picking input shared), none,
        .refreshFailed drawn error false, some (.refreshFailed error)⟩
  | refreshDemoted {drawn : KeyEntry} {error : AppError}
      (hrefused : RefreshRefused ctx input shared drawn error)
      (hbad : error.badKey = true)
      (hcount : CountsAnother ctx input (picking input shared)) :
      AttemptPath ⟨demoted ctx input (picking input shared) drawn,
        some drawn.identityHash, .refreshFailed drawn error true,
        exitIfSpent ctx attempts (.refreshFailed error)⟩
  | denied {drawn entry : KeyEntry}
      (hasked : Asked ctx input shared drawn entry false) :
      AttemptPath ⟨asked ctx input shared entry, some entry.identityHash,
        .denied entry, exitIfSpent ctx attempts .circuitOpen⟩
  | succeeded {drawn entry : KeyEntry} {response : Response}
      (hasked : Asked ctx input shared drawn entry true)
      (hchat : input.chat = .ok response) :
      AttemptPath
        ⟨{ input.meddle .record (asked ctx input shared entry) with
            breaker := (input.meddle .record (asked ctx input shared entry)).breaker
              |>.recordSuccess (ctx.poolId, entry.identityHash) },
          none, .called entry (.ok response) false, some (.success response)⟩
  | otherError {drawn entry : KeyEntry} {error : AppError}
      (hasked : Asked ctx input shared drawn entry true)
      (hchat : input.chat = .error error)
      (hother : ∀ status retryable badKeyHint msg,
        error ≠ .upstream status retryable badKeyHint msg) :
      AttemptPath ⟨asked ctx input shared entry, none,
        .called entry (.error error) false, some (.other error)⟩
  | upstreamError {drawn entry : KeyEntry} {status : Option UInt16}
      {retryable badKeyHint : Bool} {msg : String}
      (hasked : Asked ctx input shared drawn entry true)
      (hchat : input.chat = .error (.upstream status retryable badKeyHint msg))
      (hblame : blamesKey ctx status badKeyHint = false) :
      AttemptPath ⟨asked ctx input shared entry, none,
        .called entry (.error (.upstream status retryable badKeyHint msg)) false,
        retryOrReturn ctx attempts status retryable msg⟩
  | upstreamLastKey {drawn entry : KeyEntry} {status : Option UInt16}
      {retryable badKeyHint : Bool} {msg : String}
      (hasked : Asked ctx input shared drawn entry true)
      (hchat : input.chat = .error (.upstream status retryable badKeyHint msg))
      (hblame : blamesKey ctx status badKeyHint = true)
      (hlast : ¬ CountsAnother ctx input (failed ctx input shared entry)) :
      AttemptPath ⟨input.meddle .count (failed ctx input shared entry), none,
        .called entry (.error (.upstream status retryable badKeyHint msg)) false,
        some (.lastHealthyKey status msg)⟩
  | upstreamDemoted {drawn entry : KeyEntry} {status : Option UInt16}
      {retryable badKeyHint : Bool} {msg : String}
      (hasked : Asked ctx input shared drawn entry true)
      (hchat : input.chat = .error (.upstream status retryable badKeyHint msg))
      (hblame : blamesKey ctx status badKeyHint = true)
      (hcount : CountsAnother ctx input (failed ctx input shared entry)) :
      AttemptPath ⟨demoted ctx input (failed ctx input shared entry) entry,
        some entry.identityHash,
        .called entry (.error (.upstream status retryable badKeyHint msg)) true,
        retryOrReturn ctx attempts status retryable msg⟩

variable {shared}

theorem tryDemote_of_not_countsAnother (entry : KeyEntry)
    (hlast : ¬ CountsAnother ctx input shared) :
    tryDemote ctx input entry shared = (input.meddle .count shared, false) := by
  unfold CountsAnother at hlast
  unfold tryDemote
  simp only [not_lt] at hlast
  simp only [hlast, if_true]

theorem tryDemote_of_countsAnother (entry : KeyEntry) (hcount : CountsAnother ctx input shared) :
    tryDemote ctx input entry shared = (demoted ctx input shared entry, true) := by
  unfold tryDemote
  simp only [not_le.mpr hcount]
  rfl

variable {drawn : KeyEntry}

theorem onRefreshError_path {error : AppError}
    (hrefused : RefreshRefused ctx input shared drawn error) :
    AttemptPath ctx attempts input shared
      (onRefreshError ctx attempts input drawn error (picking input shared)) := by
  unfold onRefreshError
  cases hbad : error.badKey with
  | false => exact .refreshReturned hrefused hbad
  | true =>
    by_cases hcount : CountsAnother ctx input (picking input shared)
    · simp only [tryDemote_of_countsAnother ctx input drawn hcount]
      exact .refreshDemoted hrefused hbad hcount
    · simp only [tryDemote_of_not_countsAnother ctx input drawn hcount]
      exact .refreshLastKey hrefused hbad hcount

variable {entry : KeyEntry}

theorem onUpstreamError_path {badKeyHint : Bool} (hasked : Asked ctx input shared drawn entry true)
    (hchat : input.chat = .error (.upstream status retryable badKeyHint msg)) :
    AttemptPath ctx attempts input shared
      (onUpstreamError ctx attempts input entry status retryable badKeyHint msg
        (asked ctx input shared entry)) := by
  unfold onUpstreamError
  cases hblame : blamesKey ctx status badKeyHint with
  | false => exact .upstreamError hasked hchat hblame
  | true =>
    have hfailed : ∀ entry : KeyEntry,
        { input.meddle .record (asked ctx input shared entry) with
          breaker := ((input.meddle .record (asked ctx input shared entry)).breaker.recordFailure
              (ctx.poolId, entry.identityHash) input.failedAt).2 } =
          failed ctx input shared entry := fun _ => rfl
    simp only [hfailed]
    by_cases hcount : CountsAnother ctx input (failed ctx input shared entry)
    · simp only [tryDemote_of_countsAnother ctx input entry hcount]
      exact .upstreamDemoted hasked hchat hblame hcount
    · simp only [tryDemote_of_not_countsAnother ctx input entry hcount]
      exact .upstreamLastKey hasked hchat hblame hcount

theorem onChat_path (hasked : Asked ctx input shared drawn entry true) :
    AttemptPath ctx attempts input shared
      (onChat ctx attempts input entry (asked ctx input shared entry)) := by
  unfold onChat
  cases hchat : input.chat with
  | ok => exact .succeeded hasked hchat
  | error error =>
    cases error with
    | upstream =>
      exact onUpstreamError_path ctx attempts input hasked hchat
    | _ => exact .otherError hasked hchat (by simp)

variable (shared)

theorem runAttempt_path :
    AttemptPath ctx attempts input shared (runAttempt ctx attempts input shared) := by
  unfold runAttempt
  cases hpick : Router.pickKey (picking input shared).bad ctx.pool ctx.poolId
      input.chosen with
  | none => exact .noKey hpick
  | some drawn =>
    dsimp only
    cases hfresh : ensureFresh drawn input.refresh with
    | error => exact onRefreshError_path ctx attempts input ⟨hpick, hfresh⟩
    | ok entry =>
      dsimp only
      cases hallow : (circuitAnswer ctx input shared entry).1 with
      | false => exact .denied ⟨hpick, hfresh, hallow⟩
      | true => exact onChat_path ctx attempts input ⟨hpick, hfresh, hallow⟩

end

section

variable [Sha256] (ctx : RetryContext) (inputs : ℕ → AttemptInput Response)

def attemptOf (state : LoopState Response) : AttemptResult Response :=
  runAttempt ctx (state.attempts + 1) (inputs state.attempts) state.shared

def loopBody (state : LoopState Response) :
    Round (LoopState Response) (LoopExit Response × LoopState Response) :=
  match (attemptOf ctx inputs state).exit with
  | none => .again (state.after (attemptOf ctx inputs state))
  | some exit => .leave (exit, state.after (attemptOf ctx inputs state))

/-- The loop with fuel for one attempt more than it may retry. -/
def retryLoop (shared : Shared) : Option (LoopExit Response × LoopState Response) :=
  runLoop (loopBody ctx inputs) (ctx.failover.maxRetries + 1) (.start shared)

variable {ctx inputs} {I : LoopState Response → Prop} {state : LoopState Response}

theorem loopBody_again {next : LoopState Response}
    (hbody : loopBody ctx inputs state = .again next) :
    (attemptOf ctx inputs state).exit = none ∧ next = state.after (attemptOf ctx inputs state) := by
  unfold loopBody at hbody
  cases hexit : (attemptOf ctx inputs state).exit with
  | none =>
    rw [hexit] at hbody
    cases hbody
    exact ⟨rfl, rfl⟩
  | some =>
    rw [hexit] at hbody
    cases hbody

variable {final : LoopState Response} {exit : LoopExit Response} {shared : Shared}

theorem loopBody_leave (hbody : loopBody ctx inputs state = .leave (exit, final)) :
    (attemptOf ctx inputs state).exit = some exit ∧
      final = state.after (attemptOf ctx inputs state) := by
  unfold loopBody at hbody
  cases hexit : (attemptOf ctx inputs state).exit with
  | none =>
    rw [hexit] at hbody
    cases hbody
  | some =>
    rw [hexit] at hbody
    cases hbody
    exact ⟨rfl, rfl⟩

theorem AttemptPath.attempts_le {attempts : ℕ} {input : AttemptInput Response}
    {result : AttemptResult Response} (hpath : AttemptPath ctx attempts input shared result)
    (hagain : result.exit = none) : attempts ≤ ctx.failover.maxRetries := by
  have hspent : ∀ exit : LoopExit Response,
      exitIfSpent ctx attempts exit = none → attempts ≤ ctx.failover.maxRetries := by
    intro exit hnone
    unfold exitIfSpent at hnone
    split_ifs at hnone
    omega
  have hreturn : ∀ status retryable msg,
      (retryOrReturn ctx attempts status retryable msg : Option (LoopExit Response)) = none →
      attempts ≤ ctx.failover.maxRetries := by
    intro status retryable msg hnone
    unfold retryOrReturn at hnone
    split_ifs at hnone
    exact hspent _ hnone
  cases hpath with
  | refreshDemoted => exact hspent _ hagain
  | denied => exact hspent _ hagain
  | upstreamError => exact hreturn _ _ _ hagain
  | upstreamDemoted => exact hreturn _ _ _ hagain
  | _ => cases hagain

variable (ctx inputs) in
theorem exists_retryLoop (shared : Shared) :
    ∃ exit final, retryLoop ctx inputs shared = some (exit, final) := by
  have hrun : ∃ result, retryLoop ctx inputs shared = some result := by
    refine runLoop_terminates (I := fun state => state.attempts ≤ ctx.failover.maxRetries)
      (fun state => ctx.failover.maxRetries - state.attempts) ?_ (Nat.zero_le _)
      (Nat.lt_succ_of_le (Nat.sub_le _ _))
    intro state next _ hbody
    obtain ⟨hexit, rfl⟩ := loopBody_again hbody
    have hle := (runAttempt_path ctx _ _ _).attempts_le hexit
    simp only [LoopState.after]
    omega
  obtain ⟨⟨exit, final⟩, hresult⟩ := hrun
  exact ⟨exit, final, hresult⟩

/-- The rule of the loop: what the attempts that go round again keep, and
what the last one makes of it. -/
theorem retryLoop_rule {Q : LoopExit Response → LoopState Response → Prop}
    (hinit : I (.start shared)) (hagain : ∀ state result, I state →
      AttemptPath ctx (state.attempts + 1) (inputs state.attempts) state.shared result →
      result.exit = none → I (state.after result)) (hleave : ∀ state result exit, I state →
      AttemptPath ctx (state.attempts + 1) (inputs state.attempts) state.shared result →
      result.exit = some exit → Q exit (state.after result))
    (hrun : retryLoop ctx inputs shared = some (exit, final)) : Q exit final := by
  refine runLoop_rule (I := I) (Q := fun result => Q result.1 result.2)
    ?_ ?_ hinit hrun
  · intro state next hstate hbody
    obtain ⟨hexit, rfl⟩ := loopBody_again hbody
    exact hagain state _ hstate (runAttempt_path ctx _ _ _) hexit
  · intro state result hstate hbody
    obtain ⟨hexit, hfinal⟩ := loopBody_leave hbody
    rw [hfinal]
    exact hleave state _ _ hstate (runAttempt_path ctx _ _ _) hexit

theorem retryLoop_keeps (hinit : I (.start shared)) (hkeep : ∀ state result, I state →
      AttemptPath ctx (state.attempts + 1) (inputs state.attempts) state.shared result →
      I (state.after result)) (hrun : retryLoop ctx inputs shared = some (exit, final)) : I final :=
  retryLoop_rule (Q := fun _ final => I final) hinit
    (fun state result hstate hpath _ => hkeep state result hstate hpath)
    (fun state result _ hstate hpath _ => hkeep state result hstate hpath) hrun

end

end LlmProxy.RetryLoop
