import LlmProxy.RetryLoop

/-!
# The contract of the retry loop

For every draw, refresh answer, circuit decision and upstream answer, and whatever other tasks do
meanwhile: the loop ends within `max_retries + 1` attempts, a success or an error that may not be
retried is its last attempt, it demotes a key only after an error that blames that key, and it
returns success exactly when an attempt succeeded.
-/

namespace LlmProxy.RetryLoop

open List

variable {Response : Type}

namespace AttemptEvent

def Settled (event : AttemptEvent Response) : Prop :=
  event.succeeded = true ∨ ∃ error, event.error = some error ∧ error.retryable = false

/-- The attempt went as its input says: the refresh failed with the answer it got, the
upstream was called and answered so. -/
def Meets [Sha256] (input : AttemptInput Response) : AttemptEvent Response → Prop
  | .refreshFailed entry error _ => ensureFresh entry input.refresh = .error error
  | .called _ outcome _ => outcome = input.chat
  | _ => True

/-- The error the attempt met is one that blames its key: a refresh error with
the bad-key hint, or an upstream error with the hint and a bad status. -/
def BlamesKey (ctx : RetryContext) : AttemptEvent Response → Prop
  | .refreshFailed _ error _ => error.badKey = true
  | .called _ (.error (.upstream status _ badKeyHint _)) _ =>
    badKeyHint = true ∧ ∃ code, status = some code ∧ code ∈ ctx.failover.badStatusCodes
  | _ => False

end AttemptEvent

def BadGrows (before after : Shared) : Prop :=
  ∀ poolId keyHash, before.bad.isBad poolId keyHash = true →
    after.bad.isBad poolId keyHash = true

theorem BadGrows.trans {first second third : Shared}
    (hfirst : BadGrows first second) (hsecond : BadGrows second third) : BadGrows first third :=
  fun poolId keyHash hbad => hsecond poolId keyHash (hfirst poolId keyHash hbad)

def AttemptInput.NoRevival (input : AttemptInput Response) : Prop :=
  ∀ point shared, BadGrows shared (input.meddle point shared)

def AttemptInput.Quiet (input : AttemptInput Response) : Prop :=
  ∀ point shared, input.meddle point shared = shared

section

variable {input : AttemptInput Response} (hquiet : input.Quiet) (shared : Shared)

include hquiet

theorem AttemptInput.Quiet.picking_eq : picking input shared = shared := hquiet .pick shared

theorem AttemptInput.Quiet.asking_eq : asking input shared = shared := by
  rw [asking, hquiet.picking_eq]
  exact hquiet .allow shared

variable [Sha256] {ctx : RetryContext} (entry : KeyEntry)

theorem AttemptInput.Quiet.asked_breaker :
    (asked ctx input shared entry).breaker =
      (shared.breaker.allow (ctx.poolId, entry.identityHash) input.allowAt).2 := by
  simp only [asked, circuitAnswer, hquiet.asking_eq]

theorem AttemptInput.Quiet.asked_bad : (asked ctx input shared entry).bad = shared.bad := by
  simp only [asked, hquiet.asking_eq]

theorem AttemptInput.Quiet.failed_breaker :
    (failed ctx input shared entry).breaker =
      ((asked ctx input shared entry).breaker.recordFailure
        (ctx.poolId, entry.identityHash) input.failedAt).2 := by
  simp only [failed, hquiet .record]

theorem AttemptInput.Quiet.failed_bad : (failed ctx input shared entry).bad = shared.bad := by
  simp only [failed, hquiet .record, hquiet.asked_bad]

theorem AttemptInput.Quiet.demoted_eq :
    demoted ctx input shared entry =
      { shared with bad := shared.bad.markBad ctx.poolId entry.identityHash } := by
  simp only [demoted, hquiet .count, hquiet .mark]

end

variable {exit : LoopExit Response}

section

variable {ctx : RetryContext} {attempts : ℕ} {status : Option UInt16} {response : Response}

theorem blamesKey_iff {badKeyHint : Bool} :
    blamesKey ctx status badKeyHint = true ↔
      badKeyHint = true ∧
        ∃ code, status = some code ∧ code ∈ ctx.failover.badStatusCodes := by
  unfold blamesKey
  cases status with
  | none => simp
  | some => simp

theorem toResult_of_retryOrReturn {retryable : Bool} {msg : String}
    (hexit : retryOrReturn ctx attempts status retryable msg = some exit) :
    exit.toResult ctx ≠ .ok response := by
  rcases retryOrReturn_eq_some hexit with rfl | rfl
  · simp [LoopExit.toResult]
  · simp [LoopExit.toResult]

theorem toResult_of_exitIfSpent {spent : LoopExit Response}
    (hexit : exitIfSpent ctx attempts spent = some exit)
    (hspent : spent.toResult ctx ≠ .ok response) : exit.toResult ctx ≠ .ok response := by
  rw [exitIfSpent_eq_some hexit]
  exact hspent

end

section

variable [Sha256] {ctx : RetryContext} {attempts : ℕ} {input : AttemptInput Response}
  {shared : Shared} {result : AttemptResult Response} {entry drawn : KeyEntry}

theorem RefreshRefused.mem_candidates {error : AppError}
    (hrefused : RefreshRefused ctx input shared drawn error) :
    drawn ∈ Router.candidates (picking input shared).bad ctx.pool ctx.poolId :=
  Router.pickKey_mem hrefused.pick

variable {allowed : Bool}

theorem Asked.mem_candidates (hasked : Asked ctx input shared drawn entry allowed) :
    drawn ∈ Router.candidates (picking input shared).bad ctx.pool ctx.poolId :=
  Router.pickKey_mem hasked.pick

theorem Asked.identityHash_eq (hasked : Asked ctx input shared drawn entry allowed) :
    entry.identityHash = drawn.identityHash :=
  identityHash_ensureFresh hasked.fresh

theorem isBad_demoted (entry : KeyEntry) (before : Shared) :
    (demoted ctx input before entry).bad.isBad ctx.poolId entry.identityHash = true :=
  (BadKeyRegistry.isBad_markBad_iff _ _ _ _ _).mpr (.inr ⟨rfl, rfl⟩)

theorem badGrows_demoted (hquiet : input.NoRevival) (before : Shared) (entry : KeyEntry) :
    BadGrows before (demoted ctx input before entry) := by
  intro poolId keyHash hbad
  have hcounted := hquiet .count _ poolId keyHash hbad
  have hmarking := hquiet .mark _ poolId keyHash hcounted
  exact (BadKeyRegistry.isBad_markBad_iff _ _ _ _ _).mpr (.inl hmarking)

theorem badGrows_failed (hquiet : input.NoRevival) (before : Shared) (entry : KeyEntry) :
    BadGrows before (failed ctx input before entry) := by
  have hpick : BadGrows before (picking input before) := hquiet .pick before
  have hask : BadGrows (picking input before) (asked ctx input before entry) :=
    hquiet .allow (picking input before)
  have hrecord : BadGrows (asked ctx input before entry)
      (failed ctx input before entry) := hquiet .record (asked ctx input before entry)
  exact hpick.trans (hask.trans hrecord)

def AttemptEvent.markIn (poolId : String) (event : AttemptEvent Response)
    (bad : BadKeyRegistry) : BadKeyRegistry :=
  match event.demotedKey with
  | some entry => bad.markBad poolId entry.identityHash
  | none => bad

section

variable (hpath : AttemptPath ctx attempts input shared result)

include hpath

theorem AttemptPath.usedKey_candidate (hused : result.event.usedKey = some entry) :
    ∃ drawn ∈ Router.candidates (picking input shared).bad ctx.pool ctx.poolId,
      entry.identityHash = drawn.identityHash := by
  have hrefresh : ∀ {drawn error}, RefreshRefused ctx input shared drawn error →
      some drawn = some entry →
      ∃ drawn ∈ Router.candidates (picking input shared).bad ctx.pool ctx.poolId,
        entry.identityHash = drawn.identityHash := by
    intro drawn error hrefused heq
    cases heq
    exact ⟨entry, hrefused.mem_candidates, rfl⟩
  have hask : ∀ {drawn fresh allowed}, Asked ctx input shared drawn fresh allowed →
      some fresh = some entry →
      ∃ drawn ∈ Router.candidates (picking input shared).bad ctx.pool ctx.poolId,
        entry.identityHash = drawn.identityHash := by
    intro drawn fresh allowed hasked heq
    cases heq
    exact ⟨drawn, hasked.mem_candidates, hasked.identityHash_eq⟩
  cases hpath with
  | noKey => cases hused
  | refreshReturned hrefused => exact hrefresh hrefused hused
  | refreshLastKey hrefused => exact hrefresh hrefused hused
  | refreshDemoted hrefused => exact hrefresh hrefused hused
  | denied hasked => exact hask hasked hused
  | succeeded hasked => exact hask hasked hused
  | otherError hasked => exact hask hasked hused
  | upstreamError hasked => exact hask hasked hused
  | upstreamLastKey hasked => exact hask hasked hused
  | upstreamDemoted hasked => exact hask hasked hused

theorem AttemptPath.usedKey_not_bad (hused : result.event.usedKey = some entry) :
    (picking input shared).bad.isBad ctx.poolId entry.identityHash = false := by
  obtain ⟨drawn, hdrawn, hhash⟩ := hpath.usedKey_candidate hused
  rw [hhash]
  exact ((Router.selectable_iff _ _ _).mp (Router.mem_candidates.mp hdrawn).2).2

theorem AttemptPath.demotedKey_spec (hdemoted : result.event.demotedKey = some entry) :
    result.event.usedKey = some entry ∧ result.event.BlamesKey ctx ∧
      result.shared.bad.isBad ctx.poolId entry.identityHash = true := by
  cases hpath with
  | refreshDemoted hrefused hbad =>
    cases hdemoted
    exact ⟨rfl, hbad, isBad_demoted _ _⟩
  | upstreamDemoted hasked hchat hblame =>
    cases hdemoted
    exact ⟨rfl, blamesKey_iff.mp hblame, isBad_demoted _ _⟩
  | _ => cases hdemoted

theorem AttemptPath.badGrows (hquiet : input.NoRevival) : BadGrows shared result.shared := by
  have hpick : BadGrows shared (picking input shared) := hquiet .pick shared
  have hask : ∀ entry, BadGrows shared (asked ctx input shared entry) :=
    fun entry => hpick.trans (hquiet .allow (picking input shared))
  cases hpath with
  | noKey => exact hpick
  | refreshReturned => exact hpick
  | refreshLastKey => exact hpick.trans (hquiet .count _)
  | refreshDemoted => exact hpick.trans (badGrows_demoted hquiet _ _)
  | succeeded => exact (hask _).trans (hquiet .record _)
  | upstreamLastKey => exact (badGrows_failed hquiet _ _).trans (hquiet .count _)
  | upstreamDemoted =>
    exact (badGrows_failed hquiet _ _).trans (badGrows_demoted hquiet _ _)
  | _ => exact hask _

theorem AttemptPath.bad_eq_of_quiet (hquiet : input.Quiet) :
    result.shared.bad = result.event.markIn ctx.poolId shared.bad := by
  cases hpath with
  | noKey => exact congrArg Shared.bad (hquiet.picking_eq shared)
  | refreshReturned => exact congrArg Shared.bad (hquiet.picking_eq shared)
  | refreshLastKey =>
    rw [hquiet, hquiet.picking_eq]
    rfl
  | refreshDemoted =>
    rw [hquiet.demoted_eq, hquiet.picking_eq]
    rfl
  | @succeeded _ entry =>
    have hbad : (asked ctx input shared entry).bad = shared.bad :=
      hquiet.asked_bad shared entry
    rw [hquiet]
    exact hbad
  | upstreamLastKey =>
    rw [hquiet]
    exact hquiet.failed_bad shared _
  | upstreamDemoted =>
    rw [hquiet.demoted_eq, hquiet.failed_bad]
    rfl
  | _ => exact hquiet.asked_bad shared _

theorem AttemptPath.meets : result.event.Meets input := by
  cases hpath with
  | refreshReturned hrefused => exact hrefused.fresh
  | refreshLastKey hrefused => exact hrefused.fresh
  | refreshDemoted hrefused => exact hrefused.fresh
  | succeeded _ hchat => exact hchat.symm
  | otherError _ hchat => exact hchat.symm
  | upstreamError _ hchat => exact hchat.symm
  | upstreamLastKey _ hchat => exact hchat.symm
  | upstreamDemoted _ hchat => exact hchat.symm
  | _ => trivial

theorem AttemptPath.not_settled (hagain : result.exit = none) : ¬ result.event.Settled := by
  cases hpath with
  | refreshDemoted hrefused hbad =>
    have hretry := retryable_of_ensureFresh_badKey hrefused.fresh hbad
    simp [AttemptEvent.Settled, AttemptEvent.succeeded, AttemptEvent.error, hretry]
  | denied => simp [AttemptEvent.Settled, AttemptEvent.succeeded, AttemptEvent.error]
  | upstreamError =>
    have hretry := retryOrReturn_eq_none hagain
    simp [AttemptEvent.Settled, AttemptEvent.succeeded, AttemptEvent.error,
      AppError.retryable, hretry]
  | upstreamDemoted =>
    have hretry := retryOrReturn_eq_none hagain
    simp [AttemptEvent.Settled, AttemptEvent.succeeded, AttemptEvent.error,
      AppError.retryable, hretry]
  | _ => cases hagain

theorem AttemptPath.toResult_ok_iff (hexit : result.exit = some exit) :
    (∃ response, exit.toResult ctx = .ok response) ↔ result.event.succeeded = true := by
  have hnever : (∀ response, exit.toResult ctx ≠ .ok response) →
      result.event.succeeded = false →
      ((∃ response, exit.toResult ctx = .ok response) ↔ result.event.succeeded = true) := by
    intro hresult hevent
    simp [hresult, hevent]
  cases hpath with
  | refreshDemoted =>
    exact hnever (fun _ => toResult_of_exitIfSpent hexit (by simp [LoopExit.toResult])) rfl
  | denied =>
    exact hnever (fun _ => toResult_of_exitIfSpent hexit (by simp [LoopExit.toResult])) rfl
  | succeeded =>
    cases hexit
    simp [LoopExit.toResult, AttemptEvent.succeeded]
  | upstreamError => exact hnever (fun _ => toResult_of_retryOrReturn hexit) rfl
  | upstreamDemoted => exact hnever (fun _ => toResult_of_retryOrReturn hexit) rfl
  | _ =>
    cases hexit
    exact hnever (by simp [LoopExit.toResult]) rfl

end

end

section

variable [Sha256] {ctx : RetryContext} {inputs : ℕ → AttemptInput Response} {shared : Shared}
  {exit : LoopExit Response} {final : LoopState Response}

section

variable (hrun : retryLoop ctx inputs shared = some (exit, final))

include hrun

theorem retryLoop_log_length : final.log.length = final.attempts := by
  refine retryLoop_keeps (I := fun state => state.log.length = state.attempts) rfl ?_ hrun
  intro state result hstate _
  simp [LoopState.after, hstate]

theorem retryLoop_meets (i : ℕ) (event : AttemptEvent Response)
    (hevent : final.log[i]? = some event) : event.Meets (inputs i) := by
  refine (retryLoop_keeps (I := fun state => state.log.length = state.attempts ∧
    ∀ i event, state.log[i]? = some event → event.Meets (inputs i))
    ⟨rfl, by simp [LoopState.start]⟩ ?_ hrun).2 i event hevent
  rintro state result ⟨hlength, hmeets⟩ hpath
  refine ⟨by simp [LoopState.after, hlength], ?_⟩
  intro i event hevent
  simp only [LoopState.after, getElem?_append] at hevent
  split_ifs at hevent with hold
  · exact hmeets i event hevent
  · rw [getElem?_singleton] at hevent
    split_ifs at hevent with hlast
    obtain rfl : i = state.attempts := by omega
    cases hevent
    exact hpath.meets

theorem retryLoop_attempts_le : final.attempts ≤ ctx.failover.maxRetries + 1 := by
  refine retryLoop_rule (I := fun state => state.attempts ≤ ctx.failover.maxRetries)
    (Q := fun _ final => final.attempts ≤ ctx.failover.maxRetries + 1)
    (Nat.zero_le _) ?_ ?_ hrun
  · intro state result _ hpath hagain
    exact hpath.attempts_le hagain
  · intro state result exit hstate _ _
    exact Nat.succ_le_succ hstate

theorem retryLoop_settled_last :
    ∃ earlier last, final.log = earlier ++ [last] ∧
      (∀ event ∈ earlier, ¬ event.Settled) ∧
      ((∃ response, exit.toResult ctx = .ok response) ↔ last.succeeded = true) := by
  refine retryLoop_rule (I := fun state => ∀ event ∈ state.log, ¬ event.Settled)
    (Q := fun exit final => ∃ earlier last, final.log = earlier ++ [last] ∧
      (∀ event ∈ earlier, ¬ event.Settled) ∧
      ((∃ response, exit.toResult ctx = .ok response) ↔ last.succeeded = true))
    (by simp [LoopState.start]) ?_ ?_ hrun
  · intro state result hstate hpath hagain event hevent
    simp only [LoopState.after, mem_append, mem_singleton] at hevent
    rcases hevent with hold | rfl
    · exact hstate event hold
    · exact hpath.not_settled hagain
  · intro state result exit hstate hpath hexit
    exact ⟨state.log, result.event, rfl, hstate, hpath.toResult_ok_iff hexit⟩

theorem retryLoop_toResult_ok_iff :
    (∃ response, exit.toResult ctx = .ok response) ↔
      ∃ event ∈ final.log, event.succeeded = true := by
  obtain ⟨earlier, last, hlog, hunsettled, hsuccess⟩ := retryLoop_settled_last hrun
  rw [hsuccess, hlog]
  constructor
  · intro hlast
    exact ⟨last, by simp, hlast⟩
  · rintro ⟨event, hevent, hsucceeded⟩
    rcases mem_append.mp hevent with hold | hnew
    · exact absurd (.inl hsucceeded) (hunsettled event hold)
    · rw [mem_singleton] at hnew
      rwa [← hnew]

theorem retryLoop_demoted_blamed :
    ∀ event ∈ final.log, ∀ entry, event.demotedKey = some entry →
      event.usedKey = some entry ∧ event.BlamesKey ctx := by
  refine retryLoop_keeps (I := fun state => ∀ event ∈ state.log, ∀ entry,
    event.demotedKey = some entry → event.usedKey = some entry ∧ event.BlamesKey ctx)
    (by simp [LoopState.start]) ?_ hrun
  intro state result hstate hpath event hevent entry hdemoted
  simp only [LoopState.after, mem_append, mem_singleton] at hevent
  rcases hevent with hold | rfl
  · exact hstate event hold entry hdemoted
  · have hspec := hpath.demotedKey_spec hdemoted
    exact ⟨hspec.1, hspec.2.1⟩

end

def KeepsOff (earlier later : AttemptEvent Response) : Prop :=
  ∀ demoted used, earlier.demotedKey = some demoted → later.usedKey = some used →
    used.identityHash ≠ demoted.identityHash

/-- Everything the request demoted is still marked, and no attempt used an
identity that was demoted before it. -/
structure DemotedStayOut (ctx : RetryContext) (state : LoopState Response) : Prop where
  marked : ∀ event ∈ state.log, ∀ entry, event.demotedKey = some entry →
    state.shared.bad.isBad ctx.poolId entry.identityHash = true
  keepOff : state.log.Pairwise KeepsOff

theorem DemotedStayOut.after {state : LoopState Response}
    {result : AttemptResult Response} {attempts : ℕ} {input : AttemptInput Response}
    (hinv : DemotedStayOut ctx state) (hrevive : input.NoRevival)
    (hpath : AttemptPath ctx attempts input state.shared result) :
    DemotedStayOut ctx (state.after result) := by
  constructor
  · intro event hevent entry hdemoted
    simp only [LoopState.after, mem_append, mem_singleton] at hevent
    rcases hevent with hold | rfl
    · have hmarked := hinv.marked event hold entry hdemoted
      exact hpath.badGrows hrevive _ _ hmarked
    · exact (hpath.demotedKey_spec hdemoted).2.2
  · simp only [LoopState.after, pairwise_append, pairwise_singleton, mem_singleton, true_and]
    refine ⟨hinv.keepOff, ?_⟩
    intro earlier hearlier later hlater demoted used hdemoted hused hhash
    subst later
    have hmarked := hinv.marked earlier hearlier demoted hdemoted
    have hpicking := hrevive .pick _ _ _ hmarked
    have hfree := hpath.usedKey_not_bad hused
    rw [hhash] at hfree
    simp only [picking] at hfree
    rw [hfree] at hpicking
    cases hpicking

theorem retryLoop_keepsOff (hrun : retryLoop ctx inputs shared = some (exit, final))
    (hrevive : ∀ i, (inputs i).NoRevival) : final.log.Pairwise KeepsOff := by
  have hstay : DemotedStayOut ctx final :=
    retryLoop_keeps (I := DemotedStayOut ctx)
      ⟨by simp [LoopState.start], List.Pairwise.nil⟩
      (fun state _ hstate hpath => hstate.after (hrevive state.attempts) hpath) hrun
  exact hstay.keepOff

def markAll (poolId : String) (log : List (AttemptEvent Response))
    (bad : BadKeyRegistry) : BadKeyRegistry :=
  log.foldl (fun bad event => event.markIn poolId bad) bad

theorem retryLoop_bad_eq (hrun : retryLoop ctx inputs shared = some (exit, final))
    (hquiet : ∀ i, (inputs i).Quiet) :
    final.shared.bad = markAll ctx.poolId final.log shared.bad := by
  refine retryLoop_keeps
    (I := fun state => state.shared.bad = markAll ctx.poolId state.log shared.bad)
    rfl ?_ hrun
  intro state result hstate hpath
  have hbad := hpath.bad_eq_of_quiet (hquiet state.attempts)
  simp only [LoopState.after, markAll, foldl_append]
  rw [hbad, hstate]
  rfl

/-- The contract of one request. -/
theorem retryLoop_contract (ctx : RetryContext) (inputs : ℕ → AttemptInput Response)
    (shared : Shared) :
    ∃ exit final, retryLoop ctx inputs shared = some (exit, final) ∧
      final.log.length = final.attempts ∧
      (∀ (i : ℕ) event, final.log[i]? = some event → event.Meets (inputs i)) ∧
      final.attempts ≤ ctx.failover.maxRetries + 1 ∧
      final.log.countP AttemptEvent.isCall ≤ ctx.failover.maxRetries + 1 ∧
      final.log.Pairwise (fun earlier later => earlier.Settled → later.isCall = false) ∧
      ((∀ i, (inputs i).NoRevival) → final.log.Pairwise KeepsOff) ∧
      (∀ event ∈ final.log, ∀ entry, event.demotedKey = some entry →
        event.usedKey = some entry ∧ event.BlamesKey ctx) ∧
      ((∀ i, (inputs i).Quiet) →
        final.shared.bad = markAll ctx.poolId final.log shared.bad) ∧
      ((∃ response, exit.toResult ctx = .ok response) ↔
        ∃ event ∈ final.log, event.succeeded = true) := by
  obtain ⟨exit, final, hrun⟩ := exists_retryLoop ctx inputs shared
  have hlength := retryLoop_log_length hrun
  have hattempts := retryLoop_attempts_le hrun
  obtain ⟨earlier, last, hlog, hunsettled, -⟩ := retryLoop_settled_last hrun
  refine ⟨exit, final, hrun, hlength, retryLoop_meets hrun, hattempts, ?_, ?_,
    retryLoop_keepsOff hrun, retryLoop_demoted_blamed hrun, retryLoop_bad_eq hrun,
    retryLoop_toResult_ok_iff hrun⟩
  · have hcalls := countP_le_length (p := AttemptEvent.isCall) (l := final.log)
    omega
  · rw [hlog, pairwise_append]
    refine ⟨?_, pairwise_singleton _ _, ?_⟩
    · exact pairwise_of_forall_mem_list fun event hevent _ _ hsettled =>
        absurd hsettled (hunsettled event hevent)
    · intro event hevent _ _ hsettled
      exact absurd hsettled (hunsettled event hevent)

-- a key is refused with a listed status and demoted, the next attempt is answered with the other
example :
    letI := zeroSha256
    (retryLoop ⟨"p", twoKeyPool, ⟨1, [429]⟩⟩ (fun n =>
        { chosen := 0, refresh := .unchanged, allowAt := 0, failedAt := 0,
          chat := if n = 0 then .error (.upstream (some 429) true true "") else .ok () })
      ⟨.new, .new .defaults⟩).map (fun run => run.2.log.map AttemptEvent.demotedKey) =
    some [twoKeyPool.keys.head?, none] :=
  rfl

end

end LlmProxy.RetryLoop
