import LlmProxy.CircuitBreaker
import Mathlib.Data.List.DropRight

/-!
# The breaker refines a per-key automaton

The reference automaton of one key knows only the calls made on that key.  Its thresholds are stated
over the recorded history, where the breaker keeps two counters, an instant and a state cell.
-/

namespace LlmProxy

open List Function CircuitBreaker
namespace CircuitAutomaton

inductive Call where
  | allow
  | recordSuccess
  | recordFailure
  | reset
  deriving DecidableEq, Repr

structure TimedCall where
  key : CircuitKey
  call : Call
  now : ℕ
  deriving DecidableEq, Repr

structure CallRecord where
  call : TimedCall
  before : CircuitState
  answer : Option Bool
  after : CircuitState
  deriving DecidableEq, Repr

def CallRecord.entersOpen (record : CallRecord) : Bool :=
  record.before ≠ .opened && record.after = .opened

def perform (breaker : CircuitBreaker) (call : TimedCall) : Option Bool × CircuitBreaker :=
  match call.call with
  | .allow =>
    let (allowed, next) := breaker.allow call.key call.now
    (some allowed, next)
  | .recordSuccess => (none, breaker.recordSuccess call.key)
  | .recordFailure =>
    let (tripped, next) := breaker.recordFailure call.key call.now
    (some tripped, next)
  | .reset => (none, breaker.reset call.key)

def runCalls : CircuitBreaker → List TimedCall → List CallRecord × CircuitBreaker
  | breaker, [] => ([], breaker)
  | breaker, call :: rest =>
    let (answer, next) := perform breaker call
    let (records, last) := runCalls next rest
    (⟨call, breaker.state call.key, answer, next.state call.key⟩ :: records, last)

/-! ## The reference automaton -/

structure Reference where
  phase : CircuitState
  openedAt : ℕ
  since : List Call

variable (calls : List Call)

/-- Since the latest of the entry into `Closed`, the last success and the last reset. -/
def failuresRecorded : ℕ :=
  (calls.rtakeWhile fun call =>
    call ≠ .recordSuccess && call ≠ .reset).count .recordFailure

/-- Since the entry into `HalfOpen`. -/
def successesRecorded : ℕ :=
  calls.count .recordSuccess

namespace Reference

def initial : Reference := ⟨.closed, 0, []⟩

def stay (ref : Reference) (call : Call) : Reference :=
  { ref with since := ref.since ++ [call] }

def enter (ref : Reference) (phase : CircuitState) : Reference :=
  { ref with phase := phase, since := [] }

def enterOpen (now : ℕ) : Reference := ⟨.opened, now, []⟩

def step (policy : BreakerPolicy) (ref : Reference) (now : ℕ) :
    Call → Option Bool × Reference
  | .allow =>
    match ref.phase with
    | .closed => (some true, ref.stay .allow)
    | .opened =>
      if ref.openedAt + policy.cooldown ≤ now then
        (some true, ref.enter .halfOpen)
      else (some false, ref.stay .allow)
    | .halfOpen => (some true, ref.stay .allow)
  | .recordSuccess =>
    match ref.phase with
    | .closed => (none, ref.stay .recordSuccess)
    | .opened => (none, ref.stay .recordSuccess)
    | .halfOpen =>
      if successesRecorded (ref.since ++ [.recordSuccess]) =
          policy.halfOpenMax then
        (none, ref.enter .closed)
      else (none, ref.stay .recordSuccess)
  | .recordFailure =>
    match ref.phase with
    | .closed =>
      if failuresRecorded (ref.since ++ [.recordFailure]) =
          policy.failureThreshold then
        (some true, enterOpen now)
      else (some false, ref.stay .recordFailure)
    | .opened => (some false, ref.stay .recordFailure)
    | .halfOpen => (some true, enterOpen now)
  | .reset =>
    match ref.phase with
    | .closed => (none, ref.stay .reset)
    | .opened => (none, ref.enter .closed)
    | .halfOpen => (none, ref.enter .closed)

def run (policy : BreakerPolicy) :
    Reference → List TimedCall → List CallRecord × Reference
  | ref, [] => ([], ref)
  | ref, call :: rest =>
    let (answer, next) := ref.step policy call.now call.call
    let (records, last) := run policy next rest
    (⟨call, ref.phase, answer, next.phase⟩ :: records, last)

end Reference

@[simp] theorem failuresRecorded_failure :
    failuresRecorded (calls ++ [.recordFailure]) = failuresRecorded calls + 1 := by
  unfold failuresRecorded
  simp

@[simp] theorem failuresRecorded_allow :
    failuresRecorded (calls ++ [.allow]) = failuresRecorded calls := by
  unfold failuresRecorded
  simp

@[simp] theorem failuresRecorded_success : failuresRecorded (calls ++ [.recordSuccess]) = 0 := by
  unfold failuresRecorded
  rw [rtakeWhile_concat_neg _ _ _ (by decide)]
  rfl

@[simp] theorem failuresRecorded_reset : failuresRecorded (calls ++ [.reset]) = 0 := by
  unfold failuresRecorded
  rw [rtakeWhile_concat_neg _ _ _ (by decide)]
  rfl

/-! ## Simulation of one entry -/

structure Simulates (policy : BreakerPolicy) (clock : ℕ)
    (entry : CircuitEntry) (ref : Reference) : Prop where
  phase : entry.state = ref.phase
  closedCount : ref.phase = .closed →
    entry.failures = failuresRecorded ref.since ∧
      entry.failures < policy.failureThreshold
  openInstant : ref.phase = .opened →
    entry.openedAt = some ref.openedAt ∧ ref.openedAt ≤ clock
  halfOpenCount : ref.phase = .halfOpen →
    entry.successes = successesRecorded ref.since ∧
      entry.successes < policy.halfOpenMax

variable {policy : BreakerPolicy} {clock now : ℕ} {entry : CircuitEntry} {ref : Reference}

theorem simulates_closed (hstate : entry.state = .closed) (hphase : ref.phase = .closed)
    (hcount : entry.failures = failuresRecorded ref.since ∧
      entry.failures < policy.failureThreshold) : Simulates policy clock entry ref where
  phase := hstate.trans hphase.symm
  closedCount _ := hcount
  openInstant h := by simp [hphase] at h
  halfOpenCount h := by simp [hphase] at h

theorem simulates_halfOpen (hstate : entry.state = .halfOpen) (hphase : ref.phase = .halfOpen)
    (hcount : entry.successes = successesRecorded ref.since ∧
      entry.successes < policy.halfOpenMax) : Simulates policy clock entry ref where
  phase := hstate.trans hphase.symm
  closedCount h := by simp [hphase] at h
  openInstant h := by simp [hphase] at h
  halfOpenCount _ := hcount

theorem simulates_enterOpen (hstate : entry.state = .opened)
    (hinstant : entry.openedAt = some now) :
    Simulates policy now entry (Reference.enterOpen now) where
  phase := hstate
  closedCount := nofun
  openInstant _ := ⟨hinstant, le_refl now⟩
  halfOpenCount := nofun

theorem Simulates.later (hsim : Simulates policy clock entry ref) (hclock : clock ≤ now) :
    Simulates policy now entry ref := by
  constructor
  · exact hsim.phase
  · exact hsim.closedCount
  · intro hphase
    exact ⟨(hsim.openInstant hphase).1, (hsim.openInstant hphase).2.trans hclock⟩
  · exact hsim.halfOpenCount

def performEntry (policy : BreakerPolicy) (now : ℕ) (entry : CircuitEntry) :
    Call → Option Bool × CircuitEntry
  | .allow =>
    let (allowed, next) := entry.allow policy now
    (some allowed, next)
  | .recordSuccess => (none, entry.recordSuccess policy)
  | .recordFailure =>
    let (tripped, next) := entry.recordFailure policy now
    (some tripped, next)
  | .reset => (none, entry.reset)

def Matches (policy : BreakerPolicy) (now : ℕ) (entry : CircuitEntry)
    (ref : Reference) (call : Call) : Prop :=
  (performEntry policy now entry call).1 = (ref.step policy now call).1 ∧
    Simulates policy now (performEntry policy now entry call).2
      (ref.step policy now call).2

theorem Simulates.stay (hsim : Simulates policy now entry ref) (call : Call)
    (hclosed : ref.phase = .closed →
      failuresRecorded (ref.since ++ [call]) = failuresRecorded ref.since)
    (hhalf : ref.phase = .halfOpen →
      successesRecorded (ref.since ++ [call]) = successesRecorded ref.since) :
    Simulates policy now entry (ref.stay call) := by
  constructor
  · exact hsim.phase
  · intro hphase
    simp only [Reference.stay]
    rw [hclosed hphase]
    exact hsim.closedCount hphase
  · exact hsim.openInstant
  · intro hphase
    simp only [Reference.stay]
    rw [hhalf hphase]
    exact hsim.halfOpenCount hphase

theorem Simulates.allow (hsim : Simulates policy now entry ref)
    (hhalfOpenMax : 1 ≤ policy.halfOpenMax) : Matches policy now entry ref .allow := by
  have hstay : Simulates policy now entry (ref.stay .allow) :=
    hsim.stay .allow (fun _ => failuresRecorded_allow _)
      (fun _ => by simp [successesRecorded])
  unfold Matches performEntry CircuitEntry.allow Reference.step
  rw [hsim.phase]
  cases hphase : ref.phase with
  | closed => exact ⟨rfl, hstay⟩
  | opened =>
    obtain ⟨hinstant, hpast⟩ := hsim.openInstant hphase
    have helapsed : entry.cooldownElapsed policy now =
        decide (ref.openedAt + policy.cooldown ≤ now) := by
      simp only [CircuitEntry.cooldownElapsed, hinstant]
      congr 1
      apply propext
      omega
    dsimp only
    rw [helapsed]
    by_cases hcooldown : ref.openedAt + policy.cooldown ≤ now
    · simp only [hcooldown, decide_true, if_true]
      exact ⟨trivial, simulates_halfOpen rfl rfl ⟨rfl, hhalfOpenMax⟩⟩
    · simp only [hcooldown]
      exact ⟨rfl, hstay⟩
  | halfOpen =>
    have hcount := (hsim.halfOpenCount hphase).2
    simp only [hcount, decide_true]
    exact ⟨trivial, hstay⟩

theorem Simulates.recordSuccess (hsim : Simulates policy now entry ref)
    (hthreshold : 1 ≤ policy.failureThreshold) : Matches policy now entry ref .recordSuccess := by
  unfold Matches performEntry CircuitEntry.recordSuccess Reference.step
  rw [hsim.phase]
  cases hphase : ref.phase with
  | closed =>
    exact ⟨rfl, simulates_closed rfl hphase ⟨(failuresRecorded_success _).symm, hthreshold⟩⟩
  | opened =>
    refine ⟨rfl, hsim.stay .recordSuccess ?_ ?_⟩
    · intro h
      simp [hphase] at h
    · intro h
      simp [hphase] at h
  | halfOpen =>
    obtain ⟨hsuccesses, hbound⟩ := hsim.halfOpenCount hphase
    have hnext : successesRecorded (ref.since ++ [.recordSuccess]) =
        entry.successes + 1 := by
      simp [hsuccesses, successesRecorded]
    rw [hnext]
    by_cases hfull : entry.successes + 1 = policy.halfOpenMax
    · simp only [hfull, le_refl, if_true]
      exact ⟨trivial, simulates_closed rfl rfl ⟨rfl, hthreshold⟩⟩
    · have hmore : ¬ policy.halfOpenMax ≤ entry.successes + 1 := by omega
      simp only [hfull, hmore, if_false]
      exact ⟨trivial, simulates_halfOpen rfl hphase ⟨hnext.symm, by simpa using hmore⟩⟩

theorem Simulates.recordFailure (hsim : Simulates policy now entry ref) :
    Matches policy now entry ref .recordFailure := by
  unfold Matches performEntry CircuitEntry.recordFailure Reference.step
  rw [hsim.phase]
  cases hphase : ref.phase with
  | closed =>
    obtain ⟨hfailures, hbound⟩ := hsim.closedCount hphase
    rw [failuresRecorded_failure, ← hfailures]
    by_cases hfull : entry.failures + 1 = policy.failureThreshold
    · simp only [hfull, le_refl, if_true]
      exact ⟨trivial, simulates_enterOpen rfl rfl⟩
    · have hmore : ¬ policy.failureThreshold ≤ entry.failures + 1 := by omega
      simp only [hfull, hmore, if_false]
      refine ⟨trivial, simulates_closed rfl hphase ?_⟩
      simp only [Reference.stay, failuresRecorded_failure]
      exact ⟨by rw [hfailures], by omega⟩
  | opened =>
    refine ⟨rfl, hsim.stay .recordFailure ?_ ?_⟩
    · intro h
      simp [hphase] at h
    · intro h
      simp [hphase] at h
  | halfOpen => exact ⟨rfl, simulates_enterOpen rfl rfl⟩

theorem matches_reset (hthreshold : 1 ≤ policy.failureThreshold) :
    Matches policy now entry ref .reset := by
  unfold Matches Reference.step
  cases hphase : ref.phase with
  | closed =>
    exact ⟨rfl, simulates_closed rfl hphase ⟨(failuresRecorded_reset _).symm, hthreshold⟩⟩
  | _ => exact ⟨rfl, simulates_closed rfl rfl ⟨rfl, hthreshold⟩⟩

theorem Simulates.step (hsim : Simulates policy clock entry ref) (hclock : clock ≤ now)
    (hthreshold : 1 ≤ policy.failureThreshold)
    (hhalfOpenMax : 1 ≤ policy.halfOpenMax) (call : Call) : Matches policy now entry ref call := by
  have hnow := hsim.later hclock
  cases call with
  | allow => exact hnow.allow hhalfOpenMax
  | recordSuccess => exact hnow.recordSuccess hthreshold
  | recordFailure => exact hnow.recordFailure
  | reset => exact matches_reset hthreshold

/-! ## From entries to the breaker -/

variable (breaker : CircuitBreaker) (call : TimedCall)

theorem perform_answer :
    (perform breaker call).1 =
      (performEntry breaker.policy call.now (breaker.entryOf call.key) call.call).1 := by
  obtain ⟨key, call, now⟩ := call
  cases call <;> rfl

theorem entryOf_perform (key : CircuitKey) :
    (perform breaker call).2.entryOf key =
      if key = call.key then
        (performEntry breaker.policy call.now (breaker.entryOf call.key) call.call).2
      else breaker.entryOf key := by
  obtain ⟨own, call, now⟩ := call
  cases call with
  | recordFailure => exact entryOf_recordFailure ..
  | reset => exact entryOf_reset ..
  | _ => exact entryOf_update ..

theorem perform_policy : (perform breaker call).2.policy = breaker.policy := by
  obtain ⟨key, call, now⟩ := call
  cases call with
  | recordFailure =>
    simp only [perform, CircuitBreaker.recordFailure]
    split_ifs <;> rfl
  | reset =>
    simp only [perform, CircuitBreaker.reset]
    split <;> rfl
  | _ => rfl

theorem performEntry_entersOpen (policy : BreakerPolicy) (now : ℕ)
    (entry : CircuitEntry) (call : Call) :
    (entry.state ≠ .opened ∧ (performEntry policy now entry call).2.state = .opened) ↔
      (call = .recordFailure ∧ (performEntry policy now entry call).1 = some true) := by
  cases call with
  | allow =>
    unfold performEntry CircuitEntry.allow
    cases hstate : entry.state <;> simp [hstate]
  | recordSuccess =>
    unfold performEntry CircuitEntry.recordSuccess
    cases hstate : entry.state with
    | halfOpen =>
      dsimp only
      split_ifs <;> simp
    | _ => simp
  | recordFailure =>
    unfold performEntry CircuitEntry.recordFailure
    cases hstate : entry.state with
    | closed =>
      dsimp only
      split_ifs <;> simp
    | _ => simp
  | reset => simp [performEntry, CircuitEntry.reset]

theorem perform_totalTrips :
    (perform breaker call).2.totalTrips =
      breaker.totalTrips +
        if call.call = .recordFailure ∧ (perform breaker call).1 = some true then 1
        else 0 := by
  obtain ⟨key, call, now⟩ := call
  cases call with
  | recordFailure =>
    simp only [perform, CircuitBreaker.recordFailure, true_and, Option.some.injEq]
    split_ifs <;> rfl
  | reset =>
    simp only [perform, CircuitBreaker.reset]
    split <;> rfl
  | _ => rfl

theorem perform_entersOpen :
    (breaker.state call.key ≠ .opened ∧
        (perform breaker call).2.state call.key = .opened) ↔
      (call.call = .recordFailure ∧ (perform breaker call).1 = some true) := by
  rw [state_eq, state_eq, entryOf_perform, if_pos rfl, perform_answer]
  exact performEntry_entersOpen breaker.policy call.now _ call.call

def ownCalls (key : CircuitKey) (calls : List TimedCall) : List TimedCall :=
  calls.filter (·.key = key)

def ownRecords (key : CircuitKey) (records : List CallRecord) : List CallRecord :=
  records.filter (·.call.key = key)

/-- Runs on any keys: the induction keeps one automaton per key, and a call
moves only the automaton of its own key. -/
theorem runCalls_simulates (hthreshold : 1 ≤ policy.failureThreshold)
    (hhalfOpenMax : 1 ≤ policy.halfOpenMax) (calls : List TimedCall) (breaker : CircuitBreaker)
    (refs : CircuitKey → Reference) (clock : ℕ) (hpolicy : breaker.policy = policy)
    (hsim : ∀ key, Simulates policy clock (breaker.entryOf key) (refs key))
    (htimes : calls.Pairwise fun a b => a.now ≤ b.now)
    (hclock : ∀ call ∈ calls, clock ≤ call.now) (key : CircuitKey) :
    ownRecords key (runCalls breaker calls).1 =
        ((refs key).run policy (ownCalls key calls)).1 ∧
      (runCalls breaker calls).2.state key =
        ((refs key).run policy (ownCalls key calls)).2.phase := by
  induction calls generalizing breaker refs clock with
  | nil =>
    refine ⟨rfl, ?_⟩
    rw [state_eq]
    exact (hsim key).phase
  | cons call rest ih =>
    obtain ⟨hlater, htimes⟩ := pairwise_cons.mp htimes
    have hmatch := (hsim call.key).step (hclock call mem_cons_self)
      hthreshold hhalfOpenMax call.call
    let next := ((refs call.key).step policy call.now call.call).2
    have hanswer : (perform breaker call).1 =
        ((refs call.key).step policy call.now call.call).1 := by
      rw [perform_answer, hpolicy]
      exact hmatch.1
    -- The reference of the called key makes its step; for the others only time passes.
    have hnextSim : ∀ other, Simulates policy call.now
        ((perform breaker call).2.entryOf other)
        (Function.update refs call.key next other) := by
      intro other
      rw [entryOf_perform, hpolicy]
      by_cases hother : other = call.key
      · subst other
        rw [if_pos rfl, update_self]
        exact hmatch.2
      · rw [if_neg hother, update_of_ne hother]
        exact (hsim other).later (hclock call mem_cons_self)
    have hrest := ih (perform breaker call).2 (Function.update refs call.key next)
      call.now ((perform_policy breaker call).trans hpolicy) hnextSim htimes hlater
    by_cases hkey : call.key = key
    · subst key
      rw [update_self] at hrest
      have hbefore : breaker.state call.key = (refs call.key).phase := by
        rw [state_eq]
        exact (hsim call.key).phase
      have hafter : (perform breaker call).2.state call.key = next.phase := by
        rw [state_eq]
        have hphase := (hnextSim call.key).phase
        rwa [update_self] at hphase
      simp only [runCalls, ownRecords, ownCalls, filter_cons, decide_true, if_true]
      rw [hbefore, hafter, hanswer]
      exact ⟨congrArg _ hrest.1, hrest.2⟩
    · rw [update_of_ne (fun h => hkey h.symm)] at hrest
      simp only [runCalls, ownRecords, ownCalls, filter_cons, hkey]
      exact hrest

theorem runCalls_totalTrips (calls : List TimedCall) (breaker : CircuitBreaker) :
    (runCalls breaker calls).2.totalTrips =
      breaker.totalTrips +
        ((runCalls breaker calls).1.filter CallRecord.entersOpen).length := by
  induction calls generalizing breaker with
  | nil => rfl
  | cons call rest ih =>
    have hone := perform_totalTrips breaker call
    have henters := perform_entersOpen breaker call
    simp only [runCalls, filter_cons]
    rw [ih]
    by_cases htrip : call.call = .recordFailure ∧
        (perform breaker call).1 = some true
    · have hopen := henters.mpr htrip
      rw [if_pos htrip] at hone
      simp only [CallRecord.entersOpen, hopen.1, hopen.2, ne_eq,
        not_false_eq_true, decide_true, Bool.and_self, if_true, length_cons]
      omega
    · have hclosed := mt henters.mp htrip
      rw [if_neg htrip] at hone
      have hno : CallRecord.entersOpen
          ⟨call, breaker.state call.key, (perform breaker call).1,
            (perform breaker call).2.state call.key⟩ = false := by
        simp only [CallRecord.entersOpen]
        simpa using hclosed
      simp only [hno, Bool.false_eq_true, if_false]
      omega

theorem runCalls_failure_answers (calls : List TimedCall) (breaker : CircuitBreaker) :
    ∀ record ∈ (runCalls breaker calls).1,
      (record.call.call = .recordFailure ∧ record.answer = some true) ↔
        record.entersOpen = true := by
  induction calls generalizing breaker with
  | nil => simp [runCalls]
  | cons call rest ih =>
    intro record hrecord
    simp only [runCalls, mem_cons] at hrecord
    rcases hrecord with rfl | hrest
    · simpa [CallRecord.entersOpen] using (perform_entersOpen breaker call).symm
    · exact ih _ record hrest

/-- The breaker behaves, key by key, as the reference automaton run on the
calls of that key alone; `record_failure` reports exactly the entries into
`Open`, and `total_trips` counts them. -/
theorem runCalls_refines_reference (policy : BreakerPolicy)
    (hthreshold : 1 ≤ policy.failureThreshold)
    (hhalfOpenMax : 1 ≤ policy.halfOpenMax)
    (calls : List TimedCall)
    (htimes : calls.Pairwise fun a b => a.now ≤ b.now) :
    let run := runCalls (.new policy) calls
    (∀ key,
      ownRecords key run.1 = (Reference.initial.run policy (ownCalls key calls)).1 ∧
      run.2.state key = (Reference.initial.run policy (ownCalls key calls)).2.phase) ∧
    (∀ record ∈ run.1, record.call.call = .recordFailure →
      (record.answer = some true ↔ record.before ≠ .opened ∧ record.after = .opened)) ∧
    run.2.totalTrips = (run.1.filter CallRecord.entersOpen).length := by
  refine ⟨?_, ?_, ?_⟩
  · exact runCalls_simulates hthreshold hhalfOpenMax calls (.new policy)
      (fun _ => .initial) 0 rfl (fun _ => simulates_closed rfl rfl ⟨rfl, hthreshold⟩) htimes
      (fun _ _ => Nat.zero_le _)
  · intro record hrecord hfailure
    have hanswer := runCalls_failure_answers calls (.new policy) record hrecord
    simpa [CallRecord.entersOpen, hfailure] using hanswer
  · have htrips := runCalls_totalTrips calls (.new policy)
    simpa [CircuitBreaker.new] using htrips

def tripAndRecover : List TimedCall :=
  let key : CircuitKey := ("p", "k")
  [⟨key, .recordFailure, 0⟩, ⟨key, .recordFailure, 1⟩, ⟨key, .allow, 2⟩,
    ⟨key, .allow, 1000000001⟩, ⟨key, .recordFailure, 1000000002⟩]

theorem tripAndRecover_totalTrips :
    (runCalls (.new ⟨2, 1, 1⟩) tripAndRecover).2.totalTrips =
        ((runCalls (.new ⟨2, 1, 1⟩) tripAndRecover).1.filter
          CallRecord.entersOpen).length ∧
      (runCalls (.new ⟨2, 1, 1⟩) tripAndRecover).2.totalTrips = 2 :=
  ⟨(runCalls_refines_reference ⟨2, 1, 1⟩ (by decide) (by decide)
    tripAndRecover (by decide)).2.2, by decide⟩

/-- A half-open circuit grants trials, and an open one was opened by a recorded failure. -/
structure Recovers (policy : BreakerPolicy) (calls : List TimedCall) (key : CircuitKey)
    (entry : CircuitEntry) : Prop where
  halfOpen : entry.state = .halfOpen → entry.successes < policy.halfOpenMax
  opened : entry.state = .opened →
    ∃ call ∈ calls, call.key = key ∧ call.call = .recordFailure ∧ entry.openedAt = some call.now

section

variable {policy : BreakerPolicy} (hmax : 1 ≤ policy.halfOpenMax) {calls : List TimedCall}

include hmax

theorem Recovers.step {call : TimedCall} {entry : CircuitEntry}
    (hrecovers : Recovers policy calls call.key entry) (hmem : call ∈ calls) :
    Recovers policy calls call.key (performEntry policy call.now entry call.call).2 := by
  obtain ⟨hhalfOpen, hopened⟩ := hrecovers
  -- Only a failure opens a circuit; HalfOpen starts without successes and ends at the allowance.
  cases hcall : call.call with
  | allow => constructor <;> grind [performEntry, CircuitEntry.allow]
  | recordSuccess => constructor <;> grind [performEntry, CircuitEntry.recordSuccess]
  | recordFailure => constructor <;> grind [performEntry, CircuitEntry.recordFailure]
  | reset => constructor <;> grind [performEntry, CircuitEntry.reset]

theorem recovers_runCalls {made : List TimedCall} (hmade : made ⊆ calls) {breaker : CircuitBreaker}
    (hpolicy : breaker.policy = policy)
    (hrecovers : ∀ key, Recovers policy calls key (breaker.entryOf key)) :
    (runCalls breaker made).2.policy = policy ∧
      ∀ key, Recovers policy calls key ((runCalls breaker made).2.entryOf key) := by
  induction made generalizing breaker with
  | nil => exact ⟨hpolicy, hrecovers⟩
  | cons call rest ih =>
    obtain ⟨hmem, hrest⟩ := cons_subset.mp hmade
    have hnext : ∀ key, Recovers policy calls key ((perform breaker call).2.entryOf key) := by
      intro key
      rw [entryOf_perform]
      split_ifs with hown
      · rw [hown, hpolicy]
        exact (hrecovers call.key).step hmax hmem
      · exact hrecovers key
    exact ih hrest ((perform_policy breaker call).trans hpolicy) hnext

end

/-- A key is turned away only within the cooldown after a failure recorded for it. -/
theorem denied_only_in_cooldown (policy : BreakerPolicy) (hmax : 1 ≤ policy.halfOpenMax)
    (calls : List TimedCall) (key : CircuitKey) (now : ℕ)
    (hdenied : ((runCalls (.new policy) calls).2.allow key now).1 = false) :
    ∃ call ∈ calls, call.key = key ∧ call.call = .recordFailure ∧
      now < call.now + policy.cooldown := by
  obtain ⟨hpolicy, hrecovers⟩ := recovers_runCalls hmax (Subset.refl calls)
    (rfl : (CircuitBreaker.new policy).policy = policy) fun _ => ⟨nofun, nofun⟩
  obtain ⟨hhalfOpen, hopened⟩ := hrecovers key
  rw [CircuitBreaker.allow, hpolicy] at hdenied
  unfold CircuitEntry.allow at hdenied
  cases hstate : ((runCalls (.new policy) calls).2.entryOf key).state with
  | closed => simp [hstate] at hdenied
  | halfOpen => simp [hstate, hhalfOpen hstate] at hdenied
  | opened =>
    obtain ⟨call, hmem, hkey, hcall, hat⟩ := hopened hstate
    have hcool : ¬ policy.cooldown ≤ now - call.now := by
      intro hcool
      simp [hstate, CircuitEntry.cooldownElapsed, hat, hcool] at hdenied
    exact ⟨call, hmem, hkey, hcall, by omega⟩

theorem tripped_key_denied :
    ((runCalls (.new ⟨2, 1, 1⟩) tripAndRecover).2.allow ("p", "k") 1000000003).1 = false ∧
      ∃ call ∈ tripAndRecover, call.key = ("p", "k") ∧ call.call = .recordFailure ∧
        1000000003 < call.now + 1000000000 :=
  ⟨by decide, denied_only_in_cooldown ⟨2, 1, 1⟩ (by decide) tripAndRecover _ _ (by decide)⟩

end CircuitAutomaton
end LlmProxy
