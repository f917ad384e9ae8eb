import LlmProxy.GuardedRun
import LlmProxy.CircuitBreaker

/-!
# Trial requests of a half-open circuit

Any number of requests run against one key.  In `HalfOpen` the method compares `half_open_max` with
the recorded successes only.
-/

namespace LlmProxy
namespace HalfOpenTrials

open StepSystem

structure State where
  entry : CircuitEntry
  inFlight : List ℕ
  unrecorded : List ℕ
  trials : ℕ

/-- A request asks `allow`, is in flight until its upstream call ends, and then records a success, a
failure, or nothing (`chat_completions_handler` records a failure only for bad-key statuses). -/
inductive Action where
  | allow (request now : ℕ)
  | succeed (request : ℕ)
  | fail (request now : ℕ)
  | abandon (request : ℕ)
  | reset

def initial (entry : CircuitEntry) : State := ⟨entry, [], [], 0⟩

def State.setEntry (s : State) (entry : CircuitEntry) : State :=
  if entry.state = .halfOpen then { s with entry := entry }
  else { s with entry := entry, unrecorded := [], trials := 0 }

def State.addTrial (s : State) (request : ℕ) : State :=
  if s.entry.state = .halfOpen then
    { s with unrecorded := request :: s.unrecorded, trials := s.trials + 1 }
  else s

def step (policy : BreakerPolicy) (s : State) : Action → Option State
  | .allow request now =>
    if request ∈ s.inFlight then none
    else
      match s.entry.allow policy now with
      | (true, entry) =>
        let next := (s.setEntry entry).addTrial request
        some { next with inFlight := request :: s.inFlight }
      | (false, entry) => some (s.setEntry entry)
  | .succeed request =>
    if request ∈ s.inFlight then
      let answered := { s with
        inFlight := s.inFlight.erase request
        unrecorded := s.unrecorded.erase request }
      some (answered.setEntry (s.entry.recordSuccess policy))
    else none
  | .fail request now =>
    if request ∈ s.inFlight then
      let answered := { s with inFlight := s.inFlight.erase request }
      some (answered.setEntry (s.entry.recordFailure policy now).2)
    else none
  | .abandon request =>
    if request ∈ s.inFlight then
      some { s with inFlight := s.inFlight.erase request }
    else none
  | .reset => some (s.setEntry s.entry.reset)

/-- A request asks a half-open circuit only while fewer than `half_open_max`
trials of this stay are unrecorded or recorded as successful. -/
def WithinAllowance (policy : BreakerPolicy) (s : State) : Action → Prop
  | .allow _ _ =>
    s.entry.state = .halfOpen →
      s.unrecorded.length + s.entry.successes < policy.halfOpenMax
  | _ => True

/-- No two requests overlap, and the outcome of each of them is recorded. -/
def OneByOne (s : State) : Action → Prop
  | .allow _ _ => s.inFlight = []
  | .abandon _ => False
  | _ => True

structure TrialsCounted (policy : BreakerPolicy) (s : State) : Prop where
  outside : s.entry.state ≠ .halfOpen → s.trials = 0
  counted : s.entry.state = .halfOpen →
    s.trials ≤ s.unrecorded.length + s.entry.successes
  bounded : s.trials ≤ policy.halfOpenMax

variable {policy : BreakerPolicy} {s t : State} {request now : ℕ} {entry : CircuitEntry}

theorem initial_trialsCounted (policy : BreakerPolicy) (hentry : entry.state ≠ .halfOpen) :
    TrialsCounted policy (initial entry) := by
  constructor
  · intro _
    rfl
  · intro hstate
    exact absurd hstate hentry
  · exact Nat.zero_le _

theorem allow_cases (policy : BreakerPolicy) (now : ℕ) (entry : CircuitEntry) :
    ((entry.allow policy now).2 = entry ∧
        (entry.state = .opened → (entry.allow policy now).1 = false)) ∨
      (entry.state = .opened ∧
        entry.allow policy now =
          (true, { entry with state := .halfOpen, successes := 0 })) := by
  unfold CircuitEntry.allow
  cases hstate : entry.state with
  | opened =>
    split_ifs
    · exact .inr ⟨rfl, rfl⟩
    · exact .inl ⟨rfl, fun _ => rfl⟩
  | _ => exact .inl ⟨rfl, by simp⟩

theorem TrialsCounted.allow (hinv : TrialsCounted policy s) (hmax : 1 ≤ policy.halfOpenMax)
    (hok : WithinAllowance policy s (.allow request now))
    (hstep : step policy s (.allow request now) = some t) : TrialsCounted policy t := by
  simp only [step] at hstep
  split_ifs at hstep
  rcases allow_cases policy now s.entry with ⟨hsame, _⟩ | ⟨hopened, henter⟩
  · cases hanswer : s.entry.allow policy now with
    | mk answer entry =>
      rw [hanswer] at hstep hsame
      dsimp only at hsame
      subst entry
      by_cases hhalf : s.entry.state = .halfOpen
      · have hroom := hok hhalf
        have hcounted := hinv.counted hhalf
        cases answer with
        | true =>
          simp only [State.setEntry, State.addTrial, hhalf, if_true, Option.some.injEq] at hstep
          subst t
          constructor
          · intro hout
            exact absurd hhalf hout
          · intro _
            simp only [List.length_cons]
            omega
          · show s.trials + 1 ≤ policy.halfOpenMax
            omega
        | false =>
          simp only [State.setEntry, hhalf, Option.some.injEq] at hstep
          subst t
          exact ⟨hinv.outside, hinv.counted, hinv.bounded⟩
      · cases answer with
        | true =>
          simp only [State.setEntry, State.addTrial, hhalf, if_false, Option.some.injEq] at hstep
          subst t
          exact ⟨fun _ => rfl, fun h => absurd h hhalf, Nat.zero_le _⟩
        | false =>
          simp only [State.setEntry, hhalf, Option.some.injEq] at hstep
          subst t
          exact ⟨fun _ => rfl, fun h => absurd h hhalf, Nat.zero_le _⟩
  -- The cooldown is over: a new stay begins, and this request is its first trial.
  · have hzero := hinv.outside (by simp [hopened])
    rw [henter] at hstep
    simp only [State.setEntry, State.addTrial, if_true, Option.some.injEq] at hstep
    subst t
    constructor
    · intro hout
      exact absurd rfl hout
    · intro _
      simp only [List.length_cons]
      omega
    · simp only [hzero]
      exact hmax

theorem TrialsCounted.setEntry {s : State} (hbounded : s.trials ≤ policy.halfOpenMax)
    (hcounted : entry.state = .halfOpen → s.trials ≤ s.unrecorded.length + entry.successes) :
    TrialsCounted policy (s.setEntry entry) := by
  unfold State.setEntry
  split_ifs with hhalf
  · exact ⟨fun h => absurd hhalf h, hcounted, hbounded⟩
  · exact ⟨fun _ => rfl, fun h => absurd h hhalf, Nat.zero_le _⟩

theorem TrialsCounted.succeed (hinv : TrialsCounted policy s)
    (hstep : step policy s (.succeed request) = some t) : TrialsCounted policy t := by
  simp only [step] at hstep
  split_ifs at hstep
  cases hstep
  refine TrialsCounted.setEntry (show s.trials ≤ _ from hinv.bounded) ?_
  unfold CircuitEntry.recordSuccess
  cases hstate : s.entry.state with
  | closed => simp
  | opened => simp [hstate]
  | halfOpen =>
    have hcounted := hinv.counted hstate
    have herase : s.unrecorded.length ≤ (s.unrecorded.erase request).length + 1 := by
      rw [List.length_erase]
      split_ifs <;> omega
    dsimp only
    split_ifs with hfull
    · simp
    · intro _
      show s.trials ≤ (s.unrecorded.erase request).length + (s.entry.successes + 1)
      omega

theorem recordFailure_ne_halfOpen (policy : BreakerPolicy) (now : ℕ) (entry : CircuitEntry) :
    (entry.recordFailure policy now).2.state ≠ .halfOpen := by
  unfold CircuitEntry.recordFailure
  cases hstate : entry.state with
  | closed =>
    dsimp only
    split_ifs <;> simp
  | opened => simp [hstate]
  | halfOpen => simp

theorem TrialsCounted.fail (hinv : TrialsCounted policy s)
    (hstep : step policy s (.fail request now) = some t) : TrialsCounted policy t := by
  simp only [step] at hstep
  split_ifs at hstep
  cases hstep
  exact TrialsCounted.setEntry (show s.trials ≤ _ from hinv.bounded) fun hhalf =>
    absurd hhalf (recordFailure_ne_halfOpen policy now s.entry)

theorem TrialsCounted.step {action : Action} (hinv : TrialsCounted policy s)
    (hmax : 1 ≤ policy.halfOpenMax) (hok : WithinAllowance policy s action)
    (hstep : step policy s action = some t) : TrialsCounted policy t := by
  cases action with
  | allow => exact hinv.allow hmax hok hstep
  | succeed => exact hinv.succeed hstep
  | fail => exact hinv.fail hstep
  | abandon =>
    simp only [HalfOpenTrials.step] at hstep
    split_ifs at hstep
    cases hstep
    exact ⟨hinv.outside, hinv.counted, hinv.bounded⟩
  | reset =>
    simp only [HalfOpenTrials.step, Option.some.injEq] at hstep
    subst t
    apply TrialsCounted.setEntry hinv.bounded
    simp [CircuitEntry.reset]

structure Recorded (policy : BreakerPolicy) (s : State) : Prop where
  inFlight : s.unrecorded.Sublist s.inFlight
  room : s.entry.state = .halfOpen → s.entry.successes < policy.halfOpenMax

theorem Recorded.withinAllowance {action : Action} (hrecorded : Recorded policy s)
    (hok : OneByOne s action) : WithinAllowance policy s action := by
  cases action with
  | allow =>
    intro hhalf
    have hnone := hrecorded.inFlight
    rw [show s.inFlight = [] from hok, List.sublist_nil] at hnone
    rw [hnone, List.length_nil, Nat.zero_add]
    exact hrecorded.room hhalf
  | _ => trivial

theorem Recorded.setEntry
    (hinFlight : entry.state = .halfOpen → s.unrecorded.Sublist s.inFlight)
    (hroom : entry.state = .halfOpen → entry.successes < policy.halfOpenMax) :
    Recorded policy (s.setEntry entry) := by
  unfold State.setEntry
  split_ifs with hhalf
  · exact ⟨hinFlight hhalf, hroom⟩
  · exact ⟨List.nil_sublist _, hroom⟩

theorem Recorded.step {action : Action} (hrecorded : Recorded policy s)
    (hmax : 1 ≤ policy.halfOpenMax) (hok : OneByOne s action)
    (hstep : step policy s action = some t) : Recorded policy t := by
  cases action with
  | allow request now =>
    have hentered : Recorded policy (s.setEntry (s.entry.allow policy now).2) := by
      refine Recorded.setEntry (fun _ => hrecorded.inFlight) ?_
      rcases allow_cases policy now s.entry with ⟨hsame, -⟩ | ⟨-, henter⟩
      · rw [hsame]
        exact hrecorded.room
      · rw [henter]
        exact fun _ => hmax
    have hkept : (s.setEntry (s.entry.allow policy now).2).inFlight = s.inFlight := by
      unfold State.setEntry
      split_ifs <;> rfl
    simp only [HalfOpenTrials.step] at hstep
    split_ifs at hstep
    cases hanswer : s.entry.allow policy now with
    | mk answer entry =>
      rw [hanswer] at hstep hentered hkept
      cases answer with
      | false =>
        cases hstep
        exact hentered
      | true =>
        cases hstep
        have hsub := hentered.inFlight
        rw [hkept] at hsub
        unfold State.addTrial
        split_ifs with hhalf
        · exact ⟨hsub.cons_cons request, hentered.room⟩
        · exact ⟨hsub.cons request, hentered.room⟩
  | succeed request =>
    simp only [HalfOpenTrials.step] at hstep
    split_ifs at hstep
    cases hstep
    refine Recorded.setEntry (fun _ => hrecorded.inFlight.erase request) ?_
    unfold CircuitEntry.recordSuccess
    cases hstate : s.entry.state with
    | closed => simp
    | opened => simp [hstate]
    | halfOpen =>
      dsimp only
      split_ifs with hfull
      · simp
      · exact fun _ => not_le.mp hfull
  | fail request now =>
    simp only [HalfOpenTrials.step] at hstep
    split_ifs at hstep
    cases hstep
    have hout := recordFailure_ne_halfOpen policy now s.entry
    exact Recorded.setEntry (fun hhalf => absurd hhalf hout) fun hhalf => absurd hhalf hout
  | abandon => exact hok.elim
  | reset =>
    cases hstep
    exact Recorded.setEntry (by simp [CircuitEntry.reset]) (by simp [CircuitEntry.reset])

/-- No stay in `HalfOpen` sees more than `half_open_max` calls of `allow` answered with true, if
the requests keep within the allowance, and also if they come one after the other. -/
theorem trials_le_halfOpenMax_of_withinAllowance
    (policy : BreakerPolicy) (hmax : 1 ≤ policy.halfOpenMax)
    (entry : CircuitEntry) (hentry : entry.state ≠ .halfOpen)
    (actions : List Action) (s : State)
    (hrun : GuardedRun (step policy) (WithinAllowance policy) (initial entry) actions s ∨
      GuardedRun (step policy) OneByOne (initial entry) actions s) :
    s.trials ≤ policy.halfOpenMax := by
  have hcounted := initial_trialsCounted policy hentry
  rcases hrun with hrun | hrun
  · have hinv : TrialsCounted policy s :=
      hrun.invariant (TrialsCounted policy) (fun _ _ _ hs hok hnext => hs.step hmax hok hnext)
        hcounted
    exact hinv.bounded
  · have hinv : TrialsCounted policy s ∧ Recorded policy s := by
      refine hrun.invariant (fun s => TrialsCounted policy s ∧ Recorded policy s) ?_
        ⟨hcounted, .slnil, fun hhalf => absurd hhalf hentry⟩
      rintro s action t ⟨htrials, hrecorded⟩ hok hnext
      exact ⟨htrials.step hmax (hrecorded.withinAllowance hok) hnext,
        hrecorded.step hmax hok hnext⟩
    exact hinv.1.bounded

/-- With the default policy: five failures open the circuit, and one cooldown
later four requests are let through before any of them is answered. -/
def overlappingTrials : List Action :=
  [.allow 0 0, .fail 0 0, .allow 0 0, .fail 0 0, .allow 0 0, .fail 0 0,
    .allow 0 0, .fail 0 0, .allow 0 0, .fail 0 0,
    .allow 1 60000000000, .allow 2 60000000000,
    .allow 3 60000000000, .allow 4 60000000000]

theorem overlapping_trials_exceed_halfOpenMax :
    ¬ ∀ (policy : BreakerPolicy) (actions : List Action) (s : State),
      Run (step policy) (initial .new) actions s →
      s.entry.state = .halfOpen → s.trials ≤ policy.halfOpenMax := by
  intro hclaim
  obtain ⟨s, hs⟩ : ∃ s, runActions (step .defaults) (initial .new)
      overlappingTrials = some s := Option.isSome_iff_exists.mp (by decide)
  have hfinal : (s.entry.state, s.trials) = (.halfOpen, 4) := by
    have hmap : (runActions (step .defaults) (initial .new) overlappingTrials).map
        (fun u => (u.entry.state, u.trials)) = some (.halfOpen, 4) := by decide
    rw [hs] at hmap
    exact Option.some.inj hmap
  have hbound := hclaim .defaults overlappingTrials s (run_of_runActions hs)
    (congrArg Prod.fst hfinal)
  have htrials : s.trials = 4 := congrArg Prod.snd hfinal
  simp [htrials, BreakerPolicy.defaults] at hbound

theorem answered_trials_within_halfOpenMax :
    ∃ s, GuardedRun (step ⟨1, 0, 2⟩) (WithinAllowance ⟨1, 0, 2⟩) (initial .new)
        [.allow 0 0, .fail 0 0, .allow 1 0, .succeed 1, .allow 2 0] s ∧
      s.entry.state = .halfOpen ∧ s.trials = 2 ∧ s.trials ≤ 2 := by
  have hrun : GuardedRun (step ⟨1, 0, 2⟩) (WithinAllowance ⟨1, 0, 2⟩) (initial .new)
      [.allow 0 0, .fail 0 0, .allow 1 0, .succeed 1, .allow 2 0] _ :=
    .snoc (.snoc (.snoc (.snoc (.snoc (.nil _) (by simp [WithinAllowance, initial,
      CircuitEntry.new]) rfl) trivial rfl) (fun h => absurd h (by decide)) rfl)
      trivial rfl) (fun _ => by decide) rfl
  exact ⟨_, hrun, rfl, rfl, trials_le_halfOpenMax_of_withinAllowance ⟨1, 0, 2⟩ (by decide) .new
      (by decide) _ _ (.inl hrun)⟩

end HalfOpenTrials
end LlmProxy
