import LlmProxy.GuardedRun
import LlmProxy.RouterRebuild

/-!
# The health loop

`run_health_loop` of `health.rs`: the loop wakes up, copies the registry of bad keys and probes the
keys of the copy one after the other.  Requests demote keys at any time, also between the two
accesses of `remove_bad`.
-/

namespace LlmProxy

open List Option StepSystem BadKeyRegistry

abbrev BadKey := String × String

structure HealthTask where
  pools : AList fun _ : String => PoolConfig
  providers : AList fun _ : String => UpstreamProvider
  maxProbeRetries : ℕ

inductive ProbeOutcome
  | refreshFailed
  | answered
  | failed
  deriving DecidableEq, Repr

structure HealthState where
  bad : BadKeyRegistry
  /-- A `u32` per key, whose `+= 1` wraps in a release build. -/
  retries : AList fun _ : BadKey => UInt32
  /-- The keys of the current copy that are still to be probed. -/
  queue : List BadKey
  /-- The pool whose empty list is about to be forgotten. -/
  dropping : Option String
  /-- The probes so far and whether they were answered. -/
  probes : List (BadKey × Bool)

inductive HealthAction
  | wake
  | probe (outcome : ProbeOutcome)
  | dropPool
  | demote (key : BadKey)
  deriving DecidableEq, Repr

namespace HealthTask

variable [Sha256] (task : HealthTask)

def keyEntry (key : BadKey) : Option KeyEntry :=
  (task.pools.lookup key.1).bind fun pool =>
    pool.keys.find? fun entry => entry.identityHash = key.2

def target (key : BadKey) : Option (KeyEntry × UpstreamProvider) :=
  (task.keyEntry key).bind fun entry =>
    (task.providers.lookup key.1).map fun provider => (entry, provider)

/-- A key that answers is removed from the registry, failures are counted. -/
def onProbe (s : HealthState) (key : BadKey) (rest : List BadKey) (outcome : ProbeOutcome) :
    HealthState :=
  match task.target key, outcome with
  | none, _ => { s with queue := rest }
  | some _, .refreshFailed => { s with queue := rest }
  | some _, .answered =>
    let (retained, empty) := s.bad.retainOthers key.1 key.2
    { bad := retained
      retries := s.retries.erase key
      queue := rest
      dropping := if empty then some key.1 else none
      probes := s.probes ++ [(key, true)] }
  | some _, .failed =>
    { s with
      retries := s.retries.insert key ((s.retries.lookup key).getD 0 + 1)
      queue := rest
      probes := s.probes ++ [(key, false)] }

def step (s : HealthState) : HealthAction → Option HealthState
  | .wake =>
    if s.queue.isEmpty && s.dropping.isNone then some { s with queue := s.bad.snapshot } else none
  | .probe outcome =>
    match s.dropping, s.queue with
    | none, key :: rest => some (task.onProbe s key rest outcome)
    | _, _ => none
  | .dropPool =>
    s.dropping.map fun pool => { s with bad := s.bad.dropPool pool, dropping := none }
  | .demote key => some { s with bad := s.bad.markBad key.1 key.2 }

end HealthTask

def HealthState.initial : HealthState := ⟨.new, ∅, [], none, []⟩

def HealthState.Marked (s : HealthState) (key : BadKey) : Prop := s.bad.isBad key.1 key.2 = true

instance (s : HealthState) (key : BadKey) : Decidable (s.Marked key) :=
  inferInstanceAs (Decidable (_ = true))

theorem HealthTask.step_probe_eq_some [Sha256] {task : HealthTask} {s t : HealthState}
    {outcome : ProbeOutcome} (hstep : task.step s (.probe outcome) = some t) :
    ∃ key rest, s.dropping = none ∧ s.queue = key :: rest ∧
      t = task.onProbe s key rest outcome := by
  rw [HealthTask.step] at hstep
  cases hdropping : s.dropping with
  | some => simp [hdropping] at hstep
  | none =>
    cases hqueue : s.queue with
    | nil => simp [hqueue] at hstep
    | cons key rest =>
      simp only [hdropping, hqueue, some.injEq] at hstep
      exact ⟨key, rest, rfl, rfl, hstep.symm⟩

/-! ## Consecutive failures -/

def failureStreak (probes : List (BadKey × Bool)) (key : BadKey) : ℕ :=
  ((probes.filter fun probe => probe.1 = key).reverse.takeWhile fun probe => !probe.2).length

theorem failureStreak_append (probes : List (BadKey × Bool)) (probed key : BadKey)
    (answered : Bool) :
    failureStreak (probes ++ [(probed, answered)]) key =
      if probed = key then if answered then 0 else failureStreak probes key + 1
      else failureStreak probes key := by
  unfold failureStreak
  by_cases hkey : probed = key
  · cases answered <;> simp [hkey]
  · simp [hkey]

namespace HealthTask

variable [Sha256] (task : HealthTask)

def Exiled (s : HealthState) (key : BadKey) : Prop :=
  ∃ past, past <+: s.probes ∧ task.maxProbeRetries ≤ failureStreak past key

/-- The counter of a key is its streak of failures modulo `2 ^ 32`. -/
def CountsFailures (s : HealthState) : Prop :=
  ∀ key, (s.retries.lookup key).getD 0 = UInt32.ofNat (failureStreak s.probes key)

variable {task} {s t : HealthState} {action : HealthAction} {key : BadKey}

theorem countsFailures_onProbe (hcounts : CountsFailures s) (key : BadKey) (rest : List BadKey)
    (outcome : ProbeOutcome) : CountsFailures (task.onProbe s key rest outcome) := by
  unfold onProbe
  cases task.target key with
  | none => exact hcounts
  | some =>
    cases outcome with
    | refreshFailed => exact hcounts
    | answered =>
      intro other
      simp only [failureStreak_append, if_true]
      by_cases hkey : key = other
      · rw [hkey, AList.lookup_erase, if_pos rfl]
        rfl
      · rw [if_neg hkey, AList.lookup_erase_ne (Ne.symm hkey)]
        exact hcounts other
    | failed =>
      intro other
      simp only [failureStreak_append, KeyedFold.lookup_insert, Bool.false_eq_true, if_false]
      by_cases hkey : key = other
      · rw [if_pos hkey.symm, if_pos hkey, UInt32.ofNat_add, ← hcounts, hkey]
        rfl
      · rw [if_neg (Ne.symm hkey), if_neg hkey]
        exact hcounts other

theorem countsFailures_step (hcounts : CountsFailures s) (hstep : task.step s action = some t) :
    CountsFailures t := by
  cases action with
  | wake =>
    obtain ⟨-, hwoken⟩ := ite_none_right_eq_some.mp hstep
    cases hwoken
    exact hcounts
  | probe outcome =>
    obtain ⟨key, rest, -, -, rfl⟩ := step_probe_eq_some hstep
    exact countsFailures_onProbe hcounts key rest outcome
  | dropPool =>
    obtain ⟨pool, -, rfl⟩ := map_eq_some_iff.mp hstep
    exact hcounts
  | demote =>
    cases hstep
    exact hcounts

/-- The counters are right in every run of the loop. -/
theorem countsFailures_of_run {actions : List HealthAction}
    (hrun : runActions task.step .initial actions = some t) : CountsFailures t := by
  refine (run_of_runActions hrun).invariant CountsFailures (fun _ _ _ hcounts _ hstep => ?_) ?_
  · exact countsFailures_step hcounts hstep
  · intro key
    rfl

/-- A step that takes the mark of a key away: the key answers a probe, or its pool is
forgotten. -/
def Unmarks (task : HealthTask) (s : HealthState) (action : HealthAction) (key : BadKey) : Prop :=
  match action with
  | .probe .answered => s.queue.head? = some key ∧ (task.target key).isSome = true
  | .dropPool => s.dropping = some key.1
  | _ => False

theorem marked_onProbe_iff {probed : BadKey} {rest : List BadKey} (outcome : ProbeOutcome)
    (hqueue : s.queue = probed :: rest) (hmarked : s.Marked key) :
    (task.onProbe s probed rest outcome).Marked key ↔ ¬ task.Unmarks s (.probe outcome) key := by
  unfold onProbe Unmarks HealthState.Marked
  unfold HealthState.Marked at hmarked
  rw [hqueue]
  cases htarget : task.target probed with
  | none =>
    cases outcome with
    | answered =>
      simp only [hmarked, head?_cons, some.injEq, true_iff, not_and]
      rintro rfl
      simp [htarget]
    | _ => simpa using hmarked
  | some =>
    cases outcome with
    | answered =>
      rw [isBad_iff, badList_retainOthers]
      rw [isBad_iff] at hmarked
      by_cases hpool : key.1 = probed.1
      · rw [hpool] at hmarked
        simp only [hpool, if_true, mem_filter, hmarked, true_and, bne_iff_ne, head?_cons,
          some.injEq]
        constructor
        · rintro hhash ⟨rfl, -⟩
          exact hhash rfl
        · intro hkept hhash
          have hsame : probed = key := Prod.ext hpool.symm hhash.symm
          exact hkept ⟨hsame, by rw [← hsame, htarget]; rfl⟩
      · simp only [hpool, if_false, hmarked, head?_cons, some.injEq, true_iff]
        rintro ⟨rfl, -⟩
        exact hpool rfl
    | _ => simpa using hmarked

theorem marked_step_iff (hstep : task.step s action = some t) (hmarked : s.Marked key) :
    t.Marked key ↔ ¬ task.Unmarks s action key := by
  cases action with
  | wake =>
    obtain ⟨-, hwoken⟩ := ite_none_right_eq_some.mp hstep
    cases hwoken
    simp only [Unmarks, not_false_eq_true, iff_true]
    exact hmarked
  | probe outcome =>
    obtain ⟨probed, rest, -, hqueue, rfl⟩ := step_probe_eq_some hstep
    exact marked_onProbe_iff outcome hqueue hmarked
  | dropPool =>
    obtain ⟨pool, hdropping, rfl⟩ := map_eq_some_iff.mp hstep
    unfold HealthState.Marked Unmarks at *
    rw [isBad_iff] at hmarked ⊢
    rw [badList_dropPool, hdropping]
    by_cases hpool : key.1 = pool
    · simp [hpool]
    · simp [hpool, Ne.symm hpool, hmarked]
  | demote =>
    cases hstep
    simp only [Unmarks, not_false_eq_true, iff_true]
    exact (isBad_markBad_iff _ _ _ _ _).mpr (.inl hmarked)

/-! ## Exile -/

theorem probes_step (hstep : task.step s action = some t) : s.probes <+: t.probes := by
  cases action with
  | wake =>
    obtain ⟨-, hwoken⟩ := ite_none_right_eq_some.mp hstep
    cases hwoken
    exact prefix_rfl
  | probe outcome =>
    obtain ⟨key, rest, -, -, rfl⟩ := step_probe_eq_some hstep
    unfold onProbe
    cases task.target key with
    | none => exact prefix_rfl
    | some =>
      cases outcome with
      | refreshFailed => exact prefix_rfl
      | _ => exact prefix_append _ _
  | dropPool =>
    obtain ⟨pool, -, rfl⟩ := map_eq_some_iff.mp hstep
    exact prefix_rfl
  | demote =>
    cases hstep
    exact prefix_rfl

theorem Exiled.step (hexiled : task.Exiled s key) (hstep : task.step s action = some t) :
    task.Exiled t key := by
  obtain ⟨past, hpast, hstreak⟩ := hexiled
  exact ⟨past, hpast.trans (probes_step hstep), hstreak⟩

def StaysExiled (task : HealthTask) (actions : List HealthAction) : Prop :=
  ∀ past later rest s t, actions = past ++ (later ++ rest) →
    runActions task.step .initial past = some s → runActions task.step s later = some t →
      ∀ key, task.Exiled s key → s.Marked key → t.Marked key

/-- No marked key answers a probe after it was exiled, and no pool is forgotten with such a
key. -/
def ExilesUnanswered (task : HealthTask) (actions : List HealthAction) : Prop :=
  ∀ past action rest s, actions = past ++ action :: rest →
    runActions task.step .initial past = some s →
      ∀ key, task.Exiled s key → s.Marked key → ¬ task.Unmarks s action key

theorem marked_of_continuation {actions : List HealthAction}
    (hunanswered : task.ExilesUnanswered actions) {past later rest : List HealthAction}
    (hactions : actions = past ++ (later ++ rest))
    (hpast : runActions task.step .initial past = some s)
    (hlater : runActions task.step s later = some t) (hexiled : task.Exiled s key)
    (hmarked : s.Marked key) : task.Exiled t key ∧ t.Marked key := by
  -- the induction is on the continuation, with its last step first
  induction later using List.reverseRecOn generalizing t rest with
  | nil =>
    cases hlater
    exact ⟨hexiled, hmarked⟩
  | append_singleton later action ih =>
    obtain ⟨u, hbefore, hstep⟩ := runActions_concat.mp hlater
    have hsplit : actions = past ++ (later ++ action :: rest) := by simpa using hactions
    obtain ⟨huExiled, huMarked⟩ := ih hsplit hbefore
    have hreached : runActions task.step .initial (past ++ later) = some u := by
      rw [runActions_append, hpast]
      exact hbefore
    have hkept := hunanswered (past ++ later) action rest u (by simpa using hsplit) hreached
      key huExiled huMarked
    exact ⟨huExiled.step hstep, (marked_step_iff hstep huMarked).mpr hkept⟩

/-- In a run of the loop an exile lasts exactly if no probe of an exiled key is answered and no
pool is forgotten with one: the count of failures keeps nobody out. -/
theorem staysExiled_iff_unanswered (task : HealthTask) (actions : List HealthAction)
    (final : HealthState) (hrun : runActions task.step .initial actions = some final) :
    task.StaysExiled actions ↔ task.ExilesUnanswered actions := by
  constructor
  · intro hstays past action rest s hactions hpast key hexiled hmarked hunmarks
    rw [hactions, runActions_append, hpast, bind_some, runActions, bind_eq_some_iff] at hrun
    obtain ⟨t, hstep, -⟩ := hrun
    have hone : runActions task.step s [action] = some t := by
      rw [runActions, hstep]
      rfl
    have hkept := hstays past [action] rest s t hactions hpast hone key hexiled hmarked
    exact (marked_step_iff hstep hmarked).mp hkept hunmarks
  · intro hunanswered past later rest s t hactions hpast hlater key hexiled hmarked
    exact (marked_of_continuation hunanswered hactions hpast hlater hexiled hmarked).2

end HealthTask

section

attribute [local instance] zeroSha256

def probeTask : HealthTask where
  pools := AList.singleton "p" twoKeyPool
  providers := AList.singleton "p" ⟨⟨.openAi, "u"⟩, "u", [401]⟩
  maxProbeRetries := 1

def exileRun : List HealthAction := [.demote ("p", "a"), .wake, .probe .failed]

def revivalRun : List HealthAction := [.wake, .probe .answered, .dropPool]

theorem exileRun_countsFailures :
    ∃ s, runActions probeTask.step .initial exileRun = some s ∧ HealthTask.CountsFailures s ∧
      s.retries.lookup ("p", "a") = some 1 :=
  ⟨_, rfl, HealthTask.countsFailures_of_run
    (rfl : runActions probeTask.step .initial exileRun = some _), rfl⟩

/-- The key fails once more after its exile. -/
def lastingRun : List HealthAction := exileRun ++ [.wake, .probe .failed]

theorem lastingRun_staysExiled :
    ∃ final, runActions probeTask.step .initial lastingRun = some final ∧
      probeTask.StaysExiled lastingRun := by
  refine ⟨_, rfl, (HealthTask.staysExiled_iff_unanswered probeTask lastingRun _ rfl).mpr ?_⟩
  rintro past action rest s hactions - key - - hunmarks
  have hmem : action ∈ lastingRun := hactions ▸ by simp
  have hkept : ∀ a ∈ lastingRun, a ≠ .probe .answered ∧ a ≠ .dropPool := by decide
  unfold HealthTask.Unmarks at hunmarks
  split at hunmarks
  · exact (hkept _ hmem).1 rfl
  · exact (hkept _ hmem).2 rfl
  · exact hunmarks

/-- A key that failed as often as is allowed answers the next probe and is removed. -/
theorem exiled_key_removed :
    ∃ s t, runActions probeTask.step .initial exileRun = some s ∧
      runActions probeTask.step s revivalRun = some t ∧
      probeTask.Exiled s ("p", "a") ∧ s.Marked ("p", "a") ∧ ¬ t.Marked ("p", "a") :=
  ⟨_, _, rfl, rfl, ⟨[(("p", "a"), false)], prefix_rfl, by decide⟩, by decide, by decide⟩

end

end LlmProxy
