import LlmProxy.GuardedRun
import LlmProxy.Router

/-!
# Concurrent demotions

`try_demote` counts the healthy keys and then marks one, as two separate accesses to the shared
registry.
-/

namespace LlmProxy
namespace DemotionRace

open Function Option Router StepSystem

variable {Provider : Type}

inductive RequestPhase where
  | idle
  | routed (route : RouteEntry)
  | holding (route : RouteEntry) (entry : KeyEntry)
  | counted (route : RouteEntry) (entry : KeyEntry)

structure State (Provider : Type) where
  live : Router Provider
  bad : BadKeyRegistry
  requests : ℕ → RequestPhase

inductive Action (Provider : Type) where
  | arrive (request : ℕ) (model : String)
  | pick (request : ℕ) (chosen : UInt32)
  | retry (request : ℕ)
  | finish (request : ℕ)
  | count (request : ℕ)
  | mark (request : ℕ)
  | revive (poolId keyHash : String)
  | swap (router : Router Provider)

def initial (router : Router Provider) (bad : BadKeyRegistry) : State Provider where
  live := router
  bad := bad
  requests := fun _ => .idle

variable (s : State Provider) (request : ℕ) (phase : RequestPhase)

def State.setPhase : State Provider :=
  { s with requests := Function.update s.requests request phase }

@[simp] theorem State.setPhase_live : (s.setPhase request phase).live = s.live := rfl

@[simp] theorem State.setPhase_bad : (s.setPhase request phase).bad = s.bad := rfl

theorem State.setPhase_requests :
    (s.setPhase request phase).requests = Function.update s.requests request phase := rfl

section

variable [Sha256] (s : State Provider)

/-- The count runs over the pool of the router snapshot the request took on arrival, while marks are
global. -/
def step : Action Provider → Option (State Provider)
  | .arrive request model =>
    match s.requests request, s.live.resolve model with
    | .idle, .ok (_, route) => some (s.setPhase request (.routed route))
    | .idle, .error _ => some s
    | _, _ => none
  | .pick request chosen =>
    match s.requests request with
    | .routed route =>
      match pickKey s.bad route.pool route.poolId chosen with
      | some entry => some (s.setPhase request (.holding route entry))
      | none => some (s.setPhase request .idle)
    | _ => none
  | .retry request =>
    match s.requests request with
    | .holding route _ => some (s.setPhase request (.routed route))
    | _ => none
  | .finish request =>
    match s.requests request with
    | .counted _ _ => none
    | _ => some (s.setPhase request .idle)
  | .count request =>
    match s.requests request with
    | .holding route entry =>
      if healthyKeyCount s.bad route.pool route.poolId ≤ 1 then
        some (s.setPhase request .idle)
      else some (s.setPhase request (.counted route entry))
    | _ => none
  | .mark request =>
    match s.requests request with
    | .counted route entry =>
      some { s.setPhase request (.routed route) with
        bad := markBad s.bad route.poolId entry }
    | _ => none
  | .revive poolId keyHash =>
    some { s with bad := s.bad.removeBad poolId keyHash }
  | .swap router => some { s with live := router }

theorem count_mark_eq_tryDemote (t : State Provider) (request : ℕ) (route : RouteEntry)
    (entry : KeyEntry) (hphase : s.requests request = .holding route entry)
    (hrun : runActions step s [.count request, .mark request] = some t) :
    tryDemote s.bad route.pool route.poolId entry = (t.bad, true) := by
  simp only [runActions, step, hphase] at hrun
  unfold tryDemote
  split_ifs at hrun ⊢ with hcount
  · simp [State.setPhase] at hrun
  · simp only [State.setPhase, update_self, bind_some, some.injEq] at hrun
    subst t
    rfl

def LiveRoute (route : RouteEntry) : Prop :=
  ∃ model, s.live.modelMap.lookup model = some route

def KeepsHealthyKey (t : State Provider) : Prop :=
  ∀ route, LiveRoute s route →
    0 < healthyKeyCount s.bad route.pool route.poolId →
    0 < healthyKeyCount t.bad route.pool route.poolId

/-! ## Undisturbed demotions -/

variable (router : Router Provider)

def RouterDistinct : Prop :=
  ∀ model route, router.modelMap.lookup model = some route →
    DistinctIdentities route.pool

def ServesPool (route : RouteEntry) : Prop :=
  ∀ model other, router.modelMap.lookup model = some other →
    other.poolId = route.poolId → other.pool = route.pool

/-- The condition on single steps: a count is taken over the live pool, and
while a request stands between its count and its mark no other mark reaches
its pool and no swap replaces it. -/
def Undisturbed : Action Provider → Prop
  | .count request =>
    ∀ route entry, s.requests request = .holding route entry →
      ServesPool s.live route
  | .mark request =>
    ∀ route entry, s.requests request = .counted route entry →
      ∀ other otherRoute otherEntry, other ≠ request →
        s.requests other = .counted otherRoute otherEntry →
        otherRoute.poolId ≠ route.poolId
  | .swap router =>
    RouterDistinct router ∧
      ∀ request route entry, s.requests request = .counted route entry →
        ServesPool router route
  | _ => True

structure CountStands (s : State Provider) : Prop where
  distinct : RouterDistinct s.live
  liveCount : ∀ request route entry,
    s.requests request = .counted route entry →
      ServesPool s.live route ∧ 1 < healthyKeyCount s.bad route.pool route.poolId

theorem initial_countStands (bad : BadKeyRegistry) (hdistinct : RouterDistinct router) :
    CountStands (initial router bad) := by
  constructor
  · exact hdistinct
  · intro request route entry hphase
    simp [initial] at hphase

variable {s t : State Provider} {request : ℕ}

theorem mark_inv (hstep : step s (.mark request) = some t) :
    ∃ route entry, s.requests request = .counted route entry ∧
      t = { s.setPhase request (.routed route) with
        bad := s.bad.markBad route.poolId entry.identityHash } := by
  simp only [step] at hstep
  split at hstep
  next route entry hphase =>
    cases hstep
    exact ⟨route, entry, hphase, rfl⟩
  next => cases hstep

section

variable (hinv : CountStands s)

include hinv

theorem CountStands.setPhase (request : ℕ) (phase : RequestPhase)
    (hphase : ∀ route entry, phase ≠ .counted route entry) :
    CountStands (s.setPhase request phase) := by
  constructor
  · exact hinv.distinct
  · intro other route entry hother
    rw [State.setPhase_requests] at hother
    by_cases heq : other = request
    · subst other
      rw [update_self] at hother
      exact absurd hother (hphase route entry)
    · rw [update_of_ne heq] at hother
      exact hinv.liveCount other route entry hother

theorem CountStands.count (hok : Undisturbed s (.count request))
    (hstep : step s (.count request) = some t) : CountStands t := by
  simp only [step] at hstep
  split at hstep
  next route entry hphase =>
    split_ifs at hstep with hcount
    · cases hstep
      exact hinv.setPhase request .idle (by simp)
    · cases hstep
      constructor
      · exact hinv.distinct
      · intro other otherRoute otherEntry hother
        rw [State.setPhase_requests] at hother
        by_cases heq : other = request
        · subst other
          rw [update_self] at hother
          cases hother
          exact ⟨hok _ _ hphase, by simpa using hcount⟩
        · rw [update_of_ne heq] at hother
          exact hinv.liveCount other otherRoute otherEntry hother
  next => cases hstep

theorem CountStands.mark (hok : Undisturbed s (.mark request))
    (hstep : step s (.mark request) = some t) : CountStands t := by
  obtain ⟨route, entry, hphase, rfl⟩ := mark_inv hstep
  constructor
  · exact hinv.distinct
  · intro other otherRoute otherEntry hother
    simp only [State.setPhase_requests] at hother
    by_cases heq : other = request
    · subst other
      rw [update_self] at hother
      cases hother
    · rw [update_of_ne heq] at hother
      have hpool := hok route entry hphase other otherRoute otherEntry heq hother
      obtain ⟨hserves, hcount⟩ := hinv.liveCount other otherRoute otherEntry hother
      refine ⟨hserves, ?_⟩
      simpa [healthyKeyCount, candidates_markBad_other s.bad _ hpool] using hcount

theorem CountStands.revive (poolId keyHash : String) :
    CountStands { s with bad := s.bad.removeBad poolId keyHash } := by
  constructor
  · exact hinv.distinct
  · intro request route entry hphase
    obtain ⟨hserves, hcount⟩ := hinv.liveCount request route entry hphase
    have hmore := (candidates_sublist_removeBad s.bad route.pool route.poolId
      poolId keyHash).length_le
    exact ⟨hserves, lt_of_lt_of_le hcount hmore⟩

theorem CountStands.step {action : Action Provider} (hok : Undisturbed s action)
    (hstep : step s action = some t) : CountStands t := by
  cases action with
  | arrive request =>
    simp only [DemotionRace.step] at hstep
    split at hstep
    · cases hstep
      exact hinv.setPhase request _ (by simp)
    · cases hstep
      exact hinv
    · cases hstep
  | pick request =>
    simp only [DemotionRace.step] at hstep
    split at hstep
    · split at hstep <;> cases hstep <;>
        exact hinv.setPhase request _ (by simp)
    · cases hstep
  | retry request =>
    simp only [DemotionRace.step] at hstep
    split at hstep <;> cases hstep
    exact hinv.setPhase request _ (by simp)
  | finish request =>
    simp only [DemotionRace.step] at hstep
    split at hstep <;> cases hstep
    exact hinv.setPhase request _ (by simp)
  | count => exact hinv.count hok hstep
  | mark => exact hinv.mark hok hstep
  | revive poolId keyHash =>
    simp only [DemotionRace.step, some.injEq] at hstep
    subst t
    exact hinv.revive poolId keyHash
  | swap =>
    simp only [DemotionRace.step, some.injEq] at hstep
    subst t
    constructor
    · exact hok.1
    · intro request route entry hphase
      exact ⟨hok.2 request route entry hphase, (hinv.liveCount request route entry hphase).2⟩

theorem KeepsHealthyKey.of_countStands (hstep : step s (.mark request) = some t) :
    KeepsHealthyKey s t := by
  obtain ⟨route, entry, hphase, rfl⟩ := mark_inv hstep
  intro liveRoute hlive hhealthy
  obtain ⟨model, hmodel⟩ := hlive
  obtain ⟨hserves, hcount⟩ := hinv.liveCount request route entry hphase
  by_cases hpool : liveRoute.poolId = route.poolId
  · have hsame := hserves model liveRoute hmodel hpool
    rw [hpool, hsame]
    exact healthyKeyCount_markBad_pos (hsame ▸ hinv.distinct model liveRoute hmodel) hcount
  · simpa [healthyKeyCount, candidates_markBad_other s.bad _ hpool] using hhealthy

end

/-- In every run of undisturbed demotions over pools of distinct identities,
no mark takes the last healthy key of a live pool. -/
theorem mark_keepsHealthyKey_of_undisturbed
    (router : Router Provider) (bad : BadKeyRegistry)
    (hdistinct : RouterDistinct router)
    (actions : List (Action Provider)) (s t : State Provider) (request : ℕ)
    (hrun : GuardedRun step Undisturbed (initial router bad) actions s)
    (hstep : step s (.mark request) = some t) : KeepsHealthyKey s t := by
  have hinv : CountStands s :=
    hrun.invariant CountStands
      (fun _ _ _ hs hok hnext => hs.step hok hnext)
      (initial_countStands router bad hdistinct)
  exact .of_countStands hinv hstep

end

def twoKeyRoute : RouteEntry where
  poolId := "p"
  pool := twoKeyPool
  defaultParams := none
  upstreamModel := none

def twoKeyRouter : Router Unit where
  modelMap := AList.singleton "m" twoKeyRoute
  providers := AList.singleton "p" ()

def overlappingDemotions : List (Action Unit) :=
  [.arrive 0 "m", .arrive 1 "m", .pick 0 0, .pick 1 1,
    .count 0, .count 1, .mark 0]

theorem twoKeyRouter_lookup {model : String} {route : RouteEntry}
    (hlookup : twoKeyRouter.modelMap.lookup model = some route) : route = twoKeyRoute := by
  by_cases hmodel : model = "m"
  · subst model
    simpa [twoKeyRouter, AList.lookup] using hlookup.symm
  · have hnone : twoKeyRouter.modelMap.lookup model = none := by
      rw [AList.lookup_eq_none]
      simpa [twoKeyRouter, AList.mem_keys] using hmodel
    rw [hnone] at hlookup
    cases hlookup

/-- The second mark of two overlapping demotions empties the pool. -/
theorem overlapping_marks_empty_pool :
    ¬ ∀ (Provider : Type) (_ : Sha256) (router : Router Provider)
      (bad : BadKeyRegistry) (actions : List (Action Provider))
      (s t : State Provider) (request : ℕ),
      Run step (initial router bad) actions s →
      step s (.mark request) = some t → KeepsHealthyKey s t := by
  intro hclaim
  let := zeroSha256
  let start := initial twoKeyRouter .new
  obtain ⟨s, hs⟩ : ∃ s, runActions step start overlappingDemotions = some s :=
    isSome_iff_exists.mp (by decide)
  obtain ⟨t, ht⟩ : ∃ t, step s (.mark 1) = some t := by
    have hboth : ((runActions step start overlappingDemotions).bind
        fun u => step u (.mark 1)).isSome = true := by decide
    rw [hs] at hboth
    exact isSome_iff_exists.mp hboth
  have hlive : LiveRoute s twoKeyRoute := by
    have hmap : (runActions step start overlappingDemotions).map
        (fun u => u.live.modelMap.lookup "m") = some (some twoKeyRoute) := rfl
    rw [hs] at hmap
    exact ⟨"m", some.inj hmap⟩
  have hbefore : healthyKeyCount s.bad twoKeyPool "p" = 1 := by
    have hmap : (runActions step start overlappingDemotions).map
        (fun u => healthyKeyCount u.bad twoKeyPool "p") = some 1 := by decide
    rw [hs] at hmap
    exact some.inj hmap
  have hafter : healthyKeyCount t.bad twoKeyPool "p" = 0 := by
    have hmap : ((runActions step start overlappingDemotions).bind fun u => step u (.mark 1)).map
          (fun u => healthyKeyCount u.bad twoKeyPool "p") = some 0 := by decide
    rw [hs, bind_some, ht] at hmap
    exact some.inj hmap
  have hkeeps := hclaim Unit zeroSha256 twoKeyRouter .new overlappingDemotions s t 1
    (run_of_runActions hs) ht twoKeyRoute hlive
    (show 0 < healthyKeyCount s.bad twoKeyPool "p" by omega)
  exact absurd hafter (Nat.ne_of_gt hkeeps)

theorem lone_demotion_keepsHealthyKey :
    letI := zeroSha256
    ∃ s t, GuardedRun step Undisturbed (initial twoKeyRouter .new)
        [.arrive 0 "m", .pick 0 0, .count 0] s ∧
      step s (.mark 0) = some t ∧ KeepsHealthyKey s t := by
  let := zeroSha256
  have hdistinct : RouterDistinct twoKeyRouter := by
    intro model route hlookup
    rw [twoKeyRouter_lookup hlookup]
    unfold DistinctIdentities
    decide
  have hserves : ∀ route, ServesPool twoKeyRouter route ∨ route ≠ twoKeyRoute := by
    intro route
    by_cases hroute : route = twoKeyRoute
    · left
      intro model other hlookup _
      rw [twoKeyRouter_lookup hlookup, hroute]
    · exact .inr hroute
  have hrun : GuardedRun step Undisturbed (initial twoKeyRouter .new)
      [.arrive 0 "m", .pick 0 0, .count 0] _ :=
    .snoc (.snoc (.snoc (.nil _) trivial rfl) trivial rfl)
      (by
        intro route entry hphase
        cases hphase
        exact (hserves _).resolve_right (fun h => h rfl)) rfl
  exact ⟨_, _, hrun, rfl,
    mark_keepsHealthyKey_of_undisturbed twoKeyRouter .new hdistinct _ _ _ 0 hrun rfl⟩

end DemotionRace
end LlmProxy
