import LlmProxy.PolledRebuild
import LlmProxy.RouterRebuild

/-!
# The router rebuilder

`spawn_router_rebuilder` of `bootstrap.rs` next to a store that is refreshed at any time.  The task
reads the provider section, the pools and the routing one after the other, compares them with what
it remembers, and has `rebuild_router` read the store once more.
-/

namespace LlmProxy

open PolledRebuild StepSystem

namespace RoutingSnapshot

/-- Equality of two snapshots: the order of the entries of a map does not count. -/
structure Same (first second : RoutingSnapshot) : Prop where
  providers : first.providers = second.providers
  poolConfigs : first.poolConfigs.entries.Perm second.poolConfigs.entries
  modelRouting : first.modelRouting.entries.Perm second.modelRouting.entries

instance : DecidableRel Same := fun first second =>
  decidable_of_iff
    (first.providers = second.providers ∧
      first.poolConfigs.entries.Perm second.poolConfigs.entries ∧
      first.modelRouting.entries.Perm second.modelRouting.entries)
    ⟨fun h => ⟨h.1, h.2.1, h.2.2⟩, fun h => ⟨h.providers, h.poolConfigs, h.modelRouting⟩⟩

theorem same_equivalence : Equivalence Same where
  refl _ := ⟨rfl, .refl _, .refl _⟩
  symm h := ⟨h.providers.symm, h.poolConfigs.symm, h.modelRouting.symm⟩
  trans h₁ h₂ := ⟨h₁.providers.trans h₂.providers, h₁.poolConfigs.trans h₂.poolConfigs,
    h₁.modelRouting.trans h₂.modelRouting⟩

def empty : RoutingSnapshot := ⟨[], ∅, ∅⟩

def ofReads : List RoutingSnapshot → RoutingSnapshot
  | [first, second, third] => ⟨first.providers, second.poolConfigs, third.modelRouting⟩
  | _ => empty

theorem ofReads_same {reads : List RoutingSnapshot} {sections : RoutingSnapshot}
    (hlength : reads.length = 3) (hreads : ∀ read ∈ reads, Same read sections) :
    Same (ofReads reads) sections := by
  match reads, hlength with
  | [first, second, third], _ =>
    have hfirst := hreads first (by simp)
    have hsecond := hreads second (by simp)
    have hthird := hreads third (by simp)
    exact ⟨hfirst.providers, hsecond.poolConfigs, hthird.modelRouting⟩

end RoutingSnapshot

structure Router.Alike (first second : Router UpstreamProvider) : Prop where
  modelMap : ∀ model, first.modelMap.lookup model = second.modelMap.lookup model
  providers : ∀ pool, first.providers.lookup pool = second.providers.lookup pool

theorem Router.alike_equivalence : Equivalence Router.Alike where
  refl _ := ⟨fun _ => rfl, fun _ => rfl⟩
  symm h := ⟨fun model => (h.modelMap model).symm, fun pool => (h.providers pool).symm⟩
  trans h₁ h₂ := ⟨fun model => (h₁.modelMap model).trans (h₂.modelMap model),
    fun pool => (h₁.providers pool).trans (h₂.providers pool)⟩

variable {registry : ProviderRegistry} {badStatusCodes : List UInt16}
  {first second : RoutingSnapshot} {router : Router UpstreamProvider}

theorem rebuildRouter_isOk_iff :
    (∃ router, rebuildRouter registry badStatusCodes first = .ok router) ↔
      (∀ config ∈ first.providers, ∃ provider,
        registry.buildOne badStatusCodes config = .ok provider) ∧
      ∀ entry ∈ first.modelRouting.entries,
        (first.poolConfigs.lookup entry.2.poolId).isSome = true := by
  constructor
  · rintro ⟨router, hrebuild⟩
    obtain ⟨hproviders, hmodels⟩ := loops_of_rebuildRouter hrebuild
    refine ⟨(KeyedFold.insertAllM_isOk_iff _ _ _ _).mp ⟨_, hproviders⟩, fun entry hentry => ?_⟩
    obtain ⟨value, hvalue⟩ := (KeyedFold.insertAllM_isOk_iff _ _ _ _).mp ⟨_, hmodels⟩ entry hentry
    rw [(routeEntry_eq_ok hvalue).2]
    rfl
  · rintro ⟨hproviders, hpools⟩
    obtain ⟨providers, hbuilt⟩ := (KeyedFold.insertAllM_isOk_iff ProviderConfig.poolId
      (registry.buildOne badStatusCodes) ∅ first.providers).mpr hproviders
    have hmissing : missingPool first = none := by
      unfold missingPool
      rw [Option.map_eq_none_iff, List.find?_eq_none]
      intro entry hentry
      have hpool := hpools entry hentry
      cases hlookup : first.poolConfigs.lookup entry.2.poolId with
      | none =>
        rw [hlookup] at hpool
        cases hpool
      | some => simp
    obtain ⟨modelMap, hmodels⟩ := (KeyedFold.insertAllM_isOk_iff Sigma.fst
      (fun entry : Σ _ : String, ModelRouting => routeEntry first.poolConfigs entry.2) ∅
      first.modelRouting.entries).mpr (by
        intro entry hentry
        obtain ⟨pool, hpool⟩ := Option.isSome_iff_exists.mp (hpools entry hentry)
        simp [routeEntry, hpool])
    refine ⟨⟨modelMap, providers⟩, ?_⟩
    unfold rebuildRouter
    rw [ProviderRegistry.buildAll, hbuilt, hmissing, hmodels]
    rfl

theorem rebuildRouter_same (hsame : first.Same second)
    (hrebuild : rebuildRouter registry badStatusCodes first = .ok router) :
    ∃ other, rebuildRouter registry badStatusCodes second = .ok other ∧ router.Alike other := by
  have hpools : ∀ pool, first.poolConfigs.lookup pool = second.poolConfigs.lookup pool :=
    fun pool => AList.perm_lookup hsame.poolConfigs
  have hok : ∃ other, rebuildRouter registry badStatusCodes second = .ok other := by
    obtain ⟨hproviders, hroutes⟩ := rebuildRouter_isOk_iff.mp ⟨router, hrebuild⟩
    refine rebuildRouter_isOk_iff.mpr ⟨by rwa [← hsame.providers], fun entry hentry => ?_⟩
    rw [← hpools]
    exact hroutes entry (hsame.modelRouting.mem_iff.mpr hentry)
  obtain ⟨other, hother⟩ := hok
  refine ⟨other, hother, fun model => ?_, fun pool => ?_⟩
  · rw [lookup_modelMap_of_rebuildRouter hrebuild, lookup_modelMap_of_rebuildRouter hother,
      AList.perm_lookup hsame.modelRouting]
    simp only [routeEntry, hpools]
  · rw [lookup_providers_of_rebuildRouter hrebuild, lookup_providers_of_rebuildRouter hother,
      hsame.providers]

/-- The sections are providers, pools and routes. -/
def routerRebuilder (registry : ProviderRegistry) (badStatusCodes : List UInt16) :
    Poller RoutingSnapshot (Router UpstreamProvider) where
  sections := 3
  copy := RoutingSnapshot.ofReads
  same := RoutingSnapshot.Same
  decidableSame := inferInstance
  build := fun sections => (rebuildRouter registry badStatusCodes sections).toOption
  alike := Router.Alike

theorem build_routerRebuilder_iff {sections : RoutingSnapshot} :
    (routerRebuilder registry badStatusCodes).build sections = some router ↔
      rebuildRouter registry badStatusCodes sections = .ok router := by
  change (rebuildRouter registry badStatusCodes sections).toOption = some router ↔ _
  cases rebuildRouter registry badStatusCodes sections with
  | error => simp [Except.toOption]
  | ok => simp [Except.toOption]

theorem routerRebuilder_lawful : (routerRebuilder registry badStatusCodes).Lawful where
  sections := Nat.zero_lt_succ 2
  same := RoutingSnapshot.same_equivalence
  alike := Router.alike_equivalence
  copy := RoutingSnapshot.ofReads_same
  build := by
    intro first second built hsame hbuild
    obtain ⟨other, hother, halike⟩ :=
      rebuildRouter_same hsame (build_routerRebuilder_iff.mp hbuild)
    exact ⟨other, build_routerRebuilder_iff.mpr hother, halike⟩

/-- If `rebuild_router` reads the sections that its tick compared, and the sections of the first
router are those that are remembered first, the live router follows the store.  In `s` the
sections have settled and in `u` a tick has begun since.  It ends after at most five steps of
the task, and from its end on the live router is one of the settled sections. -/
theorem live_router_follows_store (registry : ProviderRegistry) (badStatusCodes : List UInt16)
    (first : RoutingSnapshot) (live : Router UpstreamProvider)
    (hfirst : rebuildRouter registry badStatusCodes first = .ok live)
    (past : List (Action RoutingSnapshot))
    (s : State RoutingSnapshot (Router UpstreamProvider))
    (hpast : GuardedRun (routerRebuilder registry badStatusCodes).step
      (routerRebuilder registry badStatusCodes).Undisturbed (Poller.initial first live) past s)
    (router : Router UpstreamProvider)
    (hrebuild : rebuildRouter registry badStatusCodes s.content = .ok router)
    (before during : List (Action RoutingSnapshot))
    (ready ticking u : State RoutingSnapshot (Router UpstreamProvider))
    (hbefore : GuardedRun (routerRebuilder registry badStatusCodes).step
      (fun v action => (routerRebuilder registry badStatusCodes).Undisturbed v action ∧
        (routerRebuilder registry badStatusCodes).Quiet s.content action) s before ready)
    (htick : (routerRebuilder registry badStatusCodes).step ready .tick = some ticking)
    (hduring : GuardedRun (routerRebuilder registry badStatusCodes).step
      (fun v action => (routerRebuilder registry badStatusCodes).Undisturbed v action ∧
        (routerRebuilder registry badStatusCodes).Quiet s.content action) ticking during u) :
    (∃ own t, (∀ action ∈ own, action.own = true) ∧ own.length ≤ 5 ∧
        runActions (routerRebuilder registry badStatusCodes).step u own = some t ∧
        t.phase.atRest = true) ∧
      (u.phase.atRest = true → ∀ later t, GuardedRun (routerRebuilder registry badStatusCodes).step
        (fun _ => (routerRebuilder registry badStatusCodes).Quiet s.content) u later t →
          t.live.Alike router) := by
  have hlaws : (routerRebuilder registry badStatusCodes).Lawful := routerRebuilder_lawful
  have hbuild := build_routerRebuilder_iff.mpr hrebuild
  obtain ⟨hsound, hfollowing⟩ := Poller.following_of_tick hlaws
    (build_routerRebuilder_iff.mpr hfirst) hpast (Option.isSome_iff_exists.mpr ⟨router, hbuild⟩)
    hbefore htick hduring
  constructor
  · obtain ⟨own, t, hown, hlength, hrun, hrest⟩ := Poller.exists_rest hlaws hsound.bounded
    exact ⟨own, t, hown, hlength.trans (Poller.stepsLeft_le _), hrun, hrest⟩
  · intro hrest later t hlater
    obtain ⟨built, hbuilt, halike⟩ := hfollowing.builds hlaws hrest hlater
    rw [hbuild, Option.some.injEq] at hbuilt
    rw [hbuilt]
    exact halike

/-! ## Changes that are missed -/

def emptyRouter : Router UpstreamProvider := ⟨∅, ∅⟩

def pooledContent : RoutingSnapshot := pooledSections [poolProvider]

def bootRebuilder : Poller RoutingSnapshot (Router UpstreamProvider) := routerRebuilder .boot [401]

def startRun : List (Action RoutingSnapshot) := [.read, .read, .read, .refresh pooledContent]

/-- A tick without a disturbance builds the router of the refresh. -/
theorem live_router_follows_startRun :
    ∃ s u router, GuardedRun bootRebuilder.step bootRebuilder.Undisturbed
        (Poller.initial .empty emptyRouter) startRun s ∧
      rebuildRouter .boot [401] s.content = .ok router ∧
      runActions bootRebuilder.step s [.tick, .read, .read, .read, .rebuild, .swap] = some u ∧
      u.live.Alike router := by
  have hrebuild : ∃ router, rebuildRouter .boot [401] pooledContent = .ok router := ⟨_, rfl⟩
  obtain ⟨router, hrouter⟩ := hrebuild
  have hpast : GuardedRun bootRebuilder.step bootRebuilder.Undisturbed
      (Poller.initial .empty emptyRouter) startRun _ :=
    .cons trivial rfl (.cons trivial rfl (.cons trivial rfl
      (.cons (fun _ hboot => nomatch hboot) rfl (.nil _))))
  have hsame : bootRebuilder.Undisturbed
      ⟨pooledContent, emptyRouter, some .empty, .rebuilding pooledContent⟩ .rebuild := by
    intro seen hseen
    cases hseen
    exact RoutingSnapshot.same_equivalence.refl _
  have hduring : GuardedRun bootRebuilder.step
      (fun v action => bootRebuilder.Undisturbed v action ∧
        bootRebuilder.Quiet pooledContent action)
      ⟨pooledContent, emptyRouter, some .empty, .reading []⟩
      [.read, .read, .read, .rebuild, .swap] _ :=
    .cons ⟨trivial, trivial⟩ rfl (.cons ⟨trivial, trivial⟩ rfl (.cons ⟨trivial, trivial⟩ rfl
      (.cons ⟨hsame, trivial⟩ rfl (.cons ⟨trivial, trivial⟩ rfl (.nil _)))))
  have hfollows := live_router_follows_store .boot [401] .empty emptyRouter rfl startRun _ hpast
    router hrouter [] _ _ _ _ (.nil _) rfl hduring
  exact ⟨_, _, router, hpast, hrouter, rfl, hfollows.2 rfl [] _ (.nil _)⟩

/-- The routes are there when the sections are compared, gone when the router is built, and back
afterwards. -/
def returnRun : List (Action RoutingSnapshot) :=
  startRun ++ [.tick, .read, .read, .read, .refresh .empty, .rebuild, .swap,
    .refresh pooledContent]

def gapRun : List (Action RoutingSnapshot) := [.refresh pooledContent, .read, .read, .read]

def MissesChange (past : List (Action RoutingSnapshot)) : Prop :=
  ∃ s t router, runActions bootRebuilder.step (Poller.initial .empty emptyRouter) past = some s ∧
    rebuildRouter .boot [401] s.content = .ok router ∧
    runActions bootRebuilder.step s [.tick, .read, .read, .read] = some t ∧
    t.phase.atRest = true ∧ ¬ t.live.Alike router

theorem emptyRouter_outdated {router : Router UpstreamProvider}
    (hrebuild : rebuildRouter .boot [401] pooledContent = .ok router) :
    ¬ emptyRouter.Alike router := by
  intro halike
  have hlisted := halike.modelMap "m"
  rw [lookup_modelMap_of_rebuildRouter hrebuild] at hlisted
  cases hlisted

theorem rebuilder_misses_change : MissesChange returnRun ∧ MissesChange gapRun := by
  have hrebuild : ∃ router, rebuildRouter .boot [401] pooledContent = .ok router := ⟨_, rfl⟩
  obtain ⟨router, hrouter⟩ := hrebuild
  have houtdated := emptyRouter_outdated hrouter
  exact ⟨⟨_, _, router, rfl, hrouter, rfl, rfl, houtdated⟩,
    ⟨_, _, router, rfl, hrouter, rfl, rfl, houtdated⟩⟩

end LlmProxy
