import LlmProxy.ConfigStore

/-!
# Building a router from a snapshot

`rebuild_router` of `runtime.rs` with the provider registry it uses (`provider/registry.rs`).
-/

namespace LlmProxy

open Json KeyedFold

deriving instance DecidableEq for Provider

structure UpstreamProvider extends Provider where
  id : String
  badStatusCodes : List UInt16
  deriving DecidableEq

structure RoutingSnapshot where
  providers : List ProviderConfig
  poolConfigs : AList fun _ : String => PoolConfig
  modelRouting : AList fun _ : String => ModelRouting

def ConfigSnapshot.sections {Cost : Type} (snapshot : ConfigSnapshot Cost) : RoutingSnapshot :=
  ⟨snapshot.providers, snapshot.poolConfigs, snapshot.modelRouting⟩

/-! ## The provider registry -/

structure ProviderFactory where
  kindName : String
  kind : ProviderKind

namespace ProviderFactory

def supports (factory : ProviderFactory) (kind : ProviderKind) : Bool := kind = factory.kind

def create (factory : ProviderFactory) (badStatusCodes : List UInt16) (config : ProviderConfig) :
    UpstreamProvider :=
  ⟨⟨factory.kind, config.baseUrl⟩, config.id, badStatusCodes⟩

end ProviderFactory

abbrev ProviderRegistry := List ProviderFactory

def ProviderRegistry.boot : ProviderRegistry :=
  [⟨"openai", .openAi⟩, ⟨"anthropic", .anthropic⟩, ⟨"gemini", .gemini⟩]

def ProviderKind.debug : ProviderKind → String
  | .openAi => "OpenAi"
  | .anthropic => "Anthropic"
  | .gemini => "Gemini"

namespace ProviderRegistry

variable (registry : ProviderRegistry) (badStatusCodes : List UInt16)

/-- The first factory that supports the kind. -/
def buildOne (config : ProviderConfig) : Except AppError UpstreamProvider :=
  match registry.find? fun factory => factory.supports config.kind with
  | some factory => .ok (factory.create badStatusCodes config)
  | none =>
    let kind := config.kind.debug
    .error (.config s!"no provider factory found for kind '{kind}'")

/-- Of two providers for a pool the later one is kept. -/
def buildAll (configs : List ProviderConfig) :
    Except AppError (AList fun _ : String => UpstreamProvider) :=
  KeyedFold.insertAllM ProviderConfig.poolId (buildOne registry badStatusCodes) ∅ configs

end ProviderRegistry

def routeEntry (poolConfigs : AList fun _ : String => PoolConfig) (route : ModelRouting) :
    Except AppError RouteEntry :=
  match poolConfigs.lookup route.poolId with
  | some pool => .ok ⟨route.poolId, pool, route.defaultParams, route.upstreamModel⟩
  | none =>
    let poolId := route.poolId
    .error (.config s!"pool '{poolId}' not found")

def missingPool (sections : RoutingSnapshot) : Option AppError :=
  (sections.modelRouting.entries.find? fun entry =>
    (sections.poolConfigs.lookup entry.2.poolId).isNone).map fun entry =>
      let poolId := entry.2.poolId
      let model := entry.1
      .config s!"pool '{poolId}' referenced by model '{model}' not found in configured pools"

/-- Only the pool of a route is checked, so a model can be listed whose pool has no provider. -/
def rebuildRouter (registry : ProviderRegistry) (badStatusCodes : List UInt16)
    (sections : RoutingSnapshot) : Except AppError (Router UpstreamProvider) := do
  let providers ← registry.buildAll badStatusCodes sections.providers
  match missingPool sections with
  | some error => .error error
  | none =>
    let modelMap ← KeyedFold.insertAllM Sigma.fst
      (fun entry => routeEntry sections.poolConfigs entry.2) ∅ sections.modelRouting.entries
    return ⟨modelMap, providers⟩

/-- In alphabetical order. -/
def Router.modelList {Provider : Type} (router : Router Provider) : List String :=
  router.modelMap.keys.mergeSort

/-! ### What a rebuilt router finds -/

variable {registry : ProviderRegistry} {badStatusCodes : List UInt16}
  {sections : RoutingSnapshot} {router : Router UpstreamProvider} {model : String}
  {entry : RouteEntry}

theorem routeEntry_eq_ok {poolConfigs : AList fun _ : String => PoolConfig} {route : ModelRouting}
    (hok : routeEntry poolConfigs route = .ok entry) :
    entry.poolId = route.poolId ∧ poolConfigs.lookup route.poolId = some entry.pool := by
  unfold routeEntry at hok
  cases hpool : poolConfigs.lookup route.poolId with
  | none =>
    rw [hpool] at hok
    cases hok
  | some =>
    rw [hpool] at hok
    cases hok
    exact ⟨rfl, rfl⟩

section

variable (hrebuild : rebuildRouter registry badStatusCodes sections = .ok router)

include hrebuild

theorem loops_of_rebuildRouter :
    registry.buildAll badStatusCodes sections.providers = .ok router.providers ∧
      KeyedFold.insertAllM Sigma.fst (fun entry => routeEntry sections.poolConfigs entry.2) ∅
        sections.modelRouting.entries = .ok router.modelMap := by
  obtain ⟨providers, hproviders, hrest⟩ := Except.bind_eq_ok_iff.mp hrebuild
  cases hmissing : missingPool sections with
  | some =>
    rw [hmissing] at hrest
    cases hrest
  | none =>
    rw [hmissing] at hrest
    obtain ⟨modelMap, hmodels, hrouter⟩ := Except.bind_eq_ok_iff.mp hrest
    cases hrouter
    exact ⟨hproviders, hmodels⟩

theorem lookup_providers_of_rebuildRouter (pool : String) :
    router.providers.lookup pool =
      (sections.providers.filter fun config => config.poolId = pool).getLast?.bind fun config =>
        (registry.buildOne badStatusCodes config).toOption := by
  have hlookup := lookup_insertAllM (loops_of_rebuildRouter hrebuild).1 pool
  rw [hlookup]
  simp

theorem lookup_modelMap_of_rebuildRouter (model : String) :
    router.modelMap.lookup model =
      (sections.modelRouting.lookup model).bind fun route =>
        (routeEntry sections.poolConfigs route).toOption := by
  have hlookup := lookup_insertAllM (loops_of_rebuildRouter hrebuild).2 model
  rw [hlookup, filter_entries]
  cases sections.modelRouting.lookup model with
  | none => rfl
  | some => simp

theorem lookup_poolConfigs_of_rebuildRouter
    (hentry : router.modelMap.lookup model = some entry) :
    sections.poolConfigs.lookup entry.poolId = some entry.pool := by
  rw [lookup_modelMap_of_rebuildRouter hrebuild] at hentry
  obtain ⟨route, -, hroute⟩ := Option.bind_eq_some_iff.mp hentry
  obtain ⟨hid, hpool⟩ := routeEntry_eq_ok (Except.toOption_eq_some_iff.mp hroute)
  rw [hid]
  exact hpool

theorem exists_routeEntry_of_rebuildRouter {route : ModelRouting}
    (hroute : sections.modelRouting.lookup model = some route) :
    ∃ entry, router.modelMap.lookup model = some entry ∧ entry.poolId = route.poolId ∧
      sections.poolConfigs.lookup route.poolId = some entry.pool := by
  have hall := (insertAllM_isOk_iff _ _ _ _).mp
    ⟨router.modelMap, (loops_of_rebuildRouter hrebuild).2⟩
  have hmem : (⟨model, route⟩ : Σ _ : String, ModelRouting) ∈ sections.modelRouting.entries :=
    AList.mem_lookup_iff.mp hroute
  obtain ⟨entry, hentry⟩ := hall _ hmem
  refine ⟨entry, ?_, routeEntry_eq_ok hentry⟩
  rw [lookup_modelMap_of_rebuildRouter hrebuild, hroute, Option.bind_some, hentry]
  rfl

theorem lookup_providers_isSome_iff (pool : String) :
    (router.providers.lookup pool).isSome = true ↔
      ∃ config ∈ sections.providers, config.poolId = pool := by
  have hall := (insertAllM_isOk_iff _ _ _ _).mp
    ⟨router.providers, (loops_of_rebuildRouter hrebuild).1⟩
  rw [lookup_providers_of_rebuildRouter hrebuild]
  cases hlast : (sections.providers.filter fun config => config.poolId = pool).getLast? with
  | none =>
    simpa using hlast
  | some config =>
    have hmem := List.mem_filter.mp (List.mem_of_getLast? hlast)
    obtain ⟨provider, hprovider⟩ := hall config hmem.1
    simp only [Option.bind_some, hprovider, Except.toOption, Option.isSome_some, true_iff]
    exact ⟨config, hmem.1, by simpa using hmem.2⟩

end

theorem Router.mem_modelList_iff {Provider : Type} {router : Router Provider} :
    model ∈ router.modelList ↔ (router.modelMap.lookup model).isSome = true := by
  rw [AList.lookup_isSome]
  exact List.mem_mergeSort

theorem Router.resolve_eq_ok_iff {Provider : Type} {router : Router Provider}
    {provider : Provider} :
    router.resolve model = .ok (provider, entry) ↔
      router.modelMap.lookup model = some entry ∧
        router.providers.lookup entry.poolId = some provider := by
  unfold Router.resolve
  cases hentry : router.modelMap.lookup model with
  | none => simp
  | some found =>
    cases hprovider : router.providers.lookup found.poolId with
    | none =>
      simp only [hprovider, reduceCtorEq, Option.some.injEq, false_iff, not_and]
      rintro rfl
      simp [hprovider]
    | some =>
      simp only [hprovider, Except.ok.injEq, Prod.mk.injEq, Option.some.injEq]
      constructor
      · rintro ⟨rfl, rfl⟩
        exact ⟨rfl, hprovider⟩
      · rintro ⟨rfl, howner⟩
        rw [hprovider] at howner
        exact ⟨Option.some.inj howner, rfl⟩

/-- Every model that a rebuilt router lists can be called exactly if every pool that is routed
to has a provider in the snapshot. -/
theorem rebuildRouter_listed_callable_iff (registry : ProviderRegistry)
    (badStatusCodes : List UInt16) (sections : RoutingSnapshot) (router : Router UpstreamProvider)
    (hrebuild : rebuildRouter registry badStatusCodes sections = .ok router) :
    (∀ model ∈ router.modelList, ∃ provider entry,
        router.resolve model = .ok (provider, entry) ∧
          sections.poolConfigs.lookup entry.poolId = some entry.pool) ↔
      ∀ model route, sections.modelRouting.lookup model = some route →
        ∃ config ∈ sections.providers, config.poolId = route.poolId := by
  constructor
  · intro hcallable model route hroute
    obtain ⟨entry, hentry, hpool, -⟩ := exists_routeEntry_of_rebuildRouter hrebuild hroute
    have hlisted : model ∈ router.modelList := by
      rw [Router.mem_modelList_iff, hentry]
      rfl
    obtain ⟨provider, found, hresolve, -⟩ := hcallable model hlisted
    obtain ⟨hfound, hprovider⟩ := Router.resolve_eq_ok_iff.mp hresolve
    have hsame : found = entry := Option.some.inj (hfound.symm.trans hentry)
    rw [← lookup_providers_isSome_iff hrebuild, ← hpool, ← hsame, hprovider]
    rfl
  · intro hproviders model hlisted
    rw [Router.mem_modelList_iff, lookup_modelMap_of_rebuildRouter hrebuild] at hlisted
    obtain ⟨route, hroute⟩ : ∃ route, sections.modelRouting.lookup model = some route := by
      cases hlookup : sections.modelRouting.lookup model with
      | none => simp [hlookup] at hlisted
      | some route => exact ⟨route, rfl⟩
    obtain ⟨entry, hentry, hpool, hconfig⟩ := exists_routeEntry_of_rebuildRouter hrebuild hroute
    have hsome := (lookup_providers_isSome_iff hrebuild _).mpr (hproviders model route hroute)
    obtain ⟨provider, hprovider⟩ := Option.isSome_iff_exists.mp hsome
    refine ⟨provider, entry, Router.resolve_eq_ok_iff.mpr ⟨hentry, ?_⟩, ?_⟩
    · rw [hpool]
      exact hprovider
    · rw [hpool]
      exact hconfig

def poolProvider : ProviderConfig where
  id := "u"
  poolId := "p"
  baseUrl := "u"
  kind := .openAi
  metadata := .obj []

def pooledSections (providers : List ProviderConfig) : RoutingSnapshot where
  providers := providers
  poolConfigs := AList.singleton "p" twoKeyPool
  modelRouting := AList.singleton "m" (.simple "p")

def pooledRouter (providers : AList fun _ : String => UpstreamProvider) : Router UpstreamProvider :=
  ⟨AList.singleton "m" ⟨"p", twoKeyPool, none, none⟩, providers⟩

theorem listed_callable_with_provider :
    (pooledRouter (AList.singleton "p" ⟨⟨.openAi, "u"⟩, "u", [401]⟩)).modelList = ["m"] ∧
      ∀ model ∈ (pooledRouter (AList.singleton "p" ⟨⟨.openAi, "u"⟩, "u", [401]⟩)).modelList,
        ∃ provider entry,
          (pooledRouter (AList.singleton "p" ⟨⟨.openAi, "u"⟩, "u", [401]⟩)).resolve model =
              .ok (provider, entry) ∧
            (pooledSections [poolProvider]).poolConfigs.lookup entry.poolId = some entry.pool := by
  refine ⟨by decide +kernel, ?_⟩
  refine (rebuildRouter_listed_callable_iff .boot [401] (pooledSections [poolProvider]) _ rfl).mpr
    fun model route hroute => ⟨poolProvider, List.mem_cons_self, ?_⟩
  cases List.mem_singleton.mp (AList.mem_lookup_iff.mp hroute)
  rfl

/-- A model is listed although its pool has no provider. -/
theorem listed_without_provider :
    rebuildRouter .boot [401] (pooledSections []) = .ok (pooledRouter ∅) ∧
      (pooledRouter ∅).modelList = ["m"] ∧
      ((pooledRouter ∅).resolve "m").isOk = false :=
  ⟨rfl, by decide +kernel, rfl⟩

end LlmProxy
