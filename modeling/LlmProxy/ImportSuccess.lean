import LlmProxy.ConfigImport

/-!
# Documents that pass validation

`validate_yaml` answers a dry run, `import_yaml` writes the document.  The two agree on
everything the schema asks for but one thing: the table of providers has a primary key, and
validation does not look for an id that is given twice.
-/

namespace LlmProxy

open Json List StatementScript Database

variable {Cost : Type} {config : Config Cost} {before : Database Cost}

section

variable [Sha256] [SerdeJson]

omit [SerdeJson] in
theorem exists_keySteps (poolId : String) (keys : List KeyEntry) (hpool : before.HasPool poolId) :
    ∃ after, applyAll (keys.map fun key => statement "import key"
      (Database.insertKey (keyRow poolId key))) before = .ok after := by
  refine exists_applyAll (fun db => db.HasPool poolId) ?_ hpool
  intro step hstep db hdb
  obtain ⟨key, -, rfl⟩ := mem_map.mp hstep
  obtain ⟨after, hinsert⟩ := exists_insertKey (keyRow poolId key) hdb
  exact ⟨after, apply_call_eq_ok_iff.mpr hinsert,
    ((insertKey_eq_ok hinsert).hasPool_iff poolId).mpr (.inl hdb)⟩

omit [SerdeJson] in
theorem exists_poolSteps {entries : List (Σ _ : String, PoolConfig)} (hnodup : entries.NodupKeys)
    (before : Database Cost) (hfresh : ∀ pool ∈ entries, ¬before.HasPool pool.1) :
    ∃ after, applyAll (entries.flatMap poolSteps) before = .ok after := by
  induction entries generalizing before with
  | nil => exact ⟨before, rfl⟩
  | cons pool rest ih =>
    rw [forall_mem_cons] at hfresh
    obtain ⟨opened, hopen⟩ := exists_insertPool { id := pool.1 } hfresh.1
    have hopened := insertPool_eq_ok hopen
    obtain ⟨filled, hfill⟩ := exists_keySteps pool.1 pool.2.keys
      ((hopened.hasPool_iff pool.1).mpr (.inr (by simp)))
    have hturn : applyAll (poolSteps pool) before = .ok filled :=
      applyAll_cons_eq_ok_iff.mpr ⟨opened, apply_call_eq_ok_iff.mpr hopen, hfill⟩
    have hrest : ∀ other ∈ rest, ¬filled.HasPool other.1 := by
      intro other hother hhas
      rcases ((appends_poolSteps pool before filled hturn).hasPool_iff other.1).mp hhas with
        hbefore | hsame
      · exact hfresh.2 other hother hbefore
      · have hkey : other.1 = pool.1 := by simpa using hsame
        exact (nodupKeys_cons.mp hnodup).1 (hkey ▸ mem_map_of_mem hother)
    obtain ⟨after, hafter⟩ := ih (nodupKeys_cons.mp hnodup).2 filled hrest
    exact ⟨after, applyAll_append_eq_ok_iff.mpr ⟨filled, hturn, hafter⟩⟩

omit [Sha256] in
theorem exists_providerSteps {providers : List ProviderConfig}
    (hnodup : (providers.map ProviderConfig.id).Nodup) (before : Database Cost)
    (hfresh : ∀ provider ∈ providers, provider.id ∉ before.providers.rows.map ProviderRow.id) :
    ∃ after, applyAll (providers.map providerStep) before = .ok after := by
  induction providers generalizing before with
  | nil => exact ⟨before, rfl⟩
  | cons provider rest ih =>
    rw [forall_mem_cons] at hfresh
    rw [map_cons, nodup_cons] at hnodup
    obtain ⟨middle, hinsert⟩ :=
      exists_insertProvider (providerRow provider) hfresh.1
    have hrest : ∀ other ∈ rest, other.id ∉ middle.providers.rows.map ProviderRow.id := by
      intro other hother hmem
      rw [(insertProvider_eq_ok hinsert).providers, map_append,
        mem_append] at hmem
      rcases hmem with hbefore | hsame
      · exact hfresh.2 other hother hbefore
      · have hid : other.id = provider.id := by simpa [providerRow] using hsame
        exact hnodup.1 (hid ▸ mem_map_of_mem hother)
    obtain ⟨after, hafter⟩ := ih hnodup.2 middle hrest
    exact ⟨after, applyAll_cons_eq_ok_iff.mpr
      ⟨middle, apply_call_eq_ok_iff.mpr hinsert, hafter⟩⟩

omit [Sha256] in
theorem exists_routingSteps (routes : List (Σ _ : String, ModelRouting)) (before : Database Cost)
    (hpools : ∀ route ∈ routes, before.HasPool route.2.poolId) :
    ∃ after, applyAll (routes.map routingStep) before = .ok after := by
  refine exists_applyAll (fun db => ∀ route ∈ routes, db.HasPool route.2.poolId) ?_ hpools
  intro step hstep db hdb
  obtain ⟨route, hroute, rfl⟩ := mem_map.mp hstep
  obtain ⟨after, hinsert⟩ :=
    exists_insertRouting (routingRow route.1 route.2) (hdb route hroute)
  exact ⟨after, apply_call_eq_ok_iff.mpr hinsert, fun other hother =>
    ((insertRouting_eq_ok hinsert).hasPool_iff _).mpr (.inl (hdb other hother))⟩

omit [Sha256] in
theorem exists_registrySteps (jsonError : String) {entries : List (ModelRegistryConfig Cost)}
    (hprints : ∀ entry ∈ entries, ∃ text, SerdeJson.toString entry.capabilitiesJson = some text)
    (before : Database Cost) :
    ∃ after, applyAll (entries.map (registryStep jsonError)) before = .ok after := by
  refine exists_applyAll (fun _ => True) ?_ trivial
  intro step hstep db _
  obtain ⟨entry, hentry, rfl⟩ := mem_map.mp hstep
  obtain ⟨text, htext⟩ := hprints entry hentry
  unfold registryStep
  split_ifs with hnull
  · exact ⟨_, apply_call_eq_ok_iff.mpr rfl, trivial⟩
  · rw [htext]
    exact ⟨_, apply_call_eq_ok_iff.mpr rfl, trivial⟩

theorem exists_importSteps (jsonError : String)
    (hids : (config.providers.map ProviderConfig.id).Nodup)
    (hroutes : ∀ route ∈ config.modelToPool.entries,
      (config.pools.lookup route.2.poolId).isSome = true) (hprints : ∀ entry ∈ config.modelRegistry,
      ∃ text, SerdeJson.toString entry.capabilitiesJson = some text) (before : Database Cost) :
    ∃ after, applyAll (importSteps jsonError config) before = .ok after := by
  -- the pools come first, so that keys and routes find theirs
  obtain ⟨pooled, hpools⟩ := exists_poolSteps config.pools.nodupKeys
    before.cleared (by simp [Database.HasPool, Database.cleared])
  have hpooled := appends_of_flatMap appends_poolSteps hpools
  obtain ⟨provided, hproviders⟩ := exists_providerSteps hids pooled (by
    simp [hpooled.providers, Database.cleared])
  have hprovided := hpooled.trans (appends_providerSteps hproviders)
  obtain ⟨routed, hrouting⟩ := exists_routingSteps config.modelToPool.entries provided (by
    intro route hroute
    have hkey := AList.lookup_isSome.mp (hroutes route hroute)
    rw [AList.mem_keys, AList.keys, List.keys] at hkey
    rw [hprovided.hasPool_iff]
    refine .inr ?_
    simpa [← map_eq_flatMap] using hkey)
  obtain ⟨registered, hregistry⟩ := exists_registrySteps jsonError hprints routed
  refine ⟨registered, ?_⟩
  unfold importSteps
  simp only [applyAll_append_eq_ok_iff, applyAll_clearSteps]
  exact ⟨registered, ⟨routed, ⟨provided, ⟨pooled, ⟨before.cleared, ⟨before, rfl, rfl⟩, hpools⟩,
    hproviders⟩, hrouting⟩, hregistry⟩, rfl⟩

end

section

variable [SerdeJson]

theorem exists_loadProviders {rows : List ProviderRow}
    (hkinds : ∀ row ∈ rows, ∃ kind, strToProviderKind row.kind = .ok kind) :
    ∃ loaded, loadProviders rows = .ok loaded := by
  refine Except.exists_mapM fun row hrow => ?_
  obtain ⟨kind, hkind⟩ := hkinds row (mem_of_mem_filter hrow)
  exact ⟨_, Except.bind_eq_ok_iff.mpr ⟨kind, hkind, rfl⟩⟩

theorem kind_providerRow (provider : ProviderConfig) :
    strToProviderKind (providerRow provider).kind = .ok provider.kind :=
  strToProviderKind_toStr provider.kind

variable [Sha256] [Float64 Cost]

theorem exists_refreshFromDb_iff {after : Database Cost} (hreplaces : Replaces before after config)
    (current : ConfigSnapshot Cost) (nowMs : ℤ) :
    (∃ snapshot, current.refreshFromDb { db := after, nowMs := nowMs } = .ok snapshot) ↔
      ∀ row ∈ before.registry.rows, (∀ entry ∈ config.modelRegistry, entry.id ≠ row.id) →
        row.Fits := by
  constructor
  · rintro ⟨snapshot, hrefresh⟩ row hrow hother
    obtain ⟨⟨-, hfits⟩, -⟩ := ConfigSnapshot.refreshFromDb_eq_ok_iff.mp hrefresh
    have hkept := hreplaces.registry (fun id => id = row.id) (by simpa using hother)
    have hmem : row ∈ before.registry.rows.filter fun other => other.id = row.id := by
      simp [hrow]
    rw [← hkept] at hmem
    exact hfits row (mem_of_mem_filter hmem)
  · intro hlimits
    have hfits : ∀ row ∈ after.registry.rows, row.Fits := by
      intro row hrow
      rcases hreplaces.limits row hrow with hfits | ⟨hbefore, hother⟩
      · exact hfits
      · exact hlimits row hbefore hother
    have hload := loadProviders_providerRow config.providers
    rw [← hreplaces.providers] at hload
    exact ⟨_, ConfigSnapshot.refreshFromDb_eq_ok_iff.mpr ⟨⟨fun _ => rfl, hfits⟩, _, hload, rfl⟩⟩

end

section

variable [Float64 Cost] [SerdeYaml Cost]

theorem routes_of_validateYaml {text : Text} (hvalid : validateYaml text = .ok config) :
    ∀ route ∈ config.modelToPool.entries, (config.pools.lookup route.2.poolId).isSome = true := by
  obtain ⟨-, hchecks⟩ := validateYaml_eq_ok_iff.mp hvalid
  simp only [Config.validate, Except.bind_eq_ok_iff] at hchecks
  obtain ⟨_, hroutes, -⟩ := hchecks
  exact fun route hroute => ensure_eq_ok_iff.mp (Except.forM_eq_ok_iff.mp hroutes route hroute)

variable [Sha256] [SerdeJson]

/-- A document that validates is refused for the primary key of the providers, and for a registry
row that it does not name and whose limits the refresh after the commit cannot load. -/
theorem importYaml_ok_iff_of_validateYaml (hjson : SerdeJson.Lawful) (run : ImportRun)
    (hwritable : run.faults = fun _ => none) (hreadable : run.readFault = fun _ => none)
    (yaml : Text) (config : Config Cost) (hvalid : validateYaml yaml = .ok config)
    (store : Store Cost) :
    (store.importYaml run yaml).2 = .ok () ↔
      (config.providers.map ProviderConfig.id).Nodup ∧
        ∀ row ∈ store.db.registry.rows, (∀ entry ∈ config.modelRegistry, entry.id ≠ row.id) →
          row.Fits := by
  constructor
  · intro hok
    rcases importYaml_cases run yaml store with
      ⟨e, hfailed⟩ | ⟨other, db, hother, hrun, ⟨e, hfailed⟩ | ⟨snapshot, -, hrefresh⟩⟩
    · rw [hfailed] at hok
      cases hok
    · rw [hfailed] at hok
      cases hok
    · cases hvalid.symm.trans hother
      have hreplaces := replaces_of_applyAll (applyAll_of_runAll hrun)
      have hids : db.providers.rows.map ProviderRow.id =
          config.providers.map ProviderConfig.id := by
        rw [hreplaces.providers, map_map]
        rfl
      rw [hreadable] at hrefresh
      exact ⟨hids ▸ db.providers.nodup,
        (exists_refreshFromDb_iff hreplaces store.snapshot run.nowMs).mp ⟨snapshot, hrefresh⟩⟩
  · rintro ⟨hids, hlimits⟩
    obtain ⟨db, hsteps⟩ := exists_importSteps run.jsonError hids (routes_of_validateYaml hvalid)
      (fun entry _ => hjson.prints entry.capabilitiesJson) store.db
    obtain ⟨snapshot, hrefresh⟩ := (exists_refreshFromDb_iff (replaces_of_applyAll hsteps)
      store.snapshot run.nowMs).mpr hlimits
    rw [importYaml_of_applyAll hwritable hvalid hsteps (by rw [hreadable]; exact hrefresh)]

end

section

attribute [local instance] jsonText zeroSha256 keyedYaml

theorem importYaml_ok_keyedConfig : (routedStore.importYaml { nowMs := 5 } []).2 = .ok () :=
  (importYaml_ok_iff_of_validateYaml jsonText_lawful { nowMs := 5 } rfl rfl [] keyedConfig rfl
    routedStore).mpr ⟨by decide, by decide⟩

end

section

attribute [local instance] jsonText zeroSha256

def twiceConfig : Config ℚ :=
  { keyedConfig with
    providers := [⟨"u", "p", "first", .openAi, .null⟩, ⟨"u", "p", "second", .openAi, .null⟩] }

@[reducible] def twiceYaml : SerdeYaml ℚ := ⟨fun _ => .ok twiceConfig⟩

attribute [local instance] twiceYaml

/-- Validation accepts the document, the import of it fails. -/
theorem importYaml_refuses_twiceConfig :
    validateYaml [] = .ok twiceConfig ∧
      (routedStore.importYaml { nowMs := 5 } []).2 = .error (.internal
        ("ConfigStore import provider: error returned from database: (code: 1555) " ++
          "UNIQUE constraint failed: provider_config.id")) :=
  ⟨rfl, rfl⟩

end

end LlmProxy
