import LlmProxy.ExportRoundTrip
import LlmProxy.ModelAdmin

/-!
# Whether an export can be imported

`Config::validate` on the document that `admin_api_config_export` writes, after a valid document
was imported and edited in the administration interface.  A pool cannot be deleted while a route
refers to it, but it can while a provider does: `provider_config.pool_id` is no foreign key.
-/

namespace LlmProxy

open Attempt Json List Option StatementScript StepSystem

variable {Cost : Type}

/-! ## What validation asks -/

def KeyEntry.Usable (entry : KeyEntry) : Prop :=
  if entry.isOauth then
    (KeyEntry.nonEmpty entry.refresh).isSome = true ∧ (KeyEntry.nonEmpty entry.issuer).isSome = true
  else entry.key.isEmpty = false

theorem checkKey_eq_ok_iff {poolId : String} {key : KeyEntry × ℕ} :
    Config.checkKey poolId key = .ok () ↔ key.1.Usable := by
  unfold Config.checkKey KeyEntry.Usable
  split_ifs
  · rw [Except.bind_eq_ok_iff]
    constructor
    · rintro ⟨_, hrefresh, hissuer⟩
      exact ⟨ensure_eq_ok_iff.mp hrefresh, ensure_eq_ok_iff.mp hissuer⟩
    · rintro ⟨hrefresh, hissuer⟩
      exact ⟨(), ensure_eq_ok_iff.mpr hrefresh, ensure_eq_ok_iff.mpr hissuer⟩
  · rw [ensure_eq_ok_iff, Bool.not_eq_true']

theorem usable_of_checkNewKey {emptyKey : String} {entry : KeyEntry}
    (hcheck : checkNewKey emptyKey entry = .ok ()) : entry.Usable := by
  obtain ⟨_, -, hsecret⟩ := Except.bind_eq_ok_iff.mp hcheck
  unfold KeyEntry.Usable
  split_ifs at hsecret ⊢
  · simpa [ensure_eq_ok_iff] using hsecret
  · simpa [ensure_eq_ok_iff] using hsecret

structure Config.Closed (config : Config Cost) : Prop where
  routes : ∀ route ∈ config.modelToPool.entries,
    (config.pools.lookup route.2.poolId).isSome = true
  providers : ∀ provider ∈ config.providers, (config.pools.lookup provider.poolId).isSome = true
  keys : ∀ pool ∈ config.pools.entries, ∀ key ∈ pool.2.keys, key.Usable

variable {config : Config Cost}

theorem closed_iff_checks :
    config.Closed ↔
      config.modelToPool.entries.forM (Config.checkRoute config.pools) = .ok () ∧
        config.providers.forM (Config.checkProvider config.pools) = .ok () ∧
        (config.pools.entries.forM fun pool =>
          pool.2.keys.zipIdx.forM (Config.checkKey pool.1)) = .ok () := by
  simp only [Except.forM_eq_ok_iff, Config.checkRoute, Config.checkProvider, ensure_eq_ok_iff,
    checkKey_eq_ok_iff]
  constructor
  · rintro ⟨hroutes, hproviders, hkeys⟩
    refine ⟨hroutes, hproviders, fun pool hpool key hkey => ?_⟩
    exact hkeys pool hpool key.1 (fst_mem_of_mem_zipIdx hkey)
  · rintro ⟨hroutes, hproviders, hkeys⟩
    refine ⟨hroutes, hproviders, fun pool hpool key hkey => ?_⟩
    obtain ⟨i, hi⟩ := mem_iff_getElem?.mp hkey
    exact hkeys pool hpool (key, i) (mem_zipIdx_iff_getElem?.mpr hi)

variable [Float64 Cost]

theorem closed_of_validate (hvalid : config.validate = .ok ()) : config.Closed := by
  unfold Config.validate at hvalid
  simp only [Except.bind_eq_ok_iff] at hvalid
  obtain ⟨_, hroutes, _, hproviders, _, hkeys, -⟩ := hvalid
  exact closed_iff_checks.mpr ⟨hroutes, hproviders, hkeys⟩

theorem validate_iff_closed (hregistry : config.modelRegistry = []) :
    config.validate = .ok () ↔ config.Closed := by
  refine ⟨closed_of_validate, fun hclosed => ?_⟩
  obtain ⟨hroutes, hproviders, hkeys⟩ := closed_iff_checks.mp hclosed
  unfold Config.validate
  simp only [Except.bind_eq_ok_iff]
  refine ⟨(), hroutes, (), hproviders, (), hkeys, [], ?_, rfl⟩
  rw [hregistry]
  rfl

/-! ## Tables -/

def ProviderRow.Served (row : ProviderRow) : Prop :=
  row.enabled = true ∧ ∃ kind, strToProviderKind row.kind = .ok kind

structure Database.Sound (db : Database Cost) : Prop where
  rows : db.Rows ProviderRow.Served (fun row => row.load.Usable) fun row => row.enabled = true
  pools : ∀ pool ∈ db.pools.rows, pool.enabled = true
  routed : ∀ row ∈ db.routing, db.HasPool row.poolId
  limits : ∀ row ∈ db.registry.rows, row.Fits

/-- Every provider has its pool. -/
def Database.Tied (db : Database Cost) : Prop :=
  ∀ provider ∈ db.providers.rows, db.HasPool provider.poolId

structure Database.Reroutes (before after : Database Cost) : Prop where
  pools : after.pools = before.pools
  keys : after.keys = before.keys
  providers : after.providers.rows ⊆ before.providers.rows
  routing : ∀ row ∈ after.routing,
    row ∈ before.routing ∨ row.enabled = true ∧ before.HasPool row.poolId
  registry : (∀ row ∈ before.registry.rows, row.Fits) → ∀ row ∈ after.registry.rows, row.Fits

section

omit [Float64 Cost]

variable {before after : Database Cost}

theorem Database.Reroutes.hasPool_iff (hreroutes : before.Reroutes after) (poolId : String) :
    after.HasPool poolId ↔ before.HasPool poolId := by
  rw [Database.HasPool, hreroutes.pools, Database.HasPool]

theorem Database.Sound.reroutes (hsound : before.Sound) (hreroutes : before.Reroutes after) :
    after.Sound := by
  refine ⟨⟨fun row hrow => hsound.rows.providers row (hreroutes.providers hrow), ?_, ?_⟩, ?_, ?_,
    hreroutes.registry hsound.limits⟩
  · rw [hreroutes.keys]
    exact hsound.rows.keys
  · intro row hrow
    rcases hreroutes.routing row hrow with hold | hnew
    · exact hsound.rows.routing row hold
    · exact hnew.1
  · rw [hreroutes.pools]
    exact hsound.pools
  · intro row hrow
    rw [hreroutes.hasPool_iff]
    rcases hreroutes.routing row hrow with hold | hnew
    · exact hsound.routed row hold
    · exact hnew.2

theorem Database.Tied.reroutes (htied : before.Tied) (hreroutes : before.Reroutes after) :
    after.Tied := by
  intro provider hprovider
  rw [hreroutes.hasPool_iff]
  exact htied provider (hreroutes.providers hprovider)

theorem reroutes_reroute (before : Database Cost)
    {registry : KeyedTable fun row : RegistryRow Cost => row.id}
    (hregistry : (∀ row ∈ before.registry.rows, row.Fits) → ∀ row ∈ registry.rows, row.Fits)
    (model : String) {target : Option String}
    (htarget : ∀ poolId, target = some poolId → before.HasPool poolId) :
    before.Reroutes (Database.reroute { before with registry := registry } model target) := by
  cases target with
  | none => exact ⟨rfl, rfl, List.Subset.refl _, fun row hrow => .inl hrow, hregistry⟩
  | some poolId =>
    refine ⟨rfl, rfl, List.Subset.refl _, fun row hrow => ?_, hregistry⟩
    rcases mem_append.mp hrow with hold | hnew
    · exact .inl (mem_of_mem_filter hold)
    · rw [mem_singleton.mp hnew]
      exact .inr ⟨rfl, htarget poolId rfl⟩

theorem hasPool_of_routingPool {providerConfigId : Option String} {enabled : Bool}
    {target : Option String} (hpool : routingPool before providerConfigId enabled = .ok target) :
    ∀ poolId, target = some poolId → before.HasPool poolId := by
  rintro poolId rfl
  unfold routingPool at hpool
  split at hpool
  · cases hpool
  · split_ifs at hpool
    · obtain ⟨found, -, hrest⟩ := Except.bind_eq_ok_iff.mp hpool
      obtain ⟨_, hserves, hsame⟩ := Except.bind_eq_ok_iff.mp hrest
      cases hsame
      exact hasPool_of_servesPool (ensure_eq_ok_iff.mp hserves)
    · cases hpool

end

inductive EditEffect (before after : Database Cost) : AdminEdit → Prop
  | appends {edit pools keys providers routing}
      (happends : before.Appends after pools keys providers routing)
      (hpools : ∀ pool ∈ pools, pool.enabled = true)
      (hproviders : ∀ provider ∈ providers, before.HasPool provider.poolId)
      (hrouting : ∀ row ∈ routing, before.HasPool row.poolId) : EditEffect before after edit
  | reroutes {edit} (hreroutes : before.Reroutes after) : EditEffect before after edit
  | deletes {poolId} (hpools : after.pools = before.pools.filter fun row => row.id ≠ poolId)
      (hproviders : after.providers = before.providers) (hrouting : after.routing = before.routing)
      (hregistry : after.registry = before.registry)
      (hrouted : ∀ row ∈ after.routing, after.HasPool row.poolId) :
      EditEffect before after (.deletePool poolId)

section

omit [Float64 Cost]

variable [Sha256] [SerdeJson] {before after : Database Cost} {edit : AdminEdit}

theorem AdminEdit.effect_of_run (hrun : edit.run before = .ok after) :
    EditEffect before after edit := by
  cases edit with
  | createProvider =>
    simp only [run, LlmProxy.createProvider, Except.bind_eq_ok_iff] at hrun
    obtain ⟨-, -, -, -, -, -, -, -, -, -, _, hserves, hinsert⟩ := hrun
    split at hinsert
    · cases hinsert
    · refine .appends (Database.insertProvider_eq_ok (apply_call_eq_ok_iff.mp hinsert)) (by simp)
        ?_ (by simp)
      exact forall_mem_singleton.mpr (hasPool_of_servesPool (ensure_eq_ok_iff.mp hserves))
  | deleteProvider =>
    cases hrun
    exact .reroutes ⟨rfl, rfl, filter_subset_self _, fun row hrow => .inl hrow, id⟩
  | createPool =>
    obtain ⟨middle, hpool, hkeys⟩ := applyAll_cons_eq_ok_iff.mp hrun
    have hcreated := Database.insertPool_eq_ok (apply_call_eq_ok_iff.mp hpool)
    have hgrown : ∃ keys, middle.Appends after [] keys [] [] := by
      refine applyAll_invariant (fun db => ∃ keys, middle.Appends db [] keys [] []) ?_
        ⟨[], .refl middle⟩ hkeys
      rintro step hstep first next ⟨keys, hkeys⟩ hnext
      obtain ⟨key, -, rfl⟩ := List.mem_map.mp hstep
      split at hnext
      · exact ⟨_, hkeys.trans (Database.insertKey_eq_ok (apply_call_eq_ok_iff.mp hnext))⟩
      · cases hnext
    obtain ⟨keys, happends⟩ := hgrown
    exact .appends (hcreated.trans happends) (by simp) (by simp) (by simp)
  | addPoolKey =>
    simp only [run, LlmProxy.addPoolKey, Except.bind_eq_ok_iff] at hrun
    obtain ⟨-, -, -, -, hinsert⟩ := hrun
    exact .appends (Database.insertKey_eq_ok (apply_call_eq_ok_iff.mp hinsert)) (by simp) (by simp)
      (by simp)
  | deletePool =>
    obtain ⟨middle, hkeys, hrest⟩ := applyAll_cons_eq_ok_iff.mp hrun
    obtain ⟨last, hpools, hlast⟩ := applyAll_cons_eq_ok_iff.mp hrest
    cases hlast
    cases apply_call_eq_ok_iff.mp hkeys
    have hdelete := apply_call_eq_ok_iff.mp hpools
    unfold Database.deletePools at hdelete
    simp only at hdelete
    split_ifs at hdelete with hrouted
    cases hdelete
    exact .deletes rfl rfl rfl rfl hrouted
  | createRouting =>
    simp only [run, LlmProxy.createRouting, Except.bind_eq_ok_iff] at hrun
    obtain ⟨_, hserves, hinsert⟩ := hrun
    refine .appends (Database.insertRouting_eq_ok (apply_call_eq_ok_iff.mp hinsert)) (by simp)
      (by simp) ?_
    exact forall_mem_singleton.mpr (hasPool_of_servesPool (ensure_eq_ok_iff.mp hserves))
  | deleteRouting =>
    cases hrun
    exact .reroutes
      ⟨rfl, rfl, List.Subset.refl _, fun row hrow => .inl (mem_of_mem_filter hrow), id⟩
  | ensureModelRouting logicalModel providerConfigId enabled =>
    rw [run, ensureModelRouting_eq] at hrun
    cases htarget : routingPool before providerConfigId enabled with
    | error =>
      rw [htarget] at hrun
      cases hrun
    | ok =>
      rw [htarget] at hrun
      cases hrun
      exact .reroutes (reroutes_reroute before id logicalModel (hasPool_of_routingPool htarget))

theorem AdminEdit.writes_of_run (hrun : edit.run before = .ok after) :
    edit.Writes ProviderRow.Served (fun row => row.load.Usable) fun row => row.enabled = true := by
  cases edit with
  | createProvider =>
    simp only [run, LlmProxy.createProvider, Except.bind_eq_ok_iff] at hrun
    obtain ⟨-, -, -, -, -, -, -, -, _, hkind, -⟩ := hrun
    intro text _ _
    refine ⟨rfl, ?_⟩
    have hknown := contains_iff_mem.mp (ensure_eq_ok_iff.mp hkind)
    simp only [mem_cons, not_mem_nil, or_false] at hknown
    rcases hknown with hkind | hkind | hkind
    all_goals
      rw [hkind]
      exact ⟨_, rfl⟩
  | createPool =>
    obtain ⟨middle, -, hkeys⟩ := applyAll_cons_eq_ok_iff.mp hrun
    intro key hkey
    obtain ⟨first, next, hstep⟩ := exists_apply_of_applyAll hkeys (List.mem_map_of_mem hkey)
    split at hstep
    · next hcheck =>
      rw [load_keyRow]
      exact usable_of_checkNewKey hcheck
    · cases hstep
  | addPoolKey poolId req =>
    simp only [run, LlmProxy.addPoolKey, Except.bind_eq_ok_iff] at hrun
    obtain ⟨_, hcheck, -⟩ := hrun
    show (keyRow poolId req.toKeyEntry).load.Usable
    rw [load_keyRow]
    exact usable_of_checkNewKey hcheck
  | createRouting => rfl
  | ensureModelRouting => exact fun _ => rfl
  | _ => trivial

theorem Database.Sound.run (hsound : before.Sound) (hrun : edit.run before = .ok after) :
    after.Sound := by
  have hrows := edit.rows_run hsound.rows (edit.writes_of_run hrun) hrun
  cases edit.effect_of_run hrun with
  | appends happends hpools hproviders hrouting =>
    have hgrown : ∀ poolId, before.HasPool poolId → after.HasPool poolId := by
      intro poolId hpool
      rw [Database.HasPool, happends.pools, map_append]
      exact mem_append_left _ hpool
    refine ⟨hrows, ?_, ?_, happends.registry ▸ hsound.limits⟩
    · rw [happends.pools]
      exact forall_mem_append.mpr ⟨hsound.pools, hpools⟩
    · rw [happends.routing]
      exact fun row hrow => hgrown _
        (forall_mem_append.mpr ⟨hsound.routed, hrouting⟩ row hrow)
  | reroutes hreroutes => exact hsound.reroutes hreroutes
  | deletes hpools hproviders hrouting hregistry hrouted =>
    refine ⟨hrows, ?_, hrouted, hregistry ▸ hsound.limits⟩
    rw [hpools]
    exact fun pool hpool => hsound.pools pool (mem_of_mem_filter hpool)

theorem Database.Tied.run (htied : before.Tied) (hrun : edit.run before = .ok after)
    (hspares : ∀ poolId, edit = .deletePool poolId →
      ∀ provider ∈ before.providers.rows, provider.poolId ≠ poolId) : after.Tied := by
  cases edit.effect_of_run hrun with
  | appends happends hpools hproviders =>
    intro provider hprovider
    rw [happends.providers] at hprovider
    rw [Database.HasPool, happends.pools, map_append]
    exact mem_append_left _
      (forall_mem_append.mpr ⟨htied, hproviders⟩ provider hprovider)
  | reroutes hreroutes => exact htied.reroutes hreroutes
  | deletes hpools hproviders =>
    intro provider hprovider
    rw [hproviders] at hprovider
    obtain ⟨pool, hpool, hid⟩ := List.mem_map.mp (htied provider hprovider)
    rw [Database.HasPool, hpools]
    refine List.mem_map.mpr ⟨pool, mem_filter.mpr ⟨hpool, decide_eq_true ?_⟩, hid⟩
    rw [hid]
    exact hspares _ rfl provider hprovider

end

/-! ## The interface -/

/-- A call to the interface; after an edit the snapshot is refreshed. -/
inductive AdminAction (Cost : Type)
  | edited (nowMs : ℤ) (edit : AdminEdit)
  | requested (nowMs : ℤ) (request : ModelRequest Cost)

def AdminAction.Spares (state : AdminState Cost) (action : AdminAction Cost) : Prop :=
  ∀ nowMs poolId, action = .edited nowMs (.deletePool poolId) →
    ∀ provider ∈ state.db.providers.rows, provider.poolId ≠ poolId

section

variable [Sha256] [SerdeJson]

def AdminState.step (state : AdminState Cost) : AdminAction Cost → Option (AdminState Cost)
  | .edited nowMs edit =>
    match edit.run state.db with
    | .error _ => some state
    | .ok db =>
      let edited := { state with db := db }
      some ((edited.refresh nowMs).toOption.getD edited)
  | .requested nowMs request => some (call (request.run nowMs) state).1

structure AdminState.Sound (state : AdminState Cost) : Prop where
  tables : state.db.Sound
  providers : loadProviders state.db.providers.rows = .ok state.snapshot.providers
  pools : state.snapshot.poolConfigs = loadPools state.db.pools.rows state.db.keys
  routing : state.snapshot.modelRouting = loadRouting state.db.routing

omit [Sha256] in
theorem refresh_of_sound (state : AdminState Cost) (hsound : state.db.Sound) (nowMs : ℤ) :
    ∃ next, state.refresh nowMs = .ok next ∧ next.db = state.db ∧ next.Sound := by
  obtain ⟨providers, hproviders⟩ :=
    exists_loadProviders fun row hrow => (hsound.rows.providers row hrow).2
  have hrefresh : state.snapshot.refreshFromDb { db := state.db, nowMs := nowMs } = .ok _ :=
    ConfigSnapshot.refreshFromDb_eq_ok_iff.mpr
      ⟨⟨fun _ => rfl, hsound.limits⟩, providers, hproviders, rfl⟩
  refine ⟨_, congrArg (Except.map _) hrefresh, rfl, ?_⟩
  exact ⟨hsound, hproviders, rfl, rfl⟩

variable {state : AdminState Cost}

omit [Sha256] in
theorem finish_of_sound {nowMs : ℤ} {row : RegistryRow Cost} (hsound : state.db.Sound) :
    (finish nowMs row state).1.Sound := by
  obtain ⟨next, hrefresh, -, hnext⟩ := refresh_of_sound state hsound nowMs
  rw [finish, hrefresh]
  exact hnext

omit [Sha256] in
theorem sound_of_request (hsound : state.Sound) (nowMs : ℤ) (request : ModelRequest Cost) :
    (call (request.run nowMs) state).1.Sound ∧
      state.db.Reroutes (call (request.run nowMs) state).1.db := by
  have hkept : state.db.Reroutes state.db :=
    ⟨rfl, rfl, List.Subset.refl _, fun row hrow => .inl hrow, id⟩
  cases request with
  | create req =>
    rw [ModelRequest.run, call_adminApiCreateModel]
    split
    · exact ⟨hsound, hkept⟩
    split
    · exact ⟨hsound, hkept⟩
    next db hinsert =>
    split
    · exact ⟨hsound, hkept⟩
    · next target htarget =>
      have hreroutes : state.db.Reroutes (db.reroute req.id target) := by
        obtain ⟨-, hrows, -, hdb⟩ := insertModel_eq_ok hinsert
        rw [hdb]
        refine reroutes_reroute state.db ?_ req.id (hasPool_of_routingPool htarget)
        rw [hrows]
        exact fun hfits => forall_mem_append.mpr
          ⟨hfits, forall_mem_singleton.mpr (fits_createRow req)⟩
      rw [db_finish]
      exact ⟨finish_of_sound (hsound.tables.reroutes hreroutes), hreroutes⟩
  | update id patch =>
    cases hfound : state.db.findModel id with
    | error =>
      rw [ModelRequest.run, call_adminApiUpdateModel_of_error hfound]
      exact ⟨hsound, hkept⟩
    | ok row =>
      obtain ⟨⟨hrow, rfl⟩, hfits⟩ := findModel_eq_ok_iff.mp hfound
      have hregistry := (fits_updateModel_iff patch hrow hfits).mpr
      rw [ModelRequest.run, call_adminApiUpdateModel hrow hfits]
      split
      · exact ⟨hsound, hkept⟩
      split
      · -- the update has written its row and fails
        have hreroutes : state.db.Reroutes (state.db.updateModel (patch.merge row)) :=
          ⟨rfl, rfl, List.Subset.refl _, fun row hrow => .inl hrow, hregistry⟩
        exact ⟨⟨hsound.tables.reroutes hreroutes, hsound.providers, hsound.pools,
          hsound.routing⟩, hreroutes⟩
      · next target htarget =>
        have hreroutes : state.db.Reroutes
            ((state.db.updateModel (patch.merge row)).reroute row.id target) :=
          reroutes_reroute state.db hregistry row.id (hasPool_of_routingPool htarget)
        rw [db_finish]
        exact ⟨finish_of_sound (hsound.tables.reroutes hreroutes), hreroutes⟩

theorem AdminState.Sound.step {next : AdminState Cost} {action : AdminAction Cost}
    (hsound : state.Sound) (hstep : state.step action = some next) :
    next.Sound ∧ (state.db.Tied → action.Spares state → next.db.Tied) := by
  cases action with
  | edited nowMs edit =>
    simp only [AdminState.step] at hstep
    cases hrun : edit.run state.db with
    | error =>
      rw [hrun] at hstep
      cases hstep
      exact ⟨hsound, fun htied _ => htied⟩
    | ok db =>
      have hdb := hsound.tables.run hrun
      obtain ⟨refreshed, hrefresh, hsame, hnext⟩ :=
        refresh_of_sound { state with db := db } hdb nowMs
      rw [hrun] at hstep
      simp only [hrefresh, Except.toOption, getD_some, some.injEq] at hstep
      subst hstep
      refine ⟨hnext, fun htied hspares => ?_⟩
      rw [hsame]
      exact htied.run hrun fun poolId hedit => hspares nowMs poolId (hedit ▸ rfl)
  | requested nowMs request =>
    cases hstep
    obtain ⟨hnext, hreroutes⟩ := sound_of_request hsound nowMs request
    exact ⟨hnext, fun htied _ => htied.reroutes hreroutes⟩

end

section

variable [SerdeJson]

omit [Float64 Cost] [SerdeJson] in
theorem exists_toConfig (snapshot : ConfigSnapshot Cost) :
    ∃ config : Config Cost, snapshot.exportDocument.toConfig = .ok config := by
  obtain ⟨providers, hproviders⟩ : ∃ providers, snapshot.exportDocument.providers.mapM
      ProviderConfig.ofValue = .ok providers := by
    refine Except.exists_mapM fun value hvalue => ?_
    obtain ⟨provider, -, rfl⟩ := List.mem_map.mp hvalue
    exact ⟨provider, provider.ofValue_toExportValue⟩
  obtain ⟨routes, hroutes⟩ := (KeyedFold.insertAllM_isOk_iff Sigma.fst
    (fun entry : Σ _ : String, Value => ModelRouting.ofValue entry.2) ∅
      snapshot.exportDocument.modelToPool.entries).mpr fun entry hentry => by
    obtain ⟨route, -, rfl⟩ := List.mem_map.mp hentry
    obtain ⟨read, hread, -⟩ := route.2.ofValue_toExportValue
    exact ⟨read, hread⟩
  exact ⟨_, Except.bind_eq_ok_iff.mpr ⟨providers, hproviders,
    Except.bind_eq_ok_iff.mpr ⟨routes, hroutes, rfl⟩⟩⟩

variable {state : AdminState Cost} {config : Config Cost}

omit [Float64 Cost] in
theorem pools_iff_hasPool (hsound : state.Sound) (hread : config.ReadFrom state.snapshot)
    (poolId : String) : (config.pools.lookup poolId).isSome = true ↔ state.db.HasPool poolId := by
  rw [hread.pools, isSome_map, hsound.pools, lookup_loadPools,
    filter_eq_self.mpr hsound.tables.pools, Database.HasPool]
  split_ifs with hpool
  · simp [hpool]
  · simp [hpool]

omit [Float64 Cost] in
theorem poolIds_of_loadProviders {rows : List ProviderRow} {providers : List ProviderConfig}
    (hload : loadProviders rows = .ok providers) :
    (rows.filter ProviderRow.enabled).map ProviderRow.poolId =
      providers.map ProviderConfig.poolId := by
  rw [← forall₂_eq_eq_eq, forall₂_map_left_iff, forall₂_map_right_iff]
  refine (Except.mapM_eq_ok_iff.mp hload).imp fun row provider hrow => ?_
  obtain ⟨kind, -, hsame⟩ := Except.bind_eq_ok_iff.mp hrow
  cases hsame
  rfl

omit [Float64 Cost] in
theorem closed_iff_tied (hsound : state.Sound) (hread : config.ReadFrom state.snapshot) :
    config.Closed ↔ state.db.Tied := by
  have hproviders : (∀ provider ∈ config.providers,
      (config.pools.lookup provider.poolId).isSome = true) ↔ state.db.Tied := by
    have hids := poolIds_of_loadProviders hsound.providers
    rw [filter_eq_self.mpr fun row hrow => (hsound.tables.rows.providers row hrow).1] at hids
    simp only [pools_iff_hasPool hsound hread, hread.providers, Database.Tied]
    rw [← List.forall_mem_map, ← hids, List.forall_mem_map]
  refine ⟨fun hclosed => hproviders.mp hclosed.providers,
    fun htied => ⟨fun route hroute => ?_, hproviders.mpr htied, fun pool hpool key hkey => ?_⟩⟩
  · have hparts := hread.routing route.1
    rw [AList.mem_lookup_iff.mpr hroute, map_some, hsound.routing, eq_comm,
      map_eq_some_iff] at hparts
    obtain ⟨loaded, hloaded, hsame⟩ := hparts
    obtain ⟨row, hrow, rfl⟩ := exists_of_lookup_loadRouting hloaded
    have hpool : row.load.poolId = row.poolId := by
      unfold RoutingRow.load
      dsimp only
      split_ifs <;> rfl
    have hsamePool : row.load.poolId = route.2.poolId := congrArg Prod.fst hsame
    rw [pools_iff_hasPool hsound hread, ← hsamePool, hpool]
    exact hsound.tables.routed row hrow
  · have hlookup := hread.pools pool.1
    rw [AList.mem_lookup_iff.mpr hpool, hsound.pools, eq_comm, map_eq_some_iff] at hlookup
    obtain ⟨loaded, hloaded, hsame⟩ := hlookup
    rw [← hsame] at hkey
    obtain ⟨entry, hentry, rfl⟩ := List.mem_map.mp hkey
    obtain ⟨row, hrow, rfl⟩ := forall_of_lookup_loadPools hloaded entry hentry
    exact hsound.tables.rows.keys row hrow

variable [Sha256] [SerdeYaml Cost]

def Store.admin (store : Store Cost) : AdminState Cost := ⟨store.db, store.snapshot⟩

omit [Float64 Cost] [SerdeYaml Cost] in
theorem sound_of_replaces {before after : Database Cost} (hreplaces : Replaces before after config)
    (hclosed : config.Closed) (hfits : ∀ row ∈ after.registry.rows, row.Fits) :
    after.Sound ∧ after.Tied := by
  have hpool : ∀ poolId, (config.pools.lookup poolId).isSome = true → after.HasPool poolId := by
    intro poolId hpool
    rw [AList.lookup_isSome, AList.mem_keys, AList.keys, List.keys] at hpool
    rw [Database.HasPool, hreplaces.pools, List.map_map]
    exact hpool
  refine ⟨⟨⟨?_, ?_, ?_⟩, ?_, ?_, hfits⟩, ?_⟩
  · rw [hreplaces.providers]
    exact List.forall_mem_map.mpr fun provider _ => ⟨rfl, _, kind_providerRow provider⟩
  · rw [hreplaces.keys]
    simp only [mem_flatMap, List.mem_map]
    rintro row ⟨pool, hmem, key, hkey, rfl⟩
    rw [load_keyRow]
    exact hclosed.keys pool hmem key hkey
  · rw [hreplaces.routing]
    exact List.forall_mem_map.mpr fun _ _ => rfl
  · rw [hreplaces.pools]
    exact List.forall_mem_map.mpr fun _ _ => rfl
  · rw [hreplaces.routing]
    exact List.forall_mem_map.mpr fun route hroute => hpool _ (hclosed.routes route hroute)
  · unfold Database.Tied
    rw [hreplaces.providers]
    exact List.forall_mem_map.mpr fun given hgiven => hpool _ (hclosed.providers given hgiven)

theorem sound_of_importYaml {store imported : Store Cost} {run : ImportRun} {text : Text}
    (himport : store.importYaml run text = (imported, .ok ())) :
    imported.admin.Sound ∧ imported.db.Tied := by
  rcases importYaml_cases run text store with ⟨e, hfailed⟩ | ⟨config, db, hvalid, hrun, hrest⟩
  · rw [hfailed] at himport
    cases himport
  rcases hrest with ⟨e, hfailed⟩ | ⟨snapshot, hdone, hrefresh⟩
  · rw [hfailed] at himport
    cases himport
  rw [hdone] at himport
  cases himport
  obtain ⟨⟨-, hfits⟩, providers, hproviders, rfl⟩ :=
    ConfigSnapshot.refreshFromDb_eq_ok_iff.mp hrefresh
  obtain ⟨hsound, htied⟩ := sound_of_replaces (replaces_of_applyAll (applyAll_of_runAll hrun))
    (closed_of_validate (validateYaml_eq_ok_iff.mp hvalid).2) hfits
  exact ⟨⟨hsound, hproviders, rfl, rfl⟩, htied⟩

/-- After an import and any calls to the interface the exported document passes validation exactly
if every provider has its pool; so it does if no pool was deleted that a provider referred to. -/
theorem export_valid_iff_tied (store imported : Store Cost) (run : ImportRun) (text : Text)
    (himport : store.importYaml run text = (imported, .ok ())) (actions : List (AdminAction Cost))
    (state : AdminState Cost) (hrun : Run AdminState.step imported.admin actions state)
    (exported : Text)
    (hyaml : SerdeYaml.fromStr exported =
      (state.snapshot.exportDocument.toConfig : Except String (Config Cost))) :
    ((∃ config : Config Cost, validateYaml exported = .ok config) ↔ state.db.Tied) ∧
      (GuardedRun AdminState.step AdminAction.Spares imported.admin actions state →
        ∃ config : Config Cost, validateYaml exported = .ok config) := by
  obtain ⟨hinitial, htied⟩ := sound_of_importYaml himport
  have hsound : state.Sound :=
    hrun.invariant AdminState.Sound (fun _ _ _ hsound _ hstep => (hsound.step hstep).1) hinitial
  obtain ⟨config, hconfig⟩ := exists_toConfig state.snapshot
  have hread := readFrom_of_toConfig hconfig
  have hiff : (∃ config : Config Cost, validateYaml exported = .ok config) ↔ state.db.Tied := by
    rw [← closed_iff_tied hsound hread, ← validate_iff_closed hread.registry]
    simp only [validateYaml_eq_ok_iff, hyaml, hconfig]
    simp
  refine ⟨hiff, fun hspared => hiff.mpr ?_⟩
  refine (hspared.invariant (fun s => s.Sound ∧ s.db.Tied) ?_ ⟨hinitial, htied⟩).2
  intro s action next hs hspares hstep
  obtain ⟨hnext, hkept⟩ := hs.1.step hstep
  exact ⟨hnext, hkept hs.2 hspares⟩

end

section

attribute [local instance] jsonText zeroSha256

def pooledConfig (missing : Bool) : Config ℚ where
  pools := if missing then ∅ else AList.singleton "p" ⟨[]⟩
  providers := [⟨"o", "p", "u", .openAi, .obj []⟩]
  modelToPool := ∅
  modelRegistry := []
  noIdentity := by cases missing <;> simp

@[reducible] def pooledYaml : SerdeYaml ℚ := ⟨fun text => .ok (pooledConfig !text.isEmpty)⟩

attribute [local instance] pooledYaml

def bareStore : Store ℚ := ⟨.empty, .default, 0⟩

def pooledStore : Store ℚ := (bareStore.importYaml { nowMs := 0 } []).1

def orphanState : AdminState ℚ :=
  (pooledStore.admin.step (.edited 0 (.deletePool "p"))).getD pooledStore.admin

theorem toConfig_pooledStore :
    pooledStore.snapshot.exportDocument.toConfig = .ok (pooledConfig false) := by
  with_unfolding_all rfl

theorem toConfig_orphanState :
    orphanState.snapshot.exportDocument.toConfig = .ok (pooledConfig true) := by
  with_unfolding_all rfl

theorem pooledStore_exports_valid : ∃ config : Config ℚ, validateYaml [] = .ok config :=
  (export_valid_iff_tied bareStore pooledStore { nowMs := 0 } [] rfl [] pooledStore.admin
    (.nil _) [] toConfig_pooledStore.symm).2 (.nil _)

theorem orphan_provider_exported :
    bareStore.importYaml { nowMs := 0 } [] = (pooledStore, .ok ()) ∧
      pooledStore.admin.step (.edited 0 (.deletePool "p")) = some orphanState ∧
      SerdeYaml.fromStr ['x'] =
        (orphanState.snapshot.exportDocument.toConfig : Except String (Config ℚ)) ∧
      (validateYaml ['x'] : Except AppError (Config ℚ)) =
        .error (.config "Provider 'o' references pool 'p' which does not exist") :=
  ⟨rfl, rfl, toConfig_orphanState.symm, rfl⟩

end

end LlmProxy
