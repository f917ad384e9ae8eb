import LlmProxy.ConfigStatements
import LlmProxy.ConfigStore

/-!
# Importing a configuration document

`import_yaml` of `config_store.rs` with the validation of `config/mod.rs`.  One transaction replaces
the pools, keys, providers and routes and updates the registry.
-/

namespace LlmProxy

open Json List Option StatementScript ModelRouting

/-! ## Documents -/

structure ModelRegistryConfig (Cost : Type) where
  id : String
  displayName : String
  providerKind : String
  providerConfigId : Option String := none
  supportsVision : Bool := false
  supportsToolCalling : Bool := false
  supportsJsonMode : Bool := false
  maxContextTokens : Int32 := 4096
  maxOutputTokens : Int32 := 4096
  inputPricePer1m : Option Cost := none
  outputPricePer1m : Option Cost := none
  capabilitiesJson : Value := .null
  enabled : Bool := true

/-- The sections of a document that an import reads.  `identity` is not a field of a key in a
document. -/
structure Config (Cost : Type) where
  pools : AList fun _ : String => PoolConfig
  providers : List ProviderConfig
  modelToPool : AList fun _ : String => ModelRouting
  modelRegistry : List (ModelRegistryConfig Cost)
  noIdentity : ∀ entry ∈ pools.entries, ∀ key ∈ entry.2.keys, key.identity = none

class SerdeYaml (Cost : Type) where
  fromStr : Text → Except String (Config Cost)

variable {Cost : Type}

def ensure (holds : Bool) (error : AppError) : Except AppError Unit :=
  if holds then .ok () else .error error

theorem ensure_eq_ok_iff {holds : Bool} {error : AppError} :
    ensure holds error = .ok () ↔ holds = true := by
  unfold ensure
  cases holds with
  | false => simp
  | true => simp

def blank (s : String) : Bool := (trim s.toList).isEmpty

namespace Config

variable (pools : AList fun _ : String => PoolConfig)

def checkRoute (route : Σ _ : String, ModelRouting) : Except AppError Unit :=
  let model := route.1
  let poolId := route.2.poolId
  ensure (pools.lookup poolId).isSome
    (.config s!"Model '{model}' references pool '{poolId}' which does not exist")

def checkProvider (provider : ProviderConfig) : Except AppError Unit :=
  let id := provider.id
  let poolId := provider.poolId
  ensure (pools.lookup poolId).isSome
    (.config s!"Provider '{id}' references pool '{poolId}' which does not exist")

def checkKey (poolId : String) (key : KeyEntry × ℕ) : Except AppError Unit :=
  let i := key.2
  if key.1.isOauth then do
    ensure (KeyEntry.nonEmpty key.1.refresh).isSome
      (.config s!"Pool '{poolId}' key {i} oauth credential is missing refresh")
    ensure (KeyEntry.nonEmpty key.1.issuer).isSome
      (.config s!"Pool '{poolId}' key {i} oauth credential is missing issuer")
  else ensure (!key.1.key.isEmpty) (.config s!"Pool '{poolId}' key {i} has empty key")

def isNull : Value → Bool
  | .null => true
  | _ => false

def checkRegistry [Float64 Cost] (providers : List ProviderConfig) (seen : List String)
    (entry : ModelRegistryConfig Cost) : Except AppError (List String) := do
  let id := entry.id
  ensure (!blank entry.id) (.config "model_registry entry id must be non-empty")
  ensure (!blank entry.displayName)
    (.config s!"model_registry entry '{id}' display_name must be non-empty")
  ensure (!blank entry.providerKind)
    (.config s!"model_registry entry '{id}' provider_kind must be non-empty")
  ensure (0 < entry.maxContextTokens && 0 < entry.maxOutputTokens)
    (.config s!"model_registry entry '{id}' token limits must be positive")
  [entry.inputPricePer1m, entry.outputPricePer1m].reduceOption.forM fun price =>
    ensure (Float64.isFinite price && !Float64.isNegative price)
      (.config s!"model_registry entry '{id}' prices must be finite and non-negative")
  ensure (isNull entry.capabilitiesJson || isObject entry.capabilitiesJson)
    (.config s!"model_registry entry '{id}' capabilities_json must be an object")
  entry.providerConfigId.toList.forM fun providerId => do
    ensure (!blank providerId)
      (.config s!"model_registry entry '{id}' provider_config_id cannot be empty")
    ensure (providers.any fun provider => provider.id = providerId)
      (.config s!"model_registry entry '{id}' references unknown provider '{providerId}'")
  ensure (!seen.contains entry.id) (.config s!"duplicate model_registry id '{id}'")
  return entry.id :: seen

/-- The first error is returned, in this order. -/
def validate [Float64 Cost] (config : Config Cost) : Except AppError Unit := do
  config.modelToPool.entries.forM (checkRoute config.pools)
  config.providers.forM (checkProvider config.pools)
  config.pools.entries.forM fun pool => pool.2.keys.zipIdx.forM (checkKey pool.1)
  let _ ← config.modelRegistry.foldlM (checkRegistry config.providers) []

end Config

/-- The document is parsed, then checked. -/
def validateYaml [Float64 Cost] [SerdeYaml Cost] (yaml : Text) : Except AppError (Config Cost) :=
  match SerdeYaml.fromStr yaml with
  | .error e => .error (.config s!"Failed to parse import document: {e}")
  | .ok config => do
      config.validate
      return config

/-! ## The transaction -/

def objectMetadata (metadata : Value) : Value := if isObject metadata then metadata else .obj []

def registryRow (entry : ModelRegistryConfig Cost) (capabilities : Option Text) :
    RegistryRow Cost where
  id := entry.id
  displayName := entry.displayName
  providerKind := entry.providerKind
  providerConfigId := entry.providerConfigId
  supportsVision := entry.supportsVision
  supportsToolCalling := entry.supportsToolCalling
  supportsJsonMode := entry.supportsJsonMode
  maxContextTokens := entry.maxContextTokens.toInt
  maxOutputTokens := entry.maxOutputTokens.toInt
  inputPricePer1m := entry.inputPricePer1m
  outputPricePer1m := entry.outputPricePer1m
  capabilitiesJson := capabilities
  enabled := entry.enabled

theorem fits_registryRow (entry : ModelRegistryConfig Cost) (capabilities : Option Text) :
    (registryRow entry capabilities).Fits :=
  ⟨fitsI32_toInt _, fitsI32_toInt _⟩

def statement (label : String) (effect : Database Cost → Except String (Database Cost)) :
    Step (Database Cost) AppError :=
  .call (fun e => .internal s!"ConfigStore {label}: {e}") effect

def clearSteps : List (Step (Database Cost) AppError) :=
  [statement "clear routing" (Database.deleteRouting fun _ => false),
    statement "clear keys" (Database.deleteKeys fun _ => false),
    statement "clear pools" (Database.deletePools fun _ => false),
    statement "clear providers" (Database.deleteProviders fun _ => false)]

section

variable [Sha256] [SerdeJson]

/-- `serde_json::to_string(v).unwrap_or_default()`. -/
def jsonColumn (value : Value) : Text := (SerdeJson.toString value).getD []

variable (provider : ProviderConfig)

def providerRow : ProviderRow where
  id := provider.id
  kind := providerKindToStr provider.kind
  baseUrl := provider.baseUrl
  poolId := provider.poolId
  metadata := some (jsonColumn (objectMetadata provider.metadata))

def routingRow (model : String) (route : ModelRouting) : RoutingRow where
  logicalModel := model
  poolId := route.poolId
  defaultParams := route.defaultParams.map jsonColumn
  upstreamModel := route.upstreamModel

def poolSteps (pool : Σ _ : String, PoolConfig) : List (Step (Database Cost) AppError) :=
  statement "import pool" (Database.insertPool { id := pool.1 }) ::
    pool.2.keys.map fun key => statement "import key" (Database.insertKey (keyRow pool.1 key))

def providerStep : Step (Database Cost) AppError :=
  statement "import provider" (Database.insertProvider (providerRow provider))

def routingStep (route : Σ _ : String, ModelRouting) : Step (Database Cost) AppError :=
  statement "import routing" (Database.insertRouting (routingRow route.1 route.2))

def registryStep (jsonError : String) (entry : ModelRegistryConfig Cost) :
    Step (Database Cost) AppError :=
  if Config.isNull entry.capabilitiesJson then
    statement "import model_registry" (Database.upsertRegistry (registryRow entry none))
  else
    match SerdeJson.toString entry.capabilitiesJson with
    | some text =>
      statement "import model_registry" (Database.upsertRegistry (registryRow entry (some text)))
    | none =>
      let id := entry.id
      .fail (.config s!"model_registry entry '{id}' capabilities_json serialize: {jsonError}")

def importSteps (jsonError : String) (config : Config Cost) :
    List (Step (Database Cost) AppError) :=
  [statement "begin import transaction" .ok] ++ clearSteps ++
    config.pools.entries.flatMap poolSteps ++
    config.providers.map providerStep ++ config.modelToPool.entries.map routingStep ++
    config.modelRegistry.map (registryStep jsonError) ++ [statement "commit import" .ok]

end

/-- The database and the snapshot a process serves from; `commits` counts the transactions that
were committed. -/
structure Store (Cost : Type) where
  db : Database Cost
  snapshot : ConfigSnapshot Cost
  commits : ℕ := 0

/-- What an import meets: the calls of its transaction that fail, the reads of the refresh that
fail, and the time. -/
structure ImportRun where
  faults : ℕ → Option String := fun _ => none
  readFault : ManagedTable → Option String := fun _ => none
  nowMs : ℤ
  jsonError : String := ""

/-- The snapshot is refreshed after the commit; if that fails, the tables have changed. -/
def Store.importYaml [Sha256] [SerdeJson] [Float64 Cost] [SerdeYaml Cost] (run : ImportRun)
    (yaml : Text) (store : Store Cost) : Store Cost × Except AppError Unit :=
  match validateYaml yaml with
  | .error e => (store, .error e)
  | .ok config =>
    match runAll run.faults (importSteps run.jsonError config) store.db 0 with
    | .error e => (store, .error e)
    | .ok db =>
      match store.snapshot.refreshFromDb
          { db := db, nowMs := run.nowMs, fault := run.readFault } with
      | .error e => ({ store with db := db, commits := store.commits + 1 }, .error e)
      | .ok snapshot => (⟨db, snapshot, store.commits + 1⟩, .ok ())

/-! ## What the transaction leaves -/

def Database.cleared (db : Database Cost) : Database Cost :=
  { db with providers := .empty, pools := .empty, keys := [], routing := [] }

theorem applyAll_clearSteps (db : Database Cost) : applyAll clearSteps db = .ok db.cleared := by
  have hfilter : ∀ {Row K : Type} {key : Row → K} (table : KeyedTable key),
      (table.filter fun _ => false) = .empty := by
    intro Row K key table
    apply KeyedTable.ext
    simp
  simp [clearSteps, applyAll, statement, Step.apply, Database.deleteRouting, Database.deleteKeys,
    Database.deletePools, Database.deleteProviders, Database.cleared, hfilter, bind, Except.bind,
    pure, Except.pure]

variable {before after : Database Cost} {jsonError : String}

theorem applyAll_statement_iff {label : String}
    {effect : Database Cost → Except String (Database Cost)} :
    applyAll [statement label effect] before = .ok after ↔ effect before = .ok after := by
  rw [applyAll_cons_eq_ok_iff]
  simp [statement]

theorem flatMap_const_nil {A B : Type} (items : List A) :
    (items.flatMap fun _ => ([] : List B)) = [] :=
  flatMap_eq_nil_iff.mpr fun _ _ => rfl

theorem appends_of_flatMap {X : Type} {steps : X → List (Step (Database Cost) AppError)}
    {pools : X → List PoolRow} {keys : X → List KeyRow} {providers : X → List ProviderRow}
    {routing : X → List RoutingRow}
    (hturn : ∀ x before after, applyAll (steps x) before = .ok after →
      before.Appends after (pools x) (keys x) (providers x) (routing x)) {xs : List X}
    (happly : applyAll (xs.flatMap steps) before = .ok after) :
    before.Appends after (xs.flatMap pools) (xs.flatMap keys) (xs.flatMap providers)
      (xs.flatMap routing) := by
  induction xs generalizing before with
  | nil =>
    cases happly
    exact .refl _
  | cons x rest ih =>
    rw [flatMap_cons, applyAll_append_eq_ok_iff] at happly
    obtain ⟨middle, hfirst, hrest⟩ := happly
    exact (hturn x _ _ hfirst).trans (ih hrest)

theorem appends_keySteps [Sha256] (poolId : String) {keys : List KeyEntry}
    (happly : applyAll (keys.map fun key => statement "import key"
      (Database.insertKey (keyRow poolId key))) before = .ok after) :
    before.Appends after [] (keys.map (keyRow poolId)) [] [] := by
  rw [map_eq_flatMap] at happly
  have hloop := appends_of_flatMap (fun key before after hkey =>
    Database.insertKey_eq_ok (applyAll_statement_iff.mp hkey)) happly
  simpa [← map_eq_flatMap, flatMap_const_nil] using hloop

theorem appends_poolSteps [Sha256] (pool : Σ _ : String, PoolConfig) (before after : Database Cost)
    (happly : applyAll (poolSteps pool) before = .ok after) :
    before.Appends after [{ id := pool.1 }] (pool.2.keys.map (keyRow pool.1)) [] [] := by
  obtain ⟨middle, hpool, hkeys⟩ := applyAll_cons_eq_ok_iff.mp happly
  have hfirst := Database.insertPool_eq_ok (apply_call_eq_ok_iff.mp hpool)
  exact hfirst.trans (appends_keySteps pool.1 hkeys)

variable {providers : List ProviderConfig}

theorem appends_providerSteps [SerdeJson]
    (happly : applyAll (providers.map providerStep) before = .ok after) :
    before.Appends after [] [] (providers.map providerRow) [] := by
  rw [map_eq_flatMap] at happly
  have hloop := appends_of_flatMap (fun provider before after hprovider =>
    Database.insertProvider_eq_ok (applyAll_statement_iff.mp hprovider)) happly
  simpa [← map_eq_flatMap, flatMap_const_nil] using hloop

theorem appends_routingSteps [SerdeJson] {routes : List (Σ _ : String, ModelRouting)}
    (happly : applyAll (routes.map routingStep) before = .ok after) :
    before.Appends after [] [] [] (routes.map fun route => routingRow route.1 route.2) := by
  rw [map_eq_flatMap] at happly
  have hloop := appends_of_flatMap (fun route before after hroute =>
    Database.insertRouting_eq_ok (applyAll_statement_iff.mp hroute)) happly
  simpa [← map_eq_flatMap, flatMap_const_nil] using hloop

theorem apply_registryStep [SerdeJson] {entry : ModelRegistryConfig Cost}
    (happly : (registryStep jsonError entry).apply before = .ok after) :
    ∃ row, row.id = entry.id ∧ row.Fits ∧
      after = { before with registry := before.registry.upsert row } := by
  unfold registryStep at happly
  split_ifs at happly with hnull
  · cases apply_call_eq_ok_iff.mp happly
    exact ⟨_, rfl, fits_registryRow _ _, rfl⟩
  · cases htext : SerdeJson.toString entry.capabilitiesJson with
    | none =>
      rw [htext] at happly
      cases happly
    | some =>
      rw [htext] at happly
      cases apply_call_eq_ok_iff.mp happly
      exact ⟨_, rfl, fits_registryRow _ _, rfl⟩

theorem applyAll_registrySteps [SerdeJson] {entries : List (ModelRegistryConfig Cost)}
    (happly : applyAll (entries.map (registryStep jsonError)) before = .ok after) :
    ∃ registry, after = { before with registry := registry } ∧
      (∀ p : String → Bool, (∀ entry ∈ entries, p entry.id = false) →
        (registry.rows.filter fun row => p row.id) =
          before.registry.rows.filter fun row => p row.id) ∧
      ∀ row ∈ registry.rows, row.Fits ∨
        row ∈ before.registry.rows ∧ ∀ entry ∈ entries, entry.id ≠ row.id := by
  induction entries generalizing before with
  | nil =>
    cases happly
    exact ⟨after.registry, rfl, fun _ _ => rfl, fun row hrow => .inr ⟨hrow, by simp⟩⟩
  | cons entry rest ih =>
    rw [map_cons, applyAll_cons_eq_ok_iff] at happly
    obtain ⟨middle, hentry, hrest⟩ := happly
    obtain ⟨row, hid, hfits, rfl⟩ := apply_registryStep hentry
    obtain ⟨registry, rfl, hkept, hrows⟩ := ih hrest
    refine ⟨registry, rfl, fun p hother => ?_, fun other hmem => ?_⟩
    · rw [hkept p fun other hmem => hother other (mem_cons_of_mem _ hmem)]
      apply KeyedTable.filter_rows_upsert
      rw [hid]
      exact hother entry mem_cons_self
    · rcases hrows other hmem with hother | ⟨hupserted, hrest⟩
      · exact .inl hother
      rcases KeyedTable.mem_upsert_iff.mp hupserted with rfl | ⟨hbefore, hne⟩
      · exact .inl hfits
      · exact .inr ⟨hbefore, forall_mem_cons.mpr ⟨by rwa [← hid, ne_comm], hrest⟩⟩

section

variable [Sha256] [SerdeJson]

structure Replaces (before after : Database Cost) (config : Config Cost) : Prop where
  pools : after.pools.rows = config.pools.entries.map fun pool => { id := pool.1 }
  keys : after.keys = config.pools.entries.flatMap fun pool => pool.2.keys.map (keyRow pool.1)
  providers : after.providers.rows = config.providers.map providerRow
  routing : after.routing = config.modelToPool.entries.map fun route => routingRow route.1 route.2
  overrides : after.overrides = before.overrides
  registry : ∀ p : String → Bool, (∀ entry ∈ config.modelRegistry, p entry.id = false) →
    (after.registry.rows.filter fun row => p row.id) =
      before.registry.rows.filter fun row => p row.id
  limits : ∀ row ∈ after.registry.rows, row.Fits ∨
    row ∈ before.registry.rows ∧ ∀ entry ∈ config.modelRegistry, entry.id ≠ row.id

theorem replaces_of_applyAll {config : Config Cost}
    (happly : applyAll (importSteps jsonError config) before = .ok after) :
    Replaces before after config := by
  unfold importSteps at happly
  simp only [applyAll_append_eq_ok_iff, applyAll_statement_iff, applyAll_clearSteps,
    Except.ok.injEq] at happly
  obtain ⟨filled, ⟨routed, ⟨provided, ⟨pooled, ⟨cleared, ⟨begun, rfl, rfl⟩, hpools⟩, hproviders⟩,
    hroutes⟩, hregistry⟩, rfl⟩ := happly
  have hrows := ((appends_of_flatMap appends_poolSteps hpools).trans
    (appends_providerSteps hproviders)).trans (appends_routingSteps hroutes)
  obtain ⟨registry, rfl, hkept, hlimits⟩ := applyAll_registrySteps hregistry
  have hregistry : routed.registry = before.registry := hrows.registry
  constructor
  · simpa [Database.cleared, ← map_eq_flatMap] using hrows.pools
  · simpa [Database.cleared] using hrows.keys
  · simpa [Database.cleared, flatMap_const_nil] using hrows.providers
  · simpa [Database.cleared, flatMap_const_nil] using hrows.routing
  · exact hrows.overrides
  · rwa [hregistry] at hkept
  · rwa [hregistry] at hlimits

end

section

variable [SerdeJson]

/-- What a column gives back for the value it was written from, with the default of a text that
is not JSON. -/
def reloaded (fallback value : Value) : Value :=
  (SerdeJson.fromStr (jsonColumn value)).getD fallback

/-- The metadata and parameters of the document come back from their columns as they are.  A
reader without `float_roundtrip` may give the neighbour of a double with 16 or 17 digits. -/
structure Config.ReadsBack (config : Config Cost) : Prop where
  metadata : ∀ provider ∈ config.providers,
    reloaded (.obj []) (objectMetadata provider.metadata) = objectMetadata provider.metadata
  params : ∀ route ∈ config.modelToPool.entries, ∀ params, route.2.defaultParams = some params →
    reloaded .null params = params

def storedProvider (provider : ProviderConfig) : ProviderConfig :=
  { provider with metadata := objectMetadata provider.metadata }

def reloadedProvider (provider : ProviderConfig) : ProviderConfig :=
  { provider with metadata := reloaded (.obj []) (objectMetadata provider.metadata) }

theorem load_providerRow (provider : ProviderConfig) :
    (providerRow provider).load = .ok (reloadedProvider provider) := by
  simp [ProviderRow.load, providerRow, reloadedProvider, reloaded, bind, Except.bind, pure,
    Except.pure]

theorem loadProviders_providerRow (providers : List ProviderConfig) :
    loadProviders (providers.map providerRow) = .ok (providers.map reloadedProvider) := by
  have henabled : (providers.map providerRow).filter ProviderRow.enabled =
      providers.map providerRow := by
    simp [providerRow]
  rw [loadProviders, henabled, Except.mapM_eq_ok_iff, forall₂_map_left_iff,
    forall₂_map_right_iff, forall₂_same]
  exact fun provider _ => load_providerRow provider

theorem map_reloadedProvider_eq_iff :
    providers.map reloadedProvider = providers.map storedProvider ↔
      ∀ provider ∈ providers,
        reloaded (.obj []) (objectMetadata provider.metadata) =
          objectMetadata provider.metadata := by
  rw [map_inj_left]
  exact forall₂_congr fun provider _ => by simp [reloadedProvider, storedProvider]

variable {route : ModelRouting} {model : String}

theorem load_routingRow :
    (routingRow model route).load =
      if isObject ((route.defaultParams.map (reloaded .null)).getD .null) ||
          route.upstreamModel.isSome then
        .withParams route.poolId ((route.defaultParams.map (reloaded .null)).getD .null)
          route.upstreamModel
      else .simple route.poolId := by
  have hparams : ((route.defaultParams.map jsonColumn).bind SerdeJson.fromStr).getD .null =
      (route.defaultParams.map (reloaded .null)).getD .null := by
    cases route.defaultParams with
    | none => rfl
    | some => rfl
  simp only [RoutingRow.load, routingRow, hparams, trimmedName_upstreamModel]

theorem parts_load_routingRow_iff :
    (routingRow model route).load.parts = route.parts ↔
      ∀ params, route.defaultParams = some params → reloaded .null params = params := by
  have hparts : route.parts = (route.poolId, route.defaultParams, route.upstreamModel) := rfl
  rw [load_routingRow, hparts]
  cases hdefault : route.defaultParams with
  | none =>
    have htrimmed := route.trimmedName_upstreamModel
    cases hupstream : route.upstreamModel with
    | none =>
      simp [isObject, ModelRouting.parts, ModelRouting.poolId, ModelRouting.defaultParams,
        ModelRouting.upstreamModel]
    | some =>
      rw [hupstream] at htrimmed
      simp [isObject, parts_withParams, htrimmed]
  | some params =>
    simp only [map_some, getD_some, some.injEq, forall_eq']
    cases hread : isObject (reloaded .null params) with
    | true => simp [parts_withParams, trimmedName_upstreamModel, hread]
    | false =>
      -- the parameters of the document are an object, so these are others, and they are not shown
      have hother : reloaded .null params ≠ params := by
        intro hsame
        rw [hsame, isObject_of_defaultParams hdefault] at hread
        cases hread
      split_ifs <;> simp [hread, hother, ModelRouting.parts, ModelRouting.defaultParams]

end

section

variable [Sha256]

def KeyEntry.identified (entry : KeyEntry) : KeyEntry :=
  { entry with identity := some entry.identityHash }

theorem load_keyRow (poolId : String) (entry : KeyEntry) :
    (keyRow poolId entry).load = entry.identified := by
  have hweight : UInt32.ofInt (entry.weight.toNat : ℤ) = entry.weight := by
    have hlt := entry.weight.toNat_lt
    rw [← UInt32.toNat_inj]
    simp only [UInt32.ofInt, UInt32.toNat_ofNat']
    omega
  have htype : parseCredType (some (credTypeStr entry.credType)) = entry.credType := by
    cases entry.credType with
    | apiKey => decide +kernel
    | oauth => decide +kernel
  simp only [KeyRow.load, keyRow, hweight, htype, KeyEntry.identified]

theorem poolKeys_map_keyRow (poolId : String) (keys : List KeyEntry) (pool : String) :
    poolKeys (keys.map (keyRow poolId)) pool =
      if poolId = pool then keys.map KeyEntry.identified else [] := by
  have henabled : (keys.map (keyRow poolId)).filter KeyRow.enabled = keys.map (keyRow poolId) := by
    simp [keyRow]
  unfold poolKeys
  rw [henabled]
  split_ifs with hpool
  · have hall : ((keys.map (keyRow poolId)).filter fun row => row.poolId = pool) =
        keys.map (keyRow poolId) := by
      simp [keyRow, hpool]
    rw [hall, List.map_map]
    exact map_congr_left fun key _ => load_keyRow poolId key
  · have hnone : ((keys.map (keyRow poolId)).filter fun row => row.poolId = pool) = [] := by
      simp [keyRow, hpool]
    rw [hnone]
    rfl

theorem poolKeys_flatMap_keyRow (entries : List (Σ _ : String, PoolConfig)) (pool : String) :
    poolKeys (entries.flatMap fun entry => entry.2.keys.map (keyRow entry.1)) pool =
      (entries.filter fun entry => entry.1 = pool).flatMap fun entry =>
        entry.2.keys.map KeyEntry.identified := by
  induction entries with
  | nil => rfl
  | cons entry rest ih =>
    rw [flatMap_cons, poolKeys_append, poolKeys_map_keyRow, ih]
    by_cases hpool : entry.1 = pool
    · rw [if_pos hpool, filter_cons_of_pos (by simpa using hpool), flatMap_cons]
    · rw [if_neg hpool, filter_cons_of_neg (by simpa using hpool), nil_append]

theorem poolKeys_keyRow (pools : AList fun _ : String => PoolConfig) (pool : String) :
    poolKeys (pools.entries.flatMap fun entry => entry.2.keys.map (keyRow entry.1)) pool =
      ((pools.lookup pool).map fun config => config.keys.map KeyEntry.identified).getD [] := by
  rw [poolKeys_flatMap_keyRow, KeyedFold.filter_entries]
  cases pools.lookup pool with
  | none => rfl
  | some => simp

end

section

variable [Sha256] [SerdeJson] {before after : Database Cost} {config : Config Cost}

theorem Replaces.lookup_pools (hreplaces : Replaces before after config) (pool : String) :
    (loadPools after.pools.rows after.keys).lookup pool =
      (config.pools.lookup pool).map fun entry => ⟨entry.keys.map KeyEntry.identified⟩ := by
  rw [lookup_loadPools, hreplaces.keys, poolKeys_keyRow]
  have hmem : pool ∈ (after.pools.rows.filter PoolRow.enabled).map PoolRow.id ↔
      (config.pools.lookup pool).isSome = true := by
    rw [hreplaces.pools, AList.lookup_isSome, AList.mem_keys, AList.keys, List.keys]
    simp [mem_filter]
  cases hpool : config.pools.lookup pool with
  | none =>
    rw [hpool] at hmem
    rw [if_neg (by simpa using hmem)]
    rfl
  | some =>
    rw [hpool] at hmem
    rw [if_pos (by simpa using hmem)]
    rfl

theorem Replaces.lookup_routing (hreplaces : Replaces before after config) (model : String) :
    (loadRouting after.routing).lookup model =
      (config.modelToPool.lookup model).map fun route => (routingRow model route).load := by
  have hrows : after.routing.filter RoutingRow.enabled = after.routing := by
    rw [hreplaces.routing, filter_eq_self]
    intro row hrow
    obtain ⟨route, -, rfl⟩ := List.mem_map.mp hrow
    rfl
  have hmodel : (after.routing.filter fun row => row.logicalModel = model) =
      (config.modelToPool.entries.filter fun route => route.1 = model).map fun route =>
        routingRow route.1 route.2 := by
    rw [hreplaces.routing, List.filter_map]
    rfl
  rw [lookup_loadRouting, hrows, hmodel, KeyedFold.filter_entries]
  cases config.modelToPool.lookup model with
  | none => rfl
  | some => rfl

end

section

variable [Sha256] [SerdeJson] [Float64 Cost] [SerdeYaml Cost]

def KeyEntry.parts (entry : KeyEntry) :
    String × UInt32 × CredentialType × Option String × Option ℤ × Option String × String :=
  (entry.key, entry.weight, entry.credType, entry.refresh, entry.expires, entry.issuer,
    entry.identityHash)

omit [SerdeJson] in
theorem KeyEntry.parts_identified (entry : KeyEntry) : entry.identified.parts = entry.parts := by
  have hhash : entry.identified.identityHash = entry.identityHash := by
    have hkept : KeyEntry.nonEmpty entry.identified.identity = some entry.identityHash := by
      simp [KeyEntry.nonEmpty, KeyEntry.identified, Option.filter, entry.identityHash_ne_empty]
    rw [KeyEntry.identityHash, hkept]
  simp only [KeyEntry.parts, hhash]
  rfl

structure ConfigSnapshot.Shows (snapshot : ConfigSnapshot Cost) (config : Config Cost) : Prop where
  pools : ∀ pool,
    (snapshot.poolConfigs.lookup pool).map (fun entry => entry.keys.map KeyEntry.parts) =
      (config.pools.lookup pool).map fun entry => entry.keys.map KeyEntry.parts
  providers : snapshot.providers = config.providers.map storedProvider
  routing : ∀ model, (snapshot.modelRouting.lookup model).map ModelRouting.parts =
    (config.modelToPool.lookup model).map ModelRouting.parts

variable {config : Config Cost} {snapshot : ConfigSnapshot Cost} {yaml : Text}

omit [Sha256] [SerdeJson] in
theorem validateYaml_eq_ok_iff :
    validateYaml yaml = .ok config ↔
      SerdeYaml.fromStr yaml = .ok config ∧ config.validate = .ok () := by
  unfold validateYaml
  cases hparse : (SerdeYaml.fromStr yaml : Except String (Config Cost)) with
  | error => simp
  | ok =>
    simp only [Except.bind_eq_ok_iff, Except.ok.injEq]
    constructor
    · rintro ⟨_, hvalid, hsame⟩
      cases hsame
      exact ⟨rfl, hvalid⟩
    · rintro ⟨rfl, hvalid⟩
      exact ⟨(), hvalid, rfl⟩

theorem importYaml_cases (run : ImportRun) (yaml : Text) (store : Store Cost) :
    (∃ e, store.importYaml run yaml = (store, .error e)) ∨
      ∃ (config : Config Cost) (db : Database Cost), validateYaml yaml = .ok config ∧
        runAll run.faults (importSteps run.jsonError config) store.db 0 = .ok db ∧
        ((∃ e, store.importYaml run yaml =
            ({ store with db := db, commits := store.commits + 1 }, .error e)) ∨
          ∃ snapshot, store.importYaml run yaml = (⟨db, snapshot, store.commits + 1⟩, .ok ()) ∧
            store.snapshot.refreshFromDb
              { db := db, nowMs := run.nowMs, fault := run.readFault } = .ok snapshot) := by
  unfold Store.importYaml
  cases hvalidate : (validateYaml yaml : Except AppError (Config Cost)) with
  | error e => exact .inl ⟨e, rfl⟩
  | ok config =>
    simp only
    cases hrun : runAll run.faults (importSteps run.jsonError config) store.db 0 with
    | error e => exact .inl ⟨e, rfl⟩
    | ok db =>
      refine .inr ⟨config, db, rfl, hrun, ?_⟩
      simp only
      cases hrefresh : store.snapshot.refreshFromDb
          { db := db, nowMs := run.nowMs, fault := run.readFault } with
      | error e => exact .inl ⟨e, rfl⟩
      | ok snapshot => exact .inr ⟨snapshot, rfl, rfl⟩

theorem importYaml_of_applyAll {run : ImportRun} {store : Store Cost} {db : Database Cost}
    (hfaults : run.faults = fun _ => none) (hvalid : validateYaml yaml = .ok config)
    (hsteps : applyAll (importSteps run.jsonError config) store.db = .ok db)
    (hrefresh : store.snapshot.refreshFromDb
      { db := db, nowMs := run.nowMs, fault := run.readFault } = .ok snapshot) :
    store.importYaml run yaml = (⟨db, snapshot, store.commits + 1⟩, .ok ()) := by
  have hrun := runAll_of_applyAll 0 hsteps
  rw [← hfaults] at hrun
  simp only [Store.importYaml, hvalid, hrun, hrefresh]

omit [Float64 Cost] [SerdeYaml Cost] in
theorem routing_shown_iff (hreplaces : Replaces before after config) :
    (∀ model, ((loadRouting after.routing).lookup model).map ModelRouting.parts =
        (config.modelToPool.lookup model).map ModelRouting.parts) ↔
      ∀ route ∈ config.modelToPool.entries, ∀ params, route.2.defaultParams = some params →
        reloaded .null params = params := by
  constructor
  · intro hshown route hroute
    have hmodel := hshown route.1
    rw [hreplaces.lookup_routing, AList.mem_lookup_iff.mpr hroute] at hmodel
    exact parts_load_routingRow_iff.mp (some.inj hmodel)
  · intro hparams model
    rw [hreplaces.lookup_routing]
    cases hroute : config.modelToPool.lookup model with
    | none => rfl
    | some route =>
      have hmem : (⟨model, route⟩ : Σ _ : String, ModelRouting) ∈ config.modelToPool.entries :=
        AList.mem_lookup_iff.mp hroute
      exact congrArg some (parts_load_routingRow_iff.mpr (hparams _ hmem))

omit [SerdeYaml Cost] in
theorem shows_iff_of_replaces (hreplaces : Replaces before after config)
    {current : ConfigSnapshot Cost} {nowMs : ℤ} {fault : ManagedTable → Option String}
    (hrefresh : current.refreshFromDb { db := after, nowMs := nowMs, fault := fault } =
      .ok snapshot) : snapshot.Shows config ↔ config.ReadsBack := by
  obtain ⟨-, providers, hproviders, rfl⟩ := ConfigSnapshot.refreshFromDb_eq_ok_iff.mp hrefresh
  rw [hreplaces.providers, loadProviders_providerRow] at hproviders
  cases hproviders
  constructor
  · rintro ⟨-, hproviders, hrouting⟩
    exact ⟨map_reloadedProvider_eq_iff.mp hproviders, (routing_shown_iff hreplaces).mp hrouting⟩
  · rintro ⟨hmetadata, hparams⟩
    refine ⟨fun pool => ?_, map_reloadedProvider_eq_iff.mpr hmetadata,
      (routing_shown_iff hreplaces).mpr hparams⟩
    simp only [ConfigSnapshot.publish, hreplaces.lookup_pools pool, Option.map_map]
    congr 1
    funext entry
    simp only [Function.comp_apply, List.map_map]
    exact map_congr_left fun key _ => key.parts_identified

/-- An import that succeeds leaves the prices and registry rows that the document does not name as
they were, and the sections of the document exactly if their values come back from the columns.
One that fails before its commit changes nothing. -/
theorem importYaml_replaces_or_keeps (run : ImportRun) (yaml : Text) (store after : Store Cost)
    (result : Except AppError Unit) (himport : store.importYaml run yaml = (after, result)) :
    (result = .ok () → ∃ config : Config Cost, SerdeYaml.fromStr yaml = .ok config ∧
        (after.snapshot.Shows config ↔ config.ReadsBack) ∧
        after.db.overrides = store.db.overrides ∧
        after.snapshot.modelRegistry = after.db.registry.rows ∧
        ∀ id, (∀ entry ∈ config.modelRegistry, entry.id ≠ id) →
          (after.db.registry.rows.filter fun row => row.id = id) =
            store.db.registry.rows.filter fun row => row.id = id) ∧
      ((∃ e, result = .error e) → after.commits = store.commits →
        after.db = store.db ∧ after.snapshot = store.snapshot) := by
  rcases importYaml_cases run yaml store with ⟨e, hfailed⟩ | ⟨config, db, hvalidate, hrun, hrest⟩
  · rw [hfailed] at himport
    cases himport
    exact ⟨fun hok => (by cases hok), fun _ _ => ⟨rfl, rfl⟩⟩
  · obtain ⟨hparse, -⟩ := validateYaml_eq_ok_iff.mp hvalidate
    have hreplaces := replaces_of_applyAll (applyAll_of_runAll hrun)
    rcases hrest with ⟨e, hfailed⟩ | ⟨snapshot, hdone, hrefresh⟩
    · rw [hfailed] at himport
      cases himport
      exact ⟨fun hok => (by cases hok), fun _ hcommits => absurd hcommits (Nat.succ_ne_self _)⟩
    · rw [hdone] at himport
      cases himport
      refine ⟨fun _ => ⟨config, hparse, shows_iff_of_replaces hreplaces hrefresh,
        hreplaces.overrides, ?_, ?_⟩, fun herror => ?_⟩
      · obtain ⟨-, providers, -, rfl⟩ := ConfigSnapshot.refreshFromDb_eq_ok_iff.mp hrefresh
        rfl
      · intro id hother
        exact hreplaces.registry (fun name => name = id) (by simpa using hother)
      · obtain ⟨e, herror⟩ := herror
        cases herror

end

section

attribute [local instance] jsonText zeroSha256

def keyedConfig : Config ℚ where
  pools := AList.singleton "p" ⟨[{ key := "a", weight := 1 }]⟩
  providers := [⟨"u", "p", "u", .openAi, .null⟩]
  modelToPool := AList.singleton "m" (.withParams "p" .null (some " n "))
  modelRegistry := []
  noIdentity := by simp

@[reducible] def keyedYaml : SerdeYaml ℚ := ⟨fun _ => .ok keyedConfig⟩

attribute [local instance] keyedYaml

theorem readsBack_keyedConfig : keyedConfig.ReadsBack := by
  constructor
  · simp only [keyedConfig]
    unfold reloaded
    decide +kernel
  · intro route hroute params hparams
    rw [mem_singleton.mp hroute] at hparams
    cases hparams

def routedStore : Store ℚ where
  db := { Database.empty with
    pools := .single ⟨"q", "weighted_random", true⟩
    routing := [⟨"old", "q", none, none, true⟩] }
  snapshot := .default

theorem importYaml_replaces_routedStore :
    ∃ after, routedStore.importYaml { nowMs := 5 } [] = (after, .ok ()) ∧
      ∃ config : Config ℚ, SerdeYaml.fromStr [] = .ok config ∧ after.snapshot.Shows config := by
  have himport : ∃ after, routedStore.importYaml { nowMs := 5 } [] = (after, .ok ()) := ⟨_, rfl⟩
  obtain ⟨after, hafter⟩ := himport
  obtain ⟨config, hparse, hshows, -⟩ :=
    (importYaml_replaces_or_keeps { nowMs := 5 } [] routedStore after (.ok ()) hafter).1 rfl
  cases hparse
  exact ⟨after, hafter, keyedConfig, rfl, hshows.mpr readsBack_keyedConfig⟩

end

section

attribute [local instance] zeroSha256

def topP (digits : ℤ) : Value := .obj [("top_p", .num (.float digits (-16)))]

def topPText : Text := "\x7b\"top_p\":0.9452706955539223\x7d".toList

/-- serde_json without `float_roundtrip`: the digits of 0.9452706955539223 take more than 53 bits,
and the double that is read is 0.9452706955539224. -/
@[reducible] def nearJson : SerdeJson where
  fromStr text := if text = topPText then some (topP 9452706955539224) else jsonText.fromStr text
  toString value :=
    if value = topP 9452706955539223 then some topPText else jsonText.toString value

def topPConfig : Config ℚ :=
  { keyedConfig with
    modelToPool := AList.singleton "m" (.withParams "p" (topP 9452706955539223) none) }

@[reducible] def topPYaml : SerdeYaml ℚ := ⟨fun _ => .ok topPConfig⟩

attribute [local instance] nearJson topPYaml

theorem importYaml_shows_other_topP :
    ∃ after, routedStore.importYaml { nowMs := 5 } [] = (after, .ok ()) ∧
      (topPConfig.modelToPool.lookup "m").map ModelRouting.defaultParams =
        some (some (topP 9452706955539223)) ∧
      (after.snapshot.modelRouting.lookup "m").map ModelRouting.defaultParams =
        some (some (topP 9452706955539224)) ∧
      ¬ after.snapshot.Shows topPConfig := by
  refine ⟨_, rfl, by decide +kernel, by decide +kernel, fun hshows => ?_⟩
  have hparts := congrArg (Option.map fun parts => parts.2.1) (hshows.routing "m")
  revert hparts
  decide +kernel

end

end LlmProxy
