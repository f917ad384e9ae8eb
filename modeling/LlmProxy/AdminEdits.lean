import LlmProxy.ConfigImport
import LlmProxy.GuardedRun

/-!
# Edits of the administration interface

The handlers of `dashboard/admin_api.rs` that write pools, keys, providers and routes, and the write
of a rotated OAuth token (`CredentialRuntime::persist`).
-/

namespace LlmProxy

open Json List StatementScript StepSystem

variable {Cost : Type}

structure CreateProviderRequest where
  id : String
  kind : String
  baseUrl : String
  poolId : String
  metadata : Value := .null

structure CreateKeyEntryRequest where
  key : String := ""
  weight : UInt32 := 1
  credType : CredentialType := .apiKey
  refresh : Option String := none
  expires : Option ℤ := none
  issuer : Option String := none

/-- The hash of a new key is computed when it is stored. -/
def CreateKeyEntryRequest.toKeyEntry (req : CreateKeyEntryRequest) : KeyEntry where
  key := req.key
  weight := req.weight
  credType := req.credType
  refresh := req.refresh
  expires := req.expires
  issuer := req.issuer
  identity := none

structure CreatePoolRequest where
  id : String
  strategy : String := "weighted_random"
  keys : List CreateKeyEntryRequest := []

structure CreateRoutingRequest where
  logicalModel : String
  poolId : String
  defaultParams : Option Value := none
  upstreamModel : Option String := none

/-! ## Handlers -/

def Database.servesPool (db : Database Cost) (poolId : String) : Bool :=
  db.pools.rows.any fun row => row.id = poolId && row.enabled

/-- All checks come before the insert; the kind is stored in lower case. -/
def createProvider [SerdeJson] (jsonError : String) (req : CreateProviderRequest)
    (db : Database Cost) : Except AppError (Database Cost) := do
  let id := req.id
  let kind := req.kind.toLower
  let poolId := req.poolId
  ensure (!blank req.id) (.badRequest "provider id must not be empty")
  ensure (!blank req.baseUrl) (.badRequest "provider base_url must not be empty")
  ensure (!db.providers.rows.any fun row => row.id = req.id)
    (.badRequest s!"provider '{id}' already exists")
  ensure (isObject req.metadata) (.badRequest "provider metadata must be a JSON object")
  ensure (["openai", "anthropic", "gemini"].contains kind)
    (.badRequest s!"unsupported provider kind '{kind}'")
  ensure (db.servesPool req.poolId) (.badRequest s!"pool '{poolId}' does not exist")
  match SerdeJson.toString req.metadata with
  | none => .error (.internal s!"serialize provider metadata: {jsonError}")
  | some text =>
    (Step.call (fun e => .internal s!"create provider: {e}")
      (Database.insertProvider
        { id := req.id, kind := kind, baseUrl := req.baseUrl, poolId := req.poolId,
          metadata := some text })).apply db

/-- It is no error if there is no such provider. -/
def deleteProvider (providerId : String) (db : Database Cost) : Except AppError (Database Cost) :=
  (Step.call (fun e => .internal s!"delete provider: {e}")
    (Database.deleteProviders fun row => row.id ≠ providerId)).apply db

/-- The checks of a new key; the handlers differ in what they say of an empty one. -/
def checkNewKey (emptyKey : String) (entry : KeyEntry) : Except AppError Unit := do
  ensure (entry.weight ≠ 0) (.badRequest "pool keys must have positive weight")
  if entry.isOauth then
    ensure ((KeyEntry.nonEmpty entry.refresh).isSome && (KeyEntry.nonEmpty entry.issuer).isSome)
      (.badRequest "oauth pool keys require refresh and issuer")
  else ensure (!entry.key.isEmpty) (.badRequest emptyKey)

def newKeyStep [Sha256] (poolId : String) (entry : KeyEntry) : Step (Database Cost) AppError :=
  .call (fun e => .badRequest s!"Internal error: ConfigStore import key: {e}")
    (Database.insertKey (keyRow poolId entry))

/-- The pool is written first, then one key after the other. -/
def createPoolSteps [Sha256] (req : CreatePoolRequest) : List (Step (Database Cost) AppError) :=
  .call (fun e => .badRequest s!"create pool: {e}")
      (Database.insertPool { id := req.id, strategy := req.strategy }) ::
    req.keys.map fun key =>
      match checkNewKey "pool keys must be non-empty with positive weight" key.toKeyEntry with
      | .ok () => newKeyStep req.id key.toKeyEntry
      | .error error => .fail error

/-- One transaction: a refused key takes the pool back. -/
def createPool [Sha256] (req : CreatePoolRequest) (db : Database Cost) :
    Except AppError (Database Cost) :=
  applyAll (createPoolSteps req) db

/-- The pool has to exist and may be disabled. -/
def addPoolKey [Sha256] (poolId : String) (req : CreateKeyEntryRequest) (db : Database Cost) :
    Except AppError (Database Cost) := do
  checkNewKey "pool key must be non-empty" req.toKeyEntry
  ensure (db.HasPool poolId) (.notFound s!"pool '{poolId}' not found")
  (newKeyStep poolId req.toKeyEntry).apply db

def deletePoolSteps (poolId : String) : List (Step (Database Cost) AppError) :=
  [.call (fun e => .internal s!"delete pool keys: {e}")
      (Database.deleteKeys fun row => row.poolId ≠ poolId),
    .call (fun e => .internal s!"delete pool: {e}")
      (Database.deletePools fun row => row.id ≠ poolId)]

/-- One transaction for the keys and the pool. -/
def deletePool (poolId : String) (db : Database Cost) : Except AppError (Database Cost) :=
  applyAll (deletePoolSteps poolId) db

/-- The pool has to be enabled.  Other routes of the model stay. -/
def createRouting [SerdeJson] (req : CreateRoutingRequest) (db : Database Cost) :
    Except AppError (Database Cost) := do
  let poolId := req.poolId
  ensure (db.servesPool req.poolId) (.badRequest s!"pool '{poolId}' does not exist")
  (Step.call (fun e => .internal s!"create routing: {e}")
    (Database.insertRouting
      { logicalModel := req.logicalModel, poolId := req.poolId,
        defaultParams := req.defaultParams.bind SerdeJson.toString,
        upstreamModel := trimmedName req.upstreamModel })).apply db

/-- All routes of the model go. -/
def deleteRouting (logicalModel : String) (db : Database Cost) : Except AppError (Database Cost) :=
  (Step.call (fun e => .internal s!"delete routing: {e}")
    (Database.deleteRouting fun row => row.logicalModel ≠ logicalModel)).apply db

/-- The pool of an enabled provider. -/
def providerPoolId (db : Database Cost) (providerId : String) : Except AppError String := do
  ensure (!blank providerId) (.badRequest "provider_config_id cannot be empty")
  match db.providers.rows.find? fun row => row.id = providerId && row.enabled with
  | some row => .ok row.poolId
  | none =>
    .error (.badRequest s!"provider_config_id '{providerId}' does not exist or is disabled")

/-- An enabled model with a provider gets a plain route in place of its routes. -/
def ensureModelRouting (logicalModel : String) (providerConfigId : Option String) (enabled : Bool)
    (db : Database Cost) : Except AppError (Database Cost) :=
  match providerConfigId.filter fun id => !blank id with
  | none => .ok db
  | some providerId =>
    if enabled then do
      let poolId ← providerPoolId db providerId
      ensure (db.servesPool poolId)
        (.badRequest
          s!"provider '{providerId}' references missing or disabled pool '{poolId}'")
      -- no transaction: if the insert fails, the tables are as `deleteRouting` leaves them
      applyAll
        [.call (fun e => .internal s!"ensure model routing: {e}")
          (Database.deleteRouting fun row => row.logicalModel ≠ logicalModel),
        .call (fun e => .internal s!"ensure model routing: {e}")
          (Database.insertRouting
            { logicalModel := logicalModel, poolId := poolId, defaultParams := none,
              upstreamModel := none })] db
    else .ok db

def routingPool (db : Database Cost) (providerConfigId : Option String) (enabled : Bool) :
    Except AppError (Option String) :=
  match providerConfigId.filter fun id => !blank id with
  | none => .ok none
  | some providerId =>
    if enabled then do
      let poolId ← providerPoolId db providerId
      ensure (db.servesPool poolId)
        (.badRequest
          s!"provider '{providerId}' references missing or disabled pool '{poolId}'")
      return some poolId
    else .ok none

def Database.reroute (db : Database Cost) (logicalModel : String) (target : Option String) :
    Database Cost :=
  match target with
  | some poolId =>
    { db with
      routing := (db.routing.filter fun row => row.logicalModel ≠ logicalModel) ++
        [{ logicalModel := logicalModel, poolId := poolId, defaultParams := none,
           upstreamModel := none }] }
  | none => db

variable {db : Database Cost} {poolId : String}

theorem hasPool_of_servesPool (hserves : db.servesPool poolId = true) : db.HasPool poolId := by
  obtain ⟨row, hrow, hpool⟩ := any_eq_true.mp hserves
  rw [Bool.and_eq_true, decide_eq_true_eq] at hpool
  exact mem_map.mpr ⟨row, hrow, hpool.1⟩

theorem applyAll_reroute (logicalModel : String) (hpool : db.HasPool poolId)
    {label : String → AppError} :
    applyAll [.call label (Database.deleteRouting fun row => row.logicalModel ≠ logicalModel),
      .call label (Database.insertRouting
        { logicalModel := logicalModel, poolId := poolId, defaultParams := none,
          upstreamModel := none })] db = .ok (db.reroute logicalModel (some poolId)) := by
  refine applyAll_cons_eq_ok_iff.mpr ⟨_, apply_call_eq_ok_iff.mpr rfl, ?_⟩
  exact applyAll_cons_eq_ok_iff.mpr ⟨_, apply_call_eq_ok_iff.mpr (if_pos hpool), rfl⟩

theorem ensureModelRouting_eq (logicalModel : String) (providerConfigId : Option String)
    (enabled : Bool) (db : Database Cost) :
    ensureModelRouting logicalModel providerConfigId enabled db =
      (routingPool db providerConfigId enabled).map (db.reroute logicalModel) := by
  unfold ensureModelRouting routingPool
  cases providerConfigId.filter fun id => !blank id with
  | none => rfl
  | some providerId =>
    cases enabled with
    | false => rfl
    | true =>
      cases hfound : providerPoolId db providerId with
      | error => simp [hfound, bind, Except.bind, Except.map]
      | ok poolId =>
        cases hserves : db.servesPool poolId with
        | false => simp [ensure, hfound, hserves, bind, Except.bind, Except.map]
        | true =>
          simp only [hfound, hserves, bind, Except.bind]
          exact applyAll_reroute logicalModel (hasPool_of_servesPool hserves)

/-- `CredentialRuntime::persist` on one row: the hash stays. -/
def KeyRow.rotate (identityHash : String) (live : LiveToken) (row : KeyRow) : KeyRow :=
  if row.keyHash = identityHash then
    { row with
      keyPlain := live.access
      refreshToken := some live.refresh
      expiresAt := some live.expires }
  else row

/-! ## Histories of the tables -/

inductive AdminEdit
  | createProvider (jsonError : String) (req : CreateProviderRequest)
  | deleteProvider (providerId : String)
  | createPool (req : CreatePoolRequest)
  | addPoolKey (poolId : String) (req : CreateKeyEntryRequest)
  | deletePool (poolId : String)
  | createRouting (req : CreateRoutingRequest)
  | deleteRouting (logicalModel : String)
  | ensureModelRouting (logicalModel : String) (providerConfigId : Option String) (enabled : Bool)

/-- What changes the managed tables.  `priced` stands for any edit of the registry and of the
price overrides. -/
inductive StoreChange (Cost : Type)
  | imported (jsonError : String) (config : Config Cost)
  | edited (edit : AdminEdit)
  | priced (registry : KeyedTable fun row : RegistryRow Cost => row.id)
      (overrides : List (PricingOverride Cost))
  | rotated (identityHash : String) (live : LiveToken)

section

variable [Sha256] [SerdeJson]

/-- The refresh of the snapshot that follows is left out. -/
def AdminEdit.run (db : Database Cost) : AdminEdit → Except AppError (Database Cost)
  | createProvider jsonError req => LlmProxy.createProvider jsonError req db
  | deleteProvider providerId => LlmProxy.deleteProvider providerId db
  | createPool req => LlmProxy.createPool req db
  | addPoolKey poolId req => LlmProxy.addPoolKey poolId req db
  | deletePool poolId => LlmProxy.deletePool poolId db
  | createRouting req => LlmProxy.createRouting req db
  | deleteRouting logicalModel => LlmProxy.deleteRouting logicalModel db
  | ensureModelRouting logicalModel providerConfigId enabled =>
    LlmProxy.ensureModelRouting logicalModel providerConfigId enabled db

def StoreChange.step [Float64 Cost] (db : Database Cost) :
    StoreChange Cost → Option (Database Cost)
  | imported jsonError config =>
    match config.validate with
    | .ok () => (applyAll (importSteps jsonError config) db).toOption
    | .error _ => none
  | edited edit => (edit.run db).toOption
  | priced registry overrides => some { db with registry := registry, overrides := overrides }
  | rotated identityHash live =>
    some { db with keys := db.keys.map (KeyRow.rotate identityHash live) }

end

section

variable {P : ProviderRow → Prop} {K : KeyRow → Prop} {R : RoutingRow → Prop}
  {before after : Database Cost}

structure Database.Rows (P : ProviderRow → Prop) (K : KeyRow → Prop) (R : RoutingRow → Prop)
    (db : Database Cost) : Prop where
  providers : ∀ row ∈ db.providers.rows, P row
  keys : ∀ row ∈ db.keys, K row
  routing : ∀ row ∈ db.routing, R row

section

variable (hrows : before.Rows P K R)

include hrows

theorem Database.Rows.of_subset
    (hproviders : after.providers.rows ⊆ before.providers.rows)
    (hkeys : after.keys ⊆ before.keys) (hrouting : after.routing ⊆ before.routing) :
    after.Rows P K R :=
  ⟨fun row hrow => hrows.providers row (hproviders hrow),
    fun row hrow => hrows.keys row (hkeys hrow),
    fun row hrow => hrows.routing row (hrouting hrow)⟩

theorem Database.Rows.of_appends {pools : List PoolRow} {keys : List KeyRow}
    {providers : List ProviderRow} {routing : List RoutingRow}
    (happends : before.Appends after pools keys providers routing)
    (hproviders : ∀ row ∈ providers, P row) (hkeys : ∀ row ∈ keys, K row)
    (hrouting : ∀ row ∈ routing, R row) : after.Rows P K R := by
  constructor
  · rw [happends.providers]
    exact forall_mem_append.mpr ⟨hrows.providers, hproviders⟩
  · rw [happends.keys]
    exact forall_mem_append.mpr ⟨hrows.keys, hkeys⟩
  · rw [happends.routing]
    exact forall_mem_append.mpr ⟨hrows.routing, hrouting⟩

theorem Database.Rows.insertKey {row : KeyRow} (hrow : K row)
    (hinsert : Database.insertKey row before = .ok after) : after.Rows P K R :=
  hrows.of_appends (Database.insertKey_eq_ok hinsert) (by simp) (by simpa using hrow) (by simp)

theorem Database.Rows.insertRouting {row : RoutingRow} (hrow : R row)
    (hinsert : Database.insertRouting row before = .ok after) : after.Rows P K R :=
  hrows.of_appends (Database.insertRouting_eq_ok hinsert) (by simp) (by simp) (by simpa using hrow)

theorem Database.Rows.deleteRouting {keep : RoutingRow → Bool}
    (hdelete : Database.deleteRouting keep before = .ok after) : after.Rows P K R := by
  cases hdelete
  exact hrows.of_subset (List.Subset.refl _) (List.Subset.refl _) (filter_subset_self _)

theorem Database.Rows.deletePools {keep : PoolRow → Bool}
    (hdelete : Database.deletePools keep before = .ok after) : after.Rows P K R := by
  unfold Database.deletePools at hdelete
  simp only at hdelete
  split_ifs at hdelete
  cases hdelete
  exact hrows.of_subset (List.Subset.refl _) (filter_subset_self _) (List.Subset.refl _)

end

variable [Sha256] [SerdeJson]

def AdminEdit.Writes (P : ProviderRow → Prop) (K : KeyRow → Prop) (R : RoutingRow → Prop) :
    AdminEdit → Prop
  | createProvider _ req => ∀ text, isObject req.metadata = true →
      SerdeJson.toString req.metadata = some text →
        P { id := req.id, kind := req.kind.toLower, baseUrl := req.baseUrl, poolId := req.poolId,
            metadata := some text }
  | createPool req => ∀ key ∈ req.keys, K (keyRow req.id key.toKeyEntry)
  | addPoolKey poolId req => K (keyRow poolId req.toKeyEntry)
  | createRouting req =>
    R { logicalModel := req.logicalModel, poolId := req.poolId,
        defaultParams := req.defaultParams.bind SerdeJson.toString,
        upstreamModel := trimmedName req.upstreamModel }
  | ensureModelRouting logicalModel _ _ => ∀ poolId,
      R { logicalModel := logicalModel, poolId := poolId, defaultParams := none,
          upstreamModel := none }
  | deleteProvider _ | deletePool _ | deleteRouting _ => True

theorem rows_createProvider {jsonError : String} {req : CreateProviderRequest}
    (hrows : before.Rows P K R) (hwrites : (AdminEdit.createProvider jsonError req).Writes P K R)
    (hrun : createProvider jsonError req before = .ok after) : after.Rows P K R := by
  unfold createProvider at hrun
  simp only [Except.bind_eq_ok_iff] at hrun
  obtain ⟨-, -, -, -, -, -, _, hmetadata, -, -, -, -, hinsert⟩ := hrun
  have hobject := ensure_eq_ok_iff.mp hmetadata
  cases htext : SerdeJson.toString req.metadata with
  | none =>
    rw [htext] at hinsert
    cases hinsert
  | some text =>
    rw [htext] at hinsert
    exact hrows.of_appends (Database.insertProvider_eq_ok (apply_call_eq_ok_iff.mp hinsert))
      (by simpa using hwrites text hobject htext) (by simp) (by simp)

theorem rows_createPool {req : CreatePoolRequest} (hrows : before.Rows P K R)
    (hwrites : (AdminEdit.createPool req).Writes P K R) (hrun : createPool req before = .ok after) :
    after.Rows P K R := by
  obtain ⟨middle, hpool, hkeys⟩ := applyAll_cons_eq_ok_iff.mp hrun
  have hmiddle : middle.Rows P K R :=
    hrows.of_appends (Database.insertPool_eq_ok (apply_call_eq_ok_iff.mp hpool)) (by simp) (by simp)
      (by simp)
  refine applyAll_invariant (Database.Rows P K R) ?_ hmiddle hkeys
  intro step hstep current next hcurrent hnext
  obtain ⟨key, hkey, rfl⟩ := mem_map.mp hstep
  cases hcheck : checkNewKey "pool keys must be non-empty with positive weight" key.toKeyEntry with
  | error =>
    rw [hcheck] at hnext
    cases hnext
  | ok =>
    rw [hcheck] at hnext
    exact hcurrent.insertKey (hwrites key hkey) (apply_call_eq_ok_iff.mp hnext)

theorem rows_ensureModelRouting {logicalModel : String} {providerConfigId : Option String}
    {enabled : Bool} (hrows : before.Rows P K R)
    (hwrites : (AdminEdit.ensureModelRouting logicalModel providerConfigId enabled).Writes P K R)
    (hrun : ensureModelRouting logicalModel providerConfigId enabled before = .ok after) :
    after.Rows P K R := by
  rw [ensureModelRouting_eq] at hrun
  cases htarget : routingPool before providerConfigId enabled with
  | error =>
    rw [htarget] at hrun
    cases hrun
  | ok target =>
    rw [htarget] at hrun
    cases hrun
    cases target with
    | none => exact hrows
    | some poolId =>
      refine ⟨hrows.providers, hrows.keys, forall_mem_append.mpr ⟨fun row hrow => ?_, ?_⟩⟩
      · exact hrows.routing row (mem_of_mem_filter hrow)
      · exact forall_mem_singleton.mpr (hwrites poolId)

theorem AdminEdit.rows_run {edit : AdminEdit} (hrows : before.Rows P K R)
    (hwrites : edit.Writes P K R) (hrun : edit.run before = .ok after) : after.Rows P K R := by
  cases edit with
  | createProvider => exact rows_createProvider hrows hwrites hrun
  | deleteProvider =>
    cases hrun
    exact hrows.of_subset (filter_subset_self _) (List.Subset.refl _) (List.Subset.refl _)
  | createPool => exact rows_createPool hrows hwrites hrun
  | addPoolKey =>
    simp only [run, LlmProxy.addPoolKey, Except.bind_eq_ok_iff] at hrun
    obtain ⟨-, -, -, -, hinsert⟩ := hrun
    exact hrows.insertKey hwrites (apply_call_eq_ok_iff.mp hinsert)
  | deletePool =>
    obtain ⟨middle, hkeys, hrest⟩ := applyAll_cons_eq_ok_iff.mp hrun
    obtain ⟨last, hpools, hlast⟩ := applyAll_cons_eq_ok_iff.mp hrest
    cases hlast
    cases apply_call_eq_ok_iff.mp hkeys
    refine Database.Rows.deletePools ?_ (apply_call_eq_ok_iff.mp hpools)
    exact hrows.of_subset (List.Subset.refl _) (filter_subset_self _) (List.Subset.refl _)
  | createRouting =>
    simp only [run, LlmProxy.createRouting, Except.bind_eq_ok_iff] at hrun
    obtain ⟨-, -, hinsert⟩ := hrun
    exact hrows.insertRouting hwrites (apply_call_eq_ok_iff.mp hinsert)
  | deleteRouting =>
    simp only [run, LlmProxy.deleteRouting, apply_call_eq_ok_iff] at hrun
    exact hrows.deleteRouting hrun
  | ensureModelRouting =>
    exact rows_ensureModelRouting hrows hwrites hrun

def StoreChange.Writes (P : ProviderRow → Prop) (K : KeyRow → Prop) (R : RoutingRow → Prop) :
    StoreChange Cost → Prop
  | imported _ config => (∀ provider ∈ config.providers, P (providerRow provider)) ∧
      (∀ pool ∈ config.pools.entries, ∀ key ∈ pool.2.keys, K (keyRow pool.1 key)) ∧
      ∀ route ∈ config.modelToPool.entries, R (routingRow route.1 route.2)
  | edited edit => edit.Writes P K R
  | priced _ _ => True
  | rotated identityHash live => ∀ row, K row → K (row.rotate identityHash live)

variable [Float64 Cost]

theorem StoreChange.rows_step {change : StoreChange Cost} (hrows : before.Rows P K R)
    (hwrites : change.Writes P K R) (hstep : change.step before = some after) :
    after.Rows P K R := by
  cases change with
  | imported jsonError config =>
    obtain ⟨hproviders, hkeys, hrouting⟩ := hwrites
    simp only [step] at hstep
    cases hvalid : config.validate with
    | error => simp [hvalid] at hstep
    | ok =>
      rw [hvalid] at hstep
      have hreplaces := replaces_of_applyAll (Except.toOption_eq_some_iff.mp hstep)
      constructor
      · rw [hreplaces.providers]
        exact forall_mem_map.mpr hproviders
      · rw [hreplaces.keys]
        simp only [mem_flatMap, mem_map]
        rintro row ⟨pool, hpool, key, hkey, rfl⟩
        exact hkeys pool hpool key hkey
      · rw [hreplaces.routing]
        exact forall_mem_map.mpr hrouting
  | edited edit => exact edit.rows_run hrows hwrites (Except.toOption_eq_some_iff.mp hstep)
  | priced =>
    cases hstep
    exact ⟨hrows.providers, hrows.keys, hrows.routing⟩
  | rotated =>
    cases hstep
    refine ⟨hrows.providers, forall_mem_map.mpr fun row hrow => ?_, hrows.routing⟩
    exact hwrites row (hrows.keys row hrow)

theorem rows_of_run {ok : StoreChange Cost → Prop}
    (hok : ∀ change, ok change → change.Writes P K R) {changes : List (StoreChange Cost)}
    {db : Database Cost}
    (hrun : GuardedRun StoreChange.step (fun _ change => ok change) .empty changes db) :
    db.Rows P K R := by
  refine hrun.invariant (Database.Rows P K R) (fun before change after hrows hchange hstep =>
    change.rows_step hrows (hok change hchange) hstep) ?_
  exact ⟨by simp [Database.empty], by simp [Database.empty], by simp [Database.empty]⟩

end

end LlmProxy
