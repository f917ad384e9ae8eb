import LlmProxy.AdminEdits
import LlmProxy.ConfigExport
import LlmProxy.ImportSuccess

/-!
# Importing an export

What an import makes of the exported document, after any history of imports, edits and
rotations.
-/

namespace LlmProxy

open Json List Option StatementScript StepSystem

variable {Cost : Type}

/-! ## What a history leaves for the export -/

/-- A text with a brace first is read as an object or not at all. -/
def SerdeJson.BraceReadsObject [SerdeJson] : Prop :=
  ∀ (s : Text) (value : Value), s.head? = some '{' → SerdeJson.fromStr s = some value →
    isObject value = true

theorem jsonText_braceReadsObject : @SerdeJson.BraceReadsObject jsonText := by
  intro s value hhead hparse
  obtain ⟨rest, rfl⟩ := head?_eq_some_iff.mp hhead
  obtain ⟨fields, rfl⟩ := Json.obj_of_parse_brace hparse
  rfl

def ProviderRow.ObjectMetadata (row : ProviderRow) : Prop :=
  ∃ text, row.metadata = some text ∧ text.head? = some '{'

def KeyRow.Fresh [Sha256] (row : KeyRow) : Prop :=
  row.keyHash = computeKeyHash row.load.identitySecret

def RoutingRow.ObjectParams (row : RoutingRow) : Prop :=
  ∀ text, row.defaultParams = some text → text.head? = some '{'

def StoreChange.Steady : StoreChange Cost → Prop
  | imported _ _ => True
  | edited (.createRouting req) => ∀ params, req.defaultParams = some params →
      isObject params = true
  | edited _ => True
  | priced _ _ => True
  | rotated _ _ => False

variable {route : ModelRouting} {text : Text}

section

variable [SerdeJson] {value : Value}

omit [SerdeJson] in
theorem isObject_objectMetadata (metadata : Value) : isObject (objectMetadata metadata) = true := by
  unfold objectMetadata
  split_ifs with hobject
  · exact hobject
  · rfl

omit [SerdeJson] in
theorem fresh_keyRow [Sha256] (poolId : String) {entry : KeyEntry}
    (hidentity : entry.identity = none) : (keyRow poolId entry).Fresh := by
  have hhash : entry.identityHash = computeKeyHash entry.identitySecret := by
    rw [KeyEntry.identityHash, hidentity]
    rfl
  unfold KeyRow.Fresh
  rw [load_keyRow]
  exact hhash

section

variable (hjson : SerdeJson.Lawful)

include hjson

theorem head_of_isObject (hobject : isObject value = true)
    (htext : SerdeJson.toString value = some text) : text.head? = some '{' := by
  cases value with
  | obj fields => exact hjson.printsObject fields text htext
  | _ => cases hobject

theorem head_jsonColumn (hobject : isObject value = true) :
    (jsonColumn value).head? = some '{' := by
  obtain ⟨text, htext⟩ := hjson.prints value
  rw [jsonColumn, htext]
  exact head_of_isObject hjson hobject htext

theorem objectMetadata_providerRow (provider : ProviderConfig) :
    (providerRow provider).ObjectMetadata :=
  ⟨_, rfl, head_jsonColumn hjson (isObject_objectMetadata provider.metadata)⟩

theorem objectParams_routingRow (model : String) (route : ModelRouting) :
    (routingRow model route).ObjectParams := by
  intro text htext
  obtain ⟨params, hparams, rfl⟩ := map_eq_some_iff.mp htext
  exact head_jsonColumn hjson (ModelRouting.isObject_of_defaultParams hparams)

variable [Sha256]

theorem StoreChange.writes_objectMetadata (change : StoreChange Cost) :
    change.Writes ProviderRow.ObjectMetadata (fun _ => True) (fun _ => True) := by
  cases change with
  | imported =>
    exact ⟨fun provider _ => objectMetadata_providerRow hjson provider, fun _ _ _ _ => trivial,
      fun _ _ => trivial⟩
  | edited edit =>
    cases edit with
    | createProvider =>
      exact fun text hobject htext => ⟨text, rfl, head_of_isObject hjson hobject htext⟩
    | createPool => exact fun _ _ => trivial
    | ensureModelRouting => exact fun _ => trivial
    | _ => trivial
  | priced => trivial
  | rotated => exact fun _ _ => trivial

theorem StoreChange.writes_of_steady {change : StoreChange Cost} (hsteady : change.Steady) :
    change.Writes (fun _ => True) KeyRow.Fresh RoutingRow.ObjectParams := by
  cases change with
  | imported jsonError config =>
    exact ⟨fun _ _ => trivial,
      fun pool hpool key hkey => fresh_keyRow pool.1 (config.noIdentity pool hpool key hkey),
      fun route _ => objectParams_routingRow hjson route.1 route.2⟩
  | edited edit =>
    cases edit with
    | createProvider => exact fun _ _ _ => trivial
    | createPool req => exact fun key _ => fresh_keyRow req.id rfl
    | addPoolKey poolId => exact fresh_keyRow poolId rfl
    | createRouting =>
      intro text htext
      obtain ⟨params, hparams, hprint⟩ := bind_eq_some_iff.mp htext
      exact head_of_isObject hjson (hsteady params hparams) hprint
    | ensureModelRouting =>
      intro poolId text htext
      cases htext
    | _ => trivial
  | priced => trivial
  | rotated => cases hsteady

end

end

section

variable [SerdeJson]

def ModelRouting.Stored : ModelRouting → Prop
  | simple _ => True
  | withParams _ params upstream =>
    (isObject params = true ∨ upstream.isSome = true) ∧ trimmedName upstream = upstream

def ModelRouting.PlainParams : ModelRouting → Prop
  | simple _ => True
  | withParams _ params _ => isObject params = true ∨ params = .null

theorem stored_load (row : RoutingRow) : row.load.Stored := by
  unfold RoutingRow.load
  simp only
  split_ifs with hmore
  · exact ⟨by simpa using hmore, trimmedName_trimmedName row.upstreamModel⟩
  · trivial

variable {providers : List ProviderConfig} {provider : ProviderConfig} {row : ProviderRow}

theorem ProviderRow.load_eq_ok (hload : row.load = .ok provider) :
    provider.id = row.id ∧
      provider.metadata = (row.metadata.bind SerdeJson.fromStr).getD (.obj []) := by
  simp only [ProviderRow.load, Except.bind_eq_ok_iff] at hload
  obtain ⟨kind, -, hprovider⟩ := hload
  cases hprovider
  exact ⟨rfl, rfl⟩

theorem nodup_of_loadProviders {table : KeyedTable ProviderRow.id}
    (hload : loadProviders table.rows = .ok providers) :
    (providers.map ProviderConfig.id).Nodup := by
  have hids : (table.rows.filter ProviderRow.enabled).map ProviderRow.id =
      providers.map ProviderConfig.id := by
    rw [← forall₂_eq_eq_eq, forall₂_map_left_iff, forall₂_map_right_iff]
    exact (Except.mapM_eq_ok_iff.mp hload).imp fun row provider hrow =>
      (ProviderRow.load_eq_ok hrow).1.symm
  rw [← hids]
  exact (table.filter ProviderRow.enabled).nodup

section

variable (hbrace : SerdeJson.BraceReadsObject)

include hbrace

theorem plainParams_load {row : RoutingRow} (hrow : row.ObjectParams) : row.load.PlainParams := by
  unfold RoutingRow.load
  simp only
  split_ifs with hmore
  · cases hread : row.defaultParams.bind SerdeJson.fromStr with
    | none => exact .inr rfl
    | some params =>
      obtain ⟨text, htext, hparams⟩ := bind_eq_some_iff.mp hread
      exact .inl (hbrace text params (hrow text htext) hparams)
  · trivial

theorem isObject_of_load (hrow : row.ObjectMetadata) (hload : row.load = .ok provider) :
    isObject provider.metadata = true := by
  obtain ⟨text, htext, hhead⟩ := hrow
  rw [(ProviderRow.load_eq_ok hload).2, htext, bind_some]
  cases hread : SerdeJson.fromStr text with
  | none => rfl
  | some value => exact hbrace text value hhead hread

theorem isObject_of_loadProviders {rows : List ProviderRow}
    (hrows : ∀ row ∈ rows, row.ObjectMetadata) (hload : loadProviders rows = .ok providers) :
    ∀ provider ∈ providers, isObject provider.metadata = true := by
  intro provider hprovider
  obtain ⟨row, hrow, hrowload⟩ := Except.exists_of_mem_mapM hload hprovider
  exact isObject_of_load hbrace (hrows row (mem_of_mem_filter hrow)) hrowload

end

omit [SerdeJson] in
theorem forall_of_lookup_loadPools {pools : KeyedTable PoolRow.id} {keys : List KeyRow}
    {pool : String} {config : PoolConfig}
    (hlookup : (loadPools pools.rows keys).lookup pool = some config) :
    ∀ key ∈ config.keys, ∃ row ∈ keys, key = row.load := by
  rw [lookup_loadPools] at hlookup
  split_ifs at hlookup
  cases hlookup
  intro key hkey
  obtain ⟨row, hrow, rfl⟩ := List.mem_map.mp hkey
  exact ⟨row, mem_of_mem_filter (mem_of_mem_filter hrow), rfl⟩

theorem exists_of_lookup_loadRouting {rows : List RoutingRow} {model : String}
    (hlookup : (loadRouting rows).lookup model = some route) : ∃ row ∈ rows, route = row.load := by
  rw [lookup_loadRouting] at hlookup
  obtain ⟨row, hrow, rfl⟩ := map_eq_some_iff.mp hlookup
  have hmem := mem_of_getLast? hrow
  exact ⟨row, mem_of_mem_filter (mem_of_mem_filter hmem), rfl⟩

end

/-! ## The snapshot after the import -/

structure ConfigSnapshot.SameSections (before after : ConfigSnapshot Cost) : Prop where
  providers : after.providers = before.providers
  pools : ∀ pool, after.poolConfigs.lookup pool = before.poolConfigs.lookup pool
  routing : ∀ model, after.modelRouting.lookup model = before.modelRouting.lookup model

/-- Nothing of the snapshot is lost in an export: each identity is the hash of the present
secret, and parameters of routes are objects. -/
structure ConfigSnapshot.Restorable [Sha256] (snapshot : ConfigSnapshot Cost) : Prop where
  keys : ∀ pool config, snapshot.poolConfigs.lookup pool = some config →
    ∀ key ∈ config.keys, key.identity = some (computeKeyHash key.identitySecret)
  params : ∀ model route, snapshot.modelRouting.lookup model = some route → route.PlainParams

structure ConfigSnapshot.Loaded (snapshot : ConfigSnapshot Cost) : Prop where
  ids : (snapshot.providers.map ProviderConfig.id).Nodup
  metadata : ∀ provider ∈ snapshot.providers, isObject provider.metadata = true
  routes : ∀ model route, snapshot.modelRouting.lookup model = some route → route.Stored

section

variable [Sha256]

theorem KeyEntry.identified_unidentified_eq_iff (key : KeyEntry) :
    key.unidentified.identified = key ↔
      key.identity = some (computeKeyHash key.identitySecret) := by
  have hback : key.unidentified.identified =
      { key with identity := some (computeKeyHash key.identitySecret) } := rfl
  rw [hback]
  obtain ⟨secret, weight, credType, refresh, expires, issuer, identity⟩ := key
  simp only [KeyEntry.mk.injEq, true_and]
  exact eq_comm

variable [SerdeJson]

omit [Sha256] in
theorem load_eq_iff_plainParams (model : String) {read : ModelRouting}
    (hparts : read.parts = route.parts) (hstored : route.Stored) :
    (routingRow model read).load = route ↔ route.PlainParams ∧
      ∀ params, read.defaultParams = some params → reloaded .null params = params := by
  have hpool : read.poolId = route.poolId := congrArg Prod.fst hparts
  have hparams : read.defaultParams = route.defaultParams :=
    congrArg (fun parts => parts.2.1) hparts
  have hupstream : read.upstreamModel = route.upstreamModel :=
    congrArg (fun parts => parts.2.2) hparts
  rw [load_routingRow, hpool, hparams, hupstream]
  cases route with
  | simple =>
    simp [ModelRouting.defaultParams, ModelRouting.upstreamModel, ModelRouting.poolId,
      ModelRouting.PlainParams, isObject]
  | withParams pool params =>
    obtain ⟨hmore, htrimmed⟩ := hstored
    simp only [ModelRouting.defaultParams, ModelRouting.upstreamModel, ModelRouting.poolId,
      ModelRouting.PlainParams, htrimmed]
    cases hobject : isObject params with
    | true =>
      simp only [if_true, map_some, getD_some]
      split_ifs with hread
      · simp
      · have hother : reloaded .null params ≠ params := by
          intro hsame
          rw [hsame, hobject, Bool.true_or] at hread
          exact hread rfl
        simp [hother]
    | false =>
      -- such a route was loaded for its name, and comes back with `null`
      rw [hobject] at hmore
      simp [hmore.resolve_left Bool.false_ne_true, eq_comm]

variable [Float64 Cost] {snapshot : ConfigSnapshot Cost} {config : Config Cost}
  {changes : List (StoreChange Cost)} {current : ConfigSnapshot Cost} {before after : Database Cost}
  {read : TableRead Cost}

omit [Float64 Cost] in
theorem pools_eq_iff (hread : config.ReadFrom snapshot) (hreplaces : Replaces before after config) :
    (∀ pool, (loadPools after.pools.rows after.keys).lookup pool =
      snapshot.poolConfigs.lookup pool) ↔
    ∀ pool entry, snapshot.poolConfigs.lookup pool = some entry →
      ∀ key ∈ entry.keys, key.identity = some (computeKeyHash key.identitySecret) := by
  refine forall_congr' fun pool => ?_
  rw [hreplaces.lookup_pools, hread.pools]
  cases snapshot.poolConfigs.lookup pool with
  | none => simp
  | some entry =>
    obtain ⟨keys⟩ := entry
    have hkeys : keys.map (KeyEntry.identified ∘ KeyEntry.unidentified) = keys ↔
        ∀ key ∈ keys, key.unidentified.identified = key := by
      nth_rewrite 2 [← List.map_id keys]
      exact map_inj_left
    simpa [KeyEntry.identified_unidentified_eq_iff] using hkeys

omit [Float64 Cost] in
theorem routing_eq_iff (hread : config.ReadFrom snapshot)
    (hroutes : ∀ model route, snapshot.modelRouting.lookup model = some route → route.Stored)
    (hreplaces : Replaces before after config) :
    (∀ model, (loadRouting after.routing).lookup model = snapshot.modelRouting.lookup model) ↔
      (∀ model route, snapshot.modelRouting.lookup model = some route → route.PlainParams) ∧
      ∀ route ∈ config.modelToPool.entries, ∀ params, route.2.defaultParams = some params →
        reloaded .null params = params := by
  have hentry : ∀ model, (loadRouting after.routing).lookup model =
      snapshot.modelRouting.lookup model ↔
        (∀ route, snapshot.modelRouting.lookup model = some route → route.PlainParams) ∧
        ∀ read, config.modelToPool.lookup model = some read →
          ∀ params, read.defaultParams = some params → reloaded .null params = params := by
    intro model
    have hparts := hread.routing model
    rw [hreplaces.lookup_routing]
    cases hroute : snapshot.modelRouting.lookup model with
    | none =>
      rw [hroute, map_none, map_eq_none_iff] at hparts
      simp [hparts]
    | some route =>
      rw [hroute, map_some, map_eq_some_iff] at hparts
      obtain ⟨read, hlookup, hsame⟩ := hparts
      simpa [hlookup] using load_eq_iff_plainParams model hsame (hroutes model route hroute)
  have hentries : (∀ route ∈ config.modelToPool.entries, ∀ params,
      route.2.defaultParams = some params → reloaded .null params = params) ↔
        ∀ model read, config.modelToPool.lookup model = some read →
          ∀ params, read.defaultParams = some params → reloaded .null params = params :=
    ⟨fun hall model read hread => hall ⟨model, read⟩ (AList.mem_lookup_iff.mp hread),
      fun hall route hroute => hall route.1 route.2 (AList.mem_lookup_iff.mpr hroute)⟩
  rw [hentries, ← forall_and]
  exact forall_congr' hentry

theorem loaded_of_run (hjson : SerdeJson.Lawful) (hbrace : SerdeJson.BraceReadsObject)
    (hhistory : Run StoreChange.step .empty changes read.db)
    (hrefresh : current.refreshFromDb read = .ok snapshot) : snapshot.Loaded := by
  have hrows := rows_of_run (fun change _ => change.writes_objectMetadata hjson) hhistory
  obtain ⟨-, providers, hproviders, rfl⟩ := ConfigSnapshot.refreshFromDb_eq_ok_iff.mp hrefresh
  constructor
  · exact nodup_of_loadProviders hproviders
  · exact isObject_of_loadProviders hbrace hrows.providers hproviders
  · intro model route hroute
    obtain ⟨row, -, rfl⟩ := exists_of_lookup_loadRouting hroute
    exact stored_load row

theorem restorable_of_steady (hjson : SerdeJson.Lawful) (hbrace : SerdeJson.BraceReadsObject)
    (hhistory : GuardedRun StoreChange.step (fun _ change => change.Steady) .empty changes read.db)
    (hrefresh : current.refreshFromDb read = .ok snapshot) : snapshot.Restorable := by
  have hrows := rows_of_run (fun change hsteady => change.writes_of_steady hjson hsteady) hhistory
  obtain ⟨-, providers, -, rfl⟩ := ConfigSnapshot.refreshFromDb_eq_ok_iff.mp hrefresh
  constructor
  · intro pool config hpool key hkey
    obtain ⟨row, hrow, rfl⟩ := forall_of_lookup_loadPools hpool key hkey
    exact congrArg some (hrows.keys row hrow)
  · intro model route hroute
    obtain ⟨row, hrow, rfl⟩ := exists_of_lookup_loadRouting hroute
    exact plainParams_load hbrace (hrows.routing row hrow)

variable [SerdeYaml Cost]

/-- The export of a loaded snapshot can be imported, and it brings the sections back exactly if
nothing of them is lost. -/
theorem exists_import_of_export {store : Store Cost} (hloaded : store.snapshot.Loaded)
    (hvalid : validateYaml text = .ok config) (hread : config.ReadFrom store.snapshot)
    (hfits : ∀ row ∈ store.db.registry.rows, row.Fits) (jsonError : String) (nowMs : ℤ) :
    ∃ after, store.importYaml { nowMs := nowMs, jsonError := jsonError } text = (after, .ok ()) ∧
      (store.snapshot.SameSections after.snapshot ↔
        store.snapshot.Restorable ∧ config.ReadsBack) := by
  have hids : (config.providers.map ProviderConfig.id).Nodup := by
    rw [hread.providers]
    exact hloaded.ids
  obtain ⟨db, hsteps⟩ := exists_importSteps jsonError hids (routes_of_validateYaml hvalid)
    (by simp [hread.registry]) store.db
  have hreplaces := replaces_of_applyAll hsteps
  obtain ⟨snapshot, hrefresh⟩ := (exists_refreshFromDb_iff hreplaces store.snapshot nowMs).mpr
    fun row hrow _ => hfits row hrow
  refine ⟨_, importYaml_of_applyAll rfl hvalid hsteps hrefresh, ?_⟩
  obtain ⟨-, providers, hproviders, rfl⟩ := ConfigSnapshot.refreshFromDb_eq_ok_iff.mp hrefresh
  rw [hreplaces.providers, loadProviders_providerRow] at hproviders
  cases hproviders
  have hstored : config.providers.map storedProvider = store.snapshot.providers := by
    rw [hread.providers]
    refine (map_congr_left fun provider hprovider => ?_).trans (List.map_id _)
    rw [storedProvider, objectMetadata, if_pos (hloaded.metadata provider hprovider)]
    rfl
  constructor
  · rintro ⟨hproviders, hpools, hrouting⟩
    obtain ⟨hplain, hparams⟩ := (routing_eq_iff hread hloaded.routes hreplaces).mp hrouting
    exact ⟨⟨(pools_eq_iff hread hreplaces).mp hpools, hplain⟩,
      map_reloadedProvider_eq_iff.mp (hproviders.trans hstored.symm), hparams⟩
  · rintro ⟨⟨hkeys, hplain⟩, hmetadata, hparams⟩
    exact ⟨(map_reloadedProvider_eq_iff.mpr hmetadata).trans hstored,
      (pools_eq_iff hread hreplaces).mpr hkeys,
      (routing_eq_iff hread hloaded.routes hreplaces).mpr ⟨hplain, hparams⟩⟩

/-- After any history of imports, edits and rotations, an export that passes validation can be
imported.  The snapshot is the same after it exactly if each key's identity is the hash of its
present secret, each route's parameters are an object, and the values of the document come back
from their columns.  The first two hold if no token was rotated and no route was created with other
parameters. -/
theorem import_of_export_unchanged_iff (hjson : SerdeJson.Lawful)
    (hbrace : SerdeJson.BraceReadsObject) (changes : List (StoreChange Cost))
    (current : ConfigSnapshot Cost) (read : TableRead Cost) (store : Store Cost)
    (hhistory : Run StoreChange.step .empty changes read.db)
    (hrefresh : current.refreshFromDb read = .ok store.snapshot)
    (htables : store.db.registry = read.db.registry) (text : Text) (config : Config Cost)
    (hyaml : SerdeYaml.fromStr text =
      (store.snapshot.exportDocument.toConfig : Except String (Config Cost)))
    (hvalid : validateYaml text = .ok config) (jsonError : String) (nowMs : ℤ) :
    ∃ after, store.importYaml { nowMs := nowMs, jsonError := jsonError } text = (after, .ok ()) ∧
      (store.snapshot.SameSections after.snapshot ↔
        store.snapshot.Restorable ∧ config.ReadsBack) ∧
      (GuardedRun StoreChange.step (fun _ change => change.Steady) .empty changes read.db →
        (store.snapshot.SameSections after.snapshot ↔ config.ReadsBack)) := by
  have hconfig : store.snapshot.exportDocument.toConfig = .ok config :=
    hyaml.symm.trans (validateYaml_eq_ok_iff.mp hvalid).1
  obtain ⟨⟨-, hfits⟩, -⟩ := ConfigSnapshot.refreshFromDb_eq_ok_iff.mp hrefresh
  rw [← htables] at hfits
  obtain ⟨after, himport, hiff⟩ := exists_import_of_export
    (loaded_of_run hjson hbrace hhistory hrefresh) hvalid (readFrom_of_toConfig hconfig) hfits
    jsonError nowMs
  refine ⟨after, himport, hiff, fun hsteady => ?_⟩
  rw [hiff, and_iff_right (restorable_of_steady hjson hbrace hsteady hrefresh)]

end

section

@[reducible] def paddedSha256 : Sha256 where
  digest bytes := (bytes ++ List.replicate 32 0).take 32
  digest_length bytes := by simp

attribute [local instance] jsonText paddedSha256

def oauthProvider : ProviderConfig := ⟨"u", "p", "u", .openAi, .obj [("region", .bool true)]⟩

def oauthRoute : ModelRouting := .withParams "p" (.obj [("top_k", .num (.int 40))]) (some "n")

def oauthConfig : Config ℚ where
  pools := AList.singleton "p"
    ⟨[{ key := "t1", weight := 1, credType := .oauth, refresh := some "r1", issuer := some "xai" }]⟩
  providers := [oauthProvider]
  modelToPool := AList.singleton "m" oauthRoute
  modelRegistry := []
  noIdentity := by simp

variable (access refresh : String) (expires : Option ℤ)

def oauthDb : Database ℚ :=
  { Database.empty with
    providers := .single (providerRow oauthProvider)
    pools := .single { id := "p" }
    routing := [routingRow "m" oauthRoute]
    keys := [{ poolId := "p", keyHash := computeKeyHash "r1", keyPlain := access, weight := 1,
               credType := some "oauth", refreshToken := some refresh, expiresAt := expires,
               issuer := some "xai" }] }

def importOauth : StoreChange ℚ := .imported "" oauthConfig

def rotateOauth : StoreChange ℚ := .rotated (computeKeyHash "r1") ⟨"t2", "r2", 9⟩

theorem step_importOauth : importOauth.step .empty = some (oauthDb "t1" "r1" none) := rfl

theorem step_rotateOauth :
    rotateOauth.step (oauthDb "t1" "r1" none) = some (oauthDb "t2" "r2" (some 9)) := by
  simp [rotateOauth, StoreChange.step, oauthDb, KeyRow.rotate]

def oauthStore (db : Database ℚ) : Store ℚ where
  db := db
  snapshot := ConfigSnapshot.default.publish [oauthProvider] (loadPools db.pools.rows db.keys)
    (loadRouting db.routing) db.registry.rows db.overrides 5

def oauthExport : Config ℚ :=
  { oauthConfig with
    pools := AList.singleton "p"
      ⟨[{ key := access, weight := 1, credType := .oauth, refresh := some refresh,
          expires := expires, issuer := some "xai" }]⟩
    noIdentity := by simp }

theorem readsBack_oauthExport : (oauthExport access refresh expires).ReadsBack := by
  constructor
  · exact forall_mem_singleton.mpr (by decide +kernel)
  · refine forall_mem_singleton.mpr fun params hparams => ?_
    cases hparams
    decide +kernel

theorem toConfig_oauthStore :
    (oauthStore (oauthDb access refresh expires)).snapshot.exportDocument.toConfig =
      .ok (oauthExport access refresh expires) := by
  with_unfolding_all rfl

theorem refreshFromDb_oauthDb :
    ConfigSnapshot.default.refreshFromDb { db := oauthDb access refresh expires, nowMs := 5 } =
      .ok (oauthStore (oauthDb access refresh expires)).snapshot := by
  have hload : loadProviders [providerRow oauthProvider] = .ok [oauthProvider] :=
    (loadProviders_providerRow [oauthProvider]).trans (congrArg Except.ok
      (map_reloadedProvider_eq_iff.mpr (readsBack_oauthExport access refresh expires).metadata))
  exact ConfigSnapshot.refreshFromDb_eq_ok_iff.mpr
    ⟨⟨fun _ => rfl, fun _ hrow => absurd hrow not_mem_nil⟩, _, hload, rfl⟩

end

section

attribute [local instance] jsonText paddedSha256

@[reducible] def freshYaml : SerdeYaml ℚ := ⟨fun _ => .ok (oauthExport "t1" "r1" none)⟩

attribute [local instance] freshYaml

theorem import_of_export_fresh :
    ∃ after, (oauthStore (oauthDb "t1" "r1" none)).importYaml { nowMs := 5 } [] = (after, .ok ()) ∧
      (oauthStore (oauthDb "t1" "r1" none)).snapshot.SameSections after.snapshot := by
  have hsteady : GuardedRun StoreChange.step (fun _ change => StoreChange.Steady change) .empty
      [importOauth] (oauthDb "t1" "r1" none) := .cons trivial step_importOauth (.nil _)
  obtain ⟨after, himport, -, hsame⟩ := import_of_export_unchanged_iff jsonText_lawful
    jsonText_braceReadsObject [importOauth] .default { db := oauthDb "t1" "r1" none, nowMs := 5 }
    (oauthStore (oauthDb "t1" "r1" none)) (.cons trivial step_importOauth (.nil _))
    (refreshFromDb_oauthDb _ _ _) rfl [] (oauthExport "t1" "r1" none)
    (toConfig_oauthStore _ _ _).symm rfl "" 5
  exact ⟨after, himport, (hsame hsteady).mpr (readsBack_oauthExport _ _ _)⟩

end

section

attribute [local instance] jsonText paddedSha256

@[reducible] def rotatedYaml : SerdeYaml ℚ := ⟨fun _ => .ok (oauthExport "t2" "r2" (some 9))⟩

attribute [local instance] rotatedYaml

def hashesOf (snapshot : ConfigSnapshot ℚ) (pool : String) : Option (List String) :=
  (snapshot.poolConfigs.lookup pool).map fun config => config.keys.map KeyEntry.identityHash

/-- After a rotation the same key comes back under another hash. -/
theorem import_of_export_changes_hash :
    Run StoreChange.step .empty [importOauth, rotateOauth] (oauthDb "t2" "r2" (some 9)) ∧
      ConfigSnapshot.default.refreshFromDb { db := oauthDb "t2" "r2" (some 9), nowMs := 5 } =
        .ok (oauthStore (oauthDb "t2" "r2" (some 9))).snapshot ∧
      (oauthStore (oauthDb "t2" "r2" (some 9))).snapshot.exportDocument.toConfig =
        .ok (oauthExport "t2" "r2" (some 9)) ∧
      validateYaml [] = .ok (oauthExport "t2" "r2" (some 9)) ∧
      ∃ after, (oauthStore (oauthDb "t2" "r2" (some 9))).importYaml { nowMs := 5 } [] =
          (after, .ok ()) ∧
        hashesOf (oauthStore (oauthDb "t2" "r2" (some 9))).snapshot "p" = some ["723100000000"] ∧
        hashesOf after.snapshot "p" = some ["723200000000"] := by
  refine ⟨.cons trivial step_importOauth (.cons trivial step_rotateOauth (.nil _)),
    refreshFromDb_oauthDb _ _ _, toConfig_oauthStore _ _ _, rfl, _, rfl, ?_, ?_⟩
  · decide +kernel
  · decide +kernel

end

end LlmProxy
