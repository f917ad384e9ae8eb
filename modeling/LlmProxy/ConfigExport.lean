import LlmProxy.ConfigImport

/-!
# Exporting a configuration

`admin_api_config_export` of `dashboard/admin_api.rs` and how its document is read again.  Of the
document the sections that an import reads are modelled.
-/

namespace LlmProxy

open Json

variable {Cost : Type}

/-! ## The document -/

structure ExportKey where
  key : String
  weight : UInt32
  credType : CredentialType
  refresh : Option String
  expires : Option ℤ
  issuer : Option String

structure ExportPool where
  keys : List ExportKey
  strategy : String

structure ExportDocument where
  providers : List Value
  pools : AList fun _ : String => ExportPool
  modelToPool : AList fun _ : String => Value

def providerKindToYaml : ProviderKind → String
  | .openAi => "openai"
  | .anthropic => "anthropic"
  | .gemini => "gemini"

def ExportKey.ofKeyEntry (key : KeyEntry) : ExportKey where
  key := key.key
  weight := key.weight
  credType := key.credType
  refresh := key.refresh
  expires := key.expires
  issuer := key.issuer

def ExportPool.ofConfig (pool : PoolConfig) : ExportPool where
  keys := pool.keys.map ExportKey.ofKeyEntry
  strategy := "weighted_random"

def ProviderConfig.toExportValue (provider : ProviderConfig) : Value :=
  .obj [("base_url", .str provider.baseUrl.toList), ("id", .str provider.id.toList),
    ("kind", .str (providerKindToYaml provider.kind).toList), ("metadata", provider.metadata),
    ("pool_id", .str provider.poolId.toList)]

def ModelRouting.exportFields (pool : String) (params : Option Value) (upstream : Option String) :
    Fields :=
  let object := Fields.insert "pool" (.str pool.toList) []
  let object := params.elim object fun params => Fields.insert "default_params" params object
  upstream.elim object fun upstream =>
    Fields.insert "upstream_model" (.str upstream.toList) object

/-- A route without parameters and upstream name is written as its pool. -/
def ModelRouting.toExportValue : ModelRouting → Value
  | simple pool => .str pool.toList
  | withParams pool defaultParams upstreamModel =>
    let upstream := trimmedName upstreamModel
    let params := if isObject defaultParams then some defaultParams else none
    if upstream.isNone && params.isNone then .str pool.toList
    else .obj (exportFields pool params upstream)

/-- Made from the snapshot, not from the tables. -/
def ConfigSnapshot.exportDocument (snapshot : ConfigSnapshot Cost) : ExportDocument where
  providers := snapshot.providers.map ProviderConfig.toExportValue
  pools := KeyedFold.mapValues ExportPool.ofConfig snapshot.poolConfigs
  modelToPool := KeyedFold.mapValues ModelRouting.toExportValue snapshot.modelRouting

/-! ## How a document is read -/

def textField (fields : Fields) (name : String) : Except String String :=
  match Fields.get name fields with
  | some (.str s) => .ok (String.ofList s)
  | some _ => .error s!"invalid type for field `{name}`, expected a string"
  | none => .error s!"missing field `{name}`"

def optionalText (fields : Fields) (name : String) : Except String (Option String) :=
  match Fields.get name fields with
  | some (.str s) => .ok (some (String.ofList s))
  | some .null => .ok none
  | none => .ok none
  | some _ => .error s!"invalid type for field `{name}`, expected a string"

/-- The names of `ProviderKind` in a document, with the alias `open_ai`. -/
def ProviderKind.ofName (name : String) : Except String ProviderKind :=
  match strToProviderKind name with
  | .ok kind => .ok kind
  | .error _ =>
    .error s!"unknown variant `{name}`, expected one of `openai`, `anthropic`, `gemini`"

/-- A provider without a kind is OpenAI's. -/
def ProviderConfig.ofValue : Value → Except String ProviderConfig
  | .obj fields => do
      let id ← textField fields "id"
      let poolId ← textField fields "pool_id"
      let baseUrl ← textField fields "base_url"
      let kind ← match Fields.get "kind" fields with
        | some _ => (textField fields "kind") >>= ProviderKind.ofName
        | none => .ok .openAi
      return { id, poolId, baseUrl, kind, metadata := (Fields.get "metadata" fields).getD .null }
  | _ => .error "invalid type, expected struct ProviderConfig"

/-- The variants are tried in turn; a string is a pool. -/
def ModelRouting.ofValue (value : Value) : Except String ModelRouting :=
  let mismatch := "data did not match any variant of untagged enum ModelRouting"
  match value with
  | .str pool => .ok (.simple (String.ofList pool))
  | .obj fields =>
    match textField fields "pool", optionalText fields "upstream_model" with
    | .ok pool, .ok upstream =>
      .ok (.withParams pool ((Fields.get "default_params" fields).getD .null) upstream)
    | _, _ => .error mismatch
  | _ => .error mismatch

/-- The document has no field for the identity of a key. -/
def ExportKey.toKeyEntry (key : ExportKey) : KeyEntry where
  key := key.key
  weight := key.weight
  credType := key.credType
  refresh := key.refresh
  expires := key.expires
  issuer := key.issuer
  identity := none

def ExportPool.toConfig (pool : ExportPool) : PoolConfig := ⟨pool.keys.map ExportKey.toKeyEntry⟩

/-- The document as it is deserialised; it has no registry. -/
def ExportDocument.toConfig (document : ExportDocument) : Except String (Config Cost) := do
  let providers ← document.providers.mapM ProviderConfig.ofValue
  let modelToPool ← KeyedFold.insertAllM Sigma.fst (fun entry => ModelRouting.ofValue entry.2) ∅
    document.modelToPool.entries
  return {
    providers, modelToPool
    pools := KeyedFold.mapValues ExportPool.toConfig document.pools
    modelRegistry := []
    noIdentity := by
      intro entry hentry key hkey
      obtain ⟨pool, -, rfl⟩ := List.mem_map.mp hentry
      obtain ⟨exported, -, rfl⟩ := List.mem_map.mp hkey
      rfl }

/-! ## What is read of an export -/

theorem ProviderConfig.ofValue_toExportValue (provider : ProviderConfig) :
    ofValue provider.toExportValue = .ok provider := by
  have hkind : ProviderKind.ofName (providerKindToYaml provider.kind) = .ok provider.kind := by
    cases provider.kind <;> rfl
  simp [toExportValue, ofValue, textField, Fields.get, hkind, bind, Except.bind, pure, Except.pure]

theorem ModelRouting.ofValue_exportFields (pool : String) (params : Option Value)
    (upstream : Option String) :
    ofValue (.obj (exportFields pool params upstream)) =
      .ok (.withParams pool (params.getD .null) upstream) := by
  have hpool : Fields.get "pool" (exportFields pool params upstream) =
      some (.str pool.toList) := by
    cases params <;> cases upstream <;> simp [exportFields, Fields.get_insert_ne]
  have hparams : Fields.get "default_params" (exportFields pool params upstream) = params := by
    cases params <;> cases upstream <;> simp [exportFields, Fields.get_insert_ne]
  have hupstream : Fields.get "upstream_model" (exportFields pool params upstream) =
      upstream.map fun name => .str name.toList := by
    cases params <;> cases upstream <;> simp [exportFields, Fields.get_insert_ne]
  cases upstream with
  | none => simp [ofValue, textField, optionalText, hpool, hparams, hupstream]
  | some => simp [ofValue, textField, optionalText, hpool, hparams, hupstream]

theorem ModelRouting.ofValue_toExportValue (route : ModelRouting) :
    ∃ read, ofValue route.toExportValue = .ok read ∧ read.parts = route.parts := by
  cases route with
  | simple pool => exact ⟨.simple pool, by simp [toExportValue, ofValue], rfl⟩
  | withParams pool params upstream =>
    rw [parts_withParams, toExportValue]
    split_ifs with hobject hplain hplain
    · simp at hplain
    · refine ⟨_, ofValue_exportFields _ _ _, ?_⟩
      simp [parts_withParams, hobject, trimmedName_trimmedName]
    · have hnone : trimmedName upstream = none := by simpa using hplain
      refine ⟨.simple pool, by simp [ofValue], ?_⟩
      rw [hnone]
      rfl
    · refine ⟨_, ofValue_exportFields _ _ _, ?_⟩
      simp [parts_withParams, isObject, trimmedName_trimmedName]

def KeyEntry.unidentified (key : KeyEntry) : KeyEntry := { key with identity := none }

theorem ExportPool.toConfig_ofConfig (pool : PoolConfig) :
    (ofConfig pool).toConfig = ⟨pool.keys.map KeyEntry.unidentified⟩ := by
  simp [toConfig, ofConfig, ExportKey.toKeyEntry, ExportKey.ofKeyEntry, KeyEntry.unidentified]

structure Config.ReadFrom (config : Config Cost) (snapshot : ConfigSnapshot Cost) : Prop where
  providers : config.providers = snapshot.providers
  pools : ∀ pool, config.pools.lookup pool =
    (snapshot.poolConfigs.lookup pool).map fun entry => ⟨entry.keys.map KeyEntry.unidentified⟩
  routing : ∀ model, (config.modelToPool.lookup model).map ModelRouting.parts =
    (snapshot.modelRouting.lookup model).map ModelRouting.parts
  registry : config.modelRegistry = []

theorem readFrom_of_toConfig {snapshot : ConfigSnapshot Cost} {config : Config Cost}
    (hconfig : snapshot.exportDocument.toConfig = .ok config) : config.ReadFrom snapshot := by
  unfold ExportDocument.toConfig at hconfig
  simp only [Except.bind_eq_ok_iff] at hconfig
  obtain ⟨providers, hproviders, modelToPool, hrouting, hsame⟩ := hconfig
  cases hsame
  constructor
  · rw [Except.mapM_eq_ok_iff, ConfigSnapshot.exportDocument,
      List.forall₂_map_left_iff] at hproviders
    simp only [ProviderConfig.ofValue_toExportValue, Except.ok.injEq,
      List.forall₂_eq_eq_eq] at hproviders
    exact hproviders.symm
  · intro pool
    simp only [ConfigSnapshot.exportDocument, KeyedFold.lookup_mapValues, Option.map_map]
    congr 1
    funext entry
    exact ExportPool.toConfig_ofConfig entry
  · intro model
    have hlookup := KeyedFold.lookup_insertAllM hrouting model
    simp only [ConfigSnapshot.exportDocument, KeyedFold.filter_entries,
      KeyedFold.lookup_mapValues] at hlookup
    simp only [hlookup]
    cases snapshot.modelRouting.lookup model with
    | none => rfl
    | some route =>
      obtain ⟨read, hread, hparts⟩ := route.ofValue_toExportValue
      simp [hread, hparts, Except.toOption]
  · rfl

end LlmProxy
