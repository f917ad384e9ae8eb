import LlmProxy.ConfigStore

/-!
# The metadata of the models

`GET /v1/model-metadata` lists every routed model with what the registry and the configuration say
about it (`model_catalog.rs`, `config/mod.rs`).
-/

namespace LlmProxy

open Json List Option

/-! ## What the configuration says -/

structure MetadataPricing (Cost : Type) where
  inputUsdPerMillionTokens : Cost
  outputUsdPerMillionTokens : Cost
  cacheReadUsdPerMillionTokens : Cost
  cacheWriteUsdPerMillionTokens : Cost
  deriving DecidableEq

structure MetadataPricingPartial (Cost : Type) where
  inputUsdPerMillionTokens : Option Cost := none
  outputUsdPerMillionTokens : Option Cost := none
  cacheReadUsdPerMillionTokens : Option Cost := none
  cacheWriteUsdPerMillionTokens : Option Cost := none

structure ModelMetadataPartial (Cost : Type) where
  name : Option String := none
  contextWindow : Option UInt32 := none
  maxOutputTokens : Option UInt32 := none
  inputTypes : Option (List String) := none
  reasoning : Option Bool := none
  thinkingLevels : Option (List Text) := none
  supportsTools : Option Bool := none
  supportsVision : Option Bool := none
  pricing : MetadataPricingPartial Cost := {}

structure ModelMetadataConfig (Cost : Type) where
  defaults : ModelMetadataPartial Cost := {}
  pools : AList (fun _ : String => ModelMetadataPartial Cost) := ∅
  models : AList (fun _ : String => ModelMetadataPartial Cost) := ∅

/-- `ModelMetadata` of `config/mod.rs`. -/
structure ConfiguredMetadata (Cost : Type) where
  name : String
  contextWindow : UInt32
  maxOutputTokens : UInt32
  inputTypes : List String
  reasoning : Bool
  thinkingLevels : List Text
  supportsTools : Bool
  supportsVision : Bool
  pricing : MetadataPricing Cost

variable {Cost : Type}

def MetadataPricingPartial.over (p : MetadataPricingPartial Cost) (out : MetadataPricing Cost) :
    MetadataPricing Cost where
  inputUsdPerMillionTokens := p.inputUsdPerMillionTokens.getD out.inputUsdPerMillionTokens
  outputUsdPerMillionTokens := p.outputUsdPerMillionTokens.getD out.outputUsdPerMillionTokens
  cacheReadUsdPerMillionTokens :=
    p.cacheReadUsdPerMillionTokens.getD out.cacheReadUsdPerMillionTokens
  cacheWriteUsdPerMillionTokens :=
    p.cacheWriteUsdPerMillionTokens.getD out.cacheWriteUsdPerMillionTokens

/-- One turn of the loop in `for_model`. -/
def ModelMetadataPartial.over (p : ModelMetadataPartial Cost) (out : ConfiguredMetadata Cost) :
    ConfiguredMetadata Cost where
  name := p.name.getD out.name
  contextWindow := p.contextWindow.getD out.contextWindow
  maxOutputTokens := p.maxOutputTokens.getD out.maxOutputTokens
  inputTypes := p.inputTypes.getD out.inputTypes
  reasoning := p.reasoning.getD out.reasoning
  thinkingLevels := p.thinkingLevels.getD out.thinkingLevels
  supportsTools := p.supportsTools.getD out.supportsTools
  supportsVision := p.supportsVision.getD out.supportsVision
  pricing := p.pricing.over out.pricing

/-- What `serde_json` makes of a number where a double is asked for. -/
class AsF64 (Cost : Type) where
  asF64 : Number → Cost

section

variable [Float64 Cost]

/-- The defaults, then what is set for the pool, then for the model. -/
def ModelMetadataConfig.forModel (config : ModelMetadataConfig Cost) (model pool : String) :
    ConfiguredMetadata Cost :=
  let out : ConfiguredMetadata Cost :=
    { name := model
      contextWindow := 128000
      maxOutputTokens := 16384
      inputTypes := ["text"]
      reasoning := false
      thinkingLevels := []
      supportsTools := false
      supportsVision := false
      pricing := ⟨0, 0, 0, 0⟩ }
  let poolPartial := (config.pools.lookup pool).getD {}
  let modelPartial := (config.models.lookup model).getD {}
  [config.defaults, poolPartial, modelPartial].foldl (fun out p => p.over out) out

variable [AsF64 Cost]

def Value.asF64 : Value → Option Cost
  | .num n => some (AsF64.asF64 n)
  | _ => none

/-- A negative or infinite cost is not taken. -/
def catalogCost (caps : Option Value) (field : String) (fallback : Cost) : Cost :=
  let n := ((caps.bind (pointer "metadata" "cost")).bind (Value.get field)).bind Value.asF64
  (n.filter fun n => Float64.isFinite n && !Float64.isNegative n).getD fallback

def keepLevel (out : Fields) (level : String × Value) : Fields :=
  match level.2 with
  | .null => out
  | value =>
    match canonicalThinkingLevel level.1.toList with
    | some canonical => Fields.insert (String.ofList canonical) value out
    | none => out

/-- The listing has the levels under canonical names; the translation of a request looks a level up
in the stored map. -/
def registryThinkingLevelMap (caps : Option Value) : Option Fields :=
  match caps.bind (pointer "metadata" "thinkingLevelMap") with
  | some (.obj map) =>
    let out := map.foldl keepLevel []
    if out.isEmpty then none else some out
  | _ => none

def reasoningThinkingLevels (caps : Option Value) : List Text :=
  match registryThinkingLevelMap caps with
  | some map => thinkingLevelOrder.filter fun level => (Fields.get (String.ofList level) map).isSome
  | none => []

def identityThinkingLevelMap (levels : List Text) : Option Fields :=
  if levels.isEmpty then none
  else
    some (levels.foldl (fun map level => Fields.insert (String.ofList level) (.str level) map) [])

/-- `ModelMetadata` of `types.rs`. -/
structure ModelMetadata (Cost : Type) where
  id : String
  name : String
  contextWindow : UInt32
  maxOutputTokens : UInt32
  inputTypes : List String
  reasoning : Bool
  thinkingLevels : List Text
  thinkingLevelMap : Option Fields
  supportsTools : Bool
  supportsVision : Bool
  pricing : MetadataPricing Cost

section

variable [SerdeJson]

def describeRow (id : String) (metadata : ConfiguredMetadata Cost) (entry : RegistryRow Cost) :
    ModelMetadata Cost :=
  let caps := entry.capabilitiesJson.bind SerdeJson.fromStr
  let registryThinkingLevels := reasoningThinkingLevels caps
  { id := id
    name := entry.displayName
    contextWindow := UInt32.ofInt (max entry.maxContextTokens 0)
    maxOutputTokens := UInt32.ofInt (max entry.maxOutputTokens 0)
    inputTypes := if entry.supportsVision then ["text", "image"] else ["text"]
    reasoning := ((caps.bind (Value.get "reasoning")).bind Value.asBool).getD metadata.reasoning
    thinkingLevels :=
      if registryThinkingLevels.isEmpty then metadata.thinkingLevels else registryThinkingLevels
    thinkingLevelMap := registryThinkingLevelMap caps
    supportsTools := entry.supportsToolCalling
    supportsVision := entry.supportsVision
    pricing :=
      { inputUsdPerMillionTokens := entry.inputPricePer1m.getD 0
        outputUsdPerMillionTokens := entry.outputPricePer1m.getD 0
        cacheReadUsdPerMillionTokens :=
          catalogCost caps "cache_read" metadata.pricing.cacheReadUsdPerMillionTokens
        cacheWriteUsdPerMillionTokens :=
          catalogCost caps "cache_write" metadata.pricing.cacheWriteUsdPerMillionTokens } }

def describeUnregistered (id : String) (metadata : ConfiguredMetadata Cost) :
    ModelMetadata Cost where
  id := id
  name := metadata.name
  contextWindow := metadata.contextWindow
  maxOutputTokens := metadata.maxOutputTokens
  inputTypes := metadata.inputTypes
  reasoning := metadata.reasoning
  thinkingLevels := metadata.thinkingLevels
  thinkingLevelMap := none
  supportsTools := metadata.supportsTools
  supportsVision := metadata.supportsVision
  pricing := metadata.pricing

def describeModel (config : ModelMetadataConfig Cost) (modelRegistry : List (RegistryRow Cost))
    (id pool : String) : ModelMetadata Cost :=
  let metadata := config.forModel id pool
  let described :=
    match modelRegistry.find? fun entry => entry.id = id ∧ entry.enabled with
    | some entry => describeRow id metadata entry
    | none => describeUnregistered id metadata
  { described with
    thinkingLevelMap :=
      described.thinkingLevelMap.or (identityThinkingLevelMap described.thinkingLevels) }

def Router.modelPoolList {Provider : Type} (router : Router Provider) : List (String × String) :=
  (router.modelMap.entries.map fun entry => (entry.1, entry.2.poolId)).mergeSort
    fun a b => a.1 ≤ b.1

/-- All routed models. -/
def listMetadata {Provider : Type} (config : ModelMetadataConfig Cost)
    (modelRegistry : List (RegistryRow Cost)) (router : Router Provider) :
    List (ModelMetadata Cost) :=
  router.modelPoolList.map fun model => describeModel config modelRegistry model.1 model.2

end

end

/-! ## The levels of a map -/

def spells (level : Text) (field : String × Value) : Bool :=
  canonicalThinkingLevel field.1.toList = some level

def keptLevel (level : String × Value) : Option (String × Value) :=
  match level.2 with
  | .null => none
  | value =>
    (canonicalThinkingLevel level.1.toList).map fun canonical => (String.ofList canonical, value)

theorem foldl_keepLevel (map out : Fields) :
    map.foldl keepLevel out =
      (map.filterMap keptLevel).foldl (fun map field => Fields.insert field.1 field.2 map) out := by
  rw [foldl_filterMap]
  congr 1
  funext out level
  obtain ⟨key, value⟩ := level
  cases value with
  | null => rfl
  | _ =>
    unfold keepLevel keptLevel
    cases canonicalThinkingLevel key.toList <;> rfl

theorem filter_keptLevel (map : Fields) (level : Text) :
    ((map.filterMap keptLevel).filter fun field => field.1 = String.ofList level) =
      (map.filter (spells level)).filterMap keptLevel := by
  rw [filter_filterMap, filterMap_filter]
  congr 1
  funext field
  obtain ⟨key, value⟩ := field
  cases value with
  | null => simp [keptLevel]
  | _ =>
    cases hcanonical : canonicalThinkingLevel key.toList with
    | none => simp [keptLevel, hcanonical]
    | some canonical =>
      by_cases hsame : canonical = level
      · simp [keptLevel, spells, hcanonical, hsame]
      · simp [keptLevel, spells, hcanonical, String.ofList_inj, hsame]

variable {levels : Fields}

theorem atMostOne_spells (hordered : Fields.Ordered levels)
    (hoff : ¬ ("none" ∈ levels.map Prod.fst ∧ "off" ∈ levels.map Prod.fst)) (level : Text) :
    KeyedFold.AtMostOne (spells level) levels := by
  unfold KeyedFold.AtMostOne
  match hfilter : levels.filter (spells level) with
  | [] => exact Nat.zero_le 1
  | [_] => exact Nat.le_refl 1
  | first :: second :: rest =>
    exfalso
    have hsorted := hordered.filter (spells level)
    rw [hfilter] at hsorted
    have hlt : first.1 < second.1 := rel_of_pairwise_cons hsorted mem_cons_self
    have hspelled : ∀ field ∈ [first, second], field.1 ∈ levels.map Prod.fst ∧
        ((field.1 = "none" ∧ level = "off".toList) ∨ field.1.toList = level) := by
      intro field hfield
      have hmem : field ∈ levels.filter (spells level) := by
        rw [hfilter]
        exact mem_append_left rest hfield
      obtain ⟨hmem, hspells⟩ := mem_filter.mp hmem
      refine ⟨List.mem_map_of_mem hmem, ?_⟩
      rcases canonicalThinkingLevel_eq_some_iff.mp (of_decide_eq_true hspells) with
        ⟨hnone, hlevel⟩ | ⟨hlevel, -⟩
      · exact .inl ⟨String.toList_injective hnone, hlevel⟩
      · exact .inr hlevel
    obtain ⟨hfirst, hfirstKey⟩ := hspelled first (by simp)
    obtain ⟨hsecond, hsecondKey⟩ := hspelled second (by simp)
    rcases hfirstKey with ⟨hnone, rfl⟩ | hkey
    · rcases hsecondKey with ⟨hnone', -⟩ | hkey'
      · exact absurd (hnone.trans hnone'.symm) hlt.ne
      · exact hoff ⟨hnone ▸ hfirst, String.toList_injective hkey' ▸ hsecond⟩
    · rcases hsecondKey with ⟨hnone', rfl⟩ | hkey'
      · exact hoff ⟨hnone' ▸ hsecond, String.toList_injective hkey ▸ hfirst⟩
      · exact absurd (String.toList_injective (hkey.trans hkey'.symm)) hlt.ne

theorem get_foldl_keepLevel (hordered : Fields.Ordered levels)
    (hvalues : ∀ field ∈ levels, field.2 = .null ∨ ∃ v, field.2 = .str v)
    (hoff : ¬ ("none" ∈ levels.map Prod.fst ∧ "off" ∈ levels.map Prod.fst)) (level : Text) :
    Fields.get (String.ofList level) (levels.foldl keepLevel []) =
      (upstreamLevel levels level).map Value.str := by
  have hone := atMostOne_spells hordered hoff level
  have hfind : upstreamLevel levels level =
      ((levels.filter (spells level)).head?.map Prod.snd).bind Value.asStr := by
    rw [head?_filter]
    rfl
  rw [foldl_keepLevel, Fields.get_foldl_insert, filter_keptLevel, hfind]
  rcases hone.filter_cases with hnone | ⟨⟨key, value⟩, hfilter⟩
  · rw [hnone]
    rfl
  · obtain ⟨hmem, hspells⟩ := mem_filter.mp (hfilter ▸ mem_singleton_self (key, value))
    have hcanonical : canonicalThinkingLevel key.toList = some level := of_decide_eq_true hspells
    rw [hfilter]
    rcases hvalues _ hmem with hnull | ⟨v, hv⟩
    · dsimp only at hnull
      rw [hnull]
      rfl
    · dsimp only at hv
      simp [keptLevel, hcanonical, hv, Value.asStr]

structure UsableLevels (levels : Fields) : Prop where
  values : ∀ field ∈ levels, field.2 = .null ∨ ∃ v, field.2 = .str v
  oneOff : ¬ ("none" ∈ levels.map Prod.fst ∧ "off" ∈ levels.map Prod.fst)
  listed : ∃ field ∈ levels, (canonicalThinkingLevel field.1.toList).isSome ∧
    ∃ v, field.2 = .str v

theorem UsableLevels.exists_upstreamLevel (husable : UsableLevels levels)
    (hordered : Fields.Ordered levels) :
    ∃ level ∈ thinkingLevelOrder, ∃ v, upstreamLevel levels level = some v := by
  obtain ⟨field, hfield, hcanonical, v, hv⟩ := husable.listed
  obtain ⟨level, hlevel⟩ := isSome_iff_exists.mp hcanonical
  refine ⟨level, ?_, v, ?_⟩
  · rcases canonicalThinkingLevel_eq_some_iff.mp hlevel with ⟨-, rfl⟩ | ⟨-, hmem⟩
    · decide
    · exact hmem
  · have hone := atMostOne_spells hordered husable.oneOff level
    have hfind : levels.find? (spells level) = some field :=
      hone.find?_eq_some hfield (decide_eq_true hlevel)
    change ((levels.find? (spells level)).map Prod.snd).bind Value.asStr = some v
    rw [hfind, map_some, hv]
    rfl

/-! ## The list and the requests -/

/-- What is read is nested less deep than the limit of the parser, with the keys of objects distinct
and in order. -/
def SerdeJson.ReadsParsed [SerdeJson] : Prop :=
  ∀ (text : Text) (value : Value), SerdeJson.fromStr text = some value → value.Parsed depthLimit

theorem jsonText_readsParsed : @SerdeJson.ReadsParsed jsonText := fun _ _ => parsed_of_parse

def RegistryRow.entry (row : RegistryRow Cost) : ModelRegistryEntry :=
  ⟨row.id, row.enabled, row.capabilitiesJson⟩

def Lists (models : List (ModelMetadata Cost)) (id : String) (level : Text) : Prop :=
  ∃ model ∈ models, model.id = id ∧ level ∈ model.thinkingLevels

def ListsAs (models : List (ModelMetadata Cost)) (id : String) (level v : Text) : Prop :=
  ∃ model ∈ models, model.id = id ∧ level ∈ model.thinkingLevels ∧
    model.thinkingLevelMap.bind (Fields.get (String.ofList level)) = some (.str v)

section

variable [Float64 Cost] [AsF64 Cost] {Provider : Type} {config : ModelMetadataConfig Cost}
  {router : Router Provider} {route : RouteEntry} {row : RegistryRow Cost} {levels : Fields}

variable [SerdeJson]

theorem describeModel_id (modelRegistry : List (RegistryRow Cost)) (id pool : String) :
    (describeModel config modelRegistry id pool).id = id := by
  unfold describeModel
  split <;> rfl

theorem exists_mem_listMetadata_iff {modelRegistry : List (RegistryRow Cost)} {id : String}
    (hroute : router.modelMap.lookup id = some route) (P : ModelMetadata Cost → Prop) :
    (∃ model ∈ listMetadata config modelRegistry router, model.id = id ∧ P model) ↔
      P (describeModel config modelRegistry id route.poolId) := by
  unfold listMetadata Router.modelPoolList
  simp only [List.mem_map, mem_mergeSort]
  constructor
  · rintro ⟨_, ⟨_, ⟨⟨other, found⟩, hmem, rfl⟩, rfl⟩, hid, hmodel⟩
    rw [describeModel_id] at hid
    obtain rfl : other = id := hid
    have hfound : router.modelMap.lookup other = some found := AList.mem_lookup_iff.mpr hmem
    rw [hroute] at hfound
    cases hfound
    exact hmodel
  · intro hmodel
    exact ⟨_, ⟨_, ⟨⟨id, route⟩, AList.mem_lookup_iff.mp hroute, rfl⟩, rfl⟩,
      describeModel_id modelRegistry id route.poolId, hmodel⟩

omit [Float64 Cost] [AsF64 Cost] in
theorem levelMapOf_entry (hlevels : levelMapOf row.entry = some levels) :
    (row.capabilitiesJson.bind SerdeJson.fromStr).bind (pointer "metadata" "thinkingLevelMap") =
      some (.obj levels) := by
  unfold levelMapOf at hlevels
  split at hlevels
  · rename_i found hfound
    cases hlevels
    exact hfound
  · cases hlevels

omit [Float64 Cost] [AsF64 Cost] in
theorem ordered_of_levelMapOf (hjson : SerdeJson.ReadsParsed)
    (hlevels : levelMapOf row.entry = some levels) : Fields.Ordered levels := by
  obtain ⟨caps, hcaps, hpointer⟩ := bind_eq_some_iff.mp (levelMapOf_entry hlevels)
  obtain ⟨text, -, hparse⟩ := bind_eq_some_iff.mp hcaps
  obtain ⟨metadata, hmetadata, hmap⟩ := bind_eq_some_iff.mp hpointer
  have hparsed := hjson text caps hparse
  exact ((hparsed.get hmetadata).get hmap).ordered

theorem describeRow_levels (hjson : SerdeJson.ReadsParsed)
    (hlevels : levelMapOf row.entry = some levels) (husable : UsableLevels levels) (id : String)
    (metadata : ConfiguredMetadata Cost) :
    (describeRow id metadata row).thinkingLevelMap = some (levels.foldl keepLevel []) ∧
      ∀ level ∈ thinkingLevelOrder,
        level ∈ (describeRow id metadata row).thinkingLevels ↔
          (upstreamLevel levels level).isSome := by
  have hordered := ordered_of_levelMapOf hjson hlevels
  have hget := get_foldl_keepLevel hordered husable.values husable.oneOff
  obtain ⟨first, hfirst, v, hv⟩ := husable.exists_upstreamLevel hordered
  have hnonempty : (levels.foldl keepLevel []).isEmpty = false := by
    by_contra hempty
    have hnil : levels.foldl keepLevel [] = [] := by simpa using hempty
    have hnone := hget first
    rw [hnil, hv] at hnone
    cases hnone
  have hmap : registryThinkingLevelMap (row.capabilitiesJson.bind SerdeJson.fromStr) =
      some (levels.foldl keepLevel []) := by
    unfold registryThinkingLevelMap
    rw [levelMapOf_entry hlevels]
    dsimp only
    rw [hnonempty]
    rfl
  have hlisted : ∀ level ∈ thinkingLevelOrder,
      level ∈ reasoningThinkingLevels (row.capabilitiesJson.bind SerdeJson.fromStr) ↔
        (upstreamLevel levels level).isSome := by
    intro level hlevel
    unfold reasoningThinkingLevels
    rw [hmap]
    rw [mem_filter, hget]
    simp [hlevel]
  have hsome : (reasoningThinkingLevels
      (row.capabilitiesJson.bind SerdeJson.fromStr)).isEmpty = false := by
    rw [isEmpty_eq_false_iff_exists_mem]
    exact ⟨first, (hlisted first hfirst).mpr (by rw [hv]; rfl)⟩
  refine ⟨hmap, ?_⟩
  intro level hlevel
  rw [← hlisted level hlevel]
  unfold describeRow
  dsimp only
  rw [hsome]
  rfl

variable {registry : KeyedTable fun row : RegistryRow Cost => row.id}

omit [Float64 Cost] [AsF64 Cost] [SerdeJson] in
theorem find?_enabled (hrow : row ∈ registry.rows) (henabled : row.enabled = true) :
    (registry.rows.find? fun entry => entry.id = row.id ∧ entry.enabled) = some row := by
  apply registry.find?_eq_some hrow
  · simp [henabled]
  · intro other hother
    exact (of_decide_eq_true hother).1

omit [Float64 Cost] [AsF64 Cost] [SerdeJson] in
theorem find?_enabled_entry {req : ChatCompletionRequest} (hrow : row ∈ registry.rows)
    (henabled : row.enabled = true) (hmodel : req.model = row.id) :
    ((registry.rows.map RegistryRow.entry).find? fun entry =>
      entry.id = req.model ∧ entry.enabled) = some row.entry := by
  have hfound := find?_enabled hrow henabled
  rw [find?_map, hmodel]
  change (registry.rows.find? fun entry => entry.id = row.id ∧ entry.enabled).map
    RegistryRow.entry = some row.entry
  rw [hfound]
  rfl

section

variable {registry : KeyedTable fun row : RegistryRow Cost => row.id} {level : Text}
  (hjson : SerdeJson.ReadsParsed) (hrow : row ∈ registry.rows) (henabled : row.enabled = true)
  (hlevels : levelMapOf row.entry = some levels) (husable : UsableLevels levels)
  (hroute : router.modelMap.lookup row.id = some route) (hlevel : level ∈ thinkingLevelOrder)

include hjson hrow henabled hlevels husable hlevel

theorem describeModel_level (pool : String) :
    (level ∈ (describeModel config registry.rows row.id pool).thinkingLevels ↔
        (upstreamLevel levels level).isSome) ∧
      (describeModel config registry.rows row.id pool).thinkingLevelMap.bind
          (Fields.get (String.ofList level)) = (upstreamLevel levels level).map Value.str := by
  obtain ⟨hmap, hlisted⟩ :=
    describeRow_levels hjson hlevels husable row.id (config.forModel row.id pool)
  have hget :=
    get_foldl_keepLevel (ordered_of_levelMapOf hjson hlevels) husable.values husable.oneOff
  unfold describeModel
  dsimp only
  rw [find?_enabled hrow henabled]
  rw [hmap]
  exact ⟨hlisted level hlevel, hget level⟩

include hroute

theorem lists_iff : Lists (listMetadata config registry.rows router) row.id level ↔
    (upstreamLevel levels level).isSome := by
  unfold Lists
  rw [exists_mem_listMetadata_iff hroute]
  exact (describeModel_level hjson hrow henabled hlevels husable hlevel route.poolId).1

theorem listsAs_iff {v : Text} :
    ListsAs (listMetadata config registry.rows router) row.id level v ↔
      upstreamLevel levels level = some v := by
  unfold ListsAs
  rw [exists_mem_listMetadata_iff hroute,
      (describeModel_level hjson hrow henabled hlevels husable hlevel route.poolId).1,
      (describeModel_level hjson hrow henabled hlevels husable hlevel route.poolId).2]
  cases upstreamLevel levels level with
  | none => simp
  | some => simp

/-- What the listing says about a level of a model is what its requests meet, exactly if the
provider is OpenAI-compatible or the level is not listed: the bodies for the others have no field
for it. -/
theorem metadata_agrees_with_requests {req : ChatCompletionRequest} (hmodel : req.model = row.id)
    (hask : req.extra.get "reasoning_effort" = some (.str level)) (kind : ProviderKind) :
    ((∀ v, ListsAs (listMetadata config registry.rows router) row.id level v ↔
        Forwarded (registry.rows.map RegistryRow.entry) route kind req (.str v)) ↔
      kind = .openAi ∨ ¬ Lists (listMetadata config registry.rows router) row.id level) ∧
      (¬ Lists (listMetadata config registry.rows router) row.id level →
        rewriteRequest (registry.rows.map RegistryRow.entry) route req =
          .error (unsupportedLevel row.entry level)) := by
  obtain ⟨fields, hextra, hask⟩ := Value.exists_fields_of_get hask
  have hfind := find?_enabled_entry hrow henabled hmodel
  have hcanonical : canonicalThinkingLevel level = some level :=
    canonicalThinkingLevel_eq_some_iff.mpr (.inr ⟨rfl, hlevel⟩)
  simp only [listsAs_iff hjson hrow henabled hlevels husable hroute hlevel, forwarded_iff,
    lists_iff hjson hrow henabled hlevels husable hroute hlevel,
    rewritesEffort_iff_upstreamLevel hfind hextra hlevels hask hcanonical]
  constructor
  · cases upstreamLevel levels level with
    | none => simp
    | some v => simp
  · intro hunlisted
    rw [not_isSome_iff_eq_none] at hunlisted
    exact rewriteRequest_unsupported hfind hextra hlevels hask hcanonical hunlisted

end

end

/-! ## An example -/

attribute [local instance] jsonText

instance : AsF64 ℚ where
  asF64
    | .int n => n
    | .float mantissa exponent => mantissa * 10 ^ exponent

def storedLevels : Fields :=
  [("high", .str "deep".toList), ("low", .null), ("none", .str "disabled".toList),
    ("turbo", .str "fast".toList)]

def levelRow : RegistryRow ℚ where
  id := "m"
  displayName := "M"
  providerKind := "openai"
  inputPricePer1m := none
  outputPricePer1m := none
  capabilitiesJson := some (print (.obj [("metadata", .obj [("thinkingLevelMap",
    .obj storedLevels)])]))

def levelRouter : Router Unit := ⟨AList.singleton "m" (plainRoute none), ∅⟩

def effortRequest (level : Text) : ChatCompletionRequest :=
  { askRequest with extra := .obj [("reasoning_effort", .str level)] }

theorem levelMapOf_levelRow : levelMapOf levelRow.entry = some storedLevels := by
  decide +kernel

theorem usableLevels_storedLevels : UsableLevels storedLevels where
  values := by simp [storedLevels]
  oneOff := by decide
  listed := ⟨("high", .str "deep".toList), by decide, by decide, _, rfl⟩

def levelTable : KeyedTable fun row : RegistryRow ℚ => row.id := .single levelRow

theorem alias_listed_and_forwarded :
    ListsAs (listMetadata {} [levelRow] levelRouter) "m" "off".toList "disabled".toList ∧
      Forwarded [levelRow.entry] (plainRoute none) .openAi (effortRequest "off".toList)
        (.str "disabled".toList) ∧
      rewriteRequest [levelRow.entry] (plainRoute none) (effortRequest "low".toList) =
        .error (unsupportedLevel levelRow.entry "low".toList) := by
  have hrow : levelRow ∈ levelTable.rows := mem_singleton_self levelRow
  have hroute : levelRouter.modelMap.lookup levelRow.id = some (plainRoute none) := rfl
  have hoff : "off".toList ∈ thinkingLevelOrder := by decide
  have hlow : "low".toList ∈ thinkingLevelOrder := by decide
  have hlisted : ListsAs (listMetadata {} levelTable.rows levelRouter) "m" "off".toList
      "disabled".toList :=
    (listsAs_iff jsonText_readsParsed hrow rfl levelMapOf_levelRow usableLevels_storedLevels hroute
      hoff).mpr (by decide)
  have hunlisted : ¬ Lists (listMetadata {} levelTable.rows levelRouter) "m" "low".toList :=
    fun hlists => absurd ((lists_iff jsonText_readsParsed hrow rfl levelMapOf_levelRow
      usableLevels_storedLevels hroute hlow).mp hlists) (by decide)
  refine ⟨hlisted, ?_, ?_⟩
  · exact ((metadata_agrees_with_requests jsonText_readsParsed hrow rfl levelMapOf_levelRow
      usableLevels_storedLevels hroute hoff rfl rfl .openAi).1.mpr (.inl rfl) _).mp hlisted
  · exact (metadata_agrees_with_requests jsonText_readsParsed hrow rfl levelMapOf_levelRow
      usableLevels_storedLevels hroute hlow rfl rfl .openAi).2 hunlisted

/-- The level is listed, and the body for Anthropic does not have it. -/
theorem alias_listed_and_dropped :
    ((listMetadata {} [levelRow] levelRouter).map fun model =>
        (model.thinkingLevels, model.thinkingLevelMap.bind (Fields.get "off"))) =
        [(["off".toList, "high".toList], some (.str "disabled".toList))] ∧
      (rewriteRequest [levelRow.entry] (plainRoute none) (effortRequest "off".toList)).toOption.map
        (fun sent => (sent.extra.get "reasoning_effort",
          (ProviderKind.anthropic.sentBody sent).map (Fields.get "reasoning_effort"))) =
        some (some (.str "disabled".toList), some none) := by
  decide +kernel

end LlmProxy
