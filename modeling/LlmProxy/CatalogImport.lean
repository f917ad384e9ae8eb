import LlmProxy.CatalogMatch
import LlmProxy.ModelMetadata

/-!
# The import of a model catalog

`import_json` of `model_import.rs` reads a catalog, and for every enabled route looks for an entry
that describes its model and writes it to the registry, with its capabilities as JSON text.
-/

namespace LlmProxy

open Json List Option Fields

namespace ModelImport

section

variable [SerdeJson]

def isBlank (s : Text) : Bool := (trim s).isEmpty

def sourceId (modelKey : String) (model : Value) : String :=
  match ((model.get "id").bind Value.asStr).filter fun s => !isBlank s with
  | some id => String.ofList id
  | none => modelKey

def readModel (provider : String) (candidates : List Candidate) (entry : String × Value) :
    Except AppError (List Candidate) :=
  let id := sourceId entry.1 entry.2
  if isBlank id.toList then .error (.config "model id must be a non-empty string")
  else if candidates.any fun candidate => candidate.provider == provider && candidate.id == id then
    .error (.config s!"duplicate source model id '{id}' for provider '{provider}'")
  else .ok (candidates ++ [⟨id, provider, entry.2⟩])

def readGroup (candidates : List Candidate) (group : String × Value) :
    Except AppError (List Candidate) :=
  match group.2.get "models" with
  | none => .ok candidates
  | some (.obj models) => models.foldlM (readModel group.1) candidates
  | some _ =>
    let provider := group.1
    .error (.config s!"provider '{provider}' models must be an object")

/-- The words of the parser, which follow the message in the source, are left out. -/
def readCatalog (text : Text) : Except AppError (List Candidate) :=
  match SerdeJson.fromStr text with
  | none => .error (.config "invalid model metadata JSON")
  | some (.obj providers) => providers.foldlM readGroup []
  | some _ => .error (.config "model metadata root must be an object")

end

/-! ## One entry -/

/-- A name that contains a word for a secret. -/
def sensitive (k : String) : Bool :=
  ["key", "token", "secret", "password", "credential", "authorization"].any
    fun x => containsText (norm k) x

mutual

/-- Sensitive fields are dropped at every depth. -/
def sanitize : Value → Value
  | .obj fields => .obj (sanitizeFields fields)
  | .arr items => .arr (sanitizeItems items)
  | v => v

def sanitizeItems : List Value → List Value
  | [] => []
  | item :: rest => sanitize item :: sanitizeItems rest

def sanitizeFields : List (String × Value) → List (String × Value)
  | [] => []
  | (k, v) :: rest =>
    if sensitive k then sanitizeFields rest else (k, sanitize v) :: sanitizeFields rest

end

def keepValue (map : Fields) (value : Value) : Fields :=
  match value.asStr.filter fun s => !isBlank s with
  | none => map
  | some level =>
    match canonicalThinkingLevel level with
    | none => map
    | some canonical => Fields.insert (String.ofList canonical) (.str level) map

variable (model : Value)

def effortOption : Option (List Value) := do
  let options ← (model.get "reasoning_options").bind Value.asArray
  let effort ← options.find? fun option =>
    (option.get "type").bind Value.asStr = some "effort".toList
  (effort.get "values").bind Value.asArray

/-- The listed effort values that name a level, if any. -/
def thinkingLevelMap : Option Value := do
  let values ← effortOption model
  let map := values.foldl keepValue []
  if map.isEmpty then none else some (.obj map)

structure MappedModel (Cost : Type) where
  name : String
  vision : Bool
  tools : Bool
  jsonMode : Bool
  context : ℤ
  output : ℤ
  inputPrice : Option Cost
  outputPrice : Option Cost
  caps : Text

def okOr {α : Type} (error : String) : Option α → Except String α
  | some a => .ok a
  | none => .error error

theorem okOr_eq_ok_iff {α : Type} {error : String} {o : Option α} {a : α} :
    okOr error o = .ok a ↔ o = some a := by
  cases o with
  | _ => simp [okOr]

def positiveI64 (v : Option Value) (field : String) : Except String ℤ := do
  let n ← okOr s!"{field} must be an integer" (v.bind Value.asI64)
  if n ≤ 0 then .error s!"{field} must be positive" else .ok n

def safeEntry : Value :=
  match sanitize model with
  | .obj fields =>
    let fields := Fields.remove "name" (Fields.remove "id" fields)
    match Fields.get "thinkingLevelMap" fields, thinkingLevelMap model with
    | none, some map => .obj (Fields.insert "thinkingLevelMap" map fields)
    | _, _ => .obj fields
  | v => v

def capabilities (providerId : String) (model : Value) : Value :=
  .obj [("metadata", safeEntry model), ("reasoning", (model.get "reasoning").getD .null),
    ("source_provider", .str providerId.toList)]

section

variable {Cost : Type} [Float64 Cost] [AsF64 Cost]

/-- A price is finite and not negative. -/
def price (cost : Value) (field : String) : Except String Cost := do
  let n ← okOr s!"cost.{field} must be a number" ((cost.get field).bind Value.asF64)
  if !Float64.isFinite n || Float64.isNegative n then .error s!"cost.{field} invalid" else .ok n

def limitOf (model : Value) : Option Fields :=
  match model.get "limit" with
  | some (.obj limit) => some limit
  | _ => none

def prices (model : Value) : Except String (Option Cost × Option Cost) :=
  match model.get "cost" with
  | some cost => do
      let input ← price cost "input"
      let output ← price cost "output"
      return (some input, some output)
  | none => .ok (none, none)

def seesImages (model : Value) : Bool :=
  (((model.get "modalities").bind (Value.get "input")).bind Value.asArray).any
    fun input => input.any fun v => v.asStr == some "image".toList

variable [SerdeJson]

/-- The destination and the kind are not used. -/
def mapModel (_destination _kind providerId : String) (model : Value) :
    Except String (MappedModel Cost) := do
  let name ← okOr "model name must be non-empty"
    (((model.get "name").bind Value.asStr).filter fun s => !isBlank s)
  let limit ← okOr "limit must be an object" (limitOf model)
  let context ← positiveI64 (Fields.get "context" limit) "limit.context"
  let output ← positiveI64 (Fields.get "output" limit) "limit.output"
  let (inputPrice, outputPrice) ← prices model
  let caps ← okOr "invalid capabilities JSON" (SerdeJson.toString (capabilities providerId model))
  return {
    name := String.ofList name
    vision := seesImages model
    tools := ((model.get "tool_call").bind Value.asBool).getD false
    jsonMode := ((model.get "structured_output").bind Value.asBool).getD false
    context, output, inputPrice, outputPrice, caps }

theorem toString_capabilities_of_mapModel {destination kind providerId : String} {model : Value}
    {mapped : MappedModel Cost}
    (hmapped : mapModel destination kind providerId model = .ok mapped) :
    SerdeJson.toString (capabilities providerId model) = some mapped.caps := by
  obtain ⟨name, -, hmapped⟩ := Except.bind_eq_ok_iff.mp hmapped
  obtain ⟨limit, -, hmapped⟩ := Except.bind_eq_ok_iff.mp hmapped
  obtain ⟨context, -, hmapped⟩ := Except.bind_eq_ok_iff.mp hmapped
  obtain ⟨output, -, hmapped⟩ := Except.bind_eq_ok_iff.mp hmapped
  obtain ⟨⟨inputPrice, outputPrice⟩, -, hmapped⟩ := Except.bind_eq_ok_iff.mp hmapped
  obtain ⟨caps, hcaps, hmapped⟩ := Except.bind_eq_ok_iff.mp hmapped
  cases hmapped
  exact okOr_eq_ok_iff.mp hcaps

/-- The row after the statement; `enabled` is not among the columns an update sets. -/
def MappedModel.row (mapped : MappedModel Cost) (id kind providerId : String) (enabled : Bool) :
    RegistryRow Cost where
  id := id
  displayName := mapped.name
  providerKind := kind
  providerConfigId := some providerId
  supportsVision := mapped.vision
  supportsToolCalling := mapped.tools
  supportsJsonMode := mapped.jsonMode
  maxContextTokens := mapped.context
  maxOutputTokens := mapped.output
  inputPricePer1m := mapped.inputPrice
  outputPricePer1m := mapped.outputPrice
  capabilitiesJson := some mapped.caps
  enabled := enabled

end

abbrev Registry (Cost : Type) := KeyedTable fun row : RegistryRow Cost => row.id

variable {Cost : Type}

/-- `UPDATE model_registry SET .. WHERE id = ..` or `INSERT INTO model_registry ..`. -/
def storeModel (registry : Registry Cost) (destination kind providerId : String)
    (mapped : MappedModel Cost) : Registry Cost :=
  if destination ∈ registry.rows.map RegistryRow.id then
    registry.update
      (fun row =>
        if row.id = destination then mapped.row row.id kind providerId row.enabled else row)
      (by
        intro row
        split_ifs <;> rfl)
  else registry.upsert (mapped.row destination kind providerId true)

/-! ## The loop over the routes -/

structure ImportCounts where
  new : ℕ := 0
  skipped : ℕ := 0
  conflicts : ℕ := 0
  failed : ℕ := 0
  deriving DecidableEq

structure ImportReport where
  counts : ImportCounts := {}
  reasons : List String := []
  deriving DecidableEq

namespace ImportReport

variable (report : ImportReport)

def skip (reason : String) : ImportReport where
  counts := { report.counts with skipped := report.counts.skipped + 1 }
  reasons := report.reasons ++ [reason]

def conflict (reason : String) : ImportReport where
  counts := { report.counts with conflicts := report.counts.conflicts + 1 }
  reasons := report.reasons ++ [reason]

def written : ImportReport :=
  { report with counts := { report.counts with new := report.counts.new + 1 } }

end ImportReport

/-- The only provider there is, or the only compatible one. -/
def pickLocalProvider (providerRows : List (String × String)) (catalogProvider : String) :
    Option (String × String) :=
  match providerRows with
  | [row] => some row
  | _ =>
    match providerRows.filter fun row => compatibleProvider catalogProvider row.1 row.2 with
    | [row] => some row
    | _ => none

def enabledProviders (db : Database Cost) (poolId : String) : List (String × String) :=
  (db.providers.rows.filter fun row => row.poolId = poolId ∧ row.enabled).map
    fun row => (row.id, row.kind)

section

variable [Float64 Cost] [AsF64 Cost] [SerdeJson]

def importRoute (db : Database Cost) (candidates : List Candidate) (overwrite : Bool)
    (state : Registry Cost × ImportReport) (route : RoutingRow) :
    Except AppError (Registry Cost × ImportReport) :=
  let destination := route.logicalModel
  let catalogId := (trimmedName route.upstreamModel).getD destination
  let providerRows := enabledProviders db route.poolId
  if !(db.pools.rows.any fun pool => pool.id = route.poolId ∧ pool.enabled) then
    .ok (state.1, state.2.skip s!"{destination}: pool unavailable")
  else if providerRows.isEmpty then
    .ok (state.1, state.2.skip s!"{destination}: provider unavailable")
  else
    match pickCatalogMatch candidates catalogId providerRows with
    | none => .ok (state.1, state.2.skip s!"{destination}: no associated metadata")
    | some source =>
      match pickLocalProvider providerRows source.provider with
      | none =>
        .ok (state.1,
          state.2.conflict s!"{destination}: provider association is not unambiguous")
      | some (providerId, kind) =>
        match mapModel destination kind providerId source.value with
        | .error e => .error (.config s!"{destination}: {e}")
        | .ok mapped =>
          if destination ∈ state.1.rows.map RegistryRow.id ∧ !overwrite then
            .ok (state.1, state.2.conflict s!"{destination}: protected existing record")
          else
            .ok (storeModel state.1 destination kind providerId mapped, state.2.written)

/-- The registry is replaced at the end: an error leaves the tables as they were. -/
def importJson (db : Database Cost) (text : Text) (overwrite : Bool) :
    Except AppError (Database Cost × ImportReport) := do
  let candidates ← readCatalog text
  let (registry, report) ←
    (db.routing.filter RoutingRow.enabled).foldlM (importRoute db candidates overwrite)
      (db.registry, {})
  return ({ db with registry := registry }, report)

end

/-! ## Outcomes -/

inductive RouteOutcome (Cost : Type)
  | skipped (reason : String)
  | ambiguous (reason : String)
  | described (destination kind providerId : String) (mapped : MappedModel Cost)

def RouteOutcome.settle (overwrite : Bool) (state : Registry Cost × ImportReport) :
    RouteOutcome Cost → Registry Cost × ImportReport
  | .skipped reason => (state.1, state.2.skip reason)
  | .ambiguous reason => (state.1, state.2.conflict reason)
  | .described destination kind providerId mapped =>
    if destination ∈ state.1.rows.map RegistryRow.id ∧ !overwrite then
      (state.1, state.2.conflict s!"{destination}: protected existing record")
    else (storeModel state.1 destination kind providerId mapped, state.2.written)

section

variable [Float64 Cost] [AsF64 Cost] [SerdeJson]

def routeOutcome (db : Database Cost) (candidates : List Candidate) (route : RoutingRow) :
    Except AppError (RouteOutcome Cost) :=
  let destination := route.logicalModel
  let catalogId := (trimmedName route.upstreamModel).getD destination
  let providerRows := enabledProviders db route.poolId
  if !(db.pools.rows.any fun pool => pool.id = route.poolId ∧ pool.enabled) then
    .ok (.skipped s!"{destination}: pool unavailable")
  else if providerRows.isEmpty then .ok (.skipped s!"{destination}: provider unavailable")
  else
    match pickCatalogMatch candidates catalogId providerRows with
    | none => .ok (.skipped s!"{destination}: no associated metadata")
    | some source =>
      match pickLocalProvider providerRows source.provider with
      | none => .ok (.ambiguous s!"{destination}: provider association is not unambiguous")
      | some (providerId, kind) =>
        match mapModel destination kind providerId source.value with
        | .error e => .error (.config s!"{destination}: {e}")
        | .ok mapped => .ok (.described destination kind providerId mapped)

/-- A turn of the loop finds out about its route and settles the outcome. -/
theorem importRoute_eq_settle (db : Database Cost) (candidates : List Candidate)
    (overwrite : Bool) (state : Registry Cost × ImportReport) (route : RoutingRow) :
    importRoute db candidates overwrite state route =
      (routeOutcome db candidates route).map (RouteOutcome.settle overwrite state) := by
  unfold importRoute routeOutcome
  dsimp only
  split
  · rfl
  split
  · rfl
  cases pickCatalogMatch candidates ((trimmedName route.upstreamModel).getD route.logicalModel)
      (enabledProviders db route.poolId) with
  | none => rfl
  | some source =>
    dsimp only
    cases pickLocalProvider (enabledProviders db route.poolId) source.provider with
    | none => rfl
    | some chosen =>
      dsimp only
      cases (mapModel route.logicalModel chosen.2 chosen.1 source.value :
          Except String (MappedModel Cost)) with
      | error => rfl
      | ok =>
        dsimp only [Except.map, RouteOutcome.settle]
        split_ifs <;> rfl

end

section

variable {provider : String} {candidates read : List Candidate}

theorem readModel_eq_ok {entry : String × Value}
    (hread : readModel provider candidates entry = .ok read) :
    read = candidates ++ [⟨sourceId entry.1 entry.2, provider, entry.2⟩] ∧
      ∀ candidate ∈ candidates,
        (candidate.provider, candidate.id) ≠ (provider, sourceId entry.1 entry.2) := by
  unfold readModel at hread
  dsimp only at hread
  split_ifs at hread with hblank hseen
  cases hread
  refine ⟨rfl, ?_⟩
  intro candidate hcandidate hsame
  apply hseen
  rw [List.any_eq_true]
  exact ⟨candidate, hcandidate, by simpa using hsame⟩

def groupEntries (group : String × Value) : List Candidate :=
  match group.2.get "models" with
  | some (.obj models) => models.map fun entry => ⟨sourceId entry.1 entry.2, group.1, entry.2⟩
  | _ => []

theorem readGroup_eq_ok {group : String × Value} (hread : readGroup candidates group = .ok read) :
    read = candidates ++ groupEntries group := by
  unfold readGroup at hread
  unfold groupEntries
  cases hmodels : group.2.get "models" with
  | none =>
    rw [hmodels] at hread
    cases hread
    exact (append_nil _).symm
  | some models =>
    rw [hmodels] at hread
    cases models with
    | obj models =>
      dsimp only
      rw [map_eq_flatMap]
      exact Except.foldlM_eq_append hread fun _ _ _ hnext => (readModel_eq_ok hnext).1
    | _ => cases hread

variable [SerdeJson]

def CatalogEntry (text : Text) (provider : String) (entry : String × Value) : Prop :=
  ∃ providers group models, SerdeJson.fromStr text = some (.obj providers) ∧
    (provider, group) ∈ providers ∧ group.get "models" = some (.obj models) ∧ entry ∈ models

theorem readCatalog_induction {P : List Candidate → Prop} {text : Text}
    (hread : readCatalog text = .ok read) (hnil : P [])
    (hentry : ∀ provider entry, CatalogEntry text provider entry → ∀ candidates next,
      P candidates → readModel provider candidates entry = .ok next → P next) : P read := by
  unfold readCatalog at hread
  split at hread
  · cases hread
  · rename_i providers hroot
    refine Except.foldlM_invariant hread hnil ?_
    rintro ⟨provider, group⟩ hgroup candidates next hcandidates hnext
    unfold readGroup at hnext
    split at hnext
    · cases hnext
      exact hcandidates
    · rename_i models hmodels
      refine Except.foldlM_invariant hnext hcandidates ?_
      intro entry hmem
      exact hentry provider entry ⟨providers, group, models, hroot, hgroup, hmodels, hmem⟩
    · cases hnext
  · cases hread

theorem distinctEntries_of_readCatalog {text : Text} (hread : readCatalog text = .ok read) :
    DistinctEntries read := by
  refine readCatalog_induction hread nodup_nil ?_
  intro provider entry _ candidates next hdistinct hnext
  obtain ⟨rfl, hfresh⟩ := readModel_eq_ok hnext
  unfold DistinctEntries
  rw [map_append]
  refine List.Nodup.append hdistinct (nodup_singleton _) ?_
  rw [map_singleton, disjoint_singleton, List.mem_map]
  rintro ⟨candidate, hcandidate, hsame⟩
  exact hfresh candidate hcandidate hsame

/-- Every entry of an accepted catalog, as it is parsed, is read once and in key order; no entry is
named twice. -/
theorem readCatalog_whole {text : Text} (hread : readCatalog text = .ok read) :
    ∃ providers, SerdeJson.fromStr text = some (.obj providers) ∧
      read = providers.flatMap groupEntries ∧ DistinctEntries read := by
  have hdistinct := distinctEntries_of_readCatalog hread
  unfold readCatalog at hread
  split at hread
  · cases hread
  · rename_i providers hroot
    exact ⟨providers, hroot, Except.foldlM_eq_append hread fun _ _ _ => readGroup_eq_ok, hdistinct⟩
  · cases hread

theorem parsed_of_readCatalog (hjson : SerdeJson.ReadsParsed) {text : Text}
    {candidates : List Candidate} (hread : readCatalog text = .ok candidates) :
    ∀ candidate ∈ candidates, candidate.value.Parsed 124 := by
  refine readCatalog_induction
    (P := fun candidates => ∀ candidate ∈ candidates, candidate.value.Parsed 124) hread
    (forall_mem_nil _) ?_
  rintro provider entry ⟨providers, group, models, hroot, hgroup, hmodels, hentry⟩ candidates next
    hcandidates hnext
  obtain ⟨rfl, -⟩ := readModel_eq_ok hnext
  have hparsed : (Value.obj providers).Parsed 127 := hjson text _ hroot
  have hvalue : entry.2.Parsed 124 := ((hparsed.field hgroup).get hmodels).field hentry
  rw [forall_mem_append]
  exact ⟨hcandidates, forall_mem_singleton.mpr hvalue⟩

end

theorem sanitizeItems_eq (items : List Value) : sanitizeItems items = items.map sanitize := by
  induction items with
  | nil => rfl
  | cons item rest ih => rw [sanitizeItems, ih, map_cons]

theorem sanitizeFields_eq (fields : Fields) :
    sanitizeFields fields =
      (fields.filter fun field => !sensitive field.1).map
        fun field => (field.1, sanitize field.2) := by
  induction fields with
  | nil => rfl
  | cons field rest ih =>
    obtain ⟨k, v⟩ := field
    rw [sanitizeFields, ih]
    cases hsensitive : sensitive k with
    | true => simp [hsensitive]
    | false => simp [hsensitive]

theorem get_sanitizeFields (key : String) (fields : Fields) :
    Fields.get key (sanitizeFields fields) =
      if sensitive key then none else (Fields.get key fields).map sanitize := by
  induction fields with
  | nil => simp [sanitizeFields]
  | cons field rest ih =>
    obtain ⟨k, v⟩ := field
    rw [sanitizeFields, get_cons]
    by_cases hkey : k = key
    · subst hkey
      cases hsensitive : sensitive k with
      | true => simp [ih, hsensitive]
      | false => simp [get_cons]
    · cases hsensitive : sensitive k with
      | true => simp [ih, hkey]
      | false => simp [get_cons, ih, hkey]

theorem parsed_sanitize {depth : ℕ} {v : Value} (hparsed : v.Parsed depth) :
    (sanitize v).Parsed depth := by
  induction hparsed with
  | null depth => exact .null depth
  | bool depth b => exact .bool depth b
  | int depth n hrange => exact .int depth n hrange
  | float depth mantissa exponent => exact .float depth mantissa exponent
  | str depth s => exact .str depth s
  | arr _ ih =>
    rw [sanitize, sanitizeItems_eq]
    refine .arr ?_
    rw [List.forall_mem_map]
    exact ih
  | obj hordered _ ih =>
    rw [sanitize, sanitizeFields_eq]
    refine .obj ?_ ?_
    · unfold Fields.Ordered
      rw [pairwise_map]
      exact hordered.filter _
    · rw [List.forall_mem_map]
      exact fun field hfield => ih field (mem_of_mem_filter hfield)

/-! ## The levels that are stored -/

variable (model : Value)

def effortValues : List Text :=
  ((effortOption model).getD []).filterMap Value.asStr

variable (level : Text)

def keptValue : Option (String × Value) :=
  (canonicalThinkingLevel level).map fun canonical => (String.ofList canonical, .str level)

def importedLevels : Fields :=
  ((effortValues model).filterMap keptValue).foldl
    (fun map field => Fields.insert field.1 field.2 map) []

def lastSpelling (values : List Text) (level : Text) : Option Text :=
  (values.filter fun value => canonicalThinkingLevel value = some level).getLast?

theorem isBlank_of_canonical {level canonical : Text}
    (hcanonical : canonicalThinkingLevel level = some canonical) : isBlank level = false := by
  have hlevels : ∀ level ∈ thinkingLevelOrder, isBlank level = false := by decide
  rcases canonicalThinkingLevel_eq_some_iff.mp hcanonical with ⟨rfl, -⟩ | ⟨rfl, hmem⟩
  · decide
  · exact hlevels level hmem

theorem foldl_keepValue (values : List Value) (map : Fields) :
    values.foldl keepValue map =
      ((values.filterMap Value.asStr).filterMap keptValue).foldl
        (fun map field => Fields.insert field.1 field.2 map) map := by
  rw [filterMap_filterMap, foldl_filterMap]
  congr 1
  funext map value
  unfold keepValue keptValue
  cases value.asStr with
  | none => rfl
  | some level =>
    cases hcanonical : canonicalThinkingLevel level with
    | none =>
      cases hblank : isBlank level with
      | true => simp [filter_some, hblank, hcanonical]
      | false => simp [filter_some, hblank, hcanonical]
    | some =>
      simp [filter_some, isBlank_of_canonical, hcanonical]

theorem thinkingLevelMap_eq :
    thinkingLevelMap model =
      if (importedLevels model).isEmpty then none else some (.obj (importedLevels model)) := by
  unfold thinkingLevelMap importedLevels effortValues
  cases effortOption model with
  | none => rfl
  | some =>
    rw [bind_eq_bind, bind_some, getD_some, ← foldl_keepValue]

theorem mem_importedLevels {model : Value} {field : String × Value}
    (hfield : field ∈ importedLevels model) :
    ∃ value, canonicalThinkingLevel value = some field.1.toList ∧ field.2 = .str value := by
  rcases mem_of_mem_foldl_insert hfield with hnil | hkept
  · cases hnil
  · obtain ⟨value, -, hkept⟩ := mem_filterMap.mp hkept
    obtain ⟨canonical, hcanonical, rfl⟩ := map_eq_some_iff.mp hkept
    exact ⟨value, by rw [String.toList_ofList, hcanonical], rfl⟩

theorem parsed_importedLevels (depth : ℕ) :
    (Value.obj (importedLevels model)).Parsed (depth + 1) := by
  refine .obj (ordered_foldl_insert List.Pairwise.nil _) ?_
  intro field hfield
  obtain ⟨value, -, hvalue⟩ := mem_importedLevels hfield
  rw [hvalue]
  exact .str depth value

theorem filter_keptValue (values : List Text) (level : Text) :
    ((values.filterMap keptValue).filter fun field => field.1 = String.ofList level) =
      (values.filter fun value => canonicalThinkingLevel value = some level).map
        fun value => (String.ofList level, .str value) := by
  rw [filter_filterMap, ← filterMap_eq_map, filterMap_filter]
  congr 1
  funext value
  unfold keptValue
  cases canonicalThinkingLevel value with
  | none => rfl
  | some canonical =>
    by_cases hsame : canonical = level
    · simp [hsame]
    · simp [hsame, String.ofList_inj]

theorem get_importedLevels :
    Fields.get (String.ofList level) (importedLevels model) =
      (lastSpelling (effortValues model) level).map Value.str := by
  unfold importedLevels
  rw [get_foldl_insert, filter_keptValue, getLast?_map, get_nil, or_none,
    Option.map_map]
  rfl

theorem upstreamLevel_importedLevels :
    upstreamLevel (importedLevels model) level = lastSpelling (effortValues model) level := by
  have hkeys : ∀ field ∈ importedLevels model,
      canonicalThinkingLevel field.1.toList = some field.1.toList := by
    intro field hfield
    obtain ⟨value, hvalue, -⟩ := mem_importedLevels hfield
    exact canonicalThinkingLevel_canonical hvalue
  rw [upstreamLevel_eq_get hkeys, get_importedLevels]
  cases lastSpelling (effortValues model) level <;> rfl

theorem importedLevels_isEmpty_iff :
    (importedLevels model).isEmpty = true ↔
      ∀ value ∈ effortValues model, canonicalThinkingLevel value = none := by
  rw [List.isEmpty_iff]
  constructor
  · intro hempty value hvalue
    cases hcanonical : canonicalThinkingLevel value with
    | none => rfl
    | some level =>
      have hget := get_importedLevels model level
      rw [hempty, get_nil, eq_comm, map_eq_none_iff, lastSpelling,
        getLast?_eq_none_iff, filter_eq_nil_iff] at hget
      exact absurd (decide_eq_true hcanonical) (hget value hvalue)
  · intro hnone
    have hkept : (effortValues model).filterMap keptValue = [] := by
      rw [filterMap_eq_nil_iff]
      intro value hvalue
      rw [keptValue, hnone value hvalue]
      rfl
    rw [importedLevels, hkept]
    rfl

/-! ## The stored text -/

def safeFields (fields : Fields) : Fields :=
  Fields.remove "name" (Fields.remove "id" (sanitizeFields fields))

theorem safeEntry_obj (fields : Fields) :
    safeEntry (.obj fields) =
      match Fields.get "thinkingLevelMap" (safeFields fields), thinkingLevelMap (.obj fields) with
      | none, some map => .obj (Fields.insert "thinkingLevelMap" map (safeFields fields))
      | _, _ => .obj (safeFields fields) := by
  rfl

theorem get_safeEntry {model : Value} (hown : model.get "thinkingLevelMap" = none) :
    (safeEntry model).get "thinkingLevelMap" = thinkingLevelMap model := by
  cases model with
  | obj fields =>
    have hget : Fields.get "thinkingLevelMap" (safeFields fields) = none := by
      have hfields : Fields.get "thinkingLevelMap" fields = none := hown
      rw [safeFields, get_remove_ne (by decide), get_remove_ne (by decide),
        get_sanitizeFields, hfields]
      simp
    rw [safeEntry_obj, hget]
    cases thinkingLevelMap (.obj fields) with
    | none => exact hget
    | some map => exact get_insert_self "thinkingLevelMap" map (safeFields fields)
  | _ => rfl

theorem parsed_safeEntry {depth : ℕ} {model : Value} (hparsed : model.Parsed (depth + 2)) :
    (safeEntry model).Parsed (depth + 2) := by
  have hsanitized := parsed_sanitize hparsed
  cases model with
  | obj fields =>
    have hsafe : (Value.obj (safeFields fields)).Parsed (depth + 2) :=
      (hsanitized.remove "id").remove "name"
    rw [safeEntry_obj, thinkingLevelMap_eq]
    split
    · rename_i map hmap
      split_ifs at hmap
      cases hmap
      exact hsafe.insert _ (parsed_importedLevels _ depth)
    · exact hsafe
  | _ => exact hsanitized

theorem parsed_capabilities {model : Value} (hparsed : model.Parsed 124) (providerId : String) :
    (capabilities providerId model).Parsed depthLimit := by
  have hreasoning : ((model.get "reasoning").getD .null).Parsed 126 := by
    cases hget : model.get "reasoning" with
    | none => exact .null 126
    | some => exact (hparsed.get hget).mono (by decide)
  have hkeys : ["metadata", "reasoning", "source_provider"].Pairwise (· < ·) := by decide
  refine .obj ((pairwise_map (f := Prod.fst)).mp hkeys) ?_
  intro field hfield
  simp only [mem_cons, not_mem_nil, or_false] at hfield
  rcases hfield with rfl | rfl | rfl
  · exact (parsed_safeEntry hparsed).mono (by decide)
  · exact hreasoning
  · exact .str 126 _

section

/-- What is printed is read back but for the numbers, which may be rounded. -/
def SerdeJson.ReadsUpToNumbers [SerdeJson] : Prop :=
  ∀ (value : Value) (s : Text), value.Parsed depthLimit → SerdeJson.toString value = some s →
    ∃ read, SerdeJson.fromStr s = some read ∧ read.UpToNumbers value

theorem jsonText_readsUpToNumbers : @SerdeJson.ReadsUpToNumbers jsonText := by
  intro value s hparsed hprint
  cases hprint
  exact ⟨value, hparsed.parse_print, .refl value⟩

variable {Cost : Type} [Float64 Cost] [AsF64 Cost] [SerdeJson]

def DescribedBy (row : RegistryRow Cost) (model : Value) : Prop :=
  ∃ kind providerId mapped, mapModel row.id kind providerId model = .ok mapped ∧
    row = mapped.row row.id kind providerId row.enabled

theorem levelMapOf_described (hjson : SerdeJson.ReadsUpToNumbers) {row : RegistryRow Cost}
    {model : Value} (hdescribed : DescribedBy row model) (hparsed : model.Parsed 124)
    (hown : model.get "thinkingLevelMap" = none) :
    levelMapOf row.entry =
      if (importedLevels model).isEmpty then none else some (importedLevels model) := by
  obtain ⟨kind, providerId, mapped, hmapped, hrow⟩ := hdescribed
  have htext : row.entry.capabilitiesJson = some mapped.caps := by
    rw [hrow]
    rfl
  obtain ⟨read, hread, hsame⟩ := hjson _ _ (parsed_capabilities hparsed providerId)
    (toString_capabilities_of_mapModel hmapped)
  have hmetadata : (capabilities providerId model).get "metadata" = some (safeEntry model) := rfl
  have hget := hsame.get "metadata"
  rw [hmetadata] at hget
  unfold levelMapOf
  rw [htext, bind_some, hread, bind_some, pointer]
  generalize read.get "metadata" = found at hget ⊢
  cases hget with
  | @some stored _ hstored =>
    have hmap := hstored.get "thinkingLevelMap"
    rw [get_safeEntry hown, thinkingLevelMap_eq] at hmap
    rw [bind_some]
    generalize stored.get "thinkingLevelMap" = levels at hmap ⊢
    split_ifs at hmap ⊢
    · cases hmap
      rfl
    · cases hmap with
      | some hlevels =>
        have hstrings : ∀ field ∈ importedLevels model, ∃ text, field.2 = .str text := by
          intro field hfield
          obtain ⟨value, -, hvalue⟩ := mem_importedLevels hfield
          exact ⟨value, hvalue⟩
        rw [hlevels.eq_of_strings hstrings]

/-! ## Whole imports -/

variable {db : Database Cost} {candidates : List Candidate} {registry before : Registry Cost}
  {state next : Registry Cost × ImportReport} {route : RoutingRow} {row : RegistryRow Cost}
  {destination kind providerId : String} {mapped : MappedModel Cost} {overwrite : Bool}

omit [Float64 Cost] [AsF64 Cost] [SerdeJson] in
theorem mem_storeModel
    (hrow : row ∈ (storeModel registry destination kind providerId mapped).rows) :
    row ∈ registry.rows ∨ row.id = destination ∧
      row = mapped.row row.id kind providerId row.enabled := by
  unfold storeModel at hrow
  split_ifs at hrow with hexists
  · obtain ⟨old, hold, rfl⟩ := List.mem_map.mp hrow
    split_ifs with hid
    · exact .inr ⟨hid, rfl⟩
    · exact .inl hold
  · rcases KeyedTable.mem_upsert_iff.mp hrow with rfl | ⟨hold, -⟩
    · exact .inr ⟨rfl, rfl⟩
    · exact .inl hold

omit [SerdeJson] in
theorem pickCatalogMatch_mem {providerRows : List (String × String)} {source : Candidate}
    (hpick : pickCatalogMatch candidates destination providerRows = some source) :
    source ∈ candidates := by
  rw [pickCatalogMatch_eq_argmin] at hpick
  obtain ⟨⟨found, score⟩, hmin, rfl⟩ := map_eq_some_iff.mp hpick
  exact (mem_filterMap_scored.mp (argmin_mem hmin)).1

theorem described_of_routeOutcome
    (hfound : routeOutcome db candidates route =
      .ok (.described destination kind providerId mapped)) :
    destination = route.logicalModel ∧ ∃ source ∈ candidates,
      mapModel destination kind providerId source.value = .ok mapped := by
  unfold routeOutcome at hfound
  dsimp only at hfound
  split at hfound
  · cases hfound
  split at hfound
  · cases hfound
  split at hfound
  · cases hfound
  rename_i source hpick
  split at hfound
  · cases hfound
  split at hfound
  · cases hfound
  rename_i hmapped
  cases hfound
  exact ⟨rfl, source, pickCatalogMatch_mem hpick, hmapped⟩

def OldOrDescribed (before : Registry Cost) (candidates : List Candidate)
    (registry : Registry Cost) : Prop :=
  ∀ row ∈ registry.rows, row ∈ before.rows ∨ ∃ source ∈ candidates, DescribedBy row source.value

theorem OldOrDescribed.importRoute (hstate : OldOrDescribed before candidates state.1)
    (hturn : importRoute db candidates overwrite state route = .ok next) :
    OldOrDescribed before candidates next.1 := by
  rw [importRoute_eq_settle] at hturn
  cases hfound : routeOutcome db candidates route with
  | error =>
    rw [hfound] at hturn
    cases hturn
  | ok outcome =>
    rw [hfound] at hturn
    cases hturn
    cases outcome with
    | described destination kind providerId mapped =>
      obtain ⟨-, source, hsource, hmapped⟩ := described_of_routeOutcome hfound
      intro row hrow
      dsimp only [RouteOutcome.settle] at hrow
      split_ifs at hrow
      · exact hstate row hrow
      · rcases mem_storeModel hrow with hold | ⟨rfl, hwritten⟩
        · exact hstate row hold
        · exact .inr ⟨source, hsource, kind, providerId, mapped, hmapped, hwritten⟩
    | _ => exact hstate

theorem oldOrDescribed_of_importJson {imported : Database Cost} {text : Text}
    {report : ImportReport} (hcatalog : readCatalog text = .ok candidates)
    (himport : importJson db text overwrite = .ok (imported, report)) :
    OldOrDescribed db.registry candidates imported.registry := by
  obtain ⟨found, hfound, himport⟩ := Except.bind_eq_ok_iff.mp himport
  cases hcatalog.symm.trans hfound
  obtain ⟨⟨registry, final⟩, hloop, himport⟩ := Except.bind_eq_ok_iff.mp himport
  cases himport
  refine Except.foldlM_invariant
    (P := fun state => OldOrDescribed db.registry candidates state.1) hloop ?_ ?_
  · exact fun row hrow => .inl hrow
  · exact fun route _ state next hstate hturn => hstate.importRoute hturn

/-- What becomes of a request with the level: it is sent with a value of the entry, refused, or
sent as it is. -/
structure FollowsValues (values : List Text) (Sends : Value → Prop) (Refused : Prop)
    (effort : Value) : Prop where
  sent : ∀ text level v, effort = .str text → canonicalThinkingLevel text = some level →
    lastSpelling values level = some v → Sends (.str v)
  rejected : ∀ text level, effort = .str text → canonicalThinkingLevel text = some level →
    lastSpelling values level = none → (∃ v ∈ values, (canonicalThinkingLevel v).isSome) → Refused
  unchanged : (∀ v ∈ values, canonicalThinkingLevel v = none) → Sends effort
  other : effort.asStr.bind canonicalThinkingLevel = none → Sends effort

def Refused (registry : List ModelRegistryEntry) (route : RouteEntry)
    (req : ChatCompletionRequest) : Prop :=
  ∃ message, rewriteRequest registry route req = .error (.badRequest message)

theorem followsValues_of_described (hjson : SerdeJson.ReadsUpToNumbers) {model effort : Value}
    {req : ChatCompletionRequest} (hrow : row ∈ registry.rows) (henabled : row.enabled = true)
    (hdescribed : DescribedBy row model) (hparsed : model.Parsed 124)
    (hown : model.get "thinkingLevelMap" = none) (hmodel : req.model = row.id)
    (hask : req.extra.get "reasoning_effort" = some effort) (route : RouteEntry) :
    FollowsValues (effortValues model)
      (RewritesEffort (registry.rows.map RegistryRow.entry) route req)
      (Refused (registry.rows.map RegistryRow.entry) route req) effort := by
  obtain ⟨fields, hextra, hask⟩ := Value.exists_fields_of_get hask
  have hfind := find?_enabled_entry hrow henabled hmodel
  have hlevels := levelMapOf_described hjson hdescribed hparsed hown
  have hstored : (∃ v ∈ effortValues model, (canonicalThinkingLevel v).isSome) →
      levelMapOf row.entry = some (importedLevels model) := by
    rintro ⟨v, hv, hcanonical⟩
    rw [hlevels, if_neg]
    intro hempty
    rw [(importedLevels_isEmpty_iff model).mp hempty v hv] at hcanonical
    cases hcanonical
  constructor
  case sent =>
    rintro text level v rfl hlevel hlast
    have hvalue : v ∈ effortValues model ∧ canonicalThinkingLevel v = some level := by
      simpa using mem_filter.mp (mem_of_getLast? hlast)
    refine rewritesEffort_of_upstreamLevel hfind hextra (hstored ⟨v, hvalue.1, ?_⟩) hask hlevel ?_
    · rw [hvalue.2]
      rfl
    · rw [upstreamLevel_importedLevels, hlast]
  case rejected =>
    rintro text level rfl hlevel hlast hsome
    refine ⟨_, rewriteRequest_unsupported hfind hextra (hstored hsome) hask hlevel ?_⟩
    rw [upstreamLevel_importedLevels, hlast]
  case unchanged =>
    intro hnone
    refine rewritesEffort_of_untranslated hfind hextra hask (.inl ?_)
    rw [hlevels, if_pos ((importedLevels_isEmpty_iff model).mpr hnone)]
  case other =>
    exact fun hother => rewritesEffort_of_untranslated hfind hextra hask (.inr hother)

/-- Some level is sent or the request is refused, so a provider that sends none keeps to the values
only for a request that is refused. -/
theorem followsValues_forwarded_iff {values : List Text} {registry : List ModelRegistryEntry}
    {route : RouteEntry} {req : ChatCompletionRequest} {effort : Value}
    (hfollows : FollowsValues values (RewritesEffort registry route req)
      (Refused registry route req) effort) (kind : ProviderKind) :
    FollowsValues values (Forwarded registry route kind req) (Refused registry route req) effort ↔
      kind = .openAi ∨ Refused registry route req := by
  constructor
  · intro hkept
    by_cases hkind : kind = .openAi
    · exact .inl hkind
    have hnever : ∀ {e}, ¬ Forwarded registry route kind req e :=
      fun hsent => hkind (forwarded_iff.mp hsent).1
    cases hlevel : effort.asStr.bind canonicalThinkingLevel with
    | none => exact absurd (hkept.other hlevel) hnever
    | some level =>
      obtain ⟨text, htext, hlevel⟩ := bind_eq_some_iff.mp hlevel
      obtain rfl : effort = .str text := by
        cases effort with
        | str => exact congrArg Value.str (some.inj htext)
        | _ => cases htext
      by_cases hsome : ∃ v ∈ values, (canonicalThinkingLevel v).isSome
      · cases hlast : lastSpelling values level with
        | none => exact .inr (hkept.rejected text level rfl hlevel hlast hsome)
        | some v => exact absurd (hkept.sent text level v rfl hlevel hlast) hnever
      · exact absurd (hkept.unchanged (by simpa using hsome)) hnever
  · rintro (rfl | hrefused)
    · have hsame : Forwarded registry route .openAi req = RewritesEffort registry route req := by
        funext effort
        simp [forwarded_iff]
      rwa [hsame]
    · have hnever : ∀ {e}, ¬ RewritesEffort registry route req e := by
        rintro e ⟨sent, hsent, -⟩
        obtain ⟨message, herror⟩ := hrefused
        rw [herror] at hsent
        cases hsent
      exact ⟨fun text level v htext hlevel hlast =>
          absurd (hfollows.sent text level v htext hlevel hlast) hnever, hfollows.rejected,
        fun hnone => absurd (hfollows.unchanged hnone) hnever,
        fun hother => absurd (hfollows.other hother) hnever⟩

end

/-! ## An example -/

attribute [local instance] jsonText

def effortEntry (context : ℤ) : Value :=
  .obj [("limit", .obj [("context", .num (.int context)), ("output", .num (.int 100))]),
    ("name", .str "M".toList),
    ("reasoning_options", .arr [.obj [("type", .str "effort".toList),
      ("values", .arr [.str "none".toList, .str "low".toList, .str "turbo".toList,
        .str "off".toList])]])]

def effortCatalog (context : ℤ) : Text :=
  print (.obj [("openai", .obj [("models", .obj [("m", effortEntry context)])])])

def routedDatabase : Database ℚ :=
  { Database.empty with
    pools := .single ⟨"p", "weighted_random", true⟩
    providers := .single ⟨"o", "openai", "", "p", true, none⟩
    routing := [⟨"m", "p", none, none, true⟩] }

theorem importJson_effortCatalog :
    (importJson routedDatabase (effortCatalog 1000) false).toOption.map (fun result =>
      (result.1.registry.rows.map fun row => (row.id, row.enabled),
        (ConfigSnapshot.default.refreshFromDb { db := result.1, nowMs := 0 }).isOk)) =
        some ([("m", true)], true) := by
  decide +kernel

theorem readCatalog_effortCatalog :
    (readCatalog (effortCatalog 1000)).toOption.map (List.map Candidate.value) =
      some [effortEntry 1000] := by
  decide +kernel

theorem readCatalog_whole_effortCatalog :
    ∃ read, readCatalog (effortCatalog 1000) = .ok read ∧
      read.map Candidate.value = [effortEntry 1000] ∧ DistinctEntries read := by
  obtain ⟨read, hread, hvalues⟩ := map_eq_some_iff.mp readCatalog_effortCatalog
  have hok := Except.toOption_eq_some_iff.mp hread
  obtain ⟨-, -, -, hdistinct⟩ := readCatalog_whole hok
  exact ⟨read, hok, hvalues, hdistinct⟩

end ModelImport

end LlmProxy
