import LlmProxy.AdminEdits
import LlmProxy.Attempt

/-!
# Models in the administration interface

`admin_api_create_model` and `admin_api_update_model` of `dashboard/admin_api.rs`.  Neither uses a
transaction.  The answer is the row of the model, which the source sends as an object.
-/

namespace LlmProxy

open Attempt Json List StatementScript

variable {Cost : Type}

/-! ## Requests -/

def defaultModelTokens : Int32 := 4096

structure ModelRegistryCreate (Cost : Type) where
  id : String
  displayName : String
  providerKind : String
  providerConfigId : Option String := none
  supportsVision : Bool := false
  supportsToolCalling : Bool := false
  supportsJsonMode : Bool := false
  maxContextTokens : Int32 := defaultModelTokens
  maxOutputTokens : Int32 := defaultModelTokens
  inputPricePer1m : Option Cost := none
  outputPricePer1m : Option Cost := none
  capabilitiesJson : Option Value := none
  enabled : Bool := true

structure ModelRegistryPatch (Cost : Type) where
  displayName : Option String := none
  providerKind : Option String := none
  providerConfigId : Option (Option String) := none
  supportsVision : Option Bool := none
  supportsToolCalling : Option Bool := none
  supportsJsonMode : Option Bool := none
  maxContextTokens : Option Int32 := none
  maxOutputTokens : Option Int32 := none
  inputPricePer1m : Option (Option Cost) := none
  outputPricePer1m : Option (Option Cost) := none
  capabilitiesJson : Option (Option Value) := none
  enabled : Option Bool := none

structure ModelValidation (Cost : Type) where
  id : String
  display : String
  kind : String
  context : ℤ
  output : ℤ
  input : Option Cost
  outputPrice : Option Cost
  caps : Option Value

/-- The first check that fails gives the message. -/
def validateModelFields [Float64 Cost] (fields : ModelValidation Cost) : Except AppError Unit := do
  ensure (!(blank fields.id || blank fields.display || blank fields.kind))
    (.badRequest "id, display_name and provider_kind are required")
  ensure (["openai", "anthropic", "gemini"].contains fields.kind)
    (.badRequest "unsupported provider_kind")
  ensure (0 < fields.context && 0 < fields.output) (.badRequest "token limits must be positive")
  ensure (!([fields.input, fields.outputPrice].reduceOption.any fun price =>
      !Float64.isFinite price || Float64.isNegative price))
    (.badRequest "prices must be finite and non-negative")
  ensure (fields.caps.all isObject) (.badRequest "capabilities_json must be a JSON object")

def RegistryRow.validation (row : RegistryRow Cost) (caps : Option Value) :
    ModelValidation Cost where
  id := row.id
  display := row.displayName
  kind := row.providerKind
  context := row.maxContextTokens
  output := row.maxOutputTokens
  input := row.inputPricePer1m
  outputPrice := row.outputPricePer1m
  caps := caps

def ModelRegistryCreate.row [SerdeJson] (req : ModelRegistryCreate Cost) : RegistryRow Cost where
  id := req.id
  displayName := req.displayName
  providerKind := req.providerKind
  providerConfigId := req.providerConfigId
  supportsVision := req.supportsVision
  supportsToolCalling := req.supportsToolCalling
  supportsJsonMode := req.supportsJsonMode
  maxContextTokens := req.maxContextTokens.toInt
  maxOutputTokens := req.maxOutputTokens.toInt
  inputPricePer1m := req.inputPricePer1m
  outputPricePer1m := req.outputPricePer1m
  capabilitiesJson := req.capabilitiesJson.bind SerdeJson.toString
  enabled := req.enabled

def ModelRegistryPatch.merge [SerdeJson] (patch : ModelRegistryPatch Cost)
    (before : RegistryRow Cost) : RegistryRow Cost where
  id := before.id
  displayName := patch.displayName.getD before.displayName
  providerKind := patch.providerKind.getD before.providerKind
  providerConfigId := patch.providerConfigId.getD before.providerConfigId
  supportsVision := patch.supportsVision.getD before.supportsVision
  supportsToolCalling := patch.supportsToolCalling.getD before.supportsToolCalling
  supportsJsonMode := patch.supportsJsonMode.getD before.supportsJsonMode
  maxContextTokens := (patch.maxContextTokens.map Int32.toInt).getD before.maxContextTokens
  maxOutputTokens := (patch.maxOutputTokens.map Int32.toInt).getD before.maxOutputTokens
  inputPricePer1m := patch.inputPricePer1m.getD before.inputPricePer1m
  outputPricePer1m := patch.outputPricePer1m.getD before.outputPricePer1m
  capabilitiesJson :=
    (patch.capabilitiesJson.map fun caps => caps.bind SerdeJson.toString).getD
      before.capabilitiesJson
  enabled := patch.enabled.getD before.enabled

theorem fits_createRow [SerdeJson] (req : ModelRegistryCreate Cost) : req.row.Fits :=
  ⟨fitsI32_toInt _, fitsI32_toInt _⟩

theorem fits_merge [SerdeJson] (patch : ModelRegistryPatch Cost) {row : RegistryRow Cost}
    (hfits : row.Fits) : (patch.merge row).Fits := by
  have hlimit : ∀ (given : Option Int32) {n : ℤ}, FitsI32 n →
      FitsI32 ((given.map Int32.toInt).getD n) := by
    intro given n hn
    cases given with
    | none => exact hn
    | some limit => exact fitsI32_toInt limit
  exact ⟨hlimit _ hfits.1, hlimit _ hfits.2⟩

/-! ## Endpoints -/

structure AdminState (Cost : Type) where
  db : Database Cost
  snapshot : ConfigSnapshot Cost

abbrev AdminCall (Cost A : Type) := Attempt (AdminState Cost) AppError A

/-- A provider that is named has to exist. -/
def validateProvider (db : Database Cost) (id : Option String) : Except AppError Unit :=
  match id with
  | some id => (providerPoolId db id).map fun _ => ()
  | none => .ok ()

def Database.findModel (db : Database Cost) (id : String) : Except AppError (RegistryRow Cost) :=
  match db.registry.rows.find? fun row => row.id = id with
  | some row => row.decode.mapError fun e => .internal s!"load model: {e}"
  | none => .error (.notFound s!"model '{id}' not found")

def Database.insertModel (row : RegistryRow Cost) (db : Database Cost) :
    Except AppError (Database Cost) :=
  match db.registry.insert row with
  | some registry => .ok { db with registry := registry }
  | none => .error (.badRequest "model id already exists")

def Database.updateModel (merged : RegistryRow Cost) (db : Database Cost) : Database Cost :=
  { db with
    registry := db.registry.update (fun row => if row.id = merged.id then merged else row) (by
      intro row
      split_ifs with hid
      · exact hid.symm
      · rfl) }

def Database.deleteModel (id : String) (db : Database Cost) : Database Cost :=
  { db with registry := db.registry.filter fun row => row.id ≠ id }

def getModel (id : String) : AdminCall Cost (RegistryRow Cost) :=
  check fun state => state.db.findModel id

def onTables (f : Database Cost → Except AppError (Database Cost)) (state : AdminState Cost) :
    Except AppError (AdminState Cost) :=
  (f state.db).map fun db => { state with db := db }

section

variable [SerdeJson] [Float64 Cost] (nowMs : ℤ)

def AdminState.refresh (state : AdminState Cost) : Except AppError (AdminState Cost) :=
  (state.snapshot.refreshFromDb { db := state.db, nowMs := nowMs }).map fun snapshot =>
    { state with snapshot := snapshot }

/-- A model that gets no route is taken out again. -/
def adminApiCreateModel (req : ModelRegistryCreate Cost) : AdminCall Cost (RegistryRow Cost) := do
  check fun _ => validateModelFields (req.row.validation req.capabilitiesJson)
  check fun state => validateProvider state.db req.providerConfigId
  execute (onTables (Database.insertModel req.row))
  (execute (onTables (ensureModelRouting req.id req.providerConfigId req.enabled))).orUndo
    fun state => { state with db := state.db.deleteModel req.id }
  let after ← getModel req.id
  execute (AdminState.refresh nowMs)
  return after

/-- An update that fails is not undone. -/
def adminApiUpdateModel (id : String) (patch : ModelRegistryPatch Cost) :
    AdminCall Cost (RegistryRow Cost) := do
  let before ← getModel id
  let merged := patch.merge before
  check fun _ => validateModelFields (merged.validation patch.capabilitiesJson.join)
  check fun state => validateProvider state.db merged.providerConfigId
  execute (onTables fun db => .ok (db.updateModel merged))
  execute (onTables (ensureModelRouting id merged.providerConfigId merged.enabled))
  let after ← getModel id
  execute (AdminState.refresh nowMs)
  return after

end

variable {db : Database Cost} {nowMs : ℤ} {poolId id : String}

variable {row : RegistryRow Cost} {providerConfigId : Option String} {enabled : Bool}

theorem validateProvider_of_routingPool
    (htarget : routingPool db providerConfigId enabled = .ok (some poolId)) :
    validateProvider db providerConfigId = .ok () := by
  unfold routingPool at htarget
  cases providerConfigId with
  | none => rfl
  | some providerId =>
    cases hblank : blank providerId with
    | true => simp [Option.filter, hblank] at htarget
    | false =>
      cases enabled with
      | false => simp [Option.filter, hblank] at htarget
      | true =>
        simp only [Option.filter, hblank, Bool.not_false, if_true, Except.bind_eq_ok_iff] at htarget
        obtain ⟨found, hfound, -⟩ := htarget
        rw [validateProvider, hfound]
        rfl

/-- The route that is in force for a model: its pool, parameters and name for the upstream. -/
def Database.routeOf [SerdeJson] (db : Database Cost) (model : String) :
    Option (String × Option Value × Option String) :=
  ((loadRouting db.routing).lookup model).map ModelRouting.parts

theorem routeOf_reroute [SerdeJson] (db : Database Cost) (model poolId : String) :
    (db.reroute model (some poolId)).routeOf model = some (poolId, none, none) := by
  have hothers : (((db.routing.filter fun row => row.logicalModel ≠ model).filter
      RoutingRow.enabled).filter fun row => row.logicalModel = model) = [] := by
    simp only [filter_eq_nil_iff, mem_filter]
    intro row hrow
    simpa using hrow.1.2
  unfold Database.routeOf Database.reroute
  rw [lookup_loadRouting, filter_append, filter_append, hothers, filter_cons_of_pos rfl,
    filter_cons_of_pos (by simp)]
  rfl

/-! ## What the endpoints do -/

theorem findModel_eq_ok_iff :
    db.findModel id = .ok row ↔ (row ∈ db.registry.rows ∧ row.id = id) ∧ row.Fits := by
  have hdecoded : ∀ found : RegistryRow Cost,
      (found.decode.mapError fun e => AppError.internal s!"load model: {e}") = .ok row ↔
        found.Fits ∧ row = found := by
    intro found
    rw [← RegistryRow.decode_eq_ok_iff]
    cases found.decode <;> simp [Except.mapError]
  unfold Database.findModel
  constructor
  · intro hfind
    split at hfind
    · next found hfound =>
      obtain ⟨hfits, rfl⟩ := (hdecoded found).mp hfind
      exact ⟨⟨mem_of_find?_eq_some hfound, by simpa using find?_some hfound⟩, hfits⟩
    · cases hfind
  · rintro ⟨⟨hrow, rfl⟩, hfits⟩
    rw [db.registry.find?_eq_some hrow (by simp) (by simp)]
    exact (hdecoded row).mpr ⟨hfits, rfl⟩

theorem findModel_updateModel {merged : RegistryRow Cost} (hrow : row ∈ db.registry.rows)
    (hid : merged.id = row.id) (hfits : merged.Fits) :
    (db.updateModel merged).findModel merged.id = .ok merged := by
  refine findModel_eq_ok_iff.mpr ⟨⟨mem_map.mpr ⟨row, hrow, ?_⟩, rfl⟩, hfits⟩
  exact if_pos hid.symm

theorem findModel_reroute (db : Database Cost) (model : String) (target : Option String)
    (id : String) : (db.reroute model target).findModel id = db.findModel id := by
  cases target with
  | none => rfl
  | some => rfl

/-- What a refresh needs of the tables it reads. -/
def Database.Loads [SerdeJson] (db : Database Cost) : Prop :=
  (∃ providers, loadProviders db.providers.rows = .ok providers) ∧
    ∀ row ∈ db.registry.rows, row.Fits

theorem loads_reroute [SerdeJson] (db : Database Cost) (model : String) (target : Option String) :
    (db.reroute model target).Loads ↔ db.Loads := by
  cases target with
  | none => rfl
  | some => rfl

@[simp] theorem registry_reroute (db : Database Cost) (model : String) (target : Option String) :
    (db.reroute model target).registry = db.registry := by
  cases target with
  | none => rfl
  | some => rfl

section

variable [SerdeJson] (patch : ModelRegistryPatch Cost) (hrow : row ∈ db.registry.rows)

include hrow

theorem fits_updateModel_iff (hfits : row.Fits) :
    (∀ other ∈ (db.updateModel (patch.merge row)).registry.rows, other.Fits) ↔
      ∀ other ∈ db.registry.rows, other.Fits := by
  rw [Database.updateModel, KeyedTable.rows_update, List.forall_mem_map]
  refine forall₂_congr fun other hother => ?_
  split_ifs with hsame
  · have hold : other = row := inj_on_of_nodup_map db.registry.nodup hother hrow hsame
    simp [hold, hfits, fits_merge patch hfits]
  · rfl

theorem registry_updateModel_eq_iff :
    (db.updateModel (patch.merge row)).registry = db.registry ↔ patch.merge row = row := by
  constructor
  · intro hsame
    have hmem : patch.merge row ∈ (db.updateModel (patch.merge row)).registry.rows :=
      mem_map.mpr ⟨row, hrow, if_pos rfl⟩
    rw [hsame] at hmem
    exact inj_on_of_nodup_map db.registry.nodup hmem hrow rfl
  · intro hsame
    apply KeyedTable.ext
    refine (map_congr_left fun other hother => ?_).trans (map_id' _)
    rw [hsame]
    split_ifs with hid
    · exact inj_on_of_nodup_map db.registry.nodup hrow hother hid.symm
    · rfl

end

@[simp] theorem routing_updateModel (merged : RegistryRow Cost) (db : Database Cost) :
    (db.updateModel merged).routing = db.routing := rfl

@[simp] theorem routing_reroute_updateModel (merged : RegistryRow Cost) (db : Database Cost)
    (model : String) (target : Option String) :
    ((db.updateModel merged).reroute model target).routing = (db.reroute model target).routing := by
  cases target with
  | none => rfl
  | some => rfl

theorem insertModel_eq_ok {after : Database Cost} (hinsert : db.insertModel row = .ok after) :
    row.id ∉ db.registry.rows.map RegistryRow.id ∧
      after.registry.rows = db.registry.rows ++ [row] ∧ after.deleteModel row.id = db ∧
      after = { db with registry := after.registry } := by
  unfold Database.insertModel at hinsert
  cases hregistry : db.registry.insert row with
  | none =>
    rw [hregistry] at hinsert
    cases hinsert
  | some registry =>
    rw [hregistry] at hinsert
    cases hinsert
    obtain ⟨hfresh, hrows⟩ := KeyedTable.insert_eq_some_iff.mp hregistry
    refine ⟨hfresh, hrows, ?_, rfl⟩
    have hsame : (registry.filter fun other => other.id ≠ row.id) = db.registry := by
      apply KeyedTable.ext
      rw [KeyedTable.rows_filter, hrows, filter_append]
      have hkept : (db.registry.rows.filter fun other => other.id ≠ row.id) =
          db.registry.rows := by
        refine filter_eq_self.mpr fun other hother => decide_eq_true ?_
        intro hid
        exact hfresh (hid ▸ mem_map_of_mem hother)
      rw [hkept]
      simp
    unfold Database.deleteModel
    rw [hsame]

section

variable [SerdeJson] [Float64 Cost]

def finish (nowMs : ℤ) (row : RegistryRow Cost) (state : AdminState Cost) :
    AdminState Cost × Except AppError (RegistryRow Cost) :=
  match state.refresh nowMs with
  | .ok next => (next, .ok row)
  | .error e => (state, .error e)

theorem db_finish (nowMs : ℤ) (row : RegistryRow Cost) (state : AdminState Cost) :
    (finish nowMs row state).1.db = state.db := by
  unfold finish AdminState.refresh
  cases state.snapshot.refreshFromDb { db := state.db, nowMs := nowMs } with
  | ok => rfl
  | error => rfl

variable {state : AdminState Cost} {row : RegistryRow Cost}

theorem finish_isOk_iff (nowMs : ℤ) (row : RegistryRow Cost) (state : AdminState Cost) :
    (∃ answer, (finish nowMs row state).2 = .ok answer) ↔ state.db.Loads := by
  have hrefresh : (∃ snapshot, state.snapshot.refreshFromDb { db := state.db, nowMs := nowMs } =
      .ok snapshot) ↔ state.db.Loads := by
    simp only [ConfigSnapshot.refreshFromDb_eq_ok_iff, implies_true, true_and]
    constructor
    · rintro ⟨-, hfits, providers, hload, -⟩
      exact ⟨⟨providers, hload⟩, hfits⟩
    · rintro ⟨⟨providers, hload⟩, hfits⟩
      exact ⟨_, hfits, providers, hload, rfl⟩
  rw [← hrefresh, finish, AdminState.refresh]
  cases state.snapshot.refreshFromDb { db := state.db, nowMs := nowMs } with
  | ok => simp [Except.map]
  | error => simp [Except.map]

theorem call_finish (hfound : state.db.findModel id = .ok row) :
    call (do
      let after ← getModel id
      execute (AdminState.refresh nowMs)
      return after) state = finish nowMs row state := by
  rw [getModel, call_check_bind, hfound]
  dsimp only
  rw [call_execute_bind, finish]
  cases state.refresh nowMs with
  | ok => rfl
  | error => rfl

def checkModel (row : RegistryRow Cost) (caps : Option Value) (db : Database Cost) :
    Except AppError Unit := do
  validateModelFields (row.validation caps)
  validateProvider db row.providerConfigId

omit [SerdeJson] in
theorem call_checks (row : RegistryRow Cost) (caps : Option Value) {A : Type}
    (rest : AdminCall Cost A) (state : AdminState Cost) :
    call (do
      check fun _ => validateModelFields (row.validation caps)
      check fun state => validateProvider state.db row.providerConfigId
      rest) state =
        match checkModel row caps state.db with
        | .ok () => call rest state
        | .error e => (state, .error e) := by
  rw [call_check_bind, checkModel]
  cases validateModelFields (row.validation caps) with
  | error => rfl
  | ok _ =>
    dsimp only
    rw [call_check_bind]
    cases validateProvider state.db row.providerConfigId with
    | error => simp [bind, Except.bind]
    | ok => simp [bind, Except.bind]

theorem call_adminApiCreateModel (nowMs : ℤ) (req : ModelRegistryCreate Cost)
    (state : AdminState Cost) :
    call (adminApiCreateModel nowMs req) state =
      match checkModel req.row req.capabilitiesJson state.db with
      | .error e => (state, .error e)
      | .ok () =>
        match state.db.insertModel req.row with
        | .error e => (state, .error e)
        | .ok db =>
          match routingPool state.db req.providerConfigId req.enabled with
          | .error e => (state, .error e)
          | .ok target =>
            finish nowMs req.row { state with db := db.reroute req.id target } := by
  refine (call_checks req.row req.capabilitiesJson _ state).trans ?_
  cases checkModel req.row req.capabilitiesJson state.db with
  | error => rfl
  | ok _ =>
    rw [call_execute_bind, onTables]
    cases hinsert : state.db.insertModel req.row with
    | error => rfl
    | ok db =>
      obtain ⟨-, hrows, hdelete, hdb⟩ := insertModel_eq_ok hinsert
      have htarget : routingPool db req.providerConfigId req.enabled =
          routingPool state.db req.providerConfigId req.enabled := by
        rw [hdb]
        rfl
      dsimp only [Except.map]
      rw [call_orUndo_bind, onTables, ensureModelRouting_eq, htarget]
      cases routingPool state.db req.providerConfigId req.enabled with
      | error =>
        dsimp only [Except.map]
        rw [show db.deleteModel req.id = state.db from hdelete]
      | ok =>
        refine call_finish ?_
        rw [findModel_reroute]
        exact findModel_eq_ok_iff.mpr ⟨⟨by simp [hrows], rfl⟩, fits_createRow req⟩

theorem call_adminApiUpdateModel (hrow : row ∈ state.db.registry.rows) (hfits : row.Fits)
    (nowMs : ℤ) (patch : ModelRegistryPatch Cost) :
    call (adminApiUpdateModel nowMs row.id patch) state =
      match checkModel (patch.merge row) patch.capabilitiesJson.join state.db with
      | .error e => (state, .error e)
      | .ok () =>
        match routingPool state.db (patch.merge row).providerConfigId
            (patch.merge row).enabled with
        | .error e => ({ state with db := state.db.updateModel (patch.merge row) }, .error e)
        | .ok target =>
          finish nowMs (patch.merge row)
            { state with
              db := (state.db.updateModel (patch.merge row)).reroute row.id target } := by
  rw [adminApiUpdateModel, getModel, call_check_bind,
    findModel_eq_ok_iff.mpr ⟨⟨hrow, rfl⟩, hfits⟩]
  refine (call_checks (patch.merge row) patch.capabilitiesJson.join _ state).trans ?_
  cases checkModel (patch.merge row) patch.capabilitiesJson.join state.db with
  | error => rfl
  | ok _ =>
    rw [call_execute_bind]
    dsimp only [onTables, Except.map]
    have htarget : routingPool (state.db.updateModel (patch.merge row))
        (patch.merge row).providerConfigId (patch.merge row).enabled =
          routingPool state.db (patch.merge row).providerConfigId (patch.merge row).enabled := rfl
    rw [call_execute_bind, onTables, ensureModelRouting_eq, htarget]
    cases routingPool state.db (patch.merge row).providerConfigId (patch.merge row).enabled with
    | error => rfl
    | ok =>
      refine call_finish ?_
      rw [findModel_reroute]
      exact findModel_updateModel hrow rfl (fits_merge patch hfits)

theorem call_adminApiUpdateModel_of_error {e : AppError} (hfound : state.db.findModel id = .error e)
    (nowMs : ℤ) (patch : ModelRegistryPatch Cost) :
    call (adminApiUpdateModel nowMs id patch) state = (state, .error e) := by
  rw [adminApiUpdateModel, getModel, call_check_bind, hfound]

/-! ## Routes under updates -/

theorem routeOf_adminApiUpdateModel (hrow : row ∈ state.db.registry.rows) (hfits : row.Fits)
    (nowMs : ℤ) (patch : ModelRegistryPatch Cost) :
    (call (adminApiUpdateModel nowMs row.id patch) state).1.db.routeOf row.id =
      match checkModel (patch.merge row) patch.capabilitiesJson.join state.db,
          routingPool state.db (patch.merge row).providerConfigId (patch.merge row).enabled with
      | .ok (), .ok (some poolId) => some (poolId, none, none)
      | _, _ => state.db.routeOf row.id := by
  rw [call_adminApiUpdateModel hrow hfits]
  cases checkModel (patch.merge row) patch.capabilitiesJson.join state.db with
  | error => rfl
  | ok _ =>
    cases routingPool state.db (patch.merge row).providerConfigId (patch.merge row).enabled with
    | error => rfl
    | ok target =>
      rw [db_finish]
      cases target with
      | none => rfl
      | some poolId => exact routeOf_reroute _ row.id poolId

/-- An update that keeps the provider and the flag of a model keeps its route exactly if it is
refused, the limits of the row cannot be read, or the model is not routed anew or has the plain
route to the pool of its provider. -/
theorem update_keeps_route_iff (state : AdminState Cost) (row : RegistryRow Cost)
    (hrow : row ∈ state.db.registry.rows) (nowMs : ℤ) (patch : ModelRegistryPatch Cost)
    (hprovider : (patch.merge row).providerConfigId = row.providerConfigId)
    (henabled : (patch.merge row).enabled = row.enabled) :
    (call (adminApiUpdateModel nowMs row.id patch) state).1.db.routeOf row.id =
        state.db.routeOf row.id ↔
      (row.Fits →
        validateModelFields ((patch.merge row).validation patch.capabilitiesJson.join) = .ok () →
        ∀ poolId, routingPool state.db row.providerConfigId row.enabled = .ok (some poolId) →
          state.db.routeOf row.id = some (poolId, none, none)) := by
  by_cases hfits : row.Fits
  case neg =>
    cases hfound : state.db.findModel row.id with
    | error => simp [call_adminApiUpdateModel_of_error hfound, hfits]
    | ok other =>
      obtain ⟨⟨hother, hid⟩, hread⟩ := findModel_eq_ok_iff.mp hfound
      exact absurd (inj_on_of_nodup_map state.db.registry.nodup hother hrow hid ▸ hread) hfits
  rw [routeOf_adminApiUpdateModel hrow hfits, henabled, checkModel, hprovider]
  simp only [hfits, forall_const]
  cases validateModelFields ((patch.merge row).validation patch.capabilitiesJson.join) with
  | error => simp [bind, Except.bind]
  | ok =>
    cases htarget : routingPool state.db row.providerConfigId row.enabled with
    | error => simp
    | ok target =>
      cases target with
      | none => simp
      | some =>
        have hvalid := validateProvider_of_routingPool htarget
        simp [hvalid, bind, Except.bind, eq_comm]

end

section

attribute [local instance] jsonText

def aliasedRow : RegistryRow ℚ :=
  { id := "m", displayName := "M", providerKind := "openai", providerConfigId := some "o",
    inputPricePer1m := none, outputPricePer1m := none }

def aliasedState (pools : KeyedTable PoolRow.id) (params : Option Text)
    (upstream : Option String) : AdminState ℚ where
  db := { Database.empty with
    pools := pools
    providers := .single ⟨"o", "openai", "", "p", true, none⟩
    routing := [⟨"m", "p", params, upstream, true⟩]
    registry := .single aliasedRow }
  snapshot := .default

def onePool (enabled : Bool) : KeyedTable PoolRow.id := .single ⟨"p", "weighted_random", enabled⟩

def displayPatch : ModelRegistryPatch ℚ := { displayName := some "N" }

theorem displayPatch_keeps_plain :
    (call (adminApiUpdateModel 0 "m" displayPatch)
        (aliasedState (onePool true) none none)).1.db.routeOf "m" = some ("p", none, none) := by
  have hplain : (aliasedState (onePool true) none none).db.routeOf "m" =
      some ("p", none, none) := by
    decide +kernel
  refine (update_keeps_route_iff (aliasedState (onePool true) none none) aliasedRow
    (mem_singleton_self _) 0 displayPatch rfl rfl).mpr fun _ _ poolId hpool => ?_
  cases hpool
  exact hplain

theorem displayPatch_drops_alias :
    let state := aliasedState (onePool true) (some (print (.obj [("seed", .num (.int 7))])))
      (some "gpt-4o")
    (call (adminApiUpdateModel 0 "m" displayPatch) state).2.toOption.map RegistryRow.displayName =
        some "N" ∧
      state.db.routeOf "m" = some ("p", some (.obj [("seed", .num (.int 7))]), some "gpt-4o") ∧
      (call (adminApiUpdateModel 0 "m" displayPatch) state).1.db.routeOf "m" =
        some ("p", none, none) := by
  decide +kernel

end

/-! ## Tables after an error -/

inductive ModelRequest (Cost : Type)
  | create (req : ModelRegistryCreate Cost)
  | update (id : String) (patch : ModelRegistryPatch Cost)

@[mk_iff]
structure AdminState.SameTables (before after : AdminState Cost) : Prop where
  registry : after.db.registry = before.db.registry
  routing : after.db.routing = before.db.routing

theorem AdminState.SameTables.refl (state : AdminState Cost) : state.SameTables state :=
  ⟨rfl, rfl⟩

namespace ModelRequest

variable [SerdeJson] [Float64 Cost]

def run (nowMs : ℤ) : ModelRequest Cost → AdminCall Cost (RegistryRow Cost)
  | create req => adminApiCreateModel nowMs req
  | update id patch => adminApiUpdateModel nowMs id patch

def FailsClean (nowMs : ℤ) (state : AdminState Cost) (request : ModelRequest Cost) : Prop :=
  ∀ e, (call (request.run nowMs) state).2 = .error e →
    state.SameTables (call (request.run nowMs) state).1

/-- A request that passes its checks is carried through, or an update writes the row and the route
as they were.  A created row is taken back when the model cannot be routed. -/
def Completes (state : AdminState Cost) : ModelRequest Cost → Prop
  | create req => checkModel req.row req.capabilitiesJson state.db = .ok () →
      req.id ∉ state.db.registry.rows.map RegistryRow.id →
        (∃ target, routingPool state.db req.providerConfigId req.enabled = .ok target) →
          state.db.Loads
  | update id patch => ∀ row ∈ state.db.registry.rows, row.id = id → row.Fits →
      checkModel (patch.merge row) patch.capabilitiesJson.join state.db = .ok () →
        let target := routingPool state.db (patch.merge row).providerConfigId
          (patch.merge row).enabled
        state.db.Loads ∧ (∃ poolId, target = .ok poolId) ∨ patch.merge row = row ∧
          ∀ poolId, target = .ok poolId → (state.db.reroute id poolId).routing = state.db.routing

variable {state next : AdminState Cost}

theorem failsClean_finish_iff :
    (∀ e, (finish nowMs row next).2 = .error e → state.SameTables (finish nowMs row next).1) ↔
      next.db.Loads ∨ state.SameTables next := by
  have htables : state.SameTables (finish nowMs row next).1 ↔ state.SameTables next := by
    simp only [AdminState.sameTables_iff, db_finish]
  rw [← finish_isOk_iff nowMs row, htables]
  cases (finish nowMs row next).2 with
  | ok => simp
  | error => simp

theorem failsClean_create_iff {req : ModelRegistryCreate Cost} :
    (create req).FailsClean nowMs state ↔ (create req).Completes state := by
  simp only [FailsClean, Completes, run]
  rw [call_adminApiCreateModel]
  cases hcheck : checkModel req.row req.capabilitiesJson state.db with
  | error => simp [AdminState.SameTables.refl]
  | ok =>
    cases hinsert : state.db.insertModel req.row with
    | error =>
      have htaken : req.id ∈ state.db.registry.rows.map RegistryRow.id := by
        by_contra hfresh
        rw [Database.insertModel, KeyedTable.insert, dif_neg (show req.row.id ∉ _ from hfresh)]
          at hinsert
        cases hinsert
      simp only [htaken, not_true_eq_false, false_imp_iff, implies_true, iff_true]
      exact fun _ _ => .refl state
    | ok db =>
      obtain ⟨hfresh, hrows, -, hdb⟩ := insertModel_eq_ok hinsert
      cases htarget : routingPool state.db req.providerConfigId req.enabled with
      | error => simp [AdminState.SameTables.refl]
      | ok target =>
        have hloads : db.Loads ↔ state.db.Loads := by
          rw [Database.Loads, hrows, forall_mem_append, hdb]
          simp [Database.Loads, fits_createRow]
        have hwritten : ¬ state.SameTables { state with db := db.reroute req.id target } := by
          intro hsame
          have hregistry := hsame.registry
          rw [registry_reroute] at hregistry
          rw [hregistry] at hrows
          simp at hrows
        rw [failsClean_finish_iff, loads_reroute, hloads, or_iff_left hwritten]
        simp [show req.id ∉ _ from hfresh]

theorem failsClean_update_iff {patch : ModelRegistryPatch Cost} :
    (update id patch).FailsClean nowMs state ↔ (update id patch).Completes state := by
  simp only [FailsClean, Completes, run]
  cases hfound : state.db.findModel id with
  | error =>
    rw [call_adminApiUpdateModel_of_error hfound]
    refine iff_of_true (fun _ _ => .refl state) fun row hrow hid hfits => ?_
    rw [findModel_eq_ok_iff.mpr ⟨⟨hrow, hid⟩, hfits⟩] at hfound
    cases hfound
  | ok row =>
    obtain ⟨⟨hrow, rfl⟩, hfits⟩ := findModel_eq_ok_iff.mp hfound
    have honly : ∀ {p : RegistryRow Cost → Prop},
        (∀ other ∈ state.db.registry.rows, other.id = row.id → other.Fits → p other) ↔ p row :=
      ⟨fun hall => hall row hrow rfl hfits, fun hp other hother hid _ =>
        inj_on_of_nodup_map state.db.registry.nodup hrow hother hid.symm ▸ hp⟩
    rw [call_adminApiUpdateModel hrow hfits, honly]
    cases checkModel (patch.merge row) patch.capabilitiesJson.join state.db with
    | error => simp [AdminState.SameTables.refl]
    | ok =>
      have hrewritten := registry_updateModel_eq_iff patch hrow
      cases routingPool state.db (patch.merge row).providerConfigId (patch.merge row).enabled with
      | error => simp [AdminState.sameTables_iff, hrewritten]
      | ok target =>
        have hloads : (state.db.updateModel (patch.merge row)).Loads ↔ state.db.Loads :=
          and_congr_right fun _ => fits_updateModel_iff patch hrow hfits
        rw [failsClean_finish_iff, loads_reroute, hloads]
        simp [AdminState.sameTables_iff, hrewritten]

end ModelRequest

section

attribute [local instance] jsonText

def newModel (provider : Option String) : ModelRegistryCreate ℚ :=
  { id := "n", displayName := "N", providerKind := "openai", providerConfigId := provider }

def unknownKindState : AdminState ℚ where
  db := { Database.empty with providers := .single ⟨"a", "azure", "", "p", true, none⟩ }
  snapshot := .default

end

end LlmProxy
