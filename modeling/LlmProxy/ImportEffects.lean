import LlmProxy.CatalogImport

/-!
# What an import changes

`import_json` of `model_import.rs` over all catalogs and tables.  What the loop finds out about a
route does not depend on the registry, so a run is a list of outcomes that are settled one after
the other.
-/

namespace LlmProxy

open Json List

namespace ModelImport

variable {Cost : Type}

/-- The tables after the call and its answer: a transaction that is not committed leaves nothing. -/
def importCall [Float64 Cost] [AsF64 Cost] [SerdeJson] (db : Database Cost) (text : Text)
    (overwrite : Bool) : Database Cost × Except AppError ImportReport :=
  match importJson db text overwrite with
  | .ok (after, report) => (after, .ok report)
  | .error e => (db, .error e)

namespace RouteOutcome

def overwriteRow (row : RegistryRow Cost) : RouteOutcome Cost → RegistryRow Cost
  | described destination kind providerId mapped =>
    if row.id = destination then mapped.row row.id kind providerId row.enabled else row
  | _ => row

def store (registry : Registry Cost) : RouteOutcome Cost → Registry Cost
  | described destination kind providerId mapped =>
    storeModel registry destination kind providerId mapped
  | _ => registry

def Names (name : String) : RouteOutcome Cost → Prop
  | described destination _ _ _ => destination = name
  | _ => False

end RouteOutcome

variable {outcomes : List (RouteOutcome Cost)} {other : String → Bool} {report : ImportReport}
  {after : Database Cost} {name : String} {text : Text} {outcome : RouteOutcome Cost}
  {candidates : List Candidate} {overwrite : Bool}

section

variable [Float64 Cost] [AsF64 Cost] [SerdeJson]

variable {db : Database Cost}

theorem names_routeOutcome {route : RoutingRow}
    (hfound : routeOutcome db candidates route = .ok outcome) (hnames : outcome.Names name) :
    route.logicalModel = name := by
  cases outcome with
  | described => exact (described_of_routeOutcome hfound).1.symm.trans hnames
  | _ => cases hnames

theorem importJson_eq_ok_iff :
    importJson db text overwrite = .ok (after, report) ↔
      ∃ candidates outcomes registry, readCatalog text = .ok candidates ∧
        (db.routing.filter RoutingRow.enabled).mapM (routeOutcome db candidates) = .ok outcomes ∧
        outcomes.foldl (RouteOutcome.settle overwrite) (db.registry, {}) = (registry, report) ∧
        after = { db with registry := registry } := by
  have hloop : ∀ candidates, (db.routing.filter RoutingRow.enabled).foldlM
      (importRoute db candidates overwrite) (db.registry, ({} : ImportReport)) =
        (db.routing.filter RoutingRow.enabled).foldlM (fun state route =>
          (routeOutcome db candidates route).map (RouteOutcome.settle overwrite state))
            (db.registry, ({} : ImportReport)) := by
    intro candidates
    congr 1
    funext state route
    exact importRoute_eq_settle db candidates overwrite state route
  unfold importJson
  rw [Except.bind_eq_ok_iff]
  constructor
  · rintro ⟨candidates, hcatalog, hrest⟩
    obtain ⟨⟨registry, final⟩, hrun, hlast⟩ := Except.bind_eq_ok_iff.mp hrest
    cases hlast
    rw [hloop, Except.foldlM_map_eq_ok_iff] at hrun
    obtain ⟨outcomes, hfound, hsettled⟩ := hrun
    exact ⟨candidates, outcomes, registry, hcatalog, hfound, hsettled.symm, rfl⟩
  · rintro ⟨candidates, outcomes, registry, hcatalog, hfound, hsettled, rfl⟩
    refine ⟨candidates, hcatalog, Except.bind_eq_ok_iff.mpr ⟨(registry, report), ?_, rfl⟩⟩
    rw [hloop, Except.foldlM_map_eq_ok_iff]
    exact ⟨outcomes, hfound, hsettled.symm⟩

end

/-! ## One outcome -/

variable (registry : Registry Cost)

theorem ids_storeModel (destination kind providerId : String) (mapped : MappedModel Cost) :
    name ∈ (storeModel registry destination kind providerId mapped).rows.map RegistryRow.id ↔
      name = destination ∨ name ∈ registry.rows.map RegistryRow.id := by
  unfold storeModel
  split_ifs with hexists
  · have hids : (registry.rows.map fun row =>
        if row.id = destination then mapped.row row.id kind providerId row.enabled else row).map
          RegistryRow.id = registry.rows.map RegistryRow.id := by
      rw [map_map]
      refine map_congr_left fun row _ => ?_
      dsimp only [Function.comp]
      split_ifs <;> rfl
    rw [KeyedTable.rows_update, hids]
    constructor
    · exact .inr
    · rintro (rfl | hmem)
      · exact hexists
      · exact hmem
  · rw [KeyedTable.rows_upsert_of_fresh hexists, map_append, mem_append, or_comm]
    exact or_congr_left mem_singleton

theorem filter_storeModel (destination kind providerId : String) (mapped : MappedModel Cost)
    (hother : other destination = false) :
    ((storeModel registry destination kind providerId mapped).rows.filter
        fun row => other row.id) =
      registry.rows.filter fun row => other row.id := by
  unfold storeModel
  split_ifs with hexists
  · refine registry.filter_rows_update fun row hrow => if_neg ?_
    rintro rfl
    rw [hother] at hrow
    exact Bool.false_ne_true hrow
  · exact registry.filter_rows_upsert _ hother

namespace RouteOutcome

theorem settle_counts (overwrite : Bool) (state : Registry Cost × ImportReport)
    (outcome : RouteOutcome Cost) :
    (settle overwrite state outcome).2.counts.new +
        (settle overwrite state outcome).2.counts.skipped +
        (settle overwrite state outcome).2.counts.conflicts =
      state.2.counts.new + state.2.counts.skipped + state.2.counts.conflicts + 1 := by
  cases outcome with
  | skipped reason =>
    dsimp only [settle, ImportReport.skip]
    omega
  | ambiguous reason =>
    dsimp only [settle, ImportReport.conflict]
    omega
  | described destination kind providerId mapped =>
    simp only [settle]
    split_ifs
    · dsimp only [ImportReport.conflict]
      omega
    · dsimp only [ImportReport.written]
      omega

variable {outcome : RouteOutcome Cost} {registry : Registry Cost} {row : RegistryRow Cost}

theorem settle_frame (overwrite : Bool) (state : Registry Cost × ImportReport)
    (hother : ∀ name, outcome.Names name → other name = false) :
    ((settle overwrite state outcome).1.rows.filter fun row => other row.id) =
      state.1.rows.filter fun row => other row.id := by
  cases outcome with
  | described destination kind providerId mapped =>
    simp only [settle]
    split_ifs
    · rfl
    · exact filter_storeModel state.1 destination kind providerId mapped (hother _ rfl)
  | _ => rfl

variable (state : Registry Cost × ImportReport)

theorem settle_keeps (outcome : RouteOutcome Cost) :
    state.1.rows <+: (settle false state outcome).1.rows := by
  cases outcome with
  | described destination =>
    simp only [settle]
    split_ifs with hprotected
    · exact prefix_rfl
    · have hfresh : destination ∉ state.1.rows.map RegistryRow.id :=
        fun hmem => hprotected ⟨hmem, rfl⟩
      rw [storeModel, if_neg hfresh, KeyedTable.rows_upsert_of_fresh hfresh]
      exact prefix_append _ _
  | _ => exact prefix_rfl

theorem settle_overwriting (outcome : RouteOutcome Cost) :
    (settle true state outcome).1 = store state.1 outcome ∧
      ∀ registry, (settle true (registry, state.2) outcome).2 = (settle true state outcome).2 := by
  cases outcome with
  | described =>
    simp [settle, store]
  | _ => exact ⟨rfl, fun _ => rfl⟩

theorem overwriteRow_fields (row : RegistryRow Cost) (outcome : RouteOutcome Cost) :
    (overwriteRow row outcome).id = row.id ∧ (overwriteRow row outcome).enabled = row.enabled := by
  cases outcome with
  | described =>
    simp only [overwriteRow]
    split_ifs <;> exact ⟨rfl, rfl⟩
  | _ => exact ⟨rfl, rfl⟩

theorem overwriteRow_of_names {written : RegistryRow Cost} (hnames : outcome.Names row.id)
    (hid : written.id = row.id) (henabled : written.enabled = row.enabled) :
    overwriteRow written outcome = overwriteRow row outcome := by
  cases outcome with
  | described destination kind providerId mapped =>
    cases hnames
    have hwritten : overwriteRow written (described row.id kind providerId mapped) =
        mapped.row written.id kind providerId written.enabled := if_pos hid
    rw [hwritten, hid, henabled]
    exact (if_pos rfl).symm
  | _ => cases hnames

theorem overwriteRow_of_not_names (hnames : ¬ outcome.Names row.id) :
    overwriteRow row outcome = row := by
  cases outcome with
  | described =>
    exact if_neg fun hid => hnames hid.symm
  | _ => rfl

theorem mem_store (hrow : row ∈ (store registry outcome).rows) :
    (¬ outcome.Names row.id ∧ row ∈ registry.rows) ∨
      (outcome.Names row.id ∧ overwriteRow row outcome = row) := by
  cases outcome with
  | described destination =>
    simp only [store, storeModel] at hrow
    split_ifs at hrow with hexists
    · obtain ⟨old, hold, rfl⟩ := mem_map.mp hrow
      by_cases hid : old.id = destination
      · rw [if_pos hid]
        exact .inr ⟨hid.symm, if_pos hid⟩
      · rw [if_neg hid]
        exact .inl ⟨fun hnames => hid hnames.symm, hold⟩
    · rw [KeyedTable.rows_upsert_of_fresh hexists] at hrow
      rcases mem_append.mp hrow with hold | hnew
      · refine .inl ⟨?_, hold⟩
        rintro rfl
        exact hexists (mem_map_of_mem hold)
      · cases mem_singleton.mp hnew
        exact .inr ⟨rfl, if_pos rfl⟩
  | _ => exact .inl ⟨id, hrow⟩

theorem rows_store_of_mem
    (hnames : ∀ name, outcome.Names name → name ∈ registry.rows.map RegistryRow.id) :
    (store registry outcome).rows = registry.rows.map fun row => overwriteRow row outcome := by
  cases outcome with
  | described destination =>
    rw [store, storeModel, if_pos (hnames destination rfl)]
    rfl
  | _ => exact (map_id' _).symm

theorem mem_ids_store :
    name ∈ (store registry outcome).rows.map RegistryRow.id ↔
      outcome.Names name ∨ name ∈ registry.rows.map RegistryRow.id := by
  cases outcome with
  | described =>
    unfold store Names
    rw [ids_storeModel, eq_comm]
  | _ => exact ⟨.inr, fun h => h.resolve_left id⟩

/-! ## All outcomes of a run -/

def overwriteAll (outcomes : List (RouteOutcome Cost)) (row : RegistryRow Cost) :
    RegistryRow Cost :=
  outcomes.foldl overwriteRow row

theorem overwriteAll_fields (outcomes : List (RouteOutcome Cost)) (row : RegistryRow Cost) :
    (overwriteAll outcomes row).id = row.id ∧
      (overwriteAll outcomes row).enabled = row.enabled := by
  induction outcomes generalizing row with
  | nil => exact ⟨rfl, rfl⟩
  | cons outcome rest ih =>
    obtain ⟨hid, henabled⟩ := overwriteRow_fields row outcome
    exact ⟨(ih _).1.trans hid, (ih _).2.trans henabled⟩

/-- After all outcomes are stored, every name is there, and writing them again over a row leaves
it as it is. -/
theorem stored_all (registry : Registry Cost) (outcomes : List (RouteOutcome Cost)) :
    (∀ outcome ∈ outcomes, ∀ name, outcome.Names name →
      name ∈ (outcomes.foldl store registry).rows.map RegistryRow.id) ∧
    ∀ row ∈ (outcomes.foldl store registry).rows, overwriteAll outcomes row = row := by
  -- the last outcome that names a row decides about it, so the list grows at its end
  induction outcomes using List.reverseRecOn with
  | nil => exact ⟨fun _ hmem => absurd hmem not_mem_nil, fun _ _ => rfl⟩
  | append_singleton outcomes last ih =>
    rw [foldl_append, foldl_cons, foldl_nil]
    constructor
    · intro outcome houtcome name hnames
      rw [mem_ids_store]
      rcases mem_append.mp houtcome with hbefore | hlast
      · exact .inr (ih.1 outcome hbefore name hnames)
      · rw [mem_singleton] at hlast
        exact .inl (hlast ▸ hnames)
    · intro row hrow
      rw [overwriteAll, foldl_concat]
      rcases mem_store hrow with ⟨hother, hold⟩ | ⟨hnames, hwritten⟩
      · rw [← overwriteAll, ih.2 row hold]
        exact overwriteRow_of_not_names hother
      · obtain ⟨hid, henabled⟩ := overwriteAll_fields outcomes row
        rw [← overwriteAll, overwriteRow_of_names hnames hid henabled]
        exact hwritten

theorem rows_foldl_store (hnames : ∀ outcome ∈ outcomes, ∀ name, outcome.Names name →
      name ∈ registry.rows.map RegistryRow.id) :
    (outcomes.foldl store registry).rows = registry.rows.map (overwriteAll outcomes) := by
  induction outcomes generalizing registry with
  | nil => exact (map_id' _).symm
  | cons outcome rest ih =>
    rw [forall_mem_cons] at hnames
    rw [foldl_cons, ih, rows_store_of_mem hnames.1, map_map]
    · rfl
    · intro other hother name hname
      exact mem_ids_store.mpr (.inr (hnames.2 other hother name hname))

theorem foldl_store_again (registry : Registry Cost) (outcomes : List (RouteOutcome Cost)) :
    outcomes.foldl store (outcomes.foldl store registry) = outcomes.foldl store registry := by
  obtain ⟨hnames, hrows⟩ := stored_all registry outcomes
  apply KeyedTable.ext
  rw [rows_foldl_store hnames]
  exact (map_congr_left hrows).trans (map_id' _)

theorem foldl_settle_overwriting (outcomes : List (RouteOutcome Cost))
    (state : Registry Cost × ImportReport) :
    (outcomes.foldl (settle true) state).1 = outcomes.foldl store state.1 ∧
      ∀ registry, (outcomes.foldl (settle true) (registry, state.2)).2 =
        (outcomes.foldl (settle true) state).2 := by
  induction outcomes generalizing state with
  | nil => exact ⟨rfl, fun _ => rfl⟩
  | cons outcome rest ih =>
    obtain ⟨hstored, hreport⟩ := settle_overwriting state outcome
    simp only [foldl_cons]
    constructor
    · rw [(ih _).1, hstored]
    · intro registry
      rw [← (ih (settle true state outcome)).2 (settle true (registry, state.2) outcome).1,
        ← hreport]

theorem foldl_settle_counts (overwrite : Bool) (outcomes : List (RouteOutcome Cost))
    (state : Registry Cost × ImportReport) :
    (outcomes.foldl (settle overwrite) state).2.counts.new +
        (outcomes.foldl (settle overwrite) state).2.counts.skipped +
        (outcomes.foldl (settle overwrite) state).2.counts.conflicts =
      state.2.counts.new + state.2.counts.skipped + state.2.counts.conflicts +
        outcomes.length := by
  induction outcomes generalizing state with
  | nil => rfl
  | cons outcome rest ih =>
    rw [foldl_cons, ih, settle_counts, length_cons]
    omega

theorem foldl_settle_frame (overwrite : Bool) (state : Registry Cost × ImportReport)
    (hother : ∀ outcome ∈ outcomes, ∀ name, outcome.Names name → other name = false) :
    ((outcomes.foldl (settle overwrite) state).1.rows.filter fun row => other row.id) =
      state.1.rows.filter fun row => other row.id := by
  induction outcomes generalizing state with
  | nil => rfl
  | cons outcome rest ih =>
    rw [forall_mem_cons] at hother
    rw [foldl_cons, ih _ hother.2, settle_frame overwrite state hother.1]

theorem foldl_settle_keeps (outcomes : List (RouteOutcome Cost))
    (state : Registry Cost × ImportReport) :
    state.1.rows <+: (outcomes.foldl (settle false) state).1.rows := by
  induction outcomes generalizing state with
  | nil => exact prefix_rfl
  | cons outcome rest ih => exact (settle_keeps state outcome).trans (ih _)

end RouteOutcome

section

variable [Float64 Cost] [AsF64 Cost] [SerdeJson]

def Database.routes (db : Database Cost) (name : String) : Bool :=
  (db.routing.filter RoutingRow.enabled).any fun route => route.logicalModel = name

structure ImportEffects (db : Database Cost) (text : Text) (overwrite : Bool)
    (after : Database Cost) (report : ImportReport) : Prop where
  counted : report.counts.new + report.counts.skipped + report.counts.conflicts =
    (db.routing.filter RoutingRow.enabled).length
  otherTables : after = { db with registry := after.registry }
  otherRows : (after.registry.rows.filter fun row => !Database.routes db row.id) =
    db.registry.rows.filter fun row => !Database.routes db row.id
  protects : overwrite = false → db.registry.rows <+: after.registry.rows
  again : overwrite = true → importCall after text true = (after, .ok report)

variable {db : Database Cost}

theorem names_of_mapM
    (hfound : (db.routing.filter RoutingRow.enabled).mapM (routeOutcome db candidates) =
      .ok outcomes) (houtcome : outcome ∈ outcomes) (hnames : outcome.Names name) :
    Database.routes db name = true := by
  obtain ⟨route, hroute, hfound⟩ := Except.exists_of_mem_mapM hfound houtcome
  refine any_eq_true.mpr ⟨route, hroute, ?_⟩
  exact decide_eq_true (names_routeOutcome hfound hnames)

theorem importCall_again (himport : importJson db text true = .ok (after, report)) :
    importCall after text true = (after, .ok report) := by
  obtain ⟨candidates, outcomes, registry, hcatalog, hfound, hsettled, rfl⟩ :=
    importJson_eq_ok_iff.mp himport
  have hstored : registry = outcomes.foldl RouteOutcome.store db.registry := by
    rw [← (RouteOutcome.foldl_settle_overwriting outcomes (db.registry, {})).1, hsettled]
  have hsecond : outcomes.foldl (RouteOutcome.settle true) (registry, {}) = (registry, report) := by
    obtain ⟨hregistry, -⟩ :=
      RouteOutcome.foldl_settle_overwriting outcomes (registry, ({} : ImportReport))
    have hreport :=
      (RouteOutcome.foldl_settle_overwriting outcomes (db.registry, ({} : ImportReport))).2 registry
    rw [hsettled] at hreport
    refine Prod.ext ?_ hreport
    rw [hregistry, hstored]
    exact RouteOutcome.foldl_store_again db.registry outcomes
  have hagain : importJson { db with registry := registry } text true =
      .ok ({ db with registry := registry }, report) :=
    importJson_eq_ok_iff.mpr ⟨candidates, outcomes, registry, hcatalog, hfound, hsecond, rfl⟩
  rw [importCall, hagain]

theorem importEffects_of_importJson (himport : importJson db text overwrite = .ok (after, report)) :
    ImportEffects db text overwrite after report := by
  obtain ⟨candidates, outcomes, registry, -, hfound, hsettled, hafter⟩ :=
    importJson_eq_ok_iff.mp himport
  have hregistry : after.registry = registry := by rw [hafter]
  constructor
  · have hcounts := RouteOutcome.foldl_settle_counts overwrite outcomes (db.registry, {})
    rw [hsettled] at hcounts
    rw [(Except.mapM_eq_ok_iff.mp hfound).length_eq]
    simpa using hcounts
  · rw [hregistry]
    exact hafter
  · have hother : ∀ outcome ∈ outcomes, ∀ name, outcome.Names name →
        (!Database.routes db name) = false := by
      intro outcome houtcome name hnames
      rw [names_of_mapM hfound houtcome hnames]
      rfl
    have hframe := RouteOutcome.foldl_settle_frame overwrite (db.registry, {}) hother
    rw [hsettled] at hframe
    rw [hregistry]
    exact hframe
  · rintro rfl
    have hkeeps := RouteOutcome.foldl_settle_keeps outcomes (db.registry, {})
    rw [hsettled] at hkeeps
    rw [hregistry]
    exact hkeeps
  · rintro rfl
    exact importCall_again himport

/-- An import that fails changes no table; one that succeeds counts every enabled route once,
changes rows of routed models only, keeps all rows if it does not overwrite, and changes nothing
if it overwrites a second time. -/
theorem importCall_effects (db : Database Cost) (text : Text) (overwrite : Bool) :
    (∀ e, (importCall db text overwrite).2 = .error e → (importCall db text overwrite).1 = db) ∧
      ∀ report, (importCall db text overwrite).2 = .ok report →
        ImportEffects db text overwrite (importCall db text overwrite).1 report := by
  unfold importCall
  cases himport : importJson db text overwrite with
  | error => exact ⟨fun _ _ => rfl, nofun⟩
  | ok =>
    refine ⟨nofun, ?_⟩
    rintro report ⟨⟩
    exact importEffects_of_importJson himport

end

attribute [local instance] jsonText

theorem importJson_effortCatalog_overwriting :
    (importJson routedDatabase (effortCatalog 1000) true).toOption.map (fun result =>
      (result.2.counts.new, result.1.registry.rows.map RegistryRow.id)) = some (1, ["m"]) := by
  decide +kernel

theorem effortCatalog_imported_twice :
    (∃ after report, importCall routedDatabase (effortCatalog 1000) true = (after, .ok report) ∧
      after.registry.rows.map RegistryRow.id = ["m"] ∧
      importCall after (effortCatalog 1000) true = (after, .ok report)) ∧
    (importCall routedDatabase "[]".toList true).1 = routedDatabase := by
  constructor
  · obtain ⟨⟨after, report⟩, hrun, hseen⟩ :=
      Option.map_eq_some_iff.mp importJson_effortCatalog_overwriting
    have hcall : importCall routedDatabase (effortCatalog 1000) true = (after, .ok report) := by
      rw [importCall, Except.toOption_eq_some_iff.mp hrun]
    have heffects :=
      (importCall_effects routedDatabase (effortCatalog 1000) true).2 report (by rw [hcall])
    rw [hcall] at heffects
    exact ⟨after, report, hcall, (Prod.ext_iff.mp hseen).2, heffects.again rfl⟩
  · have hread : SerdeJson.fromStr "[]".toList = some (.arr []) := by decide +kernel
    rw [importCall, importJson, readCatalog, hread]
    rfl

end ModelImport

end LlmProxy
