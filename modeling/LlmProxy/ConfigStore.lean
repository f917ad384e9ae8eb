import LlmProxy.Pricing

/-!
# The configuration store and the prices of the command line

`ConfigStore` of `config_store.rs`: a snapshot of the managed tables that `refresh_from_db`
replaces, and the price table in it.  The gateway installs the `pricing:` section of its YAML file
as a base layer; `cli.rs` reads the prices of a store without it.
-/

namespace LlmProxy

open Json List

structure ConfigSnapshot (Cost : Type) where
  providers : List ProviderConfig
  poolConfigs : AList fun _ : String => PoolConfig
  modelRouting : AList fun _ : String => ModelRouting
  modelRegistry : List (RegistryRow Cost)
  pricing : PricingConfig Cost
  bootstrapPricing : PricingConfig Cost
  version : ℕ

inductive ManagedTable
  | providers
  | pools
  | keys
  | routing
  | registry
  | overrides
  deriving DecidableEq, Repr

def ManagedTable.label : ManagedTable → String
  | providers => "providers"
  | pools => "pools"
  | keys => "keys"
  | routing => "routing"
  | registry => "model_registry"
  | overrides => "pricing_override"

/-- The tables as a refresh finds them, the time, and the error of a read that fails. -/
structure TableRead (Cost : Type) where
  db : Database Cost
  nowMs : ℤ
  fault : ManagedTable → Option String := fun _ => none

variable {Cost : Type}

/-- A read that fails names its table. -/
def TableRead.fetchAll {Row : Type} (read : TableRead Cost) (table : ManagedTable)
    (rows : List Row) : Except AppError (List Row) :=
  match read.fault table with
  | some e =>
    let label := table.label
    .error (.internal s!"ConfigStore load {label}: {e}")
  | none => .ok rows

variable {E A B : Type} {items : List A} {f : A → Except E B}

theorem Except.bind_eq_ok_iff {first : Except E A} {rest : A → Except E B} {result : B} :
    (first >>= rest) = .ok result ↔ ∃ value, first = .ok value ∧ rest value = .ok result := by
  cases first with
  | error => simp [bind, Except.bind]
  | ok => simp [bind, Except.bind]

theorem Except.toOption_eq_some_iff {result : Except E A} {value : A} :
    result.toOption = some value ↔ result = .ok value := by
  cases result with
  | error => simp [Except.toOption]
  | ok => simp [Except.toOption]

variable {values : List B} {S : Type} {start last : S}

theorem Except.mapM_eq_ok_iff :
    items.mapM f = .ok values ↔
      List.Forall₂ (fun item value => f item = .ok value) items values := by
  induction items generalizing values with
  | nil => cases values <;> simp [pure, Except.pure]
  | cons item rest ih =>
    simp only [mapM_cons, Except.bind_eq_ok_iff, ih, forall₂_cons_left_iff]
    constructor
    · rintro ⟨value, hvalue, others, hothers, hsame⟩
      cases hsame
      exact ⟨value, others, hvalue, hothers, rfl⟩
    · rintro ⟨value, others, hvalue, hothers, rfl⟩
      exact ⟨value, hvalue, others, hothers, rfl⟩

theorem Except.exists_of_mem_mapM (hloop : items.mapM f = .ok values) {value : B}
    (hvalue : value ∈ values) : ∃ item ∈ items, f item = .ok value := by
  have hpairs := Except.mapM_eq_ok_iff.mp hloop
  clear hloop
  induction hpairs with
  | nil => cases hvalue
  | cons hfirst _ ih =>
    rcases mem_cons.mp hvalue with rfl | hrest
    · exact ⟨_, mem_cons_self, hfirst⟩
    · obtain ⟨item, hitem, hf⟩ := ih hrest
      exact ⟨item, mem_cons_of_mem _ hitem, hf⟩

theorem Except.exists_mapM (hitems : ∀ item ∈ items, ∃ value, f item = .ok value) :
    ∃ values, items.mapM f = .ok values := by
  induction items with
  | nil => exact ⟨[], rfl⟩
  | cons item rest ih =>
    rw [forall_mem_cons] at hitems
    obtain ⟨value, hvalue⟩ := hitems.1
    obtain ⟨values, hvalues⟩ := ih hitems.2
    exact ⟨value :: values,
      Except.mapM_eq_ok_iff.mpr (.cons hvalue (Except.mapM_eq_ok_iff.mp hvalues))⟩

theorem Except.forM_eq_ok_iff {f : A → Except E Unit} :
    items.forM f = .ok () ↔ ∀ item ∈ items, f item = .ok () := by
  induction items with
  | nil => simp [pure, Except.pure]
  | cons item rest ih =>
    have hturn : (item :: rest).forM f = (f item >>= fun _ => rest.forM f) := rfl
    rw [hturn, Except.bind_eq_ok_iff, forall_mem_cons, ← ih]
    exact ⟨fun ⟨_, hitem, hrest⟩ => ⟨hitem, hrest⟩, fun hall => ⟨(), hall⟩⟩

theorem Except.foldlM_invariant {f : S → A → Except E S} {P : S → Prop}
    (hloop : items.foldlM f start = .ok last) (hstart : P start)
    (hturn : ∀ item ∈ items, ∀ s next, P s → f s item = .ok next → P next) : P last := by
  induction items generalizing start with
  | nil =>
    cases hloop
    exact hstart
  | cons item rest ih =>
    obtain ⟨next, hnext, hrest⟩ := Except.bind_eq_ok_iff.mp hloop
    apply ih hrest
    · exact hturn item mem_cons_self start next hstart hnext
    · exact fun other hother => hturn other (mem_cons_of_mem _ hother)

theorem Except.foldlM_eq_append {f : List B → A → Except E (List B)} {g : A → List B}
    {made all : List B} (hloop : items.foldlM f made = .ok all)
    (hturn : ∀ item s next, f s item = .ok next → next = s ++ g item) :
    all = made ++ items.flatMap g := by
  induction items generalizing made with
  | nil =>
    cases hloop
    exact (append_nil _).symm
  | cons item rest ih =>
    obtain ⟨next, hnext, hrest⟩ := Except.bind_eq_ok_iff.mp hloop
    rw [ih hrest, hturn item made next hnext, flatMap_cons, append_assoc]

/-- A loop each turn of which first finds something out, whatever happened before, and then acts on
it: all of it can be found out first. -/
theorem Except.foldlM_map_eq_ok_iff {find : A → Except E B} {act : S → B → S} :
    items.foldlM (fun s item => (find item).map (act s)) start = .ok last ↔
      ∃ found, items.mapM find = .ok found ∧ last = found.foldl act start := by
  induction items generalizing start with
  | nil => simp [pure, Except.pure, eq_comm]
  | cons item rest ih =>
    rw [foldlM_cons, mapM_cons]
    cases find item with
    | error => simp [bind, Except.bind, Except.map]
    | ok =>
      refine Iff.trans ih ?_
      cases rest.mapM find with
      | error => simp [bind, Except.bind]
      | ok => simp [bind, Except.bind, pure, Except.pure]

def loadRegistry (rows : List (RegistryRow Cost)) : Except AppError (List (RegistryRow Cost)) :=
  (rows.mapM RegistryRow.decode).mapError fun e =>
    .internal s!"ConfigStore load model_registry: {e}"

theorem loadRegistry_eq_ok_iff {rows loaded : List (RegistryRow Cost)} :
    loadRegistry rows = .ok loaded ↔ (∀ row ∈ rows, row.Fits) ∧ loaded = rows := by
  have hdecoded : loadRegistry rows = .ok loaded ↔ rows.mapM RegistryRow.decode = .ok loaded := by
    unfold loadRegistry
    cases rows.mapM RegistryRow.decode <;> simp [Except.mapError]
  rw [hdecoded, Except.mapM_eq_ok_iff]
  simp only [RegistryRow.decode_eq_ok_iff]
  clear hdecoded
  constructor
  · intro hpairs
    induction hpairs with
    | nil => simp
    | cons hfirst _ ih => exact ⟨forall_mem_cons.mpr ⟨hfirst.1, ih.1⟩, by rw [hfirst.2, ih.2]⟩
  · rintro ⟨hfits, rfl⟩
    exact forall₂_same.mpr fun row hrow => ⟨hfits row hrow, rfl⟩

namespace ConfigSnapshot

def default : ConfigSnapshot Cost where
  providers := []
  poolConfigs := ∅
  modelRouting := ∅
  modelRegistry := []
  pricing := .empty
  bootstrapPricing := .empty
  version := 0

variable [SerdeJson] [Float64 Cost] (current : ConfigSnapshot Cost)

/-- The publication at the end of `refresh_from_db`, under the write lock. -/
def publish (providers : List ProviderConfig) (poolConfigs : AList fun _ : String => PoolConfig)
    (modelRouting : AList fun _ : String => ModelRouting) (modelRegistry : List (RegistryRow Cost))
    (overrides : List (PricingOverride Cost)) (nowMs : ℤ) : ConfigSnapshot Cost where
  providers := providers
  poolConfigs := poolConfigs
  modelRouting := modelRouting
  modelRegistry := modelRegistry
  pricing := composePricing current.bootstrapPricing modelRegistry overrides nowMs
  bootstrapPricing := current.bootstrapPricing
  version := current.version + 1

variable (read : TableRead Cost)

/-- All tables are read; the first error leaves the snapshot as it is. -/
def refreshFromDb : Except AppError (ConfigSnapshot Cost) := do
  let providers ← loadProviders (← read.fetchAll .providers read.db.providers.rows)
  let pools ← read.fetchAll .pools read.db.pools.rows
  let keys ← read.fetchAll .keys read.db.keys
  let routing ← read.fetchAll .routing read.db.routing
  let registry ← loadRegistry (← read.fetchAll .registry read.db.registry.rows)
  let overrides ← read.fetchAll .overrides read.db.overrides
  return current.publish providers (loadPools pools keys) (loadRouting routing) registry overrides
    read.nowMs

/-- Only the registry and the overrides are read anew. -/
def refreshPricing : Except AppError (ConfigSnapshot Cost) := do
  let registry ← loadRegistry (← read.fetchAll .registry read.db.registry.rows)
  let overrides ← read.fetchAll .overrides read.db.overrides
  return { current with
    modelRegistry := registry
    pricing := composePricing current.bootstrapPricing registry overrides read.nowMs }

/-- A price table that cannot be loaded leaves the one before it in force. -/
def setBootstrapPricing (pricing : PricingConfig Cost) (read : TableRead Cost) :
    ConfigSnapshot Cost :=
  let installed := { current with bootstrapPricing := pricing }
  match installed.refreshPricing read with
  | .ok recomposed => recomposed
  | .error _ => installed

def load : Except AppError (ConfigSnapshot Cost) :=
  default.refreshFromDb read

/-! ## What a refresh publishes -/

variable {read : TableRead Cost} {refreshed current : ConfigSnapshot Cost}

omit [SerdeJson] [Float64 Cost] in
theorem fetchAll_eq_ok_iff {Row : Type} {table : ManagedTable} {rows fetched : List Row} :
    read.fetchAll table rows = .ok fetched ↔ read.fault table = none ∧ fetched = rows := by
  unfold TableRead.fetchAll
  cases read.fault table with
  | some => simp
  | none => simp [eq_comm]

theorem refreshFromDb_eq_ok_iff :
    current.refreshFromDb read = .ok refreshed ↔
      ((∀ table, read.fault table = none) ∧ ∀ row ∈ read.db.registry.rows, row.Fits) ∧
        ∃ providers, loadProviders read.db.providers.rows = .ok providers ∧
          refreshed = current.publish providers (loadPools read.db.pools.rows read.db.keys)
            (loadRouting read.db.routing) read.db.registry.rows read.db.overrides read.nowMs := by
  unfold refreshFromDb
  simp only [Except.bind_eq_ok_iff, fetchAll_eq_ok_iff, loadRegistry_eq_ok_iff]
  constructor
  · rintro ⟨_, ⟨hproviders, rfl⟩, providers, hloaded, _, ⟨hpools, rfl⟩, _, ⟨hkeys, rfl⟩, _,
      ⟨hrouting, rfl⟩, _, ⟨hregistry, rfl⟩, _, ⟨hfits, rfl⟩, _, ⟨hoverrides, rfl⟩, hpublished⟩
    refine ⟨⟨fun table => ?_, hfits⟩, providers, hloaded, (Except.ok.inj hpublished).symm⟩
    cases table with
    | providers => exact hproviders
    | pools => exact hpools
    | keys => exact hkeys
    | routing => exact hrouting
    | registry => exact hregistry
    | overrides => exact hoverrides
  · rintro ⟨⟨hfault, hfits⟩, providers, hloaded, rfl⟩
    exact ⟨_, ⟨hfault _, rfl⟩, providers, hloaded, _, ⟨hfault _, rfl⟩, _, ⟨hfault _, rfl⟩, _,
      ⟨hfault _, rfl⟩, _, ⟨hfault _, rfl⟩, _, ⟨hfits, rfl⟩, _, ⟨hfault _, rfl⟩, rfl⟩

theorem bootstrapPricing_of_refreshFromDb (hrefresh : current.refreshFromDb read = .ok refreshed) :
    refreshed.bootstrapPricing = current.bootstrapPricing := by
  obtain ⟨-, providers, -, rfl⟩ := refreshFromDb_eq_ok_iff.mp hrefresh
  rfl

theorem pricing_of_refreshFromDb (hrefresh : current.refreshFromDb read = .ok refreshed) :
    refreshed.pricing = composePricing current.bootstrapPricing read.db.registry.rows
      read.db.overrides read.nowMs := by
  obtain ⟨-, providers, -, rfl⟩ := refreshFromDb_eq_ok_iff.mp hrefresh
  rfl

omit [SerdeJson] in
theorem bootstrapPricing_setBootstrapPricing (current : ConfigSnapshot Cost)
    (pricing : PricingConfig Cost) (read : TableRead Cost) :
    (current.setBootstrapPricing pricing read).bootstrapPricing = pricing := by
  unfold setBootstrapPricing
  dsimp only
  split
  · rename_i recomposed hrefresh
    simp only [refreshPricing, Except.bind_eq_ok_iff] at hrefresh
    obtain ⟨_, -, _, -, _, -, hpublished⟩ := hrefresh
    cases hpublished
    rfl
  · rfl

end ConfigSnapshot

section

variable [SerdeJson] [Float64 Cost]

/-- The snapshots of a gateway that was started with a YAML price table: the table is
installed on what `load` and an import at start left, refreshes follow. -/
inductive Serving (yaml : PricingConfig Cost) : ConfigSnapshot Cost → Prop
  | boot (loaded : ConfigSnapshot Cost) (read : TableRead Cost) :
      Serving yaml (loaded.setBootstrapPricing yaml read)
  | refresh {current refreshed : ConfigSnapshot Cost} {read : TableRead Cost} :
      Serving yaml current → current.refreshFromDb read = .ok refreshed → Serving yaml refreshed

theorem Serving.bootstrapPricing {yaml : PricingConfig Cost} {snapshot : ConfigSnapshot Cost}
    (hserving : Serving yaml snapshot) : snapshot.bootstrapPricing = yaml := by
  induction hserving with
  | boot loaded read => exact loaded.bootstrapPricing_setBootstrapPricing yaml read
  | refresh _ hrefresh ih =>
    exact (ConfigSnapshot.bootstrapPricing_of_refreshFromDb hrefresh).trans ih

/-- `effective_pricing`: the store without a base layer. -/
def effectivePricing (read : TableRead Cost) : Except AppError (PricingConfig Cost) :=
  (ConfigSnapshot.load read).map ConfigSnapshot.pricing

/-- The `WHERE` clause of `pricing_backfill`. -/
def backfillSelects (overwrite : Bool) (row : RequestLog Cost) : Bool :=
  (overwrite || row.costUsd.isNone) && row.promptTokens.isSome && row.completionTokens.isSome

/-- With `dry_run` nothing is written. -/
def pricingBackfill (pricing : PricingConfig Cost) (overwrite dryRun : Bool)
    (row : RequestLog Cost) : RequestLog Cost :=
  if backfillSelects overwrite row then
    match pricing.costUsd row.model (some row.audit.fromAuth.tenantId)
        (row.promptTokens.getD 0) (row.completionTokens.getD 0) with
    | some cost => if dryRun then row else { row with costUsd := some cost }
    | none => row
  else row

variable (db : Database Cost) (nowMs : ℤ) (model : String)

def priceWithoutYaml : PriceEntry Cost :=
  ((latestOverride db.overrides nowMs model none).or
    (catalogPrice db.registry.rows model)).getD .zero

variable (yaml : PricingConfig Cost)

structure YamlSilent (yaml : PricingConfig Cost) (db : Database Cost) (nowMs : ℤ) : Prop where
  tenants : ∀ model tenant price, yamlTenantPrice yaml model tenant = some price →
    latestOverride db.overrides nowMs model tenant = none →
      price = priceWithoutYaml db nowMs model
  defaults : ∀ model price, yamlDefault yaml model = some price → price.isPositive = true →
    latestOverride db.overrides nowMs model none = none →
      price = (catalogPrice db.registry.rows model).getD .zero

omit [SerdeJson] [Float64 Cost] in
theorem yamlTenantPrice_none (model : String) : yamlTenantPrice yaml model none = none := by
  unfold yamlTenantPrice
  cases yaml.models.lookup model <;> rfl

omit [SerdeJson] in
theorem composedPrice_empty (tenant : Option String) :
    composedPrice .empty db.registry.rows db.overrides nowMs model tenant =
      (latestOverride db.overrides nowMs model tenant).getD (priceWithoutYaml db nowMs model) := by
  have hmodels : (PricingConfig.empty : PricingConfig Cost).models.lookup model = none := rfl
  unfold composedPrice priceWithoutYaml
  rw [yamlTenantPrice, yamlDefault, hmodels]
  cases latestOverride db.overrides nowMs model tenant <;>
    cases latestOverride db.overrides nowMs model none <;> simp

omit [SerdeJson] in
theorem composedPrice_eq_empty_iff (db : Database Cost) (nowMs : ℤ) :
    (∀ model tenant,
      composedPrice .empty db.registry.rows db.overrides nowMs model tenant =
        composedPrice yaml db.registry.rows db.overrides nowMs model tenant) ↔
      YamlSilent yaml db nowMs := by
  simp only [composedPrice_empty]
  constructor
  · intro hsame
    constructor
    · intro model tenant price hprice hown
      have hpair := hsame model tenant
      rw [composedPrice, hprice, hown] at hpair
      simpa using hpair.symm
    · intro model price hprice hpositive hglobal
      have hpair := hsame model none
      rw [composedPrice, hprice, hglobal, yamlTenantPrice_none, priceWithoutYaml, hglobal] at hpair
      simpa [Option.filter, hpositive] using hpair.symm
  · intro hsilent model tenant
    rw [composedPrice]
    cases hown : latestOverride db.overrides nowMs model tenant with
    | some => simp
    | none =>
      cases hyaml : yamlTenantPrice yaml model tenant with
      | some price => simp [hsilent.tenants model tenant price hyaml hown]
      | none =>
        rw [priceWithoutYaml]
        cases hglobal : latestOverride db.overrides nowMs model none with
        | some => simp
        | none =>
          cases hdefault : yamlDefault yaml model with
          | none => simp
          | some price =>
            cases hpositive : price.isPositive with
            | false => simp [Option.filter, hpositive]
            | true =>
              have hprice := hsilent.defaults model price hdefault hpositive hglobal
              simpa [Option.filter, hpositive] using hprice.symm

/-- At one instant the command line and the gateway have the same prices exactly if the
YAML table is silent; then a backfill writes what the prices of the gateway would give. -/
theorem effectivePricing_eq_gateway_iff (yaml : PricingConfig Cost)
    (serving gateway : ConfigSnapshot Cost) (cli : PricingConfig Cost) (read : TableRead Cost)
    (hserving : Serving yaml serving) (hgateway : serving.refreshFromDb read = .ok gateway)
    (hcli : effectivePricing read = .ok cli) :
    ((∀ model tenant, cli.lookup model tenant = gateway.pricing.lookup model tenant) ↔
        YamlSilent yaml read.db read.nowMs) ∧
      (YamlSilent yaml read.db read.nowMs → ∀ overwrite dryRun row,
        pricingBackfill cli overwrite dryRun row =
          pricingBackfill gateway.pricing overwrite dryRun row) := by
  obtain ⟨loaded, hload, hpricing⟩ : ∃ loaded, ConfigSnapshot.load read = .ok loaded ∧
      loaded.pricing = cli := by
    unfold effectivePricing at hcli
    cases hload : ConfigSnapshot.load read with
    | error =>
      rw [hload] at hcli
      cases hcli
    | ok loaded =>
      rw [hload] at hcli
      exact ⟨loaded, rfl, Except.ok.inj hcli⟩
  have hcliPricing : cli = composePricing .empty read.db.registry.rows read.db.overrides
      read.nowMs := hpricing.symm.trans (ConfigSnapshot.pricing_of_refreshFromDb hload)
  have hgatewayPricing := ConfigSnapshot.pricing_of_refreshFromDb hgateway
  rw [hserving.bootstrapPricing] at hgatewayPricing
  have hiff : (∀ model tenant, cli.lookup model tenant = gateway.pricing.lookup model tenant) ↔
      YamlSilent yaml read.db read.nowMs := by
    rw [hcliPricing, hgatewayPricing, ← composedPrice_eq_empty_iff]
    simp only [lookup_composePricing]
  refine ⟨hiff, fun hsilent overwrite dryRun row => ?_⟩
  have hprice := hiff.mpr hsilent row.model (some row.audit.fromAuth.tenantId)
  unfold pricingBackfill PricingConfig.costUsd
  rw [hprice]

end

section

attribute [local instance] jsonText

def emptyRead : TableRead ℚ := { db := .empty, nowMs := 5 }

variable (current : ConfigSnapshot ℚ)

def refreshedEmpty : ConfigSnapshot ℚ :=
  current.publish [] ∅ ∅ [] [] 5

theorem refreshFromDb_emptyRead :
    current.refreshFromDb emptyRead = .ok (refreshedEmpty current) := rfl

theorem effectivePricing_emptyRead :
    effectivePricing emptyRead = .ok (refreshedEmpty .default).pricing := rfl

def tenantGateway : ConfigSnapshot ℚ :=
  (refreshedEmpty .default).setBootstrapPricing tenantTable emptyRead

theorem effectivePricing_eq_gateway_without_yaml :
    YamlSilent (.empty : PricingConfig ℚ) emptyRead.db 5 ∧
      ∀ model tenant, (refreshedEmpty .default).pricing.lookup model tenant =
        (refreshedEmpty
          (ConfigSnapshot.default.setBootstrapPricing .empty emptyRead)).pricing.lookup model
          tenant := by
  have hsilent : YamlSilent (.empty : PricingConfig ℚ) emptyRead.db 5 :=
    ⟨fun _ _ _ hprice => absurd hprice (by simp [yamlTenantPrice, PricingConfig.empty]),
      fun _ _ hprice => absurd hprice (by simp [yamlDefault, PricingConfig.empty])⟩
  exact ⟨hsilent, (effectivePricing_eq_gateway_iff .empty _ _ _ emptyRead (.boot .default emptyRead)
    (refreshFromDb_emptyRead _) effectivePricing_emptyRead).1.mpr hsilent⟩

/-- A price of the YAML file that the command line does not know: it leaves the cost open
that the gateway logs. -/
theorem effectivePricing_misses_yaml :
    Serving tenantTable tenantGateway ∧
      tenantGateway.refreshFromDb emptyRead = .ok (refreshedEmpty tenantGateway) ∧
      effectivePricing emptyRead = .ok (refreshedEmpty .default).pricing ∧
      (refreshedEmpty tenantGateway).pricing.costUsd "m" (some "t") 1000000 0 = some 1 ∧
      (refreshedEmpty .default).pricing.costUsd "m" (some "t") 1000000 0 = none :=
  ⟨.boot _ emptyRead, refreshFromDb_emptyRead _, effectivePricing_emptyRead, by decide +kernel,
    by decide +kernel⟩

end

end LlmProxy
