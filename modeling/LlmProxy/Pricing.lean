import LlmProxy.ChatHandler
import LlmProxy.ConfigTables

/-!
# Composition of the price table

`compose_pricing` of `config_store.rs` builds the price table in four passes, and
`PricingConfig::lookup` of `config/pricing.rs` reads it.
-/

namespace LlmProxy

open List Option
open KeyedFold

/-- The operations of `f64` that prices go through. -/
class Float64 (Cost : Type) extends Zero Cost, Add Cost, Mul Cost, Div Cost where
  ofI64 : ℤ → Cost
  /-- `x > 0.0` -/
  isPositive : Cost → Bool
  /-- `x == 0.0` -/
  isZero : Cost → Bool
  /-- `x < 0.0` -/
  isNegative : Cost → Bool
  isFinite : Cost → Bool

variable {Cost : Type}

structure PriceEntry (Cost : Type) where
  prompt : Cost
  completion : Cost
  deriving DecidableEq

structure ModelPricing (Cost : Type) where
  default : PriceEntry Cost
  tenants : AList fun _ : String => PriceEntry Cost

structure PricingConfig (Cost : Type) where
  models : AList fun _ : String => ModelPricing Cost

def PricingConfig.empty : PricingConfig Cost := ⟨∅⟩

section

variable [Float64 Cost]

def PriceEntry.zero : PriceEntry Cost := ⟨0, 0⟩

def PriceEntry.isPositive (price : PriceEntry Cost) : Bool :=
  Float64.isPositive price.prompt || Float64.isPositive price.completion

def PriceEntry.isZero (price : PriceEntry Cost) : Bool :=
  Float64.isZero price.prompt && Float64.isZero price.completion

def ModelPricing.empty : ModelPricing Cost := ⟨.zero, ∅⟩

namespace PricingConfig

variable (config : PricingConfig Cost)

/-- The price of the tenant, or else the default of the model. -/
def lookup (model : String) (tenant : Option String) : PriceEntry Cost :=
  match config.models.lookup model with
  | none => .zero
  | some pricing => (tenant.bind pricing.tenants.lookup).getD pricing.default

/-- A model that costs nothing has no cost. -/
def costUsd (model : String) (tenant : Option String) (promptTokens completionTokens : ℤ) :
    Option Cost :=
  let price := config.lookup model tenant
  if price.isZero then none
  else
    some (Float64.ofI64 promptTokens * price.prompt / Float64.ofI64 1000000 +
      Float64.ofI64 completionTokens * price.completion / Float64.ofI64 1000000)

def accounting : AccountingPricing Cost := ⟨config.costUsd⟩

end PricingConfig

namespace PricingOverride

/-- The end of the period is not in it. -/
def isEffectiveAt (row : PricingOverride Cost) (nowMs : ℤ) : Bool :=
  if nowMs < row.effectiveFrom then false
  else
    match row.effectiveUntil with
    | none => true
    | some until_ => nowMs < until_

def price (row : PricingOverride Cost) : PriceEntry Cost :=
  ⟨row.inputPricePer1m, row.outputPricePer1m⟩

end PricingOverride

/-- A missing price is zero. -/
def RegistryRow.price (row : RegistryRow Cost) : PriceEntry Cost :=
  ⟨row.inputPricePer1m.getD 0, row.outputPricePer1m.getD 0⟩

/-! ## The four passes -/

def overlay {Item : Type} (model : Item → String)
    (change : Item → ModelPricing Cost → ModelPricing Cost)
    (models : AList fun _ : String => ModelPricing Cost) (items : List Item) :
    AList fun _ : String => ModelPricing Cost :=
  KeyedFold.upsertAll model (fun item slot => change item (slot.getD .empty)) models items

def applyYaml (yaml : ModelPricing Cost) (slot : ModelPricing Cost) : ModelPricing Cost where
  default := if yaml.default.isPositive then yaml.default else slot.default
  tenants := yaml.tenants.entries.foldl
    (fun tenants entry => tenants.insert entry.1 entry.2) slot.tenants

def applyGlobal (row : PricingOverride Cost) (slot : ModelPricing Cost) : ModelPricing Cost :=
  { slot with default := row.price }

def applyTenant (row : PricingOverride Cost) (slot : ModelPricing Cost) : ModelPricing Cost :=
  match row.tenantId with
  | some tenant => { slot with tenants := slot.tenants.insert tenant row.price }
  | none => slot

variable (bootstrap : PricingConfig Cost) (catalog : List (RegistryRow Cost))
  (overrides : List (PricingOverride Cost)) (nowMs : ℤ)

def globalRows : List (PricingOverride Cost) :=
  overrides.filter fun row => row.isEffectiveAt nowMs && row.tenantId.isNone

def tenantRows : List (PricingOverride Cost) :=
  overrides.filter fun row => row.isEffectiveAt nowMs && row.tenantId.isSome

def catalogLayer : AList fun _ : String => ModelPricing Cost :=
  catalog.foldl (fun models row => models.insert row.id ⟨row.price, ∅⟩) ∅

def yamlLayer : AList fun _ : String => ModelPricing Cost :=
  overlay Sigma.fst (fun entry => applyYaml entry.2) (catalogLayer catalog)
    bootstrap.models.entries

/-- The catalog, the YAML file, the overrides for everyone, those for a tenant. -/
def composePricing : PricingConfig Cost :=
  let withGlobals := overlay PricingOverride.modelId applyGlobal (yamlLayer bootstrap catalog)
    (globalRows overrides nowMs)
  ⟨overlay PricingOverride.modelId applyTenant withGlobals (tenantRows overrides nowMs)⟩

/-! ## What a pass leaves in the slot of a model -/

def slot (models : AList fun _ : String => ModelPricing Cost) (model : String) :
    ModelPricing Cost :=
  (models.lookup model).getD .empty

theorem lookup_eq_slot (config : PricingConfig Cost) (model : String) (tenant : Option String) :
    config.lookup model tenant =
      (tenant.bind (slot config.models model).tenants.lookup).getD
        (slot config.models model).default := by
  unfold PricingConfig.lookup slot
  cases config.models.lookup model with
  | some => rfl
  | none =>
    cases tenant <;> rfl

theorem slot_overlay {Item : Type} (key : Item → String)
    (change : Item → ModelPricing Cost → ModelPricing Cost)
    (models : AList fun _ : String => ModelPricing Cost) (items : List Item) (model : String) :
    slot (overlay key change models items) model =
      (items.filter fun item => key item = model).foldl (fun pricing item => change item pricing)
        (slot models model) := by
  unfold slot overlay
  rw [lookup_upsertAll]
  generalize models.lookup model = start
  generalize (items.filter fun item => key item = model) = items
  induction items generalizing start with
  | nil => rfl
  | cons item rest ih => exact ih _

theorem slot_catalogLayer (model : String) :
    slot (catalogLayer catalog) model =
      ⟨((catalog.filter fun row => row.id = model).getLast?.map RegistryRow.price).getD .zero,
        ∅⟩ := by
  have hfold : catalogLayer catalog =
      KeyedFold.upsertAll (fun row : RegistryRow Cost => row.id)
        (fun row _ => (⟨row.price, ∅⟩ : ModelPricing Cost)) ∅ catalog := rfl
  rw [slot, hfold, lookup_upsertAll, foldl_some]
  cases (catalog.filter fun row => row.id = model).getLast? <;> rfl

theorem tenants_applyYaml (yaml pricing : ModelPricing Cost) (tenant : String) :
    (applyYaml yaml pricing).tenants.lookup tenant =
      (yaml.tenants.lookup tenant).or (pricing.tenants.lookup tenant) := by
  have hfold : (applyYaml yaml pricing).tenants =
      KeyedFold.upsertAll Sigma.fst (fun entry _ => entry.2) pricing.tenants
        yaml.tenants.entries := rfl
  rw [hfold, lookup_upsertAll, foldl_filter_entries]
  cases yaml.tenants.lookup tenant <;> rfl

section

omit [Float64 Cost]

variable (rows : List (PricingOverride Cost)) (pricing : ModelPricing Cost)

theorem foldl_applyGlobal :
    rows.foldl (fun pricing row => applyGlobal row pricing) pricing =
      { pricing with
        default := (rows.getLast?.map PricingOverride.price).getD pricing.default } := by
  induction rows using List.reverseRecOn with
  | nil => rfl
  | append_singleton rows row ih =>
    rw [foldl_append, ih]
    simp [applyGlobal]

theorem default_foldl_applyTenant :
    (rows.foldl (fun pricing row => applyTenant row pricing) pricing).default =
      pricing.default := by
  induction rows using List.reverseRecOn with
  | nil => rfl
  | append_singleton rows row ih =>
    rw [foldl_append, foldl_cons, foldl_nil, applyTenant]
    cases row.tenantId with
    | none => exact ih
    | some => exact ih

theorem tenants_foldl_applyTenant (tenant : String) :
    (rows.foldl (fun pricing row => applyTenant row pricing) pricing).tenants.lookup tenant =
      ((rows.filter fun row => row.tenantId = some tenant).getLast?.map PricingOverride.price).or
        (pricing.tenants.lookup tenant) := by
  induction rows using List.reverseRecOn with
  | nil => rfl
  | append_singleton rows row ih =>
    rw [foldl_append, foldl_cons, foldl_nil, applyTenant, filter_append]
    cases howner : row.tenantId with
    | none => simpa [howner] using ih
    | some owner =>
      simp only [lookup_insert]
      by_cases hsame : tenant = owner
      · simp [howner, hsame]
      · simpa [howner, hsame, Ne.symm hsame] using ih

end

/-! ## Where a price comes from -/

variable (model : String) (tenant : Option String)

def InForce (row : PricingOverride Cost) : Bool :=
  row.isEffectiveAt nowMs && (decide (row.modelId = model) && decide (row.tenantId = tenant))

def OneInForce : Prop :=
  ∀ model tenant, KeyedFold.AtMostOne (InForce nowMs model tenant) overrides

def overridePrice : Option (PriceEntry Cost) :=
  (overrides.find? (InForce nowMs model tenant)).map PricingOverride.price

def latestOverride : Option (PriceEntry Cost) :=
  (overrides.filter (InForce nowMs model tenant)).getLast?.map PricingOverride.price

def yamlTenantPrice : Option (PriceEntry Cost) :=
  (bootstrap.models.lookup model).bind fun yaml => tenant.bind yaml.tenants.lookup

def yamlDefault : Option (PriceEntry Cost) :=
  (bootstrap.models.lookup model).map ModelPricing.default

def catalogPrice : Option (PriceEntry Cost) :=
  (catalog.filter fun row => row.id = model).getLast?.map RegistryRow.price

def composedPrice : PriceEntry Cost :=
  (((latestOverride overrides nowMs model tenant).or
    (yamlTenantPrice bootstrap model tenant)).or
      (latestOverride overrides nowMs model none)).or
        (((yamlDefault bootstrap model).filter PriceEntry.isPositive).or
          (catalogPrice catalog model)) |>.getD .zero

def documentedPrice : PriceEntry Cost :=
  (((overridePrice overrides nowMs model tenant).or
    (overridePrice overrides nowMs model none)).or
      ((yamlTenantPrice bootstrap model tenant).or
        ((yamlDefault bootstrap model).filter fun price => !price.isZero))).or
          (catalogPrice catalog model) |>.getD .zero

section

omit [Float64 Cost]

theorem OneInForce.latestOverride {overrides : List (PricingOverride Cost)} {nowMs : ℤ}
    (hone : OneInForce overrides nowMs) (model : String) (tenant : Option String) :
    latestOverride overrides nowMs model tenant = overridePrice overrides nowMs model tenant := by
  rw [LlmProxy.latestOverride, (hone model tenant).getLast?_filter]
  rfl

theorem filter_globalRows :
    ((globalRows overrides nowMs).filter fun row => row.modelId = model) =
      overrides.filter (InForce nowMs model none) := by
  rw [globalRows, List.filter_filter]
  apply filter_congr
  intro row _
  unfold InForce
  cases row.tenantId <;> cases row.isEffectiveAt nowMs <;> simp

theorem filter_tenantRows (tenant : String) :
    (((tenantRows overrides nowMs).filter fun row => row.modelId = model).filter
      fun row => row.tenantId = some tenant) =
      overrides.filter (InForce nowMs model (some tenant)) := by
  rw [tenantRows, List.filter_filter, List.filter_filter]
  apply filter_congr
  intro row _
  unfold InForce
  cases row.tenantId with
  | none => simp
  | some =>
    cases row.isEffectiveAt nowMs
    · simp
    · simp [Bool.and_comm]

end

theorem slot_yamlLayer :
    slot (yamlLayer bootstrap catalog) model =
      (bootstrap.models.lookup model).elim
        ⟨(catalogPrice catalog model).getD .zero, ∅⟩ fun yaml =>
          applyYaml yaml ⟨(catalogPrice catalog model).getD .zero, ∅⟩ := by
  rw [yamlLayer, slot_overlay, foldl_filter_entries, slot_catalogLayer]
  rfl

theorem default_yamlLayer :
    (slot (yamlLayer bootstrap catalog) model).default =
      (((yamlDefault bootstrap model).filter PriceEntry.isPositive).or
        (catalogPrice catalog model)).getD .zero := by
  rw [slot_yamlLayer, yamlDefault]
  cases bootstrap.models.lookup model with
  | none => simp
  | some =>
    simp only [elim_some, applyYaml, map_some, Option.filter]
    split_ifs <;> rfl

theorem tenants_yamlLayer :
    tenant.bind (slot (yamlLayer bootstrap catalog) model).tenants.lookup =
      yamlTenantPrice bootstrap model tenant := by
  rw [slot_yamlLayer, yamlTenantPrice]
  cases bootstrap.models.lookup model with
  | none => cases tenant <;> rfl
  | some =>
    cases tenant with
    | none => rfl
    | some =>
      simp only [elim_some, tenants_applyYaml]
      exact or_none

/-- Each price of the composed table comes from the first layer that has one, a YAML price
of the tenant before an override for every tenant. -/
theorem lookup_composePricing :
    (composePricing bootstrap catalog overrides nowMs).lookup model tenant =
      composedPrice bootstrap catalog overrides nowMs model tenant := by
  have htenants := tenants_yamlLayer bootstrap catalog model tenant
  rw [lookup_eq_slot, composePricing, slot_overlay, default_foldl_applyTenant, slot_overlay,
    filter_globalRows, foldl_applyGlobal, default_yamlLayer, ← latestOverride, composedPrice]
  cases tenant with
  | none =>
    have hyaml : yamlTenantPrice bootstrap model none = none := htenants.symm
    rw [hyaml]
    cases latestOverride overrides nowMs model none <;> simp
  | some tenant =>
    have hyaml : (slot (yamlLayer bootstrap catalog) model).tenants.lookup tenant =
      yamlTenantPrice bootstrap model (some tenant) := htenants
    rw [bind_some, tenants_foldl_applyTenant, filter_tenantRows, ← latestOverride, hyaml]
    cases latestOverride overrides nowMs model (some tenant) <;>
      cases yamlTenantPrice bootstrap model (some tenant) <;>
        cases latestOverride overrides nowMs model none <;> simp

@[mk_iff] structure LayersAgree : Prop where
  /-- A YAML price of the tenant is not taken for an override for every tenant. -/
  tenantPrice : overridePrice overrides nowMs model tenant = none →
    ∀ global, overridePrice overrides nowMs model none = some global →
      ∀ yaml, yamlTenantPrice bootstrap model tenant = some yaml → yaml = global
  /-- A YAML default that is not zero is positive, or it is the price without it. -/
  defaultPrice : overridePrice overrides nowMs model tenant = none →
    overridePrice overrides nowMs model none = none →
      yamlTenantPrice bootstrap model tenant = none →
        ∀ yaml, yamlDefault bootstrap model = some yaml →
          yaml.isPositive = !yaml.isZero ∨ yaml = (catalogPrice catalog model).getD .zero

variable {bootstrap catalog overrides nowMs}

theorem composedPrice_eq_documentedPrice_iff (hone : OneInForce overrides nowMs) :
    composedPrice bootstrap catalog overrides nowMs model tenant =
        documentedPrice bootstrap catalog overrides nowMs model tenant ↔
      LayersAgree bootstrap catalog overrides nowMs model tenant := by
  rw [layersAgree_iff, composedPrice, documentedPrice, hone.latestOverride, hone.latestOverride]
  cases overridePrice overrides nowMs model tenant with
  | some => simp
  | none =>
    cases overridePrice overrides nowMs model none with
    | some => cases yamlTenantPrice bootstrap model tenant <;> simp
    | none =>
      cases yamlTenantPrice bootstrap model tenant with
      | some => simp
      | none =>
        cases yamlDefault bootstrap model with
        | none => simp
        | some yaml =>
          cases hpositive : yaml.isPositive <;> cases hzero : yaml.isZero <;>
            simp [Option.filter, hpositive, hzero, eq_comm]

/-- The composed price is the documented one exactly where the layers it has in another
order agree. -/
theorem composePricing_documented_iff (bootstrap : PricingConfig Cost)
    (catalog : List (RegistryRow Cost)) (overrides : List (PricingOverride Cost)) (nowMs : ℤ)
    (hone : OneInForce overrides nowMs) (model : String) (tenant : Option String) :
    (composePricing bootstrap catalog overrides nowMs).lookup model tenant =
        documentedPrice bootstrap catalog overrides nowMs model tenant ↔
      LayersAgree bootstrap catalog overrides nowMs model tenant := by
  rw [lookup_composePricing]
  exact composedPrice_eq_documentedPrice_iff model tenant hone

end

instance : Float64 ℚ where
  ofI64 n := n
  isPositive x := 0 < x
  isZero x := x = 0
  isNegative x := x < 0
  isFinite _ := true

def tenantTable : PricingConfig ℚ :=
  ⟨AList.singleton "m" ⟨.zero, AList.singleton "t" ⟨1, 2⟩⟩⟩

def overrideRow (tenant : Option String) : PricingOverride ℚ :=
  ⟨"m", tenant, 3, 6, 0, none⟩

theorem oneInForce_singleton (row : PricingOverride ℚ) (nowMs : ℤ) : OneInForce [row] nowMs :=
  fun _ _ => length_filter_le _ _

theorem composePricing_documented_tenantOverride :
    OneInForce [overrideRow (some "t")] 5 ∧
      (composePricing tenantTable [] [overrideRow (some "t")] 5).lookup "m" (some "t") =
        documentedPrice tenantTable [] [overrideRow (some "t")] 5 "m" (some "t") :=
  ⟨oneInForce_singleton _ _,
    (composePricing_documented_iff tenantTable [] [overrideRow (some "t")] 5
      (oneInForce_singleton _ _) "m" (some "t")).mpr
      ⟨fun hnone => absurd hnone (by decide +kernel),
        fun hnone => absurd hnone (by decide +kernel)⟩⟩

/-- The override for every tenant does not reach a tenant with a YAML price. -/
theorem composePricing_yaml_over_global :
    OneInForce [overrideRow none] 5 ∧
      (composePricing tenantTable [] [overrideRow none] 5).lookup "m" (some "t") = ⟨1, 2⟩ ∧
        documentedPrice tenantTable [] [overrideRow none] 5 "m" (some "t") = ⟨3, 6⟩ :=
  ⟨oneInForce_singleton _ _, by decide +kernel, by decide +kernel⟩

end LlmProxy
