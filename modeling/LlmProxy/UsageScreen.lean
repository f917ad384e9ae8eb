import LlmProxy.CsvExports
import LlmProxy.HourlyAudit
import LlmProxy.Pricing

/-!
# The usage screen

`admin_api_usage` of `dashboard/usage.rs` over a content of `audit_hourly`, with exact rationals for
prices and costs.
-/

namespace LlmProxy

namespace Dashboard

open Grouping List

abbrev AuditRow := AuditHourly ℚ

/-! ## Queries -/

/-- The sums that the grouped queries select. -/
structure Sums where
  requests : ℤ
  success : ℤ
  latencyMsSum : ℤ
  promptTokens : ℤ
  completionTokens : ℤ
  cachedTokens : ℤ

/-- `SUM(..)`, which fails in SQLite beyond 64 bits, is unbounded here. -/
def sumOf (figure : Figure) (rows : List AuditRow) : ℤ :=
  (rows.map fun row => row.figures figure).sum

def Sums.of (rows : List AuditRow) : Sums where
  requests := sumOf .requestCount rows
  success := sumOf .successCount rows
  latencyMsSum := sumOf .latencyMsSum rows
  promptTokens := sumOf .promptTokens rows
  completionTokens := sumOf .completionTokens rows
  cachedTokens := sumOf .cachedTokens rows

/-- `(?2 IS NULL OR tenant_id = ?2)` -/
def ofTenant (tenant : Option String) (row : AuditRow) : Bool :=
  tenant.all (· = row.dims.tenantId)

def selected (window : ℤ → Bool) (tenant : Option String) (table : AuditTable ℚ) : List AuditRow :=
  table.rows.filter fun row => window row.dims.hour && ofTenant tenant row

def since (start : ℤ) : Option String → AuditTable ℚ → List AuditRow := selected (start ≤ ·)

def grouped {K : Type} [DecidableEq K] (key : AuditRow → K) (rows : List AuditRow) :
    List (K × Sums) :=
  (groups key rows).map fun k => (k, Sums.of (members key rows k))

def hourOf (row : AuditRow) : ℤ := row.dims.hour

def modelOf (row : AuditRow) : String := row.dims.model

/-! ## The screen -/

structure UsageSummary where
  requests : ℤ
  errors : ℤ
  promptTokens : ℤ
  completionTokens : ℤ
  cachedTokens : ℤ
  avgLatencyMs : ℤ
  costUsd : ℚ
  deriving DecidableEq

structure UsagePoint extends UsageSummary where
  ts : ℤ
  label : Json.Text

structure UsageModelRow extends UsageSummary where
  model : String
  cacheHitRate : ℚ
  deriving DecidableEq

/-- The list of tenants for the filter is left out. -/
structure UsageResponse where
  hours : ℤ
  today : UsageSummary
  total : UsageSummary
  trend : List UsagePoint
  models : List UsageModelRow
  selectedTenant : Option String

def div (a b : ℤ) : ℤ := if 0 < b then a.tdiv b else 0

def Sums.summary (s : Sums) (costUsd : ℚ) : UsageSummary where
  requests := s.requests
  errors := s.requests - s.success
  promptTokens := s.promptTokens
  completionTokens := s.completionTokens
  cachedTokens := s.cachedTokens
  avgLatencyMs := div s.latencyMsSum s.requests
  costUsd := costUsd

def Sums.cacheHitRate (s : Sums) : ℚ :=
  if 0 < s.promptTokens then s.cachedTokens / s.promptTokens * 100 else 0

def hourLabel (hour : ℤ) : Json.Text :=
  let secsOfDay := (hour % 86400).toNat
  padZeros 2 (secsOfDay / 3600) ++ ':' :: padZeros 2 (secsOfDay % 3600 / 60)

variable (pricing : PricingConfig ℚ)

/-- A cost that is not known counts as zero. -/
def modelCost (model : String) (tenant : Option String) (promptTokens completionTokens : ℤ) : ℚ :=
  (pricing.costUsd model tenant promptTokens completionTokens).getD 0

def Sums.cost (model : String) (tenant : Option String) (s : Sums) : ℚ :=
  modelCost pricing model tenant s.promptTokens s.completionTokens

/-- The rows are the sums for each model. -/
def summarize (tenant : Option String) (rows : List (String × Sums)) : UsageSummary :=
  let sums : Sums :=
    { requests := (rows.map fun r => r.2.requests).sum
      success := (rows.map fun r => r.2.success).sum
      latencyMsSum := (rows.map fun r => r.2.latencyMsSum).sum
      promptTokens := (rows.map fun r => r.2.promptTokens).sum
      completionTokens := (rows.map fun r => r.2.completionTokens).sum
      cachedTokens := (rows.map fun r => r.2.cachedTokens).sum }
  sums.summary (rows.map fun r => r.2.cost pricing r.1 tenant).sum

/-- `q.hours.unwrap_or(fallback).clamp(1, 24 * 365)` -/
def clampHours (fallback : ℤ) (hours : Option ℤ) : ℤ := max 1 (min (hours.getD fallback) (24 * 365))

def windowStart (now hours : ℤ) : ℤ := (now / 3600 - hours) * 3600

/-- Prices are applied to the groups of hour and model. -/
def hourlyCosts (now hours : ℤ) (tenant : Option String) (table : AuditTable ℚ) :
    AList fun _ : ℤ => ℚ :=
  totals (fun r => r.1.1) (fun r => r.2.cost pricing r.1.2 tenant)
    (grouped (fun row => (hourOf row, modelOf row)) (since (windowStart now hours) tenant table))

/-- `costNow` is the time that `hourly_costs` reads for itself. -/
def adminApiUsage (now costNow : ℤ) (hours : Option ℤ) (tenant : Option String)
    (table : AuditTable ℚ) : UsageResponse :=
  let hours := clampHours 168 hours
  let rows := since (windowStart now hours) tenant table
  let hourRows := (grouped hourOf rows).mergeSort fun a b => a.1 ≤ b.1
  let trendCosts := hourlyCosts pricing costNow hours tenant table
  let modelRows := (grouped modelOf rows).mergeSort fun a b => b.2.requests ≤ a.2.requests
  { hours := hours
    today := summarize pricing tenant (grouped modelOf (since (now / 86400 * 86400) tenant table))
    total := summarize pricing tenant modelRows
    trend := hourRows.map fun r =>
      { r.2.summary ((trendCosts.lookup r.1).getD 0) with
        ts := r.1
        label := hourLabel r.1 }
    models := modelRows.map fun r =>
      { r.2.summary (r.2.cost pricing r.1 tenant) with
        model := r.1
        cacheHitRate := r.2.cacheHitRate }
    selectedTenant := tenant }

variable {pricing} {tenant : Option String} {model : String}

theorem modelCost_eq (p c : ℤ) :
    modelCost pricing model tenant p c =
      (p * (pricing.lookup model tenant).prompt +
        c * (pricing.lookup model tenant).completion) / 1000000 := by
  by_cases hzero : (pricing.lookup model tenant).isZero = true
  · have hprices := hzero
    simp only [PriceEntry.isZero, Float64.isZero, Bool.and_eq_true, decide_eq_true_eq] at hprices
    simp [modelCost, PricingConfig.costUsd, hzero, hprices.1, hprices.2]
  · simp only [modelCost, PricingConfig.costUsd, if_neg hzero, Option.getD_some, Float64.ofI64]
    ring

def rowCost (pricing : PricingConfig ℚ) (tenant : Option String) (row : AuditRow) : ℚ :=
  modelCost pricing (modelOf row) tenant (row.figures .promptTokens) (row.figures .completionTokens)

theorem cost_of {rows : List AuditRow} (hmodel : ∀ row ∈ rows, modelOf row = model) :
    (Sums.of rows).cost pricing model tenant = (rows.map (rowCost pricing tenant)).sum := by
  induction rows with
  | nil => simp [Sums.cost, Sums.of, sumOf, modelCost_eq]
  | cons row rows ih =>
    rw [forall_mem_cons] at hmodel
    rw [map_cons, sum_cons, ← ih hmodel.2]
    simp only [Sums.cost, Sums.of, sumOf, rowCost, hmodel.1, modelCost_eq, map_cons, sum_cons]
    push_cast
    ring

/-- Whatever groups a query makes, as long as a group is of one model, their costs add up to those
of the rows. -/
theorem sum_cost_grouped {K : Type} [DecidableEq K] (key : AuditRow → K) (of : K → String)
    (hmodel : ∀ row, of (key row) = modelOf row) (rows : List AuditRow) :
    ((grouped key rows).map fun r => r.2.cost pricing (of r.1) tenant).sum =
      (rows.map (rowCost pricing tenant)).sum := by
  rw [← sum_groups key, grouped, map_map]
  congr 1
  refine map_congr_left fun k _ => cost_of fun row hrow => ?_
  have hkey : key row = k := by simpa using (mem_filter.mp hrow).2
  rw [← hmodel, hkey]

/-! ## The views add up -/

inductive UsageCount where
  | requests
  | errors
  | promptTokens
  | completionTokens
  | cachedTokens

def UsageSummary.count (s : UsageSummary) : UsageCount → ℤ
  | .requests => s.requests
  | .errors => s.errors
  | .promptTokens => s.promptTokens
  | .completionTokens => s.completionTokens
  | .cachedTokens => s.cachedTokens

def rowCount (count : UsageCount) (row : AuditRow) : ℤ := ((Sums.of [row]).summary 0).count count

theorem count_of (rows : List AuditRow) (costUsd : ℚ) (count : UsageCount) :
    ((Sums.of rows).summary costUsd).count count = (rows.map (rowCount count)).sum := by
  induction rows with
  | nil => cases count <;> rfl
  | cons row rows ih =>
    rw [map_cons, sum_cons, ← ih]
    cases count <;>
      simp [Sums.of, sumOf, Sums.summary, UsageSummary.count, rowCount, add_sub_add_comm]

theorem sum_count_grouped {K : Type} [DecidableEq K] (key : AuditRow → K) (rows : List AuditRow)
    (costUsd : K × Sums → ℚ) (count : UsageCount) :
    ((grouped key rows).map fun r => (r.2.summary (costUsd r)).count count).sum =
      (rows.map (rowCount count)).sum := by
  rw [← sum_groups key, grouped, map_map]
  congr 1
  exact map_congr_left fun k _ => count_of _ _ count

theorem count_summarize (rows : List (String × Sums)) (count : UsageCount) :
    (summarize pricing tenant rows).count count =
      (rows.map fun r => (r.2.summary (r.2.cost pricing r.1 tenant)).count count).sum := by
  induction rows with
  | nil => cases count <;> rfl
  | cons r rows ih =>
    rw [map_cons, sum_cons, ← ih]
    cases count <;> simp [summarize, Sums.summary, UsageSummary.count, add_sub_add_comm]

theorem sum_map_mergeSort {α M : Type} [AddCommMonoid M] (l : List α) (le : α → α → Bool)
    (f : α → M) : ((l.mergeSort le).map f).sum = (l.map f).sum :=
  ((mergeSort_perm l le).map f).sum_eq

section

variable {M : Type} [AddCommMonoid M] (f : UsageSummary → M) (now costNow : ℤ)
  (hours : Option ℤ) (table : AuditTable ℚ)

theorem sum_models :
    ((adminApiUsage pricing now costNow hours tenant table).models.map fun r =>
        f r.toUsageSummary).sum =
      ((grouped modelOf (since (windowStart now (clampHours 168 hours)) tenant table)).map fun r =>
        f (r.2.summary (r.2.cost pricing r.1 tenant))).sum := by
  simp only [adminApiUsage, map_map]
  exact sum_map_mergeSort _ _ _

theorem sum_trend :
    ((adminApiUsage pricing now costNow hours tenant table).trend.map fun p =>
        f p.toUsageSummary).sum =
      ((grouped hourOf (since (windowStart now (clampHours 168 hours)) tenant table)).map fun r =>
        f (r.2.summary (((hourlyCosts pricing costNow (clampHours 168 hours) tenant table).lookup
          r.1).getD 0))).sum := by
  simp only [adminApiUsage, map_map]
  exact sum_map_mergeSort _ _ _

theorem total_cost :
    (adminApiUsage pricing now costNow hours tenant table).total.costUsd =
      ((since (windowStart now (clampHours 168 hours)) tenant table).map
        (rowCost pricing tenant)).sum :=
  (sum_map_mergeSort _ _ _).trans (sum_cost_grouped modelOf id (fun _ => rfl) _)

end

/-- In one hour of the clock the total, the rows per model and the points of the trend agree on
every count and on the cost. -/
theorem usage_views_reconcile (pricing : PricingConfig ℚ) (table : AuditTable ℚ)
    (hours : Option ℤ) (tenant : Option String) {now costNow : ℤ}
    (hclock : costNow / 3600 = now / 3600) :
    let screen := adminApiUsage pricing now costNow hours tenant table
    (∀ count, screen.total.count count = (screen.models.map fun r => r.count count).sum ∧
      screen.total.count count = (screen.trend.map fun p => p.count count).sum) ∧
    screen.total.costUsd = (screen.models.map fun r => r.costUsd).sum ∧
    screen.total.costUsd = (screen.trend.map fun p => p.costUsd).sum := by
  intro screen
  have htotal : ∀ count, screen.total.count count =
      ((since (windowStart now (clampHours 168 hours)) tenant table).map (rowCount count)).sum := by
    intro count
    refine (count_summarize _ count).trans ((sum_map_mergeSort _ _ _).trans ?_)
    exact sum_count_grouped _ _ _ count
  refine ⟨fun count => ⟨?_, ?_⟩, ?_, ?_⟩
  · exact (htotal count).trans ((sum_models (fun s => s.count count) now costNow hours
      table).trans (sum_count_grouped _ _ _ count)).symm
  · exact (htotal count).trans ((sum_trend (fun s => s.count count) now costNow hours
      table).trans (sum_count_grouped _ _ _ count)).symm
  · exact (sum_map_mergeSort _ _ _).trans (sum_models UsageSummary.costUsd now costNow hours
      table).symm
  · have hstart : windowStart costNow (clampHours 168 hours) =
        windowStart now (clampHours 168 hours) := by
      rw [windowStart, hclock, windowStart]
    refine (total_cost now costNow hours table).trans (Eq.symm ?_)
    refine (sum_trend UsageSummary.costUsd now costNow hours table).trans ?_
    -- The map of the costs has an entry for every hour of the trend.
    rw [grouped, map_map, hourlyCosts, hstart]
    refine (sum_totals _ _ _ (nodup_dedup _) ?_).trans
      (sum_cost_grouped (fun row => (hourOf row, modelOf row)) Prod.snd (fun _ => rfl) _)
    intro r hr
    obtain ⟨k, hk, rfl⟩ := mem_map.mp hr
    obtain ⟨row, hrow, rfl⟩ := mem_groups.mp hk
    exact mem_groups.mpr ⟨row, hrow, rfl⟩

/-- A row of the first hour of 1970. -/
def hourRow (model tenantId cacheSource : String) (figures : Figure → ℤ) : AuditRow where
  dims := ⟨0, model, "p", "k", cacheSource, "", "", "", tenantId⟩
  figures := figures
  costUsd := 0

def twoHours : AuditTable ℚ :=
  (KeyedTable.single (hourRow "m" "t" "" fun _ => 1000000)).upsert
    { hourRow "n" "t" "" (fun _ => 5) with dims := ⟨3600, "n", "p", "k", "", "", "", "", "t"⟩ }

theorem two_hours_reconcile :
    let screen := adminApiUsage tenantTable 3600 3601 none (some "t") twoHours
    screen.total.costUsd = (screen.trend.map fun p => p.costUsd).sum ∧
      screen.total.requests = (screen.models.map fun r => r.requests).sum := by
  obtain ⟨hcounts, -, hcost⟩ := usage_views_reconcile tenantTable twoHours none (some "t")
    (by decide : (3601 : ℤ) / 3600 = 3600 / 3600)
  exact ⟨hcost, (hcounts .requests).1⟩

end Dashboard

end LlmProxy
