import LlmProxy.UsageScreen

/-!
# The cost screens

The cost overview (`query_cost` and the total cost of `query_cost_stats` in `dashboard/cost.rs`) and
the figures of the drill-down (`query_drilldown` in `dashboard/cost_drilldown.rs`), with exact
rationals for floats.  Charts are left out.
-/

namespace LlmProxy

namespace Dashboard

open Grouping List

/-! ## The cost overview -/

def windowEnd (now : ℤ) : ℤ := (now / 3600 + 1) * 3600

def between (start stop : ℤ) : Option String → AuditTable ℚ → List AuditRow :=
  selected fun hour => start ≤ hour && hour < stop

def tenantOf (row : AuditRow) : String := row.dims.tenantId

section

variable (pricing : PricingConfig ℚ) (now : ℤ) (hours : Option ℤ) (tenant : Option String)
  (table : AuditTable ℚ)

def costWindow : List AuditRow :=
  between (windowStart now (clampHours 24 hours)) (windowEnd now) tenant table

/-- The groups of `query_cost`, with the unbounded sums of `sumOf`. -/
def costGroups : List ((String × String) × Sums) :=
  grouped (fun row => (modelOf row, row.dims.poolId)) (costWindow now hours tenant table)

def costRow (r : (String × String) × Sums) : CostRow where
  model := r.1.1.toList
  poolId := r.1.2.toList
  promptTokens := r.2.promptTokens
  completionTokens := r.2.completionTokens
  cachedTokens := r.2.cachedTokens
  requests := r.2.requests
  errors := r.2.requests - r.2.success
  costUsd :=
    match pricing.costUsd r.1.1 tenant r.2.promptTokens r.2.completionTokens with
    | some c => '$' :: (CostValue.finite (c < 0) |c|).fixed6
    | none => ['?']

/-- One row for each model and pool, in the order of the models. -/
def queryCost : List CostRow :=
  ((costGroups now hours tenant table).mergeSort fun a b => a.1.1 ≤ b.1.1).map
    (costRow pricing tenant)

/-- The sum behind `total_cost`. -/
def costTotal : ℚ :=
  ((queryCost pricing now hours tenant table).map fun r =>
    modelCost pricing (String.ofList r.model) tenant r.promptTokens r.completionTokens).sum

theorem costTotal_eq :
    costTotal pricing now hours tenant table =
      ((costWindow now hours tenant table).map (rowCost pricing tenant)).sum := by
  simp only [costTotal, queryCost, map_map, Function.comp_def, costRow, String.ofList_toList]
  exact (sum_map_mergeSort _ _ _).trans
    (sum_cost_grouped (fun row => (modelOf row, row.dims.poolId)) Prod.fst (fun _ => rfl) _)

end

/-! ## One tenant after the other -/

section

variable {pricing : PricingConfig ℚ} {table : AuditTable ℚ} {tenants : List String}

theorem selected_some (window : ℤ → Bool) (tenant : String) (table : AuditTable ℚ) :
    selected window (some tenant) table = members tenantOf (selected window none table) tenant := by
  simp only [selected, members, ofTenant, tenantOf]
  simp [Bool.and_comm, eq_comm]

theorem sum_tenants (pricing : PricingConfig ℚ) (window : ℤ → Bool) (hnodup : tenants.Nodup)
    (hall : ∀ row ∈ table.rows, tenantOf row ∈ tenants) :
    (tenants.map fun tenant =>
        ((selected window (some tenant) table).map (rowCost pricing (some tenant))).sum).sum =
      ((selected window none table).map fun row =>
        rowCost pricing (some (tenantOf row)) row).sum := by
  have hselected : ∀ row ∈ selected window none table, tenantOf row ∈ tenants :=
    fun row hrow => hall row (mem_filter.mp hrow).1
  rw [← sum_members tenantOf _ hnodup hselected]
  congr 1
  refine map_congr_left fun tenant _ => ?_
  rw [selected_some]
  congr 1
  refine map_congr_left fun row hrow => ?_
  have htenant : tenantOf row = tenant := by simpa using (mem_filter.mp hrow).2
  rw [htenant]

/-- What the row costs its tenant more than without a tenant, a million times. -/
def surcharge (pricing : PricingConfig ℚ) (row : AuditRow) : ℚ :=
  let own := pricing.lookup (modelOf row) (some (tenantOf row))
  let other := pricing.lookup (modelOf row) none
  row.figures .promptTokens * (own.prompt - other.prompt) +
    row.figures .completionTokens * (own.completion - other.completion)

theorem sum_tenants_eq_iff (pricing : PricingConfig ℚ) (window : ℤ → Bool) (hnodup : tenants.Nodup)
    (hall : ∀ row ∈ table.rows, tenantOf row ∈ tenants) :
    ((selected window none table).map (rowCost pricing none)).sum =
        (tenants.map fun tenant =>
          ((selected window (some tenant) table).map (rowCost pricing (some tenant))).sum).sum ↔
      ((selected window none table).map (surcharge pricing)).sum = 0 := by
  rw [sum_tenants pricing window hnodup hall]
  have hdifference : ∀ rows : List AuditRow,
      (rows.map (surcharge pricing)).sum = 1000000 *
        ((rows.map fun row => rowCost pricing (some (tenantOf row)) row).sum -
          (rows.map (rowCost pricing none)).sum) := by
    intro rows
    induction rows with
    | nil => simp
    | cons row rows ih =>
      simp only [map_cons, sum_cons, ih, surcharge, rowCost, modelCost_eq]
      ring
  rw [hdifference, mul_eq_zero, sub_eq_zero, eq_comm]
  norm_num

def tokens (prompt completion cached : ℤ) : Figure → ℤ
  | .promptTokens => prompt
  | .completionTokens => completion
  | .cachedTokens => cached
  | _ => 0

/-- On any content and window a screen shows for all tenants what it shows for the single tenants
together, exactly if the differences between the prices of a tenant and the prices without one come
to zero over the rows of the window. -/
theorem tenant_costs_add_up_iff (pricing : PricingConfig ℚ) (table : AuditTable ℚ)
    (now costNow : ℤ) (hours : Option ℤ) {tenants : List String} (hnodup : tenants.Nodup)
    (hall : ∀ row ∈ table.rows, row.dims.tenantId ∈ tenants) :
    ((adminApiUsage pricing now costNow hours none table).total.costUsd =
        (tenants.map fun tenant =>
          (adminApiUsage pricing now costNow hours (some tenant) table).total.costUsd).sum ↔
      ((since (windowStart now (clampHours 168 hours)) none table).map (surcharge pricing)).sum =
        0) ∧
    (costTotal pricing now hours none table =
        (tenants.map fun tenant => costTotal pricing now hours (some tenant) table).sum ↔
      ((costWindow now hours none table).map (surcharge pricing)).sum = 0) := by
  simp only [total_cost, costTotal_eq, costWindow, between]
  exact ⟨sum_tenants_eq_iff pricing _ hnodup hall, sum_tenants_eq_iff pricing _ hnodup hall⟩

def memberTable : PricingConfig ℚ :=
  ⟨AList.singleton "m" ⟨⟨2, 0⟩, AList.singleton "t" ⟨1, 0⟩⟩⟩

def twoTenants : AuditTable ℚ :=
  (KeyedTable.single (hourRow "m" "u" "" (tokens 1000000 0 0))).upsert
    (hourRow "m" "v" "" (tokens 2000000 0 0))

/-- Tenant t has a price of its own and no row. -/
theorem others_add_up :
    costTotal memberTable 0 none none twoTenants =
        costTotal memberTable 0 none (some "t") twoTenants +
          costTotal memberTable 0 none (some "u") twoTenants +
          costTotal memberTable 0 none (some "v") twoTenants ∧
      costTotal memberTable 0 none none twoTenants = 6 := by
  have hadds := (tenant_costs_add_up_iff memberTable twoTenants 0 0 none
    (by decide : ["t", "u", "v"].Nodup) (by decide)).2.mpr (by decide +kernel)
  exact ⟨by simpa [add_assoc] using hadds, by decide +kernel⟩

theorem tenant_price_missing_in_total :
    (adminApiUsage tenantTable 0 0 none none
        (.single (hourRow "m" "t" "" (tokens 1000000 0 0)))).total.costUsd = 0 ∧
      (adminApiUsage tenantTable 0 0 none (some "t")
        (.single (hourRow "m" "t" "" (tokens 1000000 0 0)))).total.costUsd = 1 ∧
      costTotal tenantTable 0 none none
        (.single (hourRow "m" "t" "" (tokens 1000000 0 0))) = 0 ∧
      costTotal tenantTable 0 none (some "t")
        (.single (hourRow "m" "t" "" (tokens 1000000 0 0))) = 1 := by
  decide +kernel

end

/-! ## The drill-down -/

/-- The share of a cached token that is billed. -/
def cacheDiscount : String → ℚ
  | "OpenAiPromptCache" => 1 / 2
  | "DeepSeekPromptCache" => 1 / 10
  | "AnthropicCacheControl" => 1 / 10
  | "GeminiCachedContent" => 1 / 4
  | _ => 1

/-- `as i64` -/
def truncate (x : ℚ) : ℤ := x.num.tdiv x.den

/-- Requests, successes, billable prompt, completion and cached tokens, latency. -/
abbrev HourTotals := ℤ × ℤ × ℤ × ℤ × ℤ × ℤ

structure DrilldownStats where
  cost : Option ℚ
  hitRate : Option ℚ
  avgLatency : Option ℤ

def sourceOf (row : AuditRow) : ℤ × String := (hourOf row, row.dims.cacheSource)

def discounted (r : (ℤ × String) × Sums) : ℤ :=
  truncate (r.2.cachedTokens * cacheDiscount r.1.2)

def hourTotals (r : (ℤ × String) × Sums) : HourTotals :=
  (r.2.requests, r.2.success, r.2.promptTokens - r.2.cachedTokens + discounted r,
    r.2.completionTokens, r.2.cachedTokens, r.2.latencyMsSum)

def drilldownRows (now : ℤ) (model : String) (tenant : Option String) (table : AuditTable ℚ) :
    List AuditRow :=
  (between (windowStart now 72) (windowEnd now) tenant table).filter fun row => modelOf row = model

/-- The figures of one model over the last 72 hours. -/
def queryDrilldown (pricing : PricingConfig ℚ) (now : ℤ) (model : String) (tenant : Option String)
    (table : AuditTable ℚ) : DrilldownStats :=
  let hourly := totals (fun r => r.1.1) hourTotals
    (grouped sourceOf (drilldownRows now model tenant table))
  let (requests, _, billable, completion, cached, latency) :=
    (hourly.keys.map fun hour => (hourly.lookup hour).getD 0).sum
  let price := pricing.lookup model tenant
  let promptPrice := price.prompt / 1000000
  let completionPrice := price.completion / 1000000
  let totalPrompt := billable + cached
  { cost :=
      if 0 < promptPrice ∨ 0 < completionPrice then
        some (billable * promptPrice + completion * completionPrice)
      else none
    hitRate := if 0 < totalPrompt then some (cached / totalPrompt * 100) else none
    avgLatency := if 0 < requests then some (latency.tdiv requests) else none }

/-- The cached tokens as they are billed, group by group. -/
def discountedTokens (rows : List AuditRow) : ℤ := ((grouped sourceOf rows).map discounted).sum

theorem sum_grouped (figure : Figure) (rows : List AuditRow) :
    ((groups sourceOf rows).map fun k => sumOf figure (members sourceOf rows k)).sum =
      sumOf figure rows :=
  sum_groups sourceOf _ rows

theorem hitRate_queryDrilldown (pricing : PricingConfig ℚ) (now : ℤ) (model : String)
    (tenant : Option String) (table : AuditTable ℚ) :
    (queryDrilldown pricing now model tenant table).hitRate =
      let rows := drilldownRows now model tenant table
      if 0 < sumOf .promptTokens rows + discountedTokens rows then
        some (sumOf .cachedTokens rows /
          ((sumOf .promptTokens rows + discountedTokens rows : ℤ) : ℚ) * 100)
      else none := by
  have hparts : ∀ groups : List ((ℤ × String) × Sums),
      (groups.map hourTotals).sum.2.2.1 + (groups.map hourTotals).sum.2.2.2.2.1 =
          (groups.map fun r => r.2.promptTokens).sum + (groups.map discounted).sum ∧
        (groups.map hourTotals).sum.2.2.2.2.1 = (groups.map fun r => r.2.cachedTokens).sum := by
    intro groups
    induction groups with
    | nil => exact ⟨rfl, rfl⟩
    | cons r groups ih =>
      simp only [map_cons, sum_cons, Prod.snd_add, Prod.fst_add, hourTotals] at ih ⊢
      omega
  have hprompt := sum_grouped .promptTokens (drilldownRows now model tenant table)
  have hcached := sum_grouped .cachedTokens (drilldownRows now model tenant table)
  obtain ⟨htotal, hhits⟩ := hparts (grouped sourceOf (drilldownRows now model tenant table))
  simp only [queryDrilldown, sum_values_totals]
  rw [htotal, hhits, discountedTokens]
  simp only [grouped, map_map, Function.comp_def, Sums.of] at hprompt hcached ⊢
  rw [hprompt, hcached]

theorem rates_eq_iff {cached prompt billed : ℤ} :
    (if 0 < prompt + billed then (cached : ℚ) / ((prompt + billed : ℤ) : ℚ) * 100 else 0) =
        (if 0 < prompt then (cached : ℚ) / prompt * 100 else 0) ↔
      cached = 0 ∨ billed = 0 ∨ prompt ≤ 0 ∧ prompt + billed ≤ 0 := by
  have hzero : ∀ {total : ℤ}, 0 < total →
      ((cached : ℚ) / (total : ℚ) * 100 = 0 ↔ cached = 0) := by
    intro total htotal
    have hne : (total : ℚ) ≠ 0 := by exact_mod_cast htotal.ne'
    simp [hne]
  by_cases hprompt : 0 < prompt
  · by_cases htotal : 0 < prompt + billed
    · have hne : (prompt : ℚ) ≠ 0 := by exact_mod_cast hprompt.ne'
      have hne' : ((prompt + billed : ℤ) : ℚ) ≠ 0 := by exact_mod_cast htotal.ne'
      rw [if_pos htotal, if_pos hprompt, mul_left_inj' (by norm_num), div_eq_div_iff hne' hne]
      have hscaled : (cached : ℚ) * prompt = cached * ((prompt + billed : ℤ) : ℚ) ↔
          cached * billed = 0 := by
        rw [← Int.cast_inj (α := ℚ)]
        push_cast
        constructor
        · intro hmul
          linarith
        · intro hmul
          linarith
      rw [hscaled, mul_eq_zero]
      omega
    · rw [if_neg htotal, if_pos hprompt, eq_comm, hzero hprompt]
      omega
  · by_cases htotal : 0 < prompt + billed
    · rw [if_pos htotal, if_neg hprompt, hzero htotal]
      omega
    · rw [if_neg htotal, if_neg hprompt]
      exact iff_of_true rfl (by omega)

/-- Over the rows that the usage screen counts for the model in the same 72 hours, the hit rates
agree only if nothing is cached, all of it is free, or there is no prompt to speak of. -/
theorem hitRate_eq_usage_iff {pricing : PricingConfig ℚ} {table : AuditTable ℚ} {now costNow : ℤ}
    {tenant : Option String} {row : UsageModelRow}
    (hrow : row ∈ (adminApiUsage pricing now costNow (some 72) tenant table).models)
    (hwindow : ∀ row ∈ table.rows, row.dims.hour < windowEnd now) :
    let rows := drilldownRows now row.model tenant table
    (queryDrilldown pricing now row.model tenant table).hitRate.getD 0 = row.cacheHitRate ↔
      sumOf .cachedTokens rows = 0 ∨ discountedTokens rows = 0 ∨
        sumOf .promptTokens rows ≤ 0 ∧
          sumOf .promptTokens rows + discountedTokens rows ≤ 0 := by
  intro rows
  have hsame : members modelOf (since (windowStart now 72) tenant table) row.model = rows := by
    have hfilter : since (windowStart now 72) tenant table =
        between (windowStart now 72) (windowEnd now) tenant table := by
      refine filter_congr fun row hmem => ?_
      simp [hwindow row hmem]
    rw [hfilter]
    rfl
  have hrate : row.cacheHitRate = (Sums.of rows).cacheHitRate := by
    obtain ⟨r, hr, rfl⟩ := mem_map.mp hrow
    obtain ⟨k, -, rfl⟩ := mem_map.mp ((mergeSort_perm _ _).mem_iff.mp hr)
    rw [← hsame]
    rfl
  rw [hitRate_queryDrilldown, hrate, ← rates_eq_iff]
  simp only [apply_ite (fun rate : Option ℚ => rate.getD 0)]
  rfl

def oneRow (cacheSource : String) (cached : ℤ) : AuditTable ℚ :=
  .single (hourRow "m" "t" cacheSource (tokens 100 0 cached))

/-- A tenth of five tokens is billed as none. -/
theorem truncated_rates_agree :
    (queryDrilldown tenantTable 0 "m" none (oneRow "DeepSeekPromptCache" 5)).hitRate.getD 0 =
      5 := by
  have hrow : (⟨⟨0, 0, 100, 0, 5, 0, 0⟩, "m", 5⟩ : UsageModelRow) ∈
      (adminApiUsage tenantTable 0 0 (some 72) none (oneRow "DeepSeekPromptCache" 5)).models := by
    decide +kernel
  exact (hitRate_eq_usage_iff hrow (by decide)).mpr (.inr (.inl (by decide +kernel)))

theorem discounted_rates_differ :
    (queryDrilldown tenantTable 0 "m" none (oneRow "OpenAiPromptCache" 50)).hitRate =
        some 40 ∧
      ((adminApiUsage tenantTable 0 0 (some 72) none
        (oneRow "OpenAiPromptCache" 50)).models.map fun row => row.cacheHitRate) = [50] := by
  decide +kernel

end Dashboard

end LlmProxy
