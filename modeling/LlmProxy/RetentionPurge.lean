import LlmProxy.KeyedTable
import Mathlib.Algebra.Order.Ring.Int
import Mathlib.Logic.Function.Basic

/-!
# Purging expired rows

`purge_expired` of `db_maintenance.rs` over the retention policies.  The columns that there are come
from the migrations, and the unit of a time from the code that writes it.
-/

namespace LlmProxy

open List

namespace Retention

inductive PurgedTable where
  | requestLog
  | auditHourly
  | uiEventLog
  | alertEvent
  deriving DecidableEq

namespace PurgedTable

def name : PurgedTable → String
  | requestLog => "request_log"
  | auditHourly => "audit_hourly"
  | uiEventLog => "ui_event_log"
  | alertEvent => "alert_event"

def columns : PurgedTable → List String
  | requestLog =>
    ["id", "ts", "client_ip", "model", "pool_id", "key_hash", "upstream", "status_code",
      "latency_ms", "prompt_tokens", "completion_tokens", "total_tokens", "is_stream", "error",
      "cached_tokens", "cache_creation_tokens", "cache_source", "reasoning_tokens",
      "audio_tokens", "ttft_ms", "upstream_model", "system_fingerprint", "finish_reason",
      "error_code", "retry_count", "tenant_id", "user_agent", "cost_usd"]
  | auditHourly =>
    ["hour", "model", "pool_id", "key_hash", "cache_source", "error_code", "finish_reason",
      "upstream_model", "tenant_id", "request_count", "success_count", "retry_total",
      "prompt_tokens", "completion_tokens", "total_tokens", "cached_tokens", "reasoning_tokens",
      "audio_tokens", "cost_usd", "latency_ms_sum", "ttft_ms_sum", "stream_count"]
  | uiEventLog => ["id", "event_name", "user_id", "page", "metadata", "created_at"]
  | alertEvent =>
    ["id", "ts", "type", "pool_id", "tenant_id", "key_hash", "model", "error_code", "status",
      "msg", "payload"]

/-- The column with the time of the event, and the milliseconds in a unit of it. -/
def clock : PurgedTable → String × ℤ
  | requestLog => ("ts", 1)
  | auditHourly => ("hour", 1000)
  | uiEventLog => ("created_at", 1)
  | alertEvent => ("ts", 1000)

end PurgedTable

/-- The integer columns of a row. -/
abbrev Row := String → ℤ

abbrev Database := PurgedTable → List Row

structure Policy where
  tableName : String
  retentionDays : ℤ

def deleteBefore (table : PurgedTable) (column : String) (cutoff : ℤ) (rows : List Row) :
    Except String (List Row) :=
  if column ∈ table.columns then .ok (rows.filter fun row => ¬ row column < cutoff)
  else .error ("no such column: " ++ column)

/-- The tables `purge_expired` knows; all cutoffs are in milliseconds. -/
def timestampColumn : String → Option (PurgedTable × String × Bool)
  | "request_log" => some (.requestLog, "ts", true)
  | "audit_hourly" => some (.auditHourly, "hour_ts", true)
  | "ui_event_log" => some (.uiEventLog, "created_at", true)
  | "alert_event" => some (.alertEvent, "created_at", true)
  | _ => none

def wrapI64 (n : ℤ) : ℤ := n.bmod (2 ^ 64)

def cutoff (nowMs retentionDays : ℤ) (isMs : Bool) : ℤ :=
  if isMs then wrapI64 (nowMs - wrapI64 (retentionDays * 86400000))
  else wrapI64 (nowMs / 1000 - wrapI64 (retentionDays * 86400))

/-- A statement that fails is logged and leaves its table. -/
def purgePolicy (nowMs : ℤ) (db : Database) (policy : Policy) : Database :=
  match timestampColumn policy.tableName with
  | none => db
  | some (table, column, isMs) =>
    match deleteBefore table column (cutoff nowMs policy.retentionDays isMs) (db table) with
    | .error _ => db
    | .ok rows => Function.update db table rows

/-- One policy after the other. -/
def purgeExpired (nowMs : ℤ) (policies : KeyedTable Policy.tableName) (db : Database) : Database :=
  policies.rows.foldl (purgePolicy nowMs) db

/-- More than so many days before now, in the unit of the table's writers. -/
def Expired (nowMs retentionDays : ℤ) (table : PurgedTable) (row : Row) : Prop :=
  retentionDays * 86400000 < nowMs - row table.clock.1 * table.clock.2

instance (nowMs retentionDays : ℤ) (table : PurgedTable) (row : Row) :
    Decidable (Expired nowMs retentionDays table row) :=
  inferInstanceAs (Decidable (_ < _))

/-! ## What a policy does to its table -/

variable {nowMs : ℤ} {db : Database} {policy : Policy} {table : PurgedTable}

/-- The column is there for two of the tables only. -/
def purged (nowMs retentionDays : ℤ) (table : PurgedTable) (rows : List Row) : List Row :=
  match table with
  | .requestLog | .uiEventLog =>
    rows.filter fun row => ¬ row table.clock.1 < cutoff nowMs retentionDays true
  | .auditHourly | .alertEvent => rows

theorem purgePolicy_own (hname : policy.tableName = table.name) :
    purgePolicy nowMs db policy table = purged nowMs policy.retentionDays table (db table) := by
  cases table <;> simp [purgePolicy, hname, PurgedTable.name, timestampColumn, deleteBefore,
    PurgedTable.columns, purged, PurgedTable.clock]

theorem name_of_timestampColumn {tableName column : String} {isMs : Bool}
    (hcolumn : timestampColumn tableName = some (table, column, isMs)) :
    tableName = table.name := by
  unfold timestampColumn at hcolumn
  split at hcolumn <;> cases hcolumn <;> rfl

theorem purgePolicy_other (hother : policy.tableName ≠ table.name) :
    purgePolicy nowMs db policy table = db table := by
  cases hcolumn : timestampColumn policy.tableName with
  | none => simp only [purgePolicy, hcolumn]
  | some target =>
    obtain ⟨other, column, isMs⟩ := target
    have hne : table ≠ other := by
      rintro rfl
      exact hother (name_of_timestampColumn hcolumn)
    simp only [purgePolicy, hcolumn]
    cases deleteBefore other column (cutoff nowMs policy.retentionDays isMs) (db other) with
    | error => rfl
    | ok => exact Function.update_of_ne hne _ _

theorem foldl_purgePolicy_other {policies : List Policy}
    (hother : ∀ policy ∈ policies, policy.tableName ≠ table.name) :
    policies.foldl (purgePolicy nowMs) db table = db table := by
  induction policies generalizing db with
  | nil => rfl
  | cons policy policies ih =>
    rw [forall_mem_cons] at hother
    rw [foldl_cons, ih hother.2, purgePolicy_other hother.1]

theorem purgeExpired_table {policies : KeyedTable Policy.tableName} (hmem : policy ∈ policies.rows)
    (hname : policy.tableName = table.name) :
    purgeExpired nowMs policies db table = purged nowMs policy.retentionDays table (db table) := by
  obtain ⟨before, after, hsplit⟩ := append_of_mem hmem
  have hnodup := policies.nodup
  simp only [hsplit, map_append, map_cons, nodup_append, nodup_cons, mem_cons, mem_map] at hnodup
  rw [purgeExpired, hsplit, foldl_append, foldl_cons, foldl_purgePolicy_other,
    purgePolicy_own hname, foldl_purgePolicy_other]
  · intro other hother hsame
    exact hnodup.2.2 _ ⟨other, hother, rfl⟩ _ (.inl rfl) (hsame.trans hname.symm)
  · intro other hother hsame
    exact hnodup.2.1.1 ⟨other, hother, hsame.trans hname.symm⟩

theorem cutoff_eq {retentionDays : ℤ} (hdays : 0 ≤ retentionDays) (hnow : nowMs < 2 ^ 63)
    (hfits : -2 ^ 63 ≤ nowMs - retentionDays * 86400000) :
    cutoff nowMs retentionDays true = nowMs - retentionDays * 86400000 := by
  have hinner : wrapI64 (nowMs - wrapI64 (retentionDays * 86400000)) =
      wrapI64 (nowMs - retentionDays * 86400000) := Int.sub_bmod_bmod
  rw [cutoff, hinner]
  apply Int.bmod_eq_of_le
  · simpa using hfits
  · have hhalf : (((2 ^ 64 : ℕ) : ℤ) + 1) / 2 = 2 ^ 63 := by decide
    omega

theorem le_cutoff {retentionDays : ℤ} (hdays : 0 ≤ retentionDays) (hnow : nowMs < 2 ^ 63) :
    nowMs - retentionDays * 86400000 ≤ cutoff nowMs retentionDays true := by
  by_cases hfits : -2 ^ 63 ≤ nowMs - retentionDays * 86400000
  · exact (cutoff_eq hdays hnow hfits).ge
  · have hwrapped : -2 ^ 63 ≤ cutoff nowMs retentionDays true :=
      Int.le_bmod (m := 2 ^ 64) (by decide)
    omega

/-- The rows that go are the expired ones exactly if, for the two tables whose column the purge
names, the cutoff fits into 64 bits or its wrapped value is above expired rows only, and if nothing
is expired in the two others. -/
theorem purge_exact_iff {policies : KeyedTable Policy.tableName} (hmem : policy ∈ policies.rows)
    (hname : policy.tableName = table.name) (hdays : 0 ≤ policy.retentionDays)
    (hnow : nowMs < 2 ^ 63) :
    purgeExpired nowMs policies db table =
        (db table).filter (fun row => ¬ Expired nowMs policy.retentionDays table row) ↔
      (table = .requestLog ∨ table = .uiEventLog →
        -2 ^ 63 ≤ nowMs - policy.retentionDays * 86400000 ∨
          ∀ row ∈ db table, row table.clock.1 < cutoff nowMs policy.retentionDays true →
            Expired nowMs policy.retentionDays table row) ∧
      (table = .auditHourly ∨ table = .alertEvent →
        ∀ row ∈ db table, ¬ Expired nowMs policy.retentionDays table row) := by
  have hms : table.clock.2 = 1 →
      ((db table).filter (fun row => ¬ row table.clock.1 < cutoff nowMs policy.retentionDays true) =
          (db table).filter (fun row => ¬ Expired nowMs policy.retentionDays table row) ↔
        -2 ^ 63 ≤ nowMs - policy.retentionDays * 86400000 ∨
          ∀ row ∈ db table, row table.clock.1 < cutoff nowMs policy.retentionDays true →
            Expired nowMs policy.retentionDays table row) := by
    intro hunit
    simp only [Expired, hunit]
    constructor
    · intro hsame
      refine .inr fun row hrow hbelow => ?_
      have hiff := iff_of_eq (congrArg (row ∈ ·) hsame)
      simp only [mem_filter, hrow, true_and, decide_eq_true_eq] at hiff
      exact not_imp_not.mp hiff.mpr hbelow
    · intro hcut
      refine filter_congr fun row hrow => decide_eq_decide.mpr (not_congr ⟨fun hbelow => ?_, ?_⟩)
      · rcases hcut with hfits | hcut
        · rw [cutoff_eq hdays hnow hfits] at hbelow
          omega
        · exact hcut row hrow hbelow
      · have hle := le_cutoff hdays hnow
        omega
  have hkept : db table =
        (db table).filter (fun row => ¬ Expired nowMs policy.retentionDays table row) ↔
      ∀ row ∈ db table, ¬ Expired nowMs policy.retentionDays table row := by
    rw [eq_comm, filter_eq_self]
    simp only [decide_eq_true_eq]
  rw [purgeExpired_table hmem hname]
  cases table with
  | auditHourly => simpa [purged] using hkept
  | alertEvent => simpa [purged] using hkept
  | _ => simpa [purged] using hms rfl

def defaultPolicies : KeyedTable Policy.tableName :=
  ⟨[⟨"request_log", 90⟩, ⟨"audit_hourly", 365⟩, ⟨"audit_trail", 730⟩, ⟨"ui_event_log", 90⟩,
    ⟨"alert_event", 365⟩], by decide⟩

/-- Every table has one row, of the beginning of 1970. -/
def oldRows : Database := fun _ => [fun _ => 0]

def year2026 : ℤ := 1767225600000

theorem old_requests_purged :
    purgeExpired year2026 defaultPolicies oldRows .requestLog =
      (oldRows .requestLog).filter fun row => ¬ Expired year2026 90 .requestLog row := by
  have hmem : (⟨"request_log", 90⟩ : Policy) ∈ defaultPolicies.rows := mem_cons_self
  exact (purge_exact_iff hmem rfl (by decide) (by decide)).mpr
    ⟨fun _ => .inl (by decide), by simp⟩

theorem old_hours_and_alerts_stay :
    (∀ row ∈ oldRows .auditHourly, Expired year2026 365 .auditHourly row) ∧
    purgeExpired year2026 defaultPolicies oldRows .auditHourly = oldRows .auditHourly ∧
    (∀ row ∈ oldRows .alertEvent, Expired year2026 365 .alertEvent row) ∧
    purgeExpired year2026 defaultPolicies oldRows .alertEvent = oldRows .alertEvent :=
  ⟨by decide, rfl, by decide, rfl⟩

end Retention

end LlmProxy
