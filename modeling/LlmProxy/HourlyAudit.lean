import LlmProxy.Grouping
import LlmProxy.KeyedTable
import Mathlib.Algebra.Ring.Int.Defs

/-!
# The hourly audit

`aggregate_last_hour` of `aggregator/mod.rs` is one statement: the rows that `request_log` has for
an hour are grouped by their dimensions, and for each group a row of sums is written over the row
that `audit_hourly` has for these dimensions.
-/

namespace LlmProxy

open Grouping List

/-- Columns of the log that the statement does not read are left out. -/
structure LoggedRow (Cost : Type) where
  ts : ℤ
  model : String
  poolId : String
  keyHash : String
  cacheSource : Option String := none
  errorCode : Option String := none
  finishReason : Option String := none
  upstreamModel : Option String := none
  tenantId : Option String := none
  statusCode : Option ℤ := none
  retryCount : Option ℤ := none
  promptTokens : Option ℤ := none
  completionTokens : Option ℤ := none
  totalTokens : Option ℤ := none
  cachedTokens : Option ℤ := none
  reasoningTokens : Option ℤ := none
  audioTokens : Option ℤ := none
  costUsd : Option Cost := none
  latencyMs : Option ℤ := none
  ttftMs : Option ℤ := none
  isStream : ℤ := 0

/-- The columns of the `UNIQUE` constraint of `audit_hourly`. -/
structure Dimensions where
  hour : ℤ
  model : String
  poolId : String
  keyHash : String
  cacheSource : String
  errorCode : String
  finishReason : String
  upstreamModel : String
  tenantId : String
  deriving DecidableEq

inductive Figure where
  | requestCount
  | successCount
  | retryTotal
  | promptTokens
  | completionTokens
  | totalTokens
  | cachedTokens
  | reasoningTokens
  | audioTokens
  | latencyMsSum
  | ttftMsSum
  | streamCount

structure AuditHourly (Cost : Type) where
  dims : Dimensions
  figures : Figure → ℤ
  costUsd : Cost

abbrev AuditTable (Cost : Type) := KeyedTable (@AuditHourly.dims Cost)

variable {Cost : Type}

namespace LoggedRow

def dims (hour : ℤ) (row : LoggedRow Cost) : Dimensions where
  hour := hour
  model := row.model
  poolId := row.poolId
  keyHash := row.keyHash
  cacheSource := row.cacheSource.getD ""
  errorCode := row.errorCode.getD ""
  finishReason := row.finishReason.getD ""
  upstreamModel := row.upstreamModel.getD ""
  tenantId := row.tenantId.getD "default"

def figure (row : LoggedRow Cost) : Figure → ℤ
  | .requestCount => 1
  | .successCount => if row.statusCode.any fun code => 200 ≤ code ∧ code < 300 then 1 else 0
  | .retryTotal => row.retryCount.getD 0
  | .promptTokens => row.promptTokens.getD 0
  | .completionTokens => row.completionTokens.getD 0
  | .totalTokens => row.totalTokens.getD 0
  | .cachedTokens => row.cachedTokens.getD 0
  | .reasoningTokens => row.reasoningTokens.getD 0
  | .audioTokens => row.audioTokens.getD 0
  | .latencyMsSum => row.latencyMs.getD 0
  | .ttftMsSum => row.ttftMs.getD 0
  | .streamCount => if row.isStream ≠ 0 then 1 else 0

/-- `hour` is in seconds, `ts` in milliseconds. -/
def InHour (hour : ℤ) (row : LoggedRow Cost) : Prop :=
  hour * 1000 ≤ row.ts ∧ row.ts < (hour + 3600) * 1000

instance (hour : ℤ) (row : LoggedRow Cost) : Decidable (row.InHour hour) :=
  inferInstanceAs (Decidable (_ ∧ _))

end LoggedRow

def hourRows (hour : ℤ) (log : List (LoggedRow Cost)) : List (LoggedRow Cost) :=
  log.filter fun row => row.InHour hour

variable {rows : List (LoggedRow Cost)}

theorem hour_of_mem_groups {hour : ℤ} {dims : Dimensions}
    (hdims : dims ∈ groups (LoggedRow.dims hour) rows) : dims.hour = hour := by
  obtain ⟨row, -, rfl⟩ := mem_groups.mp hdims
  rfl

section

variable [Zero Cost] [Add Cost]

/-- A group of `aggregate_hour`, with unbounded sums; `SUM` fails in SQLite beyond 64 bits. -/
def auditRow (hour : ℤ) (rows : List (LoggedRow Cost)) (dims : Dimensions) : AuditHourly Cost where
  dims := dims
  figures := fun figure =>
    ((members (LoggedRow.dims hour) rows dims).map fun row => row.figure figure).sum
  costUsd := (members (LoggedRow.dims hour) rows dims).foldl
    (fun cost row => cost + row.costUsd.getD 0) 0

def auditRows (hour : ℤ) (rows : List (LoggedRow Cost)) : List (AuditHourly Cost) :=
  (groups (LoggedRow.dims hour) rows).map (auditRow hour rows)

def aggregateHour (hour : ℤ) (log : List (LoggedRow Cost)) (table : AuditTable Cost) :
    AuditTable Cost :=
  table.upsertAll (auditRows hour (hourRows hour log))

/-- `now` is in seconds. -/
def lastHour (now : ℤ) : ℤ := (now / 3600 - 1) * 3600

/-- The hour before the one of `now`. -/
def aggregateLastHour (now : ℤ) (log : List (LoggedRow Cost)) (table : AuditTable Cost) :
    AuditTable Cost :=
  aggregateHour (lastHour now) log table

/-- The rows of an hour stem from earlier runs, which found some of the rows the log has now. -/
inductive Stems (hour : ℤ) (log : List (LoggedRow Cost)) : AuditTable Cost → Prop
  | fresh {table : AuditTable Cost} (hnone : ∀ row ∈ table.rows, row.dims.hour ≠ hour) :
      Stems hour log table
  | run {table : AuditTable Cost} (hstems : Stems hour log table) {earlier : List (LoggedRow Cost)}
      (hsubset : hourRows hour earlier ⊆ hourRows hour log) :
      Stems hour log (aggregateHour hour earlier table)
  | other {table : AuditTable Cost} (hstems : Stems hour log table) {another : ℤ}
      (hother : another ≠ hour) (earlier : List (LoggedRow Cost)) :
      Stems hour log (aggregateHour another earlier table)

def AuditTable.ofHour (hour : ℤ) (table : AuditTable Cost) : List (AuditHourly Cost) :=
  table.rows.filter fun row => row.dims.hour = hour

variable {hour : ℤ} {log : List (LoggedRow Cost)} {table : AuditTable Cost}

theorem dims_auditRows (hour : ℤ) (rows : List (LoggedRow Cost)) :
    (auditRows hour rows).map AuditHourly.dims = groups (LoggedRow.dims hour) rows := by
  rw [auditRows, map_map]
  exact map_id' _

variable {bucket : AuditHourly Cost}

theorem mem_auditRows :
    bucket ∈ auditRows hour rows ↔
      bucket.dims ∈ groups (LoggedRow.dims hour) rows ∧
        bucket = auditRow hour rows bucket.dims := by
  rw [auditRows, mem_map]
  constructor
  · rintro ⟨dims, hdims, rfl⟩
    exact ⟨hdims, rfl⟩
  · rintro ⟨hdims, hbucket⟩
    exact ⟨bucket.dims, hdims, hbucket.symm⟩

theorem nodup_auditRows (hour : ℤ) (rows : List (LoggedRow Cost)) :
    ((auditRows hour rows).map AuditHourly.dims).Nodup := by
  rw [dims_auditRows]
  exact nodup_dedup _

theorem mem_aggregateHour :
    bucket ∈ (aggregateHour hour log table).rows ↔ bucket ∈ auditRows hour (hourRows hour log) ∨
      bucket ∈ table.rows ∧ bucket.dims ∉ groups (LoggedRow.dims hour) (hourRows hour log) := by
  rw [aggregateHour, KeyedTable.mem_upsertAll_iff (nodup_auditRows _ _), dims_auditRows]

theorem Stems.dims_mem (hstems : Stems hour log table) (hmem : bucket ∈ table.rows)
    (hhour : bucket.dims.hour = hour) :
    bucket.dims ∈ groups (LoggedRow.dims hour) (hourRows hour log) := by
  induction hstems with
  | fresh hnone => exact absurd hhour (hnone bucket hmem)
  | run hstems hsubset ih =>
    rcases mem_aggregateHour.mp hmem with hnew | ⟨hold, -⟩
    · obtain ⟨row, hrow, hdims⟩ := mem_groups.mp (mem_auditRows.mp hnew).1
      exact mem_groups.mpr ⟨row, hsubset hrow, hdims⟩
    · exact ih hold
  | other hstems hother earlier ih =>
    rcases mem_aggregateHour.mp hmem with hnew | ⟨hold, -⟩
    · exact absurd ((hour_of_mem_groups (mem_auditRows.mp hnew).1).symm.trans hhour) hother
    · exact ih hold

/-- After a run the table has the groups of the log for the hour and nothing else. -/
theorem ofHour_aggregateHour (hstems : Stems hour log table) :
    ((aggregateHour hour log table).ofHour hour).Perm (auditRows hour (hourRows hour log)) := by
  have hnodup := (aggregateHour hour log table).nodup.of_map
  refine (perm_ext_iff_of_nodup (hnodup.filter _) (nodup_auditRows _ _).of_map).mpr ?_
  intro bucket
  rw [mem_filter, mem_aggregateHour, decide_eq_true_iff]
  constructor
  · rintro ⟨hnew | ⟨hold, hother⟩, hhour⟩
    · exact hnew
    · exact absurd (hstems.dims_mem hold hhour) hother
  · exact fun hnew => ⟨.inl hnew, hour_of_mem_groups (mem_auditRows.mp hnew).1⟩

theorem filter_aggregateHour {p : ℤ → Bool} (hother : p hour = false)
    (log : List (LoggedRow Cost)) (table : AuditTable Cost) :
    ((aggregateHour hour log table).rows.filter fun row => p row.dims.hour) =
      table.rows.filter fun row => p row.dims.hour := by
  refine table.filter_rows_upsertAll (p := fun dims => p dims.hour) fun row hrow => ?_
  rw [hour_of_mem_groups (mem_auditRows.mp hrow).1, hother]

theorem sum_auditRows (rows : List (LoggedRow Cost)) (figure : Figure) :
    ((auditRows hour rows).map fun bucket => bucket.figures figure).sum =
      (rows.map fun row => row.figure figure).sum := by
  rw [auditRows, map_map]
  exact sum_groups (LoggedRow.dims hour) (fun row => row.figure figure) rows

structure Partitioned (hour : ℤ) (log : List (LoggedRow Cost)) (before after : AuditTable Cost) :
    Prop where
  counted : ∀ row ∈ hourRows hour log,
    ∃! bucket, bucket ∈ after.rows ∧ bucket.dims = row.dims hour
  figures : ∀ bucket ∈ after.rows, bucket.dims.hour = hour →
    bucket = auditRow hour (hourRows hour log) bucket.dims ∧
      ∃ row ∈ hourRows hour log, row.dims hour = bucket.dims
  sums : ∀ figure, ((after.ofHour hour).map fun bucket => bucket.figures figure).sum =
    ((hourRows hour log).map fun row => row.figure figure).sum
  unique : (after.rows.map AuditHourly.dims).Nodup
  others : (after.rows.filter fun row => row.dims.hour ≠ hour) =
    before.rows.filter fun row => row.dims.hour ≠ hour
  again : aggregateHour hour log after = after

/-- One run over an hour partitions the rows of the log, and another one changes nothing. -/
theorem aggregateHour_partitions (hour : ℤ) (log : List (LoggedRow Cost)) (table : AuditTable Cost)
    (hstems : Stems hour log table) :
    Partitioned hour log table (aggregateHour hour log table) where
  counted row hrow := by
    have hgroup : row.dims hour ∈ groups (LoggedRow.dims hour) (hourRows hour log) :=
      mem_groups.mpr ⟨row, hrow, rfl⟩
    refine ⟨auditRow hour (hourRows hour log) (row.dims hour), ⟨?_, rfl⟩, ?_⟩
    · exact mem_aggregateHour.mpr (.inl (mem_auditRows.mpr ⟨hgroup, rfl⟩))
    · rintro bucket ⟨hbucket, hdims⟩
      rcases mem_aggregateHour.mp hbucket with hnew | ⟨-, hother⟩
      · rw [(mem_auditRows.mp hnew).2, hdims]
      · exact absurd (hdims ▸ hgroup) hother
  figures bucket hbucket hhour := by
    have hnew : bucket ∈ auditRows hour (hourRows hour log) :=
      (ofHour_aggregateHour hstems).mem_iff.mp
        (mem_filter.mpr ⟨hbucket, decide_eq_true hhour⟩)
    exact ⟨(mem_auditRows.mp hnew).2, mem_groups.mp (mem_auditRows.mp hnew).1⟩
  sums figure := by
    rw [((ofHour_aggregateHour hstems).map _).sum_eq, sum_auditRows]
  unique := (aggregateHour hour log table).nodup
  others := filter_aggregateHour (p := fun other => other ≠ hour) (by simp) log table
  again := KeyedTable.upsertAll_of_mem fun _ hnew => mem_aggregateHour.mpr (.inl hnew)

end

section

def earlyRow : LoggedRow ℤ := { ts := 5, model := "m", poolId := "p", keyHash := "k" }

def lateRow : LoggedRow ℤ := { earlyRow with ts := 7, tenantId := some "default" }

def earlyTable : AuditTable ℤ := aggregateHour 0 [earlyRow] KeyedTable.empty

theorem lateRow_counted :
    (((aggregateHour 0 [earlyRow, lateRow] earlyTable).ofHour 0).map
      fun bucket => bucket.figures .requestCount).sum = 2 := by
  have hnone : ∀ row ∈ (KeyedTable.empty : AuditTable ℤ).rows, row.dims.hour ≠ 0 := by simp
  have hsubset : hourRows 0 [earlyRow] ⊆ hourRows 0 [earlyRow, lateRow] :=
    ((sublist_append_left [earlyRow] [lateRow]).filter _).subset
  exact (aggregateHour_partitions 0 [earlyRow, lateRow] earlyTable
    (.run (.fresh hnone) hsubset)).sums .requestCount

end

end LlmProxy
