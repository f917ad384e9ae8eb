import LlmProxy.HourlyAudit

/-!
# The aggregator next to the handler

Each run of the aggregator works on the hour before the one it falls into.  The row of a streamed
request has the time at which the stream started, but it is logged when the stream ends, and that
may be after the last run over its hour.  Such a row is never counted.
-/

namespace LlmProxy

open List

variable {Cost : Type}

/-- A row is logged at a time in milliseconds; the aggregator runs at a time in seconds. -/
inductive AuditAction (Cost : Type) where
  | inserted (atMs : ℤ) (row : LoggedRow Cost)
  | aggregated (now : ℤ)

structure AuditState (Cost : Type) where
  log : List (LoggedRow Cost) := []
  table : AuditTable Cost := .empty

section

variable [Zero Cost] [Add Cost]

def AuditState.step (state : AuditState Cost) : AuditAction Cost → AuditState Cost
  | .inserted _ row => { state with log := state.log ++ [row] }
  | .aggregated now => { state with table := aggregateLastHour now state.log state.table }

def AuditState.after (actions : List (AuditAction Cost)) : AuditState Cost :=
  actions.foldl AuditState.step {}

/-- The table has the groups of the log for the hour, with their sums. -/
def AuditState.Accounted (hour : ℤ) (state : AuditState Cost) : Prop :=
  (state.table.ofHour hour).Perm (auditRows hour (hourRows hour state.log))

/-- Nothing that is logged after the last run over the hour is of the hour. -/
def Revisited (hour : ℤ) (actions : List (AuditAction Cost)) : Prop :=
  ∀ later, later <:+ actions → (∀ now, .aggregated now ∈ later → lastHour now ≠ hour) →
    ∀ atMs row, .inserted atMs row ∈ later → ¬row.InHour hour

variable {hour : ℤ} {actions : List (AuditAction Cost)} {state : AuditState Cost}

omit [Zero Cost] [Add Cost] in
theorem revisited_inserted_iff {atMs : ℤ} {row : LoggedRow Cost} :
    Revisited hour (actions ++ [.inserted atMs row]) ↔
      Revisited hour actions ∧ ¬row.InHour hour := by
  constructor
  · intro hall
    constructor
    · intro later hlater hnone time other hother
      refine hall (later ++ [.inserted atMs row]) ?_ ?_ time other (mem_append_left _ hother)
      · exact suffix_concat_iff.mpr (.inr ⟨later, rfl, hlater⟩)
      · simpa using hnone
    · exact hall [.inserted atMs row] (suffix_append _ _) (by simp) atMs row
        mem_cons_self
  · rintro ⟨hall, hrow⟩ later hlater hnone time other hother
    rcases suffix_concat_iff.mp hlater with rfl | ⟨front, rfl, hfront⟩
    · cases hother
    · rcases mem_append.mp hother with hmem | hlast
      · exact hall front hfront (fun now hnow => hnone now (mem_append_left _ hnow)) time
          other hmem
      · cases mem_singleton.mp hlast
        exact hrow

omit [Zero Cost] [Add Cost] in
theorem revisited_aggregated_iff {now : ℤ} :
    Revisited hour (actions ++ [.aggregated now]) ↔
      lastHour now = hour ∨ Revisited hour actions := by
  constructor
  · intro hall
    by_cases hnow : lastHour now = hour
    · exact .inl hnow
    · refine .inr fun later hlater hnone time other hother => ?_
      refine hall (later ++ [.aggregated now]) ?_ ?_ time other (mem_append_left _ hother)
      · exact suffix_concat_iff.mpr (.inr ⟨later, rfl, hlater⟩)
      · intro found hfound
        rcases mem_append.mp hfound with hmem | hlast
        · exact hnone found hmem
        · cases mem_singleton.mp hlast
          exact hnow
  · intro hor later hlater hnone time other hother
    rcases suffix_concat_iff.mp hlater with rfl | ⟨front, rfl, hfront⟩
    · cases hother
    · rcases hor with hnow | hall
      · exact absurd hnow (hnone now (by simp))
      · refine hall front hfront (fun found hfound => ?_) time other (by simpa using hother)
        exact hnone found (mem_append_left _ hfound)

/-- What every run keeps: the table stems from the log, and it counts no row that is not there. -/
structure Behind (hour : ℤ) (state : AuditState Cost) : Prop where
  stems : Stems hour state.log state.table
  counts : ((state.table.ofHour hour).map fun bucket => bucket.figures .requestCount).sum ≤
    (hourRows hour state.log).length

theorem Stems.append {log : List (LoggedRow Cost)} {table : AuditTable Cost}
    (hstems : Stems hour log table) (row : LoggedRow Cost) : Stems hour (log ++ [row]) table := by
  induction hstems with
  | fresh hnone => exact .fresh hnone
  | run _ hsubset ih =>
    refine .run ih fun other hother => ?_
    exact ((sublist_append_left log [row]).filter _).subset (hsubset hother)
  | other _ hother earlier ih => exact .other ih hother earlier

theorem ofHour_of_other {another : ℤ} (hother : another ≠ hour) (log : List (LoggedRow Cost))
    (table : AuditTable Cost) : (aggregateHour another log table).ofHour hour = table.ofHour hour :=
  filter_aggregateHour (p := fun found => found = hour) (by simpa using hother) log table

theorem requests_of_accounted (haccounted : state.Accounted hour) :
    ((state.table.ofHour hour).map fun bucket => bucket.figures .requestCount).sum =
      (hourRows hour state.log).length := by
  rw [(haccounted.map _).sum_eq, sum_auditRows]
  simp [LoggedRow.figure]

theorem Behind.step (hbehind : Behind hour state) (action : AuditAction Cost) :
    Behind hour (state.step action) := by
  cases action with
  | inserted atMs row =>
    refine ⟨hbehind.stems.append row, Int.le_trans hbehind.counts (Int.ofNat_le.mpr ?_)⟩
    exact ((sublist_append_left state.log [row]).filter _).length_le
  | aggregated now =>
    by_cases hnow : lastHour now = hour
    · subst hnow
      refine ⟨.run hbehind.stems (List.Subset.refl _), ?_⟩
      have haccounted : (state.step (.aggregated now)).Accounted (lastHour now) :=
        ofHour_aggregateHour hbehind.stems
      exact Int.le_of_eq (requests_of_accounted haccounted)
    · refine ⟨.other hbehind.stems hnow _, ?_⟩
      rw [AuditState.step, aggregateLastHour, ofHour_of_other hnow]
      exact hbehind.counts

theorem behind_after (hour : ℤ) (actions : List (AuditAction Cost)) :
    Behind hour (AuditState.after actions) := by
  induction actions using List.reverseRecOn with
  | nil => exact ⟨.fresh (by simp [AuditState.after]), Int.le_refl _⟩
  | append_singleton actions action ih =>
    rw [AuditState.after, foldl_append]
    exact ih.step action

/-- An hour is accounted for exactly if no row of it was logged after the last run over it. -/
theorem accounted_iff_revisited (hour : ℤ) (actions : List (AuditAction Cost)) :
    (AuditState.after actions).Accounted hour ↔ Revisited hour actions := by
  induction actions using List.reverseRecOn with
  | nil =>
    refine iff_of_true (List.Perm.refl _) fun later hlater _ time other hother => ?_
    rw [suffix_nil.mp hlater] at hother
    cases hother
  | append_singleton actions action ih =>
    have hbehind := behind_after hour actions
    have hstep : AuditState.after (actions ++ [action]) =
        (AuditState.after actions).step action := by
      rw [AuditState.after, foldl_append]
      rfl
    rw [hstep]
    cases action with
    | inserted atMs row =>
      rw [revisited_inserted_iff, ← ih]
      by_cases hrow : row.InHour hour
      · -- The table does not have more requests than the log had before.
        refine iff_of_false (fun haccounted => ?_) (fun hall => hall.2 hrow)
        have hrequests := requests_of_accounted haccounted
        have hcounts := hbehind.counts
        simp only [AuditState.step, hourRows, filter_append, length_append] at hrequests
        simp only [hourRows] at hcounts
        rw [filter_cons_of_pos (by simpa using hrow)] at hrequests
        simp only [filter_nil, length_singleton] at hrequests
        omega
      · rw [and_iff_left hrow, AuditState.Accounted, AuditState.step, hourRows, filter_append,
          filter_cons_of_neg (by simpa using hrow), filter_nil, append_nil]
        rfl
    | aggregated now =>
      rw [revisited_aggregated_iff, ← ih]
      by_cases hnow : lastHour now = hour
      · subst hnow
        exact iff_of_true (ofHour_aggregateHour hbehind.stems) (.inl rfl)
      · rw [or_iff_right hnow, AuditState.Accounted, AuditState.step, aggregateLastHour,
          ofHour_of_other hnow]
        rfl

end

section

/-- A stream that starts in the last second of an hour and ends after the run over that hour. -/
def longStream : LoggedRow ℤ :=
  { ts := 7199500, model := "m", poolId := "p", keyHash := "k", isStream := 1 }

def longStreamRun : List (AuditAction ℤ) :=
  [.aggregated 3600, .aggregated 7200, .inserted 7200500 longStream, .aggregated 10800,
    .aggregated 14400]

/-- Runs in every hour, two of them after the stream has ended, and none counts it. -/
theorem longStream_not_counted :
    (AuditState.after longStreamRun).log = [longStream] ∧
      (AuditState.after longStreamRun).table.rows.length = 0 ∧
      ¬(AuditState.after longStreamRun).Accounted 3600 := by
  refine ⟨rfl, by decide, fun haccounted => ?_⟩
  have hlength := requests_of_accounted haccounted
  revert hlength
  decide

end

end LlmProxy
