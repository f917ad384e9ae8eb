import LlmProxy.GuardedRun
import LlmProxy.KeyedTable
import Mathlib.Algebra.Order.Group.Int

/-!
# The full-text index of the request log

`rebuild_fts` of `db_maintenance.rs` next to the insertions into `request_log`.
-/

namespace LlmProxy

namespace Fts

open List StepSystem

/-- The columns of `request_log` that the query reads. -/
structure LogRow where
  id : String
  ts : ℤ
  model : Option String
  deriving DecidableEq

structure Entry where
  requestId : String
  messagesText : String
  deriving DecidableEq

def LogRow.entry (row : LogRow) : Entry := ⟨row.id, "model:" ++ row.model.getD "unknown"⟩

structure State where
  log : KeyedTable LogRow.id
  index : List Entry
  watermark : ℤ

def State.new : State := ⟨.empty, [], 0⟩

/-- Rows of equal time come in an order that the query does not fix, so a run carries the ordered
answer it was given. -/
inductive Action where
  | inserted (row : LogRow)
  | rebuilt (ordered : List LogRow)

def limit : ℕ := 1000

namespace State

variable (s : State)

/-- `WHERE ts > ?1 ORDER BY ts ASC`, before the limit. -/
def Answers (ordered : List LogRow) : Prop :=
  ordered.Perm (s.log.rows.filter fun row => s.watermark < row.ts) ∧
    ordered.Pairwise fun a b => a.ts ≤ b.ts

instance (s : State) (ordered : List LogRow) : Decidable (s.Answers ordered) :=
  inferInstanceAs (Decidable (_ ∧ _))

/-- A run reads at most a thousand rows above the watermark in the order of their times, indexes
them and sets the watermark to the time of the last one. -/
def rebuildFts (rows : List LogRow) : State :=
  match rows.getLast? with
  | none => s
  | some last => { s with index := s.index ++ rows.map LogRow.entry, watermark := last.ts }

def step : Action → Option State
  | .inserted row => (s.log.insert row).map fun log => { s with log := log }
  | .rebuilt ordered =>
    if s.Answers ordered then some (s.rebuildFts (ordered.take limit)) else none

def Indexed (row : LogRow) : Prop := ∃ entry ∈ s.index, entry.requestId = row.id

/-- No row at or below the watermark is missing from the index. -/
def Covered : Prop := ∀ row ∈ s.log.rows, row.ts ≤ s.watermark → s.Indexed row

/-- A row comes in above the watermark; a run does not stop between rows of one time. -/
def Clean : Action → Prop
  | .inserted row => s.watermark < row.ts
  | .rebuilt ordered =>
    ∀ last ∈ (ordered.take limit).getLast?, ∀ row ∈ ordered.drop limit, last.ts < row.ts

/-- What is indexed is in the log and not above the watermark. -/
def Known : Prop :=
  ∀ entry ∈ s.index, ∃ row ∈ s.log.rows, row.id = entry.requestId ∧ row.ts ≤ s.watermark

variable {s t : State} {row last : LogRow} {rows ordered : List LogRow}

theorem eq_of_id (s : State) {other : LogRow} (hrow : row ∈ s.log.rows)
    (hother : other ∈ s.log.rows) (hid : row.id = other.id) : row = other :=
  inj_on_of_nodup_map s.log.nodup hrow hother hid

theorem Known.ts_le (hknown : s.Known) (hrow : row ∈ s.log.rows) (hindexed : s.Indexed row) :
    row.ts ≤ s.watermark := by
  obtain ⟨entry, hentry, hid⟩ := hindexed
  obtain ⟨other, hother, hsame, hle⟩ := hknown entry hentry
  rw [s.eq_of_id hrow hother (hid.symm.trans hsame.symm)]
  exact hle

theorem step_inserted (hstep : s.step (.inserted row) = some t) :
    row.id ∉ s.log.rows.map LogRow.id ∧ t.log.rows = s.log.rows ++ [row] ∧
      t.index = s.index ∧ t.watermark = s.watermark := by
  obtain ⟨log, hlog, rfl⟩ := Option.map_eq_some_iff.mp hstep
  obtain ⟨hfresh, hrows⟩ := KeyedTable.insert_eq_some_iff.mp hlog
  exact ⟨hfresh, hrows, rfl, rfl⟩

theorem covered_inserted_iff (hknown : s.Known) (hstep : s.step (.inserted row) = some t) :
    t.Covered ↔ s.Covered ∧ s.Clean (.inserted row) := by
  obtain ⟨hfresh, hrows, hindex, hmark⟩ := step_inserted hstep
  simp only [Covered, Indexed, Clean, hrows, hindex, hmark, forall_mem_append, forall_mem_singleton]
  refine and_congr_right fun _ => ⟨fun hrow => ?_, fun habove hle => absurd habove (by omega)⟩
  by_contra hlow
  obtain ⟨entry, hentry, hid⟩ := hrow (by omega)
  obtain ⟨other, hother, hsame, -⟩ := hknown entry hentry
  exact hfresh (mem_map.mpr ⟨other, hother, hsame.trans hid⟩)

/-! ## Runs -/

section

variable (hanswers : s.Answers ordered)

include hanswers

theorem Answers.mem_iff : row ∈ ordered ↔ row ∈ s.log.rows ∧ s.watermark < row.ts := by
  rw [hanswers.1.mem_iff, mem_filter, decide_eq_true_eq]

theorem Answers.nodup : ordered.Nodup :=
  hanswers.1.nodup_iff.mpr (s.log.nodup.of_map.filter _)

theorem Answers.ts_le_last (hlast : (ordered.take limit).getLast? = some last)
    (hrow : row ∈ ordered.take limit) : row.ts ≤ last.ts := by
  have hsorted := hanswers.2.sublist (take_sublist limit ordered)
  obtain ⟨front, hfront⟩ := getLast?_eq_some_iff.mp hlast
  rw [hfront] at hsorted hrow
  rcases mem_append.mp hrow with hold | hsame
  · exact (pairwise_append.mp hsorted).2.2 row hold last mem_cons_self
  · rw [mem_singleton.mp hsame]

theorem Answers.ts_last (hlast : (ordered.take limit).getLast? = some last) :
    s.watermark < last.ts :=
  (hanswers.mem_iff.mp (mem_of_mem_take (mem_of_getLast? hlast))).2

end

theorem rebuildFts_of_last (hlast : rows.getLast? = some last) :
    s.rebuildFts rows =
      { s with index := s.index ++ rows.map LogRow.entry, watermark := last.ts } := by
  rw [rebuildFts, hlast]

theorem indexed_append :
    ({ s with index := s.index ++ rows.map LogRow.entry, watermark := last.ts } : State).Indexed
      row ↔ s.Indexed row ∨ ∃ other ∈ rows, other.id = row.id := by
  simp only [Indexed, mem_append, or_and_right, exists_or]
  simp [LogRow.entry]

theorem covered_rebuilt_iff (hknown : s.Known) (hanswers : s.Answers ordered) :
    (s.rebuildFts (ordered.take limit)).Covered ↔ s.Covered ∧ s.Clean (.rebuilt ordered) := by
  cases hlast : (ordered.take limit).getLast? with
  | none => simp [rebuildFts, Clean, hlast]
  | some last =>
    have habove := hanswers.ts_last hlast
    have hmem : ∀ row ∈ ordered.take limit, row ∈ s.log.rows ∧ s.watermark < row.ts :=
      fun row hrow => hanswers.mem_iff.mp (mem_of_mem_take hrow)
    rw [rebuildFts_of_last hlast]
    simp only [Covered, Clean, hlast, Option.mem_some_iff, forall_eq', indexed_append]
    constructor
    · intro hall
      refine ⟨fun row hrow hle => ?_, fun row hrow => ?_⟩
      · rcases hall row hrow (by omega) with hindexed | ⟨other, hother, hid⟩
        · exact hindexed
        · have hsame := s.eq_of_id (hmem other hother).1 hrow hid
          have hlow := (hmem other hother).2
          rw [hsame] at hlow
          omega
      · -- A row of the cut part is in no entry: its time is above the watermark.
        by_contra htie
        obtain ⟨hlog, hts⟩ := hanswers.mem_iff.mp (mem_of_mem_drop hrow)
        rcases hall row hlog (by omega) with hindexed | ⟨other, hother, hid⟩
        · have hle := hknown.ts_le hlog hindexed
          omega
        · rw [s.eq_of_id (hmem other hother).1 hlog hid] at hother
          exact disjoint_take_drop hanswers.nodup le_rfl hother hrow
    · rintro ⟨hcovered, hclean⟩ row hrow hle
      by_cases hold : row.ts ≤ s.watermark
      · exact .inl (hcovered row hrow hold)
      · have hordered := hanswers.mem_iff.mpr ⟨hrow, by omega⟩
        rw [← take_append_drop limit ordered, mem_append] at hordered
        rcases hordered with hbatch | hcut
        · exact .inr ⟨row, hbatch, rfl⟩
        · have hlater := hclean row hcut
          omega

theorem known_rebuildFts (hknown : s.Known) (hanswers : s.Answers ordered) :
    (s.rebuildFts (ordered.take limit)).Known := by
  cases hlast : (ordered.take limit).getLast? with
  | none => rwa [rebuildFts, hlast]
  | some =>
    have habove := hanswers.ts_last hlast
    rw [rebuildFts_of_last hlast]
    intro entry hentry
    rcases mem_append.mp hentry with hold | hnew
    · obtain ⟨row, hrow, hid, hle⟩ := hknown entry hold
      exact ⟨row, hrow, hid, hle.trans habove.le⟩
    · obtain ⟨row, hrow, rfl⟩ := mem_map.mp hnew
      exact ⟨row, (hanswers.mem_iff.mp (mem_of_mem_take hrow)).1, rfl,
        hanswers.ts_le_last hlast hrow⟩

/-! ## Histories -/

theorem Known.step {action : Action} (hknown : s.Known) (hstep : s.step action = some t) :
    t.Known := by
  cases action with
  | inserted =>
    obtain ⟨-, hrows, hindex, hmark⟩ := step_inserted hstep
    intro entry hentry
    rw [hindex] at hentry
    obtain ⟨other, hother, hid, hle⟩ := hknown entry hentry
    exact ⟨other, hrows ▸ mem_append_left _ hother, hid, hmark ▸ hle⟩
  | rebuilt =>
    simp only [State.step, Option.ite_none_right_eq_some, Option.some.injEq] at hstep
    obtain ⟨hanswers, rfl⟩ := hstep
    exact known_rebuildFts hknown hanswers

theorem covered_step_iff {action : Action} (hknown : s.Known) (hstep : s.step action = some t) :
    t.Covered ↔ s.Covered ∧ s.Clean action := by
  cases action with
  | inserted => exact covered_inserted_iff hknown hstep
  | rebuilt =>
    simp only [State.step, Option.ite_none_right_eq_some, Option.some.injEq] at hstep
    obtain ⟨hanswers, rfl⟩ := hstep
    exact covered_rebuilt_iff hknown hanswers

/-- A row that was skipped stays skipped, so the index covers the log up to the watermark exactly if
nothing was ever skipped. -/
theorem covered_iff_clean {actions : List Action} {final : State}
    (hrun : Run State.step State.new actions final) :
    final.Covered ↔ GuardedRun State.step Clean State.new actions final := by
  apply GuardedRun.reached_iff (J := Known)
  · exact fun s a t hknown hstep => hknown.step hstep
  · exact fun s a t hknown hstep => covered_step_iff hknown hstep
  · exact hrun
  · intro entry hentry
    cases hentry
  · intro row hrow
    cases hrow

def early : LogRow := ⟨"a", 10, some "m"⟩

def late : LogRow := ⟨"b", 5, some "m"⟩

def newer : LogRow := ⟨"c", 15, none⟩

def twoRows : State := ⟨⟨[early, newer], by decide⟩, [early.entry, newer.entry], 15⟩

theorem twoRows_covered : twoRows.Covered := by
  have hrun : Run State.step State.new
      [.inserted early, .rebuilt [early], .inserted newer, .rebuilt [newer]] twoRows :=
    run_of_runActions rfl
  refine (covered_iff_clean hrun).mpr ?_
  refine .cons ?_ rfl (.cons ?_ rfl (.cons ?_ rfl (.cons ?_ rfl (.nil _))))
  all_goals simp [Clean, new, limit, early, newer, rebuildFts, LogRow.entry]

/-- The row logged second is the older one; no run finds it. -/
theorem late_row_skipped :
    ∃ final, Run State.step State.new
        [.inserted early, .rebuilt [early], .inserted late, .rebuilt []] final ∧
      late ∈ final.log.rows ∧ late.ts ≤ final.watermark ∧ ¬ final.Indexed late := by
  refine ⟨⟨⟨[early, late], by decide⟩, [early.entry], 10⟩, run_of_runActions rfl, ?_⟩
  simp [Indexed, early, late, LogRow.entry]

end State

end Fts

end LlmProxy
