import LlmProxy.ConfigStore
import LlmProxy.CopiedReads

/-!
# Concurrent refreshes of the configuration store

`refresh_from_db` reads the managed tables one after the other and publishes a snapshot afterwards.
The poller, the admin API and an import call it at the same time, and writes commit in between.
-/

namespace LlmProxy
namespace RefreshRace

open CopiedReads List StepSystem ConfigSnapshot

section

variable {Cost : Type} [SerdeJson] [Float64 Cost]

def readOrder : List ManagedTable :=
  [.providers, .pools, .keys, .routing, .registry, .overrides]

/-- The snapshot that is published on top of the earlier ones: each table is taken from the
content its own read saw. -/
def assemble (store : ConfigSnapshot Cost) (past : List (ConfigSnapshot Cost)) (nowMs : ℤ)
    (reads : List (Database Cost)) : Option (ConfigSnapshot Cost) :=
  match reads with
  | [first, second, third, fourth, fifth, sixth] =>
    (loadProviders first.providers.rows).toOption.bind fun providers =>
      (loadRegistry fifth.registry.rows).toOption.map fun registry =>
        (past.getLast?.getD store).publish providers (loadPools second.pools.rows third.keys)
          (loadRouting fourth.routing) registry sixth.overrides nowMs
  | _ => none

def refreshStep (store : ConfigSnapshot Cost) :
    State (Database Cost) (ConfigSnapshot Cost) → Action (Database Cost) ℤ →
      Option (State (Database Cost) (ConfigSnapshot Cost)) :=
  CopiedReads.step readOrder.length (assemble store)

def Reflects (snapshot : ConfigSnapshot Cost) (db : Database Cost) : Prop :=
  ∃ (current : ConfigSnapshot Cost) (nowMs : ℤ),
    current.refreshFromDb { db := db, nowMs := nowMs } = .ok snapshot

/-- Each published snapshot reflects the tables at one moment that is not older than the start
of its refresh, and snapshots with a higher version do not reflect an older moment. -/
structure Consistent (s : State (Database Cost) (ConfigSnapshot Cost)) (moment : ℕ → ℕ) : Prop where
  reflects : ∀ entry ∈ s.published, ∃ db, s.history[moment entry.1.version]? = some db ∧
    entry.2 ≤ moment entry.1.version ∧ Reflects entry.1 db
  ordered : ∀ entry ∈ s.published, ∀ other ∈ s.published, entry.1.version ≤ other.1.version →
    moment entry.1.version ≤ moment other.1.version

variable {snapshot store : ConfigSnapshot Cost} {db : Database Cost}

theorem assemble_replicate_iff {past : List (ConfigSnapshot Cost)} {nowMs : ℤ} :
    assemble store past nowMs (List.replicate readOrder.length db) = some snapshot ↔
      (past.getLast?.getD store).refreshFromDb { db := db, nowMs := nowMs } = .ok snapshot := by
  rw [refreshFromDb_eq_ok_iff]
  have hcopy : List.replicate readOrder.length db = [db, db, db, db, db, db] := rfl
  rw [hcopy, assemble]
  simp only [Option.bind_eq_some_iff, Option.map_eq_some_iff, Except.toOption_eq_some_iff,
    loadRegistry_eq_ok_iff, implies_true, true_and]
  constructor
  · rintro ⟨providers, hload, _, ⟨hfits, rfl⟩, rfl⟩
    exact ⟨hfits, providers, hload, rfl⟩
  · rintro ⟨hfits, providers, hload, rfl⟩
    exact ⟨providers, hload, _, ⟨hfits, rfl⟩, rfl⟩

theorem version_of_refreshFromDb {current refreshed : ConfigSnapshot Cost} {read : TableRead Cost}
    (hrefresh : current.refreshFromDb read = .ok refreshed) :
    refreshed.version = current.version + 1 := by
  obtain ⟨-, providers, -, rfl⟩ := refreshFromDb_eq_ok_iff.mp hrefresh
  rfl

theorem version_of_dated {s : State (Database Cost) (ConfigSnapshot Cost)} {moments : List ℕ}
    (hdated : Dated readOrder.length (assemble store) s moments) (i : ℕ)
    {entry : ConfigSnapshot Cost × ℕ} (hentry : s.published[i]? = some entry) :
    entry.1.version = store.version + i + 1 := by
  induction i generalizing entry with
  | zero =>
    obtain ⟨m, db, nowMs, -, -, -, hassemble⟩ := hdated.made 0 entry hentry
    have hrefresh := assemble_replicate_iff.mp hassemble
    exact version_of_refreshFromDb hrefresh
  | succ i ih =>
    obtain ⟨m, db, nowMs, -, -, -, hassemble⟩ := hdated.made (i + 1) entry hentry
    have hlt : i + 1 < s.published.length := (List.getElem?_eq_some_iff.mp hentry).1
    have hbefore : s.published[i]? = some s.published[i] := getElem?_eq_getElem _
    have hlast : ((s.published.take (i + 1)).map Prod.fst).getLast? =
        some s.published[i].1 := by
      rw [take_succ_eq_append_getElem, map_append, getLast?_append]
      rfl
    have hversion := version_of_refreshFromDb (assemble_replicate_iff.mp hassemble)
    rw [hlast, Option.getD_some, ih hbefore] at hversion
    omega

/-- While refreshes take turns and no write commits between the reads of one of them, every
snapshot reflects one moment and the moments follow the versions. -/
theorem published_consistent_of_serial (store : ConfigSnapshot Cost) (db : Database Cost)
    (actions : List (Action (Database Cost) ℤ))
    (s : State (Database Cost) (ConfigSnapshot Cost))
    (hrun : GuardedRun (refreshStep store) (Serial readOrder.length) (State.initial db) actions s) :
    ∃ moment, Consistent s moment := by
  obtain ⟨moments, hdated⟩ := exists_dated_of_serial (by decide) hrun
  have hindex : ∀ entry ∈ s.published, ∃ i, s.published[i]? = some entry ∧
      entry.1.version - store.version - 1 = i := by
    intro entry hentry
    obtain ⟨i, hi⟩ := mem_iff_getElem?.mp hentry
    have hversion := version_of_dated hdated i hi
    exact ⟨i, hi, by omega⟩
  refine ⟨fun version => (moments[version - store.version - 1]?).getD 0, ?_, ?_⟩
  · intro entry hentry
    obtain ⟨i, hi, hversion⟩ := hindex entry hentry
    obtain ⟨m, content, nowMs, hm, hcontent, hbegun, hassemble⟩ := hdated.made i entry hi
    refine ⟨content, ?_, ?_, _, nowMs, assemble_replicate_iff.mp hassemble⟩
    · simpa [hversion, hm] using hcontent
    · simpa [hversion, hm] using hbegun
  · intro entry hentry other hother hle
    obtain ⟨i, hi, hversion⟩ := hindex entry hentry
    obtain ⟨j, hj, hotherVersion⟩ := hindex other hother
    obtain ⟨m, -, -, hm, -⟩ := hdated.made i entry hi
    obtain ⟨m', -, -, hm', -⟩ := hdated.made j other hj
    simp only [hversion, hotherVersion, hm, hm']
    rcases Nat.lt_or_ge i j with hlt | hge
    · obtain ⟨hiLength, hiValue⟩ := List.getElem?_eq_some_iff.mp hm
      obtain ⟨hjLength, hjValue⟩ := List.getElem?_eq_some_iff.mp hm'
      have hsorted := pairwise_iff_getElem.mp hdated.sorted i j hiLength hjLength hlt
      rwa [hiValue, hjValue] at hsorted
    · have hsame : i = j := by
        omega
      subst hsame
      rw [hm] at hm'
      exact (Option.some.inj hm').le

/-! ## Refreshes that overlap -/

theorem Reflects.providers {snapshot : ConfigSnapshot Cost} {db : Database Cost}
    (hreflects : Reflects snapshot db) :
    loadProviders db.providers.rows = .ok snapshot.providers := by
  obtain ⟨current, nowMs, hrefresh⟩ := hreflects
  obtain ⟨-, providers, hload, rfl⟩ := refreshFromDb_eq_ok_iff.mp hrefresh
  exact hload

theorem Reflects.poolConfigs (hreflects : Reflects snapshot db) :
    snapshot.poolConfigs = loadPools db.pools.rows db.keys := by
  obtain ⟨current, nowMs, hrefresh⟩ := hreflects
  obtain ⟨-, providers, -, rfl⟩ := refreshFromDb_eq_ok_iff.mp hrefresh
  rfl

end

section

attribute [local instance] jsonText

def importedDb : Database ℚ :=
  { Database.empty with
    providers := .single ⟨"u", "openai", "u", "p", true, none⟩
    pools := .single ⟨"p", "weighted_random", true⟩ }

def readAll (reader : ℕ) : List (Action (Database ℚ) ℤ) := List.replicate 6 (.read reader)

/-- A refresh reads the empty tables, an import commits and publishes, and the refresh publishes
after it. -/
def staleRun : List (Action (Database ℚ) ℤ) :=
  [.start 0] ++ readAll 0 ++ [.commit importedDb, .start 1] ++ readAll 1 ++
    [.publish 1 0, .publish 0 0]

def tornRun : List (Action (Database ℚ) ℤ) :=
  [.start 0, .read 0, .commit importedDb] ++ List.replicate 5 (.read 0) ++ [.publish 0 0]

def importedSnapshot : ConfigSnapshot ℚ :=
  ConfigSnapshot.default.publish [⟨"u", "p", "u", .openAi, .obj []⟩]
    (loadPools importedDb.pools.rows []) ∅ [] [] 0

def staleSnapshot : ConfigSnapshot ℚ := importedSnapshot.publish [] ∅ ∅ [] [] 0

def tornSnapshot : ConfigSnapshot ℚ :=
  ConfigSnapshot.default.publish [] (loadPools importedDb.pools.rows []) ∅ [] [] 0

def importRun : List (Action (Database ℚ) ℤ) :=
  [.commit importedDb, .start 0] ++ readAll 0 ++ [.publish 0 0]

theorem published_consistent_importRun :
    ∃ s, GuardedRun (refreshStep .default) (Serial readOrder.length) (State.initial .empty)
      importRun s ∧ ∃ moment, Consistent s moment := by
  have hrun : ∃ s, GuardedRun (refreshStep .default) (Serial readOrder.length)
      (State.initial .empty) importRun s := by
    refine ⟨_, .cons (by simp [Serial, State.initial]) rfl (.cons (fun _ => rfl) rfl
      (.cons trivial rfl (.cons trivial rfl (.cons trivial rfl (.cons trivial rfl
        (.cons trivial rfl (.cons trivial rfl (.cons trivial rfl (.nil _)))))))))⟩
  obtain ⟨s, hs⟩ := hrun
  exact ⟨s, hs, published_consistent_of_serial .default .empty importRun s hs⟩

theorem published_staleRun :
    ∃ s, runActions (refreshStep .default) (State.initial .empty) staleRun = some s ∧
      s.history = [.empty, importedDb] ∧
      s.published = [(importedSnapshot, 1), (staleSnapshot, 0)] :=
  ⟨_, rfl, rfl, rfl⟩

theorem published_tornRun :
    ∃ s, runActions (refreshStep .default) (State.initial .empty) tornRun = some s ∧
      s.history = [.empty, importedDb] ∧ s.published = [(tornSnapshot, 0)] :=
  ⟨_, rfl, rfl, rfl⟩

theorem moment_of_reflects {m : ℕ} {db : Database ℚ} {snapshot : ConfigSnapshot ℚ}
    (hdb : [Database.empty, importedDb][m]? = some db) (hreflects : Reflects snapshot db) :
    (snapshot.providers = [] → m = 0 ∧ db = .empty) ∧ (snapshot.providers ≠ [] → m = 1) := by
  match m with
  | 0 =>
    cases hdb
    have hnone : snapshot.providers = [] := (Except.ok.inj hreflects.providers).symm
    simp [hnone]
  | 1 =>
    cases hdb
    have hone : snapshot.providers = [⟨"u", "p", "u", .openAi, .obj []⟩] :=
      (Except.ok.inj hreflects.providers).symm
    simp [hone]
  | m + 2 => simp at hdb

/-- A snapshot without the import is published after the import, and another snapshot has a part
of the import only. -/
theorem overlapping_refreshes_inconsistent :
    (∃ s, runActions (refreshStep .default) (State.initial .empty) staleRun = some s ∧
        ¬ ∃ moment, Consistent s moment) ∧
      ∃ s, runActions (refreshStep .default) (State.initial .empty) tornRun = some s ∧
        ¬ ∃ moment, Consistent s moment := by
  obtain ⟨s, hrun, hhistory, hpublished⟩ := published_staleRun
  obtain ⟨t, htorn, htornHistory, htornPublished⟩ := published_tornRun
  refine ⟨⟨s, hrun, ?_⟩, t, htorn, ?_⟩
  · rintro ⟨moment, hconsistent⟩
    have himported : (importedSnapshot, 1) ∈ s.published := by simp [hpublished]
    have hstale : (staleSnapshot, 0) ∈ s.published := by simp [hpublished]
    obtain ⟨db, hdb, -, hreflects⟩ := hconsistent.reflects _ himported
    obtain ⟨old, hold, -, holdReflects⟩ := hconsistent.reflects _ hstale
    rw [hhistory] at hdb hold
    have hordered := hconsistent.ordered _ himported _ hstale (by decide)
    have hnew := (moment_of_reflects hdb hreflects).2 (cons_ne_nil _ _)
    have hempty := ((moment_of_reflects hold holdReflects).1 rfl).1
    omega
  · rintro ⟨moment, hconsistent⟩
    have hmem : (tornSnapshot, 0) ∈ t.published := by simp [htornPublished]
    obtain ⟨db, hdb, -, hreflects⟩ := hconsistent.reflects _ hmem
    rw [htornHistory] at hdb
    obtain ⟨-, rfl⟩ := (moment_of_reflects hdb hreflects).1 rfl
    have hpool : (tornSnapshot.poolConfigs.lookup "p").isSome = false := by
      rw [hreflects.poolConfigs]
      rfl
    exact absurd hpool (by decide)

end

end RefreshRace
end LlmProxy
