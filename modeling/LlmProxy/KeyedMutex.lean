import Mathlib.Data.List.AList
import Mathlib.Logic.Function.Basic
import Mathlib.Tactic.Common

/-!
# Locks that are made on demand, one for each key

A map gives each key its lock the first time it is asked for, and never forgets one.  A task copies
the lock of its key, waits, and holds it until it is released.
-/

/-- The locks by key and the tasks that hold them.  A lock is a number; those from `next` on do
not exist yet. -/
structure KeyedMutex (Key Task : Type*) [DecidableEq Key] where
  locks : AList fun _ : Key => ℕ
  next : ℕ
  holder : ℕ → Option Task
  made : ∀ key lock, locks.lookup key = some lock → lock < next
  distinct : ∀ key other lock, locks.lookup key = some lock → locks.lookup other = some lock →
    key = other
  held : ∀ lock, (holder lock).isSome → lock < next

namespace KeyedMutex

open Function

variable {Key Task : Type*} [DecidableEq Key]

def empty : KeyedMutex Key Task where
  locks := ∅
  next := 0
  holder := fun _ => none
  made := by simp
  distinct := by simp
  held := by simp

variable (mutex : KeyedMutex Key Task)

def lockOf (key : Key) : ℕ := (mutex.locks.lookup key).getD mutex.next

def demand (key : Key) : KeyedMutex Key Task :=
  match hlookup : mutex.locks.lookup key with
  | some _ => mutex
  | none =>
    { locks := mutex.locks.insert key mutex.next
      next := mutex.next + 1
      holder := mutex.holder
      made := fun other lock hother => by
        by_cases hkey : other = key
        · subst hkey
          rw [AList.lookup_insert, Option.some.injEq] at hother
          omega
        · rw [AList.lookup_insert_ne hkey] at hother
          exact Nat.lt_succ_of_lt (mutex.made other lock hother)
      distinct := fun first second lock hfirst hsecond => by
        by_cases hone : first = key <;> by_cases htwo : second = key
        · rw [hone, htwo]
        · rw [hone, AList.lookup_insert, Option.some.injEq] at hfirst
          rw [AList.lookup_insert_ne htwo] at hsecond
          have hlt := mutex.made second lock hsecond
          omega
        · rw [htwo, AList.lookup_insert, Option.some.injEq] at hsecond
          rw [AList.lookup_insert_ne hone] at hfirst
          have hlt := mutex.made first lock hfirst
          omega
        · rw [AList.lookup_insert_ne hone] at hfirst
          rw [AList.lookup_insert_ne htwo] at hsecond
          exact mutex.distinct first second lock hfirst hsecond
      held := fun lock hheld => Nat.lt_succ_of_lt (mutex.held lock hheld) }

def acquire (task : Task) (lock : ℕ) : Option (KeyedMutex Key Task) :=
  if hfree : mutex.holder lock = none ∧ lock < mutex.next then
    some
      { mutex with
        holder := Function.update mutex.holder lock (some task)
        held := fun other hother => by
          by_cases hlock : other = lock
          · exact hlock ▸ hfree.2
          · rw [Function.update_of_ne hlock] at hother
            exact mutex.held other hother }
  else none

def release (lock : ℕ) : KeyedMutex Key Task :=
  { mutex with
    holder := Function.update mutex.holder lock none
    held := fun other hother => by
      by_cases hlock : other = lock
      · rw [hlock, Function.update_self] at hother
        cases hother
      · rw [Function.update_of_ne hlock] at hother
        exact mutex.held other hother }

@[simp] theorem holder_release (lock : ℕ) :
    (mutex.release lock).holder = Function.update mutex.holder lock none := rfl

/-- Two tasks that hold the lock of one key are the same task: `Holds.unique`. -/
def Holds (task : Task) (key : Key) : Prop :=
  ∃ lock, mutex.locks.lookup key = some lock ∧ mutex.holder lock = some task

variable {mutex} {key other : Key} {task : Task} {lock : ℕ}

theorem Holds.unique {first second : Task} (hfirst : mutex.Holds first key)
    (hsecond : mutex.Holds second key) : first = second := by
  obtain ⟨lock, hlock, hholder⟩ := hfirst
  obtain ⟨again, hagain, hother⟩ := hsecond
  rw [hlock, Option.some.injEq] at hagain
  rw [← hagain, hholder, Option.some.injEq] at hother
  exact hother

theorem lookup_demand : (mutex.demand key).locks.lookup key = some (mutex.lockOf key) := by
  unfold demand
  split
  · next found hfound => rw [lockOf, hfound, Option.getD_some]
  · next hnone =>
      have hlock : mutex.lockOf key = mutex.next := by rw [lockOf, hnone, Option.getD_none]
      rw [hlock]
      exact AList.lookup_insert _

theorem lookup_demand_of_some (hlookup : mutex.locks.lookup other = some lock) :
    (mutex.demand key).locks.lookup other = some lock := by
  unfold demand
  split
  · exact hlookup
  · next hnone =>
      have hne : other ≠ key := by
        rintro rfl
        rw [hnone] at hlookup
        cases hlookup
      exact (AList.lookup_insert_ne hne).trans hlookup

theorem holder_demand : (mutex.demand key).holder = mutex.holder := by
  unfold demand
  split <;> rfl

theorem holds_demand_iff : (mutex.demand key).Holds task other ↔ mutex.Holds task other := by
  constructor
  · rintro ⟨lock, hlock, hholder⟩
    rw [holder_demand] at hholder
    cases hlookup : mutex.locks.lookup other with
    | some old =>
      rw [lookup_demand_of_some hlookup, Option.some.injEq] at hlock
      exact ⟨old, hlookup, hlock ▸ hholder⟩
    | none =>
      have hlt := mutex.held lock (by rw [hholder]; rfl)
      unfold demand at hlock
      split at hlock
      · rw [hlookup] at hlock
        cases hlock
      · by_cases hkey : other = key
        · subst hkey
          rw [AList.lookup_insert, Option.some.injEq] at hlock
          omega
        · rw [AList.lookup_insert_ne hkey, hlookup] at hlock
          cases hlock
  · rintro ⟨lock, hlock, hholder⟩
    exact ⟨lock, lookup_demand_of_some hlock, by rw [holder_demand, hholder]⟩

variable {after : KeyedMutex Key Task}

theorem acquire_eq_some (hacquire : mutex.acquire task lock = some after) :
    mutex.holder lock = none ∧ after.locks = mutex.locks ∧
      after.holder = Function.update mutex.holder lock (some task) := by
  unfold acquire at hacquire
  split_ifs at hacquire with hfree
  cases hacquire
  exact ⟨hfree.1, rfl, rfl⟩

theorem holds_acquire_iff {who : Task} (hacquire : mutex.acquire task lock = some after)
    (hlock : mutex.locks.lookup key = some lock) :
    after.Holds who other ↔ mutex.Holds who other ∨ (who = task ∧ other = key) := by
  obtain ⟨hfree, hlocks, hholder⟩ := acquire_eq_some hacquire
  unfold Holds
  rw [hlocks, hholder]
  constructor
  · rintro ⟨found, hfound, hwho⟩
    by_cases hsame : found = lock
    · subst hsame
      rw [update_self, Option.some.injEq] at hwho
      exact .inr ⟨hwho.symm, mutex.distinct other key found hfound hlock⟩
    · rw [update_of_ne hsame] at hwho
      exact .inl ⟨found, hfound, hwho⟩
  · rintro (⟨found, hfound, hwho⟩ | ⟨rfl, rfl⟩)
    · have hne : found ≠ lock := by
        rintro rfl
        rw [hfree] at hwho
        cases hwho
      exact ⟨found, hfound, by rw [update_of_ne hne, hwho]⟩
    · exact ⟨lock, hlock, update_self ..⟩

theorem holds_release_iff (hlock : mutex.locks.lookup key = some lock) :
    (mutex.release lock).Holds task other ↔ mutex.Holds task other ∧ other ≠ key := by
  constructor
  · rintro ⟨found, hfound, hholder⟩
    have hfound' : mutex.locks.lookup other = some found := hfound
    have hne : found ≠ lock := by
      rintro rfl
      rw [holder_release, update_self] at hholder
      cases hholder
    rw [holder_release, update_of_ne hne] at hholder
    refine ⟨⟨found, hfound', hholder⟩, ?_⟩
    rintro rfl
    rw [hlock, Option.some.injEq] at hfound'
    exact hne hfound'.symm
  · rintro ⟨⟨found, hfound, hholder⟩, hkey⟩
    have hne : found ≠ lock := by
      rintro rfl
      exact hkey (mutex.distinct other key found hfound hlock)
    exact ⟨found, hfound, by rw [holder_release, update_of_ne hne, hholder]⟩

/-- From `mutex` to `after`, no lock is lost and no task but `task` has taken or released one. -/
structure ChangedBy (task : Task) (mutex after : KeyedMutex Key Task) : Prop where
  locks : ∀ key lock, mutex.locks.lookup key = some lock → after.locks.lookup key = some lock
  holds : ∀ who, who ≠ task → ∀ key, after.Holds who key ↔ mutex.Holds who key

theorem ChangedBy.refl (task : Task) (mutex : KeyedMutex Key Task) : ChangedBy task mutex mutex :=
  ⟨fun _ _ hlock => hlock, fun _ _ _ => Iff.rfl⟩

theorem changedBy_demand (task : Task) (mutex : KeyedMutex Key Task) (key : Key) :
    ChangedBy task mutex (mutex.demand key) :=
  ⟨fun _ _ hlock => lookup_demand_of_some hlock, fun _ _ _ => holds_demand_iff⟩

theorem changedBy_acquire (hacquire : mutex.acquire task lock = some after)
    (hlock : mutex.locks.lookup key = some lock) : ChangedBy task mutex after where
  locks := by
    rw [(acquire_eq_some hacquire).2.1]
    exact fun _ _ hfound => hfound
  holds := fun who hwho other => by
    rw [holds_acquire_iff hacquire hlock]
    simp [hwho]

theorem changedBy_release (hlock : mutex.locks.lookup key = some lock)
    (hholds : mutex.Holds task key) : ChangedBy task mutex (mutex.release lock) where
  locks := fun _ _ hfound => hfound
  holds := fun who hwho other => by
    rw [holds_release_iff hlock]
    refine and_iff_left_of_imp fun hother hkey => ?_
    subst hkey
    exact hwho (hother.unique hholds)

end KeyedMutex
