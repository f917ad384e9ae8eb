import Mathlib.Data.List.AList
import Mathlib.Tactic

/-!
# The per-key circuit breaker

The breaker keeps one entry per `(pool_id, key_hash)` (`circuit_breaker.rs`).  Every method holds
the map's guard for the entry while it runs, so a call is one atomic step on one entry.
-/

namespace LlmProxy

inductive CircuitState where
  | closed
  | opened
  | halfOpen
  deriving DecidableEq, Repr

/-- Instants are nanoseconds on one clock. -/
structure CircuitEntry where
  failures : ℕ
  successes : ℕ
  lastFailureAt : Option ℕ
  openedAt : Option ℕ
  state : CircuitState
  deriving DecidableEq, Repr

structure BreakerPolicy where
  failureThreshold : ℕ
  cooldownSecs : ℕ
  halfOpenMax : ℕ
  deriving DecidableEq, Repr

/-- `CircuitBreaker::with_defaults`. -/
def BreakerPolicy.defaults : BreakerPolicy where
  failureThreshold := 5
  cooldownSecs := 60
  halfOpenMax := 3

def BreakerPolicy.cooldown (policy : BreakerPolicy) : ℕ :=
  policy.cooldownSecs * 1000000000

namespace CircuitEntry

def new : CircuitEntry where
  failures := 0
  successes := 0
  lastFailureAt := none
  openedAt := none
  state := .closed

variable (policy : BreakerPolicy)

def cooldownElapsed (now : ℕ) (entry : CircuitEntry) : Bool :=
  match entry.openedAt with
  | some at_ => policy.cooldown ≤ now - at_
  | none => false

/-- Once the cooldown of an open circuit is over, the next call makes it half-open. -/
def allow (now : ℕ) (entry : CircuitEntry) : Bool × CircuitEntry :=
  match entry.state with
  | .closed => (true, entry)
  | .opened =>
    if entry.cooldownElapsed policy now then
      (true, { entry with state := .halfOpen, successes := 0 })
    else (false, entry)
  | .halfOpen => (entry.successes < policy.halfOpenMax, entry)

/-- An open circuit ignores a success. -/
def recordSuccess (entry : CircuitEntry) : CircuitEntry :=
  match entry.state with
  | .closed => { entry with failures := 0 }
  | .halfOpen =>
    let succ := entry.successes + 1
    if policy.halfOpenMax ≤ succ then
      { entry with successes := succ, state := .closed, failures := 0 }
    else { entry with successes := succ }
  | .opened => entry

/-- Whether the circuit opens. -/
def recordFailure (now : ℕ) (entry : CircuitEntry) : Bool × CircuitEntry :=
  match entry.state with
  | .closed =>
    let failures := entry.failures + 1
    if policy.failureThreshold ≤ failures then
      (true, { entry with
        lastFailureAt := some now, failures := failures
        state := .opened, openedAt := some now })
    else (false, { entry with lastFailureAt := some now, failures := failures })
  | .halfOpen => (true, { entry with state := .opened, openedAt := some now })
  | .opened => (false, entry)

def reset (entry : CircuitEntry) : CircuitEntry :=
  { entry with failures := 0, successes := 0, state := .closed }

end CircuitEntry

abbrev CircuitKey := String × String

structure CircuitBreaker where
  circuits : AList fun _ : CircuitKey => CircuitEntry
  policy : BreakerPolicy
  totalTrips : ℕ

namespace CircuitBreaker

def new (policy : BreakerPolicy) : CircuitBreaker := ⟨∅, policy, 0⟩

variable (breaker : CircuitBreaker) (key : CircuitKey)

/-- The entry a method works on: `entry(key).or_insert_with(new)`. -/
def entryOf : CircuitEntry :=
  (breaker.circuits.lookup key).getD .new

variable (entry : CircuitEntry)

def update : CircuitBreaker :=
  { breaker with circuits := breaker.circuits.insert key entry }

variable (now : ℕ)

def allow : Bool × CircuitBreaker :=
  let (allowed, entry) := (breaker.entryOf key).allow breaker.policy now
  (allowed, breaker.update key entry)

def recordSuccess : CircuitBreaker :=
  breaker.update key ((breaker.entryOf key).recordSuccess breaker.policy)

def recordFailure : Bool × CircuitBreaker :=
  let (tripped, entry) := (breaker.entryOf key).recordFailure breaker.policy now
  let updated := breaker.update key entry
  (tripped, if tripped then { updated with totalTrips := updated.totalTrips + 1 }
    else updated)

/-- A key without an entry is closed. -/
def state : CircuitState :=
  match breaker.circuits.lookup key with
  | some entry => entry.state
  | none => .closed

def reset : CircuitBreaker :=
  match breaker.circuits.lookup key with
  | some entry => breaker.update key entry.reset
  | none => breaker

theorem state_eq : breaker.state key = (breaker.entryOf key).state := by
  unfold state entryOf
  cases breaker.circuits.lookup key <;> rfl

variable (other : CircuitKey)

theorem entryOf_update (entry : CircuitEntry) :
    (breaker.update key entry).entryOf other =
      if other = key then entry else breaker.entryOf other := by
  unfold entryOf update
  split_ifs with heq
  · subst other
    simp
  · simp [AList.lookup_insert_ne heq]

theorem entryOf_allow (now : ℕ) :
    (breaker.allow key now).2.entryOf other =
      if other = key then ((breaker.entryOf key).allow breaker.policy now).2
      else breaker.entryOf other := by
  exact entryOf_update _ _ _ _

theorem entryOf_recordFailure (now : ℕ) :
    (breaker.recordFailure key now).2.entryOf other =
      if other = key then ((breaker.entryOf key).recordFailure breaker.policy now).2
      else breaker.entryOf other := by
  rw [← entryOf_update]
  unfold recordFailure
  dsimp only
  split_ifs <;> rfl

@[simp] theorem recordFailure_policy :
    (breaker.recordFailure key now).2.policy = breaker.policy := by
  unfold recordFailure
  dsimp only
  split_ifs <;> rfl

theorem entryOf_reset :
    (breaker.reset key).entryOf other =
      if other = key then (breaker.entryOf key).reset else breaker.entryOf other := by
  unfold reset
  cases hentry : breaker.circuits.lookup key with
  | none =>
    split_ifs with heq
    · subst other
      simp [entryOf, hentry, CircuitEntry.reset, CircuitEntry.new]
    · rfl
  | some entry =>
    have hof : breaker.entryOf key = entry := by simp [entryOf, hentry]
    rw [entryOf_update, hof]

end CircuitBreaker

end LlmProxy
