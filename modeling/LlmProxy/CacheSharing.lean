import LlmProxy.RequestAccounting

/-!
# What the requests share of the cache

Every request works on a clone of the application state.  The fields behind an
`Arc` are shared by all clones, while the prompt cache is a field by value, and the
clone of its map is a copy.  An answer is stored in the copy of its own request and
is gone with it, so no request is ever answered from the cache.
-/

namespace LlmProxy

open Json List Utf8Bytes PromptCache

variable {Cost : Type}

/-! ## Clones of the state -/

inductive CloneKind
  | copied
  | shared

/-- The field of `AppState` that is not behind an `Arc`. -/
structure AppState where
  cache : ResponseCache

def AppState.bootstrap (maxEntries : ℕ) : AppState := ⟨.new maxEntries⟩

section

variable [SerdeJson] [Sha256] (state : AppState)

def AppState.calling (call : ChatCall Cost) : ChatCall Cost :=
  { call with cache := state.cache }

variable (clone : CloneKind)

def AppState.after (state : AppState) (call : ChatCall Cost) : AppState :=
  match clone with
  | .copied => state
  | .shared => ⟨(state.calling call).handle.cache⟩

def AppState.afterAll (state : AppState) (calls : List (ChatCall Cost)) : AppState :=
  calls.foldl (AppState.after clone) state

/-- A request that can be answered from the cache, and later the same request: the
first was answered, the second comes within the time an entry lives, and no request
in between had to evict an entry. -/
structure Repeated (clone : CloneKind) (state : AppState) (before : List (ChatCall Cost))
    (first : ChatCall Cost) (between : List (ChatCall Cost)) (second : ChatCall Cost) : Prop where
  cacheable : first.cacheable = true
  enabled : 0 < first.policy.cacheMaxEntries
  answered : (((state.afterAll clone before).calling first).handle).succeeded = true
  same : second.req = first.req
  admitted : second.permit = true
  fresh : second.times.lookupAt - first.times.storedAt ≤ state.cache.ttl
  room : ∀ done call later, between = done ++ call :: later →
    (state.afterAll clone (before ++ first :: done)).cache.inner.entries.length <
      state.cache.maxEntries

def AnswersRepeats (state : AppState) (history : List (ChatCall Cost)) : Prop :=
  ∀ before first between second later,
    history = before ++ first :: between ++ second :: later →
    Repeated clone state before first between second →
    let handled := ((state.afterAll clone (before ++ first :: between)).calling second).handle
    handled.fromCache = true ∧ handled.attempts = []

/-! ## Copies -/

theorem afterAll_copied (calls : List (ChatCall Cost)) : state.afterAll .copied calls = state := by
  induction calls with
  | nil => rfl
  | cons call calls ih => exact ih

variable {call : ChatCall Cost}

theorem lookup_of_empty (hempty : call.cache.inner = ∅) : call.lookup.1 = none := by
  unfold ChatCall.lookup PromptCache.get
  rw [hempty]
  split_ifs
  · rfl
  · rfl

theorem fromCache_of_miss (hmiss : call.lookup.1 = none) : call.handle.fromCache = false := by
  rw [Bool.eq_false_iff, ne_eq, call.fromCache_iff, hmiss]
  simp

theorem fromCache_copied (maxEntries : ℕ) (before : List (ChatCall Cost)) (call : ChatCall Cost) :
    (((AppState.bootstrap maxEntries).afterAll .copied before).calling call).handle.fromCache =
      false := by
  rw [afterAll_copied]
  exact fromCache_of_miss (lookup_of_empty rfl)

/-- Repeated requests are answered from the cache only where none is repeated. -/
theorem answersRepeats_iff_none_repeated (maxEntries : ℕ) (history : List (ChatCall Cost)) :
    AnswersRepeats .copied (.bootstrap maxEntries) history ↔
      ∀ before first between second later,
        history = before ++ first :: between ++ second :: later →
        ¬ Repeated .copied (.bootstrap maxEntries) before first between second := by
  constructor
  · intro hanswers before first between second later hsplit hrepeated
    have hcached := (hanswers before first between second later hsplit hrepeated).1
    rw [fromCache_copied] at hcached
    cases hcached
  · intro hnone before first between second later hsplit hrepeated
    exact absurd hrepeated (hnone before first between second later hsplit)

end

section

attribute [local instance] jsonText zeroSha256

def routedCall : ChatCall ℕ :=
  { askCall "acme" (.new 256) with
    router :=
      ⟨(∅ : AList fun _ : String => RouteEntry).insert "m" ⟨"p", twoKeyPool, none, none⟩,
        (∅ : AList fun _ : String => Provider).insert "p" ⟨.openAi, "u"⟩⟩
    attempts := fun _ =>
      { chosen := 0
        refresh := .unchanged
        allowAt := 0
        failedAt := 0
        exchange := ⟨.ok ⟨.ok, none, print bareBody, []⟩, ""⟩
        provider := ⟨[], id, [], 0⟩ } }

/-- The upstream is asked again. -/
theorem repeat_asks_upstream :
    Repeated .copied (.bootstrap 256) [] routedCall [] routedCall ∧
      (((AppState.bootstrap 256).afterAll .copied [routedCall]).calling
        routedCall).handle.fromCache = false ∧
      ((((AppState.bootstrap 256).afterAll .copied [routedCall]).calling
        routedCall).handle.attempts.countP RetryLoop.AttemptEvent.isCall) = 1 := by
  refine ⟨⟨rfl, by decide, ?_, rfl, rfl, by decide, by simp⟩, ?_, ?_⟩
  · decide +kernel
  · decide +kernel
  · decide +kernel

end

end LlmProxy
