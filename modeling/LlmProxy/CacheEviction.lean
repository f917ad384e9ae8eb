import LlmProxy.BestScan
import LlmProxy.GuardedRun
import LlmProxy.PromptCache

/-!
# What the prompt cache keeps

Over any sequence of calls the cache holds at most `max_entries` answers, and a lookup gives none
that is older than the time to live.
-/

namespace LlmProxy

open AList Json List Option Utf8Bytes PromptCache

namespace PromptCache

variable {Key α : Type}

/-- The argument is in seconds, the clock in nanoseconds. -/
def withTtl (ttlSecs : ℕ) (cache : PromptCache Key α) : PromptCache Key α :=
  { cache with ttl := ttlSecs * 10 ^ 9 }

def size (cache : PromptCache Key α) : ℕ := cache.inner.entries.length

theorem length_keys (cache : PromptCache Key α) : cache.inner.keys.length = cache.size :=
  length_map _

variable [DecidableEq Key]

def staleKeys (now : ℕ) (cache : PromptCache Key α) : List Key :=
  (cache.inner.entries.filter fun e => cache.ttl < now - e.2.createdAt).map Sigma.fst

/-- Entries past the time to live go; the answer is their number. -/
def prune (now : ℕ) (cache : PromptCache Key α) : ℕ × PromptCache Key α :=
  let pruned : PromptCache Key α :=
    { cache with
      inner := (cache.staleKeys now).foldl (fun inner key => inner.erase key) cache.inner }
  (cache.size - pruned.size, pruned)

section

variable {cache : PromptCache Key α} {scan : List Key}

def timeOf (cache : PromptCache Key α) (key : Key) : Option (Key × ℕ) :=
  (cache.inner.lookup key).map fun entry => (key, entry.createdAt)

theorem oldest_eq_argmin (cache : PromptCache Key α) (scan : List Key) :
    cache.oldest scan = (scan.filterMap cache.timeOf).argmin Prod.snd := by
  refine BestScan.KeepsBest.scan_eq_argmin ⟨?_, ?_, ?_⟩ scan
  · intro best key hread
    rw [timeOf, map_eq_none_iff] at hread
    rw [hread]
  · intro key seen hread
    obtain ⟨entry, hentry, rfl⟩ := map_eq_some_iff.mp hread
    rw [hentry]
    rfl
  · intro key seen best hread
    obtain ⟨entry, hentry, rfl⟩ := map_eq_some_iff.mp hread
    rw [hentry]
    simp only [all_some, decide_eq_true_eq]

def IsOldest (cache : PromptCache Key α) (victim : Key) : Prop :=
  ∃ entry, cache.inner.lookup victim = some entry ∧
    ∀ other e, cache.inner.lookup other = some e → entry.createdAt ≤ e.createdAt

theorem isOldest_of_oldest (hscan : scan.Perm cache.inner.keys) {victim : Key} {t : ℕ}
    (holdest : cache.oldest scan = some (victim, t)) : cache.IsOldest victim := by
  rw [oldest_eq_argmin] at holdest
  obtain ⟨key, -, hread⟩ := mem_filterMap.mp (argmin_mem holdest)
  obtain ⟨entry, hentry, hseen⟩ := map_eq_some_iff.mp hread
  cases hseen
  refine ⟨entry, hentry, ?_⟩
  intro other e hother
  have hmem : other ∈ scan := by
    rw [hscan.mem_iff, ← AList.mem_keys, ← lookup_isSome, hother]
    rfl
  have hseen : (other, e.createdAt) ∈ scan.filterMap cache.timeOf :=
    mem_filterMap.mpr ⟨other, hmem, by rw [timeOf, hother]; rfl⟩
  have hle : (victim, entry.createdAt).2 ≤ (other, e.createdAt).2 :=
    le_of_mem_argmin hseen holdest
  exact hle

theorem oldest_ne_none (hscan : scan.Perm cache.inner.keys) (hsome : 0 < cache.size) :
    cache.oldest scan ≠ none := by
  intro hnone
  rw [oldest_eq_argmin, argmin_eq_none] at hnone
  rw [← length_keys] at hsome
  obtain ⟨key, hkey⟩ := exists_mem_of_length_pos hsome
  obtain ⟨entry, hentry⟩ := isSome_iff_exists.mp (lookup_isSome.mpr hkey)
  have hseen : (key, entry.createdAt) ∈ scan.filterMap cache.timeOf :=
    mem_filterMap.mpr ⟨key, hscan.mem_iff.mpr hkey, by rw [timeOf, hentry]; rfl⟩
  rw [hnone] at hseen
  cases hseen

theorem evict_cases (hmax : 0 < cache.maxEntries) (hscan : scan.Perm cache.inner.keys) :
    cache.size < cache.maxEntries ∧ cache.evictOldestIfNeeded scan = cache ∨
      cache.maxEntries ≤ cache.size ∧ ∃ victim t, cache.oldest scan = some (victim, t) ∧
        cache.evictOldestIfNeeded scan = { cache with inner := cache.inner.erase victim } := by
  unfold evictOldestIfNeeded
  by_cases hroom : cache.inner.entries.length < cache.maxEntries
  · rw [if_pos hroom]
    exact .inl ⟨hroom, rfl⟩
  · rw [if_neg hroom]
    have hfull : cache.maxEntries ≤ cache.size := Nat.le_of_not_lt hroom
    obtain ⟨⟨victim, t⟩, hvictim⟩ := ne_none_iff_exists'.mp
      (oldest_ne_none hscan (hmax.trans_le hfull))
    rw [hvictim]
    exact .inr ⟨hfull, victim, t, rfl, rfl⟩

end

section

variable {cache : PromptCache Key α}

theorem size_erase_le (cache : PromptCache Key α) (key : Key) :
    (cache.inner.erase key).keys.length ≤ cache.size := by
  rw [keys_erase, ← length_keys]
  exact erase_sublist.length_le

theorem size_erase_of_mem {key : Key} (hkey : key ∈ cache.inner) :
    (cache.inner.erase key).keys.length + 1 = cache.size := by
  have hpos : 0 < cache.inner.keys.length := length_pos_of_mem hkey
  rw [keys_erase, length_erase_of_mem hkey, ← length_keys]
  omega

theorem size_erase_of_not_mem {key : Key} (hkey : key ∉ cache.inner) :
    (cache.inner.erase key).keys.length = cache.size := by
  rw [keys_erase, erase_of_not_mem hkey, length_keys]

end

section

variable [SerdeJson] (digest : Bytes → Key) {cache : PromptCache Key α} {scan : List Key} (now : ℕ)
  (req : ChatCompletionRequest) (response : α)

theorem size_put :
    (cache.put digest now scan req response).size =
      ((cache.evictOldestIfNeeded scan).inner.erase (cacheKey digest req)).keys.length + 1 := by
  rw [← length_keys, put]
  rw [keys_insert, keys_erase, length_cons]

theorem size_put_le (hmax : 0 < cache.maxEntries) (hscan : scan.Perm cache.inner.keys)
    (hsize : cache.size ≤ cache.maxEntries) :
    (cache.put digest now scan req response).size ≤ cache.maxEntries := by
  rw [size_put]
  have herase := size_erase_le (cache.evictOldestIfNeeded scan) (cacheKey digest req)
  rcases evict_cases hmax hscan with ⟨hroom, hsame⟩ | ⟨hfull, victim, t, hvictim, hevicted⟩
  · rw [hsame] at herase ⊢
    omega
  · obtain ⟨entry, hentry, -⟩ := isOldest_of_oldest hscan hvictim
    have hmem : victim ∈ cache.inner := lookup_isSome.mp (by rw [hentry]; rfl)
    have hone := size_erase_of_mem hmem
    have hevictedSize : (cache.evictOldestIfNeeded scan).size + 1 = cache.size := by
      rw [← length_keys, hevicted]
      exact hone
    omega

theorem lookup_put_of_ne {other : Key} (hother : other ≠ cacheKey digest req) :
    (cache.put digest now scan req response).inner.lookup other =
      (cache.evictOldestIfNeeded scan).inner.lookup other :=
  lookup_insert_ne hother

/-- Another entry is dropped only if `max_entries` answers are stored under other keys,
and then it is an oldest one and nothing else. -/
structure EvictsIfNeeded (before after : PromptCache Key α) (key : Key) : Prop where
  kept : (before.inner.erase key).keys.length < before.maxEntries →
    ∀ other, other ≠ key → after.inner.lookup other = before.inner.lookup other
  evicted : before.maxEntries ≤ (before.inner.erase key).keys.length →
    ∃ victim, victim ≠ key ∧ before.IsOldest victim ∧ after.inner.lookup victim = none ∧
      ∀ other, other ≠ key → other ≠ victim →
        after.inner.lookup other = before.inner.lookup other

def Displaces (cache : PromptCache Key α) (scan : List Key) (key : Key) : Prop :=
  cache.maxEntries ≤ cache.size ∧ key ∈ cache.inner ∧
    ∃ victim t, cache.oldest scan = some (victim, t) ∧ victim ≠ key

theorem put_evictsIfNeeded_iff (hmax : 0 < cache.maxEntries) (hscan : scan.Perm cache.inner.keys)
    (hsize : cache.size ≤ cache.maxEntries) :
    EvictsIfNeeded cache (cache.put digest now scan req response) (cacheKey digest req) ↔
      ¬ cache.Displaces scan (cacheKey digest req) := by
  constructor
  · rintro hneeded ⟨hfull, hstored, victim, t, hvictim, hne⟩
    obtain ⟨entry, hentry, -⟩ := isOldest_of_oldest hscan hvictim
    have hroom := size_erase_of_mem hstored
    have hkept := hneeded.kept (by omega) victim hne
    rcases evict_cases hmax hscan with ⟨hless, -⟩ | ⟨-, found, u, hfound, hevicted⟩
    · omega
    · rw [hvictim] at hfound
      cases hfound
      rw [lookup_put_of_ne digest now req response hne, hevicted, lookup_erase, hentry]
        at hkept
      cases hkept
  · intro hnot
    refine ⟨?_, ?_⟩
    · intro hroom other hother
      rw [lookup_put_of_ne digest now req response hother]
      rcases evict_cases hmax hscan with ⟨-, hsame⟩ | ⟨hfull, victim, t, hvictim, hevicted⟩
      · rw [hsame]
      · -- The key is stored, so the entry that is dropped is its own.
        have hstored : cacheKey digest req ∈ cache.inner := by
          by_contra hmissing
          have hall := size_erase_of_not_mem hmissing
          omega
        have hown : victim = cacheKey digest req := by
          by_contra hne
          exact hnot ⟨hfull, hstored, victim, t, hvictim, hne⟩
        rw [hevicted, hown]
        exact lookup_erase_ne hother
    · intro hothers
      have hmissing : cacheKey digest req ∉ cache.inner := by
        intro hstored
        have hone := size_erase_of_mem hstored
        omega
      have hall := size_erase_of_not_mem hmissing
      rcases evict_cases hmax hscan with ⟨hless, -⟩ | ⟨-, victim, t, hvictim, hevicted⟩
      · omega
      · have holdest := isOldest_of_oldest hscan hvictim
        have hne : victim ≠ cacheKey digest req := by
          rintro rfl
          obtain ⟨entry, hentry, -⟩ := holdest
          exact hmissing (lookup_isSome.mp (by rw [hentry]; rfl))
        refine ⟨victim, hne, holdest, ?_, ?_⟩
        · rw [lookup_put_of_ne digest now req response hne, hevicted]
          exact lookup_erase _ _
        · intro other hother hvictim'
          rw [lookup_put_of_ne digest now req response hother, hevicted]
          exact lookup_erase_ne hvictim'

end

section

variable [SerdeJson] (digest : Bytes → Key) (cache : PromptCache Key α)

omit [SerdeJson] in
theorem maxEntries_evict (scan : List Key) :
    (cache.evictOldestIfNeeded scan).maxEntries = cache.maxEntries := by
  unfold evictOldestIfNeeded
  split_ifs
  · rfl
  · split
    · rfl
    · rfl

theorem get_cases (now : ℕ) (req : ChatCompletionRequest) :
    (cache.get digest now req).2 = cache ∨
      (cache.get digest now req).2 =
        { cache with inner := cache.inner.erase (cacheKey digest req) } := by
  unfold get
  split
  · exact .inl rfl
  · split_ifs
    · exact .inr rfl
    · exact .inl rfl

theorem size_get_le (now : ℕ) (req : ChatCompletionRequest) :
    (cache.get digest now req).2.size ≤ cache.size := by
  rcases cache.get_cases digest now req with hsame | herased
  · rw [hsame]
  · rw [herased, ← length_keys]
    exact size_erase_le cache _

theorem maxEntries_get (now : ℕ) (req : ChatCompletionRequest) :
    (cache.get digest now req).2.maxEntries = cache.maxEntries := by
  rcases cache.get_cases digest now req with hsame | herased
  · rw [hsame]
  · rw [herased]

end

theorem size_foldl_erase_le (keys : List Key) (inner : AList fun _ : Key => CacheEntry α) :
    (keys.foldl (fun inner key => inner.erase key) inner).keys.length ≤ inner.keys.length := by
  induction keys generalizing inner with
  | nil => rfl
  | cons key keys ih =>
    refine (ih (inner.erase key)).trans ?_
    rw [keys_erase]
    exact erase_sublist.length_le

theorem size_prune_le (cache : PromptCache Key α) (now : ℕ) :
    (cache.prune now).2.size ≤ cache.size := by
  rw [← length_keys, ← length_keys]
  exact size_foldl_erase_le _ _

theorem lookup_foldl_erase {keys : List Key} {inner : AList fun _ : Key => CacheEntry α}
    {key : Key} {entry : CacheEntry α}
    (hlookup : (keys.foldl (fun inner key => inner.erase key) inner).lookup key = some entry) :
    inner.lookup key = some entry := by
  induction keys generalizing inner with
  | nil => exact hlookup
  | cons stale keys ih =>
    have herased := ih hlookup
    by_cases hkey : key = stale
    · rw [hkey, lookup_erase] at herased
      cases herased
    · rwa [lookup_erase_ne hkey] at herased

end PromptCache

/-! ## Sequences of calls -/

inductive CacheCall (Key α : Type)
  | put (now : ℕ) (scan : List Key) (req : ChatCompletionRequest) (response : α)
  | get (now : ℕ) (req : ChatCompletionRequest)
  | prune (now : ℕ)

def CacheCall.now {Key α : Type} : CacheCall Key α → ℕ
  | .put now _ _ _ => now
  | .get now _ => now
  | .prune now => now

structure TimedCache (Key α : Type) where
  cache : PromptCache Key α
  clock : ℕ

namespace TimedCache

open StepSystem

variable {Key α : Type}

def initial (maxEntries ttlSecs : ℕ) : TimedCache Key α :=
  ⟨(PromptCache.new maxEntries).withTtl ttlSecs, 0⟩

variable [DecidableEq Key]

def Admits (s : TimedCache Key α) (call : CacheCall Key α) : Prop :=
  s.clock ≤ call.now ∧
    match call with
    | .put _ scan _ _ => scan.Perm s.cache.inner.keys
    | _ => True

structure Kept (maxEntries ttl : ℕ) (s : TimedCache Key α) : Prop where
  bound : s.cache.size ≤ maxEntries
  maxEntries : s.cache.maxEntries = maxEntries
  ttl : s.cache.ttl = ttl
  stored : ∀ key entry, s.cache.inner.lookup key = some entry → entry.createdAt ≤ s.clock

theorem kept_initial {maxEntries : ℕ} (hmax : 1 ≤ maxEntries) (ttlSecs : ℕ) :
    Kept maxEntries (ttlSecs * 10 ^ 9) (initial maxEntries ttlSecs : TimedCache Key α) where
  bound := Nat.zero_le _
  maxEntries := if_neg (by omega)
  ttl := rfl
  stored key entry hlookup := by cases hlookup

variable [SerdeJson] (digest : Bytes → Key)

def apply (s : TimedCache Key α) : CacheCall Key α → PromptCache Key α
  | .put now scan req response => s.cache.put digest now scan req response
  | .get now req => (s.cache.get digest now req).2
  | .prune now => (s.cache.prune now).2

def step (s : TimedCache Key α) (call : CacheCall Key α) : Option (TimedCache Key α) :=
  some ⟨s.apply digest call, call.now⟩

variable {digest}

theorem Kept.step {maxEntries ttl : ℕ} {s t : TimedCache Key α} {call : CacheCall Key α}
    (hmax : 1 ≤ maxEntries) (hkept : Kept maxEntries ttl s) (hadmits : s.Admits call)
    (hstep : s.step digest call = some t) : Kept maxEntries ttl t := by
  cases hstep
  have hlater : ∀ key entry, s.cache.inner.lookup key = some entry →
      entry.createdAt ≤ call.now := fun key entry hlookup =>
    (hkept.stored key entry hlookup).trans hadmits.1
  have hbound := hkept.bound
  have hentries := hkept.maxEntries
  cases call with
  | put now scan req response =>
    refine ⟨?_, ?_, ?_, ?_⟩
    · rw [← hentries] at hbound ⊢
      exact size_put_le digest now req response (by omega) hadmits.2 hbound
    · exact (maxEntries_evict s.cache scan).trans hentries
    · exact (ttl_evict s.cache scan).trans hkept.ttl
    · intro key entry hlookup
      rcases lookup_put_eq_some digest hlookup with ⟨-, rfl⟩ | ⟨-, hold⟩
      · exact le_rfl
      · exact hlater key entry hold
  | get now req =>
    refine ⟨?_, ?_, ?_, ?_⟩
    · exact (size_get_le digest s.cache now req).trans hbound
    · exact (maxEntries_get digest s.cache now req).trans hentries
    · exact (ttl_get digest s.cache now req).trans hkept.ttl
    · intro key entry hlookup
      exact hlater key entry (lookup_get_eq_some digest hlookup)
  | prune now =>
    refine ⟨?_, hentries, hkept.ttl, ?_⟩
    · exact (size_prune_le s.cache now).trans hbound
    · intro key entry hlookup
      exact hlater key entry (lookup_foldl_erase hlookup)

/-- After any sequence of calls the cache is within its bound, a lookup gives no entry
older than the time to live, and a put drops another entry only where it has to, exactly
if it does not replace an answer of a full cache whose oldest entry is another one. -/
theorem cache_bounded_and_fresh {maxEntries ttlSecs : ℕ} (hmax : 1 ≤ maxEntries)
    {calls : List (CacheCall Key α)} {s : TimedCache Key α}
    (hrun : GuardedRun (step digest) Admits (initial maxEntries ttlSecs) calls s) :
    s.cache.size ≤ maxEntries ∧
      (∀ now req response, s.clock ≤ now → (s.cache.get digest now req).1 = some response →
        ∃ entry, s.cache.inner.lookup (cacheKey digest req) = some entry ∧
          entry.response = response ∧ entry.createdAt ≤ now ∧
          now ≤ entry.createdAt + ttlSecs * 10 ^ 9) ∧
      ∀ now scan req response, s.Admits (.put now scan req response) →
        (PromptCache.EvictsIfNeeded s.cache (s.cache.put digest now scan req response)
            (cacheKey digest req) ↔
          ¬ s.cache.Displaces scan (cacheKey digest req)) := by
  have hkept : Kept maxEntries (ttlSecs * 10 ^ 9) s :=
    hrun.invariant (Kept maxEntries (ttlSecs * 10 ^ 9))
      (fun _ _ _ hbefore hadmits hstep => hbefore.step hmax hadmits hstep)
      (kept_initial hmax ttlSecs)
  refine ⟨hkept.bound, ?_, ?_⟩
  · intro now req response hnow hhit
    obtain ⟨entry, hlookup, hresponse, hfresh⟩ := get_fresh digest hhit
    have hstored := hkept.stored _ entry hlookup
    rw [hkept.ttl] at hfresh
    exact ⟨entry, hlookup, hresponse, hstored.trans hnow, by omega⟩
  · intro now scan req response hadmits
    have hbound := hkept.bound
    rw [← hkept.maxEntries] at hbound hmax
    exact put_evictsIfNeeded_iff digest now req response hmax hadmits.2 hbound

end TimedCache

section

open StepSystem TimedCache

attribute [local instance] jsonText

def otherRequest : ChatCompletionRequest := { askRequest with model := "n" }

def storedTwo : TimedCache Bytes String :=
  ⟨((initial 2 300).cache.put id 0 [] askRequest "Hello").put id 1 [cacheKey id askRequest]
    otherRequest "Hi", 1⟩

theorem storedTwo_run :
    GuardedRun (step id) Admits (initial 2 300)
      [.put 0 [] askRequest "Hello", .put 1 [cacheKey id askRequest] otherRequest "Hi"]
      storedTwo :=
  ((GuardedRun.nil (initial 2 300)).snoc ⟨by decide, .refl _⟩ (by rfl)).snoc
    ⟨by decide, .refl _⟩ (by rfl)

def thirdRequest : ChatCompletionRequest := { askRequest with model := "o" }

/-- A third question finds the cache full. -/
theorem cache_bounded_storedTwo :
    storedTwo.cache.size ≤ 2 ∧
      (∃ entry, storedTwo.cache.inner.lookup (cacheKey id askRequest) = some entry ∧
        entry.response = "Hello" ∧ entry.createdAt ≤ 300000000000 ∧
        300000000000 ≤ entry.createdAt + 300 * 10 ^ 9) ∧
      PromptCache.EvictsIfNeeded storedTwo.cache
        (storedTwo.cache.put id 2 storedTwo.cache.inner.keys thirdRequest "Hey")
        (cacheKey id thirdRequest) := by
  obtain ⟨hbound, hfresh, hevicts⟩ := cache_bounded_and_fresh (by decide) storedTwo_run
  refine ⟨hbound, hfresh 300000000000 askRequest "Hello" (by decide) (by rfl), ?_⟩
  refine (hevicts 2 _ thirdRequest "Hey" ⟨by decide, .refl _⟩).mpr ?_
  rintro ⟨-, hmem, -⟩
  exact (by decide +kernel : cacheKey id thirdRequest ∉ storedTwo.cache.inner) hmem

/-- A second answer to the other question is stored: there is room for both questions,
and the answer to the first one is dropped. -/
theorem overwrite_drops_other :
    GuardedRun (step id) Admits (initial 2 300)
      [.put 0 [] askRequest "Hello", .put 1 [cacheKey id askRequest] otherRequest "Hi"] storedTwo ∧
      (storedTwo.cache.inner.erase (cacheKey id otherRequest)).keys.length = 1 ∧
      (storedTwo.cache.inner.lookup (cacheKey id askRequest)).isSome = true ∧
      ((storedTwo.cache.put id 2 storedTwo.cache.inner.keys otherRequest "Hi again").inner.lookup
        (cacheKey id askRequest)).isSome = false ∧
      (storedTwo.cache.put id 2 storedTwo.cache.inner.keys otherRequest "Hi again").size = 1 :=
  ⟨storedTwo_run, by decide +kernel⟩

end

end LlmProxy
