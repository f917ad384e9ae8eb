import LlmProxy.KeyPool
import Mathlib.Tactic

/-!
# Weighted key selection and bad-key tracking

The registry of temporarily excluded keys, the weighted draw and the router methods over them
(`router.rs`).
-/

namespace LlmProxy

open List Bool

/-! ## The bad-key registry -/

/-- The registry is shared by every router and by the health task, so the methods take it as an
argument and return it when they change it. -/
structure BadKeyRegistry where
  bad : AList fun _ : String => List String

namespace BadKeyRegistry

def new : BadKeyRegistry := ⟨∅⟩

variable (registry : BadKeyRegistry) (poolId keyHash : String)

/-- A key marked twice is in the list twice. -/
def markBad : BadKeyRegistry :=
  ⟨registry.bad.insert poolId
    ((registry.bad.lookup poolId).getD [] ++ [keyHash])⟩

def isBad : Bool :=
  match registry.bad.lookup poolId with
  | some list => list.any (· == keyHash)
  | none => false

/-- Every mark with its pool. -/
def snapshot : List (String × String) :=
  registry.bad.entries.flatMap fun entry =>
    entry.2.map fun keyHash => (entry.1, keyHash)

/-- The first half of `remove_bad`, under the entry's lock: drop the hash from
the pool's list and report whether the list is now empty. -/
def retainOthers : BadKeyRegistry × Bool :=
  match registry.bad.lookup poolId with
  | some list =>
    let kept := list.filter (· != keyHash)
    (⟨registry.bad.insert poolId kept⟩, kept.isEmpty)
  | none => (registry, false)

/-- The second half of `remove_bad`: forget the pool's entry. -/
def dropPool : BadKeyRegistry :=
  ⟨registry.bad.erase poolId⟩

/-- All marks of the key go, and with the last mark of a pool its list. -/
def removeBad : BadKeyRegistry :=
  let (retained, empty) := registry.retainOthers poolId keyHash
  if empty then retained.dropPool poolId else retained

def badList : List String :=
  (registry.bad.lookup poolId).getD []

theorem isBad_iff : registry.isBad poolId keyHash = true ↔ keyHash ∈ registry.badList poolId := by
  unfold isBad badList
  cases registry.bad.lookup poolId <;> simp

variable (otherPool : String)

theorem badList_markBad :
    (registry.markBad poolId keyHash).badList otherPool =
      if otherPool = poolId then registry.badList poolId ++ [keyHash]
      else registry.badList otherPool := by
  unfold badList markBad
  split_ifs with hpool
  · subst otherPool
    simp
  · rw [AList.lookup_insert_ne hpool]

theorem badList_dropPool :
    (registry.dropPool poolId).badList otherPool =
      if otherPool = poolId then [] else registry.badList otherPool := by
  unfold badList dropPool
  split_ifs with hpool
  · subst otherPool
    simp
  · rw [AList.lookup_erase_ne hpool]

theorem badList_retainOthers :
    (registry.retainOthers poolId keyHash).1.badList otherPool =
      if otherPool = poolId then (registry.badList poolId).filter (· != keyHash)
      else registry.badList otherPool := by
  unfold badList retainOthers
  cases hlist : registry.bad.lookup poolId with
  | none =>
    split_ifs with hpool
    · subst otherPool
      simp [hlist]
    · rfl
  | some =>
    split_ifs with hpool
    · subst otherPool
      simp
    · simp only [AList.lookup_insert_ne hpool]

theorem badList_of_retainOthers_empty {registry : BadKeyRegistry} {poolId keyHash : String}
    (hempty : (registry.retainOthers poolId keyHash).2 = true) :
    (registry.retainOthers poolId keyHash).1.badList poolId = [] := by
  unfold retainOthers at hempty ⊢
  cases hlist : registry.bad.lookup poolId with
  | none => simp [hlist] at hempty
  | some =>
    rw [hlist] at hempty
    simpa [badList] using hempty

theorem badList_removeBad :
    (registry.removeBad poolId keyHash).badList otherPool =
      if otherPool = poolId then (registry.badList poolId).filter (· != keyHash)
      else registry.badList otherPool := by
  have hretained := badList_retainOthers registry poolId keyHash
  unfold removeBad
  by_cases hempty : (registry.retainOthers poolId keyHash).2 = true
  · have hnil := badList_of_retainOthers_empty hempty
    rw [hretained, if_pos rfl] at hnil
    simp only [hempty, if_true]
    rw [badList_dropPool, hretained]
    split_ifs with hpool
    · exact hnil.symm
    · rfl
  · simp only [hempty]
    exact hretained otherPool

theorem isBad_markBad_iff (otherHash : String) :
    (registry.markBad poolId keyHash).isBad otherPool otherHash = true ↔
      registry.isBad otherPool otherHash = true ∨
        (otherPool = poolId ∧ otherHash = keyHash) := by
  rw [isBad_iff, isBad_iff, badList_markBad]
  by_cases hpool : otherPool = poolId
  · simp [hpool]
  · simp [hpool]

theorem isBad_removeBad_iff (otherHash : String) :
    (registry.removeBad poolId keyHash).isBad otherPool otherHash = true ↔
      registry.isBad otherPool otherHash = true ∧
        ¬ (otherPool = poolId ∧ otherHash = keyHash) := by
  rw [isBad_iff, isBad_iff, badList_removeBad]
  by_cases hpool : otherPool = poolId
  · simp [hpool]
  · simp [hpool]

end BadKeyRegistry

/-! ## The weighted draw -/

structure WeightedIndex where
  cumulativeWeights : List UInt32
  totalWeight : UInt32

namespace WeightedIndex

def runningSums : UInt32 → List UInt32 → List UInt32 × UInt32
  | total, [] => ([], total)
  | total, w :: rest =>
    let (sums, last) := runningSums (total + w) rest
    (total :: sums, last)

/-- `WeightedIndex::new` of the `rand` crate: it fails on an empty list and on
a zero total. -/
def new : List UInt32 → Option WeightedIndex
  | [] => none
  | w :: rest =>
    let (sums, total) := runningSums w rest
    if total = 0 then none else some ⟨sums, total⟩

/-- The number the sampler draws is compared with the running sums. -/
def sample (dist : WeightedIndex) (chosen : UInt32) : ℕ :=
  (dist.cumulativeWeights.takeWhile (· ≤ chosen)).length

theorem toNat_add_of_lt {a b : UInt32} (hsum : a.toNat + b.toNat < 2 ^ 32) :
    (a + b).toNat = a.toNat + b.toNat := by
  exact Nat.mod_eq_of_lt hsum

variable (total : UInt32) (weights : List UInt32)

theorem runningSums_length : (runningSums total weights).1.length = weights.length := by
  induction weights generalizing total with
  | nil => rfl
  | cons w rest ih => simp [runningSums, ih]

theorem runningSums_total (hsum : total.toNat + (weights.map UInt32.toNat).sum < 2 ^ 32) :
    (runningSums total weights).2.toNat = total.toNat + (weights.map UInt32.toNat).sum := by
  induction weights generalizing total with
  | nil => simp [runningSums]
  | cons w rest ih =>
    simp only [map_cons, sum_cons] at hsum ⊢
    have hstep : (total + w).toNat = total.toNat + w.toNat := toNat_add_of_lt (by omega)
    simp only [runningSums]
    rw [ih (total + w) (by omega)]
    omega

theorem sample_lt {weights : List UInt32} {dist : WeightedIndex}
    (hnew : new weights = some dist) (chosen : UInt32) : dist.sample chosen < weights.length := by
  cases weights with
  | nil => simp [new] at hnew
  | cons w rest =>
    simp only [new] at hnew
    split_ifs at hnew
    simp only [Option.some.injEq] at hnew
    subst dist
    have hle := (takeWhile_sublist (fun sum => decide (sum ≤ chosen))
      (l := (runningSums w rest).1)).length_le
    rw [runningSums_length] at hle
    simp only [sample, length_cons]
    omega

theorem exists_takeWhile_length (floor : UInt32) (hfloor : floor.toNat < total.toNat)
    (hpos : ∀ w ∈ weights, 0 < w.toNat)
    (hsum : total.toNat + (weights.map UInt32.toNat).sum < 2 ^ 32) (i : ℕ)
    (hi : i ≤ weights.length) :
    ∃ chosen : UInt32, floor.toNat ≤ chosen.toNat ∧
      ((runningSums total weights).1.takeWhile (· ≤ chosen)).length = i := by
  induction weights generalizing total floor i with
  | nil =>
    refine ⟨floor, le_refl _, ?_⟩
    simp only [length_nil, Nat.le_zero] at hi
    simp [runningSums, hi]
  | cons w rest ih =>
    simp only [map_cons, sum_cons] at hsum
    have hstep : (total + w).toNat = total.toNat + w.toNat := toNat_add_of_lt (by omega)
    cases i with
    | zero =>
      refine ⟨floor, le_refl _, ?_⟩
      have hhead : ¬ total ≤ floor := by
        rw [UInt32.le_iff_toNat_le]
        omega
      simp [runningSums, hhead]
    | succ i =>
      have hw := hpos w mem_cons_self
      obtain ⟨chosen, hge, hlen⟩ := ih (total + w) total (by omega)
        (fun v hv => hpos v (mem_cons_of_mem _ hv)) (by omega) i
        (by simpa using hi)
      refine ⟨chosen, by omega, ?_⟩
      have hhead : total ≤ chosen := UInt32.le_iff_toNat_le.mpr hge
      simp [runningSums, hhead, hlen]

theorem exists_sample {weights : List UInt32} (hpos : ∀ w ∈ weights, 0 < w.toNat)
    (hsum : (weights.map UInt32.toNat).sum < 2 ^ 32) (i : ℕ) (hi : i < weights.length) :
    ∃ dist chosen, new weights = some dist ∧ dist.sample chosen = i := by
  cases weights with
  | nil => simp at hi
  | cons w rest =>
    have hw := hpos w mem_cons_self
    have htotal := runningSums_total w rest hsum
    have hne : (runningSums w rest).2 ≠ 0 := by
      intro hzero
      rw [hzero] at htotal
      simp only [UInt32.toNat_zero] at htotal
      omega
    obtain ⟨chosen, -, hlen⟩ := exists_takeWhile_length w rest 0
      (by simpa using hw) (fun v hv => hpos v (mem_cons_of_mem _ hv))
      hsum i (by simpa using Nat.le_of_lt_succ hi)
    exact ⟨⟨(runningSums w rest).1, (runningSums w rest).2⟩, chosen, by simp [new, hne], hlen⟩

end WeightedIndex

/-! ## Routing -/

structure RouteEntry where
  poolId : String
  pool : PoolConfig
  defaultParams : Option Json.Value
  upstreamModel : Option String

structure Router (Provider : Type) where
  modelMap : AList fun _ : String => RouteEntry
  providers : AList fun _ : String => Provider

namespace Router

/-- A model may be known while its pool has no provider. -/
def resolve {Provider : Type} (router : Router Provider) (model : String) :
    Except AppError (Provider × RouteEntry) :=
  match router.modelMap.lookup model with
  | none => .error (.notFound s!"model '{model}' not found")
  | some entry =>
    match router.providers.lookup entry.poolId with
    | none =>
      let poolId := entry.poolId
      .error (.config s!"pool '{poolId}' not found")
    | some provider => .ok (provider, entry)

variable [Sha256] (bad : BadKeyRegistry) (poolId : String) (entry : KeyEntry)

/-- The filter of `healthy_key_count` and `pick_key`. -/
def selectable : Bool :=
  0 < entry.weight && !bad.isBad poolId entry.identityHash

variable (pool : PoolConfig)

def candidates (poolId : String) : List KeyEntry :=
  pool.keys.filter (selectable bad poolId)

def healthyKeyCount (poolId : String) : ℕ :=
  (candidates bad pool poolId).length

/-- `chosen` is the drawn number. -/
def pickKey (poolId : String) (chosen : UInt32) : Option KeyEntry :=
  let keys := candidates bad pool poolId
  if keys.isEmpty then none
  else
    (WeightedIndex.new (keys.map KeyEntry.weight)).bind fun dist =>
      keys[dist.sample chosen]?

def markBad : BadKeyRegistry :=
  bad.markBad poolId entry.identityHash

/-- The last healthy key of a pool is not demoted. -/
def tryDemote (poolId : String) (entry : KeyEntry) : BadKeyRegistry × Bool :=
  if healthyKeyCount bad pool poolId ≤ 1 then (bad, false)
  else (markBad bad poolId entry, true)

def poolExhausted : AppError :=
  .internal s!"all keys in pool '{poolId}' exhausted"

theorem selectable_iff :
    selectable bad poolId entry = true ↔
      0 < entry.weight ∧ bad.isBad poolId entry.identityHash = false := by
  simp [selectable]

variable {bad : BadKeyRegistry} {poolId : String} {pool : PoolConfig} {entry : KeyEntry}

theorem mem_candidates :
    entry ∈ candidates bad pool poolId ↔ entry ∈ pool.keys ∧ selectable bad poolId entry = true :=
  mem_filter

theorem pickKey_mem {chosen : UInt32} (hpick : pickKey bad pool poolId chosen = some entry) :
    entry ∈ candidates bad pool poolId := by
  unfold pickKey at hpick
  simp only at hpick
  split_ifs at hpick
  obtain ⟨dist, -, hentry⟩ := Option.bind_eq_some_iff.mp hpick
  exact mem_of_getElem? hentry

theorem candidates_weight_pos :
    ∀ w ∈ (candidates bad pool poolId).map KeyEntry.weight, 0 < w.toNat := by
  intro w hw
  obtain ⟨entry, hentry, rfl⟩ := mem_map.mp hw
  have hselect := (selectable_iff bad poolId entry).mp (mem_candidates.mp hentry).2
  simpa [UInt32.lt_iff_toNat_lt] using hselect.1

def WeightsFit (bad : BadKeyRegistry) (pool : PoolConfig) (poolId : String) : Prop :=
  (((candidates bad pool poolId).map KeyEntry.weight).map UInt32.toNat).sum < 2 ^ 32

theorem exists_pickKey (hfit : WeightsFit bad pool poolId)
    (hentry : entry ∈ candidates bad pool poolId) :
    ∃ chosen, pickKey bad pool poolId chosen = some entry := by
  obtain ⟨i, hi, hget⟩ := mem_iff_getElem.mp hentry
  obtain ⟨dist, chosen, hnew, hsample⟩ :=
    WeightedIndex.exists_sample candidates_weight_pos hfit i (by simpa using hi)
  refine ⟨chosen, ?_⟩
  have hne : (candidates bad pool poolId).isEmpty = false := by
    rw [isEmpty_eq_false_iff]
    exact ne_nil_of_mem hentry
  unfold pickKey
  simp only [hne, hnew, Option.bind_some, hsample]
  simp [getElem?_eq_getElem hi, hget]

theorem pickKey_isSome (hfit : WeightsFit bad pool poolId) (chosen : UInt32)
    (hne : candidates bad pool poolId ≠ []) :
    ∃ entry, pickKey bad pool poolId chosen = some entry := by
  have hempty : (candidates bad pool poolId).isEmpty = false := by
    rw [isEmpty_eq_false_iff]
    exact hne
  obtain ⟨dist, -, hnew, -⟩ :=
    WeightedIndex.exists_sample candidates_weight_pos hfit 0
      (by simpa using length_pos_of_ne_nil hne)
  have hlt := WeightedIndex.sample_lt hnew chosen
  rw [length_map] at hlt
  unfold pickKey
  simp only [hempty, hnew]
  simp [getElem?_eq_getElem hlt]

theorem candidates_markBad (bad : BadKeyRegistry) (pool : PoolConfig) (poolId keyHash : String) :
    candidates (bad.markBad poolId keyHash) pool poolId =
      (candidates bad pool poolId).filter (·.identityHash ≠ keyHash) := by
  unfold candidates
  rw [filter_filter]
  apply filter_congr
  intro entry _
  have hmark := bad.isBad_markBad_iff poolId keyHash poolId entry.identityHash
  rw [Bool.eq_iff_iff]
  simp only [selectable_iff, and_eq_true, decide_eq_true_eq]
  rw [← not_eq_true, ← not_eq_true]
  tauto

theorem candidates_markBad_other (bad : BadKeyRegistry) (pool : PoolConfig) {otherPool : String}
    (hpool : otherPool ≠ poolId) (keyHash : String) :
    candidates (bad.markBad poolId keyHash) pool otherPool = candidates bad pool otherPool := by
  apply filter_congr
  intro entry _
  have hmark := bad.isBad_markBad_iff poolId keyHash otherPool entry.identityHash
  rw [Bool.eq_iff_iff]
  simp only [selectable_iff]
  rw [← not_eq_true, ← not_eq_true]
  tauto

theorem candidates_sublist_removeBad (bad : BadKeyRegistry) (pool : PoolConfig)
    (poolId otherPool keyHash : String) :
    (candidates bad pool poolId).Sublist
      (candidates (bad.removeBad otherPool keyHash) pool poolId) := by
  apply monotone_filter_right
  intro entry hentry
  rw [selectable_iff] at hentry ⊢
  refine ⟨hentry.1, ?_⟩
  rw [← not_eq_true, BadKeyRegistry.isBad_removeBad_iff]
  rw [← not_eq_true] at hentry
  exact fun hbad => hentry.2 hbad.1

def DistinctIdentities (pool : PoolConfig) : Prop :=
  ((pool.keys.filter (0 < ·.weight)).map KeyEntry.identityHash).Nodup

theorem healthyKeyCount_markBad_pos {keyHash : String} (hdistinct : DistinctIdentities pool)
    (hcount : 1 < healthyKeyCount bad pool poolId) :
    0 < healthyKeyCount (bad.markBad poolId keyHash) pool poolId := by
  have hsub : (candidates bad pool poolId).Sublist
      (pool.keys.filter (0 < ·.weight)) := by
    apply monotone_filter_right
    intro entry hentry
    simpa using ((selectable_iff bad poolId entry).mp hentry).1
  have hnodup : ((candidates bad pool poolId).map KeyEntry.identityHash).Nodup :=
    hdistinct.sublist (hsub.map _)
  rw [healthyKeyCount, candidates_markBad]
  unfold healthyKeyCount at hcount
  cases hfirst : candidates bad pool poolId with
  | nil => simp [hfirst] at hcount
  | cons first tail =>
    cases hsecond : tail with
    | nil => simp [hfirst, hsecond] at hcount
    | cons second =>
      rw [hfirst, hsecond] at hnodup
      have hne : first.identityHash ≠ second.identityHash := by
        simp only [map_cons, nodup_cons, mem_cons] at hnodup
        exact fun h => hnodup.1 (.inl h)
      apply length_pos_of_mem (a := if first.identityHash = keyHash then second else first)
      split_ifs with hhash
      · have hsecondHash : second.identityHash ≠ keyHash := hhash ▸ hne.symm
        simp [hsecondHash]
      · simp [hhash]

end Router

end LlmProxy
