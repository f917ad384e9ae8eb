import LlmProxy.Router
import LlmProxy.WeightedDraw

/-!
# How likely a key is

`pick_key` filters the enumerated keys of the pool, sums their weights in 32 bits and compares a
uniform number below the total with the running sums.  As long as the total fits, each entry that
can be selected is returned for as many numbers as it weighs.
-/

namespace LlmProxy

open List WeightedDraw

namespace WeightedIndex

variable {A : Type} (weight : A → UInt32)

/-- Without overflow the sampler finds the item that the number falls into; `floor` is the
weight of the items before. -/
theorem getElem?_takeWhile_runningSums (floor chosen : UInt32) (item : A) (rest : List A)
    (hsum : floor.toNat + total (fun item => (weight item).toNat) (item :: rest) < 2 ^ 32)
    (hfloor : floor.toNat ≤ chosen.toNat) (hchosen : chosen.toNat <
      floor.toNat + total (fun item => (weight item).toNat) (item :: rest)) :
    (item :: rest)[((runningSums (floor + weight item) (rest.map weight)).1.takeWhile
        (· ≤ chosen)).length]? =
      pick (fun item => (weight item).toNat) (item :: rest) (chosen.toNat - floor.toNat) := by
  induction rest generalizing item floor with
  | nil =>
    simp only [total_cons, total_nil] at hchosen
    have hinside : chosen.toNat - floor.toNat < (weight item).toNat := by omega
    simp [runningSums, pick, hinside]
  | cons next rest ih =>
    rw [total_cons] at hsum hchosen
    have hstep : (floor + weight item).toNat = floor.toNat + (weight item).toNat :=
      toNat_add_of_lt (by omega)
    by_cases hle : floor + weight item ≤ chosen
    · have hpast := UInt32.le_iff_toNat_le.mp hle
      have houtside : ¬chosen.toNat - floor.toNat < (weight item).toNat := by omega
      have hnext := ih (floor + weight item) next (by omega) hpast (by omega)
      have hshift : chosen.toNat - floor.toNat - (weight item).toNat =
          chosen.toNat - (floor + weight item).toNat := by omega
      rw [pick, if_neg houtside, hshift, ← hnext]
      simp [runningSums, hle]
    · have hbefore := Nat.lt_of_not_le fun hge => hle (UInt32.le_iff_toNat_le.mpr hge)
      have hinside : chosen.toNat - floor.toNat < (weight item).toNat := by omega
      simp [runningSums, pick, hle, hinside]

theorem bind_sample_eq_pick {items : List A} (chosen : UInt32)
    (hsum : total (fun item => (weight item).toNat) items < 2 ^ 32)
    (hchosen : chosen.toNat < total (fun item => (weight item).toNat) items) :
    (new (items.map weight)).bind (fun dist => items[dist.sample chosen]?) =
      pick (fun item => (weight item).toNat) items chosen.toNat := by
  cases items with
  | nil => simp at hchosen
  | cons item rest =>
    have htotal := runningSums_total (weight item) (rest.map weight) (by
      simpa [total, Function.comp_def] using hsum)
    have hne : (runningSums (weight item) (rest.map weight)).2 ≠ 0 := by
      intro hzero
      rw [hzero] at htotal
      simp only [total, map_cons, sum_cons] at hchosen
      simp only [UInt32.toNat_zero, map_map, Function.comp_def] at htotal
      omega
    have hfound := getElem?_takeWhile_runningSums weight 0 chosen item rest
      (by simpa using hsum) (by simp) (by simpa using hchosen)
    simpa [new, hne, sample] using hfound

end WeightedIndex

namespace Router

variable [Sha256] (bad : BadKeyRegistry) (pool : PoolConfig) (poolId : String)

def totalWeight : ℕ :=
  total (fun entry => entry.weight.toNat) (candidates bad pool poolId)

def pickPosition (chosen : UInt32) : Option (KeyEntry × ℕ) :=
  let keys := pool.keys.zipIdx.filter fun item => selectable bad poolId item.1
  if keys.isEmpty then none
  else
    (WeightedIndex.new (keys.map fun item => item.1.weight)).bind fun dist =>
      keys[dist.sample chosen]?

def draws (item : KeyEntry × ℕ) : ℕ :=
  Nat.count (fun n => pickPosition bad pool poolId (UInt32.ofNat n) = some item)
    (totalWeight bad pool poolId)

def chance (item : KeyEntry × ℕ) : ℚ :=
  draws bad pool poolId item / totalWeight bad pool poolId

def marked (marks : List (String × String)) : BadKeyRegistry :=
  marks.foldl (fun registry mark => registry.markBad mark.1 mark.2) bad

variable {bad : BadKeyRegistry} {pool : PoolConfig} {poolId : String}

theorem weightsFit_iff : WeightsFit bad pool poolId ↔ totalWeight bad pool poolId < 2 ^ 32 := by
  unfold WeightsFit
  rw [map_map]
  rfl

theorem candidates_eq_map (bad : BadKeyRegistry) (pool : PoolConfig) (poolId : String) :
    candidates bad pool poolId =
      (pool.keys.zipIdx.filter fun item => selectable bad poolId item.1).map Prod.fst := by
  have hkeys := zipIdx_map_fst 0 pool.keys
  unfold candidates
  nth_rewrite 1 [← hkeys]
  rw [filter_map]
  rfl

theorem totalWeight_eq (bad : BadKeyRegistry) (pool : PoolConfig) (poolId : String) :
    totalWeight bad pool poolId = total (fun item => item.1.weight.toNat)
      (pool.keys.zipIdx.filter fun item => selectable bad poolId item.1) := by
  unfold totalWeight
  rw [candidates_eq_map, total_map]

theorem pickKey_eq_map (bad : BadKeyRegistry) (pool : PoolConfig) (poolId : String)
    (chosen : UInt32) :
    pickKey bad pool poolId chosen = (pickPosition bad pool poolId chosen).map Prod.fst := by
  unfold pickKey pickPosition
  simp only [candidates_eq_map, isEmpty_map, map_map, getElem?_map]
  split_ifs with hempty
  · rfl
  · rw [Option.map_bind]
    rfl

theorem pickPosition_eq_pick {n : ℕ} (hfit : totalWeight bad pool poolId < 2 ^ 32)
    (hn : n < totalWeight bad pool poolId) :
    pickPosition bad pool poolId (UInt32.ofNat n) =
      pick (fun item => item.1.weight.toNat)
        (pool.keys.zipIdx.filter fun item => selectable bad poolId item.1) n := by
  have hword : (UInt32.ofNat n).toNat = n := UInt32.toNat_ofNat_of_lt' (hn.trans hfit)
  rw [totalWeight_eq] at hfit hn
  have hpick := WeightedIndex.bind_sample_eq_pick
    (fun item : KeyEntry × ℕ => item.1.weight) (UInt32.ofNat n) hfit (by rwa [hword])
  rw [hword] at hpick
  unfold pickPosition
  simp only
  split_ifs with hempty
  · rw [List.isEmpty_iff.mp hempty] at hn
    cases hn
  · exact hpick

theorem draws_eq_weight (hfit : totalWeight bad pool poolId < 2 ^ 32) {item : KeyEntry × ℕ}
    (hitem : item ∈ pool.keys.zipIdx) (hselect : selectable bad poolId item.1 = true) :
    draws bad pool poolId item = item.1.weight.toNat := by
  have hpositions : pool.keys.zipIdx.Nodup := by
    apply List.Nodup.of_map Prod.snd
    rw [zipIdx_map_snd]
    exact nodup_range'
  have hcount := count_draw (fun item : KeyEntry × ℕ => item.1.weight.toNat)
    (fun n hn => pickPosition_eq_pick hfit (by rwa [totalWeight_eq]))
    (hpositions.filter fun item => selectable bad poolId item.1)
    (mem_filter.mpr ⟨hitem, hselect⟩)
  rw [← totalWeight_eq] at hcount
  exact hcount

omit [Sha256] in
theorem isBad_marked (marks : List (String × String)) {keyHash : String}
    (hbad : bad.isBad poolId keyHash = true) : (marked bad marks).isBad poolId keyHash = true := by
  induction marks generalizing bad with
  | nil => exact hbad
  | cons mark marks ih =>
    exact ih ((bad.isBad_markBad_iff mark.1 mark.2 poolId keyHash).mpr (.inl hbad))

theorem selectable_of_marked {marks : List (String × String)} {entry : KeyEntry}
    (hselect : selectable (marked bad marks) poolId entry = true) :
    selectable bad poolId entry = true := by
  rw [selectable_iff] at hselect ⊢
  refine ⟨hselect.1, ?_⟩
  rw [← Bool.not_eq_true] at hselect ⊢
  exact fun hbad => hselect.2 (isBad_marked marks hbad)

theorem totalWeight_marked_le (marks : List (String × String)) :
    totalWeight (marked bad marks) pool poolId ≤ totalWeight bad pool poolId := by
  apply total_le_of_sublist
  apply monotone_filter_right
  exact fun entry hselect => selectable_of_marked hselect

theorem chance_le_chance_marked (hfit : totalWeight bad pool poolId < 2 ^ 32)
    (marks : List (String × String)) {item : KeyEntry × ℕ} (hitem : item ∈ pool.keys.zipIdx)
    (hselect : selectable (marked bad marks) poolId item.1 = true) :
    chance bad pool poolId item ≤ chance (marked bad marks) pool poolId item := by
  have hle : totalWeight (marked bad marks) pool poolId ≤ totalWeight bad pool poolId :=
    totalWeight_marked_le marks
  have hpos : 0 < totalWeight (marked bad marks) pool poolId := by
    have hweight := ((selectable_iff _ poolId item.1).mp hselect).1
    have hmem : item.1 ∈ candidates (marked bad marks) pool poolId :=
      mem_candidates.mpr ⟨fst_mem_of_mem_zipIdx hitem, hselect⟩
    have htotal := weight_le_total (fun entry : KeyEntry => entry.weight.toNat) hmem
    exact lt_of_lt_of_le hweight htotal
  unfold chance
  rw [draws_eq_weight hfit hitem (selectable_of_marked hselect),
    draws_eq_weight (hle.trans_lt hfit) hitem hselect]
  gcongr

def HasSelectable (bad : BadKeyRegistry) (pool : PoolConfig) (poolId : String) : Prop :=
  ∃ entry ∈ pool.keys, 0 < entry.weight ∧ bad.isBad poolId entry.identityHash = false

theorem pickKey_isSome_iff (hfit : WeightsFit bad pool poolId) (chosen : UInt32) :
    (pickKey bad pool poolId chosen).isSome = true ↔ HasSelectable bad pool poolId := by
  rw [Option.isSome_iff_exists]
  constructor
  · intro hsome
    obtain ⟨entry, hentry⟩ := hsome
    obtain ⟨hmem, hselect⟩ := mem_candidates.mp (pickKey_mem hentry)
    exact ⟨entry, hmem, (selectable_iff bad poolId entry).mp hselect⟩
  · intro hhas
    obtain ⟨entry, hmem, hselect⟩ := hhas
    have hcandidate := mem_candidates.mpr ⟨hmem, (selectable_iff bad poolId entry).mpr hselect⟩
    exact pickKey_isSome hfit chosen (ne_nil_of_mem hcandidate)

/-- What `pick_key` returns over all draws, for a total weight of less than 32 bits. -/
theorem pickKey_weighted (bad : BadKeyRegistry) (pool : PoolConfig) (poolId : String)
    (hfit : totalWeight bad pool poolId < 2 ^ 32) :
    (∀ chosen, (pickKey bad pool poolId chosen).isSome = true ↔ HasSelectable bad pool poolId) ∧
    (∀ chosen entry, pickKey bad pool poolId chosen = some entry →
      entry ∈ pool.keys ∧ 0 < entry.weight ∧ bad.isBad poolId entry.identityHash = false) ∧
    (∀ chosen, pickKey bad pool poolId chosen =
      (pickPosition bad pool poolId chosen).map Prod.fst) ∧
    (∀ item ∈ pool.keys.zipIdx, selectable bad poolId item.1 = true →
      draws bad pool poolId item = item.1.weight.toNat) ∧
    ∀ marks, ∀ item ∈ pool.keys.zipIdx, selectable (marked bad marks) poolId item.1 = true →
      chance bad pool poolId item ≤ chance (marked bad marks) pool poolId item := by
  refine ⟨fun chosen => pickKey_isSome_iff (weightsFit_iff.mpr hfit) chosen, ?_,
    fun chosen => pickKey_eq_map bad pool poolId chosen,
    fun item hitem hselect => draws_eq_weight hfit hitem hselect,
    fun marks item hitem hselect => chance_le_chance_marked hfit marks hitem hselect⟩
  intro chosen entry hpick
  obtain ⟨hmem, hselect⟩ := mem_candidates.mp (pickKey_mem hpick)
  exact ⟨hmem, (selectable_iff bad poolId entry).mp hselect⟩

end Router

section

attribute [local instance] zeroSha256

def weightedPool : PoolConfig where
  keys := [{ key := "a", weight := 2, identity := some "a" },
    { key := "b", weight := 0, identity := some "b" },
    { key := "c", weight := 5, identity := some "c" },
    { key := "d", weight := 3, identity := some "d" },
    { key := "a", weight := 2, identity := some "a" }]

theorem pickKey_weighted_weightedPool :
    Router.totalWeight (BadKeyRegistry.new.markBad "p" "c") weightedPool "p" = 7 ∧
      Router.draws (BadKeyRegistry.new.markBad "p" "c") weightedPool "p"
        ({ key := "d", weight := 3, identity := some "d" }, 3) = 3 := by
  have htotal : Router.totalWeight (BadKeyRegistry.new.markBad "p" "c") weightedPool "p" = 7 := by
    decide +kernel
  exact ⟨htotal, (Router.pickKey_weighted _ weightedPool "p" (by rw [htotal]; decide)).2.2.2.1 _
    (by decide) (by decide +kernel)⟩

end

end LlmProxy
