import Mathlib.Data.Prod.Lex
import Mathlib.Tactic
import LlmProxy.BestScan
import LlmProxy.JsonValue

/-!
# The catalog entry for a model

An import looks for the entry of the catalog that describes a routed model (`model_import.rs`).
-/

namespace LlmProxy

open Json

namespace ModelImport

structure Candidate where
  id : String
  provider : String
  value : Value

/-! ## Names -/

variable (s : String)

def endsWith (ending : String) : Bool := ending.toList.isSuffixOf s.toList

def containsText (part : String) : Bool := decide (part.toList <:+: s.toList)

/-- `to_ascii_lowercase` without `-`, `_` and blanks. -/
def norm : String :=
  String.ofList ((s.toList.map Char.toLower).filter fun c => c ∉ ['-', '_', ' '])

variable (destination : String)

/-- Equal names, one name with a path before it, or the catalog's within the model's. -/
def modelIdMatches (catalogId : String) : Bool :=
  destination == catalogId || endsWith destination ("/" ++ catalogId) ||
    endsWith catalogId ("/" ++ destination) || containsText destination catalogId

def relatedKinds : List (String × String) :=
  [("xai", "openai"), ("xai", "azure"), ("deepseek", "openai"), ("google", "gemini"),
    ("openai", "azure"), ("azureopenai", "azure"), ("azureopenai", "openai"), ("zai", "openai"),
    ("zhipuai", "openai"), ("zhipu", "openai")]

/-- The same name or kind, or a related kind. -/
def compatibleProvider (source configuredId configuredKind : String) : Bool :=
  norm source == norm configuredId || norm source == norm configuredKind ||
    relatedKinds.contains (norm source, norm configuredKind)

def canonicalCatalogRank (provider : String) : ℕ :=
  match norm provider with
  | "openai" | "anthropic" | "google" | "xai" | "deepseek" | "mistral" => 15
  | "zai" => 14
  | "zhipuai" => 13
  | "zhipu" => 12
  | "groq" => 11
  | _ => 0

def nameScore (id : String) : ℕ :=
  if id = destination then 100
  else if endsWith destination ("/" ++ id) || endsWith id ("/" ++ destination) then 80
  else if containsText destination id then 40 + min id.utf8ByteSize 20
  else 0

variable (candidate : Candidate)

/-- The names, a compatible provider and the rank of the catalog add up. -/
def catalogScore (providerRows : List (String × String)) : ℕ :=
  nameScore destination candidate.id +
    (if providerRows.any fun row => compatibleProvider candidate.provider row.1 row.2 then 20
      else 0) +
    canonicalCatalogRank candidate.provider

def Candidate.hasCost : Bool := (candidate.value.get "cost").isSome

/-- An entry with prices comes first, then provider and name decide. -/
def tieBreak (a b : Candidate) : Ordering :=
  (compare b.hasCost a.hasCost).then
    ((compare a.provider b.provider).then (compare a.id b.id))

def keepBest (providerRows : List (String × String)) (best : Option (Candidate × ℕ))
    (candidate : Candidate) : Option (Candidate × ℕ) :=
  if !modelIdMatches destination candidate.id then best
  else
    let score := catalogScore destination candidate providerRows
    match best with
    | none => some (candidate, score)
    | some (bestCandidate, bestScore) =>
      match compare score bestScore with
      | .gt => some (candidate, score)
      | .lt => best
      | .eq =>
        match tieBreak candidate bestCandidate with
        | .lt => some (candidate, score)
        | .gt | .eq => best

/-- The matching entry with the highest score. -/
def pickCatalogMatch (candidates : List Candidate) (destination : String)
    (providerRows : List (String × String)) : Option Candidate :=
  (candidates.foldl (keepBest destination providerRows) none).map Prod.fst

/-! ## What it keeps -/

def rankOf (score : ℕ) : ℕᵒᵈ ×ₗ Boolᵒᵈ ×ₗ String ×ₗ String :=
  toLex (OrderDual.toDual score, toLex (OrderDual.toDual candidate.hasCost,
    toLex (candidate.provider, candidate.id)))

variable {found b a : Candidate} {score : ℕ}

theorem tieBreak_lt_iff :
    tieBreak a b = .lt ↔
      toLex (OrderDual.toDual a.hasCost, toLex (a.provider, a.id)) <
        toLex (OrderDual.toDual b.hasCost, toLex (b.provider, b.id)) := by
  unfold tieBreak
  rw [Prod.Lex.toLex_lt_toLex, Prod.Lex.toLex_lt_toLex]
  simp only [Ordering.then_eq_lt, compare_lt_iff_lt, compare_eq_iff_eq]
  tauto

theorem rankOf_lt_iff {m n : ℕ} : rankOf a m < rankOf b n ↔ n < m ∨ m = n ∧ tieBreak a b = .lt := by
  rw [tieBreak_lt_iff, rankOf, rankOf, Prod.Lex.toLex_lt_toLex, OrderDual.toDual_lt_toDual,
    OrderDual.toDual_inj]

variable (destination : String) (providerRows : List (String × String))

def scored (candidate : Candidate) : Option (Candidate × ℕ) :=
  if modelIdMatches destination candidate.id then
    some (candidate, catalogScore destination candidate providerRows)
  else none

theorem scored_eq_some {candidate : Candidate} :
    scored destination providerRows candidate = some (found, score) ↔
      modelIdMatches destination candidate.id = true ∧ found = candidate ∧
        score = catalogScore destination candidate providerRows := by
  unfold scored
  split_ifs with hmatches
  · simp only [Option.some.injEq, Prod.mk.injEq, hmatches, true_and, eq_comm]
  · simp [hmatches]

theorem keepBest_keepsBest :
    BestScan.KeepsBest (scored destination providerRows) (fun found => rankOf found.1 found.2)
      (keepBest destination providerRows) where
  skip best candidate hread := by
    unfold scored at hread
    split_ifs at hread with hmatches
    rw [keepBest, if_pos (by simpa using hmatches)]
  first candidate found hread := by
    obtain ⟨hmatches, hfound, hscore⟩ := (scored_eq_some destination providerRows).mp hread
    rw [keepBest, if_neg (by simp [hmatches])]
    rw [← hscore, ← hfound]
  compare candidate found best hread := by
    obtain ⟨hmatches, hfound, hscore⟩ := (scored_eq_some destination providerRows).mp hread
    rw [keepBest, if_neg (by simp [hmatches])]
    rw [← hscore, ← hfound]
    simp only [rankOf_lt_iff]
    cases hcompare : compare found.2 best.2 with
    | gt => rw [if_pos (.inl (compare_gt_iff_gt.mp hcompare))]
    | lt =>
      have hless : found.2 < best.2 := compare_lt_iff_lt.mp hcompare
      rw [if_neg (by omega)]
    | eq =>
      have hequal : found.2 = best.2 := compare_eq_iff_eq.mp hcompare
      cases htie : tieBreak found.1 best.1 with
      | lt => rw [if_pos (.inr ⟨hequal, rfl⟩)]
      | _ => simp [hequal]

variable {destination providerRows} {candidates : List Candidate}

def DistinctEntries (candidates : List Candidate) : Prop :=
  (candidates.map fun c => (c.provider, c.id)).Nodup

structure IsBestMatch (candidates : List Candidate) (destination : String)
    (providerRows : List (String × String)) (candidate : Candidate) : Prop where
  mem : candidate ∈ candidates
  matched : modelIdMatches destination candidate.id = true
  best : ∀ other ∈ candidates, modelIdMatches destination other.id = true →
    rankOf candidate (catalogScore destination candidate providerRows) ≤
      rankOf other (catalogScore destination other providerRows)

theorem mem_filterMap_scored :
    (found, score) ∈ candidates.filterMap (scored destination providerRows) ↔
      found ∈ candidates ∧ modelIdMatches destination found.id = true ∧
        score = catalogScore destination found providerRows := by
  simp only [List.mem_filterMap, scored_eq_some]
  constructor
  · rintro ⟨candidate, hmem, hmatches, rfl, hscore⟩
    exact ⟨hmem, hmatches, hscore⟩
  · rintro ⟨hmem, hmatches, hscore⟩
    exact ⟨found, hmem, hmatches, rfl, hscore⟩

theorem rankOf_injOn (hdistinct : DistinctEntries candidates) :
    Set.InjOn (fun found : Candidate × ℕ => rankOf found.1 found.2)
      {found | found ∈ candidates.filterMap (scored destination providerRows)} := by
  rintro ⟨a, m⟩ ha ⟨b, n⟩ hb hrank
  obtain ⟨hamem, -, rfl⟩ := mem_filterMap_scored.mp ha
  obtain ⟨hbmem, -, rfl⟩ := mem_filterMap_scored.mp hb
  have hparts := toLex.injective hrank
  have hnames : (a.provider, a.id) = (b.provider, b.id) :=
    toLex.injective (Prod.ext_iff.mp (toLex.injective (Prod.ext_iff.mp hparts).2)).2
  have hsame : a = b := List.inj_on_of_nodup_map hdistinct hamem hbmem hnames
  rw [hsame]

theorem pickCatalogMatch_eq_argmin (candidates : List Candidate) (destination : String)
    (providerRows : List (String × String)) :
    pickCatalogMatch candidates destination providerRows =
      ((candidates.filterMap (scored destination providerRows)).argmin
        fun found => rankOf found.1 found.2).map Prod.fst := by
  rw [pickCatalogMatch, (keepBest_keepsBest destination providerRows).scan_eq_argmin]

/-- Nothing is picked exactly if no entry matches; otherwise it is the matching entry of
the best rank.  The order of the catalog does not matter. -/
theorem pickCatalogMatch_spec (candidates : List Candidate) (hdistinct : DistinctEntries candidates)
    (destination : String) (providerRows : List (String × String)) :
    (pickCatalogMatch candidates destination providerRows = none ↔
        ∀ candidate ∈ candidates, modelIdMatches destination candidate.id = false) ∧
      (∀ candidate, pickCatalogMatch candidates destination providerRows = some candidate ↔
        IsBestMatch candidates destination providerRows candidate) ∧
      ∀ reordered, candidates.Perm reordered →
        pickCatalogMatch reordered destination providerRows =
          pickCatalogMatch candidates destination providerRows := by
  refine ⟨?_, ?_, ?_⟩
  · rw [pickCatalogMatch_eq_argmin]
    simp [scored]
  · intro candidate
    rw [pickCatalogMatch_eq_argmin, Option.map_eq_some_iff]
    constructor
    · rintro ⟨⟨found, score⟩, hmin, rfl⟩
      obtain ⟨hmem, hbest⟩ :=
        (BestScan.argmin_eq_some_iff_of_injOn (rankOf_injOn hdistinct)).mp hmin
      obtain ⟨hfound, hmatches, rfl⟩ := mem_filterMap_scored.mp hmem
      refine ⟨hfound, hmatches, ?_⟩
      intro other hother hmatched
      exact hbest (other, _) (mem_filterMap_scored.mpr ⟨hother, hmatched, rfl⟩)
    · rintro ⟨hmem, hmatches, hbest⟩
      refine ⟨(candidate, _), (BestScan.argmin_eq_some_iff_of_injOn (rankOf_injOn hdistinct)).mpr
        ⟨mem_filterMap_scored.mpr ⟨hmem, hmatches, rfl⟩, ?_⟩, rfl⟩
      rintro ⟨other, score⟩ hother
      obtain ⟨hothermem, hmatched, rfl⟩ := mem_filterMap_scored.mp hother
      exact hbest other hothermem hmatched
  · intro reordered hperm
    rw [pickCatalogMatch_eq_argmin, pickCatalogMatch_eq_argmin,
      BestScan.argmin_perm (rankOf_injOn hdistinct) (hperm.filterMap _)]

def tiedEntries : List Candidate :=
  [⟨"grok-4.5_oa", "aaa", .obj []⟩, ⟨"grok-4.5_oa", "zzz", .obj [("cost", .obj [])]⟩]

theorem pickCatalogMatch_spec_tied :
    DistinctEntries tiedEntries ∧
      pickCatalogMatch tiedEntries.reverse "grok-4.5_oa" [("local", "openai")] =
        pickCatalogMatch tiedEntries "grok-4.5_oa" [("local", "openai")] ∧
      (pickCatalogMatch tiedEntries "grok-4.5_oa" [("local", "openai")]).map Candidate.provider =
        some "zzz" := by
  have hdistinct : DistinctEntries tiedEntries := by
    unfold DistinctEntries
    decide
  exact ⟨hdistinct, (pickCatalogMatch_spec tiedEntries hdistinct "grok-4.5_oa"
    [("local", "openai")]).2.2 _ tiedEntries.reverse_perm.symm, by decide +kernel⟩

end ModelImport

end LlmProxy
