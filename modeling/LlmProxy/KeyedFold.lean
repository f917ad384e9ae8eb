import Mathlib.Data.List.AList
import Mathlib.Data.List.Induction
import Mathlib.Tactic.Common

/-!
# Loops over a keyed map

Loops that work through some items and, for each of them, replace the value a map
has under the key of the item.  What the map has under a key afterwards depends on the
items with that key only.
-/

namespace KeyedFold

open List

universe u v w

variable {K : Type u} {V : Type v} {X : Type w} [DecidableEq K]

def upsert (m : AList fun _ : K => V) (k : K) (f : Option V → V) : AList fun _ : K => V :=
  m.insert k (f (m.lookup k))

def upsertAll (key : X → K) (f : X → Option V → V) (m : AList fun _ : K => V) (xs : List X) :
    AList fun _ : K => V :=
  xs.foldl (fun m x => upsert m (key x) (f x)) m

theorem lookup_insert (m : AList fun _ : K => V) (k other : K) (value : V) :
    (m.insert k value).lookup other = if other = k then some value else m.lookup other := by
  split_ifs with hkey
  · rw [hkey, AList.lookup_insert]
  · rw [AList.lookup_insert_ne hkey]

theorem lookup_upsertAll (key : X → K) (f : X → Option V → V) (m : AList fun _ : K => V)
    (xs : List X) (k : K) :
    (upsertAll key f m xs).lookup k =
      (xs.filter fun x => key x = k).foldl (fun old x => some (f x old)) (m.lookup k) := by
  induction xs generalizing m with
  | nil => rfl
  | cons x xs ih =>
    have hstep : upsertAll key f m (x :: xs) = upsertAll key f (upsert m (key x) (f x)) xs := rfl
    rw [hstep, ih, upsert, lookup_insert]
    by_cases hkey : key x = k
    · rw [if_pos hkey.symm, filter_cons_of_pos (by simpa using hkey), foldl_cons, hkey]
    · rw [if_neg (Ne.symm hkey), filter_cons_of_neg (by simpa using hkey)]

theorem mem_upsertAll (key : X → K) (f : X → Option V → V) (m : AList fun _ : K => V)
    (xs : List X) {k : K} (hk : k ∈ m ∨ k ∈ xs.map key) : k ∈ upsertAll key f m xs := by
  induction xs generalizing m with
  | nil => simpa [upsertAll] using hk
  | cons x xs ih =>
    have hstep : upsertAll key f m (x :: xs) = upsertAll key f (upsert m (key x) (f x)) xs := rfl
    rw [hstep]
    apply ih
    rw [upsert, AList.mem_insert]
    rw [map_cons, mem_cons] at hk
    tauto

theorem foldl_some (f : X → V) (old : Option V) (xs : List X) :
    xs.foldl (fun _ x => some (f x)) old = (xs.getLast?.map f).or old := by
  induction xs using List.reverseRecOn with
  | nil => rfl
  | append_singleton => simp

def insertAllM {E : Type*} (key : X → K) (f : X → Except E V) (m : AList fun _ : K => V)
    (xs : List X) : Except E (AList fun _ : K => V) :=
  xs.foldlM (fun m x => (f x).map fun value => m.insert (key x) value) m

theorem insertAllM_isOk_iff {E : Type*} (key : X → K) (f : X → Except E V)
    (m : AList fun _ : K => V) (xs : List X) :
    (∃ final, insertAllM key f m xs = .ok final) ↔ ∀ x ∈ xs, ∃ value, f x = .ok value := by
  induction xs generalizing m with
  | nil => exact ⟨fun _ x hx => absurd hx not_mem_nil, fun _ => ⟨m, rfl⟩⟩
  | cons x xs ih =>
    unfold insertAllM
    rw [foldlM_cons, forall_mem_cons]
    cases hx : f x with
    | error =>
      constructor
      · rintro ⟨final, hfinal⟩
        cases hfinal
      · rintro ⟨⟨value, hvalue⟩, -⟩
        cases hvalue
    | ok value =>
      have hrest := ih (m.insert (key x) value)
      constructor
      · exact fun hfinal => ⟨⟨value, rfl⟩, hrest.mp hfinal⟩
      · exact fun hall => hrest.mpr hall.2

variable {xs : List X} {p : X → Bool}

theorem lookup_insertAllM {E : Type*} {key : X → K} {f : X → Except E V}
    {m final : AList fun _ : K => V} (hloop : insertAllM key f m xs = .ok final) (k : K) :
    final.lookup k =
      ((xs.filter fun x => key x = k).getLast?.bind fun x => (f x).toOption).or (m.lookup k) := by
  induction xs using List.reverseRecOn generalizing final with
  | nil =>
    cases hloop
    rfl
  | append_singleton xs x ih =>
    unfold insertAllM at hloop
    rw [foldlM_append] at hloop
    cases hbefore : xs.foldlM (fun m x => (f x).map fun value => m.insert (key x) value) m with
    | error =>
      rw [hbefore] at hloop
      cases hloop
    | ok =>
      rw [hbefore] at hloop
      cases hx : f x with
      | error =>
        simp [hx, bind, Except.bind, Except.map] at hloop
      | ok =>
        simp only [bind, Except.bind, foldlM_cons, foldlM_nil, hx, Except.map,
          pure, Except.pure, Except.ok.injEq] at hloop
        rw [← hloop, lookup_insert, ih hbefore]
        by_cases hkey : key x = k
        · simp [hkey, hx, Except.toOption]
        · simp [hkey, Ne.symm hkey]

def AtMostOne (p : X → Bool) (xs : List X) : Prop := (xs.filter p).length ≤ 1

theorem AtMostOne.filter_cases (hone : AtMostOne p xs) :
    xs.filter p = [] ∨ ∃ x, xs.filter p = [x] := by
  rcases Nat.le_one_iff_eq_zero_or_eq_one.mp hone with hzero | hone
  · exact .inl (length_eq_zero_iff.mp hzero)
  · exact .inr (length_eq_one_iff.mp hone)

theorem AtMostOne.getLast?_filter (hone : AtMostOne p xs) :
    (xs.filter p).getLast? = xs.find? p := by
  rw [← head?_filter]
  rcases hone.filter_cases with hnone | ⟨x, hx⟩
  · rw [hnone]
    rfl
  · rw [hx]
    rfl

theorem AtMostOne.find?_eq_some (hone : AtMostOne p xs) {x : X} (hmem : x ∈ xs) (hp : p x = true) :
    xs.find? p = some x := by
  have hfilter : x ∈ xs.filter p := mem_filter.mpr ⟨hmem, hp⟩
  rw [← head?_filter]
  rcases hone.filter_cases with hnone | ⟨y, hy⟩
  · rw [hnone] at hfilter
    cases hfilter
  · rw [hy, mem_singleton] at hfilter
    rw [hy, hfilter]
    rfl

def mapValues {W : Type*} (f : V → W) (m : AList fun _ : K => V) : AList fun _ : K => W :=
  ⟨m.entries.map fun entry => ⟨entry.1, f entry.2⟩, by
    have hkeys := m.nodupKeys
    unfold List.NodupKeys List.keys at hkeys ⊢
    rwa [List.map_map]⟩

theorem lookup_mapValues {W : Type*} (f : V → W) (m : AList fun _ : K => V) (k : K) :
    (mapValues f m).lookup k = (m.lookup k).map f := by
  obtain ⟨entries, hnodup⟩ := m
  unfold mapValues AList.lookup
  simp only
  induction entries with
  | nil => rfl
  | cons entry rest ih =>
    obtain ⟨key, value⟩ := entry
    rw [map_cons]
    by_cases hkey : key = k
    · subst hkey
      rw [dlookup_cons_eq, dlookup_cons_eq]
      rfl
    · rw [dlookup_cons_ne _ _ (Ne.symm hkey), dlookup_cons_ne _ _ (Ne.symm hkey)]
      exact ih (nodupKeys_cons.mp hnodup).2

theorem filter_entries (m : AList fun _ : K => V) (k : K) :
    (m.entries.filter fun entry => entry.1 = k) = (m.lookup k).toList.map (Sigma.mk k) := by
  obtain ⟨entries, hnodup⟩ := m
  unfold AList.lookup
  induction entries with
  | nil => rfl
  | cons entry rest ih =>
    obtain ⟨key, value⟩ := entry
    have hrest := ih (nodupKeys_cons.mp hnodup).2
    have hfresh := (nodupKeys_cons.mp hnodup).1
    by_cases hkey : key = k
    · subst hkey
      have hnone : (rest.filter fun entry => entry.1 = key) = [] := by
        rw [filter_eq_nil_iff]
        intro entry hentry hsame
        rw [decide_eq_true_iff] at hsame
        have hkeys : entry.1 ∈ rest.keys := mem_map_of_mem hentry
        rw [hsame] at hkeys
        exact hfresh hkeys
      rw [filter_cons_of_pos (by simp), hnone, dlookup_cons_eq]
      rfl
    · rw [filter_cons_of_neg (by simpa using hkey), dlookup_cons_ne _ _ (Ne.symm hkey)]
      exact hrest

theorem foldl_filter_entries {S : Type*} (m : AList fun _ : K => V) (k : K)
    (f : S → (Σ _ : K, V) → S) (s : S) :
    (m.entries.filter fun entry => entry.1 = k).foldl f s =
      (m.lookup k).elim s fun value => f s ⟨k, value⟩ := by
  rw [filter_entries]
  cases m.lookup k with
  | none => rfl
  | some => rfl

end KeyedFold
