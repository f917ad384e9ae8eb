import Mathlib.Data.List.MinMax
import Mathlib.Data.Set.Function

/-!
# Loops that keep the best item

A loop over a list passes some items over, takes the first of the others and replaces
it by a later one that is strictly better.
-/

namespace BestScan

open List

variable {ι α β : Type*} [LinearOrder β]

structure KeepsBest (read : ι → Option α) (key : α → β) (step : Option α → ι → Option α) :
    Prop where
  skip : ∀ best item, read item = none → step best item = best
  first : ∀ item a, read item = some a → step none item = some a
  compare : ∀ item a best, read item = some a →
    step (some best) item = if key a < key best then some a else some best

variable {read : ι → Option α} {key : α → β} {step : Option α → ι → Option α}

theorem KeepsBest.step_eq (hstep : KeepsBest read key step) (best : Option α) {item : ι} {a : α}
    (hread : read item = some a) :
    step best item = List.argAux (fun b c => key b < key c) best a := by
  cases best with
  | none => exact hstep.first item a hread
  | some best => exact hstep.compare item a best hread

theorem KeepsBest.foldl_eq (hstep : KeepsBest read key step) (items : List ι) (best : Option α) :
    items.foldl step best =
      (items.filterMap read).foldl (List.argAux fun b c => key b < key c) best := by
  induction items generalizing best with
  | nil => rfl
  | cons item items ih =>
    rw [foldl_cons]
    cases hread : read item with
    | none => rw [filterMap_cons_none hread, hstep.skip best item hread, ih]
    | some =>
      rw [filterMap_cons_some hread, foldl_cons, ih, hstep.step_eq best hread]

theorem KeepsBest.scan_eq_argmin (hstep : KeepsBest read key step) (items : List ι) :
    items.foldl step none = (items.filterMap read).argmin key :=
  hstep.foldl_eq items none

variable {l : List α} {m : α}

theorem argmin_eq_some_iff_of_injOn (hkeys : Set.InjOn key {a | a ∈ l}) :
    l.argmin key = some m ↔ m ∈ l ∧ ∀ a ∈ l, key m ≤ key a := by
  constructor
  · intro hmin
    exact ⟨argmin_mem hmin, fun a ha => le_of_mem_argmin ha hmin⟩
  · rintro ⟨hm, hleast⟩
    cases hmin : l.argmin key with
    | none =>
      rw [argmin_eq_none] at hmin
      rw [hmin] at hm
      cases hm
    | some best =>
      have hbest : best ∈ l := argmin_mem hmin
      have hsame : key best = key m :=
        le_antisymm (le_of_mem_argmin hm hmin) (hleast best hbest)
      rw [hkeys hbest hm hsame]

theorem argmin_perm {l' : List α} (hkeys : Set.InjOn key {a | a ∈ l}) (hperm : l.Perm l') :
    l.argmin key = l'.argmin key := by
  have hkeys' : Set.InjOn key {a | a ∈ l'} := by
    intro a ha b hb hab
    exact hkeys (hperm.mem_iff.mpr ha) (hperm.mem_iff.mpr hb) hab
  refine Option.ext fun m => ?_
  rw [argmin_eq_some_iff_of_injOn hkeys, argmin_eq_some_iff_of_injOn hkeys']
  simp only [hperm.mem_iff]

end BestScan
