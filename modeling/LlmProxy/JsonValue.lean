import Mathlib.Algebra.Group.Int.Defs
import Mathlib.Data.List.Basic
import Mathlib.Data.String.Basic

/-!
# JSON values

The value type of a JSON library whose objects are ordered maps: the fields of an object stand in
strictly increasing key order.
-/

namespace Json

open List

/-- A sequence of Unicode scalar values. -/
abbrev Text := List Char

inductive Number where
  | int (n : ℤ)
  | float (mantissa exponent : ℤ)
  deriving DecidableEq, Repr

inductive Value where
  | null
  | bool (b : Bool)
  | num (n : Number)
  | str (s : Text)
  | arr (items : List Value)
  | obj (fields : List (String × Value))
  deriving Repr, Inhabited

abbrev Fields := List (String × Value)

variable {fields : Fields} {value : Value}

namespace Fields

def get (key : String) : Fields → Option Value
  | [] => none
  | (k, v) :: rest => if k = key then some v else get key rest

def insert (key : String) (value : Value) : Fields → Fields
  | [] => [(key, value)]
  | (k, v) :: rest =>
    if key = k then (key, value) :: rest
    else if key < k then (key, value) :: (k, v) :: rest
    else (k, v) :: insert key value rest

def remove (key : String) (fields : Fields) : Fields :=
  fields.filter fun field => field.1 ≠ key

def Ordered (fields : Fields) : Prop :=
  fields.Pairwise fun a b => a.1 < b.1

@[simp] theorem get_nil (key : String) : get key [] = none := rfl

theorem get_cons (key k : String) (v : Value) (rest : Fields) :
    get key ((k, v) :: rest) = if k = key then some v else get key rest := rfl

variable {key : String}

@[simp] theorem get_insert_self (key : String) (value : Value) (fields : Fields) :
    get key (insert key value fields) = some value := by
  induction fields with
  | nil => simp [insert, get]
  | cons field rest ih =>
    simp only [insert]
    split_ifs with heq hlt
    · simp [get]
    · simp [get]
    · rw [get_cons, if_neg (fun h => heq h.symm)]
      exact ih

theorem get_insert_ne {other : String} (hne : other ≠ key) (value : Value) (fields : Fields) :
    get other (insert key value fields) = get other fields := by
  induction fields with
  | nil => simp [insert, get, hne.symm]
  | cons field rest ih =>
    obtain ⟨k, v⟩ := field
    simp only [insert]
    split_ifs with heq hlt
    · subst k
      simp [get, hne.symm]
    · simp [get, hne.symm]
    · simp [get, ih]

@[simp] theorem get_remove_self (key : String) (fields : Fields) :
    get key (remove key fields) = none := by
  induction fields with
  | nil => rfl
  | cons field rest ih =>
    obtain ⟨k, v⟩ := field
    by_cases hk : k = key
    · simpa [remove, hk] using ih
    · have hstep : remove key ((k, v) :: rest) = (k, v) :: remove key rest := by
        simp [remove, hk]
      rw [hstep, get_cons, if_neg hk]
      exact ih

theorem get_remove_ne {other : String} (hne : other ≠ key) (fields : Fields) :
    get other (remove key fields) = get other fields := by
  induction fields with
  | nil => rfl
  | cons field rest ih =>
    obtain ⟨k, v⟩ := field
    by_cases hk : k = key
    · subst k
      have hstep : remove key ((key, v) :: rest) = remove key rest := by
        simp [remove]
      rw [hstep, ih, get_cons, if_neg hne.symm]
    · have hstep : remove key ((k, v) :: rest) = (k, v) :: remove key rest := by
        simp [remove, hk]
      rw [hstep, get_cons, get_cons, ih]

theorem mem_insert {field : String × Value} (hmem : field ∈ insert key value fields) :
    field = (key, value) ∨ field ∈ fields := by
  induction fields with
  | nil => simpa [insert] using hmem
  | cons head rest ih =>
    simp only [insert] at hmem
    split_ifs at hmem with heq hlt
    · rcases mem_cons.mp hmem with h | h
      · exact .inl h
      · exact .inr (mem_cons_of_mem _ h)
    · rcases mem_cons.mp hmem with h | h
      · exact .inl h
      · exact .inr h
    · rcases mem_cons.mp hmem with h | h
      · exact .inr (h ▸ mem_cons_self)
      · exact (ih h).imp id (mem_cons_of_mem _)

theorem get_mem (hget : get key fields = some value) : (key, value) ∈ fields := by
  induction fields with
  | nil => simp at hget
  | cons head rest ih =>
    obtain ⟨k, v⟩ := head
    rw [get_cons] at hget
    split_ifs at hget with heq
    · simp only [Option.some.injEq] at hget
      simp [heq, hget]
    · exact mem_cons_of_mem _ (ih hget)

theorem Ordered.insert {fields : Fields} (hordered : Ordered fields)
    (key : String) (value : Value) : Ordered (insert key value fields) := by
  induction fields with
  | nil => simp [Fields.insert, Ordered]
  | cons head rest ih =>
    obtain ⟨k, v⟩ := head
    obtain ⟨hhead, hrest⟩ := pairwise_cons.mp hordered
    simp only [Fields.insert]
    split_ifs with heq hlt
    · subst k
      exact pairwise_cons.mpr ⟨hhead, hrest⟩
    · refine pairwise_cons.mpr ⟨?_, hordered⟩
      intro field hfield
      rcases mem_cons.mp hfield with h | h
      · exact h ▸ hlt
      · exact lt_trans hlt (hhead field h)
    · refine pairwise_cons.mpr ⟨?_, ih hrest⟩
      intro field hfield
      rcases mem_insert hfield with h | h
      · exact h ▸ lt_of_le_of_ne (not_lt.mp hlt) (fun h => heq h.symm)
      · exact hhead field h

theorem Ordered.remove {fields : Fields} (hordered : Ordered fields) (key : String) :
    Ordered (remove key fields) :=
  List.Pairwise.filter _ hordered

end Fields

mutual

/-- The order of the keys, for a whole value. -/
def Value.WellFormed : Value → Prop
  | .null => True
  | .bool _ => True
  | .num _ => True
  | .str _ => True
  | .arr items => itemsWellFormed items
  | .obj fields => Fields.Ordered fields ∧ fieldsWellFormed fields

def itemsWellFormed : List Value → Prop
  | [] => True
  | item :: rest => item.WellFormed ∧ itemsWellFormed rest

def fieldsWellFormed : List (String × Value) → Prop
  | [] => True
  | (_, v) :: rest => v.WellFormed ∧ fieldsWellFormed rest

end

theorem itemsWellFormed_iff (items : List Value) :
    itemsWellFormed items ↔ ∀ item ∈ items, item.WellFormed := by
  induction items with
  | nil => simp [itemsWellFormed]
  | cons item rest ih => simp [itemsWellFormed, ih]

theorem fieldsWellFormed_iff (fields : Fields) :
    fieldsWellFormed fields ↔ ∀ field ∈ fields, field.2.WellFormed := by
  induction fields with
  | nil => simp [fieldsWellFormed]
  | cons field rest ih =>
    simp only [fieldsWellFormed, ih, forall_mem_cons]

/-- A property that the items and the fields of a value hand on to it holds of every value. -/
theorem Value.induction {P : Value → Prop}
    (hstep : ∀ v : Value, (∀ items, v = .arr items → ∀ item ∈ items, P item) →
      (∀ fields, v = .obj fields → ∀ field ∈ fields, P field.2) → P v) (v : Value) : P v := by
  induction hsize : sizeOf v using Nat.strong_induction_on generalizing v with
  | _ size ih =>
    apply hstep
    · rintro items rfl item hitem
      have hlt := List.sizeOf_lt_of_mem hitem
      exact ih _ (by rw [← hsize, Value.arr.sizeOf_spec]; omega) item rfl
    · rintro fields rfl ⟨key, value⟩ hfield
      have hlt := List.sizeOf_lt_of_mem hfield
      rw [Prod.mk.sizeOf_spec] at hlt
      exact ih _ (by rw [← hsize, Value.obj.sizeOf_spec]; omega) value rfl

/-! ## Equality -/

mutual

def Value.same : Value → Value → Bool
  | .null, .null => true
  | .bool a, .bool b => a = b
  | .num a, .num b => a = b
  | .str a, .str b => a = b
  | .arr a, .arr b => sameItems a b
  | .obj a, .obj b => sameFields a b
  | _, _ => false

def sameItems : List Value → List Value → Bool
  | [], [] => true
  | v :: rest, w :: more => v.same w && sameItems rest more
  | _, _ => false

def sameFields : List (String × Value) → List (String × Value) → Bool
  | [], [] => true
  | (k, v) :: rest, (l, w) :: more => decide (k = l) && v.same w && sameFields rest more
  | _, _ => false

end

mutual

theorem Value.same_iff : ∀ v w : Value, v.same w = true ↔ v = w
  | .null, w => by cases w <;> simp [Value.same]
  | .bool a, w => by cases w <;> simp [Value.same]
  | .num a, w => by cases w <;> simp [Value.same]
  | .str a, w => by cases w <;> simp [Value.same]
  | .arr a, w => by cases w <;> simp [Value.same, sameItems_iff a]
  | .obj a, w => by cases w <;> simp [Value.same, sameFields_iff a]

theorem sameItems_iff : ∀ a b : List Value, sameItems a b = true ↔ a = b
  | [], b => by cases b <;> simp [sameItems]
  | v :: rest, b => by
    cases b with
    | nil => simp [sameItems]
    | cons w more => simp [sameItems, Value.same_iff v w, sameItems_iff rest more]

theorem sameFields_iff : ∀ a b : List (String × Value), sameFields a b = true ↔ a = b
  | [], b => by cases b <;> simp [sameFields]
  | (k, v) :: rest, b => by
    cases b with
    | nil => simp [sameFields]
    | cons field more =>
      obtain ⟨l, w⟩ := field
      simp [sameFields, Value.same_iff v w, sameFields_iff rest more]

end

instance : DecidableEq Value := fun v w => decidable_of_iff _ (Value.same_iff v w)

namespace Value

/-- `v.get(key)`: the field of an object, absent for every other value. -/
def get (key : String) : Value → Option Value
  | .obj fields => Fields.get key fields
  | _ => none

def asStr : Value → Option Text
  | .str s => some s
  | _ => none

def asArray : Value → Option (List Value)
  | .arr items => some items
  | _ => none

def asBool : Value → Option Bool
  | .bool b => some b
  | _ => none

/-- `as_u64`: an integer in the range of the type. -/
def asU64 : Value → Option ℕ
  | .num (.int n) => if 0 ≤ n ∧ n < 2 ^ 64 then some n.toNat else none
  | _ => none

def asI64 : Value → Option ℤ
  | .num (.int n) => if -2 ^ 63 ≤ n ∧ n < 2 ^ 63 then some n else none
  | _ => none

theorem wellFormed_obj_iff (fields : Fields) :
    (obj fields).WellFormed ↔ Fields.Ordered fields ∧ ∀ field ∈ fields, field.2.WellFormed := by
  rw [WellFormed, fieldsWellFormed_iff]

theorem WellFormed.get {key : String} (hobj : (obj fields).WellFormed)
    (hget : Fields.get key fields = some value) : value.WellFormed := by
  rw [wellFormed_obj_iff] at hobj
  exact hobj.2 _ (Fields.get_mem hget)

end Value

end Json
