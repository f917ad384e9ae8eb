import Mathlib.Data.List.Forall2
import LlmProxy.Doubles
import LlmProxy.JsonValue

/-!
# Typed records of JSON fields

A program that reads a JSON object into a record and writes the record again keeps the fields the
record has, and of these what their types keep.  `contains` compares what is written with what was
read: every field that is not null, at every depth, with its value.  A `Codec` reads and writes
values of one type and says which values it keeps; a `Record` does the same for the fields of an
object.
-/

namespace Json

open List Option Fields

namespace Number

def mantissa : Number → ℤ
  | .int n => n
  | .float mantissa _ => mantissa

def exponent : Number → ℤ
  | .int _ => 0
  | .float _ exponent => exponent

def inUnits (low : ℤ) (n : Number) : ℤ := n.mantissa * 10 ^ (n.exponent - low).toNat

def same (a b : Number) : Bool :=
  a.inUnits (min a.exponent b.exponent) = b.inUnits (min a.exponent b.exponent)

def less (a b : Number) : Bool :=
  a.inUnits (min a.exponent b.exponent) < b.inUnits (min a.exponent b.exponent)

@[simp] theorem same_self (n : Number) : n.same n = true := by simp [same]

end Number

namespace Value

def isNull : Value → Bool
  | .null => true
  | _ => false

theorem isNull_iff (v : Value) : v.isNull = true ↔ v = .null := by
  cases v with
  | _ => simp [isNull]

end Value

mutual

/-- Every field of the second value that is not null is in the first, at every
depth and with the same value. -/
def Value.contains : Value → Value → Bool
  | .null, .null => true
  | .bool a, .bool b => a = b
  | .num a, .num b => a.same b
  | .str a, .str b => a = b
  | .arr whole, .arr part => containsItems whole part
  | .obj whole, .obj part => containsFields whole part
  | _, _ => false

def containsItems : List Value → List Value → Bool
  | [], [] => true
  | w :: whole, p :: part => w.contains p && containsItems whole part
  | _, _ => false

def containsFields (whole : List (String × Value)) : List (String × Value) → Bool
  | [] => true
  | (k, p) :: part =>
    (p.isNull || (Fields.get k whole).any fun w => w.contains p) && containsFields whole part

end

theorem containsItems_iff (whole part : List Value) :
    containsItems whole part = true ↔ List.Forall₂ (fun w p => w.contains p = true) whole part := by
  induction part generalizing whole with
  | nil => cases whole with
    | nil => simp [containsItems]
    | cons => simp [containsItems]
  | cons p part ih =>
    cases whole with
    | nil => simp [containsItems]
    | cons => simp [containsItems, ih]

theorem containsFields_iff (whole part : Fields) :
    containsFields whole part = true ↔ ∀ field ∈ part, field.2 ≠ .null →
      ∃ w, Fields.get field.1 whole = some w ∧ w.contains field.2 = true := by
  induction part with
  | nil => simp [containsFields]
  | cons field part ih =>
    rw [containsFields, Bool.and_eq_true, ih, Bool.or_eq_true, Value.isNull_iff,
      Option.any_eq_true, forall_mem_cons, ← or_iff_not_imp_left]

namespace Fields

variable (key : String)

theorem get_eq_none_iff (fields : Fields) :
    get key fields = none ↔ ∀ field ∈ fields, field.1 ≠ key := by
  induction fields with
  | nil => simp
  | cons field fields ih =>
    obtain ⟨k, v⟩ := field
    rw [get_cons, forall_mem_cons, ← ih]
    by_cases hkey : k = key
    · simp [hkey]
    · simp [hkey]

theorem mem_keys_iff (fields : Fields) : key ∈ fields.map Prod.fst ↔ get key fields ≠ none := by
  rw [ne_eq, get_eq_none_iff, List.mem_map]
  push Not
  rfl

theorem get_append (front back : Fields) :
    get key (front ++ back) = (get key front).or (get key back) := by
  induction front with
  | nil => rfl
  | cons field front ih =>
    rw [cons_append, get_cons, get_cons, ih]
    split_ifs
    · rfl
    · rfl

variable {fields : Fields}

theorem get_of_mem (hdistinct : (fields.map Prod.fst).Nodup) {field : String × Value}
    (hmem : field ∈ fields) : get field.1 fields = some field.2 := by
  induction fields with
  | nil => cases hmem
  | cons head fields ih =>
    obtain ⟨k, v⟩ := head
    rw [map_cons, nodup_cons] at hdistinct
    rw [get_cons]
    rcases mem_cons.mp hmem with rfl | hlater
    · rw [if_pos rfl]
    · have hother : k ≠ field.1 := by
        intro hsame
        have hkey : field.1 ∈ fields.map Prod.fst := List.mem_map_of_mem hlater
        exact hdistinct.1 (hsame ▸ hkey)
      rw [if_neg hother]
      exact ih hdistinct.2 hlater

/-- `entry(key).or_insert(value)`. -/
def orInsert (fields : Fields) (field : String × Value) : Fields :=
  if (get field.1 fields).isSome then fields else insert field.1 field.2 fields

theorem get_orInsert (fields : Fields) (field : String × Value) (key : String) :
    get key (orInsert fields field) = (get key fields).or (get key [field]) := by
  obtain ⟨k, v⟩ := field
  unfold orInsert
  rw [get_cons, get_nil]
  by_cases hkey : k = key
  · rw [hkey]
    cases hget : get key fields with
    | none => simp
    | some => simp [hget]
  · rw [if_neg hkey, or_none]
    split_ifs
    · rfl
    · exact get_insert_ne (Ne.symm hkey) v fields

theorem get_foldl_orInsert (defaults fields : Fields) (key : String) :
    get key (defaults.foldl orInsert fields) = (get key fields).or (get key defaults) := by
  induction defaults generalizing fields with
  | nil => simp
  | cons field defaults ih =>
    have hcons : get key (field :: defaults) = (get key [field]).or (get key defaults) :=
      get_append key [field] defaults
    rw [foldl_cons, ih, get_orInsert, hcons, Option.or_assoc]

theorem Ordered.foldl_orInsert (hordered : Ordered fields) (defaults : Fields) :
    Ordered (defaults.foldl orInsert fields) := by
  induction defaults generalizing fields with
  | nil => exact hordered
  | cons field defaults ih =>
    apply ih
    unfold orInsert
    split_ifs
    · exact hordered
    · exact hordered.insert field.1 field.2

theorem Ordered.nodup (hordered : Ordered fields) : (fields.map Prod.fst).Nodup := by
  rw [List.Nodup, pairwise_map]
  exact hordered.imp fun hlt => ne_of_lt hlt

end Fields

theorem Value.contains_null_iff (w : Value) : w.contains .null = true ↔ w = .null := by
  cases w with
  | _ => simp [Value.contains]

theorem Value.contains_self (v : Value) : v.WellFormed → v.contains v = true := by
  induction v using Value.induction with
  | _ v hitems hfields =>
    intro hwell
    cases v with
    | arr items =>
      rw [Value.WellFormed, itemsWellFormed_iff] at hwell
      rw [Value.contains, containsItems_iff, forall₂_same]
      exact fun item hitem => hitems items rfl item hitem (hwell item hitem)
    | obj fields =>
      rw [Value.wellFormed_obj_iff] at hwell
      rw [Value.contains, containsFields_iff]
      intro field hfield _
      exact ⟨field.2, get_of_mem hwell.1.nodup hfield,
        hfields fields rfl field hfield (hwell.2 field hfield)⟩
    | _ => simp [Value.contains]

/-! ## Codecs -/

/-- How values of a type are read and written, and which JSON values are written
again with all they contain. -/
structure Codec (α : Type) where
  decode : Value → Option α
  encode : α → Value
  Keeps : Value → Prop
  keeps_iff : ∀ v a, v.WellFormed → decode v = some a →
    ((encode a).contains v = true ↔ Keeps v)

namespace Codec

def exact {α : Type} (decode : Value → Option α) (encode : α → Value)
    (hexact : ∀ v a, decode v = some a → encode a = v) : Codec α where
  decode := decode
  encode := encode
  Keeps _ := True
  keeps_iff := by
    intro v a hwell hdecode
    rw [hexact v a hdecode, v.contains_self hwell]
    exact iff_of_true rfl trivial

def value : Codec Value := exact some id fun _ _ hdecode => (Option.some.inj hdecode).symm

def text : Codec Text :=
  exact Value.asStr .str fun v s hdecode => by
    cases v with
    | str t => rw [Option.some.inj hdecode]
    | _ => cases hdecode

def string : Codec String :=
  exact (fun v => v.asStr.map String.ofList) (fun s => .str s.toList) fun v s hdecode => by
    cases v with
    | str t => rw [← Option.some.inj hdecode, String.toList_ofList]
    | _ => cases hdecode

def bool : Codec Bool :=
  exact Value.asBool .bool fun v b hdecode => by
    cases v with
    | bool c => rw [Option.some.inj hdecode]
    | _ => cases hdecode

def unsigned {α : Type} (bound : ℕ) (ofNat : ℕ → α) (toNat : α → ℕ)
    (hback : ∀ n, n < bound → toNat (ofNat n) = n) : Codec α :=
  exact
    (fun v => match v with
      | .num (.int n) => if 0 ≤ n ∧ n < bound then some (ofNat n.toNat) else none
      | _ => none)
    (fun a => .num (.int (toNat a)))
    (by
      intro v a hdecode
      split at hdecode
      · split_ifs at hdecode with hrange
        rw [← Option.some.inj hdecode, hback _ (by omega), Int.toNat_of_nonneg hrange.1]
      · cases hdecode)

def u32 : Codec UInt32 :=
  unsigned (2 ^ 32) UInt32.ofNat UInt32.toNat fun n hn => by
    rw [UInt32.toNat_ofNat']
    exact Nat.mod_eq_of_lt hn

def u64 : Codec UInt64 :=
  unsigned (2 ^ 64) UInt64.ofNat UInt64.toNat fun n hn => by
    rw [UInt64.toNat_ofNat']
    exact Nat.mod_eq_of_lt hn

/-! ### Doubles -/

end Codec

def F64.number (x : F64) : Number := .float x.mantissa x.exponent

theorem F64.same_number_of (mantissa exponent : ℤ) {n : Number}
    (hexponent : n.exponent = exponent) :
    (F64.of mantissa exponent).number.same n = true ↔ mantissa = n.mantissa := by
  unfold Number.same Number.inUnits
  rw [decide_eq_true_iff, hexponent]
  by_cases hzero : mantissa = 0
  · subst hzero
    change 0 * _ = _ ↔ _
    rw [zero_mul, eq_comm, mul_eq_zero, or_iff_left (pow_ne_zero _ (by decide)), eq_comm]
  · obtain ⟨zeros, hmantissa, hscale⟩ := F64.of_spec exponent hzero
    change (F64.of mantissa exponent).mantissa *
      10 ^ ((F64.of mantissa exponent).exponent - min (F64.of mantissa exponent).exponent
        exponent).toNat = n.mantissa * 10 ^ (exponent -
          min (F64.of mantissa exponent).exponent exponent).toNat ↔ _
    have hmin : min (F64.of mantissa exponent).exponent exponent = exponent := by omega
    have hzeros : ((F64.of mantissa exponent).exponent - exponent).toNat = zeros := by omega
    rw [hmin, hzeros, ← hmantissa, sub_self, Int.toNat_zero, pow_zero, mul_one]

namespace Codec

def f64 : Codec F64 where
  decode
    | .num (.float mantissa exponent) => some (.of mantissa exponent)
    | .num (.int n) => some (.of (roundToDouble n) 0)
    | _ => none
  encode x := .num x.number
  Keeps v := ∀ n, v = .num (.int n) → roundToDouble n = n
  keeps_iff := by
    intro v a _ hdecode
    split at hdecode
    · rename_i mantissa exponent _
      cases hdecode
      have hsame := F64.same_number_of mantissa exponent (n := .float mantissa exponent) rfl
      rw [Value.contains, hsame]
      simp [Number.mantissa]
    · rename_i n _
      cases hdecode
      have hsame := F64.same_number_of (roundToDouble n) 0 (n := .int n) rfl
      rw [Value.contains, hsame]
      simp [Number.mantissa]
    · cases hdecode

variable (v : Value)

@[simp] theorem keeps_text : text.Keeps v ↔ True := Iff.rfl

@[simp] theorem keeps_string : string.Keeps v ↔ True := Iff.rfl

@[simp] theorem keeps_value : value.Keeps v ↔ True := Iff.rfl

@[simp] theorem keeps_bool : bool.Keeps v ↔ True := Iff.rfl

@[simp] theorem keeps_u32 : u32.Keeps v ↔ True := Iff.rfl

@[simp] theorem keeps_u64 : u64.Keeps v ↔ True := Iff.rfl

@[simp] theorem keeps_f64 : f64.Keeps v ↔ ∀ n, v = .num (.int n) → roundToDouble n = n := Iff.rfl

variable {α : Type} (c : Codec α)

theorem mapM_eq_some_iff {β : Type} {f : α → Option β} {xs : List α} {ys : List β} :
    xs.mapM f = some ys ↔ Forall₂ (fun x y => f x = some y) xs ys := by
  induction xs generalizing ys with
  | nil => cases ys <;> simp
  | cons x xs ih =>
    simp only [mapM_cons, bind_eq_bind, bind_eq_some_iff, ih, forall₂_cons_left_iff]
    constructor
    · rintro ⟨y, hy, rest, hrest, hsame⟩
      cases hsame
      exact ⟨y, rest, hy, hrest, rfl⟩
    · rintro ⟨y, rest, hy, hrest, rfl⟩
      exact ⟨y, hy, rest, hrest, rfl⟩

theorem keeps_items {items : List Value} {as : List α} (hwell : ∀ item ∈ items, item.WellFormed)
    (hdecode : items.mapM c.decode = some as) :
    containsItems (as.map c.encode) items = true ↔ ∀ item ∈ items, c.Keeps item := by
  rw [containsItems_iff]
  rw [mapM_eq_some_iff] at hdecode
  induction hdecode with
  | nil => simp
  | cons ha _ ih =>
    rw [forall_mem_cons] at hwell
    rw [map_cons, forall₂_cons, c.keeps_iff _ _ hwell.1 ha, ih hwell.2, forall_mem_cons]

def list : Codec (List α) where
  decode
    | .arr items => items.mapM c.decode
    | _ => none
  encode as := .arr (as.map c.encode)
  Keeps v := ∃ items, v = .arr items ∧ ∀ item ∈ items, c.Keeps item
  keeps_iff := by
    intro v as hwell hdecode
    cases v with
    | arr items =>
      rw [Value.WellFormed, itemsWellFormed_iff] at hwell
      rw [Value.contains, c.keeps_items hwell hdecode]
      simp
    | _ => cases hdecode

@[simp] theorem keeps_list (v : Value) :
    c.list.Keeps v ↔ ∃ items, v = .arr items ∧ ∀ item ∈ items, c.Keeps item := Iff.rfl

end Codec

/-! ## Fields -/

structure Field (α : Type) where
  name : String
  /-- What a missing field counts as, unless it is required. -/
  absent : Option α
  /-- It may be missing at the end of a sequence. -/
  trailing : Bool
  decode : Value → Option α
  /-- What is written, unless the field is left out. -/
  encode : α → Option Value
  Keeps : Value → Prop
  keeps_iff : ∀ v a, v.WellFormed → v ≠ .null → decode v = some a →
    ((∃ w, encode a = some w ∧ w.contains v = true) ↔ Keeps v)

variable {fields : Fields} {name : String} {c : Codec α}

namespace Field

variable {α : Type}

def required (name : String) (c : Codec α) : Field α where
  name := name
  absent := none
  trailing := false
  decode := c.decode
  encode a := some (c.encode a)
  Keeps := c.Keeps
  keeps_iff := by
    intro v a hwell _ hdecode
    rw [← c.keeps_iff v a hwell hdecode]
    simp

variable (f : Field α)

def orDefault (default : α) : Field α :=
  { f with absent := some default, trailing := true }

def option (written : Option Value) (name : String) (c : Codec α) : Field (Option α) where
  name := name
  absent := some none
  trailing := false
  decode
    | .null => some none
    | v => (c.decode v).map some
  encode
    | none => written
    | some a => some (c.encode a)
  Keeps := c.Keeps
  keeps_iff := by
    intro v a hwell hnull hdecode
    split at hdecode
    · exact absurd rfl hnull
    · obtain ⟨b, hb, rfl⟩ := Option.map_eq_some_iff.mp hdecode
      rw [← c.keeps_iff v b hwell hb]
      simp

def skipped (name : String) (c : Codec α) : Field (Option α) := option none name c

def nullable (name : String) (c : Codec α) : Field (Option α) := option (some .null) name c

def read (fields : Fields) : Option α :=
  match Fields.get f.name fields with
  | none => f.absent
  | some v => f.decode v

def write (a : α) : Fields := ((f.encode a).map fun w => (f.name, w)).toList

theorem read_skipped_ne_null {a : Option Value}
    (hread : (skipped name .value).read fields = some a) : a ≠ some .null := by
  unfold read at hread
  split at hread
  · cases hread
    simp
  · rename_i v _
    cases v with
    | _ =>
      cases hread
      simp

end Field

/-! ## Records -/

structure Member where
  name : String
  trailing : Bool
  recode : Option Value → Option (Option Value)
  Keeps : Value → Prop
  keeps_iff : ∀ v out, v.WellFormed → v ≠ .null → recode (some v) = some out →
    ((∃ w, out = some w ∧ w.contains v = true) ↔ Keeps v)

def Field.member {α : Type} (f : Field α) : Member where
  name := f.name
  trailing := f.trailing
  recode
    | none => f.absent.map f.encode
    | some v => (f.decode v).map f.encode
  Keeps := f.Keeps
  keeps_iff := by
    intro v out hwell hnull hrecode
    obtain ⟨a, ha, rfl⟩ := Option.map_eq_some_iff.mp hrecode
    exact f.keeps_iff v a hwell hnull ha

section

variable {α : Type} (name : String) (c : Codec α)

@[simp] theorem name_required : (Field.required name c).member.name = name := rfl

@[simp] theorem keeps_required (v : Value) : (Field.required name c).member.Keeps v ↔ c.Keeps v :=
  Iff.rfl

@[simp] theorem name_skipped : (Field.skipped name c).member.name = name := rfl

@[simp] theorem keeps_skipped (v : Value) : (Field.skipped name c).member.Keeps v ↔ c.Keeps v :=
  Iff.rfl

@[simp] theorem name_nullable : (Field.nullable name c).member.name = name := rfl

@[simp] theorem keeps_nullable (v : Value) : (Field.nullable name c).member.Keeps v ↔ c.Keeps v :=
  Iff.rfl

@[simp] theorem name_orDefault (f : Field α) (default : α) :
    (f.orDefault default).member.name = f.member.name := rfl

@[simp] theorem keeps_orDefault (f : Field α) (default : α) (v : Value) :
    (f.orDefault default).member.Keeps v ↔ f.member.Keeps v := Iff.rfl

end

def recodeMembers : List Member → Fields → Option Fields
  | [], _ => some []
  | m :: members, fields => do
      let out ← m.recode (Fields.get m.name fields)
      let rest ← recodeMembers members fields
      pure ((out.map fun w => (m.name, w)).toList ++ rest)

theorem recodeMembers_append (front back : List Member) (fields : Fields) :
    recodeMembers (front ++ back) fields =
      (recodeMembers front fields).bind fun a => (recodeMembers back fields).map (a ++ ·) := by
  induction front with
  | nil => simp [recodeMembers]
  | cons m front ih =>
    rw [cons_append, recodeMembers, recodeMembers, ih]
    cases m.recode (Fields.get m.name fields) with
    | none => rfl
    | some =>
      cases recodeMembers front fields with
      | none => rfl
      | some =>
        cases recodeMembers back fields with
        | none => rfl
        | some => simp

variable {members : List Member} {written : Fields} {m : Member} {α : Type}

theorem recodeMembers_cons_eq_some (hrecode : recodeMembers (m :: members) fields = some written) :
    ∃ out rest, m.recode (Fields.get m.name fields) = some out ∧
      recodeMembers members fields = some rest ∧
      written = (out.map fun w => (m.name, w)).toList ++ rest := by
  obtain ⟨out, hout, hmore⟩ := bind_eq_some_iff.mp hrecode
  obtain ⟨rest, hrest, hwritten⟩ := bind_eq_some_iff.mp hmore
  exact ⟨out, rest, hout, hrest, (some.inj hwritten).symm⟩

section

variable (hrecode : recodeMembers members fields = some written)

include hrecode

theorem keys_recodeMembers : (written.map Prod.fst).Sublist (members.map Member.name) := by
  induction members generalizing written with
  | nil =>
    cases hrecode
    exact List.Sublist.refl []
  | cons m members ih =>
    obtain ⟨out, rest, -, hrest, rfl⟩ := recodeMembers_cons_eq_some hrecode
    cases out with
    | none => exact (ih hrest).cons _
    | some => exact (ih hrest).cons_cons _

theorem get_recodeMembers_of_not_mem {key : String} (hkey : key ∉ members.map Member.name) :
    Fields.get key written = none := by
  rw [get_eq_none_iff]
  rintro field hfield rfl
  exact hkey ((keys_recodeMembers hrecode).subset (List.mem_map_of_mem hfield))

theorem get_recodeMembers (hdistinct : (members.map Member.name).Nodup) (hm : m ∈ members) :
    m.recode (Fields.get m.name fields) = some (Fields.get m.name written) := by
  induction members generalizing written with
  | nil => cases hm
  | cons first members ih =>
    obtain ⟨out, rest, hout, hrest, rfl⟩ := recodeMembers_cons_eq_some hrecode
    rw [map_cons, nodup_cons] at hdistinct
    have hfirst : ∀ key, Fields.get key (out.map fun w => (first.name, w)).toList =
        if first.name = key then out else none := by
      intro key
      cases out with
      | none => simp
      | some => rfl
    rw [get_append, hfirst]
    rcases mem_cons.mp hm with rfl | hlater
    · rw [if_pos rfl, get_recodeMembers_of_not_mem hrest hdistinct.1, or_none, hout]
    · have hother : first.name ≠ m.name := by
        intro hsame
        have hname : m.name ∈ members.map Member.name := List.mem_map_of_mem hlater
        exact hdistinct.1 (hsame ▸ hname)
      rw [if_neg hother, none_or, ih hrest hdistinct.2 hlater]

theorem contains_member_iff (hdistinct : (members.map Member.name).Nodup) (hm : m ∈ members)
    {v : Value} (hget : Fields.get m.name fields = some v) (hwell : v.WellFormed)
    (hnull : v ≠ .null) :
    (∃ w, Fields.get m.name written = some w ∧ w.contains v = true) ↔ m.Keeps v := by
  have hwritten := get_recodeMembers hrecode hdistinct hm
  rw [hget] at hwritten
  exact m.keeps_iff v _ hwell hnull hwritten

end

def Member.OmitsNull (m : Member) : Prop :=
  ∀ given out, m.recode given = some out → (out = none ↔ given = none ∨ given = some .null)

theorem omitsNull_skipped (name : String) (c : Codec α) :
    (Field.skipped name c).member.OmitsNull := by
  intro given out hrecode
  cases given with
  | none =>
    cases hrecode
    exact iff_of_true rfl (.inl rfl)
  | some v =>
    obtain ⟨a, ha, rfl⟩ := map_eq_some_iff.mp hrecode
    by_cases hnull : v = .null
    · rw [hnull] at ha ⊢
      cases ha
      exact iff_of_true rfl (.inr rfl)
    · have hdecode : (Field.skipped name c).decode v = (c.decode v).map some := by
        unfold Field.skipped Field.option
        dsimp only
        split
        · exact absurd rfl hnull
        · rfl
      rw [hdecode] at ha
      obtain ⟨b, -, rfl⟩ := map_eq_some_iff.mp ha
      refine iff_of_false ?_ ?_
      · intro hnone
        cases hnone
      · rintro (hnone | hsome)
        · cases hnone
        · exact hnull (some.inj hsome)

theorem omitsNull_required (name : String) (hnull : c.decode .null = none) :
    (Field.required name c).member.OmitsNull := by
  intro given out hrecode
  cases given with
  | none => cases hrecode
  | some =>
    obtain ⟨a, ha, rfl⟩ := map_eq_some_iff.mp hrecode
    refine iff_of_false ?_ ?_
    · intro hnone
      cases hnone
    · rintro (hnone | hsome)
      · cases hnone
      · rw [some.inj hsome] at ha
        exact absurd (ha.symm.trans hnull) (some_ne_none a)

structure Record (σ : Type) where
  members : List Member
  read : Fields → Option σ
  write : σ → Fields
  recode : ∀ fields, (read fields).map write = recodeMembers members fields

namespace Record

variable {σ τ : Type}

def field (f : Field σ) : Record σ where
  members := [f.member]
  read := f.read
  write := f.write
  recode := by
    intro fields
    rw [recodeMembers, recodeMembers]
    unfold Field.read Field.member
    dsimp only
    cases Fields.get f.name fields with
    | none =>
      cases f.absent with
      | none => rfl
      | some a => simp [Field.write]
    | some v =>
      dsimp only
      cases f.decode v with
      | none => rfl
      | some a => simp [Field.write]

def and (first : Record σ) (second : Record τ) : Record (σ × τ) where
  members := first.members ++ second.members
  read fields := do
    let a ← first.read fields
    let b ← second.read fields
    pure (a, b)
  write pair := first.write pair.1 ++ second.write pair.2
  recode := by
    intro fields
    rw [recodeMembers_append, ← first.recode, ← second.recode]
    cases first.read fields with
    | none => rfl
    | some a =>
      cases second.read fields with
      | none => rfl
      | some b => rfl

def as (r : Record σ) (make : σ → τ) (take : τ → σ) (htake : ∀ a, take (make a) = a) :
    Record τ where
  members := r.members
  read fields := (r.read fields).map make
  write b := r.write (take b)
  recode := by
    intro fields
    rw [← r.recode, Option.map_map]
    congr 1
    funext a
    exact congrArg r.write (htake a)

variable {fields : Fields} {s : σ}

theorem read_and_eq_some {first : Record σ} {second : Record τ} {pair : σ × τ} :
    (first.and second).read fields = some pair ↔
      first.read fields = some pair.1 ∧ second.read fields = some pair.2 := by
  change ((first.read fields).bind fun a => (second.read fields).bind fun b => some (a, b)) = _ ↔ _
  cases first.read fields with
  | none => simp
  | some =>
    cases second.read fields with
    | none => simp
    | some => simp [Prod.ext_iff]

@[simp] theorem members_field (f : Field σ) : (field f).members = [f.member] := rfl

@[simp] theorem members_and (first : Record σ) (second : Record τ) :
    (first.and second).members = first.members ++ second.members := rfl

@[simp] theorem members_as (r : Record σ) (make : σ → τ) (take : τ → σ)
    (htake : ∀ a, take (make a) = a) : (r.as make take htake).members = r.members := rfl

def names (r : Record σ) : List String := r.members.map Member.name

variable (r : Record σ)

theorem recode_of_read (hread : r.read fields = some s) :
    recodeMembers r.members fields = some (r.write s) := by
  rw [← r.recode, hread]
  rfl

theorem keys_write (hread : r.read fields = some s) : ((r.write s).map Prod.fst).Sublist r.names :=
  keys_recodeMembers (r.recode_of_read hread)

theorem exists_required (hdistinct : r.names.Nodup) (hread : r.read fields = some s)
    (hm : (Field.required name c).member ∈ r.members) :
    ∃ v a, Fields.get name fields = some v ∧ c.decode v = some a := by
  have hmember := get_recodeMembers (r.recode_of_read hread) hdistinct hm
  rw [name_required] at hmember
  cases hget : Fields.get name fields with
  | none =>
    rw [hget] at hmember
    cases hmember
  | some v =>
    rw [hget] at hmember
    obtain ⟨a, ha, -⟩ := map_eq_some_iff.mp hmember
    exact ⟨v, a, rfl, ha⟩

/-- The fields a record is read from: those of an object, or the items of an array
in the order of the members. -/
def fieldsOf : Value → Option Fields
  | .obj fields => some fields
  | .arr items =>
    if items.length ≤ r.members.length ∧ (r.members.drop items.length).all Member.trailing then
      some (r.names.zip items)
    else none
  | _ => none

def KeepsFields (fields : Fields) : Prop :=
  ∀ field ∈ fields, field.2 ≠ .null → ∃ m ∈ r.members, m.name = field.1 ∧ m.Keeps field.2

theorem contains_write_iff (hdistinct : r.names.Nodup) (hwell : (Value.obj fields).WellFormed)
    (hread : r.read fields = some s) :
    containsFields (r.write s) fields = true ↔ r.KeepsFields fields := by
  rw [Value.wellFormed_obj_iff] at hwell
  have hrecode := r.recode_of_read hread
  rw [containsFields_iff]
  constructor
  · intro hcontains field hfield hnull
    obtain ⟨w, hget, hw⟩ := hcontains field hfield hnull
    have hkey : field.1 ∈ r.members.map Member.name := by
      by_contra hnone
      rw [get_recodeMembers_of_not_mem hrecode hnone] at hget
      cases hget
    obtain ⟨m, hm, hname⟩ := List.mem_map.mp hkey
    refine ⟨m, hm, hname, ?_⟩
    have hfound := get_of_mem hwell.1.nodup hfield
    rw [← hname] at hfound hget
    exact (contains_member_iff hrecode hdistinct hm hfound (hwell.2 field hfield) hnull).mp
      ⟨w, hget, hw⟩
  · intro hkeeps field hfield hnull
    obtain ⟨m, hm, hname, hkept⟩ := hkeeps field hfield hnull
    have hfound := get_of_mem hwell.1.nodup hfield
    rw [← hname] at hfound ⊢
    exact (contains_member_iff hrecode hdistinct hm hfound (hwell.2 field hfield) hnull).mpr hkept

def codec (hdistinct : r.names.Nodup) : Codec σ where
  decode v := (r.fieldsOf v).bind r.read
  encode s := .obj (r.write s)
  Keeps v := ∃ fields, v = .obj fields ∧ r.KeepsFields fields
  keeps_iff := by
    intro v s hwell hdecode
    obtain ⟨fields, hfields, hread⟩ := Option.bind_eq_some_iff.mp hdecode
    cases v with
    | obj part =>
      cases hfields
      rw [Value.contains, r.contains_write_iff hdistinct hwell hread]
      simp
    | arr items => simp [Value.contains]
    | _ => cases hfields

theorem keeps_codec_iff (hdistinct : r.names.Nodup) (v : Value) :
    (r.codec hdistinct).Keeps v ↔ ∃ fields, v = .obj fields ∧ r.KeepsFields fields := Iff.rfl

def others (fields : Fields) : Fields := fields.filter fun field => field.1 ∉ r.names

theorem get_others (fields : Fields) (key : String) :
    Fields.get key (r.others fields) = if key ∈ r.names then none else Fields.get key fields := by
  induction fields with
  | nil => simp [others]
  | cons field fields ih =>
    obtain ⟨k, v⟩ := field
    unfold others at ih ⊢
    rw [filter_cons]
    by_cases hk : k ∈ r.names
    · rw [if_neg (by simpa using hk), ih, get_cons]
      split_ifs with hkey hsame
      · rfl
      · exact absurd (hsame ▸ hk) hkey
      · rfl
    · rw [if_pos (by simpa using hk), get_cons, get_cons, ih]
      split_ifs with hsame hkey hkey
      · exact absurd (hsame ▸ hkey) hk
      · rfl
      · rfl
      · rfl

theorem contains_open_iff (hdistinct : r.names.Nodup) (hwell : (Value.obj fields).WellFormed)
    (hread : r.read fields = some s) :
    containsFields (r.write s ++ r.others fields) fields = true ↔
      ∀ m ∈ r.members, ∀ v, Fields.get m.name fields = some v → v ≠ .null → m.Keeps v := by
  have hobj := (Value.wellFormed_obj_iff fields).mp hwell
  have hrecode := r.recode_of_read hread
  have hknown : ∀ m ∈ r.members,
      Fields.get m.name (r.write s ++ r.others fields) = Fields.get m.name (r.write s) := by
    intro m hm
    have hname : m.name ∈ r.names := List.mem_map_of_mem hm
    rw [get_append, get_others, if_pos hname, or_none]
  rw [containsFields_iff]
  constructor
  · intro hcontains m hm v hget hnull
    obtain ⟨w, hw⟩ := hcontains (m.name, v) (get_mem hget) hnull
    rw [hknown m hm] at hw
    exact (contains_member_iff hrecode hdistinct hm hget (hwell.get hget) hnull).mp ⟨w, hw⟩
  · intro hkeeps field hfield hnull
    have hfound := get_of_mem hobj.1.nodup hfield
    by_cases hkey : field.1 ∈ r.names
    · obtain ⟨m, hm, hname⟩ := List.mem_map.mp hkey
      rw [← hname] at hfound ⊢
      rw [hknown m hm]
      exact (contains_member_iff hrecode hdistinct hm hfound (hwell.get hfound) hnull).mpr
        (hkeeps m hm _ hfound hnull)
    · refine ⟨field.2, ?_, field.2.contains_self (hobj.2 field hfield)⟩
      rw [get_append, get_recodeMembers_of_not_mem hrecode hkey, get_others, if_neg hkey,
        none_or, hfound]

end Record

end Json
