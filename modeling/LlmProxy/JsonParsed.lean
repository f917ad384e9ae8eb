import LlmProxy.JsonText

/-!
# The values of JSON text

The values a text can stand for: integers have 64 bits, objects are ordered, and the
nesting keeps to the limit of the parser.  The parser gives no others, and each of them is
read back from its printed form, decimal fractions included.  No two values at all are
printed alike.
-/

namespace Json

open List Option Reader

variable {v value : Value} {rest s : Text} {fields : Fields} {key : String}

theorem Value.exists_fields_of_get {key : String} (hget : v.get key = some value) :
    ∃ fields, v = .obj fields ∧ Fields.get key fields = some value := by
  cases v with
  | obj fields => exact ⟨fields, rfl, hget⟩
  | _ => cases hget

theorem Fields.get_foldl_insert (key : String) (fields map : Fields) :
    Fields.get key (fields.foldl (fun map field => Fields.insert field.1 field.2 map) map) =
      ((fields.filter fun field => field.1 = key).getLast?.map Prod.snd).or
        (Fields.get key map) := by
  induction fields generalizing map with
  | nil => rfl
  | cons field fields ih =>
    rw [foldl_cons, ih]
    by_cases hkey : field.1 = key
    · rw [filter_cons_of_pos (by simpa using hkey), getLast?_cons, hkey, Fields.get_insert_self]
      cases (fields.filter fun field => field.1 = key).getLast? <;> rfl
    · rw [filter_cons_of_neg (by simpa using hkey), Fields.get_insert_ne (Ne.symm hkey)]

theorem Fields.ordered_foldl_insert {map : Fields} (hmap : Fields.Ordered map) (fields : Fields) :
    Fields.Ordered (fields.foldl (fun map field => Fields.insert field.1 field.2 map) map) := by
  induction fields generalizing map with
  | nil => exact hmap
  | cons field fields ih => exact ih (hmap.insert field.1 field.2)

theorem Fields.mem_of_mem_foldl_insert {field : String × Value} {fields map : Fields}
    (hmem : field ∈ fields.foldl (fun map field => Fields.insert field.1 field.2 map) map) :
    field ∈ map ∨ field ∈ fields := by
  induction fields generalizing map with
  | nil => exact .inl hmem
  | cons first fields ih =>
    rcases ih hmem with hinsert | hrest
    · rcases Fields.mem_insert hinsert with rfl | hmap
      · exact .inr mem_cons_self
      · exact .inl hmap
    · exact .inr (mem_cons_of_mem _ hrest)

theorem Fields.insert_last (hlast : ∀ field ∈ fields, field.1 < key) :
    Fields.insert key value fields = fields ++ [(key, value)] := by
  induction fields with
  | nil => rfl
  | cons field fields ih =>
    obtain ⟨k, v⟩ := field
    have hlt : k < key := hlast (k, v) mem_cons_self
    rw [Fields.insert, if_neg (Ne.symm (ne_of_lt hlt)), if_neg (not_lt_of_gt hlt),
      ih (fun field hfield => hlast field (mem_cons_of_mem _ hfield))]
    rfl

theorem Fields.foldl_insert {front : Fields} (hordered : Fields.Ordered (front ++ fields)) :
    fields.foldl (fun map field => Fields.insert field.1 field.2 map) front = front ++ fields := by
  induction fields generalizing front with
  | nil => rw [foldl_nil, append_nil]
  | cons field fields ih =>
    have hlast : ∀ other ∈ front, other.1 < field.1 := by
      intro other hother
      exact (pairwise_append.mp hordered).2.2 other hother field mem_cons_self
    rw [foldl_cons, Fields.insert_last hlast]
    have hsplit : front ++ field :: fields = front ++ [(field.1, field.2)] ++ fields := by
      simp
    rw [hsplit] at hordered ⊢
    exact ih hordered

/-! ## Parsed values -/

/-- Values as the parser gives them, nested at most as deep as given. -/
inductive Value.Parsed : ℕ → Value → Prop
  | null (depth : ℕ) : Parsed depth .null
  | bool (depth : ℕ) (b : Bool) : Parsed depth (.bool b)
  | int (depth : ℕ) (n : ℤ) (hrange : -2 ^ 63 ≤ n ∧ n < 2 ^ 64) : Parsed depth (.num (.int n))
  | float (depth : ℕ) (mantissa exponent : ℤ) : Parsed depth (.num (.float mantissa exponent))
  | str (depth : ℕ) (s : Text) : Parsed depth (.str s)
  | arr {depth : ℕ} {items : List Value} (hitems : ∀ item ∈ items, Parsed depth item) :
      Parsed (depth + 1) (.arr items)
  | obj {depth : ℕ} {fields : Fields} (hordered : Fields.Ordered fields)
      (hfields : ∀ field ∈ fields, Parsed depth field.2) : Parsed (depth + 1) (.obj fields)

namespace Value.Parsed

variable {depth : ℕ} {fields : Fields}

theorem mono {more : ℕ} (hparsed : v.Parsed depth) (hmore : depth ≤ more) : v.Parsed more := by
  induction hparsed generalizing more with
  | null _ => exact .null _
  | bool _ b => exact .bool _ b
  | int _ n hrange => exact .int _ n hrange
  | float _ mantissa exponent => exact .float _ mantissa exponent
  | str _ s => exact .str _ s
  | arr _ ih =>
    obtain ⟨more, rfl⟩ := Nat.exists_eq_succ_of_ne_zero (Nat.ne_zero_of_lt hmore)
    exact .arr fun item hitem => ih item hitem (Nat.le_of_succ_le_succ hmore)
  | obj hordered _ ih =>
    obtain ⟨more, rfl⟩ := Nat.exists_eq_succ_of_ne_zero (Nat.ne_zero_of_lt hmore)
    exact .obj hordered fun field hfield => ih field hfield (Nat.le_of_succ_le_succ hmore)

theorem ordered (hparsed : (Value.obj fields).Parsed depth) : Fields.Ordered fields := by
  cases hparsed with
  | obj hordered => exact hordered

theorem field {depth : ℕ} {fields : Fields} (hparsed : (Value.obj fields).Parsed (depth + 1))
    {field : String × Value} (hfield : field ∈ fields) : field.2.Parsed depth := by
  cases hparsed with
  | obj _ hfields => exact hfields field hfield

theorem get {key : String} (hparsed : v.Parsed (depth + 1)) (hget : v.get key = some value) :
    value.Parsed depth := by
  cases hparsed with
  | obj _ hfields => exact hfields _ (Fields.get_mem hget)
  | _ => cases hget

theorem insert (hparsed : (Value.obj fields).Parsed (depth + 1)) (key : String)
    (hvalue : value.Parsed depth) :
    (Value.obj (Fields.insert key value fields)).Parsed (depth + 1) := by
  cases hparsed with
  | obj hordered hfields =>
    refine .obj (hordered.insert key value) ?_
    intro field hfield
    rcases Fields.mem_insert hfield with rfl | hold
    · exact hvalue
    · exact hfields field hold

theorem remove (hparsed : (Value.obj fields).Parsed (depth + 1)) (key : String) :
    (Value.obj (Fields.remove key fields)).Parsed (depth + 1) := by
  cases hparsed with
  | obj hordered hfields =>
    exact .obj (hordered.remove key)
      fun field hfield => hfields field (mem_of_mem_filter hfield)

end Value.Parsed

theorem Value.Parsed.wellFormed {depth : ℕ} (hparsed : v.Parsed depth) : v.WellFormed := by
  induction hparsed with
  | arr _ ih =>
    rw [Value.WellFormed, itemsWellFormed_iff]
    exact ih
  | obj hordered _ ih =>
    rw [Value.wellFormed_obj_iff]
    exact ⟨hordered, ih⟩
  | _ => simp [Value.WellFormed]

/-- Values whose text determines them: integers of 64 bits, ordered objects,
nested at most as deep as given. -/
def Value.Plain : ℕ → Value → Prop
  | _, .null => True
  | _, .bool _ => True
  | _, .num (.int n) => -2 ^ 63 ≤ n ∧ n < 2 ^ 64
  | _, .num (.float _ _) => False
  | _, .str _ => True
  | 0, .arr _ => False
  | 0, .obj _ => False
  | depth + 1, .arr items => ∀ item ∈ items, item.Plain depth
  | depth + 1, .obj fields => Fields.Ordered fields ∧ ∀ field ∈ fields, field.2.Plain depth

instance (fields : Fields) : Decidable (Fields.Ordered fields) :=
  decidable_of_iff ((fields.map fun field => field.1.toList).Pairwise (· < ·)) (by
    rw [List.pairwise_map, Fields.Ordered]
    simp only [String.lt_iff_toList_lt])

instance Value.decidablePlain : (depth : ℕ) → (v : Value) → Decidable (v.Plain depth)
  | _, .null => isTrue (by simp [Value.Plain])
  | _, .bool _ => isTrue (by simp [Value.Plain])
  | _, .num (.int n) =>
    decidable_of_iff (-2 ^ 63 ≤ n ∧ n < 2 ^ 64) (by simp only [Value.Plain])
  | _, .num (.float _ _) => isFalse (by simp [Value.Plain])
  | _, .str _ => isTrue (by simp [Value.Plain])
  | 0, .arr _ => isFalse id
  | 0, .obj _ => isFalse id
  | depth + 1, .arr items =>
    have := Value.decidablePlain depth
    inferInstanceAs (Decidable (∀ item ∈ items, item.Plain depth))
  | depth + 1, .obj fields =>
    have := Value.decidablePlain depth
    inferInstanceAs (Decidable (Fields.Ordered fields ∧ ∀ field ∈ fields, field.2.Plain depth))

theorem Value.Plain.parsed : ∀ {depth : ℕ} {v : Value}, v.Plain depth → v.Parsed depth
  | _, .null, _ => .null _
  | _, .bool b, _ => .bool _ b
  | _, .num (.int n), hplain => .int _ n (by simpa only [Value.Plain] using hplain)
  | _, .num (.float _ _), hplain => by simp [Value.Plain] at hplain
  | _, .str s, _ => .str _ s
  | 0, .arr _, hplain => hplain.elim
  | 0, .obj _, hplain => hplain.elim
  | _ + 1, .arr _, hplain => .arr fun item hitem => (hplain item hitem).parsed
  | _ + 1, .obj _, hplain => .obj hplain.1 fun field hfield => (hplain.2 field hfield).parsed

theorem Value.Plain.wellFormed {depth : ℕ} (hplain : v.Plain depth) : v.WellFormed :=
  hplain.parsed.wellFormed

/-! ## The parser gives no others -/

section

variable (T : Text → Prop) (P : ℕ → Value → Prop) (F : ℕ → String × Value → Prop)

/-- What the readers need of a property to hand it on to the values around. -/
structure BuiltUp : Prop where
  suffix : ∀ s t, t <:+ s → T s → T t
  scalar : ∀ depth v, v.Parsed 0 → P depth v
  arr : ∀ depth items, (∀ item ∈ items, P depth item) → P (depth + 1) (.arr items)
  obj : ∀ depth fields, (∀ field ∈ fields, F depth field) →
    P (depth + 1) (Build.map.object fields)
  field : ∀ s t key after depth value, T s → skipSpace s = '"' :: t →
    readString t = some (key, after) → (skipSpace after).head? = some ':' → P depth value →
      F depth (String.ofList key, value)

variable {T P F} (hbuilt : BuiltUp T P F)

include hbuilt

theorem BuiltUp.passes_readNumber (depth : ℕ) (negative : Bool) :
    Passes T (fun n => P depth (.num n)) (readNumber numberOf negative) := by
  have hinteger (size : ℕ) : P depth (.num (numberOf negative size)) := by
    apply hbuilt.scalar
    unfold numberOf
    split_ifs with _ hsmall hsmall
    · exact .int _ _ (by omega)
    · exact .float _ _ _
    · exact .int _ _ (by omega)
    · exact .float _ _ _
  refine (local_readDigits.passes hbuilt.suffix).bind fun digits _ =>
    (local_peek.passes hbuilt.suffix).bind fun c _ => .ite ?_ (passes_pure (hinteger _))
  exact (local_readFraction.passes hbuilt.suffix).bind fun _ _ =>
    (local_readExponent.passes hbuilt.suffix).bind fun _ _ =>
      passes_pure (hbuilt.scalar depth _ (.float _ _ _))

theorem BuiltUp.passes_readWord (depth : ℕ) (word : Text) (hvalue : value.Parsed 0) :
    Passes T (P depth) (readWord word value) := by
  intro s v rest hs hread
  obtain ⟨-, rfl⟩ := readWord_eq_some hread
  exact ⟨hbuilt.suffix s rest ((local_readWord word v).suffix hread) hs,
    hbuilt.scalar depth v hvalue⟩

theorem BuiltUp.passes_readList {α : Type} {Q : α → Prop} {first : Reader α}
    (hfirst : Passes T Q first) (close : Char) :
    Passes T (fun xs => ∀ x ∈ xs, Q x) (readList close first) := by
  have hskip := local_skip.passes hbuilt.suffix
  have helement : Passes T (fun x => ∀ y ∈ x, Q y) (readElement close first) :=
    hskip.bind fun _ _ => (local_char.passes hbuilt.suffix).bind fun _ _ =>
      .ite (passes_pure (by simp)) <| .ite (hfirst.map fun x hx => by simpa using hx) passes_failure
  exact hskip.bind fun _ _ => (local_peek.passes hbuilt.suffix).bind fun _ _ =>
    .ite (((local_expect close).passes hbuilt.suffix).map fun _ _ => forall_mem_nil Q) <|
      hfirst.bind fun _ hx => helement.many.map fun _ hxs => forall_mem_cons.mpr ⟨hx, hxs⟩

theorem BuiltUp.passes_readField {depth : ℕ} {read : Reader Value}
    (hread : Passes T (P depth) read) : Passes T (F depth) (readField read) := by
  intro s field rest hs hfield
  obtain ⟨⟨⟩, _, hskip, hfield⟩ := Reader.bind_eq_some_iff.mp hfield
  obtain ⟨⟨⟩, t, hquote, hfield⟩ := Reader.bind_eq_some_iff.mp hfield
  obtain ⟨key, after, hkey, hfield⟩ := Reader.bind_eq_some_iff.mp hfield
  obtain ⟨⟨⟩, _, hgap, hfield⟩ := Reader.bind_eq_some_iff.mp hfield
  obtain ⟨⟨⟩, u, hcolon, hfield⟩ := Reader.bind_eq_some_iff.mp hfield
  obtain ⟨value, last, hvalue, hfield⟩ := Reader.bind_eq_some_iff.mp hfield
  cases hfield
  have hstart : u <:+ s := ((local_expect ':').suffix hcolon).trans <|
    (local_skip.suffix hgap).trans <| (local_readString.suffix hkey).trans <|
      ((local_expect '"').suffix hquote).trans (local_skip.suffix hskip)
  obtain ⟨hrest, hpassed⟩ := hread u value rest (hbuilt.suffix s u hstart hs) hvalue
  refine ⟨hrest, hbuilt.field s t key after depth value hs ?_ hkey ?_ hpassed⟩
  · rw [← expect_eq_some_iff.mp hquote]
    exact (Prod.mk.inj (some.inj hskip)).2
  · rw [show skipSpace after = _ from (Prod.mk.inj (some.inj hgap)).2, expect_eq_some_iff.mp hcolon]
    rfl

theorem BuiltUp.passes_readWith {depth : ℕ} {items : Reader (List Value)} {fields : Reader Fields}
    (hitems : Passes T (fun items => P depth (.arr items)) items)
    (hfields : Passes T (fun fields => P depth (Build.map.object fields)) fields) :
    Passes T (P depth) (readWith .map items fields) := by
  have hchar := local_char.passes hbuilt.suffix
  refine (local_skip.passes hbuilt.suffix).bind fun _ _ =>
    (local_peek.passes hbuilt.suffix).bind fun c _ => ?_
  cases c with
  | none => exact passes_failure
  | some c =>
    exact .ite (hchar.bind fun _ _ => (local_readString.passes hbuilt.suffix).map fun s _ =>
        hbuilt.scalar depth _ (.str 0 s)) <|
      .ite (hchar.bind fun _ _ => hitems.map fun _ hpassed => hpassed) <|
      .ite (hchar.bind fun _ _ => hfields.map fun _ hpassed => hpassed) <|
      .ite (hchar.bind fun _ _ => (hbuilt.passes_readNumber depth true).map fun _ hn => hn) <|
      .ite ((hbuilt.passes_readNumber depth false).map fun _ hn => hn) <|
      .ite (hbuilt.passes_readWord depth _ (.null 0)) <|
      .ite (hbuilt.passes_readWord depth _ (.bool 0 true)) <|
      .ite (hbuilt.passes_readWord depth _ (.bool 0 false)) passes_failure

theorem BuiltUp.passes_readValue (depth : ℕ) : Passes T (P depth) (readValue .map depth) := by
  induction depth with
  | zero => exact hbuilt.passes_readWith passes_failure passes_failure
  | succ depth ih =>
    apply hbuilt.passes_readWith
    · exact fun s items rest hs hread =>
        (hbuilt.passes_readList ih ']' s items rest hs hread).imp id (hbuilt.arr depth items)
    · exact fun s fields rest hs hread =>
        (hbuilt.passes_readList (hbuilt.passes_readField ih) '}' s fields rest hs hread).imp id
          (hbuilt.obj depth fields)

theorem BuiltUp.of_parse (hs : T s) (hparse : parse s = some v) : P depthLimit v := by
  obtain ⟨rest, hread, -⟩ := parse_eq_some_iff.mp hparse
  exact (hbuilt.passes_readValue depthLimit s v rest hs hread).2

end

theorem builtUp_parsed :
    BuiltUp (fun _ => True) (fun depth => Value.Parsed depth) fun depth field =>
      field.2.Parsed depth where
  suffix _ _ _ _ := trivial
  scalar _ _ hparsed := hparsed.mono (Nat.zero_le _)
  arr _ _ hitems := .arr hitems
  obj depth fields hfields := by
    refine .obj (Fields.ordered_foldl_insert List.Pairwise.nil fields) ?_
    intro field hfield
    -- a key that is repeated overwrites its first value
    rcases Fields.mem_of_mem_foldl_insert hfield with hnil | hread
    · cases hnil
    · exact hfields field hread
  field _ _ _ _ _ _ _ _ _ _ hvalue := hvalue

theorem parsed_of_parse (hparse : parse s = some v) : v.Parsed depthLimit :=
  builtUp_parsed.of_parse trivial hparse

/-! ## They are read back -/

theorem numberOf_signed {n : ℤ} (hrange : -2 ^ 63 ≤ n ∧ n < 2 ^ 64) (negative : Bool) (size : ℕ)
    (hn : signed negative size = n) (hpos : negative = true → 0 < size) :
    numberOf negative size = .int n := by
  subst hn
  unfold numberOf signed at *
  cases negative with
  | false =>
    simp only [Bool.false_eq_true, if_false] at hrange ⊢
    rw [if_pos (by omega)]
  | true =>
    simp only [if_true] at hrange ⊢
    rw [if_pos ⟨hpos rfl, by omega⟩]

theorem Value.Parsed.readBack {depth : ℕ} (hparsed : v.Parsed depth) : v.ReadBack .map depth := by
  induction hparsed with
  | null depth => exact readBack_null _ depth
  | bool depth b => exact readBack_bool _ depth b
  | int depth n hrange => exact readBack_int depth (numberOf_signed hrange)
  | float depth mantissa exponent => exact readBack_float _ depth mantissa exponent
  | str depth s => exact readBack_str _ depth s
  | arr _ ih => exact readBack_arr ih
  | obj hordered _ ih => exact readBack_obj (congrArg Value.obj (Fields.foldl_insert hordered)) ih

theorem Value.Parsed.parse_print (hparsed : v.Parsed depthLimit) : parse (print v) = some v := by
  have hread := hparsed.readBack [] (by simp [EndsNumber])
  rw [append_nil] at hread
  exact parse_eq_some_iff.mpr ⟨[], hread, rfl⟩

theorem parse_print (hplain : v.Plain depthLimit) : parse (print v) = some v :=
  hplain.parsed.parse_print

/-- A parser that keeps every integer and every field as it stands in the text. -/
def Build.literal : Build where
  integer negative size := .int (signed negative size)
  object := .obj

theorem readBack_literal (v : Value) (depth : ℕ) (hdepth : sizeOf v ≤ depth) :
    v.ReadBack .literal depth := by
  induction depth generalizing v with
  | zero => cases v <;> simp at hdepth
  | succ depth ih =>
    cases v with
    | null => exact readBack_null _ _
    | bool b => exact readBack_bool _ _ b
    | num n =>
      cases n with
      | int n => exact readBack_int _ fun negative size hn _ => congrArg Number.int hn
      | float mantissa exponent => exact readBack_float _ _ mantissa exponent
    | str s => exact readBack_str _ _ s
    | arr items =>
      rw [Value.arr.sizeOf_spec] at hdepth
      refine readBack_arr fun item hitem => ih item ?_
      have hlt := List.sizeOf_lt_of_mem hitem
      omega
    | obj fields =>
      rw [Value.obj.sizeOf_spec] at hdepth
      refine readBack_obj rfl fun field hfield => ih field.2 ?_
      have hlt := List.sizeOf_lt_of_mem hfield
      rw [Prod.mk.sizeOf_spec] at hlt
      omega

theorem print_injective : Function.Injective print := by
  intro v w heq
  have hends : EndsNumber [] := by simp [EndsNumber]
  have hv := readBack_literal v (sizeOf v + sizeOf w) (by omega) [] hends
  have hw := readBack_literal w (sizeOf v + sizeOf w) (by omega) [] hends
  rw [heq, hw] at hv
  exact (Prod.mk.inj (some.inj hv)).1.symm

theorem length_lt_printStr (s : Text) : s.length < (printStr s).length := by
  have hchars : s.length ≤ (s.flatMap escape).length := by
    rw [length_flatMap]
    have hone : ∀ size ∈ s.map fun c => (escape c).length, 1 ≤ size := by
      intro size hsize
      obtain ⟨c, -, rfl⟩ := mem_map.mp hsize
      have hmoved := moves_readChar _ _ _ (readChar_escape c [])
      rwa [append_nil] at hmoved
    simpa using length_le_sum_of_one_le _ hone
  rw [printStr, length_append]
  exact Nat.lt_succ_of_le (Nat.le_succ_of_le hchars)

theorem length_print_le_print_obj (hmem : (key, value) ∈ fields) :
    (print value).length ≤ (print (.obj fields)).length := by
  have hfield := List.le_sum_of_mem
    (mem_map_of_mem (f := fun field => (',' :: printField field).length) hmem)
  rw [← length_flatMap, ← printFields_eq] at hfield
  simp only [printField, length_cons, length_append] at hfield
  rw [print, length_append, length_cons, length_tail]
  omega

theorem sum_length_lt_print_arr (items : List Value) :
    (items.map fun item => (print item).length).sum < (print (.arr items)).length := by
  have hsum : (items.map fun item => (print item).length).sum ≤ (printItems items).length := by
    rw [printItems_eq, length_flatMap]
    exact sum_le_sum fun item _ => Nat.le_succ _
  rw [print, length_append, length_cons, length_tail, length_singleton]
  omega

/-- The values are the same but for their numbers. -/
inductive Value.UpToNumbers : Value → Value → Prop
  | refl (v : Value) : UpToNumbers v v
  | num (m n : Number) : UpToNumbers (.num m) (.num n)
  | arr {items others : List Value} (hitems : Forall₂ UpToNumbers items others) :
      UpToNumbers (.arr items) (.arr others)
  | obj {fields others : Fields} (hkeys : fields.map Prod.fst = others.map Prod.fst)
      (hvalues : Forall₂ UpToNumbers (fields.map Prod.snd) (others.map Prod.snd)) :
      UpToNumbers (.obj fields) (.obj others)

theorem Value.UpToNumbers.get {w : Value} (hsame : v.UpToNumbers w) (key : String) :
    Option.Rel Value.UpToNumbers (v.get key) (w.get key) := by
  cases hsame with
  | refl =>
    cases v.get key with
    | none => exact .none
    | some value => exact .some (.refl value)
  | @obj fields others hkeys hvalues =>
    induction fields generalizing others with
    | nil =>
      obtain rfl : others = [] := by simpa using hkeys.symm
      exact .none
    | cons field fields ih =>
      obtain ⟨⟨name, other⟩, others, rfl⟩ := exists_cons_of_ne_nil (l := others) (by
        rintro rfl
        cases hkeys)
      obtain ⟨rfl, hnames⟩ := List.cons.inj hkeys
      obtain ⟨hvalue, hvalues⟩ := forall₂_cons.mp hvalues
      change Option.Rel _ (Fields.get key (field :: fields)) _
      rw [Value.get, Fields.get_cons, Fields.get_cons]
      split_ifs
      · exact .some hvalue
      · exact ih hnames hvalues
  | _ => exact .none

theorem Value.UpToNumbers.eq_of_strings {fields : Fields} (hsame : v.UpToNumbers (.obj fields))
    (hstrings : ∀ field ∈ fields, ∃ text, field.2 = .str text) : v = .obj fields := by
  cases hsame with
  | refl => rfl
  | @obj others _ hkeys hvalues =>
    have hstring : ∀ (value : Value) (text : Text), value.UpToNumbers (.str text) →
        value = .str text := by
      intro value text hvalue
      cases hvalue
      rfl
    congr 1
    induction fields generalizing others with
    | nil => simpa using hkeys
    | cons field fields ih =>
      obtain ⟨other, others, rfl⟩ := exists_cons_of_ne_nil (l := others) (by
        rintro rfl
        cases hkeys)
      obtain ⟨hkey, hkeys⟩ := List.cons.inj hkeys
      obtain ⟨hvalue, hvalues⟩ := forall₂_cons.mp hvalues
      obtain ⟨⟨text, htext⟩, hstrings⟩ := forall_mem_cons.mp hstrings
      rw [htext] at hvalue
      rw [ih hstrings hkeys hvalues, Prod.ext hkey ((hstring _ text hvalue).trans htext.symm)]

end Json
