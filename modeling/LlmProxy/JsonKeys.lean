import LlmProxy.JsonParsed

/-!
# Keys in JSON text

A key that is spelled without escape sequences stands in the text of the value
it belongs to, at whatever depth.  The readers of `JsonText` are followed over
one fixed text: each of them leaves a suffix of it, and every key it reads has
been spelled in it.
-/

namespace Json

open List Option Reader

inductive Value.HasKey (key : String) : Value → Prop
  | here {fields : Fields} {value : Value} (hmem : (key, value) ∈ fields) :
      Value.HasKey key (.obj fields)
  | field {fields : Fields} {other : String} {value : Value} (hmem : (other, value) ∈ fields)
      (hkey : Value.HasKey key value) : Value.HasKey key (.obj fields)
  | item {items : List Value} {value : Value} (hmem : value ∈ items)
      (hkey : Value.HasKey key value) : Value.HasKey key (.arr items)

def KeysSpelledOut (s : Text) : Prop :=
  ∀ before spelled rest key : Text, s = before ++ '"' :: (spelled ++ '"' :: rest) →
    readString (spelled ++ '"' :: rest) = some (key, rest) →
    (skipSpace rest).head? = some ':' → '\\' ∉ spelled

variable {s rest : Text} {v : Value}

theorem keysSpelledOut_of_not_mem (hfree : '\\' ∉ s) : KeysSpelledOut s := by
  intro before spelled rest key hs _ _ hmem
  rw [hs] at hfree
  exact hfree (by simp [hmem])

theorem readChar_spelled {c : Char} (hslash : c ≠ '\\') (t : Text) :
    readChar (c :: t) =
      if c = '"' then some (none, t) else if c.toNat < 0x20 then none else some (some c, t) := by
  refine (bind_char c t _).trans ?_
  rw [if_neg hslash]
  split_ifs
  · rfl
  · rfl
  · rfl

theorem readString_spelled {spelled key : Text}
    (hread : readString (spelled ++ '"' :: rest) = some (key, rest)) (hfree : '\\' ∉ spelled) :
    key = spelled := by
  have hsteps : ∀ fuel, steps readChar fuel (spelled ++ '"' :: rest) = some (key, rest) →
      key = spelled := by
    clear hread
    intro fuel hread
    induction spelled generalizing key fuel with
    | nil =>
      cases fuel with
      | zero => cases hread
      | succ fuel =>
        have hclose : readChar ('"' :: rest) = some (none, rest) := rfl
        cases (steps_nil hclose fuel).symm.trans hread
        rfl
    | cons c spelled ih =>
      rw [mem_cons, not_or] at hfree
      cases fuel with
      | zero => cases hread
      | succ fuel =>
        have hstep := readChar_spelled (Ne.symm hfree.1) (spelled ++ '"' :: rest)
        rcases steps_eq_some hread with ⟨hlast, rfl⟩ | ⟨x, mid, more, hx, hmore, rfl⟩
        · rw [← cons_append, hlast] at hstep
          split_ifs at hstep
          · exact absurd (congrArg List.length (Prod.mk.inj (some.inj hstep)).2) (by simp; omega)
          · cases hstep
        · rw [← cons_append, hx] at hstep
          split_ifs at hstep
          · cases hstep
          · cases hstep
            rw [ih hfree.2 fuel hmore]
  exact hsteps _ hread

section

variable {whole : Text}

def Shown (whole : Text) (v : Value) : Prop := ∀ key, v.HasKey key → key.toList <:+: whole

def ShownField (whole : Text) (field : String × Value) : Prop :=
  field.1.toList <:+: whole ∧ Shown whole field.2

theorem shown_arr {items : List Value} (hitems : ∀ item ∈ items, Shown whole item) :
    Shown whole (.arr items) := by
  intro key hkey
  cases hkey with
  | item hmem hkey => exact hitems _ hmem key hkey

theorem shown_obj {fields : Fields} (hfields : ∀ field ∈ fields, ShownField whole field) :
    Shown whole (.obj (fields.foldl (fun map field => Fields.insert field.1 field.2 map) [])) := by
  have hread : ∀ field ∈ fields.foldl (fun map field => Fields.insert field.1 field.2 map) [],
      ShownField whole field := by
    intro field hmem
    rcases Fields.mem_of_mem_foldl_insert hmem with hnil | hfield
    · cases hnil
    · exact hfields field hfield
  intro key hkey
  cases hkey with
  | here hmem => exact (hread _ hmem).1
  | field hmem hkey => exact (hread _ hmem).2 key hkey

theorem shown_scalar (hscalar : v.Parsed 0) : Shown whole v := by
  intro key hkey
  cases hkey with
  | _ => cases hscalar

/-- A key is followed by a colon, so its text is the key. -/
theorem builtUp_shown (hspelled : KeysSpelledOut whole) :
    BuiltUp (· <:+ whole) (fun _ => Shown whole) fun _ => ShownField whole where
  suffix _ _ hsuffix hs := hsuffix.trans hs
  scalar _ _ := shown_scalar
  arr _ _ := shown_arr
  obj _ _ := shown_obj
  field s t key after _ value hs htext hkey hcolon hvalue := by
    obtain ⟨spelled, rfl, -⟩ := closes_readString t key after hkey
    have hskipped : skipSpace s <:+ s := dropWhile_suffix _
    obtain ⟨before, hwhole⟩ := hskipped.trans hs
    rw [htext] at hwhole
    have hfree := hspelled before spelled after key hwhole.symm hkey hcolon
    refine ⟨?_, hvalue⟩
    rw [readString_spelled hkey hfree, String.toList_ofList, ← hwhole]
    exact ⟨before ++ ['"'], '"' :: after, by simp⟩

end

theorem isInfix_of_hasKey {key : String} (hspelled : KeysSpelledOut s) (hparse : parse s = some v)
    (hkey : v.HasKey key) : key.toList <:+: s :=
  (builtUp_shown hspelled).of_parse suffix_rfl hparse key hkey

end Json
