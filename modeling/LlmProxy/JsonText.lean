import LlmProxy.JsonValue
import LlmProxy.Reader
import Mathlib.Tactic

/-!
# JSON text

Compact printing of JSON values and a recursive-descent parser for JSON text.  The readers are
local, so a text is read alike with blanks, tabs and line ends around it; other white space in front
of a value is not skipped.
-/

namespace Json

open List Option Reader

/-! ## Printing -/

def hexDigit (n : ℕ) : Char := Nat.digitChar (n % 16)

/-- The characters with an escape of their own. -/
def escapes : List (Char × Char) :=
  [('"', '"'), ('\\', '\\'), ('\n', 'n'), ('\r', 'r'), ('\t', 't'), ('\x08', 'b'), ('\x0c', 'f')]

/-- Control characters are escaped, so a printed value is one line. -/
def escape (c : Char) : Text :=
  match escapes.find? fun code => code.1 = c with
  | some code => ['\\', code.2]
  | none =>
    if c.toNat < 0x20 then ['\\', 'u', '0', '0', hexDigit (c.toNat / 16), hexDigit c.toNat] else [c]

def printStr (s : Text) : Text := '"' :: s.flatMap escape ++ ['"']

def printInt : ℤ → Text
  | .ofNat n => Nat.toDigits 10 n
  | .negSucc n => '-' :: Nat.toDigits 10 (n + 1)

def printNumber : Number → Text
  | .int n => printInt n
  | .float mantissa exponent => printInt mantissa ++ 'e' :: printInt exponent

mutual

def print : Value → Text
  | .null => "null".toList
  | .bool true => "true".toList
  | .bool false => "false".toList
  | .num n => printNumber n
  | .str s => printStr s
  | .arr items => '[' :: (printItems items).tail ++ [']']
  | .obj fields => '{' :: (printFields fields).tail ++ ['}']

/-- The items with a comma before each. -/
def printItems : List Value → Text
  | [] => []
  | item :: rest => ',' :: print item ++ printItems rest

def printFields : List (String × Value) → Text
  | [] => []
  | (k, v) :: rest => ',' :: (printStr k.toList ++ ':' :: print v) ++ printFields rest

end

def printField (field : String × Value) : Text := printStr field.1.toList ++ ':' :: print field.2

/-! ## Parsing -/

def isSpace (c : Char) : Bool := c == ' ' || c == '\n' || c == '\t' || c == '\r'

def skipSpace (s : Text) : Text := s.dropWhile isSpace

def skip : Reader Unit := (fun _ => ()) <$> takeWhile isSpace

def hexValue (c : Char) : Option ℕ :=
  if '0' ≤ c ∧ c ≤ '9' then some (c.toNat - '0'.toNat)
  else if 'a' ≤ c ∧ c ≤ 'f' then some (c.toNat - 'a'.toNat + 10)
  else if 'A' ≤ c ∧ c ≤ 'F' then some (c.toNat - 'A'.toNat + 10)
  else none

def readHexDigit : Reader ℕ := do
  match hexValue (← char) with
  | some n => pure n
  | none => failure

def readHex : Reader ℕ := do
  let a ← readHexDigit
  let b ← readHexDigit
  let c ← readHexDigit
  let d ← readHexDigit
  pure (4096 * a + 256 * b + 16 * c + d)

def readUnicode : Reader Char := do
  let high ← readHex
  if 0xD800 ≤ high ∧ high < 0xDC00 then do
    expect '\\'
    expect 'u'
    let low ← readHex
    if 0xDC00 ≤ low ∧ low < 0xE000 then
      pure (Char.ofNat (0x10000 + (high - 0xD800) * 0x400 + (low - 0xDC00)))
    else failure
  else if 0xDC00 ≤ high ∧ high < 0xE000 then failure
  else pure (Char.ofNat high)

def readEscape : Reader Char := do
  let d ← char
  if d = 'u' then readUnicode
  else
    match (('/', '/') :: escapes).find? fun code => code.2 = d with
    | some code => pure code.1
    | none => failure

def readChar : Reader (Option Char) := do
  let c ← char
  if c = '"' then pure none
  else if c = '\\' then some <$> readEscape
  else if c.toNat < 0x20 then failure
  else pure (some c)

/-- The characters up to the closing quote. -/
def readString : Reader Text := many readChar

def digitsOf : Reader Text := do
  let digits ← takeWhile Char.isDigit
  if digits = [] then failure else pure digits

def readDigits : Reader Text := do
  let digits ← digitsOf
  if digits.head? = some '0' ∧ 1 < digits.length then failure else pure digits

def readFraction : Reader Text := do
  if (← peek) = some '.' then do
    let _ ← char
    digitsOf
  else pure []

def signed (negative : Bool) (size : ℕ) : ℤ := if negative then -size else size

def readSign : Reader Bool := do
  let c ← peek
  if c = some '-' ∨ c = some '+' then do
    let _ ← char
    pure (c = some '-')
  else pure false

def readExponent : Reader ℤ := do
  let c ← peek
  if c = some 'e' ∨ c = some 'E' then do
    let _ ← char
    let negative ← readSign
    let digits ← digitsOf
    pure (signed negative (Nat.ofDigitChars 10 digits 0))
  else pure 0

/-- What a parser makes of the digits of an integer and of the fields of an object. -/
structure Build where
  integer : Bool → ℕ → Number
  object : Fields → Value

def numberOf (negative : Bool) (size : ℕ) : Number :=
  if negative then
    if 0 < size ∧ size ≤ 2 ^ 63 then .int (-size) else .float (-size) 0
  else if size < 2 ^ 64 then .int size else .float size 0

/-- Integers have 64 bits, and the last of two fields with one key is kept. -/
def Build.map : Build where
  integer := numberOf
  object fields := .obj (fields.foldl (fun map field => Fields.insert field.1 field.2 map) [])

def readNumber (integer : Bool → ℕ → Number) (negative : Bool) : Reader Number := do
  let digits ← readDigits
  let c ← peek
  if c = some '.' ∨ c = some 'e' ∨ c = some 'E' then do
    let fraction ← readFraction
    let exponent ← readExponent
    pure (.float (signed negative (Nat.ofDigitChars 10 (digits ++ fraction) 0))
      (exponent - fraction.length))
  else pure (integer negative (Nat.ofDigitChars 10 digits 0))

def readWord (word : Text) (value : Value) : Reader Value :=
  fun s => (s.dropPrefix? word).map fun rest => (value, rest)

def readElement {α : Type} (close : Char) (first : Reader α) : Reader (Option α) := do
  skip
  let c ← char
  if c = close then pure none
  else if c = ',' then some <$> first
  else failure

/-- After the opening bracket: things with commas between them, up to the closing one. -/
def readList {α : Type} (close : Char) (first : Reader α) : Reader (List α) := do
  skip
  if (← peek) = some close then (fun _ => []) <$> expect close
  else do
    let x ← first
    (x :: ·) <$> many (readElement close first)

def readField (value : Reader Value) : Reader (String × Value) := do
  skip
  expect '"'
  let key ← readString
  skip
  expect ':'
  let v ← value
  pure (String.ofList key, v)

/-- The value that starts with the given character. -/
def readHead (build : Build) (items : Reader (List Value)) (fields : Reader Fields) :
    Option Char → Reader Value
  | none => failure
  | some c =>
    if c = '"' then do
      let _ ← char
      .str <$> readString
    else if c = '[' then do
      let _ ← char
      .arr <$> items
    else if c = '{' then do
      let _ ← char
      build.object <$> fields
    else if c = '-' then do
      let _ ← char
      .num <$> readNumber build.integer true
    else if c.isDigit then .num <$> readNumber build.integer false
    else if c = 'n' then readWord "null".toList .null
    else if c = 't' then readWord "true".toList (.bool true)
    else if c = 'f' then readWord "false".toList (.bool false)
    else failure

def readWith (build : Build) (items : Reader (List Value)) (fields : Reader Fields) :
    Reader Value := do
  skip
  readHead build items fields (← peek)

def readValue (build : Build) : ℕ → Reader Value
  | 0 => readWith build failure failure
  | depth + 1 => readWith build (readList ']' (readValue build depth))
      (readList '}' (readField (readValue build depth)))

def depthLimit : ℕ := 127

/-- The parser skips white space, accepts every escape of the grammar, keeps the last of two fields
with one key, and refuses values nested deeper than its limit. -/
def parse (s : Text) : Option Value :=
  match readValue .map depthLimit s with
  | some (value, rest) => if (skipSpace rest).isEmpty then some value else none
  | none => none

variable {rest s t a : Text} {depth n : ℕ} {fields : Fields} {items : List Value} {c : Char}
  {value v : Value} {build : Build} {readItems : Reader (List Value)} {readFields : Reader Fields}

theorem parse_eq_some_iff :
    parse s = some v ↔
      ∃ rest, readValue .map depthLimit s = some (v, rest) ∧ skipSpace rest = [] := by
  unfold parse
  cases hread : readValue .map depthLimit s with
  | none => simp
  | some read =>
    obtain ⟨value, rest⟩ := read
    by_cases hrest : skipSpace rest = []
    · simp [hrest]
    · simp [hrest]

theorem readValue_eq_readWith (build : Build) (depth : ℕ) :
    ∃ items fields, readValue build depth = readWith build items fields := by
  cases depth with
  | zero => exact ⟨_, _, rfl⟩
  | succ => exact ⟨_, _, rfl⟩

/-! ## The readers are local -/

theorem local_skip : skip.Local := (local_takeWhile isSpace).map _

theorem local_readHex : readHex.Local := by
  have hdigit : readHexDigit.Local := by
    refine local_char.bind fun c => ?_
    cases hexValue c with
    | none => exact local_failure
    | some n => exact local_pure n
  exact hdigit.bind fun _ => hdigit.bind fun _ => hdigit.bind fun _ => hdigit.bind fun _ =>
    local_pure _

theorem local_readUnicode : readUnicode.Local := by
  refine local_readHex.bind fun high => .ite ?_ (local_failure.ite (local_pure _))
  exact (local_expect '\\').bind fun _ => (local_expect 'u').bind fun _ =>
    local_readHex.bind fun low => (local_pure _).ite local_failure

theorem local_readEscape : readEscape.Local := by
  refine local_char.bind fun d => local_readUnicode.ite ?_
  cases (('/', '/') :: escapes).find? fun code => code.2 = d with
  | none => exact local_failure
  | some code => exact local_pure code.1

theorem readChar_next (c : Char) :
    (if c = '"' then pure none
      else if c = '\\' then some <$> readEscape
      else if c.toNat < 0x20 then failure
      else pure (some c) : Reader (Option Char)).Local :=
  .ite (local_pure _) <| .ite (local_readEscape.map _) <| local_failure.ite (local_pure _)

theorem local_readChar : readChar.Local := local_char.bind readChar_next

theorem moves_readChar : readChar.Moves := moves_char.bind readChar_next

theorem closes_readString : Closes '"' readString := by
  refine closes_many local_readChar moves_readChar ?_
  intro s rest hread
  obtain ⟨c, mid, hchar, hnext⟩ := Reader.bind_eq_some_iff.mp hread
  obtain rfl := char_eq_some hchar
  split_ifs at hnext with hquote hslash
  · cases hnext
    exact ⟨[], by rw [hquote]; rfl, fun other => rfl⟩
  · obtain ⟨d, -, hd⟩ := Reader.map_eq_some_iff.mp hnext
    cases hd
  · cases hnext
  · cases hnext

theorem local_readString : readString.Local := closes_readString.isLocal

theorem local_digitsOf : digitsOf.Local :=
  (local_takeWhile Char.isDigit).bind fun _ => local_failure.ite (local_pure _)

theorem local_readDigits : readDigits.Local :=
  local_digitsOf.bind fun _ => local_failure.ite (local_pure _)

theorem local_readFraction : readFraction.Local :=
  local_peek.bind fun _ => .ite (local_char.bind fun _ => local_digitsOf) (local_pure [])

theorem local_readExponent : readExponent.Local := by
  have hsign : readSign.Local :=
    local_peek.bind fun _ => .ite (local_char.bind fun _ => local_pure _) (local_pure false)
  exact local_peek.bind fun _ => .ite (local_char.bind fun _ => hsign.bind fun _ =>
    local_digitsOf.bind fun _ => local_pure _) (local_pure 0)

theorem local_readNumber (integer : Bool → ℕ → Number) (negative : Bool) :
    (readNumber integer negative).Local :=
  local_readDigits.bind fun _ => local_peek.bind fun _ => .ite (local_readFraction.bind fun _ =>
    local_readExponent.bind fun _ => local_pure _) (local_pure _)

theorem readWord_append (word : Text) (value : Value) (rest : Text) :
    readWord word value (word ++ rest) = some (value, rest) := by
  have hdrop : (word ++ rest).dropPrefix? word = some rest := by
    rw [dropPrefix?_eq_some_iff]
    exact ⟨word, rfl, beq_self_eq_true word⟩
  rw [readWord, hdrop]
  rfl

theorem readWord_eq_some {word : Text} {read : Value}
    (hread : readWord word value s = some (read, rest)) : s = word ++ rest ∧ read = value := by
  obtain ⟨_, hdrop, heq⟩ := map_eq_some_iff.mp hread
  obtain ⟨front, hs, hfront⟩ := dropPrefix?_eq_some_iff.mp hdrop
  cases heq
  exact ⟨by rw [hs, beq_iff_eq.mp hfront], rfl⟩

theorem local_readWord (word : Text) (value : Value) : (readWord word value).Local := by
  intro s v rest hread
  obtain ⟨rfl, rfl⟩ := readWord_eq_some hread
  exact ⟨word, rfl, fun other _ => readWord_append word v other⟩

section

variable {α : Type} {first : Reader α} (hfirst : first.Local) (close : Char)

include hfirst

theorem readElement_next (c : Char) :
    (if c = close then pure none else if c = ',' then some <$> first else failure :
      Reader (Option α)).Local :=
  .ite (local_pure _) <| (hfirst.map _).ite local_failure

theorem moves_readElement : (readElement close first).Moves :=
  local_skip.bind_moves fun _ => moves_char.bind (readElement_next hfirst close)

theorem closes_readList : Closes close (readList close first) := by
  have hlocal : (readElement close first).Local :=
    local_skip.bind fun _ => local_char.bind (readElement_next hfirst close)
  have hmany : Closes close (many (readElement close first)) := by
    refine closes_many hlocal (moves_readElement hfirst close) ?_
    intro s rest hread
    obtain ⟨⟨⟩, mid, hskip, hread⟩ := Reader.bind_eq_some_iff.mp hread
    obtain ⟨c, last, hchar, hnext⟩ := Reader.bind_eq_some_iff.mp hread
    obtain rfl := char_eq_some hchar
    split_ifs at hnext with hclose hc
    · cases hnext
      subst hclose
      obtain ⟨space, rfl, hspaces⟩ := local_skip s () _ hskip
      refine ⟨space, rfl, fun other => (bind_of_read (hspaces (c :: other) rfl) _).trans ?_⟩
      exact (bind_char c other _).trans (by rw [if_pos rfl]; rfl)
    · obtain ⟨x, -, hx⟩ := Reader.map_eq_some_iff.mp hnext
      cases hx
    · cases hnext
  exact local_skip.bind_closes fun _ => local_peek.bind_closes fun _ =>
    .ite ((closes_expect close).map _) (hfirst.bind_closes fun _ => hmany.map _)

end

theorem local_readField {read : Reader Value} (hread : read.Local) : (readField read).Local :=
  local_skip.bind fun _ => (local_expect '"').bind fun _ => local_readString.bind fun _ =>
    local_skip.bind fun _ => (local_expect ':').bind fun _ => hread.bind fun _ => local_pure _

theorem local_readWith (build : Build) (hitems : readItems.Local) (hfields : readFields.Local) :
    (readWith build readItems readFields).Local := by
  refine local_skip.bind fun _ => local_peek.bind fun c => ?_
  cases c with
  | none => exact local_failure
  | some c =>
    exact .ite (local_char.bind fun _ => local_readString.map _) <|
      .ite (local_char.bind fun _ => hitems.map _) <|
      .ite (local_char.bind fun _ => hfields.map _) <|
      .ite (local_char.bind fun _ => (local_readNumber _ true).map _) <|
      .ite ((local_readNumber _ false).map _) <| .ite (local_readWord _ _) <|
      .ite (local_readWord _ _) <| (local_readWord _ _).ite local_failure

theorem local_readValue (build : Build) (depth : ℕ) : (readValue build depth).Local := by
  induction depth with
  | zero => exact local_readWith build local_failure local_failure
  | succ depth ih =>
    exact local_readWith build (closes_readList ih ']').isLocal
      (closes_readList (local_readField ih) '}').isLocal

theorem skip_cons (hspace : isSpace c = false) (s : Text) : skip (c :: s) = some ((), c :: s) :=
  map_of_read (takeWhile_append (a := []) (forall_mem_nil _) (fun _ hd =>
    (some.inj hd) ▸ hspace)) _

theorem readWith_cons (hspace : isSpace c = false) (s : Text) :
    readWith build readItems readFields (c :: s) =
      readHead build readItems readFields (some c) (c :: s) := bind_of_read (skip_cons hspace s) _

theorem skipSpace_append {space : Text} (hspace : ∀ c ∈ space, isSpace c = true) (s : Text) :
    skipSpace (space ++ s) = skipSpace s := by
  rw [skipSpace, dropWhile_append_of_pos hspace]
  rfl

theorem parse_space_append {space : Text} (hspace : ∀ c ∈ space, isSpace c = true) (s : Text) :
    parse (space ++ s) = parse s := by
  obtain ⟨items, fields, hread⟩ := readValue_eq_readWith .map depthLimit
  have hskip : skip (space ++ s) = skip s :=
    congrArg (fun rest => some ((), rest)) (skipSpace_append hspace s)
  have hsame : readValue .map depthLimit (space ++ s) = readValue .map depthLimit s := by
    rw [hread]
    exact congrArg (fun skipped : Option (Unit × Text) =>
      skipped.bind fun read => (peek >>= readHead .map items fields) read.2) hskip
  rw [parse, parse, hsame]

theorem hexValue_hexDigit (n : ℕ) : hexValue (hexDigit n) = some (n % 16) := by
  have hall : ∀ k < 16, hexValue (Nat.digitChar k) = some k := by decide
  exact hall (n % 16) (Nat.mod_lt _ (by decide))

theorem readHexDigit_hexDigit (n : ℕ) (rest : Text) :
    readHexDigit (hexDigit n :: rest) = some (n % 16, rest) := by
  refine (bind_char (hexDigit n) rest _).trans ?_
  rw [hexValue_hexDigit]
  rfl

theorem readUnicode_control (hcontrol : c.toNat < 0x20) (rest : Text) :
    readUnicode ('0' :: '0' :: hexDigit (c.toNat / 16) :: hexDigit c.toNat :: rest) =
      some (c, rest) := by
  have hread : readHex ('0' :: '0' :: hexDigit (c.toNat / 16) :: hexDigit c.toNat :: rest) =
      some (c.toNat, rest) := by
    have hzero (s : Text) : readHexDigit ('0' :: s) = some (0, s) := rfl
    unfold readHex
    rw [bind_of_read (hzero _), bind_of_read (hzero _), bind_of_read (readHexDigit_hexDigit _ _),
      bind_of_read (readHexDigit_hexDigit _ _)]
    exact congrArg (fun size => some (size, rest)) (by omega)
  unfold readUnicode
  rw [bind_of_read hread, if_neg (by omega), if_neg (by omega), Char.ofNat_toNat]
  rfl

theorem escape_cases (c : Char) :
    (∃ d, escape c = ['\\', d] ∧ 0x20 ≤ d.toNat ∧
        ∀ rest, readEscape (d :: rest) = some (c, rest)) ∨
      (c.toNat < 0x20 ∧
        escape c = ['\\', 'u', '0', '0', hexDigit (c.toNat / 16), hexDigit c.toNat]) ∨
      (c ≠ '"' ∧ c ≠ '\\' ∧ ¬ c.toNat < 0x20 ∧ escape c = [c]) := by
  have hcodes : ∀ code ∈ escapes, 0x20 ≤ code.2.toNat ∧ code.2 ≠ 'u' ∧
      ((('/', '/') :: escapes).find? fun other => other.2 = code.2) = some code := by decide
  unfold escape
  cases hcode : escapes.find? fun code => code.1 = c with
  | some code =>
    obtain ⟨hvisible, hplain, hfind⟩ := hcodes code (mem_of_find?_eq_some hcode)
    obtain rfl : code.1 = c := by simpa using find?_some hcode
    refine .inl ⟨code.2, rfl, hvisible, fun rest => ?_⟩
    refine (bind_char code.2 rest _).trans ?_
    rw [if_neg hplain, hfind]
    rfl
  | none =>
    have hother : ∀ code ∈ escapes, c ≠ code.1 := fun code hmem heq =>
      find?_eq_none.mp hcode code hmem (decide_eq_true heq.symm)
    by_cases hcontrol : c.toNat < 0x20
    · exact .inr (.inl ⟨hcontrol, if_pos hcontrol⟩)
    · exact .inr (.inr ⟨hother ('"', '"') (by decide), hother ('\\', '\\') (by decide), hcontrol,
        if_neg hcontrol⟩)

theorem readChar_escape (c : Char) (rest : Text) :
    readChar (escape c ++ rest) = some (some c, rest) := by
  rcases escape_cases c with ⟨d, hcode, -, hread⟩ | ⟨hcontrol, hcode⟩ |
    ⟨hquote, hslash, hvisible, hcode⟩
  · rw [hcode]
    exact map_of_read (hread rest) some
  · have hread : readEscape ((escape c).tail ++ rest) = some (c, rest) := by
      rw [hcode]
      exact readUnicode_control hcontrol rest
    rw [hcode] at hread ⊢
    exact map_of_read hread some
  · rw [hcode]
    refine (bind_char c rest _).trans ?_
    rw [if_neg hquote, if_neg hslash, if_neg hvisible]
    rfl

theorem readString_escape (s rest : Text) :
    readString (s.flatMap escape ++ '"' :: rest) = some (s, rest) :=
  many_flatMap (E := fun _ => True) moves_readChar rfl trivial
    (fun _ _ _ => trivial) fun c _ rest _ => readChar_escape c rest

/-! ## Numbers -/

def EndsNumber (rest : Text) : Prop :=
  ∀ c ∈ rest.head?, c.isDigit = false ∧ c ≠ '.' ∧ c ≠ 'e' ∧ c ≠ 'E'

theorem endsNumber_cons (hdigit : c.isDigit = false) (hother : c ∉ ['.', 'e', 'E']) (s : Text) :
    EndsNumber (c :: s) := by
  intro d hd
  obtain rfl : c = d := some.inj hd
  simp only [mem_cons, not_mem_nil, or_false, not_or] at hother
  exact ⟨hdigit, hother⟩

theorem toDigits_head (hpos : 0 < n) : (Nat.toDigits 10 n).head? ≠ some '0' := by
  induction n using Nat.strong_induction_on with
  | _ n ih =>
    by_cases hsmall : n < 10
    · have hall : ∀ k < 10, 0 < k → Nat.digitChar k ≠ '0' := by decide
      rw [Nat.toDigits_of_lt_base hsmall, head?_cons, Ne, some_inj]
      exact hall n hsmall hpos
    · rw [Nat.toDigits_of_base_le (by decide) (by omega),
        head?_append_of_ne_nil _ Nat.toDigits_ne_nil]
      exact ih (n / 10) (by omega) (by omega)

theorem isDigit_of_mem_toDigits (hc : c ∈ Nat.toDigits 10 n) : c.isDigit = true :=
  Nat.isDigit_of_mem_toDigits (by decide) (by decide) hc

theorem digitsOf_toDigits (n : ℕ) (hrest : ∀ c ∈ rest.head?, c.isDigit = false) :
    digitsOf (Nat.toDigits 10 n ++ rest) = some (Nat.toDigits 10 n, rest) := by
  unfold digitsOf
  rw [bind_of_read (takeWhile_append (fun c => isDigit_of_mem_toDigits) hrest),
    if_neg Nat.toDigits_ne_nil]
  rfl

theorem readDigits_toDigits (n : ℕ) (hrest : ∀ c ∈ rest.head?, c.isDigit = false) :
    readDigits (Nat.toDigits 10 n ++ rest) = some (Nat.toDigits 10 n, rest) := by
  unfold readDigits
  rw [bind_of_read (digitsOf_toDigits n hrest), if_neg]
  · rfl
  · rintro ⟨hzero, hlong⟩
    rcases Nat.eq_zero_or_pos n with rfl | hpos
    · simp at hlong
    · exact toDigits_head hpos hzero

theorem readNumber_toDigits (integer : Bool → ℕ → Number) (negative : Bool) (n : ℕ)
    (hends : EndsNumber rest) :
    readNumber integer negative (Nat.toDigits 10 n ++ rest) = some (integer negative n, rest) := by
  have hno : ¬ (rest.head? = some '.' ∨ rest.head? = some 'e' ∨ rest.head? = some 'E') := by
    rintro (h | h | h)
    · exact (hends _ h).2.1 rfl
    · exact (hends _ h).2.2.1 rfl
    · exact (hends _ h).2.2.2 rfl
  unfold readNumber
  rw [bind_of_read (readDigits_toDigits n fun c hc => (hends c hc).1),
    bind_peek, if_neg hno, Nat.ofDigitChars_ten_toDigits]
  rfl

theorem toDigits_cons (n : ℕ) : ∃ c digits, Nat.toDigits 10 n = c :: digits ∧ c.isDigit = true := by
  obtain ⟨c, digits, hdigits⟩ := exists_cons_of_ne_nil (Nat.toDigits_ne_nil (b := 10) (n := n))
  exact ⟨c, digits, hdigits, isDigit_of_mem_toDigits (by rw [hdigits]; exact mem_cons_self)⟩

theorem isDigit_ne {other : Char} (hdigit : c.isDigit = true) (hother : other.isDigit = false) :
    c ≠ other := by
  rintro rfl
  rw [hdigit] at hother
  cases hother

theorem isSpace_of_isDigit (hdigit : c.isDigit = true) : isSpace c = false := by
  unfold isSpace
  simp only [Bool.or_eq_false_iff, beq_eq_false_iff_ne]
  exact ⟨⟨⟨isDigit_ne hdigit rfl, isDigit_ne hdigit rfl⟩, isDigit_ne hdigit rfl⟩,
    isDigit_ne hdigit rfl⟩

/-- A printed integer is read as the digits of its size, after its sign. -/
theorem readWith_printInt (build : Build) (readItems : Reader (List Value))
    (readFields : Reader Fields) (m : ℤ) (s : Text) :
    ∃ negative size, signed negative size = m ∧ (negative = true → 0 < size) ∧
      readWith build readItems readFields (printInt m ++ s) =
        (.num <$> readNumber build.integer negative) (Nat.toDigits 10 size ++ s) := by
  cases m with
  | ofNat n =>
    refine ⟨false, n, rfl, by simp, ?_⟩
    obtain ⟨c, digits, hdigits, hdigit⟩ := toDigits_cons n
    rw [printInt, hdigits, cons_append, readWith_cons (isSpace_of_isDigit hdigit), readHead,
      if_neg (isDigit_ne hdigit rfl), if_neg (isDigit_ne hdigit rfl),
      if_neg (isDigit_ne hdigit rfl), if_neg (isDigit_ne hdigit rfl), if_pos hdigit]
  | negSucc n => exact ⟨true, n + 1, rfl, fun _ => n.succ_pos, readWith_cons rfl _⟩

theorem readSign_toDigits (n : ℕ) (rest : Text) :
    readSign (Nat.toDigits 10 n ++ rest) = some (false, Nat.toDigits 10 n ++ rest) := by
  obtain ⟨c, digits, hdigits, hdigit⟩ := toDigits_cons n
  have hno : ¬ (some c = some '-' ∨ some c = some '+') := by
    rintro (h | h)
    · exact isDigit_ne hdigit rfl (some.inj h)
    · exact isDigit_ne hdigit rfl (some.inj h)
  rw [hdigits]
  exact (bind_peek _ _).trans (if_neg hno ▸ rfl)

theorem readExponent_printInt (n : ℤ) (hends : EndsNumber rest) :
    readExponent ('e' :: (printInt n ++ rest)) = some (n, rest) := by
  have hrest : ∀ c ∈ rest.head?, c.isDigit = false := fun c hc => (hends c hc).1
  have hsize (negative : Bool) (k : ℕ) (t : Text)
      (hsign : readSign t = some (negative, Nat.toDigits 10 k ++ rest)) :
      readExponent ('e' :: t) = some (signed negative k, rest) := by
    unfold readExponent
    rw [bind_peek, head?_cons, if_pos (.inl rfl), bind_char, bind_of_read hsign,
      bind_of_read (digitsOf_toDigits k hrest), Nat.ofDigitChars_ten_toDigits]
    rfl
  cases n with
  | ofNat n => exact hsize false n _ (readSign_toDigits n rest)
  | negSucc n => exact hsize true (n + 1) _ rfl

theorem readNumber_exponent (integer : Bool → ℕ → Number) (negative : Bool) (n : ℕ) (exponent : ℤ)
    (hends : EndsNumber rest) :
    readNumber integer negative (Nat.toDigits 10 n ++ 'e' :: (printInt exponent ++ rest)) =
      some (.float (signed negative n) exponent, rest) := by
  have hstop : ∀ c ∈ ('e' :: (printInt exponent ++ rest)).head?, c.isDigit = false := by
    intro c hc
    obtain rfl : 'e' = c := some.inj hc
    rfl
  have hfraction : readFraction ('e' :: (printInt exponent ++ rest)) =
      some ([], 'e' :: (printInt exponent ++ rest)) := rfl
  unfold readNumber
  rw [bind_of_read (readDigits_toDigits n hstop),
    bind_peek, head?_cons, if_pos (.inr (.inl rfl)), bind_of_read hfraction,
    bind_of_read (readExponent_printInt exponent hends), append_nil, Nat.ofDigitChars_ten_toDigits,
    length_nil, Nat.cast_zero, sub_zero]
  rfl

/-! ## Round trip -/

def Value.ReadBack (build : Build) (depth : ℕ) (v : Value) : Prop :=
  ∀ rest, EndsNumber rest → readValue build depth (print v ++ rest) = some (v, rest)

theorem readBack_of_readWith (depth : ℕ) (hback : ∀ items fields rest, EndsNumber rest →
    readWith build items fields (print v ++ rest) = some (v, rest)) : v.ReadBack build depth := by
  intro rest hends
  obtain ⟨items, fields, hread⟩ := readValue_eq_readWith build depth
  rw [hread, hback items fields rest hends]

theorem readBack_null (build : Build) (depth : ℕ) : Value.null.ReadBack build depth :=
  readBack_of_readWith depth fun _ _ rest _ =>
    (readWith_cons rfl _).trans (readWord_append "null".toList .null rest)

theorem readBack_bool (build : Build) (depth : ℕ) (b : Bool) :
    (Value.bool b).ReadBack build depth := by
  refine readBack_of_readWith depth fun _ _ rest _ => ?_
  cases b with
  | true => exact (readWith_cons rfl _).trans (readWord_append "true".toList _ rest)
  | false => exact (readWith_cons rfl _).trans (readWord_append "false".toList _ rest)

theorem readBack_int (depth : ℕ) {m : ℤ} (hint : ∀ negative size, signed negative size = m →
    (negative = true → 0 < size) → build.integer negative size = .int m) :
    (Value.num (.int m)).ReadBack build depth := by
  refine readBack_of_readWith depth fun items fields rest hends => ?_
  obtain ⟨negative, size, hm, hpos, hprint⟩ :=
    readWith_printInt build items fields m rest
  refine hprint.trans (map_of_read (x := Number.int m) ?_ _)
  rw [readNumber_toDigits _ negative size hends, hint negative size hm hpos]

theorem readBack_float (build : Build) (depth : ℕ) (mantissa exponent : ℤ) :
    (Value.num (.float mantissa exponent)).ReadBack build depth := by
  refine readBack_of_readWith depth fun items fields rest hends => ?_
  obtain ⟨negative, size, rfl, -, hprint⟩ :=
    readWith_printInt build items fields mantissa ('e' :: (printInt exponent ++ rest))
  rw [print, printNumber, append_assoc]
  exact hprint.trans (map_of_read (readNumber_exponent _ negative size exponent hends) _)

theorem readBack_str (build : Build) (depth : ℕ) (s : Text) :
    (Value.str s).ReadBack build depth := by
  refine readBack_of_readWith depth fun _ _ rest _ => ?_
  have htext : print (.str s) ++ rest = '"' :: (s.flatMap escape ++ '"' :: rest) := by
    simp [print, printStr]
  rw [htext]
  exact (readWith_cons rfl _).trans (map_of_read (readString_escape s rest) _)

theorem printItems_eq (items : List Value) :
    printItems items = items.flatMap fun item => ',' :: print item := by
  induction items with
  | nil => rfl
  | cons item items ih => rw [printItems, ih, flatMap_cons]

theorem printFields_eq (fields : Fields) :
    printFields fields = fields.flatMap fun field => ',' :: printField field := by
  induction fields with
  | nil => rfl
  | cons field fields ih =>
    rw [printFields, ih, flatMap_cons]
    rfl

section

variable {α : Type} {close : Char} {first : Reader α}

theorem readElement_close (hspace : isSpace close = false) (first : Reader α) (rest : Text) :
    readElement close first (close :: rest) = some (none, rest) := by
  refine (bind_of_read (skip_cons hspace rest) _).trans ?_
  refine (bind_char close rest _).trans ?_
  rw [if_pos rfl]
  rfl

theorem readElement_comma {x : α} (hne : close ≠ ',') (hfirst : first s = some (x, rest)) :
    readElement close first (',' :: s) = some (some x, rest) := by
  refine (bind_of_read (skip_cons (c := ',') rfl s) _).trans ?_
  refine (bind_char ',' s _).trans ?_
  rw [if_neg (Ne.symm hne), if_pos rfl]
  exact map_of_read hfirst _

theorem readList_print (close : Char) {p : α → Text} {xs : List α} (hfirst : first.Local)
    (hspace : isSpace close = false) (hne : close ≠ ',')
    (hends : ∀ rest, EndsNumber (close :: rest))
    (hstart : ∀ x ∈ xs, ∃ c s, p x = c :: s ∧ isSpace c = false ∧ c ≠ close)
    (hback : ∀ x ∈ xs, ∀ rest, EndsNumber rest → first (p x ++ rest) = some (x, rest))
    (rest : Text) :
    readList close first ((xs.flatMap fun x => ',' :: p x).tail ++ close :: rest) =
      some (xs, rest) := by
  cases xs with
  | nil =>
    refine (bind_of_read (skip_cons hspace rest) _).trans ?_
    refine (bind_peek _ _).trans ?_
    rw [head?_cons, if_pos rfl]
    exact map_of_read (expect_eq_some_iff.mpr rfl) _
  | cons x xs =>
    rw [forall_mem_cons] at hback
    have hcomma : ∀ x ∈ xs, ∀ rest, EndsNumber (',' :: p x ++ rest) :=
      fun _ _ _ => endsNumber_cons rfl (by decide) _
    have hx := hback.1 _ (ends_flatMap (hends rest) hcomma)
    have hmany := many_flatMap (moves_readElement hfirst close)
      (readElement_close hspace first rest) (hends rest) hcomma
      fun y hy rest hrest => readElement_comma hne (hback.2 y hy rest hrest)
    obtain ⟨c, s, htext, hc, hclose⟩ := hstart x mem_cons_self
    rw [flatMap_cons, cons_append, tail_cons, append_assoc]
    rw [htext, cons_append] at hx ⊢
    refine (bind_of_read (skip_cons hc _) _).trans ?_
    refine (bind_peek _ _).trans ?_
    rw [head?_cons, if_neg fun h => hclose (some.inj h)]
    exact (bind_of_read hx _).trans (map_of_read hmany _)

end

theorem print_cons (v : Value) : ∃ c s, print v = c :: s ∧ isSpace c = false ∧ c ≠ ']' := by
  have hint (n : ℤ) (more : Text) :
      ∃ c s, printInt n ++ more = c :: s ∧ isSpace c = false ∧ c ≠ ']' := by
    cases n with
    | ofNat n =>
      obtain ⟨c, digits, hdigits, hdigit⟩ := toDigits_cons n
      rw [printInt, hdigits]
      exact ⟨c, _, rfl, isSpace_of_isDigit hdigit, isDigit_ne hdigit rfl⟩
    | negSucc => exact ⟨'-', _, rfl, rfl, by decide⟩
  cases v with
  | null => exact ⟨'n', _, rfl, rfl, by decide⟩
  | bool b =>
    cases b with
    | true => exact ⟨'t', _, rfl, rfl, by decide⟩
    | false => exact ⟨'f', _, rfl, rfl, by decide⟩
  | num n =>
    cases n with
    | int n =>
      rw [print, printNumber, ← append_nil (printInt n)]
      exact hint n []
    | float mantissa exponent => exact hint mantissa _
  | str => exact ⟨'"', _, rfl, rfl, by decide⟩
  | arr => exact ⟨'[', _, rfl, rfl, by decide⟩
  | obj => exact ⟨'{', _, rfl, rfl, by decide⟩

theorem readBack_arr (hback : ∀ item ∈ items, item.ReadBack build depth) :
    (Value.arr items).ReadBack build (depth + 1) := by
  intro rest _
  have hread := readList_print ']' (local_readValue build depth) rfl (by decide)
    (endsNumber_cons rfl (by decide)) (fun item _ => print_cons item) hback rest
  rw [← printItems_eq] at hread
  rw [print, append_assoc, cons_append]
  exact (readWith_cons rfl _).trans (map_of_read hread _)

theorem readField_print {read : Reader Value} {field : String × Value}
    (hback : read (print field.2 ++ s) = some (field.2, rest)) :
    readField read (printField field ++ s) = some (field, rest) := by
  have htext : printField field ++ s = '"' :: (field.1.toList.flatMap escape ++
      '"' :: ':' :: (print field.2 ++ s)) := by
    simp [printField, printStr]
  unfold readField
  rw [htext, bind_of_read (skip_cons rfl _), bind_of_read (expect_eq_some_iff.mpr rfl),
    bind_of_read (readString_escape _ _), bind_of_read (skip_cons rfl _),
    bind_of_read (expect_eq_some_iff.mpr rfl), bind_of_read hback, String.ofList_toList]
  rfl

theorem readBack_obj (hobject : build.object fields = .obj fields)
    (hback : ∀ field ∈ fields, field.2.ReadBack build depth) :
    (Value.obj fields).ReadBack build (depth + 1) := by
  intro rest _
  have hread := readList_print '}' (p := printField)
    (local_readField (local_readValue build depth)) rfl (by decide)
    (endsNumber_cons rfl (by decide))
    (fun field _ => ⟨'"', _, rfl, rfl, by decide⟩)
    (fun field hfield rest hrest => readField_print (hback field hfield rest hrest)) rest
  rw [← printFields_eq] at hread
  rw [print, append_assoc, cons_append, ← hobject]
  exact (readWith_cons rfl _).trans (map_of_read hread _)

/-! ## The shape of JSON text -/

def Visible (s : Text) : Prop := ∀ c ∈ s, 0x20 ≤ c.toNat

theorem visible_of_isDigit (hdigit : c.isDigit = true) : 0x20 ≤ c.toNat := by
  simp only [Char.isDigit, Bool.and_eq_true, decide_eq_true_eq] at hdigit
  have hlow : 48 ≤ c.val.toNat := UInt32.le_iff_toNat_le.mp hdigit.1
  exact le_trans (by decide) hlow

theorem visible_hexDigit (n : ℕ) : 0x20 ≤ (hexDigit n).toNat := by
  have hall : ∀ k < 16, 0x20 ≤ (Nat.digitChar k).toNat := by decide
  exact hall (n % 16) (Nat.mod_lt _ (by decide))

/-- To decide it for a given text: as a test of its characters, not over all of them. -/
theorem visible_of_all (ha : a.all (fun c => 0x20 ≤ c.toNat) = true) : Visible a := by
  simpa [Visible] using ha

theorem visible_append {b : Text} (ha : Visible a) (hb : Visible b) : Visible (a ++ b) := by
  intro c hc
  exact (mem_append.mp hc).elim (ha c) (hb c)

theorem visible_cons {d : Char} (hd : 0x20 ≤ d.toNat) (ha : Visible a) : Visible (d :: a) :=
  forall_mem_cons.mpr ⟨hd, ha⟩

theorem visible_escape (d : Char) : Visible (escape d) := by
  rcases escape_cases d with ⟨e, hcode, hvisible, -⟩ | ⟨-, hcode⟩ | ⟨-, -, hvisible, hcode⟩
  · rw [hcode]
    exact visible_cons (by decide) (forall_mem_singleton.mpr hvisible)
  · rw [hcode]
    exact visible_append (b := [_, _]) (visible_of_all (by decide : ['\\', 'u', '0', '0'].all _))
      (visible_cons (visible_hexDigit _) (forall_mem_singleton.mpr (visible_hexDigit _)))
  · rw [hcode]
    exact forall_mem_singleton.mpr (not_lt.mp hvisible)

theorem visible_printStr (s : Text) : Visible (printStr s) := by
  refine visible_cons (by decide) (visible_append ?_ (visible_of_all (by decide)))
  intro c hc
  obtain ⟨d, -, hd⟩ := mem_flatMap.mp hc
  exact visible_escape d c hd

theorem visible_printInt (n : ℤ) : Visible (printInt n) := by
  have hdigits (n : ℕ) : Visible (Nat.toDigits 10 n) :=
    fun c hc => visible_of_isDigit (isDigit_of_mem_toDigits hc)
  cases n with
  | ofNat n => exact hdigits n
  | negSucc n => exact visible_cons (by decide) (hdigits (n + 1))

theorem visible_bracketed {α : Type} {p : α → Text} {xs : List α} {opening closing : Char}
    (hopening : 0x20 ≤ opening.toNat) (hclosing : 0x20 ≤ closing.toNat)
    (hxs : ∀ x ∈ xs, Visible (p x)) :
    Visible (opening :: (xs.flatMap fun x => ',' :: p x).tail ++ [closing]) := by
  refine visible_append (visible_cons hopening fun c hc => ?_) (forall_mem_singleton.mpr hclosing)
  obtain ⟨x, hx, hc⟩ := mem_flatMap.mp (mem_of_mem_tail hc)
  exact visible_cons (by decide) (hxs x hx) c hc

theorem visible_print (v : Value) : Visible (print v) := by
  induction v using Value.induction with
  | _ v hitems hfields =>
    cases v with
    | null => exact visible_of_all (by decide)
    | bool b =>
      cases b with
      | true => exact visible_of_all (by decide)
      | false => exact visible_of_all (by decide)
    | num n =>
      cases n with
      | int n => exact visible_printInt n
      | float mantissa exponent =>
        exact visible_append (visible_printInt mantissa)
          (visible_cons (by decide) (visible_printInt exponent))
    | str s => exact visible_printStr s
    | arr items =>
      rw [print, printItems_eq]
      exact visible_bracketed (by decide) (by decide) (hitems items rfl)
    | obj fields =>
      rw [print, printFields_eq]
      refine visible_bracketed (by decide) (by decide) fun field hfield => ?_
      exact visible_append (visible_printStr _)
        (visible_cons (by decide) (hfields fields rfl field hfield))

theorem head_of_parse_obj (hparse : parse s = some (.obj fields)) :
    (skipSpace s).head? = some '{' := by
  obtain ⟨rest, hread, -⟩ := parse_eq_some_iff.mp hparse
  obtain ⟨items, others, heq⟩ := readValue_eq_readWith .map depthLimit
  have hhead : readHead .map items others (skipSpace s).head? (skipSpace s) =
      some (.obj fields, rest) := by
    rw [heq] at hread
    exact hread
  cases hskip : (skipSpace s).head? with
  | none =>
    rw [hskip] at hhead
    cases hhead
  | some c =>
    rw [hskip, readHead] at hhead
    have hword {word : Text} {value : Value} (hvalue : value ≠ .obj fields) :
        readWord word value (skipSpace s) ≠ some (.obj fields, rest) :=
      fun hread => hvalue (readWord_eq_some hread).2.symm
    have hmade {α : Type} {read : Reader α} {make : α → Value} (hne : ∀ x, make x ≠ .obj fields)
        (t : Text) : (make <$> read) t ≠ some (.obj fields, rest) := by
      intro hread
      obtain ⟨x, -, hx⟩ := Reader.map_eq_some_iff.mp hread
      exact hne x hx
    have hlater {read : Reader Value} (hne : ∀ t, read t ≠ some (.obj fields, rest)) :
        (char >>= fun _ => read) (skipSpace s) ≠ some (.obj fields, rest) := by
      intro hread
      obtain ⟨_, t, -, hread⟩ := Reader.bind_eq_some_iff.mp hread
      exact hne t hread
    split_ifs at hhead with hquote hbracket hbrace hminus hdigit hnull htrue hfalse
    · exact absurd hhead (hlater (hmade (by simp)))
    · exact absurd hhead (hlater (hmade (by simp)))
    · rw [hbrace]
    · exact absurd hhead (hlater (hmade (by simp)))
    · exact absurd hhead (hmade (by simp) _)
    · exact absurd hhead (hword (by simp))
    · exact absurd hhead (hword (by simp))
    · exact absurd hhead (hword (by simp))
    · cases hhead

theorem readValue_brace (hskip : skip s = some ((), '{' :: t)) (build : Build) (depth : ℕ) :
    readValue build (depth + 1) s =
      (build.object <$> readList '}' (readField (readValue build depth))) t :=
  bind_of_read hskip _

theorem obj_of_parse_brace (hparse : parse ('{' :: s) = some value) :
    ∃ fields, value = .obj fields := by
  obtain ⟨rest, hread, -⟩ := parse_eq_some_iff.mp hparse
  obtain ⟨fields, -, rfl⟩ :=
    Reader.map_eq_some_iff.mp ((readValue_brace (skip_cons rfl s) .map 126).symm.trans hread)
  exact ⟨_, rfl⟩

theorem parse_obj_local (hparse : parse s = some (.obj fields)) :
    ∃ front rest, s = front ++ '}' :: rest ∧ skipSpace rest = [] ∧
      ∀ other, skipSpace other = [] → parse (front ++ '}' :: other) = some (.obj fields) := by
  obtain ⟨t, htext⟩ := List.head?_eq_some_iff.mp (head_of_parse_obj hparse)
  obtain ⟨rest, hread, hrest⟩ := parse_eq_some_iff.mp hparse
  have hskip : skip s = some ((), '{' :: t) := congrArg (fun rest => some ((), rest)) htext
  obtain ⟨space, hs, hspace⟩ := local_skip s () _ hskip
  obtain ⟨read, hfields, hobj⟩ :=
    Reader.map_eq_some_iff.mp ((readValue_brace hskip .map 126).symm.trans hread)
  obtain ⟨front, rfl, hfront⟩ :=
    closes_readList (local_readField (local_readValue .map 126)) '}' t read rest hfields
  refine ⟨space ++ '{' :: front, rest, by simp [hs], hrest, ?_⟩
  intro other hother
  refine parse_eq_some_iff.mpr ⟨other, ?_, hother⟩
  rw [append_assoc, cons_append]
  exact (readValue_brace (hspace ('{' :: (front ++ '}' :: other)) rfl) .map 126).trans
    (Reader.map_eq_some_iff.mpr ⟨read, hfront other, hobj⟩)

theorem parse_eq_none (hspace : isSpace c = false) (hdigit : c.isDigit = false)
    (hopens : c ∉ ['"', '[', '{', '-']) (hword : c ∉ ['n', 't', 'f']) (s : Text) :
    parse (c :: s) = none := by
  simp only [mem_cons, not_mem_nil, or_false, not_or] at hopens hword
  obtain ⟨items, fields, hread⟩ := readValue_eq_readWith .map depthLimit
  have hnone : readValue .map depthLimit (c :: s) = none := by
    rw [hread, readWith_cons hspace, readHead, if_neg hopens.1, if_neg hopens.2.1,
      if_neg hopens.2.2.1, if_neg hopens.2.2.2, hdigit, if_neg Bool.false_ne_true,
      if_neg hword.1, if_neg hword.2.1, if_neg hword.2.2]
    rfl
  rw [parse, hnone]

end Json
