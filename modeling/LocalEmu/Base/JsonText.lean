import Mathlib.Data.List.TakeWhile
import LocalEmu.Base.Text

/-!
# JSON Texts

JSON values, the texts of a compact encoder that writes ASCII only, and a strict decoder.

Strings are encoded character by character. What is not printable ASCII is escaped by its
code, and a character above the basic plane by the two codes of its surrogate pair. The
decoder turns a string into a list of characters and codes first and joins the pairs
afterwards.

Integers have any size. What floating-point numbers there are is a parameter, with the text
of each of them, which the decoder gives back to it; the grammar of these texts is that of
numbers with a fraction or an exponent.
-/

namespace LocalEmu

open List Option

/-! ### Values -/

/-- A JSON value. The members of an object have an order. -/
inductive JsonValue (F : Type)
  | null
  | bool (b : Bool)
  | int (n : Int)
  | float (x : F)
  | str (s : Text)
  | arr (items : List (JsonValue F))
  | obj (members : List (Text × JsonValue F))

namespace JsonText

/-! ### Numbers -/

/-- A natural number without leading zeros. -/
def isNatLiteral : Text → Bool
  | [] => false
  | [c] => c.isDigit
  | c :: cs => c != '0' && (c :: cs).all Char.isDigit

/-- A sequence of digits that is not empty. -/
def isDigits (t : Text) : Bool := !t.isEmpty && t.all Char.isDigit

def isExponent : Text → Bool
  | 'e' :: '+' :: t => isDigits t
  | 'e' :: '-' :: t => isDigits t
  | 'e' :: t => isDigits t
  | 'E' :: '+' :: t => isDigits t
  | 'E' :: '-' :: t => isDigits t
  | 'E' :: t => isDigits t
  | _ => false

/-- A fraction with or without an exponent, or an exponent alone. -/
def isFraction : Text → Bool
  | '.' :: t =>
    !(t.takeWhile Char.isDigit).isEmpty &&
      ((t.dropWhile Char.isDigit).isEmpty || isExponent (t.dropWhile Char.isDigit))
  | t => isExponent t

/-- A number without its sign that has a fraction or an exponent. -/
def isUnsignedFloat (t : Text) : Bool :=
  isNatLiteral (t.takeWhile Char.isDigit) && isFraction (t.dropWhile Char.isDigit)

def isFloatLiteral : Text → Bool
  | '-' :: t => isUnsignedFloat t
  | t => isUnsignedFloat t

/-- The finite floating-point numbers, with the text of each of them, and the number that
    the text of a number stands for. -/
structure Floats (F : Type) where
  text : F → Text
  ofText : Text → F
  isFloatLiteral_text : ∀ x, isFloatLiteral (text x) = true
  ofText_text : ∀ x, ofText (text x) = x

variable {F : Type}

def intText : Int → Text
  | .ofNat n => Nat.toDigits 10 n
  | .negSucc n => '-' :: Nat.toDigits 10 (n + 1)

variable (floats : Floats F) (c : Char)

def isNumberChar : Bool :=
  c.isDigit || c == '-' || c == '+' || c == '.' || c == 'e' || c == 'E'

/-- The number that a text stands for, if it is one. -/
def readNumber (t : Text) : Option (JsonValue F) :=
  if isFloatLiteral t then some (.float (floats.ofText t))
  else
    match t with
    | '-' :: t => if isNatLiteral t then some (.int (-(Nat.ofDigitChars 10 t 0 : Int))) else none
    | t => if isNatLiteral t then some (.int (Nat.ofDigitChars 10 t 0)) else none

/-! ### Strings -/

variable (n : Nat)

def hexText : Text :=
  [Nat.digitChar (n / 4096 % 16), Nat.digitChar (n / 256 % 16), Nat.digitChar (n / 16 % 16),
    Nat.digitChar (n % 16)]

/-- The first code of the surrogate pair of a character. -/
def highSurrogate : Nat := 0xD800 + (n - 0x10000) / 0x400

/-- The second code of the surrogate pair of a character. -/
def lowSurrogate : Nat := 0xDC00 + (n - 0x10000) % 0x400

def shortEscape : Option Char :=
  if c = '"' then some '"'
  else if c = '\\' then some '\\'
  else if c = '\n' then some 'n'
  else if c = '\r' then some 'r'
  else if c = '\t' then some 't'
  else if c.toNat = 0x0C then some 'f'
  else if c.toNat = 0x08 then some 'b'
  else none

def escapeChar : Text :=
  match shortEscape c with
  | some e => ['\\', e]
  | none =>
    if 0x20 ≤ c.toNat ∧ c.toNat ≤ 0x7E then [c]
    else if c.toNat < 0x10000 then '\\' :: 'u' :: hexText c.toNat
    else '\\' :: 'u' :: hexText (highSurrogate c.toNat) ++
      '\\' :: 'u' :: hexText (lowSurrogate c.toNat)

variable {t : Text} (s : Text)

def escapeString : Text := '"' :: s.flatMap escapeChar ++ ['"']

/-- What a string is made of: characters, and codes of sixteen bits. -/
inductive StringUnit
  | char (c : Char)
  | code (n : Nat)

def unescape (e : Char) : Option Char :=
  if e = '"' then some '"'
  else if e = '\\' then some '\\'
  else if e = '/' then some '/'
  else if e = 'n' then some '\n'
  else if e = 'r' then some '\r'
  else if e = 't' then some '\t'
  else if e = 'f' then some (Char.ofNat 0x0C)
  else if e = 'b' then some (Char.ofNat 0x08)
  else none

def hexValue : Option Nat :=
  if c.isDigit then some (c.toNat - '0'.toNat)
  else if 'a' ≤ c ∧ c ≤ 'f' then some (c.toNat - 'a'.toNat + 10)
  else if 'A' ≤ c ∧ c ≤ 'F' then some (c.toNat - 'A'.toNat + 10)
  else none

def readHex (a b c d : Char) : Option Nat := do
  let a ← hexValue a
  let b ← hexValue b
  let c ← hexValue c
  let d ← hexValue d
  return ((a * 16 + b) * 16 + c) * 16 + d

/-- The units of a string up to its closing quotation mark, and what follows it. -/
def lexString : Text → Option (List StringUnit × Text)
  | [] => none
  | '"' :: t => some ([], t)
  | '\\' :: 'u' :: a :: b :: c :: d :: t =>
    (readHex a b c d).bind fun n => (lexString t).map fun r => (.code n :: r.1, r.2)
  | '\\' :: e :: t =>
    (unescape e).bind fun c => (lexString t).map fun r => (.char c :: r.1, r.2)
  | c :: t => if c.toNat < 0x20 then none else (lexString t).map fun r => (.char c :: r.1, r.2)

/-- Join the surrogate pairs. A surrogate alone is no character. -/
def joinUnits : List StringUnit → Option Text
  | [] => some []
  | .char c :: us => (joinUnits us).map (c :: ·)
  | .code n :: .code m :: us =>
    if 0xD800 ≤ n ∧ n < 0xDC00 then
      if 0xDC00 ≤ m ∧ m < 0xE000 then
        (joinUnits us).map (Char.ofNat (0x10000 + (n - 0xD800) * 0x400 + (m - 0xDC00)) :: ·)
      else none
    else if 0xDC00 ≤ n ∧ n < 0xE000 then none
    else (joinUnits (.code m :: us)).map (Char.ofNat n :: ·)
  | .code n :: us =>
    if 0xD800 ≤ n ∧ n < 0xE000 then none else (joinUnits us).map (Char.ofNat n :: ·)

/-- The string that a text begins with, behind the quotation mark. -/
def readString (t : Text) : Option (Text × Text) :=
  (lexString t).bind fun r => (joinUnits r.1).map fun s => (s, r.2)

/-! ### Encoding -/

mutual

/-- The text of a value. -/
def encode (floats : Floats F) : JsonValue F → Text
  | .null => "null".toList
  | .bool true => "true".toList
  | .bool false => "false".toList
  | .int n => intText n
  | .float x => floats.text x
  | .str s => escapeString s
  | .arr items => '[' :: encodeItems floats items ++ [']']
  | .obj members => '{' :: encodeMembers floats members ++ ['}']

def encodeItems (floats : Floats F) : List (JsonValue F) → Text
  | [] => []
  | [v] => encode floats v
  | v :: vs => encode floats v ++ ',' :: encodeItems floats vs

def encodeMembers (floats : Floats F) : List (Text × JsonValue F) → Text
  | [] => []
  | [(k, v)] => escapeString k ++ ':' :: encode floats v
  | (k, v) :: ms => escapeString k ++ ':' :: encode floats v ++ ',' :: encodeMembers floats ms

end

/-! ### Decoding -/

def isSpace : Bool := c == ' ' || c == '\t' || c == '\n' || c == '\r'

/-- A text without the white space at its start. -/
def skipSpace (t : Text) : Text := t.dropWhile isSpace

/-- A word and a value for it, if a text begins with the word. -/
def readWord (word : Text) (v : JsonValue F) (t : Text) : Option (JsonValue F × Text) :=
  if word.isPrefixOf t then some (v, t.drop word.length) else none

/-- The elements of an array from the first one on, and what follows the bracket. The first
    argument bounds their number. -/
def readItems (read : Text → Option (JsonValue F × Text)) :
    Nat → Text → Option (List (JsonValue F) × Text)
  | 0, _ => none
  | n + 1, t => (read t).bind fun r =>
    match skipSpace r.2 with
    | ']' :: t => some ([r.1], t)
    | ',' :: t => (readItems read n t).map fun rest => (r.1 :: rest.1, rest.2)
    | _ => none

def readMember (read : Text → Option (JsonValue F × Text)) (t : Text) :
    Option ((Text × JsonValue F) × Text) :=
  match skipSpace t with
  | '"' :: t => (readString t).bind fun key =>
    match skipSpace key.2 with
    | ':' :: t => (read t).map fun r => ((key.1, r.1), r.2)
    | _ => none
  | _ => none

/-- The members of an object from the first one on, and what follows the brace. The first
    argument bounds their number. -/
def readMembers (read : Text → Option (JsonValue F × Text)) :
    Nat → Text → Option (List (Text × JsonValue F) × Text)
  | 0, _ => none
  | n + 1, t => (readMember read t).bind fun r =>
    match skipSpace r.2 with
    | '}' :: t => some ([r.1], t)
    | ',' :: t => (readMembers read n t).map fun rest => (r.1 :: rest.1, rest.2)
    | _ => none

/-- A value, and what follows it. The first argument bounds the depth of the value and the
    lengths of its arrays and objects. -/
def readValue (floats : Floats F) : Nat → Text → Option (JsonValue F × Text)
  | 0, _ => none
  | n + 1, t =>
    match skipSpace t with
    | '"' :: t => (readString t).map fun r => (.str r.1, r.2)
    | '[' :: t =>
      match skipSpace t with
      | ']' :: t => some (.arr [], t)
      | t => (readItems (readValue floats n) n t).map fun r => (.arr r.1, r.2)
    | '{' :: t =>
      match skipSpace t with
      | '}' :: t => some (.obj [], t)
      | t => (readMembers (readValue floats n) n t).map fun r => (.obj r.1, r.2)
    | 'n' :: t => readWord "null".toList .null ('n' :: t)
    | 't' :: t => readWord "true".toList (.bool true) ('t' :: t)
    | 'f' :: t => readWord "false".toList (.bool false) ('f' :: t)
    | t => (readNumber floats (t.takeWhile isNumberChar)).map fun v =>
      (v, t.dropWhile isNumberChar)

/-- The value of a text, if it is valid. A value has at most the length of its text for its
    depth and for the lengths of its parts. -/
def decode (t : Text) : Option (JsonValue F) :=
  match readValue floats (t.length + 1) t with
  | some (v, rest) => if (skipSpace rest).isEmpty then some v else none
  | none => none

/-! ### Texts of numbers -/

theorem toDigits_ne_nil : Nat.toDigits 10 n ≠ [] := by
  rw [Nat.toDigits_eq_if (by decide)]
  by_cases h : n < 10
  · rw [if_pos h]
    exact cons_ne_nil _ _
  · rw [if_neg h]
    exact append_ne_nil_of_right_ne_nil _ (cons_ne_nil _ _)

theorem head?_toDigits (h : 0 < n) : (Nat.toDigits 10 n).head? ≠ some '0' := by
  induction n using Nat.strongRecOn with
  | _ n ih =>
    rw [Nat.toDigits_eq_if (by decide)]
    by_cases hlt : n < 10
    · rw [if_pos hlt]
      have hdigit : ∀ d : Fin 10, 0 < d.val → some (Nat.digitChar d.val) ≠ some '0' := by decide
      exact hdigit ⟨n, hlt⟩ h
    · rw [if_neg hlt, head?_append_of_ne_nil _ (toDigits_ne_nil _)]
      exact ih _ (by omega) (by omega)

theorem all_isDigit_toDigits : (Nat.toDigits 10 n).all Char.isDigit = true :=
  all_eq_true.mpr fun _ hc => Nat.isDigit_of_mem_toDigits (by decide) (by decide) hc

theorem isNatLiteral_toDigits : isNatLiteral (Nat.toDigits 10 n) = true := by
  have hall := all_isDigit_toDigits n
  have hhead := head?_toDigits n
  have hne := toDigits_ne_nil n
  by_cases hn : n < 10
  · rw [Nat.toDigits_of_lt_base hn] at hall ⊢
    simpa [isNatLiteral] using hall
  · cases hdigits : Nat.toDigits 10 n with
    | nil => exact absurd hdigits hne
    | cons c cs =>
      rw [hdigits] at hall hhead
      cases cs with
      | nil => simpa [isNatLiteral] using hall
      | cons =>
        rw [isNatLiteral, hall]
        have hc := hhead (by omega)
        simpa using hc
        all_goals simp

theorem dropWhile_eq_nil {p : Char → Bool} {t : Text} (h : t.all p = true) : t.dropWhile p = [] :=
  dropWhile_eq_nil_iff.mpr (all_eq_true.mp h)

theorem isUnsignedFloat_of_digits (h : t.all Char.isDigit = true) : isUnsignedFloat t = false := by
  rw [isUnsignedFloat, dropWhile_eq_nil h]
  simp [isFraction, isExponent]

theorem isFloatLiteral_of_head (h : t.head? ≠ some '-') : isFloatLiteral t = isUnsignedFloat t := by
  cases t with
  | nil => rfl
  | cons =>
    unfold isFloatLiteral
    split
    · rename_i heq
      rw [(cons.inj heq).1] at h
      exact absurd rfl h
    · rfl

theorem isDigit_ne {c d : Char} (h : c.isDigit = true) (hd : d.isDigit = false) : c ≠ d := by
  intro heq
  rw [heq, hd] at h
  cases h

theorem head?_ne_of_digits (h : t.all Char.isDigit = true) : t.head? ≠ some '-' := by
  cases t with
  | nil => exact nofun
  | cons =>
    rw [all_cons, Bool.and_eq_true] at h
    rw [head?_cons, ne_eq, some.injEq]
    exact isDigit_ne h.1 rfl

theorem readNumber_intText (n : Int) : readNumber floats (intText n) = some (.int n) := by
  cases n with
  | ofNat n =>
    have hdigits := all_isDigit_toDigits n
    have htext : intText (.ofNat n) = Nat.toDigits 10 n := rfl
    rw [htext]
    unfold readNumber
    rw [isFloatLiteral_of_head (head?_ne_of_digits hdigits), isUnsignedFloat_of_digits hdigits,
      if_neg Bool.false_ne_true]
    split
    · rename_i t heq
      have hhead := head?_ne_of_digits hdigits
      rw [heq] at hhead
      exact absurd rfl hhead
    · rw [if_pos (isNatLiteral_toDigits n), Nat.ofDigitChars_ten_toDigits]
      rfl
  | negSucc n =>
    have hfloat : isFloatLiteral ('-' :: Nat.toDigits 10 (n + 1)) = false :=
      isUnsignedFloat_of_digits (all_isDigit_toDigits _)
    have htext : intText (.negSucc n) = '-' :: Nat.toDigits 10 (n + 1) := rfl
    rw [htext]
    unfold readNumber
    rw [hfloat]
    simp only [isNatLiteral_toDigits, if_true, Nat.ofDigitChars_ten_toDigits]
    rfl

def isNumberStart : Bool := c.isDigit || c == '-'

theorem isNumberChar_of_digit {c : Char} (h : c.isDigit = true) : isNumberChar c = true := by
  rw [isNumberChar, h]
  rfl

theorem isDigits_all (h : isDigits t = true) : t.all isNumberChar = true := by
  rw [isDigits, Bool.and_eq_true] at h
  exact all_eq_true.mpr fun c hc => isNumberChar_of_digit (all_eq_true.mp h.2 c hc)

theorem isExponent_all (h : isExponent t = true) : t.all isNumberChar = true := by
  unfold isExponent at h
  split at h
  · rw [all_cons, all_cons, isDigits_all h]
    rfl
  · rw [all_cons, all_cons, isDigits_all h]
    rfl
  · rw [all_cons, isDigits_all h]
    rfl
  · rw [all_cons, all_cons, isDigits_all h]
    rfl
  · rw [all_cons, all_cons, isDigits_all h]
    rfl
  · rw [all_cons, isDigits_all h]
    rfl
  · cases h

theorem takeWhile_digits_all (t : Text) : (t.takeWhile Char.isDigit).all isNumberChar = true :=
  all_eq_true.mpr fun _ hc => isNumberChar_of_digit (mem_takeWhile_imp hc)

theorem isFraction_all (h : isFraction t = true) : t.all isNumberChar = true := by
  unfold isFraction at h
  split at h
  · rename_i t
    rw [Bool.and_eq_true, Bool.or_eq_true] at h
    have hrest : (t.dropWhile Char.isDigit).all isNumberChar = true := by
      rcases h.2 with hempty | hexponent
      · rw [isEmpty_iff.mp hempty]
        rfl
      · exact isExponent_all hexponent
    rw [all_cons, ← takeWhile_append_dropWhile (p := Char.isDigit) (l := t),
      all_append, takeWhile_digits_all, hrest]
    rfl
  · exact isExponent_all h

theorem isUnsignedFloat_all (h : isUnsignedFloat t = true) : t.all isNumberChar = true := by
  rw [isUnsignedFloat, Bool.and_eq_true] at h
  rw [← takeWhile_append_dropWhile (p := Char.isDigit) (l := t), all_append,
    takeWhile_digits_all, isFraction_all h.2]
  rfl

theorem isUnsignedFloat_head (h : isUnsignedFloat t = true) :
    ∃ c cs, t = c :: cs ∧ c.isDigit = true := by
  rw [isUnsignedFloat, Bool.and_eq_true] at h
  cases t with
  | nil => exact absurd h.1 (by decide)
  | cons c cs =>
    refine ⟨c, cs, rfl, ?_⟩
    by_cases hc : c.isDigit = true
    · exact hc
    · rw [takeWhile_cons_of_neg hc] at h
      exact absurd h.1 (by decide)

theorem isFloatLiteral_spec (h : isFloatLiteral t = true) :
    t.all isNumberChar = true ∧ ∃ c cs, t = c :: cs ∧ isNumberStart c = true := by
  unfold isFloatLiteral at h
  split at h
  · refine ⟨?_, '-', _, rfl, rfl⟩
    rw [all_cons, isUnsignedFloat_all h]
    rfl
  · rcases isUnsignedFloat_head h with ⟨c, cs, rfl, hc⟩
    exact ⟨isUnsignedFloat_all h, c, cs, rfl, by rw [isNumberStart, hc]; rfl⟩

theorem intText_spec (n : Int) : (intText n).all isNumberChar = true ∧
    ∃ c cs, intText n = c :: cs ∧ isNumberStart c = true := by
  cases n with
  | ofNat n =>
    have hdigits := all_isDigit_toDigits n
    refine ⟨all_eq_true.mpr fun c hc =>
      isNumberChar_of_digit (all_eq_true.mp hdigits c hc), ?_⟩
    cases htext : Nat.toDigits 10 n with
    | nil => exact absurd htext (toDigits_ne_nil n)
    | cons c cs =>
      rw [htext, all_cons, Bool.and_eq_true] at hdigits
      exact ⟨c, cs, htext, by rw [isNumberStart, hdigits.1]; rfl⟩
  | negSucc n =>
    have hdigits := all_isDigit_toDigits (n + 1)
    refine ⟨?_, '-', _, rfl, rfl⟩
    rw [intText, all_cons]
    exact all_eq_true.mpr fun c hc =>
      isNumberChar_of_digit (all_eq_true.mp hdigits c hc)

/-! ### Texts of strings -/

theorem hexValue_digitChar (d : Nat) (h : d < 16) : hexValue (Nat.digitChar d) = some d := by
  have hall : ∀ d : Fin 16, hexValue (Nat.digitChar d.val) = some d.val := by decide
  exact hall ⟨d, h⟩

theorem readHex_hexText (h : n < 65536) :
    readHex (Nat.digitChar (n / 4096 % 16)) (Nat.digitChar (n / 256 % 16))
      (Nat.digitChar (n / 16 % 16)) (Nat.digitChar (n % 16)) = some n := by
  unfold readHex
  rw [hexValue_digitChar _ (Nat.mod_lt _ (by decide)),
    hexValue_digitChar _ (Nat.mod_lt _ (by decide)),
    hexValue_digitChar _ (Nat.mod_lt _ (by decide)),
    hexValue_digitChar _ (Nat.mod_lt _ (by decide))]
  simp
  omega

/-- The units that a character is encoded by. -/
def unitsOf : List StringUnit :=
  if (shortEscape c).isSome ∨ 0x20 ≤ c.toNat ∧ c.toNat ≤ 0x7E then [.char c]
  else if c.toNat < 0x10000 then [.code c.toNat]
  else [.code (highSurrogate c.toNat), .code (lowSurrogate c.toNat)]

theorem toNat_bounds : c.toNat < 0xD800 ∨ 0xDFFF < c.toNat ∧ c.toNat < 0x110000 := c.valid

theorem unescape_of_shortEscape {c e : Char} (h : shortEscape c = some e) :
    e ≠ 'u' ∧ unescape e = some c := by
  unfold shortEscape at h
  split_ifs at h with h1 h2 h3 h4 h5 h6 h7
  · cases h
    exact ⟨by decide, by rw [h1]; rfl⟩
  · cases h
    exact ⟨by decide, by rw [h2]; rfl⟩
  · cases h
    exact ⟨by decide, by rw [h3]; rfl⟩
  · cases h
    exact ⟨by decide, by rw [h4]; rfl⟩
  · cases h
    exact ⟨by decide, by rw [h5]; rfl⟩
  · cases h
    refine ⟨by decide, ?_⟩
    rw [← Char.ofNat_toNat c, h6]
    rfl
  · cases h
    refine ⟨by decide, ?_⟩
    rw [← Char.ofNat_toNat c, h7]
    rfl

theorem lexString_escape {e c : Char} (hu : e ≠ 'u') (h : unescape e = some c) (t : Text) :
    lexString ('\\' :: e :: t) = (lexString t).map fun r => (.char c :: r.1, r.2) := by
  rw [lexString.eq_def]
  split
  · rename_i heq
    cases heq
  · rename_i heq
    cases heq
  · rename_i heq
    cases heq
    exact absurd rfl hu
  · rename_i heq
    cases heq
    rw [h, bind_some]
  · rename_i hne heq
    cases heq
    exact (hne _ _ rfl rfl).elim

theorem lexString_code (h : n < 65536) (t : Text) : lexString ('\\' :: 'u' :: hexText n ++ t) =
      (lexString t).map fun r => (.code n :: r.1, r.2) := by
  unfold hexText
  simp
  rw [lexString, readHex_hexText n h, bind_some]

theorem lexString_plain {c : Char} (hquote : c ≠ '"') (hslash : c ≠ '\\') (hle : 0x20 ≤ c.toNat)
    (t : Text) : lexString (c :: t) = (lexString t).map fun r => (.char c :: r.1, r.2) := by
  rw [lexString.eq_def]
  split
  · rename_i heq
    cases heq
  · rename_i heq
    cases heq
    exact absurd rfl hquote
  · rename_i heq
    cases heq
    exact absurd rfl hslash
  · rename_i heq
    cases heq
    exact absurd rfl hslash
  · rename_i heq
    cases heq
    rw [if_neg (by omega)]

theorem lexString_escapeChar (t : Text) :
    lexString (escapeChar c ++ t) = (lexString t).map fun r => (unitsOf c ++ r.1, r.2) := by
  unfold escapeChar unitsOf
  cases hshort : shortEscape c with
  | some =>
    have hspec := unescape_of_shortEscape hshort
    exact lexString_escape hspec.1 hspec.2 t
  | none =>
    have hquote : c ≠ '"' := by
      intro heq
      rw [heq] at hshort
      cases hshort
    have hslash : c ≠ '\\' := by
      intro heq
      rw [heq] at hshort
      cases hshort
    by_cases hplain : 0x20 ≤ c.toNat ∧ c.toNat ≤ 0x7E
    · have hcond : (none : Option Char).isSome = true ∨ 0x20 ≤ c.toNat ∧ c.toNat ≤ 0x7E :=
        Or.inr hplain
      rw [if_pos hplain, if_pos hcond]
      exact lexString_plain hquote hslash hplain.1 t
    · have hcond : ¬((none : Option Char).isSome = true ∨ 0x20 ≤ c.toNat ∧ c.toNat ≤ 0x7E) := by
        simpa using hplain
      rw [if_neg hplain, if_neg hcond]
      by_cases hbasic : c.toNat < 0x10000
      · rw [if_pos hbasic, if_pos hbasic]
        exact lexString_code _ hbasic t
      · rw [if_neg hbasic, if_neg hbasic]
        have hbounds := toNat_bounds c
        rw [append_assoc, lexString_code _ (by unfold highSurrogate; omega),
          lexString_code _ (by unfold lowSurrogate; omega), Option.map_map]
        rfl

theorem lexString_flatMap (t : Text) :
    lexString (s.flatMap escapeChar ++ '"' :: t) = some (s.flatMap unitsOf, t) := by
  induction s with
  | nil => rfl
  | cons c s ih =>
    rw [flatMap_cons, append_assoc, lexString_escapeChar, ih]
    rfl

theorem joinUnits_code {n : Nat} (h : ¬(0xD800 ≤ n ∧ n < 0xE000)) (us : List StringUnit) :
    joinUnits (.code n :: us) = (joinUnits us).map (Char.ofNat n :: ·) := by
  rw [joinUnits.eq_def]
  cases us with
  | nil => exact if_neg h
  | cons u =>
    cases u with
    | char => exact if_neg h
    | code =>
      dsimp only
      rw [if_neg (by omega), if_neg (by omega)]

theorem joinUnits_pair {n : Nat} (hle : 0x10000 ≤ n) (hlt : n < 0x110000) (us : List StringUnit) :
    joinUnits (.code (highSurrogate n) :: .code (lowSurrogate n) :: us) =
      (joinUnits us).map (Char.ofNat n :: ·) := by
  have hjoin : 0x10000 + (highSurrogate n - 0xD800) * 0x400 + (lowSurrogate n - 0xDC00) = n := by
    unfold highSurrogate lowSurrogate
    omega
  rw [joinUnits, if_pos (by unfold highSurrogate; omega), if_pos (by unfold lowSurrogate; omega),
    hjoin]

theorem joinUnits_unitsOf (us : List StringUnit) :
    joinUnits (unitsOf c ++ us) = (joinUnits us).map (c :: ·) := by
  have hbounds := toNat_bounds c
  unfold unitsOf
  split_ifs with h1 h2
  · rw [singleton_append, joinUnits]
  · rw [singleton_append, joinUnits_code (by omega), Char.ofNat_toNat]
  · rw [cons_append, singleton_append, joinUnits_pair (by omega) (by omega),
      Char.ofNat_toNat]

theorem joinUnits_flatMap : joinUnits (s.flatMap unitsOf) = some s := by
  induction s with
  | nil => rfl
  | cons c s ih =>
    rw [flatMap_cons, joinUnits_unitsOf, ih]
    rfl

/-- Strings are decoded to what was encoded. -/
theorem readString_escapeString (t : Text) :
    readString (s.flatMap escapeChar ++ '"' :: t) = some (s, t) := by
  rw [readString, lexString_flatMap, bind_some, joinUnits_flatMap]
  rfl

/-! ### Texts of values -/

/-- A number does not go on in a text. -/
def Ends (t : Text) : Prop := ∀ c ∈ t.head?, isNumberChar c = false

theorem takeWhile_ends {rest : Text} (h : t.all isNumberChar = true) (hends : Ends rest) :
    (t ++ rest).takeWhile isNumberChar = t ∧ (t ++ rest).dropWhile isNumberChar = rest := by
  have hall : ∀ c ∈ t, isNumberChar c = true := all_eq_true.mp h
  rw [takeWhile_append_of_pos hall, dropWhile_append_of_pos hall]
  cases rest with
  | nil => exact ⟨append_nil t, rfl⟩
  | cons c =>
    have hc : ¬isNumberChar c = true := by
      rw [hends c rfl]
      exact Bool.false_ne_true
    rw [takeWhile_cons_of_neg hc, dropWhile_cons_of_neg hc, append_nil]
    exact ⟨rfl, rfl⟩

theorem skipSpace_cons {c : Char} (h : isSpace c = false) (t : Text) :
    skipSpace (c :: t) = c :: t :=
  dropWhile_cons_of_neg (by rw [h]; exact Bool.false_ne_true)

theorem readValue_number (floats : Floats F) (n : Nat) {c : Char} (h : isNumberStart c = true)
    (t : Text) : readValue floats (n + 1) (c :: t) =
      (readNumber floats ((c :: t).takeWhile isNumberChar)).map fun v =>
        (v, (c :: t).dropWhile isNumberChar) := by
  have hne : ∀ d, isNumberStart d = false → c ≠ d := by
    intro d hd heq
    rw [heq, hd] at h
    cases h
  have hspace : isSpace c = false := by
    unfold isSpace
    simp [hne ' ' rfl, hne '\t' rfl, hne '\n' rfl, hne '\r' rfl]
  unfold readValue
  rw [skipSpace_cons hspace]
  split
  · rename_i heq
    exact absurd (cons.inj heq).1 (hne _ rfl)
  · rename_i heq
    exact absurd (cons.inj heq).1 (hne _ rfl)
  · rename_i heq
    exact absurd (cons.inj heq).1 (hne _ rfl)
  · rename_i heq
    exact absurd (cons.inj heq).1 (hne _ rfl)
  · rename_i heq
    exact absurd (cons.inj heq).1 (hne _ rfl)
  · rename_i heq
    exact absurd (cons.inj heq).1 (hne _ rfl)
  · rfl

theorem readValue_of_number {rest : Text} {v : JsonValue F} (hall : t.all isNumberChar = true)
    (hstart : ∃ c cs, t = c :: cs ∧ isNumberStart c = true)
    (hread : readNumber floats t = some v) (hends : Ends rest) :
    readValue floats (n + 1) (t ++ rest) = some (v, rest) := by
  rcases hstart with ⟨c, cs, rfl, hc⟩
  have hsplit := takeWhile_ends hall hends
  rw [cons_append] at hsplit ⊢
  rw [readValue_number _ n hc, hsplit.1, hsplit.2, hread]
  rfl

variable (v : JsonValue F)

theorem encode_head :
    ∃ c cs, encode floats v = c :: cs ∧ isSpace c = false ∧ c ≠ ']' ∧ c ≠ '}' := by
  have hnumber : ∀ c, isNumberStart c = true → isSpace c = false ∧ c ≠ ']' ∧ c ≠ '}' := by
    intro c hc
    have hne : ∀ d, isNumberStart d = false → c ≠ d := by
      intro d hd heq
      rw [heq, hd] at hc
      cases hc
    refine ⟨?_, hne _ rfl, hne _ rfl⟩
    unfold isSpace
    simp [hne ' ' rfl, hne '\t' rfl, hne '\n' rfl, hne '\r' rfl]
  cases v with
  | null | str | arr | obj => exact ⟨_, _, rfl, by decide⟩
  | bool b => cases b <;> exact ⟨_, _, rfl, by decide⟩
  | int n =>
    rcases (intText_spec n).2 with ⟨c, cs, htext, hc⟩
    exact ⟨c, cs, htext, hnumber c hc⟩
  | float x =>
    rcases (isFloatLiteral_spec (floats.isFloatLiteral_text x)).2 with ⟨c, cs, htext, hc⟩
    exact ⟨c, cs, htext, hnumber c hc⟩

theorem readNumber_float (x : F) : readNumber floats (floats.text x) = some (.float x) := by
  unfold readNumber
  rw [if_pos (floats.isFloatLiteral_text x), floats.ofText_text]

theorem ends_cons {c : Char} (h : isNumberChar c = false) (t : Text) : Ends (c :: t) := by
  intro d hd
  rw [head?_cons, mem_some] at hd
  exact hd ▸ h

theorem readMember_encode (k : Text) {v : JsonValue F} {rest : Text}
    (h : readValue floats n (encode floats v ++ rest) = some (v, rest)) :
    readMember (readValue floats n) (escapeString k ++ ':' :: encode floats v ++ rest) =
      some ((k, v), rest) := by
  unfold readMember escapeString
  simp
  rw [skipSpace_cons rfl]
  simp only [readString_escapeString, bind_some]
  rw [skipSpace_cons rfl]
  simp only [h, map_some]

theorem encodeItems_head (vs : List (JsonValue F)) :
    ∃ c cs, encodeItems floats (v :: vs) = c :: cs ∧ isSpace c = false ∧ c ≠ ']' := by
  rcases encode_head _ v with ⟨c, cs, htext, hspace, hc, -⟩
  cases vs with
  | nil => exact ⟨c, cs, htext, hspace, hc⟩
  | cons w ws =>
    refine ⟨c, cs ++ ',' :: encodeItems floats (w :: ws), ?_, hspace, hc⟩
    have hcons : encodeItems floats (v :: w :: ws) =
        encode floats v ++ ',' :: encodeItems floats (w :: ws) := rfl
    rw [hcons, htext, List.cons_append]

theorem encodeMembers_head (m : Text × JsonValue F)
    (ms : List (Text × JsonValue F)) : ∃ cs, encodeMembers floats (m :: ms) = '"' :: cs := by
  rcases m with ⟨k, v⟩
  cases ms with
  | nil | cons => exact ⟨_, rfl⟩

theorem encode_arr (vs : List (JsonValue F)) :
    encode floats (.arr vs) = '[' :: encodeItems floats vs ++ [']'] := rfl

theorem encode_obj (ms : List (Text × JsonValue F)) :
    encode floats (.obj ms) = '{' :: encodeMembers floats ms ++ ['}'] := rfl

theorem readValue_bracket (floats : Floats F) (n : Nat) {c : Char} (hspace : isSpace c = false)
    (hc : c ≠ ']') (t : Text) : readValue floats (n + 1) ('[' :: c :: t) =
      (readItems (readValue floats n) n (c :: t)).map fun r => (.arr r.1, r.2) := by
  rw [readValue, skipSpace_cons rfl]
  simp only
  rw [skipSpace_cons hspace]
  split
  · rename_i heq
    exact absurd (cons.inj heq).1 hc
  · rfl

theorem readValue_brace (floats : Floats F) (n : Nat) {c : Char} (hspace : isSpace c = false)
    (hc : c ≠ '}') (t : Text) : readValue floats (n + 1) ('{' :: c :: t) =
      (readMembers (readValue floats n) n (c :: t)).map fun r => (.obj r.1, r.2) := by
  rw [readValue, skipSpace_cons rfl]
  simp only
  rw [skipSpace_cons hspace]
  split
  · rename_i heq
    exact absurd (cons.inj heq).1 hc
  · rfl

mutual

theorem readValue_encode (floats : Floats F) : ∀ (v : JsonValue F) (n : Nat) (rest : Text),
    (encode floats v).length < n → Ends rest →
      readValue floats n (encode floats v ++ rest) = some (v, rest)
  | _, 0, _, h, _ => absurd h (Nat.not_lt_zero _)
  | .null, n + 1, rest, _, _ => rfl
  | .bool true, n + 1, rest, _, _ => rfl
  | .bool false, n + 1, rest, _, _ => rfl
  | .int i, n + 1, rest, _, hends =>
    readValue_of_number floats n (intText_spec i).1 (intText_spec i).2
      (readNumber_intText floats i) hends
  | .float x, n + 1, rest, _, hends =>
    readValue_of_number floats n (isFloatLiteral_spec (floats.isFloatLiteral_text x)).1
      (isFloatLiteral_spec (floats.isFloatLiteral_text x)).2 (readNumber_float floats x) hends
  | .str s, n + 1, rest, _, _ => by
      unfold readValue encode escapeString
      simp only [List.cons_append, List.append_assoc, List.nil_append]
      rw [skipSpace_cons rfl]
      simp only [readString_escapeString, Option.map_some]
  | .arr [], n + 1, rest, _, _ => rfl
  | .arr (v :: vs), n + 1, rest, h, _ => by
      rcases encodeItems_head floats v vs with ⟨c, cs, htext, hspace, hc⟩
      have hlength : (encodeItems floats (v :: vs)).length < n := by
        rw [encode_arr, length_append, length_cons] at h
        omega
      have hitems := readItems_encode floats (v :: vs) n n rest (cons_ne_nil _ _) hlength hlength
      have hbracket : encode floats (.arr (v :: vs)) ++ rest =
          '[' :: (encodeItems floats (v :: vs) ++ ']' :: rest) := by
        rw [encode_arr, append_assoc]
        rfl
      rw [hbracket]
      rw [htext, cons_append] at hitems ⊢
      rw [readValue_bracket floats n hspace hc, hitems]
      rfl
  | .obj [], n + 1, rest, _, _ => rfl
  | .obj (m :: ms), n + 1, rest, h, _ => by
      rcases encodeMembers_head floats m ms with ⟨cs, htext⟩
      have hlength : (encodeMembers floats (m :: ms)).length < n := by
        rw [encode_obj, length_append, length_cons] at h
        omega
      have hmembers :=
        readMembers_encode floats (m :: ms) n n rest (cons_ne_nil _ _) hlength hlength
      have hbrace : encode floats (.obj (m :: ms)) ++ rest =
          '{' :: (encodeMembers floats (m :: ms) ++ '}' :: rest) := by
        rw [encode_obj, append_assoc]
        rfl
      rw [hbrace]
      rw [htext, cons_append] at hmembers ⊢
      rw [readValue_brace floats n rfl (by decide), hmembers]
      rfl

theorem readItems_encode (floats : Floats F) :
    ∀ (vs : List (JsonValue F)) (n k : Nat) (rest : Text),
    vs ≠ [] → (encodeItems floats vs).length < n → (encodeItems floats vs).length < k →
      readItems (readValue floats n) k (encodeItems floats vs ++ ']' :: rest) = some (vs, rest)
  | [], _, _, _, hne, _, _ => absurd rfl hne
  | _ :: _, _, 0, _, _, _, h => absurd h (Nat.not_lt_zero _)
  | [v], n, k + 1, rest, _, hn, _ => by
      have hread := readValue_encode floats v n (']' :: rest) hn (ends_cons rfl rest)
      unfold readItems encodeItems
      rw [hread, Option.bind_some, skipSpace_cons rfl]
      rfl
  | v :: w :: ws, n, k + 1, rest, _, hn, hk => by
      have hcons : encodeItems floats (v :: w :: ws) =
          encode floats v ++ ',' :: encodeItems floats (w :: ws) := rfl
      rw [hcons, List.length_append, List.length_cons] at hn hk
      have hread := readValue_encode floats v n
        (',' :: (encodeItems floats (w :: ws) ++ ']' :: rest))
        (by omega) (ends_cons rfl _)
      have hrest := readItems_encode floats (w :: ws) n k rest (List.cons_ne_nil _ _) (by omega)
        (by omega)
      rw [hcons, List.append_assoc, List.cons_append]
      unfold readItems
      rw [hread, Option.bind_some, skipSpace_cons rfl]
      simp only [hrest, Option.map_some]

theorem readMembers_encode (floats : Floats F) :
    ∀ (ms : List (Text × JsonValue F)) (n k : Nat) (rest : Text),
    ms ≠ [] → (encodeMembers floats ms).length < n → (encodeMembers floats ms).length < k →
      readMembers (readValue floats n) k (encodeMembers floats ms ++ '}' :: rest) = some (ms, rest)
  | [], _, _, _, hne, _, _ => absurd rfl hne
  | _ :: _, _, 0, _, _, _, h => absurd h (Nat.not_lt_zero _)
  | [(k, v)], n, i + 1, rest, _, hn, _ => by
      have hcons : encodeMembers floats [(k, v)] = escapeString k ++ ':' :: encode floats v := rfl
      rw [hcons, List.length_append, List.length_cons] at hn
      have hread := readValue_encode floats v n ('}' :: rest) (by omega) (ends_cons rfl rest)
      rw [hcons]
      unfold readMembers
      rw [readMember_encode floats n k hread, Option.bind_some, skipSpace_cons rfl]
      rfl
  | (k, v) :: m :: ms, n, i + 1, rest, _, hn, hi => by
      have hcons : encodeMembers floats ((k, v) :: m :: ms) =
          escapeString k ++ ':' :: encode floats v ++ ',' :: encodeMembers floats (m :: ms) := rfl
      rw [hcons, List.length_append, List.length_append, List.length_cons, List.length_cons]
        at hn hi
      have hread := readValue_encode floats v n
        (',' :: (encodeMembers floats (m :: ms) ++ '}' :: rest)) (by omega) (ends_cons rfl _)
      have hrest := readMembers_encode floats (m :: ms) n i rest (List.cons_ne_nil _ _) (by omega)
        (by omega)
      rw [hcons, List.append_assoc, List.cons_append]
      unfold readMembers
      rw [readMember_encode floats n k hread, Option.bind_some, skipSpace_cons rfl]
      simp only [hrest, Option.map_some]

end

/-- Values are decoded to what was encoded. -/
theorem decode_encode : decode floats (encode floats v) = some v := by
  have hread := readValue_encode floats v _ [] (Nat.lt_succ_self _) (fun c hc => nomatch hc)
  rw [append_nil] at hread
  rw [decode, hread]
  rfl

/-! ### Texts between quotation marks -/

/-- A character that stands for itself in a string. -/
def Plain : Prop := c ≠ '"' ∧ c ≠ '\\' ∧ 0x20 ≤ c.toNat

theorem lexString_of_plain {s : Text} (h : ∀ c ∈ s, Plain c) (t : Text) :
    lexString (s ++ '"' :: t) = some (s.map .char, t) := by
  induction s with
  | nil => rfl
  | cons c s ih =>
    have hc := h c mem_cons_self
    rw [cons_append, lexString_plain hc.1 hc.2.1 hc.2.2, ih fun d hd => h d (mem_cons_of_mem c hd)]
    rfl

theorem joinUnits_chars : joinUnits (s.map .char) = some s := by
  induction s with
  | nil => rfl
  | cons c s ih =>
    rw [map_cons, joinUnits, ih]
    rfl

theorem length_of_joinUnits (us : List StringUnit) : ∀ s, joinUnits us = some s →
    s.length ≤ us.length := by
  fun_induction joinUnits us with
  | case1 =>
    intro s h
    cases h
    exact Nat.le_refl _
  | case2 c us ih =>
    intro s h
    rcases map_eq_some_iff.mp h with ⟨rest, hrest, rfl⟩
    exact Nat.succ_le_succ (ih _ hrest)
  | case3 n m us hn hm ih =>
    intro s h
    rcases map_eq_some_iff.mp h with ⟨rest, hrest, rfl⟩
    have hle := ih _ hrest
    simp
    omega
  | case4 | case5 => exact nofun
  | case6 n m us hn hm ih =>
    intro s h
    rcases map_eq_some_iff.mp h with ⟨rest, hrest, rfl⟩
    exact Nat.succ_le_succ (ih _ hrest)
  | case7 => exact nofun
  | case8 n us hne hn ih =>
    intro s h
    rcases map_eq_some_iff.mp h with ⟨rest, hrest, rfl⟩
    exact Nat.succ_le_succ (ih _ hrest)

/-- The decoder takes a string from the text that has as many characters or more, and as many
    only if each of them stands for itself. -/
theorem lexString_cases (t : Text) : ∀ us rest, lexString t = some (us, rest) →
    ∃ used, t = used ++ '"' :: rest ∧ us.length ≤ used.length ∧
      (us.length = used.length → ∀ c ∈ used, Plain c) := by
  fun_induction lexString t with
  | case1 => exact nofun
  | case2 t =>
    intro us rest h
    cases h
    exact ⟨[], rfl, Nat.le_refl _, fun _ _ hc => nomatch hc⟩
  | case3 a b c d t ih =>
    intro us rest h
    rcases bind_eq_some_iff.mp h with ⟨n, -, h⟩
    rcases map_eq_some_iff.mp h with ⟨r, hr, heq⟩
    cases heq
    rcases ih r.1 r.2 hr with ⟨used, rfl, hle, -⟩
    refine ⟨'\\' :: 'u' :: a :: b :: c :: d :: used, rfl, ?_, ?_⟩
    · simp
      omega
    · intro hlength
      simp only [length_cons] at hlength
      omega
  | case4 e t hne ih =>
    intro us rest h
    rcases bind_eq_some_iff.mp h with ⟨n, -, h⟩
    rcases map_eq_some_iff.mp h with ⟨r, hr, heq⟩
    cases heq
    rcases ih r.1 r.2 hr with ⟨used, rfl, hle, -⟩
    refine ⟨'\\' :: e :: used, rfl, ?_, ?_⟩
    · simp
      omega
    · intro hlength
      simp only [length_cons] at hlength
      omega
  | case5 c t hquote hslash hcode hlt => exact nofun
  | case6 c t hquote hslash hcode hle ih =>
    intro us rest h
    rcases map_eq_some_iff.mp h with ⟨r, hr, heq⟩
    cases heq
    rcases ih r.1 r.2 hr with ⟨used, rfl, hlength, hplain⟩
    refine ⟨c :: used, rfl, Nat.succ_le_succ hlength, ?_⟩
    intro hsame d hd
    rcases mem_cons.mp hd with rfl | hd
    · refine ⟨hquote, ?_, by omega⟩
      -- A backslash is followed by something, if only by the quotation mark.
      intro hback
      cases used with
      | nil => exact hcode '"' r.2 hback rfl
      | cons e => exact hcode e _ hback rfl
    · exact hplain (Nat.succ.inj hsame) d hd

theorem decode_quote (floats : Floats F) (t : Text) :
    decode floats ('"' :: t) = (readString t).bind fun r =>
      if (skipSpace r.2).isEmpty then some (.str r.1) else none := by
  unfold decode readValue
  rw [skipSpace_cons rfl]
  cases hread : readString t with
  | none => simp only [hread, map_none, bind_none]
  | some => simp only [hread, map_some, bind_some]

/-- A text between quotation marks is decoded to itself exactly if all its characters stand for
    themselves. -/
theorem decode_quoted_iff :
    decode floats ('"' :: s ++ ['"']) = some (.str s) ↔ ∀ c ∈ s, Plain c := by
  rw [cons_append, decode_quote]
  constructor
  · intro h
    rcases bind_eq_some_iff.mp h with ⟨⟨value, rest⟩, hread, hrest⟩
    by_cases hempty : (skipSpace rest).isEmpty = true
    · rw [if_pos hempty, some.injEq, JsonValue.str.injEq] at hrest
      dsimp only at hrest
      rw [hrest] at hread
      rcases bind_eq_some_iff.mp hread with ⟨⟨us, end_⟩, hlex, hjoin⟩
      rcases map_eq_some_iff.mp hjoin with ⟨joined, hjoined, heq⟩
      have hend : end_ = rest := congrArg Prod.snd heq
      have hvalue : joined = s := congrArg Prod.fst heq
      rw [hend] at hlex
      rw [hvalue] at hjoined
      rcases lexString_cases _ us _ hlex with ⟨used, hused, hle, hplain⟩
      have hunits := length_of_joinUnits us s hjoined
      -- No characters are left over, neither behind the string nor for escapes.
      have hlengths := congrArg length hused
      rw [length_append, length_append, length_singleton, length_cons]
        at hlengths
      have hnil : rest = [] := eq_nil_of_length_eq_zero (by omega)
      rw [hnil] at hused
      rw [append_cancel_right hused]
      exact hplain (by omega)
    · rw [if_neg hempty] at hrest
      cases hrest
  · intro h
    rw [readString, lexString_of_plain h, bind_some, joinUnits_chars]
    rfl

end JsonText

end LocalEmu
