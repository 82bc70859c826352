import LocalEmu.Base.Dict
import LocalEmu.Base.Text

/-!
# Query Strings

The part of `urllib.parse` that reads and writes query strings. A quoted text is unquoted
to bytes, and these are decoded; what is no UTF-8 becomes a replacement character for each
sequence that can not go on. Characters that are not ASCII are left as they are.
-/

namespace LocalEmu.Query

/-! ### Decoding -/

/-- A character that is not complete: the bits so far, how many bytes are missing, and between
    what the next one must be. -/
structure Pending where
  bits : Nat
  missing : Nat
  lo : Nat
  hi : Nat

def replacement : Char := Char.ofNat 0xFFFD

/-- The first byte of a character. -/
def decodeStart (b : Nat) : Text × Option Pending :=
  if b < 0x80 then ([Char.ofNat b], none)
  else if 0xC2 ≤ b ∧ b ≤ 0xDF then ([], some ⟨b - 0xC0, 1, 0x80, 0xBF⟩)
  else if b = 0xE0 then ([], some ⟨0, 2, 0xA0, 0xBF⟩)
  else if b = 0xED then ([], some ⟨0xD, 2, 0x80, 0x9F⟩)
  else if 0xE1 ≤ b ∧ b ≤ 0xEF then ([], some ⟨b - 0xE0, 2, 0x80, 0xBF⟩)
  else if b = 0xF0 then ([], some ⟨0, 3, 0x90, 0xBF⟩)
  else if 0xF1 ≤ b ∧ b ≤ 0xF3 then ([], some ⟨b - 0xF0, 3, 0x80, 0xBF⟩)
  else if b = 0xF4 then ([], some ⟨4, 3, 0x80, 0x8F⟩)
  else ([replacement], none)

def decodeByte (pending : Option Pending) (b : Nat) : Text × Option Pending :=
  match pending with
  | none => decodeStart b
  | some p =>
    if p.lo ≤ b ∧ b ≤ p.hi then
      let bits := p.bits * 64 + (b - 0x80)
      if p.missing = 1 then ([Char.ofNat bits], none)
      else ([], some ⟨bits, p.missing - 1, 0x80, 0xBF⟩)
    else
      let next := decodeStart b
      (replacement :: next.1, next.2)

/-- What an incomplete character is at the end. -/
def decodeEnd : Option Pending → Text
  | none => []
  | some _ => [replacement]

/-! ### Quoting -/

def hexValue (c : Char) : Option Nat :=
  if '0' ≤ c ∧ c ≤ '9' then some (c.toNat - 48)
  else if 'a' ≤ c ∧ c ≤ 'f' then some (c.toNat - 87)
  else if 'A' ≤ c ∧ c ≤ 'F' then some (c.toNat - 55)
  else none

/-- Unquoting, within a run of ASCII characters or between two of them. -/
def unquoteFrom (pending : Option Pending) : Text → Text
  | [] => decodeEnd pending
  | c :: rest =>
    if 128 ≤ c.toNat then decodeEnd pending ++ c :: unquoteFrom none rest
    else
      match c, rest with
      | '%', a :: b :: rest' =>
        match hexValue a, hexValue b with
        | some hi, some lo =>
          let next := decodeByte pending (hi * 16 + lo)
          next.1 ++ unquoteFrom next.2 rest'
        | _, _ =>
          let next := decodeByte pending c.toNat
          next.1 ++ unquoteFrom next.2 (a :: b :: rest')
      | c, rest =>
        let next := decodeByte pending c.toNat
        next.1 ++ unquoteFrom next.2 rest

variable (text : Text)

/-- `unquote(text)`. -/
def unquote : Text := unquoteFrom none text

/-- `unquote(text.replace("+", " "))`. -/
def unquotePlus : Text := unquote (text.map fun c => if c = '+' then ' ' else c)

/-- `quote_plus(text)`. -/
def quotePlus : Text :=
  text.utf8.flatMap fun b =>
    if b = 32 then ['+']
    else if b = 47 then ['%', '2', 'F']
    else quoteByte b

/-! ### Query strings -/

/-- `text.partition(separator)`, without the separator. -/
def partition (separator : Char) (text : Text) : Text × Text :=
  (text.takeWhile fun c => c != separator, (text.dropWhile fun c => c != separator).tail)

/-- `parse_qsl(text, keep_blank_values=True)`. -/
def parseQsl : List (Text × Text) :=
  ((text.splitOn '&').filter fun piece => decide (piece ≠ [])).map fun piece =>
    let pair := partition '=' piece
    (unquotePlus pair.1, unquotePlus pair.2)

/-- `parse_qs(text, keep_blank_values=True)`. -/
def parseQs : Dict Text (List Text) :=
  (parseQsl text).foldl (fun d pair => d.set pair.1 (d.getD pair.1 [] ++ [pair.2])) .empty

/-- `urlencode(pairs)`. -/
def urlencode (pairs : List (Text × Text)) : Text :=
  ['&'].intercalate (pairs.map fun pair => quotePlus pair.1 ++ '=' :: quotePlus pair.2)

example : parseQsl "a=1&b+c=%E2%82%AC%80&&d".toList =
    [("a".toList, "1".toList), ("b c".toList, ['€', replacement]), ("d".toList, [])] := by
  decide +kernel

end LocalEmu.Query
