import LocalEmu.Base.Text

/-!
# Base64

Base64 with the two characters `.` and `_` in the place of `+` and `/`, as
`base64.b64encode` and `base64.b64decode` compute it. The decoder is the lax
one: it skips what is not in the alphabet, and stops at the padding that ends
a group. The standard alphabet is the same up to the two characters.
-/

namespace LocalEmu.Base64

open List

/-- The exceptions of `b64decode`. -/
inductive DecodeError
  | valueError (message : String)
  | binasciiError (message : String)
  deriving DecidableEq

def digit (n : Nat) : Char :=
  if n < 26 then Char.ofNat (65 + n)
  else if n < 52 then Char.ofNat (71 + n)
  else if n < 62 then Char.ofNat (n - 4)
  else if n = 62 then '.'
  else '_'

/-- The six bits of a character. The characters that `.` and `_` stand for are read as well. -/
def value (c : Char) : Option Nat :=
  if 65 ≤ c.toNat ∧ c.toNat ≤ 90 then some (c.toNat - 65)
  else if 97 ≤ c.toNat ∧ c.toNat ≤ 122 then some (c.toNat - 71)
  else if 48 ≤ c.toNat ∧ c.toNat ≤ 57 then some (c.toNat + 4)
  else if c = '.' ∨ c = '+' then some 62
  else if c = '_' ∨ c = '/' then some 63
  else none

/-- `b64encode`. -/
def encode : List UInt8 → Text
  | [] => []
  | [a] => [digit (a.toNat / 4), digit (a.toNat % 4 * 16), '=', '=']
  | [a, b] =>
    [digit (a.toNat / 4), digit (a.toNat % 4 * 16 + b.toNat / 16), digit (b.toNat % 16 * 4),
      '=']
  | a :: b :: c :: bytes =>
    digit (a.toNat / 4) :: digit (a.toNat % 4 * 16 + b.toNat / 16) ::
      digit (b.toNat % 16 * 4 + c.toNat / 64) :: digit (c.toNat % 64) :: encode bytes

/-- The loop of `a2b_base64`: the position in a group of four, the bits left
    over, the padding seen and the number of bytes written. -/
def a2b (quadPos leftchar pads written : Nat) : Text → Except DecodeError (List UInt8)
  | [] =>
    if quadPos = 0 then .ok []
    else if quadPos = 1 then
      .error (.binasciiError ("Invalid base64-encoded string: number of data characters (" ++
        toString (written / 3 * 4 + 1) ++ ") cannot be 1 more than a multiple of 4"))
    else .error (.binasciiError "Incorrect padding")
  | c :: text =>
    if c = '=' then
      if 2 ≤ quadPos ∧ 4 ≤ quadPos + (pads + 1) then .ok []
      else a2b quadPos leftchar (if 2 ≤ quadPos then pads + 1 else pads) written text
    else
      match value c with
      | none => a2b quadPos leftchar pads written text
      | some v =>
        match quadPos with
        | 0 => a2b 1 v 0 written text
        | 1 => do
            let bytes ← a2b 2 (v % 16) 0 (written + 1) text
            return UInt8.ofNat (leftchar * 4 + v / 16) :: bytes
        | 2 => do
            let bytes ← a2b 3 (v % 4) 0 (written + 1) text
            return UInt8.ofNat (leftchar * 16 + v / 4) :: bytes
        | _ => do
            let bytes ← a2b 0 0 0 (written + 1) text
            return UInt8.ofNat (leftchar * 64 + v) :: bytes

/-- `b64decode`. -/
def decode (text : Text) : Except DecodeError (List UInt8) :=
  if text.isAscii then a2b 0 0 0 0 text
  else .error (.valueError "string argument should contain only ASCII characters")

/-! ### Digits -/

theorem digit_spec (m : Fin 64) :
    value (digit m) = some m.val ∧ digit m ≠ '=' ∧ (digit m).toNat < 128 := by
  decide +kernel +revert

theorem value_digit (n : Nat) (hn : n < 64) : value (digit n) = some n :=
  (digit_spec ⟨n, hn⟩).1

theorem digit_ne_pad (n : Nat) (hn : n < 64) : digit n ≠ '=' :=
  (digit_spec ⟨n, hn⟩).2.1

theorem digit_ascii (n : Nat) (hn : n < 64) : (digit n).toNat < 128 :=
  (digit_spec ⟨n, hn⟩).2.2

section Steps

variable (leftchar pads written n : Nat) (text : Text) (hn : n < 64)

include hn

/-- A digit adds its six bits to those left over. -/
theorem a2b_digit (quadPos : Nat) :
    a2b quadPos leftchar pads written (digit n :: text) =
      match quadPos with
      | 0 => a2b 1 n 0 written text
      | 1 => (a2b 2 (n % 16) 0 (written + 1) text).map
          (UInt8.ofNat (leftchar * 4 + n / 16) :: ·)
      | 2 => (a2b 3 (n % 4) 0 (written + 1) text).map
          (UInt8.ofNat (leftchar * 16 + n / 4) :: ·)
      | _ => (a2b 0 0 0 (written + 1) text).map (UInt8.ofNat (leftchar * 64 + n) :: ·) := by
  rw [a2b, if_neg (digit_ne_pad n hn), value_digit n hn]
  rfl

theorem a2b_zero :
    a2b 0 leftchar pads written (digit n :: text) = a2b 1 n 0 written text :=
  a2b_digit _ _ _ n text hn 0

theorem a2b_one :
    a2b 1 leftchar pads written (digit n :: text) =
      (a2b 2 (n % 16) 0 (written + 1) text).map
        (UInt8.ofNat (leftchar * 4 + n / 16) :: ·) :=
  a2b_digit _ _ _ n text hn 1

theorem a2b_two :
    a2b 2 leftchar pads written (digit n :: text) =
      (a2b 3 (n % 4) 0 (written + 1) text).map
        (UInt8.ofNat (leftchar * 16 + n / 4) :: ·) :=
  a2b_digit _ _ _ n text hn 2

theorem a2b_three :
    a2b 3 leftchar pads written (digit n :: text) =
      (a2b 0 0 0 (written + 1) text).map (UInt8.ofNat (leftchar * 64 + n) :: ·) :=
  a2b_digit _ _ _ n text hn 3

end Steps

theorem ofNat_eq (b : UInt8) (n : Nat) (h : n = b.toNat) : UInt8.ofNat n = b := by
  rw [h, UInt8.ofNat_toNat]

variable (bytes : List UInt8)

theorem a2b_encode (written : Nat) : a2b 0 0 0 written (encode bytes) = .ok bytes := by
  fun_induction encode bytes generalizing written with
  | case1 => rfl
  | case2 a =>
    have ha := a.toNat_lt
    rw [a2b_zero _ _ _ _ _ (by omega), a2b_one _ _ _ _ _ (by omega), ofNat_eq a _ (by omega)]
    rfl
  | case3 a b =>
    have ha := a.toNat_lt
    have hb := b.toNat_lt
    rw [a2b_zero _ _ _ _ _ (by omega), a2b_one _ _ _ _ _ (by omega),
      a2b_two _ _ _ _ _ (by omega), ofNat_eq a _ (by omega), ofNat_eq b _ (by omega)]
    rfl
  | case4 a b c bytes ih =>
    have ha := a.toNat_lt
    have hb := b.toNat_lt
    have hc := c.toNat_lt
    rw [a2b_zero _ _ _ _ _ (by omega), a2b_one _ _ _ _ _ (by omega),
      a2b_two _ _ _ _ _ (by omega), a2b_three _ _ _ _ _ (by omega), ih,
      ofNat_eq a _ (by omega), ofNat_eq b _ (by omega), ofNat_eq c _ (by omega)]
    rfl

theorem isAscii_encode : (encode bytes).isAscii = true := by
  have hpad : '='.toNat < 128 := by decide
  rw [Text.isAscii, all_eq_true]
  intro c hc
  rw [decide_eq_true_iff]
  fun_induction encode bytes with
  | case1 => cases hc
  | case2 a =>
    have ha := a.toNat_lt
    simp only [mem_cons, not_mem_nil, or_false] at hc
    rcases hc with rfl | rfl | rfl | rfl
    · exact digit_ascii _ (by omega)
    · exact digit_ascii _ (by omega)
    · exact hpad
    · exact hpad
  | case3 a b =>
    have ha := a.toNat_lt
    have hb := b.toNat_lt
    simp only [mem_cons, not_mem_nil, or_false] at hc
    rcases hc with rfl | rfl | rfl | rfl
    · exact digit_ascii _ (by omega)
    · exact digit_ascii _ (by omega)
    · exact digit_ascii _ (by omega)
    · exact hpad
  | case4 a b d bytes ih =>
    have ha := a.toNat_lt
    have hb := b.toNat_lt
    have hd := d.toNat_lt
    simp only [mem_cons] at hc
    rcases hc with rfl | rfl | rfl | rfl | hc
    · exact digit_ascii _ (by omega)
    · exact digit_ascii _ (by omega)
    · exact digit_ascii _ (by omega)
    · exact digit_ascii _ (by omega)
    · exact ih hc

/-- Decoding what was encoded gives the bytes back. -/
theorem decode_encode : decode (encode bytes) = .ok bytes := by
  rw [decode, if_pos (isAscii_encode _), a2b_encode]

theorem pad_not_mem_encode (h : 3 ∣ bytes.length) : '=' ∉ encode bytes := by
  fun_induction encode bytes with
  | case1 => exact not_mem_nil
  | case2 a =>
    rw [length_singleton] at h
    omega
  | case3 a b =>
    rw [length_cons, length_singleton] at h
    omega
  | case4 a b c bytes ih =>
    have ha := a.toNat_lt
    have hb := b.toNat_lt
    have hc := c.toNat_lt
    rw [length_cons, length_cons, length_cons] at h
    simp
    exact ⟨(digit_ne_pad _ (by omega)).symm, (digit_ne_pad _ (by omega)).symm,
      (digit_ne_pad _ (by omega)).symm, (digit_ne_pad _ (by omega)).symm, ih (by omega)⟩

theorem encode_ne_nil (h : bytes ≠ []) : encode bytes ≠ [] := by
  fun_cases encode bytes with
  | case1 => exact absurd rfl h
  | case2 a | case3 a b | case4 a b c bytes => exact cons_ne_nil _ _

/-! ### The standard alphabet -/

def standard (c : Char) : Char := if c = '.' then '+' else if c = '_' then '/' else c

/-- `b64encode(data)`. -/
def encodeStandard : Text := (encode bytes).map standard

/-- `b64decode(text)`, which skips `.` and `_` like all that is not in the alphabet. -/
def decodeStandard (text : Text) : Except DecodeError (List UInt8) :=
  decode (text.filter fun c => decide (c ≠ '.' ∧ c ≠ '_'))

theorem value_standard (c : Char) : value (standard c) = value c := by
  unfold standard
  by_cases hdot : c = '.'
  · rw [hdot]
    rfl
  · rw [if_neg hdot]
    by_cases hline : c = '_'
    · rw [hline]
      rfl
    · rw [if_neg hline]

theorem standard_eq_pad_iff (c : Char) : standard c = '=' ↔ c = '=' := by
  unfold standard
  by_cases hdot : c = '.'
  · rw [hdot]
    decide
  · rw [if_neg hdot]
    by_cases hline : c = '_'
    · rw [hline]
      decide
    · rw [if_neg hline]

theorem a2b_standard (quadPos leftchar pads written : Nat) (text : Text) :
    a2b quadPos leftchar pads written (text.map standard) =
      a2b quadPos leftchar pads written text := by
  induction text generalizing quadPos leftchar pads written with
  | nil => rfl
  | cons c text ih =>
    rw [map_cons, a2b, a2b]
    simp only [standard_eq_pad_iff, value_standard, ih]

theorem isAscii_standard (text : Text) (h : text.isAscii = true) :
    Text.isAscii (text.map standard) = true := by
  rw [Text.isAscii, all_eq_true] at h ⊢
  intro c hc
  rcases mem_map.mp hc with ⟨d, hd, rfl⟩
  unfold standard
  split
  · rfl
  · split
    · rfl
    · exact h d hd

theorem decodeStandard_encodeStandard : decodeStandard (encodeStandard bytes) = .ok bytes := by
  have hfilter : (encodeStandard bytes).filter (fun c => decide (c ≠ '.' ∧ c ≠ '_')) =
      encodeStandard bytes := by
    refine filter_eq_self.mpr fun c hc => decide_eq_true ?_
    rcases mem_map.mp hc with ⟨d, _, rfl⟩
    unfold standard
    by_cases hdot : d = '.'
    · rw [if_pos hdot]
      decide
    · rw [if_neg hdot]
      by_cases hline : d = '_'
      · rw [if_pos hline]
        decide
      · rw [if_neg hline]
        exact ⟨hdot, hline⟩
  rw [decodeStandard, hfilter, decode, encodeStandard,
    if_pos (isAscii_standard _ (isAscii_encode bytes)), a2b_standard, a2b_encode]

end LocalEmu.Base64
