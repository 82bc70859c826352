import Mathlib.Data.List.Infix
import Mathlib.Data.List.Lex
import Mathlib.Data.Char
import Mathlib.Order.Lattice

/-!
# Texts

A text is a list of characters, in the order of the character codes. This is
what the listings of a key store do with texts: cut them at a separator, write
them as bytes, and quote the bytes for a URL.

Quoting and UTF-8 are both prefix codes: no code word continues another one.
So a quoted text determines the text, and starts with a quoted text exactly
where the text itself does.
-/

namespace LocalEmu

open List Option

/-- A `str`. -/
abbrev Text := List Char

instance instLawfulBEqText : LawfulBEq (List Char) := inferInstance

-- What holds of all characters of a text is checked on these, and not on all characters.
instance (priority := 2000) (p : Char → Prop) [DecidablePred p] (t : Text) :
    Decidable (∀ c ∈ t, p c) := decidableBAll p t

/-! ### Prefix codes -/

/-- A code with non-empty words that do not continue each other. -/
structure PrefixCode {α β : Type} (code : α → List β) : Prop where
  ne_nil : ∀ a, code a ≠ []
  free : ∀ a b x y, code a ++ x = code b ++ y → a = b

namespace PrefixCode

variable {α β γ : Type} {code : α → List β}

theorem isPrefix_or (h : PrefixCode code) (l l' : List α) (x y : List β)
    (heq : l.flatMap code ++ x = l'.flatMap code ++ y) : l <+: l' ∨ l' <+: l := by
  induction l generalizing l' with
  | nil => exact .inl nil_prefix
  | cons a l ih =>
    cases l' with
    | nil => exact .inr nil_prefix
    | cons b l' =>
      rw [flatMap_cons, flatMap_cons, append_assoc, append_assoc] at heq
      obtain rfl := h.free a b _ _ heq
      exact (ih l' (append_cancel_left heq)).imp
        (fun hl => (prefix_cons_inj a).mpr hl) (fun hl => (prefix_cons_inj a).mpr hl)

theorem flatMap_isPrefix_iff (h : PrefixCode code) (l l' : List α) :
    l.flatMap code <+: l'.flatMap code ↔ l <+: l' := by
  constructor
  · rintro ⟨x, hx⟩
    rcases h.isPrefix_or l l' x [] (by rw [hx, append_nil]) with hl | ⟨z, rfl⟩
    · exact hl
    · -- What `l` has on top of `l'` has no code word, so it is nothing.
      cases z with
      | nil => rw [append_nil]
      | cons a =>
        rw [flatMap_append, flatMap_cons, append_assoc] at hx
        have hnil := append_right_eq_self.mp hx
        rw [append_assoc] at hnil
        exact absurd (append_eq_nil_iff.mp hnil).1 (h.ne_nil a)
  · rintro ⟨z, rfl⟩
    rw [flatMap_append]
    exact prefix_append _ _

theorem flatMap_inj (h : PrefixCode code) (l l' : List α)
    (heq : l.flatMap code = l'.flatMap code) : l = l' := by
  have hl : l <+: l' := (h.flatMap_isPrefix_iff l l').mp (heq ▸ prefix_rfl)
  have hl' : l' <+: l := (h.flatMap_isPrefix_iff l' l).mp (heq ▸ prefix_rfl)
  exact hl.eq_of_length_le hl'.length_le

theorem comp {outer : β → List γ} (h : PrefixCode code) (h' : PrefixCode outer) :
    PrefixCode fun a => (code a).flatMap outer where
  ne_nil a hnil := by
    obtain ⟨b, hb⟩ := exists_mem_of_ne_nil _ (h.ne_nil a)
    exact h'.ne_nil b (flatMap_eq_nil_iff.mp hnil b hb)
  free a b x y heq := by
    rcases h'.isPrefix_or _ _ x y heq with ⟨z, hz⟩ | ⟨z, hz⟩
    · exact h.free a b z [] (by rw [hz, append_nil])
    · exact h.free a b [] z (by rw [hz, append_nil])

end PrefixCode

/-! ### Bytes -/

theorem utf8EncodeChar_prefixCode : PrefixCode String.utf8EncodeChar where
  ne_nil c hnil := by
    have hlength := String.length_utf8EncodeChar c
    rw [hnil] at hlength
    exact absurd hlength.symm (Nat.pos_iff_ne_zero.mp c.utf8Size_pos)
  free c d x y heq := by
    have hc := ByteArray.utf8DecodeChar?_utf8EncodeChar_append (b := x.toByteArray) (c := c)
    have hd := ByteArray.utf8DecodeChar?_utf8EncodeChar_append (b := y.toByteArray) (c := d)
    rw [← toByteArray_append] at hc hd
    rw [heq, hd] at hc
    exact (some.inj hc).symm

/-- A byte that `quote` leaves alone: `_ALWAYS_SAFE` and the slash. -/
def isSafe (b : UInt8) : Bool :=
  (65 ≤ b && b ≤ 90) || (97 ≤ b && b ≤ 122) || (48 ≤ b && b ≤ 57) ||
    b == 95 || b == 46 || b == 45 || b == 126 || b == 47

/-- `'{:X}'.format(n)`. -/
def hexDigit (n : Nat) : Char := Char.ofNat (if n < 10 then 48 + n else 55 + n)

def quoteByte (b : UInt8) : Text :=
  if isSafe b then [Char.ofNat b.toNat]
  else ['%', hexDigit (b.toNat / 16), hexDigit (b.toNat % 16)]

namespace Text

/-- `text.encode()`. -/
def utf8 (text : Text) : List UInt8 := text.flatMap String.utf8EncodeChar

/-- `urllib.parse.quote(text)`. -/
def quote (text : Text) : Text := text.utf8.flatMap quoteByte

end Text

theorem hexDigit_inj (m n : Nat) (hm : m < 16) (hn : n < 16) (h : hexDigit m = hexDigit n) :
    m = n := by
  have hall : ∀ a b : Fin 16, hexDigit a = hexDigit b → a = b := by decide
  exact Fin.mk.inj (hall ⟨m, hm⟩ ⟨n, hn⟩ h)

theorem toNat_ofNat_byte (b : UInt8) : (Char.ofNat b.toNat).toNat = b.toNat := by
  have hb := b.toNat_lt
  rw [Char.ofNat, dif_pos (.inl (by omega))]
  rfl

theorem quoteByte_prefixCode : PrefixCode quoteByte where
  ne_nil b := by
    unfold quoteByte
    split <;> simp
  free b c x y heq := by
    unfold quoteByte at heq
    -- The percent sign is not safe.
    have hpercent : ∀ d : UInt8, isSafe d = true → Char.ofNat d.toNat ≠ '%' := by
      intro d hd heq
      have hd' := toNat_ofNat_byte d
      rw [heq] at hd'
      have : d = 37 := UInt8.toNat_inj.mp hd'.symm
      rw [this] at hd
      cases hd
    split at heq <;> split at heq
    · have hchar := (cons.inj heq).1
      rw [← UInt8.toNat_inj, ← toNat_ofNat_byte b, ← toNat_ofNat_byte c, hchar]
    · rename_i hb _
      exact absurd (cons.inj heq).1 (hpercent b hb)
    · rename_i _ hc
      exact absurd (cons.inj heq).1.symm (hpercent c hc)
    · have hb := b.toNat_lt
      have hc := c.toNat_lt
      have hhigh := (cons.inj (cons.inj heq).2).1
      have hlow := (cons.inj (cons.inj (cons.inj heq).2).2).1
      have := hexDigit_inj _ _ (by omega) (by omega) hhigh
      have := hexDigit_inj _ _ (by omega) (by omega) hlow
      exact UInt8.toNat_inj.mp (by omega)

namespace Text

/-! ### Quoting -/

variable (text : Text)

theorem quote_eq :
    text.quote = text.flatMap fun c => (String.utf8EncodeChar c).flatMap quoteByte := by
  rw [quote, utf8, flatMap_assoc]

/-- Quoting keeps starts apart. -/
theorem quote_isPrefix_iff (s t : Text) : s.quote <+: t.quote ↔ s <+: t := by
  rw [quote_eq, quote_eq]
  exact (utf8EncodeChar_prefixCode.comp quoteByte_prefixCode).flatMap_isPrefix_iff s t

theorem quote_inj (s t : Text) (h : s.quote = t.quote) : s = t := by
  rw [quote_eq, quote_eq] at h
  exact (utf8EncodeChar_prefixCode.comp quoteByte_prefixCode).flatMap_inj s t h

/-! ### ASCII -/

def isAscii : Bool := text.all fun c => decide (c.toNat < 128)

/-- `bytes.decode("ascii")`, with no value where it raises. -/
def decodeAscii (bytes : List UInt8) : Option Text :=
  if bytes.all (· < 128) then some (bytes.map fun b => Char.ofNat b.toNat) else none

theorem ofNat_lt_iff (n : Nat) (hn : n < 256) : UInt8.ofNat n < 128 ↔ n < 128 := by
  rw [UInt8.lt_iff_toNat_lt, UInt8.toNat_ofNat', Nat.mod_eq_of_lt hn]
  rfl

theorem utf8EncodeChar_of_ascii (c : Char) (h : c.toNat < 128) :
    String.utf8EncodeChar c = [UInt8.ofNat c.toNat] := by
  have hv : c.val.toNat ≤ 0x7f := Nat.le_of_lt_succ h
  unfold String.utf8EncodeChar
  rw [if_pos hv]
  rfl

theorem utf8EncodeChar_of_not_ascii (c : Char) (h : ¬c.toNat < 128) :
    ∃ b l, String.utf8EncodeChar c = b :: l ∧ ¬b < 128 := by
  have hv : ¬c.val.toNat ≤ 0x7f := fun hle => h (Nat.lt_succ_of_le hle)
  unfold String.utf8EncodeChar
  rw [if_neg hv]
  split
  · refine ⟨_, _, rfl, ?_⟩
    rw [ofNat_lt_iff _ (by omega)]
    omega
  · split
    · refine ⟨_, _, rfl, ?_⟩
      rw [ofNat_lt_iff _ (by omega)]
      omega
    · refine ⟨_, _, rfl, ?_⟩
      rw [ofNat_lt_iff _ (by omega)]
      omega

theorem utf8_cons (c : Char) (text : Text) :
    utf8 (c :: text) = String.utf8EncodeChar c ++ utf8 text := rfl

theorem all_utf8 : text.utf8.all (· < 128) = text.isAscii := by
  induction text with
  | nil => rfl
  | cons c text ih =>
    have hcons : isAscii (c :: text) = (decide (c.toNat < 128) && isAscii text) := rfl
    rw [utf8_cons, all_append, ih, hcons]
    by_cases hc : c.toNat < 128
    · have hsmall := (ofNat_lt_iff _ (by omega)).mpr hc
      simp [utf8EncodeChar_of_ascii c hc, hc, hsmall]
    · obtain ⟨b, l, hbytes, hb⟩ := utf8EncodeChar_of_not_ascii c hc
      simp [hbytes, hc, hb]

/-- `bytes.decode("utf-8")`, with no value where it raises. -/
def decode (bytes : List UInt8) : Option Text :=
  bytes.toByteArray.utf8Decode?.map Array.toList

theorem decode_utf8 : decode text.utf8 = some text := by
  have h : text.utf8.toByteArray.utf8Decode? = some text.toArray := utf8Decode?_utf8Encode
  rw [decode, h, map_some]

theorem length_utf8_of_ascii (h : ∀ c ∈ text, c.toNat < 128) : text.utf8.length = text.length := by
  induction text with
  | nil => rfl
  | cons c text ih =>
    rw [utf8_cons, utf8EncodeChar_of_ascii c (h c mem_cons_self), singleton_append,
      length_cons, length_cons, ih fun c hc => h c (mem_cons_of_mem _ hc)]

theorem decodeAscii_utf8 : decodeAscii text.utf8 = if text.isAscii then some text else none := by
  rw [decodeAscii, all_utf8]
  refine if_ctx_congr Iff.rfl (fun hascii => ?_) fun _ => rfl
  congr 1
  induction text with
  | nil => rfl
  | cons c text ih =>
    rw [isAscii, all_cons, Bool.and_eq_true, decide_eq_true_iff] at hascii
    rw [utf8_cons, utf8EncodeChar_of_ascii c hascii.1, map_append, ih hascii.2]
    have hbyte : (UInt8.ofNat c.toNat).toNat = c.toNat := by
      rw [UInt8.toNat_ofNat', Nat.mod_eq_of_lt (by omega)]
    rw [map_singleton, hbyte, Char.ofNat_toNat]
    rfl

/-! ### Separators -/

section Separators

variable {α : Type} [DecidableEq α]

/-- The first part of `text.partition(separator)`, if the separator occurs. -/
def before (separator : List α) : List α → Option (List α)
  | [] => if separator = [] then some [] else none
  | c :: text =>
    if separator.isPrefixOf (c :: text) then some []
    else (before separator text).map (c :: ·)

theorem before_eq_some (separator text pre : List α) (h : before separator text = some pre) :
    pre ++ separator <+: text := by
  induction text generalizing pre with
  | nil =>
    rw [before] at h
    split at h
    · next hnil => rw [← some.inj h, hnil, append_nil]
    · cases h
  | cons c text ih =>
    rw [before] at h
    split at h
    · next hstart =>
        rw [← some.inj h]
        exact isPrefixOf_iff_prefix.mp hstart
    · obtain ⟨pre', hpre', rfl⟩ := map_eq_some_iff.mp h
      exact (prefix_cons_inj c).mpr (ih _ hpre')

/-- The part before a separator does not depend on what comes after it. -/
theorem before_of_isPrefix (separator text text' pre : List α)
    (h : before separator text = some pre) (hstart : pre ++ separator <+: text') :
    before separator text' = some pre := by
  induction text generalizing pre text' with
  | nil =>
    rw [before] at h
    split at h
    · next hnil =>
        rw [← some.inj h, hnil]
        cases text' with
        | nil | cons => rfl
    · cases h
  | cons c text ih =>
    have hpre := before_eq_some _ _ _ h
    rw [before] at h
    split at h
    · rw [← some.inj h, nil_append] at hstart
      rw [← some.inj h]
      cases text' with
      | nil => rw [before, if_pos (prefix_nil.mp hstart)]
      | cons => rw [before, if_pos <| isPrefixOf_iff_prefix.mpr hstart]
    · next hno =>
        obtain ⟨pre', hpre', rfl⟩ := map_eq_some_iff.mp h
        obtain ⟨rest, rfl⟩ := hstart
        -- A separator at the front would lie in the part that the texts share.
        have hfront : ¬separator.isPrefixOf (c :: (pre' ++ separator ++ rest)) = true := by
          intro hfront
          have hsep := isPrefixOf_iff_prefix.mp hfront
          have hpart : c :: (pre' ++ separator) <+: c :: (pre' ++ separator ++ rest) :=
            (prefix_cons_inj c).mpr (prefix_append _ _)
          have hle : separator.length ≤ (c :: (pre' ++ separator)).length := by
            simp
            omega
          have hshared := prefix_of_prefix_length_le hsep hpart hle
          exact hno <| isPrefixOf_iff_prefix.mpr (hshared.trans hpre)
        rw [cons_append, cons_append, before, if_neg hfront, ih _ _ hpre' (prefix_append _ _)]
        rfl

theorem before_eq_none_iff (separator text : List α) :
    before separator text = none ↔ ¬separator <:+: text := by
  induction text with
  | nil =>
    rw [before]
    split
    · next hnil => simp [hnil]
    · next hne => simp [hne]
  | cons c text ih =>
    rw [before, infix_cons_iff, ← isPrefixOf_iff_prefix]
    split
    · next hstart => simp [hstart]
    · next hstart => simp [hstart, ih]

end Separators

/-! ### Order -/

section Order

variable {α : Type} [LinearOrder α]

/-- The texts with a common start are together. -/
theorem isPrefix_of_between (s a b c : List α) (ha : s <+: a) (hc : s <+: c) (hab : a ≤ b)
    (hbc : b ≤ c) : s <+: b := by
  induction s generalizing a b c with
  | nil => exact nil_prefix
  | cons x s ih =>
    obtain ⟨a', rfl⟩ := ha
    obtain ⟨c', rfl⟩ := hc
    cases b with
    | nil => exact absurd (lt_of_lt_of_le (nil_lt_cons x _) hab) (lt_irrefl _)
    | cons y b =>
      have hxy : x = y := by
        rcases eq_or_lt_of_le hab with heq | hlt
        · exact (cons.inj heq).1
        · rcases eq_or_lt_of_le hbc with heq' | hlt'
          · exact (cons.inj heq').1.symm
          · exact le_antisymm (head_le_of_lt hlt) (head_le_of_lt hlt')
      subst hxy
      rw [prefix_cons_inj]
      refine ih (s ++ a') b (s ++ c') (prefix_append _ _) (prefix_append _ _) ?_ ?_
      · exact not_lt.mp fun hlt => absurd hab (not_le.mpr (List.Lex.cons hlt))
      · exact not_lt.mp fun hlt => absurd hbc (not_le.mpr (List.Lex.cons hlt))

theorem le_of_isPrefix (s t : List α) (h : s <+: t) : s ≤ t := by
  induction s generalizing t with
  | nil => exact not_lt.mp (not_lt_nil t)
  | cons x s ih =>
    obtain ⟨t', rfl⟩ := h
    exact cons_le_cons x (ih _ (prefix_append _ _))

theorem lt_of_lt_of_isPrefix (s a a' b : List α) (ha : s <+: a) (ha' : s <+: a')
    (hb : ¬s <+: b) (h : a < b) : a' < b := by
  by_contra hle
  exact hb (isPrefix_of_between s a b a' ha ha' (le_of_lt h) (not_lt.mp hle))

end Order

end Text

end LocalEmu
