import LocalEmu.Base.Text

/-!
# Lines Of A File

From the bytes of a file to its lines: `decode("utf-8", errors="replace")` and
`splitlines`. What is not UTF-8 is replaced, one replacement character for the
longest start of a character there is, and a line ends at any of the characters
that end one, a carriage return and a newline being one end.

Both work from left to right with little memory, and after a newline they have
none. So the lines of a file that is read in pieces are the lines of the pieces,
if every piece ends with a newline.
-/

namespace LocalEmu.Text

open List

/-! ### From bytes to characters -/

/-- The start of a character: the number of bytes that are missing, the code so
    far, and the bounds for the next byte. -/
structure Started where
  missing : Nat
  code : Nat
  lower : Nat
  upper : Nat
  continues : 128 ≤ lower

def replacement : Char := Char.ofNat 0xFFFD

/-- The first byte of a character: what it stands for, or what it starts. -/
def decodeFirst (b : Nat) : List Char × Option Started :=
  if b < 0x80 then ([Char.ofNat b], none)
  else if 0xC2 ≤ b ∧ b ≤ 0xDF then ([], some ⟨1, b - 0xC0, 0x80, 0xBF, by decide⟩)
  else if b = 0xE0 then ([], some ⟨2, b - 0xE0, 0xA0, 0xBF, by decide⟩)
  else if b = 0xED then ([], some ⟨2, b - 0xE0, 0x80, 0x9F, by decide⟩)
  else if 0xE1 ≤ b ∧ b ≤ 0xEF then ([], some ⟨2, b - 0xE0, 0x80, 0xBF, by decide⟩)
  else if b = 0xF0 then ([], some ⟨3, b - 0xF0, 0x90, 0xBF, by decide⟩)
  else if b = 0xF4 then ([], some ⟨3, b - 0xF0, 0x80, 0x8F, by decide⟩)
  else if 0xF1 ≤ b ∧ b ≤ 0xF3 then ([], some ⟨3, b - 0xF0, 0x80, 0xBF, by decide⟩)
  else ([replacement], none)

/-- A byte after the start of a character. -/
def decodeNext (started : Started) (b : Nat) : List Char × Option Started :=
  if started.lower ≤ b ∧ b ≤ started.upper then
    let code := started.code * 64 + (b - 0x80)
    if started.missing ≤ 1 then ([Char.ofNat code], none)
    else ([], some ⟨started.missing - 1, code, 0x80, 0xBF, by decide⟩)
  else (replacement :: (decodeFirst b).1, (decodeFirst b).2)

/-- Decoding after the start of a character. -/
def decodeFrom : Option Started → List UInt8 → Text
  | none, [] => []
  | some _, [] => [replacement]
  | none, b :: bytes => (decodeFirst b.toNat).1 ++ decodeFrom (decodeFirst b.toNat).2 bytes
  | some started, b :: bytes =>
    (decodeNext started b.toNat).1 ++ decodeFrom (decodeNext started b.toNat).2 bytes

variable (bytes : List UInt8)

/-- `decode("utf-8", errors="replace")`. -/
def decodeUtf8 : Text := decodeFrom none bytes

theorem decodeFrom_newline (a b : List UInt8) (started : Option Started) :
    decodeFrom started (a ++ 10 :: b) = decodeFrom started a ++ '\n' :: decodeFrom none b := by
  induction a generalizing started with
  | nil =>
    cases started with
    | none => rfl
    | some started =>
      have hout :
          ¬(started.lower ≤ (10 : UInt8).toNat ∧ (10 : UInt8).toNat ≤ started.upper) := by
        rintro ⟨hle, -⟩
        exact absurd (started.continues.trans hle) (by decide)
      have hnext : decodeNext started (10 : UInt8).toNat = ([replacement, '\n'], none) := by
        unfold decodeNext
        rw [if_neg hout]
        rfl
      show (decodeNext started (10 : UInt8).toNat).1 ++
        decodeFrom (decodeNext started (10 : UInt8).toNat).2 b = _
      rw [hnext]
      rfl
  | cons byte a ih =>
    cases started with
    | none | some => rw [cons_append, decodeFrom, decodeFrom, ih, append_assoc]

/-- What comes before a newline and what comes after it. -/
theorem decodeUtf8_newline (a b : List UInt8) :
    decodeUtf8 (a ++ 10 :: b) = decodeUtf8 a ++ '\n' :: decodeUtf8 b :=
  decodeFrom_newline a b _

variable (text : Text)

def asciiBytes : List UInt8 := text.map fun c => UInt8.ofNat c.toNat

theorem decodeUtf8_asciiBytes (h : ∀ c ∈ text, c.toNat < 128) :
    decodeUtf8 (asciiBytes text) = text := by
  induction text with
  | nil => rfl
  | cons c text ih =>
    have hc : c.toNat < 128 := h c mem_cons_self
    have hbyte : (UInt8.ofNat c.toNat).toNat = c.toNat :=
      UInt8.toNat_ofNat_of_lt' (hc.trans (by decide))
    have hrest : decodeFrom none (asciiBytes text) = text :=
      ih fun d hd => h d (mem_cons_of_mem c hd)
    rw [asciiBytes, map_cons, decodeUtf8, decodeFrom, hbyte, decodeFirst, if_pos hc]
    show Char.ofNat c.toNat :: decodeFrom none (asciiBytes text) = c :: text
    rw [hrest, Char.ofNat_toNat]

/-! ### Lines -/

def endsLine (c : Char) : Bool :=
  decide (c.toNat ∈ [0x0A, 0x0B, 0x0C, 0x0D, 0x1C, 0x1D, 0x1E, 0x85, 0x2028, 0x2029])

/-- The lines of a text, after the start of a line or right after a carriage return. -/
def splitlinesFrom : Bool → Text → Text → List Text
  | _, start, [] => if start = [] then [] else [start.reverse]
  | afterReturn, start, c :: text =>
    if afterReturn = true ∧ c = '\n' then splitlinesFrom false start text
    else if endsLine c then start.reverse :: splitlinesFrom (decide (c = '\r')) [] text
    else splitlinesFrom false (c :: start) text

/-- The lines of a text. -/
def splitlines : List Text := splitlinesFrom false [] text

theorem splitlinesFrom_newline (a b : Text) (afterReturn : Bool) (start : Text)
    (h : afterReturn = true → start = []) :
    splitlinesFrom afterReturn start (a ++ '\n' :: b) =
      splitlinesFrom afterReturn start (a ++ ['\n']) ++ splitlines b := by
  induction a generalizing afterReturn start with
  | nil =>
    cases afterReturn with
    | true =>
      rw [h rfl]
      rfl
    | false => rfl
  | cons c a ih =>
    rw [cons_append, cons_append, splitlinesFrom, splitlinesFrom]
    split
    · exact ih _ _ (by simp)
    · split
      · rw [ih _ [] (fun _ => rfl), cons_append]
      · exact ih _ _ (by simp)

theorem splitlines_newline (a b : Text) :
    splitlines (a ++ '\n' :: b) = splitlines (a ++ ['\n']) ++ splitlines b :=
  splitlinesFrom_newline a b _ [] (by simp)

theorem splitlines_line (line b : Text) (h : ∀ c ∈ line, endsLine c = false) :
    splitlines (line ++ '\n' :: b) = line :: splitlines b := by
  have hgen : ∀ start : Text, splitlinesFrom false start (line ++ '\n' :: b) =
      (start.reverse ++ line) :: splitlines b := by
    induction line with
    | nil =>
      intro start
      rw [append_nil]
      rfl
    | cons c line ih =>
      intro start
      have hc : endsLine c = false := h c mem_cons_self
      rw [cons_append, splitlinesFrom, if_neg (by simp), hc, if_neg (by simp),
        ih (fun d hd => h d (mem_cons_of_mem c hd)), reverse_cons,
        append_assoc, singleton_append]
  exact hgen []

/-! ### Lines of bytes -/

/-- The lines of some bytes. -/
def linesOf : List Text := splitlines (decodeUtf8 bytes)

/-- The file is empty or ends with a newline. -/
def Complete : Prop := bytes = [] ∨ ∃ start, bytes = start ++ [10]

instance (bytes : List UInt8) : Decidable (Complete bytes) :=
  decidable_of_iff (bytes = [] ∨ bytes.getLast? = some 10) (by
    rw [Complete, List.getLast?_eq_some_iff])

/-- The lines of a file in two pieces. -/
theorem linesOf_append (a b : List UInt8) (h : Complete a) :
    linesOf (a ++ b) = linesOf a ++ linesOf b := by
  rcases h with rfl | ⟨start, rfl⟩
  · rfl
  · have hstart : decodeUtf8 (start ++ [10]) = decodeUtf8 start ++ ['\n'] :=
      decodeUtf8_newline _ []
    rw [linesOf, append_assoc, singleton_append, decodeUtf8_newline, splitlines_newline,
      linesOf, hstart, linesOf]

end LocalEmu.Text
