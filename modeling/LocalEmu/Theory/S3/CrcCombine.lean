import Mathlib.Tactic.Ring
import LocalEmu.Base.Gf2
import LocalEmu.Base.Crc
import LocalEmu.Core.S3.Checksums

/-!
# The Checksum of a Concatenation

The combination of the checksums of two byte strings is the checksum of their
concatenation, for the three algorithms the service combines.

The matrices of the loop are those of the shift operator: `operator poly k`
shifts a register by `k` bits, and squaring its matrix gives the matrix for
`2 * k`. So the loop applies the operator for `2 * k * len2` bits when it
starts from the matrix for `k`, and it starts from the one for four bits.
-/

namespace LocalEmu.S3

open List

/-! ### The reference -/

/-- The algorithms that can be combined. -/
inductive CrcAlgorithm
  | crc32
  | crc32c
  | crc64nvme

namespace CrcAlgorithm

def width : CrcAlgorithm → Nat
  | crc32 => 32
  | crc32c => 32
  | crc64nvme => 64

/-- The polynomial of the module, highest bit first. -/
def polynomial : CrcAlgorithm → Nat
  | crc32 => crc32Polynomial
  | crc32c => crc32cPolynomial
  | crc64nvme => crc64NvmePolynomial

/-- The name the service knows the algorithm by. -/
def checksumType : CrcAlgorithm → ChecksumAlgorithm
  | crc32 => .crc32
  | crc32c => .crc32c
  | crc64nvme => .crc64nvme

def combineFunction : CrcAlgorithm → CrcValue → CrcValue → Nat → Except CombineError Bytes
  | crc32 => combineCrc32
  | crc32c => combineCrc32c
  | crc64nvme => combineCrc64Nvme

variable (algorithm : CrcAlgorithm)

def crc (data : Bytes) : BitVec algorithm.width :=
  Crc.crc (BitVec.ofNat algorithm.width algorithm.polynomial).reverse data

def digest (data : Bytes) : Bytes :=
  bigEndian (algorithm.crc data).toNat (algorithm.width / 8)

/-- The checksum as an argument of the combination, in one of its two spellings. -/
def value (asBytes : Bool) (data : Bytes) : CrcValue :=
  if asBytes then .bytes (algorithm.digest data) else .int (algorithm.crc data).toNat

end CrcAlgorithm

/-! ### Matrix operations -/

theorem gf2MatrixTimesLoop_eq (mat : List Nat) (vec summary : Nat)
    (hvec : vec < 2 ^ mat.length) :
    gf2MatrixTimesLoop mat vec summary = .ok (summary ^^^ Gf2.combination mat vec) := by
  induction mat generalizing vec summary with
  | nil =>
    have hzero : vec = 0 := by simpa using hvec
    simp [gf2MatrixTimesLoop, Gf2.combination, hzero]
  | cons column mat ih =>
    rw [gf2MatrixTimesLoop]
    by_cases hzero : vec = 0
    · -- The loop ends early; the columns that are left contribute nothing.
      have hrest : Gf2.combination mat (0 / 2) = 0 := by
        have h := ih 0 0 (Nat.two_pow_pos _)
        cases mat with
        | nil => rfl
        | cons =>
          rw [gf2MatrixTimesLoop, if_pos rfl, Except.ok.injEq, Nat.zero_xor] at h
          exact h.symm
      rw [hzero, Gf2.combination, hrest]
      simp
    · have hhalf : vec / 2 < 2 ^ mat.length := by
        rw [length_cons] at hvec
        omega
      rw [if_neg hzero, Nat.shiftRight_one, ih _ _ hhalf, Gf2.combination, Nat.and_one_is_mod]
      by_cases hbit : vec % 2 = 1
      · rw [if_pos hbit, if_pos hbit, Nat.xor_assoc]
      · rw [if_neg hbit, if_neg hbit, Nat.zero_xor]

/-- The matrix operations. -/
theorem gf2MatrixTimes_columns (w : Nat) (f : Nat → Nat) (hf : Gf2.Linear f) (vec : Nat)
    (hvec : vec < 2 ^ w) : gf2MatrixTimes (Gf2.columns w f) vec = .ok (f vec) := by
  rw [gf2MatrixTimes, gf2MatrixTimesLoop_eq _ _ _ (by rw [Gf2.length_columns]; exact hvec),
    Gf2.combination_columns w f hf _ hvec, Nat.zero_xor]

theorem mapM_ok {α β ε : Type} (f : α → Except ε β) (g : α → β) (l : List α)
    (h : ∀ a ∈ l, f a = .ok (g a)) : l.mapM f = .ok (l.map g) := by
  induction l with
  | nil => rfl
  | cons a l ih =>
    rw [mapM_cons, h a (by simp), ih fun b hb => h b (by simp [hb])]
    rfl

theorem gf2MatrixSquare_columns (w : Nat) (f : Nat → Nat) (hf : Gf2.Linear f)
    (hkeeps : Gf2.Keeps w f) :
    gf2MatrixSquare (Gf2.columns w f) = .ok (Gf2.columns w fun a => f (f a)) := by
  rw [Gf2.columns_comp w f f]
  refine mapM_ok _ _ _ fun column hcolumn => ?_
  -- Every column is a value of the map, so the matrix can be applied to it.
  rw [Gf2.columns, mem_map] at hcolumn
  rcases hcolumn with ⟨i, hi, rfl⟩
  refine gf2MatrixTimes_columns w f hf _ (hkeeps _ ?_)
  exact Nat.pow_lt_pow_right (by omega) (mem_range.mp hi)

/-! ### The shift operator -/

variable {w : Nat}

variable (poly : BitVec w)

/-- Shifting a register by a number of bits. -/
def operator (k a : Nat) : Nat :=
  ((Crc.shift poly)^[k] (BitVec.ofNat w a)).toNat

theorem operator_linear (k : Nat) : Gf2.Linear (operator poly k) := by
  intro a b
  simp only [operator, BitVec.ofNat_xor, Crc.shift_iterate_xor, BitVec.toNat_xor]

theorem operator_keeps (k : Nat) : Gf2.Keeps w (operator poly k) :=
  fun _ _ => BitVec.isLt _

theorem operator_operator (k l a : Nat) :
    operator poly k (operator poly l a) = operator poly (k + l) a := by
  rw [operator, operator, operator, BitVec.ofNat_toNat, BitVec.setWidth_eq,
    Function.iterate_add_apply]

theorem operator_zero (a : Nat) (ha : a < 2 ^ w) : operator poly 0 a = a := by
  rw [operator, Function.iterate_zero, id_eq, BitVec.toNat_ofNat, Nat.mod_eq_of_lt ha]

theorem gf2MatrixSquare_operator (k : Nat) : gf2MatrixSquare (Gf2.columns w (operator poly k)) =
      .ok (Gf2.columns w (operator poly (2 * k))) := by
  rw [gf2MatrixSquare_columns w _ (operator_linear _ k) (operator_keeps _ k)]
  simp only [operator_operator, Nat.two_mul]

theorem bitOperator_eq (hw : 0 < w) :
    bitOperator poly.toNat w true = Gf2.columns w (operator poly 1) := by
  obtain ⟨n, rfl⟩ : ∃ n, w = n + 1 := ⟨w - 1, by omega⟩
  rw [Gf2.columns_succ]
  refine congrArg₂ cons ?_ ?_
  · -- The lowest bit leaves the register, and only the polynomial remains.
    have hlow : (BitVec.ofNat (n + 1) 1).getLsbD 0 = true := by simp
    have hshift : BitVec.ofNat (n + 1) 1 >>> 1 = 0#(n + 1) := by
      apply BitVec.eq_of_toNat_eq
      rw [BitVec.toNat_ushiftRight, BitVec.toNat_ofNat]
      have h : 1 < 2 ^ (n + 1) := Nat.one_lt_two_pow (by omega)
      rw [Nat.mod_eq_of_lt h]
      rfl
    rw [operator, Function.iterate_one, Crc.shift, if_pos hlow, hshift, BitVec.zero_xor]
  · rw [Gf2.columns]
    refine map_congr_left fun i hi => ?_
    have hi' : i < n := mem_range.mp hi
    have hlt : 2 * 2 ^ i < 2 ^ (n + 1) := by
      rw [← pow_succ']
      exact Nat.pow_lt_pow_right (by omega) (by omega)
    have hlow : ¬ (BitVec.ofNat (n + 1) (2 * 2 ^ i)).getLsbD 0 = true := by
      rw [BitVec.getLsbD_ofNat]
      simp
    rw [operator, Function.iterate_one, Crc.shift, if_neg hlow, BitVec.toNat_ushiftRight,
      BitVec.toNat_ofNat, Nat.mod_eq_of_lt hlt, Nat.shiftRight_one]
    omega

/-! ### The loop -/

theorem timesIfOdd_operator (k crc1 len2 : Nat) (hcrc : crc1 < 2 ^ w) :
    timesIfOdd (Gf2.columns w (operator poly k)) crc1 len2 =
      .ok (operator poly (k * (len2 % 2)) crc1) := by
  rw [timesIfOdd, Nat.and_one_is_mod]
  rcases Nat.mod_two_eq_zero_or_one _ with h | h
  · rw [h, if_neg (by omega), Nat.mul_zero, operator_zero _ _ hcrc]
  · rw [h, if_pos rfl, Nat.mul_one,
      gf2MatrixTimes_columns w _ (operator_linear _ k) _ hcrc]

/-- Started from the matrix for `k` bits, the loop shifts by `2 * k` bits for
    each unit of the length. -/
theorem combineLoop_operator (k crc1 len2 : Nat) (hcrc : crc1 < 2 ^ w) :
    combineLoop (Gf2.columns w (operator poly k)) crc1 len2 =
      .ok (operator poly (2 * k * len2) crc1) := by
  -- A round consumes two bits of the length, so the induction is a strong one.
  induction len2 using Nat.strong_induction_on generalizing k crc1 with
  | _ len2 ih =>
    have hfirst := operator_keeps poly (2 * k * (len2 % 2)) _ hcrc
    rw [combineLoop, gf2MatrixSquare_operator]
    simp only [bind, Except.bind, timesIfOdd_operator _ _ _ _ hcrc, Nat.shiftRight_one]
    by_cases hhalf : len2 / 2 = 0
    · have hmod : len2 % 2 = len2 := by omega
      rw [dif_pos hhalf, hmod]
      rfl
    · have hsecond := operator_keeps poly (2 * (2 * k) * (len2 / 2 % 2)) _ hfirst
      rw [dif_neg hhalf, gf2MatrixSquare_operator]
      simp only [timesIfOdd_operator _ _ _ _ hfirst]
      by_cases hquarter : len2 / 2 / 2 = 0
      · have hlen : len2 = len2 % 2 + 2 * (len2 / 2 % 2) := by omega
        rw [if_pos hquarter, operator_operator]
        refine congrArg (fun n => Except.ok (operator poly n crc1)) ?_
        conv_rhs => rw [hlen]
        ring
      · have hlen : len2 = len2 % 2 + 2 * (len2 / 2 % 2) + 4 * (len2 / 2 / 2) := by omega
        rw [if_neg hquarter, ih _ (by omega) _ _ hsecond, operator_operator, operator_operator]
        refine congrArg (fun n => Except.ok (operator poly n crc1)) ?_
        conv_rhs => rw [hlen]
        ring

/-! ### Bytes and bit reversal -/

theorem foldl_bigEndian (value length acc : Nat) :
    (bigEndian value length).foldl (fun v byte => v * 256 + byte.toNat) acc =
      acc * 256 ^ length + value % 256 ^ length := by
  induction length generalizing acc with
  | zero => simp [bigEndian, Nat.mod_one]
  | succ n ih =>
    have hstep : bigEndian value (n + 1) = UInt8.ofNat (value / 256 ^ n) :: bigEndian value n := by
      simp only [bigEndian, range_succ, reverse_append, reverse_singleton,
        singleton_append, map_cons]
    have hdigit : value % 256 ^ (n + 1) =
        value % 256 ^ n + 256 ^ n * (value / 256 ^ n % 256) := by
      rw [pow_succ, Nat.mod_mul]
    rw [hstep, foldl_cons, ih, UInt8.toNat_ofNat', hdigit]
    ring

theorem fromBytes_bigEndian (value length : Nat) (h : value < 256 ^ length) :
    fromBytes (bigEndian value length) = value := by
  rw [fromBytes, foldl_bigEndian, Nat.zero_mul, Nat.zero_add, Nat.mod_eq_of_lt h]

theorem testBit_bitrevLoop (n x y i : Nat) :
    (bitrevLoop n x y).testBit i =
      if i < n then x.testBit (n - 1 - i) else y.testBit (i - n) := by
  induction n generalizing x y with
  | zero => simp [bitrevLoop]
  | succ n ih =>
    rw [bitrevLoop, ih]
    by_cases hlt : i < n
    · rw [if_pos hlt, if_pos (by omega), Nat.testBit_shiftRight]
      congr 1
      omega
    · rw [if_neg hlt, Nat.testBit_or, Nat.testBit_shiftLeft, Nat.testBit_and]
      by_cases heq : i = n
      · rw [heq]
        simp [Nat.testBit_zero]
      · have hone : Nat.testBit 1 (i - n) = false := by
          rw [Nat.testBit_eq_false_of_lt]
          exact Nat.one_lt_two_pow (by omega)
        rw [if_neg (by omega), hone, Bool.and_false, Bool.or_false, Nat.sub_sub]
        simp only [ge_iff_le, show 1 ≤ i - n by omega, decide_true, Bool.true_and]

/-- `_bitrev` reverses the bits. -/
theorem bitrev_eq_reverse (x : BitVec w) : bitrev x.toNat w = x.reverse.toNat := by
  apply Nat.eq_of_testBit_eq
  intro i
  rw [bitrev, testBit_bitrevLoop, BitVec.testBit_toNat, BitVec.testBit_toNat,
    BitVec.getLsbD_reverse, BitVec.getMsbD]
  by_cases hlt : i < w
  · rw [if_pos hlt, decide_eq_true hlt, Bool.true_and]
  · rw [if_neg hlt, decide_eq_false hlt, Bool.false_and, Nat.zero_testBit]

/-! ### Combination -/

/-- The parameters of the three algorithms: a whole number of bytes that
    `_encode_to_bytes` knows. -/
def Supported (w : Nat) : Prop := w = 32 ∨ w = 64

theorem encodeToBytes_crc (hw : Supported w) (crc : BitVec w) :
    encodeToBytes crc.toNat w = .ok (bigEndian crc.toNat (w / 8)) := by
  rcases hw with rfl | rfl
  · have hlt : crc.toNat < 256 ^ 4 := crc.isLt
    rw [encodeToBytes, if_neg (by omega), if_pos rfl, toBytes, if_pos hlt]
  · have hlt : crc.toNat < 256 ^ 8 := crc.isLt
    rw [encodeToBytes, if_pos rfl, toBytes, if_pos hlt]

/-- Combination for any polynomial: what comes out are the bytes of the
    checksum of the concatenation. -/
theorem createCombineFunction_crc (hw : Supported w) (poly : Nat) (a b : Bytes)
    (crc1 crc2 : CrcValue)
    (h1 : crc1.toInt = (Crc.crc (BitVec.ofNat w poly).reverse a).toNat)
    (h2 : crc2.toInt = (Crc.crc (BitVec.ofNat w poly).reverse b).toNat) :
    createCombineFunction poly w 0 true ((2 ^ w - 1 : Nat) : Int) crc1 crc2 b.length =
      .ok (bigEndian (Crc.crc (BitVec.ofNat w poly).reverse (a ++ b)).toNat (w / 8)) := by
  have hpoly : mask poly w = (BitVec.ofNat w poly).toNat := by exact_mod_cast Int.toNat_natCast _
  have hzero : mask 0 w = 0 := by simp [mask]
  rw [createCombineFunction, if_pos rfl, hpoly, bitrev_eq_reverse, hzero, Nat.zero_xor, h1, h2,
    combine]
  by_cases hb : b.length = 0
  · -- A second part without bytes leaves the first checksum as it is.
    rw [if_pos hb, encodeToBytes_crc hw, length_eq_zero_iff.mp hb, append_nil]
  · have hpos : 0 < w := by rcases hw with rfl | rfl <;> omega
    rw [if_neg hb, bitOperator_eq _ hpos, Nat.xor_self, Nat.xor_zero]
    simp only [bind, Except.bind, gf2MatrixSquare_operator]
    rw [combineLoop_operator _ _ _ _ (BitVec.isLt _)]
    simp only [operator, BitVec.ofNat_toNat, BitVec.setWidth_eq]
    rw [← BitVec.toNat_xor, encodeToBytes_crc hw, Crc.crc_append]

namespace CrcAlgorithm

variable (algorithm : CrcAlgorithm)

theorem supported : Supported algorithm.width := by
  cases algorithm
  · exact .inl rfl
  · exact .inl rfl
  · exact .inr rfl

theorem combineFunction_eq :
    algorithm.combineFunction = createCombineFunction algorithm.polynomial algorithm.width 0 true
      ((2 ^ algorithm.width - 1 : Nat) : Int) := by
  cases algorithm <;> rfl

theorem value_toInt (asBytes : Bool) (data : Bytes) :
    (algorithm.value asBytes data).toInt = (algorithm.crc data).toNat := by
  have hlt : (algorithm.crc data).toNat < 256 ^ (algorithm.width / 8) := by
    have h := (algorithm.crc data).isLt
    cases algorithm <;> exact h
  cases asBytes
  · rfl
  · exact fromBytes_bigEndian _ _ hlt

theorem digest_ne_nil (data : Bytes) : algorithm.digest data ≠ [] := by
  cases algorithm <;> simp [digest, bigEndian, width, range_succ]

theorem combineFunction_value (x y : Bool) (a b : Bytes) :
    algorithm.combineFunction (algorithm.value x a) (algorithm.value y b) b.length =
      .ok (algorithm.digest (a ++ b)) := by
  rw [combineFunction_eq]
  exact createCombineFunction_crc (supported _) _ a b _ _ (value_toInt _ x a) (value_toInt _ y b)

def combinePart (hash : CombinedCrcHash) (part : Bytes) : Except CombineError CombinedCrcHash :=
  hash.combine (algorithm.digest part) part.length

theorem combineParts_digest (parts : List Bytes) (seen : Bytes) :
    parts.foldlM (combinePart algorithm) ⟨algorithm.combineFunction, algorithm.digest seen⟩ =
      .ok ⟨algorithm.combineFunction, algorithm.digest (seen ++ parts.flatten)⟩ := by
  induction parts generalizing seen with
  | nil =>
    rw [flatten_nil, append_nil]
    rfl
  | cons part parts ih =>
    have hstep : combinePart algorithm ⟨algorithm.combineFunction, algorithm.digest seen⟩ part =
        .ok ⟨algorithm.combineFunction, algorithm.digest (seen ++ part)⟩ := by
      have h := combineFunction_value algorithm true true seen part
      simp only [value, if_true] at h
      simp only [combinePart, CombinedCrcHash.combine, digest_ne_nil, if_false, h]
      rfl
    rw [foldlM_cons, hstep, flatten_cons, ← append_assoc]
    exact ih _

end CrcAlgorithm

/-- The combination of the checksums of two byte strings, as numbers or as
    bytes, is the checksum of their concatenation, and the running combination
    over any parts, empty ones included, is the checksum of the whole. -/
theorem combine_crc_of_concatenation (algorithm : CrcAlgorithm) :
    (∀ (x y : Bool) (a b : Bytes),
      algorithm.combineFunction (algorithm.value x a) (algorithm.value y b) b.length =
        .ok (algorithm.digest (a ++ b))) ∧
    ∀ (part : Bytes) (parts : List Bytes),
      (do
        let hash ← CombinedCrcHash.new algorithm.checksumType
        let hash ← (part :: parts).foldlM
          (fun hash part =>
            CombinedCrcHash.combine hash (algorithm.digest part) part.length) hash
        pure hash.digest) = .ok (algorithm.digest (part :: parts).flatten) := by
  refine ⟨algorithm.combineFunction_value, fun part parts => ?_⟩
  have hnew : CombinedCrcHash.new algorithm.checksumType = .ok ⟨algorithm.combineFunction, []⟩ := by
    cases algorithm <;> rfl
  have hfold := algorithm.combineParts_digest parts part
  rw [hnew]
  -- The first part only initialises the hash.
  exact congrArg (fun result : Except CombineError CombinedCrcHash =>
    result.map CombinedCrcHash.digest) hfold

end LocalEmu.S3
