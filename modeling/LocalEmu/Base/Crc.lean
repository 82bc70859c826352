import Mathlib.Data.Nat.Bitwise

/-!
# Cyclic Redundancy Checks

The bit by bit definition of a reflected CRC whose initial value and final mask
are all ones, for a register of any width.

Shifting one bit out of the register is linear, and a message enters the
register by exclusive or. So the register after a message splits into what the
message alone does and what shifting alone does to the register before it.
`crc_append` is the consequence for checksums: the checksum of a concatenation
is the checksum of its second part plus the checksum of the first, shifted by
as many bits as the second part has.
-/

namespace LocalEmu.Crc

variable {w : Nat}

variable (poly reg : BitVec w)

/-- Shift one bit out of the register, and reduce by the reflected polynomial if it was set. -/
def shift : BitVec w :=
  if reg.getLsbD 0 then (reg >>> 1) ^^^ poly else reg >>> 1

/-- Let one byte into the register. -/
def update (byte : UInt8) : BitVec w :=
  (shift poly)^[8] (reg ^^^ byte.toBitVec.setWidth w)

/-- The register after a message. -/
def register (data : List UInt8) : BitVec w := data.foldl (update poly) reg

/-- The checksum of a message. -/
def crc (data : List UInt8) : BitVec w :=
  ~~~register poly (BitVec.allOnes w) data

/-- Shifting is linear. -/
theorem shift_xor (a b : BitVec w) : shift poly (a ^^^ b) = shift poly a ^^^ shift poly b := by
  simp only [shift, BitVec.getLsbD_xor, BitVec.ushiftRight_xor_distrib]
  -- The polynomial enters once for each set bit, so twice cancels.
  cases a.getLsbD 0 <;> cases b.getLsbD 0
  · rfl
  · exact BitVec.xor_assoc _ _ _
  · simp
    rw [BitVec.xor_assoc, BitVec.xor_comm (b >>> 1), ← BitVec.xor_assoc]
  · simp
    rw [BitVec.xor_comm (b >>> 1), ← BitVec.xor_assoc, BitVec.xor_assoc (a >>> 1),
      BitVec.xor_self, BitVec.xor_zero]

theorem shift_iterate_xor (a b : BitVec w) (n : Nat) :
    (shift poly)^[n] (a ^^^ b) = (shift poly)^[n] a ^^^ (shift poly)^[n] b := by
  induction n with
  | zero => rfl
  | succ n ih =>
    rw [Function.iterate_succ_apply', Function.iterate_succ_apply',
      Function.iterate_succ_apply', ih, shift_xor]

/-- A register splits. -/
theorem register_xor (a b : BitVec w) (data : List UInt8) : register poly (a ^^^ b) data =
      (shift poly)^[8 * data.length] a ^^^ register poly b data := by
  induction data generalizing a b with
  | nil => rfl
  | cons byte data ih =>
    have hbyte : update poly (a ^^^ b) byte = (shift poly)^[8] a ^^^ update poly b byte := by
      rw [update, BitVec.xor_assoc, shift_iterate_xor]
      rfl
    exact (congrArg (fun reg => register poly reg data) hbyte).trans (ih _ _)

/-- The checksum of a concatenation. -/
theorem crc_append (a b : List UInt8) :
    crc poly (a ++ b) = (shift poly)^[8 * b.length] (crc poly a) ^^^ crc poly b := by
  have hcrc : ∀ data, crc poly data = register poly (BitVec.allOnes w) data ^^^
      BitVec.allOnes w := fun data => by rw [BitVec.xor_allOnes, crc]
  have hreg : register poly (BitVec.allOnes w) a = crc poly a ^^^ BitVec.allOnes w := by
    rw [hcrc, BitVec.xor_assoc, BitVec.xor_self, BitVec.xor_zero]
  have happend : register poly (BitVec.allOnes w) (a ++ b) =
      register poly (crc poly a ^^^ BitVec.allOnes w) b := by
    rw [← hreg, register, List.foldl_append]
    rfl
  rw [hcrc, happend, register_xor, BitVec.xor_assoc, ← hcrc b]

end LocalEmu.Crc
