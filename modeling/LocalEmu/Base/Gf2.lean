import Mathlib.Data.Nat.Bitwise
import Mathlib.Data.List.Basic

/-!
# Linear Maps over Two Elements

A number is a vector of bits, and exclusive or is the addition of such vectors.
A map that respects it is determined by its values on the powers of two, so it
can be kept as the list of these values: the columns of its matrix.

`combination` reads such a list back. It is the product of the matrix and a
vector, and `combination_columns` says that it recovers the map. Squaring a
matrix column by column is then `columns_comp`.
-/

namespace LocalEmu.Gf2

variable (w : Nat) (f : Nat → Nat)

/-- The map respects exclusive or. -/
def Linear : Prop := ∀ a b, f (a ^^^ b) = f a ^^^ f b

/-- Numbers below the power of two are sent to such numbers. -/
def Keeps : Prop := ∀ a, a < 2 ^ w → f a < 2 ^ w

/-- The matrix of a map: its values on the powers of two. -/
def columns : List Nat := (List.range w).map fun i => f (2 ^ i)

/-- The sum of the columns at the set bits of a vector. -/
def combination : List Nat → Nat → Nat
  | [], _ => 0
  | column :: mat, vec =>
    (if vec % 2 = 1 then column else 0) ^^^ combination mat (vec / 2)

/-- A linear map sends zero to zero. -/
theorem Linear.zero (hf : Linear f) : f 0 = 0 := by
  have h := hf 0 0
  rw [Nat.xor_self, Nat.xor_self] at h
  exact h

/-! ### Matrices -/

theorem two_mul_xor (a b : Nat) : 2 * (a ^^^ b) = 2 * a ^^^ 2 * b := by
  have h := Nat.shiftLeft_xor_distrib (a := a) (b := b) (i := 1)
  simp only [Nat.shiftLeft_eq, pow_one] at h
  rw [mul_comm 2, mul_comm 2 a, mul_comm 2 b]
  exact h

theorem mod_xor_two_mul_div (a : Nat) : a % 2 ^^^ 2 * (a / 2) = a := by
  apply Nat.eq_of_testBit_eq
  intro i
  cases i with
  | zero =>
    rcases Nat.mod_two_eq_zero_or_one a with h | h <;> simp [h]
  | succ =>
    rw [Nat.testBit_xor, Nat.testBit_succ, Nat.testBit_succ, Nat.testBit_succ,
      Nat.mul_div_cancel_left _ (by omega)]
    rw [show a % 2 / 2 = 0 by omega, Nat.zero_testBit, Bool.false_xor]

theorem columns_succ : columns (w + 1) f = f 1 :: columns w fun a => f (2 * a) := by
  simp only [columns, List.range_succ_eq_map, List.map_cons, List.map_map, pow_zero]
  congr 1
  refine List.map_congr_left fun i _ => ?_
  simp only [Function.comp_apply, pow_succ, mul_comm]

theorem length_columns : (columns w f).length = w := by
  rw [columns, List.length_map, List.length_range]

/-- The matrix of a linear map computes it. -/
theorem combination_columns (hf : Linear f) (a : Nat)
    (ha : a < 2 ^ w) : combination (columns w f) a = f a := by
  -- The induction peels the lowest bit off, so the map changes with it.
  induction w generalizing f a with
  | zero =>
    rw [show a = 0 by omega, Linear.zero f hf]
    rfl
  | succ w ih =>
    have hdouble : Linear fun b => f (2 * b) := by
      intro b c
      simp only [two_mul_xor, hf _ _]
    have hlow : (if a % 2 = 1 then f 1 else 0) = f (a % 2) := by
      rcases Nat.mod_two_eq_zero_or_one a with h | h
      · rw [h, if_neg (by omega), Linear.zero f hf]
      · rw [h, if_pos rfl]
    rw [columns_succ, combination, ih _ hdouble _ (by omega), hlow, ← hf, mod_xor_two_mul_div]

/-- The columns of a composite. -/
theorem columns_comp (g : Nat → Nat) : columns w (fun a => f (g a)) = (columns w g).map f := by
  rw [columns, columns, List.map_map]
  rfl

end LocalEmu.Gf2
