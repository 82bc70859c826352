import Mathlib.Algebra.BigOperators.Intervals
import Mathlib.Data.Nat.ModEq

/-!
# Steps Within Blocks

The natural numbers are cut into blocks, one after the other, as minutes are
into hours and days into months. A count that starts again with every block
marks the places whose distance from the start of their block is a multiple of
the step. Such places are evenly spaced only if no block is cut short by the
next one.
-/

namespace LocalEmu

/-- The first place of a block, if the blocks have these lengths. -/
def blockStart (length : Nat → Nat) (k : Nat) : Nat := ((List.range k).map length).sum

/-- The place is a multiple of the step away from the start of its block. -/
def Stepped (length : Nat → Nat) (step t : Nat) : Prop :=
  ∃ k r, r < length k ∧ t = blockStart length k + r ∧ step ∣ r

/-- Between two places with a property there is no other one. -/
structure Consecutive (P : Nat → Prop) (a b : Nat) : Prop where
  left : P a
  right : P b
  lt : a < b
  between : ∀ c, a < c → c < b → ¬ P c

/-- Neighbours have a given distance. -/
def Spaced (P : Nat → Prop) (distance : Nat) : Prop :=
  ∀ a b, Consecutive P a b → b = a + distance

variable {length : Nat → Nat}

@[simp]
theorem blockStart_succ (length : Nat → Nat) (k : Nat) :
    blockStart length (k + 1) = blockStart length k + length k := by
  rw [blockStart, List.range_succ, List.map_append]
  simp [blockStart]

theorem blockStart_mono (length : Nat → Nat) : Monotone (blockStart length) := by
  refine monotone_nat_of_le_succ fun k => ?_
  rw [blockStart_succ]
  exact Nat.le_add_right _ _

theorem blockStart_const (n k : Nat) : blockStart (fun _ => n) k = n * k := by
  induction k with
  | zero => rfl
  | succ k ih => rw [blockStart_succ, ih, Nat.mul_succ]

/-- Every place is in a block. -/
theorem exists_block (hpos : ∀ k, 0 < length k) (t : Nat) :
    ∃ k r, r < length k ∧ t = blockStart length k + r := by
  induction t with
  | zero => exact ⟨0, 0, hpos 0, rfl⟩
  | succ t ih =>
    rcases ih with ⟨k, r, hr, ht⟩
    by_cases hnext : r + 1 < length k
    · exact ⟨k, r + 1, hnext, by omega⟩
    · -- The block is full, so that the next one begins.
      refine ⟨k + 1, 0, hpos _, ?_⟩
      rw [blockStart_succ]
      omega

theorem block_unique {k k' r r' : Nat} (hr : r < length k) (hr' : r' < length k')
    (h : blockStart length k + r = blockStart length k' + r') : k = k' ∧ r = r' := by
  have hk : k = k' := by
    rcases Nat.lt_trichotomy k k' with hlt | heq | hlt
    · have hle := blockStart_mono length (Nat.succ_le_of_lt hlt)
      rw [blockStart_succ] at hle
      omega
    · exact heq
    · have hle := blockStart_mono length (Nat.succ_le_of_lt hlt)
      rw [blockStart_succ] at hle
      omega
  subst hk
  exact ⟨rfl, by omega⟩

theorem stepped_iff_of_dvd (hpos : ∀ k, 0 < length k) {step : Nat}
    (hdvd : ∀ k, step ∣ length k) (t : Nat) : Stepped length step t ↔ step ∣ t := by
  have hstart : ∀ k, step ∣ blockStart length k := by
    intro k
    induction k with
    | zero => exact Nat.dvd_zero _
    | succ k ih =>
      rw [blockStart_succ]
      exact Nat.dvd_add ih (hdvd k)
  constructor
  · rintro ⟨k, r, -, rfl, hr⟩
    exact Nat.dvd_add (hstart k) hr
  · intro ht
    rcases exists_block hpos t with ⟨k, r, hr, rfl⟩
    exact ⟨k, r, hr, rfl, (Nat.dvd_add_right (hstart k)).mp ht⟩

theorem consecutive_last (hpos : ∀ k, 0 < length k) {step : Nat} (hstep : 0 < step) (k : Nat) :
    Consecutive (Stepped length step)
      (blockStart length k + (length k - 1) / step * step) (blockStart length (k + 1)) := by
  have hk := hpos k
  have hle := Nat.div_mul_le_self (length k - 1) step
  refine ⟨⟨k, _, by omega, rfl, Nat.dvd_mul_left _ _⟩,
    ⟨k + 1, 0, hpos _, rfl, Nat.dvd_zero _⟩, ?_, ?_⟩
  · rw [blockStart_succ]
    omega
  · rintro c hac hcb ⟨k', r', hr', rfl, q, rfl⟩
    rw [blockStart_succ] at hcb
    have hsame := block_unique
      (show blockStart length k' + step * q - blockStart length k < length k
      by omega) hr' (by omega)
    -- A later multiple of the step would be a larger quotient.
    have hq : q ≤ (length k - 1) / step :=
      (Nat.le_div_iff_mul_le hstep).mpr (by rw [Nat.mul_comm]; omega)
    have hmul := Nat.mul_le_mul_right step hq
    rw [Nat.mul_comm q] at hmul
    omega

/-- When the marked places are evenly spaced. -/
theorem spaced_stepped_iff (hpos : ∀ k, 0 < length k) {step : Nat} (hstep : 0 < step) :
    Spaced (Stepped length step) step ↔ ∀ k, step ∣ length k := by
  constructor
  · intro h k
    have heq := h _ _ (consecutive_last hpos hstep k)
    rw [blockStart_succ] at heq
    have hlength : length k = (length k - 1) / step * step + step := by omega
    rw [hlength]
    exact Nat.dvd_add (Nat.dvd_mul_left _ _) (Nat.dvd_refl _)
  · rintro hdvd a b ⟨ha, hb, hlt, hbetween⟩
    rw [stepped_iff_of_dvd hpos hdvd] at ha hb
    have hnext : step ≤ b - a := Nat.le_of_dvd (by omega) (Nat.dvd_sub hb ha)
    by_contra hne
    refine hbetween (a + step) (by omega) (by omega) ?_
    rw [stepped_iff_of_dvd hpos hdvd]
    exact Nat.dvd_add ha (Nat.dvd_refl _)

/-- Spacing in a smaller unit. -/
theorem spaced_mul_iff {P Q : Nat → Prop} {unit : Nat} (hunit : 0 < unit)
    (hPQ : ∀ t, P t ↔ ∃ s, t = s * unit ∧ Q s) (distance : Nat) :
    Spaced P (distance * unit) ↔ Spaced Q distance := by
  constructor
  · rintro h a b ⟨ha, hb, hlt, hbetween⟩
    have heq := h _ _ ⟨(hPQ _).mpr ⟨a, rfl, ha⟩, (hPQ _).mpr ⟨b, rfl, hb⟩,
      Nat.mul_lt_mul_of_pos_right hlt hunit, ?_⟩
    · rw [← Nat.add_mul] at heq
      exact Nat.eq_of_mul_eq_mul_right hunit heq
    · intro c hac hcb hc
      rcases (hPQ c).mp hc with ⟨s, rfl, hs⟩
      exact hbetween s (Nat.lt_of_mul_lt_mul_right hac) (Nat.lt_of_mul_lt_mul_right hcb) hs
  · rintro h a b ⟨ha, hb, hlt, hbetween⟩
    rcases (hPQ a).mp ha with ⟨s, rfl, hs⟩
    rcases (hPQ b).mp hb with ⟨s', rfl, hs'⟩
    rw [h s s' ⟨hs, hs', Nat.lt_of_mul_lt_mul_right hlt, fun c hc hc' hQ =>
      hbetween _ (Nat.mul_lt_mul_of_pos_right hc hunit)
        (Nat.mul_lt_mul_of_pos_right hc' hunit) ((hPQ _).mpr ⟨c, rfl, hQ⟩)⟩, Nat.add_mul]

end LocalEmu
