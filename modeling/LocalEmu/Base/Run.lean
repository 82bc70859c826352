import Mathlib.Logic.Basic

/-!
# Labelled Runs

Finite runs of a labelled step relation, and the induction every invariant
argument over them uses.

A run is indexed by the list of its labels, so that a claim can speak about
what happened on the way and not only about where the run ended. The step is
a relation rather than a function: what the environment may choose (a clock
reading, the iteration order of a set) is in the label, and what it must
respect (a clock that never goes back, a fresh identifier) is in the
relation.
-/

namespace LocalEmu

open List Option

variable {σ ι κ : Type}

/-- A finite run along a list of labels. -/
inductive Runs (step : σ → ι → σ → Prop) : σ → List ι → σ → Prop
  | nil (s : σ) : Runs step s [] s
  | cons (s t u : σ) (i : ι) (is : List ι) : step s i t → Runs step t is u →
      Runs step s (i :: is) u

/-- Every step of the runs along a list of labels meets a condition. -/
def Along (step : σ → ι → σ → Prop) (C : σ → ι → Prop) (s : σ) (is : List ι) : Prop :=
  ∀ before i after t, is = before ++ i :: after → Runs step s before t → C t i

/-- The state and the labels a step function produces from a list of inputs. -/
def drive (f : σ → κ → σ × ι) : σ → List κ → σ × List ι
  | s, [] => (s, [])
  | s, k :: ks => ((drive f (f s k).1 ks).1, (f s k).2 :: (drive f (f s k).1 ks).2)

/-- Every input is admissible in the state it meets. -/
def Driven (ok : σ → κ → Prop) (f : σ → κ → σ × ι) : σ → List κ → Prop
  | _, [] => True
  | s, k :: ks => ok s k ∧ Driven ok f (f s k).1 ks

/-- The step relation of a step function that is not defined everywhere: a
    thread that waits for a lock, say, has no step. -/
def Takes (f : σ → ι → Option σ) (s : σ) (i : ι) (t : σ) : Prop := f s i = some t

/-- The state a partial step function reaches along a list of labels. -/
def takeAll (f : σ → ι → Option σ) : σ → List ι → Option σ
  | s, [] => some s
  | s, i :: is => (f s i).bind fun t => takeAll f t is

/-- Whether every step of a partial step function along a list of labels meets a condition. -/
def checkAlong (f : σ → ι → Option σ) (C : σ → ι → Bool) : σ → List ι → Bool
  | _, [] => true
  | s, i :: is => C s i && (f s i).all fun t => checkAlong f C t is

instance Driven.decidable (ok : σ → κ → Prop) [∀ s k, Decidable (ok s k)] (f : σ → κ → σ × ι) :
    ∀ (s : σ) (ks : List κ), Decidable (Driven ok f s ks)
  | _, [] => inferInstanceAs (Decidable True)
  | s, k :: ks =>
    have := Driven.decidable ok f (f s k).1 ks
    inferInstanceAs (Decidable (ok s k ∧ Driven ok f (f s k).1 ks))

namespace Runs

variable {step : σ → ι → σ → Prop}

variable {C : σ → ι → Prop} {P : σ → Prop} {s : σ}

variable {is js : List ι} {f : σ → ι → Option σ} {t : σ}

/-- Runs compose. -/
theorem append {u : σ} (h1 : Runs step s is t) (h2 : Runs step t js u) :
    Runs step s (is ++ js) u := by
  induction h1 with
  | nil => exact h2
  | cons s t _ i is hstep _ ih => exact Runs.cons s t u i (is ++ js) hstep (ih h2)

/-- A run along a concatenation passes through a middle state. -/
theorem split {u : σ} (is js : List ι) (h : Runs step s (is ++ js) u) :
    ∃ t, Runs step s is t ∧ Runs step t js u := by
  induction is generalizing s with
  | nil => exact ⟨s, Runs.nil s, h⟩
  | cons i is ih =>
    cases h with
    | cons _ t _ _ _ hstep hrest =>
      rcases ih hrest with ⟨m, h1, h2⟩
      exact ⟨m, Runs.cons s t m i is hstep h1, h2⟩

/-- What every step preserves, a run preserves. -/
theorem invariant (hstep : ∀ s i t, P s → step s i t → P t) {s : σ} (h : Runs step s is t)
    (hs : P s) : P t := by
  induction h with
  | nil => exact hs
  | cons s t _ i _ hst _ ih => exact ih (hstep s i t hs hst)

/-- The same, for steps that satisfy a side condition. -/
theorem invariant_of {C : ι → Prop} (hstep : ∀ s i t, C i → P s → step s i t → P t) {s : σ}
    (h : Runs step s is t) (hC : ∀ i ∈ is, C i) (hs : P s) : P t := by
  induction h with
  | nil => exact hs
  | cons s t _ i is hst _ ih =>
    exact ih (fun j hj => hC j (mem_cons_of_mem i hj)) (hstep s i t (hC i mem_cons_self) hs hst)

theorem along_head {i : ι} (h : Along step C s (i :: is)) : C s i :=
  h [] i is s rfl (Runs.nil s)

theorem along_tail {i : ι} (h : Along step C s (i :: is))
    (hstep : step s i t) : Along step C t is := by
  intro before j after u his hbefore
  exact h _ j _ u (by rw [his]; rfl) (Runs.cons s t u i before hstep hbefore)

theorem along_cons_iff {i : ι} :
    Along step C s (i :: is) ↔ C s i ∧ ∀ t, step s i t → Along step C t is := by
  constructor
  · exact fun h => ⟨along_head h, fun t hstep => along_tail h hstep⟩
  · rintro ⟨hhead, htail⟩ before j after u his hbefore
    cases hbefore with
    | nil =>
      rcases cons.inj his with ⟨rfl, -⟩
      exact hhead
    | cons _ t _ _ before hstep hrest =>
      rcases cons.inj his with ⟨rfl, hrest'⟩
      exact htail t hstep _ j _ u hrest' hrest

/-- What every step with a side condition on the state before it preserves, a
    run whose steps all meet the condition preserves. -/
theorem invariant_along {C : σ → ι → Prop} (hstep : ∀ s i t, C s i → P s → step s i t → P t) {s : σ}
    (h : Runs step s is t) (hC : Along step C s is) (hs : P s) : P t := by
  induction h with
  | nil => exact hs
  | cons s t _ i is hst _ ih =>
    exact ih (along_tail hC hst) (hstep s i t (along_head hC) hs hst)

theorem along_append (hC : Along step C s (is ++ js))
    (h : Runs step s is t) : Along step C t js := by
  induction h with
  | nil => exact hC
  | cons s t _ i is hst _ ih => exact ih (along_tail hC hst)

theorem along_of_check {C : σ → ι → Bool} (is : List ι) (s : σ)
    (h : checkAlong f C s is = true) : Along (Takes f) (fun s i => C s i = true) s is := by
  induction is generalizing s with
  | nil =>
    intro before i after t his
    exact absurd his (by simp)
  | cons i is ih =>
    rw [checkAlong, Bool.and_eq_true] at h
    refine along_cons_iff.mpr ⟨h.1, fun t hstep => ih t ?_⟩
    have hall := h.2
    rw [show f s i = some t from hstep] at hall
    exact hall

theorem along_left (hC : Along step C s (is ++ js)) : Along step C s is := by
  intro before i after t his hbefore
  exact hC _ i _ t (by rw [his, append_assoc, cons_append]) hbefore

theorem along_concat_iff {i : ι} :
    Along step C s (is ++ [i]) ↔ Along step C s is ∧ ∀ t, Runs step s is t → C t i := by
  constructor
  · intro h
    exact ⟨along_left h, fun t ht => h is i [] t rfl ht⟩
  · intro h before j after t his hbefore
    rcases eq_nil_or_concat after with rfl | ⟨after, k, rfl⟩
    · have hsame := append_inj' his rfl
      rcases cons.inj hsame.2 with ⟨rfl, -⟩
      exact h.2 t (hsame.1 ▸ hbefore)
    · rw [concat_eq_append, ← cons_append, ← append_assoc] at his
      exact h.1 _ j _ t (append_inj' his rfl).1 hbefore

/-- A property of the state and of the labels so far, which every step
    carries over to one more label, holds at the end of a run. -/
theorem history {P : List ι → σ → Prop} (hstep : ∀ is s i t, P is s → step s i t → P (is ++ [i]) t)
    {s : σ}
    (h : Runs step s is t) : ∀ (js : List ι), P js s → P (js ++ is) t := by
  induction h with
  | nil =>
    intro js hs
    rw [append_nil]
    exact hs
  | cons s t u i is hst _ ih =>
    intro js hs
    have hnext := ih _ (hstep js s i t hs hst)
    rw [append_assoc] at hnext
    exact hnext

/-- Running a step function is a run, and what its steps meet. -/
theorem of_driven {ok : σ → κ → Prop} {f : σ → κ → σ × ι}
    (hf : ∀ s k, ok s k → step s (f s k).2 (f s k).1) (s : σ) (ks : List κ)
    (h : Driven ok f s ks) : Runs step s (drive f s ks).2 (drive f s ks).1 := by
  induction ks generalizing s with
  | nil => exact Runs.nil s
  | cons k ks ih =>
    rcases h with ⟨hk, hks⟩
    exact Runs.cons s (f s k).1 _ (f s k).2 _ (hf s k hk) (ih (f s k).1 hks)

/-- A condition that the inputs of a step function meet on the way is met along its
    run, if a label and the state before it determine the state after it. -/
theorem along_of_driven {f : σ → κ → σ × ι} {C : σ → ι → Prop}
    (hf : ∀ s k t, step s (f s k).2 t → t = (f s k).1) (s : σ) (ks : List κ)
    (h : Driven (fun s k => C s (f s k).2) f s ks) : Along step C s (drive f s ks).2 := by
  induction ks generalizing s with
  | nil =>
    intro before i after t his
    exact absurd his (by simp [drive])
  | cons k ks ih =>
    rcases h with ⟨hk, hks⟩
    refine along_cons_iff.mpr ⟨hk, fun t hstep => ?_⟩
    rw [hf s k t hstep]
    exact ih (f s k).1 hks

/-- A run at whose end a property holds that did not hold at its start has a step that made it
    hold. -/
theorem turn (h : Runs step s is t) (hs : ¬P s)
    (ht : P t) : ∃ before i after u v, is = before ++ i :: after ∧ Runs step s before u ∧
      ¬P u ∧ step u i v ∧ P v ∧ Runs step v after t := by
  induction h with
  | nil => exact absurd ht hs
  | cons s m t i is hst hrest ih =>
    by_cases hm : P m
    · exact ⟨[], i, is, s, m, rfl, Runs.nil s, hs, hst, hm, hrest⟩
    · rcases ih hm ht with ⟨before, j, after, u, v, rfl, hbefore, hu, huv, hv, hafter⟩
      exact ⟨i :: before, j, after, u, v, rfl, Runs.cons s m u i before hst hbefore, hu, huv,
        hv, hafter⟩

/-- The labels determine a run, of a partial step function for example. -/
theorem unique_of (hdet : ∀ s i t t', step s i t → step s i t' → t = t') {s t' : σ}
    (h : Runs step s is t) (h' : Runs step s is t') : t = t' := by
  induction h with
  | nil =>
    cases h'
    rfl
  | cons s m t i is hst _ ih =>
    cases h' with
    | cons _ m' _ _ _ hst' hrest' => exact ih (hdet s i m m' hst hst' ▸ hrest')

theorem unique {s t' : σ} (h : Runs (Takes f) s is t) (h' : Runs (Takes f) s is t') : t = t' :=
  unique_of (fun _ _ _ _ hst hst' => some.inj (hst.symm.trans hst')) h h'

theorem of_takeAll (is : List ι) (s t : σ)
    (h : takeAll f s is = some t) : Runs (Takes f) s is t := by
  induction is generalizing s with
  | nil =>
    rw [some.inj h]
    exact Runs.nil t
  | cons i is ih =>
    rcases bind_eq_some_iff.mp h with ⟨m, hm, hrest⟩
    exact Runs.cons s m t i is hm (ih m hrest)

end Runs

end LocalEmu
