import LocalEmu.Base.Action

/-!
# What Actions Do

A relation between the state before an action, what the action raised and the state
after it is an effect if it composes: doing nothing has it, and so have two actions one
after the other, each of which has it. Such a relation can be shown for a whole program
one combinator at a time, whatever values the program computes on the way.

What was raised is in the relation, so that it may ask for more of an action that came
to its end than of one that was broken off.
-/

namespace LocalEmu.Action

variable {σ ε α β : Type}

/-- What an action raised. -/
def raised (r : Except ε α) : Option ε :=
  match r with
  | .ok _ => none
  | .error e => some e

/-- A relation that composes. -/
structure Composes (Q : σ → Option ε → σ → Prop) : Prop where
  refl : ∀ s, Q s none s
  trans : ∀ s t u o, Q s none t → Q t o u → Q s o u

def DoesAt (Q : σ → Option ε → σ → Prop) (s : σ) (m : Action σ ε α) : Prop :=
  Q s (raised (exec m s).1) (exec m s).2

def Does (Q : σ → Option ε → σ → Prop) (m : Action σ ε α) : Prop := ∀ s, DoesAt Q s m

variable {Q : σ → Option ε → σ → Prop}

/-- One rule for each combinator. -/
theorem Does.of_pure (hQ : Composes Q) (a : α) : Does Q (pure a : Action σ ε α) :=
  fun s => hQ.refl s

theorem Does.of_throw (e : ε) (h : ∀ s, Q s (some e) s) : Does Q (throw e : Action σ ε α) :=
  fun s => h s

theorem Does.of_modify (f : σ → σ) (h : ∀ s, Q s none (f s)) :
    Does Q (modify f : Action σ ε PUnit) := fun s => h s

theorem Does.of_ofExcept (hQ : Composes Q) (r : Except ε α)
    (h : ∀ e, r = .error e → ∀ s, Q s (some e) s) : Does Q (ofExcept r : Action σ ε α) := by
  intro s
  cases hr : r with
  | ok => exact hQ.refl s
  | error e => exact h e hr s

variable {m : Action σ ε α}

theorem DoesAt.of_bind (hQ : Composes Q) {f : α → Action σ ε β} {s : σ} (hm : DoesAt Q s m)
    (hf : ∀ a t, exec m s = (.ok a, t) → DoesAt Q t (f a)) :
    DoesAt Q s (m >>= f) := by
  unfold DoesAt at hm ⊢
  rw [exec_bind]
  rcases hrun : exec m s with ⟨r, t⟩
  rw [hrun] at hm
  cases r with
  | error => exact hm
  | ok a => exact hQ.trans s t _ _ hm (hf a t hrun)

theorem Does.of_bind (hQ : Composes Q) {f : α → Action σ ε β} (hm : Does Q m)
    (hf : ∀ a, Does Q (f a)) : Does Q (m >>= f) :=
  fun s => DoesAt.of_bind hQ (hm s) fun a t _ => hf a t

theorem Does.of_get {f : σ → Action σ ε α} (hf : ∀ s, DoesAt Q s (f s)) :
    Does Q (get >>= f) := fun s => by
  exact hf s

/-- What the relation says of an execution. -/
theorem Does.exec_ok (hm : Does Q m) {s t : σ} {a : α}
    (h : exec m s = (.ok a, t)) : Q s none t := by
  have hs := hm s
  unfold DoesAt at hs
  rw [h] at hs
  exact hs

theorem Does.exec_error (hm : Does Q m) {s t : σ} {e : ε}
    (h : exec m s = (.error e, t)) : Q s (some e) t := by
  have hs := hm s
  unfold DoesAt at hs
  rw [h] at hs
  exact hs

end LocalEmu.Action
