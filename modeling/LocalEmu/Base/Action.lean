import Mathlib.Logic.Basic

/-!
# Actions That Raise

Stateful code that may raise. What an action did to the state before it raised
stays done: the exception carries no state of its own and nothing is rolled
back, so the final state of a failed action is data like that of a successful
one.

An action is executed from a state and yields its result together with the
final state. The rules below execute the combinators of the monad one by one;
a sequence that raises is taken apart at the action that raised.
-/

namespace LocalEmu

/-- A computation over a state that may raise. -/
abbrev Action (σ ε α : Type) := ExceptT ε (StateM σ) α

namespace Action

variable {σ ε α β : Type}

variable (m : Action σ ε α) (f : α → Action σ ε β) (r : Except ε α) (s : σ)

/-- The result of an action and the state it leaves. -/
def exec : Except ε α × σ := m.run.run s

/-- A check that does not touch the state. -/
def ofExcept : Action σ ε α :=
  match r with
  | .ok a => pure a
  | .error e => throw e

/-- `try: m except e: handler(e)`. -/
def attempt (handler : ε → Action σ ε α) : Action σ ε α := tryCatch m handler

@[simp]
theorem exec_pure (a : α) (s : σ) : exec (pure a : Action σ ε α) s = (.ok a, s) := rfl

@[simp]
theorem exec_throw (e : ε) (s : σ) : exec (throw e : Action σ ε α) s = (.error e, s) := rfl

@[simp]
theorem exec_get : exec (get : Action σ ε σ) s = (.ok s, s) := rfl

@[simp]
theorem exec_modify (f : σ → σ) (s : σ) :
    exec (modify f : Action σ ε PUnit) s = (.ok ⟨⟩, f s) := rfl

@[simp]
theorem exec_ofExcept : exec (ofExcept r : Action σ ε α) s = (r, s) := by
  rcases r with e | a
  · rfl
  · rfl

/-- Execution, one rule for each combinator. -/
theorem exec_bind : exec (m >>= f) s =
      match exec m s with
      | (.ok a, t) => exec (f a) t
      | (.error e, t) => (.error e, t) := by
  simp only [exec, ExceptT.run_bind, StateT.run_bind]
  rcases m.run.run s with ⟨e | a, t⟩
  · rfl
  · rfl

theorem exec_attempt (handler : ε → Action σ ε α) (s : σ) : exec (attempt m handler) s =
      match exec m s with
      | (.ok a, t) => (.ok a, t)
      | (.error e, t) => exec (handler e) t := by
  simp only [exec, attempt, tryCatch, tryCatchThe, MonadExceptOf.tryCatch, ExceptT.tryCatch,
    ExceptT.run_mk, StateT.run_bind]
  rcases h : m.run.run s with ⟨e | a, t⟩
  · simp only [ExceptT.run, bind, StateT.run] at h ⊢
    rw [h]
  · simp only [ExceptT.run, bind, StateT.run] at h ⊢
    rw [h]
    rfl

theorem exec_bind_of_ok (t : σ) (a : α)
    (h : exec m s = (.ok a, t)) : exec (m >>= f) s = exec (f a) t := by
  rw [exec_bind, h]

theorem exec_bind_of_error (t : σ) (e : ε)
    (h : exec m s = (.error e, t)) : exec (m >>= f) s = (.error e, t) := by
  rw [exec_bind, h]

theorem exec_get_bind (f : σ → Action σ ε α) (s : σ) : exec (get >>= f) s = exec (f s) s := rfl

theorem exec_modify_bind (g : σ → σ) (f : PUnit → Action σ ε α) (s : σ) :
    exec (modify g >>= f) s = exec (f ⟨⟩) (g s) := rfl

theorem exec_ofExcept_bind_ok (a : α) (f : α → Action σ ε β) (s : σ)
    (h : r = .ok a) : exec (ofExcept r >>= f) s = exec (f a) s := by
  rw [h]
  rfl

theorem exec_ofExcept_bind_error (e : ε) (f : α → Action σ ε β) (s : σ)
    (h : r = .error e) : exec (ofExcept r >>= f) s = (.error e, s) := by
  rw [h]
  rfl

/-- What a sequence did that did not raise. -/
theorem exec_bind_ok (u : σ) (b : β) (h : exec (m >>= f) s = (.ok b, u)) :
    ∃ a t, exec m s = (.ok a, t) ∧ exec (f a) t = (.ok b, u) := by
  rcases hm : exec m s with ⟨d | a, t⟩
  · rw [exec_bind_of_error m f s t d hm] at h
    exact absurd (congrArg Prod.fst h) (by simp)
  · rw [exec_bind_of_ok m f s t a hm] at h
    exact ⟨a, t, rfl, h⟩

/-! ### Two states -/

/-- From related states the actions have the same result and end in related states. -/
def Agree (R : σ → σ → Prop) (m m' : Action σ ε α) : Prop :=
  ∀ s t, R s t → (exec m s).1 = (exec m' t).1 ∧ R (exec m s).2 (exec m' t).2

variable {R : σ → σ → Prop}

theorem Agree.of_pure (a : α) : Agree R (pure a : Action σ ε α) (pure a) :=
  fun _ _ h => ⟨rfl, h⟩

theorem Agree.of_throw (e : ε) : Agree R (throw e : Action σ ε α) (throw e) :=
  fun _ _ h => ⟨rfl, h⟩

theorem Agree.of_ofExcept (r : Except ε α) : Agree R (ofExcept r : Action σ ε α) (ofExcept r) := by
  intro s t h
  rw [exec_ofExcept, exec_ofExcept]
  exact ⟨rfl, h⟩

theorem Agree.of_modify (f g : σ → σ) (h : ∀ s t, R s t → R (f s) (g t)) :
    Agree R (modify f : Action σ ε PUnit) (modify g) :=
  fun s t hst => ⟨rfl, h s t hst⟩

/-- Agreement, one rule for each combinator. -/
theorem Agree.of_bind (m m' : Action σ ε α) (f g : α → Action σ ε β) (hm : Agree R m m')
    (hf : ∀ a, Agree R (f a) (g a)) : Agree R (m >>= f) (m' >>= g) := by
  intro s t hst
  have hfirst := hm s t hst
  rcases hs : exec m s with ⟨e | a, s'⟩
  · rcases ht : exec m' t with ⟨e' | a', t'⟩
    · rw [hs, ht] at hfirst
      rw [exec_bind_of_error m f s s' e hs, exec_bind_of_error m' g t t' e' ht]
      exact ⟨congrArg Except.error (Except.error.inj hfirst.1), hfirst.2⟩
    · rw [hs, ht] at hfirst
      exact absurd hfirst.1 (by simp)
  · rcases ht : exec m' t with ⟨e' | a', t'⟩
    · rw [hs, ht] at hfirst
      exact absurd hfirst.1 (by simp)
    · rw [hs, ht] at hfirst
      rw [exec_bind_of_ok m f s s' a hs, exec_bind_of_ok m' g t t' a' ht, ← Except.ok.inj hfirst.1]
      exact hf a s' t' hfirst.2

theorem Agree.of_get (f g : σ → Action σ ε α) (h : ∀ s t, R s t → Agree R (f s) (g t)) :
    Agree R (get >>= f) (get >>= g) := by
  intro s t hst
  exact h s t hst s t hst

/-! ### Without a state -/

/-- A sequence without a state. -/
theorem ok_of_bind {x : Except ε α} {f : α → Except ε β} {b : β} (h : x >>= f = .ok b) :
    ∃ a, x = .ok a ∧ f a = .ok b := by
  cases x with
  | error => cases h
  | ok a => exact ⟨a, rfl, h⟩

theorem bind_of_ok {x : Except ε α} {a : α} (f : α → Except ε β) (h : x = .ok a) :
    x >>= f = f a := by
  rw [h]
  rfl

end Action

end LocalEmu
