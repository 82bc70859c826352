import Mathlib.Algebra.Order.BigOperators.Group.List
import Mathlib.Algebra.Order.Group.Nat
import Mathlib.Algebra.GroupWithZero.Nat
import LocalEmu.Base.Run

/-!
# Pools Of Threads

Any number of threads that share a state. A thread has a state of its own, and
one of its steps changes both; what a step does is atomic, so that a step is a
section under a lock or a single read. At any moment a new thread may be
started, and any of those there may take a step.

What counts here is counting: a shared counter is right if it agrees with the
number of threads that are in a certain state, and a step changes that number by
what it does to the one thread that takes it.
-/

namespace LocalEmu

open List Option

variable {σ τ ι : Type}

/-- A shared state and the states of the threads. -/
structure Pool (σ τ : Type) where
  shared : σ
  threads : List τ

namespace Pool

/-- A thread is started, or one of them takes a step. -/
inductive Label (τ ι : Type)
  | spawn (thread : τ)
  | act (n : Nat) (i : ι)

/-- One step of a pool whose threads run `f`. -/
def step (f : σ → τ → ι → Option (σ × τ)) (p : Pool σ τ) : Label τ ι → Option (Pool σ τ)
  | .spawn thread => some ⟨p.shared, p.threads ++ [thread]⟩
  | .act n i =>
    p.threads[n]?.bind fun thread =>
      (f p.shared thread i).map fun next => ⟨next.1, p.threads.set n next.2⟩

variable {f : σ → τ → ι → Option (σ × τ)}

/-- What a step can do. -/
theorem step_cases {p q : Pool σ τ} {label : Label τ ι} (h : Takes (step f) p label q) :
    (∃ thread, label = .spawn thread ∧ q = ⟨p.shared, p.threads ++ [thread]⟩) ∨
    (∃ n i thread s thread', label = .act n i ∧ p.threads[n]? = some thread ∧
      f p.shared thread i = some (s, thread') ∧ q = ⟨s, p.threads.set n thread'⟩) := by
  cases label with
  | spawn thread => exact .inl ⟨thread, rfl, (some.inj h).symm⟩
  | act n i =>
    rcases bind_eq_some_iff.mp h with ⟨thread, hget, hmap⟩
    rcases map_eq_some_iff.mp hmap with ⟨⟨s, thread'⟩, hf, rfl⟩
    exact .inr ⟨n, i, thread, s, thread', rfl, hget, hf, rfl⟩

/-- How a step changes the number of threads with a property. -/
theorem count_spawn (P : τ → Bool) (threads : List τ) (thread : τ) :
    (threads ++ [thread]).countP P = threads.countP P + (P thread).toNat := by
  rw [countP_append, countP_singleton]
  cases P thread with
  | false | true => rfl

theorem count_act (P : τ → Bool) (threads : List τ) (n : Nat) (thread thread' : τ)
    (h : threads[n]? = some thread) :
    (threads.set n thread').countP P + (P thread).toNat =
      threads.countP P + (P thread').toNat := by
  induction threads generalizing n with
  | nil => cases h
  | cons first rest ih =>
    cases n with
    | zero =>
      have hfirst : first = thread := some.inj h
      rw [set_cons_zero, countP_cons, countP_cons, hfirst]
      cases P thread <;> cases P thread' <;> simp
    | succ n =>
      have hrest := ih n h
      rw [set_cons_succ, countP_cons, countP_cons]
      omega

/-- How a step changes the sum of a weight over the threads. -/
theorem sum_act {M : Type} [AddCommMonoid M] (weight : τ → M) (threads : List τ) (n : Nat)
    (thread thread' : τ) (h : threads[n]? = some thread) :
    ((threads.set n thread').map weight).sum + weight thread =
      (threads.map weight).sum + weight thread' := by
  induction threads generalizing n with
  | nil => cases h
  | cons first rest ih =>
    cases n with
    | zero =>
      have hfirst : first = thread := some.inj h
      rw [set_cons_zero, map_cons, sum_cons, map_cons, sum_cons,
        hfirst, add_right_comm, add_comm (weight thread'), add_right_comm]
    | succ n =>
      rw [set_cons_succ, map_cons, sum_cons, map_cons, sum_cons, add_assoc, add_assoc, ih n h]

theorem mem_set {threads : List τ} {n : Nat} {thread' t : τ} (h : t ∈ threads.set n thread') :
    t = thread' ∨ t ∈ threads := by
  rcases mem_or_eq_of_mem_set h with h | h
  · exact .inr h
  · exact .inl h

theorem getElem?_set_cases {threads : List τ} {n i : Nat} {thread' t : τ}
    (h : (threads.set n thread')[i]? = some t) :
    (i = n ∧ t = thread') ∨ (i ≠ n ∧ threads[i]? = some t) := by
  rw [getElem?_set] at h
  split at h
  · next heq =>
      split at h
      · exact .inl ⟨heq.symm, (some.inj h).symm⟩
      · cases h
  · next hne => exact .inr ⟨fun heq => hne heq.symm, h⟩

theorem getElem?_append_cases {threads : List τ} {i : Nat} {thread t : τ}
    (h : (threads ++ [thread])[i]? = some t) : t = thread ∨ threads[i]? = some t := by
  rw [getElem?_append] at h
  split_ifs at h with hlt
  · exact .inr h
  · exact .inl (mem_singleton.mp (mem_of_getElem? h))

end Pool

/-- If everything that is counted is counted under one of several headings, then
    the headings together count at least as much. -/
theorem countP_le_sum {α β : Type} (l : List α) (headings : List β) (P : α → Bool)
    (Q : β → α → Bool) (h : ∀ a ∈ l, P a = true → ∃ b ∈ headings, Q b a = true) :
    l.countP P ≤ (headings.map fun b => l.countP (Q b)).sum := by
  induction l with
  | nil => simp
  | cons a l ih =>
    have hrest := ih fun b hb => h b (mem_cons_of_mem a hb)
    have hsplit : (headings.map fun b => (a :: l).countP (Q b)).sum =
        (headings.map fun b => l.countP (Q b)).sum +
          (headings.map fun b => (Q b a).toNat).sum := by
      rw [← sum_map_add]
      refine congrArg sum (map_congr_left fun b _ => ?_)
      rw [countP_cons]
      cases Q b a <;> simp
    rw [countP_cons]
    by_cases hP : P a = true
    · -- The heading that counts `a` contributes one.
      rcases h a mem_cons_self hP with ⟨b, hb, hQ⟩
      have hone : 1 ≤ (headings.map fun b => (Q b a).toNat).sum := by
        have hmem : 1 ∈ headings.map fun b => (Q b a).toNat := mem_map.mpr ⟨b, hb, by rw [hQ]; rfl⟩
        exact le_sum_of_mem hmem
      rw [if_pos hP]
      omega
    · rw [if_neg hP]
      omega

end LocalEmu
