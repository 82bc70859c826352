import LocalEmu.Base.Run
import LocalEmu.Core.Utils.Batching

/-!
# What The Batcher Hands Over

Nothing is duplicated and nothing is reordered: at every moment, the batches of
the handler, the batch that is on its way to it and the buffer make up the items
that were accepted. What may happen is that `run` returns and leaves items in
the buffer behind.

Whether it does is decided by the moment in which `close` sets the flag. If
`run` has passed the condition of its loop then, it will wait, wake up and flush
the buffer before it reads the flag. If it has not, it reads the flag first and
returns.
-/

namespace LocalEmu.Batching.World

open Option

variable {α : Type}

/-! ### Steps -/

variable (w : World α) (b : AsyncBatcher α)

theorem add_eq (item : α) (h : b.closed = false) :
    ∃ b' : AsyncBatcher α, b.add item = .ok b' ∧ b'.buffer = b.buffer ++ [item] ∧
      b'.closed = false := by
  simp only [AsyncBatcher.add, h, Bool.false_eq_true, if_false]
  by_cases hsize : b.maxBatchSize ≤ (b.buffer ++ [item]).length
  · rw [if_pos hsize]
    exact ⟨_, rfl, rfl, rfl⟩
  · rw [if_neg hsize]
    exact ⟨_, rfl, rfl, rfl⟩

theorem afterAdd_open (item : α) (h : w.batcher.closed = false) :
    (w.afterAdd item).batcher.buffer = w.batcher.buffer ++ [item] ∧
      (w.afterAdd item).batcher.closed = false ∧
      (w.afterAdd item).accepted = w.accepted ++ [item] ∧
      (w.afterAdd item).batches = w.batches ∧ (w.afterAdd item).control = w.control := by
  rcases add_eq _ item h with ⟨b', hadd, hbuffer, hclosed⟩
  simp only [afterAdd, hadd]
  exact ⟨hbuffer, hclosed, trivial, trivial, trivial⟩

theorem afterAdd_closed (item : α) (h : w.batcher.closed = true) : w.afterAdd item = w := by
  simp only [afterAdd, AsyncBatcher.add, h, if_true]

theorem close_closed : b.close.closed = true := by
  by_cases h : b.closed = true
  · rw [AsyncBatcher.close, if_pos h, h]
  · rw [AsyncBatcher.close, if_neg h]
    rfl

theorem close_buffer : b.close.buffer = b.buffer := by
  by_cases h : b.closed = true
  · rw [AsyncBatcher.close, if_pos h]
  · rw [AsyncBatcher.close, if_neg h]
    rfl

/-- What a step can do. -/
inductive Change (w : World α) : Label α → World α → Prop
  | add (item : α) : Change w (.add item) (w.afterAdd item)
  | close : Change w .close { w with batcher := w.batcher.close }
  | start (hc : w.control = .notStarted) : Change w .start { w with control := .check }
  | check (hc : w.control = .check) : Change w .check
      { w with control := if w.batcher.closed then .returned else .acquire }
  | acquire (hc : w.control = .acquire) : Change w .acquire
      { w with batcher := { w.batcher with flushLock := some false }, control := .wait }
  | wake (hc : w.control = .wait) : Change w .wake w.afterWake
  | call (batch : List α) (hc : w.control = .flushed batch) : Change w .call
      { w with control := .handling, batches := w.batches ++ [batch] }
  | handled (hc : w.control = .handling) : Change w .handled { w with control := .check }

/-- What a step can do. -/
theorem change_of_step {w v : World α} {i : Label α} (h : Takes step w i v) : Change w i v := by
  rw [Takes] at h
  cases i with
  | add item =>
    cases h
    exact .add item
  | close =>
    cases h
    exact .close
  | _ =>
    simp only [step] at h
    split at h
    · next hc =>
      cases h
      first
        | exact .start hc
        | exact .check hc
        | exact .acquire hc
        | exact .wake hc
        | exact .call _ hc
        | exact .handled hc
    · cases h

/-! ### The items -/

/-- The batch that is on its way to the handler. -/
def pending : List α :=
  match w.control with
  | .flushed batch => batch
  | _ => []

/-- The items that were accepted are those handed over, those on their way and
    those in the buffer, in this order. -/
def Ordered : Prop :=
  w.batches.flatten ++ w.pending ++ w.batcher.buffer = w.accepted

variable (i : Label α) (v : World α)

/-- What was handed over, what is on its way and what is in the buffer. -/
theorem step_ordered (h : w.Ordered) (hstep : Takes step w i v) : v.Ordered := by
  rw [Ordered] at h ⊢
  cases change_of_step hstep with
  | add item =>
    by_cases hclosed : w.batcher.closed = true
    · rw [afterAdd_closed w _ hclosed]
      exact h
    · rcases afterAdd_open w _ (Bool.not_eq_true _ ▸ hclosed) with
        ⟨hbuffer, -, haccepted, hbatches, hcontrol⟩
      rw [hbuffer, haccepted, hbatches, pending, hcontrol, ← List.append_assoc]
      exact congrArg (· ++ [item]) h
  | close =>
    rw [← h, ← close_buffer]
    rfl
  | check hc =>
    by_cases hclosed : w.batcher.closed = true
    · simpa [pending, hc, hclosed] using h
    · simpa [pending, hc, hclosed] using h
  | wake hc =>
    -- What was in the buffer is now on its way.
    by_cases hempty : w.batcher.buffer = []
    · simpa [afterWake, pending, hc, hempty] using h
    · simpa [afterWake, pending, hc, hempty] using h
  | start hc | acquire hc | call _ hc | handled hc => simpa [pending, hc] using h

/-! ### The end of a run -/

/-- The items in the buffer are flushed before `run` reads the flag again, or there are none. -/
def Settled : Prop :=
  w.batcher.buffer = [] ∨ w.control = .acquire ∨ w.control = .wait

instance (w : World α) [DecidableEq α] : Decidable w.Settled :=
  inferInstanceAs (Decidable (_ ∨ _ ∨ _))

theorem step_settled_iff (hclosed : w.batcher.closed = true) (hstep : Takes step w i v) :
    v.batcher.closed = true ∧ (v.Settled ↔ w.Settled) := by
  cases change_of_step hstep with
  | add item =>
    rw [afterAdd_closed w _ hclosed]
    exact ⟨hclosed, Iff.rfl⟩
  | close =>
    refine ⟨close_closed _, ?_⟩
    rw [Settled, Settled, close_buffer]
  | check hc => exact ⟨hclosed, by simp [Settled, hc, hclosed]⟩
  | wake hc =>
    by_cases hempty : w.batcher.buffer = []
    · exact ⟨by simpa [afterWake, hempty] using hclosed,
        by simp [Settled, afterWake, hc, hempty]⟩
    · exact ⟨by simpa [afterWake, hempty] using hclosed,
        by simp [Settled, afterWake, hc, hempty]⟩
  | start hc | acquire hc | call _ hc | handled hc => exact ⟨hclosed, by simp [Settled, hc]⟩

theorem runs_settled_iff {w v : World α} {labels : List (Label α)}
    (h : Runs (Takes step) w labels v) (hclosed : w.batcher.closed = true) :
    v.Settled ↔ w.Settled := by
  refine (h.invariant (P := fun u => u.batcher.closed = true ∧ (u.Settled ↔ w.Settled))
    ?_ ⟨hclosed, Iff.rfl⟩).2
  intro u i u' hu hstep
  rcases step_settled_iff u i u' hu.1 hstep with ⟨hclosed', hiff⟩
  exact ⟨hclosed', hiff.trans hu.2⟩

theorem step_closes {w v : World α} {i : Label α} (hopen : w.batcher.closed = false)
    (hclosed : v.batcher.closed = true) (hstep : Takes step w i v) :
    i = .close ∧ v = { w with batcher := w.batcher.close } := by
  cases change_of_step hstep with
  | add item =>
    rw [(afterAdd_open w _ hopen).2.1] at hclosed
    exact absurd hclosed Bool.false_ne_true
  | close => exact ⟨rfl, rfl⟩
  | wake =>
    rw [afterWake] at hclosed
    split at hclosed
    · exact absurd (hopen.symm.trans hclosed) Bool.false_ne_true
    · exact absurd (hopen.symm.trans hclosed) Bool.false_ne_true
  | _ => exact absurd (hopen.symm.trans hclosed) Bool.false_ne_true

theorem step_returned_closed (h : w.control = .returned → w.batcher.closed = true)
    (hstep : Takes step w i v) :
    v.control = .returned → v.batcher.closed = true := by
  cases change_of_step hstep with
  | add item =>
    by_cases hclosed : w.batcher.closed = true
    · rw [afterAdd_closed w _ hclosed]
      exact h
    · have hopen := afterAdd_open w item (Bool.not_eq_true _ ▸ hclosed)
      intro hreturned
      exact absurd (h (hopen.2.2.2.2 ▸ hreturned)) hclosed
  | close => exact fun _ => close_closed _
  | check =>
    by_cases hclosed : w.batcher.closed = true
    · exact fun _ => hclosed
    · simp [hclosed]
  | wake =>
    rw [afterWake]
    split
    · simp
    · simp
  | _ => simp

/-- When `run` has returned, the handler got every item whose `add` returned, in
    order, if and only if the batcher was settled at the moment it was closed. -/
theorem batcher_complete_iff (maxBatchSize : Int) (labels : List (Label α)) (w : World α)
    (hrun : Runs (Takes step) (initial maxBatchSize) labels w) (hreturned : w.control = .returned) :
    w.batches.flatten = w.accepted ↔
      ∀ before after u, labels = before ++ .close :: after →
        Runs (Takes step) (initial maxBatchSize) before u → u.batcher.closed = false →
        u.Settled := by
  have hordered : w.Ordered := hrun.invariant step_ordered rfl
  have hclosed : w.batcher.closed = true :=
    hrun.invariant (P := fun u => u.control = .returned → u.batcher.closed = true)
      step_returned_closed (by simp [initial]) hreturned
  have hleft : w.batches.flatten = w.accepted ↔ w.Settled := by
    rw [← hordered]
    simp [pending, Settled, hreturned]
  rw [hleft]
  constructor
  · intro hsettled before after u hlabels hbefore hopen
    -- The labels up to the call lead to one state only, so the run goes through it.
    rcases Runs.split _ _ (hlabels ▸ hrun) with ⟨u', hbefore', hrest⟩
    rw [hbefore.unique hbefore']
    cases hrest with
    | cons _ v _ _ _ hclose hafter =>
      have hv : v = { u' with batcher := u'.batcher.close } := (some.inj hclose).symm
      have hiff := runs_settled_iff hafter (by rw [hv]; exact close_closed _)
      rw [hiff, hv, Settled, close_buffer] at hsettled
      exact hsettled
  · intro h
    rcases hrun.turn (P := fun u => u.batcher.closed = true) (by simp [initial]) hclosed with
      ⟨before, i, after, u, v, rfl, hbefore, hopen, hstep, hv, hafter⟩
    rw [Bool.not_eq_true] at hopen
    rcases step_closes hopen hv hstep with ⟨rfl, rfl⟩
    rw [runs_settled_iff hafter hv, Settled, close_buffer]
    exact h _ _ u rfl hbefore hopen

/-- The batcher is closed while `run` waits. -/
def waitingLabels : List (Label Nat) :=
  [.start, .check, .acquire, .add 1, .close, .wake, .call, .handled, .check]

theorem batcher_complete_of_waiting : ∃ w : World Nat,
    Runs (Takes step) (initial 20) waitingLabels w ∧ w.control = .returned ∧
      (w.batches.flatten = w.accepted ↔
        ∀ before after u, waitingLabels = before ++ .close :: after →
          Runs (Takes step) (initial 20) before u → u.batcher.closed = false → u.Settled) := by
  have hrun : Runs (Takes step) (initial 20) waitingLabels
      ⟨⟨20, [], true, none⟩, .returned, [[1]], [1]⟩ := Runs.of_takeAll _ _ _ (by decide)
  exact ⟨_, hrun, rfl, batcher_complete_iff 20 _ _ hrun rfl⟩

/-- An item is added and the batcher is closed while the handler is busy with the first batch. -/
def busyLabels : List (Label Nat) :=
  [.start, .check, .acquire, .add 1, .wake, .call, .add 2, .close, .handled, .check]

/-- The second item was accepted, and `run` returned without handing it over. -/
theorem batcher_item_left_behind : ∃ w : World Nat,
    takeAll step (initial 20) busyLabels = some w ∧ w.control = .returned ∧
      w.accepted = [1, 2] ∧ w.batches.flatten ≠ w.accepted :=
  ⟨⟨⟨20, [2], true, none⟩, .returned, [[1]], [1, 2]⟩, by decide, rfl, rfl, by decide⟩

end LocalEmu.Batching.World
