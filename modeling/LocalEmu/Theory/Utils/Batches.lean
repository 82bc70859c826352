import Mathlib.Algebra.Order.BigOperators.Group.List
import Mathlib.Algebra.Order.Group.Nat
import Mathlib.Data.List.Induction
import Mathlib.Algebra.GroupWithZero.Nat
import LocalEmu.Core.Utils.Batching

/-!
# Batches Are Complete

A batcher hands out what was added to it, in order. Its flag is up exactly if
one of the limits was reached at a check since the last flush: between two
flushes the flag is only ever raised.

Cutting a list into batches by size is different. An item that is too large for
a batch of its own is pushed back before an empty batch, and an empty batch ends
the iteration. So the list is complete exactly if there is no such item.
-/

namespace LocalEmu.Batching

open List

namespace Batcher

variable {α : Type}

/-! ### Calls -/

def Call.added : Call α → List α
  | .add arg _ => arg.toList
  | _ => []

def Call.readings : Call α → List Rat
  | .add _ now => [now]
  | .flush _ now now' => [now, now']
  | .isTriggered now => [now]

/-- The reading of the check at the end of the call. -/
def Call.checkTime : Call α → Rat
  | .add _ now => now
  | .flush _ _ now' => now'
  | .isTriggered now => now

def Call.isFlush : Call α → Bool
  | .flush _ _ _ => true
  | _ => false

variable (b : Batcher α) (calls : List (Call α)) (now : Rat)

/-- There is no limit, or one of them is reached. -/
def Held : Prop :=
  (b.maxCount = none ∧ b.maxWindow = none) ∨
  (∃ n, b.maxCount = some n ∧ n ≤ b.batch.length) ∨
  ∃ w, b.maxWindow = some w ∧ w ≤ now - b.lastBatchTime

theorem checkBatchPolicy_eq : b.checkBatchPolicy now =
      { b with triggered := b.triggered || (b.checkBatchPolicy now).triggered } := by
  rw [checkBatchPolicy]
  split_ifs
  · simp
  · simp
  · simp
  · simp

theorem checkBatchPolicy_triggered (hnow : b.lastBatchTime ≤ now) :
    (b.checkBatchPolicy now).triggered = true ↔ b.triggered = true ∨ b.Held now := by
  have hcount : (b.maxCount.any fun n => decide (n ≤ b.batch.length)) = true ↔
      ∃ n, b.maxCount = some n ∧ n ≤ b.batch.length := by
    cases b.maxCount <;> simp
  have hwindow : (b.maxWindow.any fun w => decide (w ≤ now - b.lastBatchTime)) = true ↔
      ∃ w, b.maxWindow = some w ∧ w ≤ now - b.lastBatchTime := by
    cases b.maxWindow <;> simp
  rw [checkBatchPolicy, Held]
  split_ifs with h1 h2 h3
  · exact iff_of_true rfl (.inr (.inr (.inl (hcount.mp h1))))
  · exact iff_of_true rfl (.inr (.inr (.inr (hwindow.mp h2))))
  · refine iff_of_true rfl (.inr (.inl ?_))
    -- A limit of zero would have been reached before.
    constructor
    · cases hc : b.maxCount with
      | none => rfl
      | some n =>
        rw [hc] at h1 h3
        have hn : n = 0 := h3.1
        exact absurd (by simp [hn]) h1
    · cases hw : b.maxWindow with
      | none => rfl
      | some w =>
        rw [hw] at h2 h3
        have hzero : w = 0 := h3.2
        exact absurd (by simpa [hzero] using hnow) h2
  · rw [hcount] at h1
    rw [hwindow] at h2
    have hlimit : ¬ (b.maxCount = none ∧ b.maxWindow = none) := by
      rintro ⟨hc, hw⟩
      exact h3 (by simp [hc, hw])
    simp [h1, h2, hlimit]

theorem checkBatchPolicy_batch : (b.checkBatchPolicy now).batch = b.batch := by
  rw [checkBatchPolicy_eq]

theorem isTriggered_eq :
    b.isTriggered now = { b with triggered := b.triggered || (b.isTriggered now).triggered } := by
  rw [isTriggered]
  split
  · simp
  · exact checkBatchPolicy_eq b _

theorem isTriggered_triggered (hnow : b.lastBatchTime ≤ now) :
    (b.isTriggered now).triggered = true ↔ b.triggered = true ∨ b.Held now := by
  rw [isTriggered]
  by_cases h : b.triggered = true
  · rw [if_pos h]
    simp [h]
  · rw [if_neg h]
    exact b.checkBatchPolicy_triggered now hnow

variable (call : Call α)

theorem perform_append :
    (b.perform call).1 ++ (b.perform call).2.batch = b.batch ++ call.added := by
  cases call with
  | add =>
    rw [perform, add, isTriggered_eq]
    rfl
  | flush =>
    rw [perform, flush, checkBatchPolicy_batch]
    exact (take_append_drop _ _).trans (append_nil _).symm
  | isTriggered =>
    rw [perform, isTriggered_eq]
    exact (append_nil _).symm

/-! ### Runs -/

/-- Nothing is dropped or moved. -/
theorem flushed_append_batch :
    b.flushed calls ++ (b.after calls).batch = b.batch ++ calls.flatMap Call.added := by
  induction calls generalizing b with
  | nil => exact (append_nil _).symm
  | cons call calls ih =>
    rw [flushed, after, foldl_cons, ← after, append_assoc, ih, ← append_assoc,
      perform_append, flatMap_cons, append_assoc]

theorem after_concat : b.after (calls ++ [call]) = ((b.after calls).perform call).2 := by
  rw [after, foldl_append]
  rfl

theorem lastBatchTime_mem :
    (b.after calls).lastBatchTime ∈ b.lastBatchTime :: calls.flatMap Call.readings := by
  induction calls using reverseRecOn with
  | nil => exact mem_cons_self
  | append_singleton calls call ih =>
    rw [after_concat, flatMap_append]
    cases call with
    | add =>
      rw [perform, add, isTriggered_eq]
      exact mem_append_left _ ih
    | flush =>
      rw [perform, flush, checkBatchPolicy_eq]
      simp [Call.readings]
    | isTriggered =>
      rw [perform, isTriggered_eq]
      exact mem_append_left _ ih

def Clocked (start : Rat) (calls : List (Call α)) : Prop :=
  (start :: calls.flatMap Call.readings).Pairwise (· ≤ ·)

theorem Clocked.init {start : Rat} {calls : List (Call α)} {call : Call α}
    (h : Clocked start (calls ++ [call])) : Clocked start calls := by
  rw [Clocked, flatMap_append] at h
  exact (pairwise_append.mp h).1

theorem lastBatchTime_le {b : Batcher α} {calls : List (Call α)} {call : Call α}
    (h : Clocked b.lastBatchTime (calls ++ [call])) :
    ∀ now ∈ call.readings, (b.after calls).lastBatchTime ≤ now := by
  rw [Clocked, flatMap_append] at h
  intro now hnow
  exact (pairwise_append.mp h).2.2 _ (lastBatchTime_mem b _) now (by simpa using hnow)

/-- At a check since the last flush one of the limits was reached. -/
def HeldSince : Prop :=
  ∃ before call rest, calls = before ++ call :: rest ∧ (∀ c ∈ rest, c.isFlush = false) ∧
    (b.after (before ++ [call])).Held call.checkTime

theorem heldSince_concat :
    b.HeldSince (calls ++ [call]) ↔ (b.after (calls ++ [call])).Held call.checkTime ∨
      (call.isFlush = false ∧ b.HeldSince calls) := by
  constructor
  · rintro ⟨before, c, rest, hcalls, hrest, hheld⟩
    rcases eq_nil_or_concat' rest with rfl | ⟨rest, d, rfl⟩
    · rcases append_inj' hcalls rfl with ⟨rfl, hc⟩
      rw [singleton_inj.mp hc]
      exact .inl hheld
    · rw [← cons_append, ← append_assoc] at hcalls
      rcases append_inj' hcalls rfl with ⟨rfl, hc⟩
      rw [singleton_inj.mp hc]
      exact .inr ⟨hrest d (by simp), before, c, rest, rfl,
        fun e he => hrest e (mem_append_left _ he), hheld⟩
  · rintro (hheld | ⟨hflush, before, c, rest, rfl, hrest, hheld⟩)
    · exact ⟨calls, call, [], rfl, fun c hc => absurd hc not_mem_nil, hheld⟩
    · refine ⟨before, c, rest ++ [call], by simp, fun e he => ?_, hheld⟩
      rcases mem_append.mp he with he | he
      · exact hrest e he
      · rw [mem_singleton.mp he]
        exact hflush

-- The flag is up exactly if one of the limits was reached at a check since the last flush.
/-- When the flag is up. -/
theorem triggered_iff {b : Batcher α} (hb : b.triggered = false) {calls : List (Call α)}
    (h : Clocked b.lastBatchTime calls) :
    (b.after calls).triggered = true ↔ b.HeldSince calls := by
  induction calls using reverseRecOn with
  | nil =>
    refine iff_of_false (by simp [after, hb]) ?_
    rintro ⟨before, c, rest, hcalls, -⟩
    exact absurd hcalls (by simp)
  | append_singleton calls call ih =>
    have hle := lastBatchTime_le h
    have ih := ih h.init
    rw [heldSince_concat, ← ih, after_concat]
    cases call with
    | add arg now =>
      have hcheck := isTriggered_triggered
        { b.after calls with batch := (b.after calls).batch ++ arg.toList } _
        (hle _ mem_cons_self)
      have heq := isTriggered_eq
        { b.after calls with batch := (b.after calls).batch ++ arg.toList } now
      rw [perform, add, hcheck, heq]
      simp only [Call.isFlush, true_and, Held, Call.checkTime]
      exact or_comm
    | flush part now now' =>
      have hlater : now ≤ now' := by
        rw [Clocked, flatMap_append, ← cons_append] at h
        have hlast := (pairwise_append.mp h).2.1
        simpa [Call.readings] using hlast
      rw [perform, flush, checkBatchPolicy_triggered _ _ hlater, checkBatchPolicy_eq]
      simp [Call.isFlush, Held, Call.checkTime]
    | isTriggered now =>
      have hcheck := isTriggered_triggered _ _ (hle _ mem_cons_self)
      have heq := isTriggered_eq (b.after calls) now
      rw [perform, hcheck, heq]
      simp only [Call.isFlush, true_and, Held, Call.checkTime]
      exact or_comm

theorem length_flush_le (now' : Rat) {n : Nat} (hcount : b.maxCount = some n)
    (hn : 0 < n) : (b.flush true now now').1.length ≤ n := by
  have hne : ¬ (true = false ∨ n = 0) := by
    rintro (h | h)
    · cases h
    · omega
  simp only [flush, hcount, Option.getD_some, if_neg hne, length_take]
  omega

/-- What is claimed of every sequence of calls, with any limits: nothing is
    dropped or moved, a partial flush keeps the limit, and the flag is up exactly
    if one of the limits was reached since the last flush. -/
def Keeps (α : Type) : Prop :=
  ∀ (maxCount : Option Nat) (maxWindow : Option Rat) (start : Rat) (calls : List (Call α)),
    Clocked start calls →
    let b : Batcher α := new maxCount maxWindow start
    b.flushed calls ++ (b.after calls).batch = calls.flatMap Call.added ∧
    (∀ n now now', maxCount = some n → 0 < n →
      ((b.after calls).perform (.flush true now now')).1.length ≤ n) ∧
    ((b.after calls).triggered = true ↔ b.HeldSince calls)

theorem maxCount_after : (b.after calls).maxCount = b.maxCount := by
  induction calls using reverseRecOn with
  | nil => rfl
  | append_singleton calls call ih =>
    rw [after_concat]
    cases call with
    | add =>
      rw [perform, add, isTriggered_eq]
      exact ih
    | flush =>
      rw [perform, flush, checkBatchPolicy_eq]
      exact ih
    | isTriggered =>
      rw [perform, isTriggered_eq]
      exact ih

theorem keeps (α : Type) : Keeps α := by
  intro maxCount maxWindow start calls hclock
  refine ⟨flushed_append_batch _ _, fun n now now' hcount hn => ?_, triggered_iff rfl hclock⟩
  exact length_flush_le _ _ _ ((maxCount_after _ _).trans hcount) hn

end Batcher

/-! ### Batches by size -/

section Sizes

variable {α : Type} (size : α → Nat) (maxBytes : Nat)

/-- The batches are the whole list, and each of them keeps the limit unless it is a single item. -/
def Splits (items : List α) : Prop :=
  (batchedBySize size maxBytes items).flatten = items ∧
  ∀ batch ∈ batchedBySize size maxBytes items, (batch.map size).sum ≤ maxBytes ∨
    ∃ item, batch = [item] ∧ maxBytes < size item

theorem sum_takeBatch_le (current : Nat) (h : current ≤ maxBytes) (items : List α) :
    current + ((takeBatch size maxBytes current items).1.map size).sum ≤ maxBytes := by
  induction items generalizing current with
  | nil => simpa [takeBatch] using h
  | cons item rest ih =>
    rw [takeBatch]
    split
    · split
      · simpa using h
      · have hrest := ih (current + size item) (by omega)
        rw [map_cons, sum_cons]
        omega
    · simpa using h

theorem sum_batch_le (items : List α) :
    ∀ batch ∈ batchedBySize size maxBytes items, (batch.map size).sum ≤ maxBytes := by
  induction items using batchedBySize.induct size maxBytes with
  | case1 items h =>
    rw [batchedBySize, dif_pos h]
    exact fun batch hbatch => absurd hbatch not_mem_nil
  | case2 items h ih =>
    rw [batchedBySize, dif_neg h]
    intro batch hbatch
    rcases mem_cons.mp hbatch with rfl | hbatch
    · have hle := sum_takeBatch_le size maxBytes 0 (Nat.zero_le _) items
      omega
    · exact ih _ hbatch

theorem flatten_batches (hmax : 1 ≤ maxBytes) (items : List α)
    (hsize : ∀ item ∈ items, size item ≤ maxBytes) :
    (batchedBySize size maxBytes items).flatten = items := by
  induction items using batchedBySize.induct size maxBytes with
  | case1 items h =>
    rw [batchedBySize]
    -- The first item would fit into an empty batch.
    cases items with
    | nil => rfl
    | cons =>
      have hle := hsize _ mem_cons_self
      rw [takeBatch, if_pos (by omega), if_neg (by omega)] at h
      cases h
  | case2 items h ih =>
    have happend := takeBatch_append size maxBytes 0 items
    rw [batchedBySize, dif_neg h, flatten_cons, ih, happend]
    intro item hitem
    refine hsize _ ?_
    rw [← happend]
    exact mem_append_right _ hitem

theorem splits_iff (hmax : 1 ≤ maxBytes) (items : List α) :
    Splits size maxBytes items ↔ ∀ item ∈ items, size item ≤ maxBytes := by
  have hle := sum_batch_le size maxBytes items
  constructor
  · rintro ⟨hflatten, -⟩ item hitem
    rw [← hflatten] at hitem
    rcases mem_flatten.mp hitem with ⟨batch, hbatch, hmem⟩
    exact (le_sum_of_mem (mem_map_of_mem hmem)).trans (hle _ hbatch)
  · intro hsize
    exact ⟨flatten_batches _ _ hmax _ hsize, fun batch hbatch => .inl (hle _ hbatch)⟩

end Sizes

/-- Batchers keep what is claimed of them in every run, and the batches of a list
    do so exactly if none of its items is too large by itself. -/
theorem batches_complete_iff (α : Type) {β : Type} (size : β → Nat) (maxBytes : Nat)
    (hmax : 1 ≤ maxBytes) (items : List β) :
    (Batcher.Keeps α ∧ Splits size maxBytes items) ↔ ∀ item ∈ items, size item ≤ maxBytes := by
  rw [splits_iff _ _ hmax]
  exact ⟨fun h => h.2, fun h => ⟨Batcher.keeps α, h⟩⟩

theorem batches_complete_of_small : Splits id 10 [4, 5, 6] :=
  ((batches_complete_iff Nat id 10 (by decide) [4, 5, 6]).mpr (by decide)).2

/-- The large item and the one after it are dropped. -/
theorem large_item_dropped :
    batchedBySize id 10 [4, 11, 5] = [[4]] ∧ ¬ Splits id 10 [4, 11, 5] := by
  refine ⟨by simp [batchedBySize, takeBatch], fun h => ?_⟩
  have hall := (splits_iff id 10 (by decide) [4, 11, 5]).mp h
  exact absurd (hall 11 (by decide)) (by decide)

end LocalEmu.Batching
