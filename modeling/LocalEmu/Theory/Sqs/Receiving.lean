import LocalEmu.Theory.Sqs.Holding

/-!
# Receiving, Accepting and Deleting

What `put`, `receive`, `update_visibility_timeout` and `remove` do to the
messages a queue holds, as far as both queue types do it alike.

A `receive` has two halves. The first takes messages off the queue, each into
`successful` or into `dead_letter_messages`, and `Collecting` says what has
been taken and what has been written to the message objects on the way. The
second hands the successful ones over. Both queue types share the body of the
first loop and all of the second, so one round of each is analysed here and
the two loops only have to say which message they take next.
-/

namespace LocalEmu.Sqs

open List

open QueueKind LawfulQueueKind

/-! ### Message objects -/

variable (b : SqsQueue) (r : Ref)

@[simp] theorem modify_objects (r' : Ref) (f : SqsMessage → SqsMessage) :
    (b.modify r f).objects r' = if r' = r then f (b.objects r) else b.objects r' := by
  exact Function.update_apply _ r _ r'

variable (f : SqsMessage → SqsMessage)

theorem modify_objects_self : (b.modify r f).objects r = f (b.objects r) := by
  rw [modify_objects, if_pos rfl]

theorem modify_objects_ne (r' : Ref) (f : SqsMessage → SqsMessage)
    (h : r' ≠ r) : (b.modify r f).objects r' = b.objects r' := by
  rw [modify_objects, if_neg h]

theorem modify_modify (g : SqsMessage → SqsMessage) :
    (b.modify r f).modify r g = b.modify r fun m => g (f m) := by
  unfold SqsQueue.modify
  simp

/-- What taking a message does to its object. -/
def taken (exceeds : Bool) (visibilityTimeout : Int) (t₀ t₁ : ℚ) (m : SqsMessage) :
    SqsMessage :=
  if exceeds then m.markReceived visibilityTimeout t₀ t₁
  else (m.markReceived visibilityTimeout t₀ t₁).incrementApproximateReceiveCount

/-- The test of a taken message against the redrive policy. -/
def SqsQueue.exceedsNext : Bool :=
  match b.maxReceiveCount with
  | none => false
  | some n => decide (n ≠ 0 ∧ n < ((b.objects r).receiveCount + 1 : Nat))

theorem take_eq {Q : Type} [QueueKind Q] (numMessages visibilityTimeout : Int) (now : Nat → ℚ)
    (c : Collected Q)
    (r : Ref) (hlive : ((base c.queue).objects r).deleted = false) :
    Collected.take numMessages visibilityTimeout now c r =
      ({ queue := setBase c.queue ((base c.queue).modify r
           (taken ((base c.queue).exceedsNext r) visibilityTimeout (now c.reads)
             (now (c.reads + 1))))
         successful := if (base c.queue).exceedsNext r then c.successful else c.successful ++ [r]
         deadLetterMessages := if (base c.queue).exceedsNext r then c.deadLetterMessages ++ [r]
           else c.deadLetterMessages
         reads := c.reads + 2 },
        !(base c.queue).exceedsNext r &&
          decide (((c.successful ++ [r]).length : Int) = numMessages)) := by
  have hexc : ∀ t₀ t₁, ((base c.queue).modify r
      fun m => m.markReceived visibilityTimeout t₀ t₁).exceedsMaxReceiveCount
        (((base c.queue).modify r fun m => m.markReceived visibilityTimeout t₀ t₁).objects r) =
      (base c.queue).exceedsNext r := by
    intro t₀ t₁
    rw [modify_objects_self]
    rfl
  unfold Collected.take
  simp only [hlive, Bool.false_eq_true, if_false, hexc, modify_modify]
  cases (base c.queue).exceedsNext r with
  | false | true => rfl

theorem modify_field {α : Type} (field : SqsMessage → α) (b : SqsQueue) (r : Ref)
    (f : SqsMessage → SqsMessage) (hf : ∀ m, field (f m) = field m) (r' : Ref) :
    field ((b.modify r f).objects r') = field (b.objects r') := by
  rw [modify_objects]
  by_cases h : r' = r
  · rw [if_pos h, hf, h]
  · rw [if_neg h]

theorem priority_modify
    (hf : ∀ m, (f m).priority = m.priority) : (b.modify r f).priority = b.priority := by
  ext r'
  exact modify_field _ b r f hf r'

/-! ### Expiry -/

theorem removeExpiredLoop_spec (threshold : ℚ) : ∀ (fuel : Nat) (heap : List Ref),
      ((removeExpiredLoop b threshold fuel heap).1 ++
        (removeExpiredLoop b threshold fuel heap).2).Perm heap ∧
      (Heapq.IsHeap b.priority heap →
        Heapq.IsHeap b.priority (removeExpiredLoop b threshold fuel heap).1) := by
  intro fuel
  induction fuel with
  | zero =>
    intro heap
    unfold removeExpiredLoop
    rw [append_nil]
    exact ⟨List.Perm.refl heap, fun h => h⟩
  | succ fuel ih =>
    intro heap
    unfold removeExpiredLoop
    cases hpop : Heapq.heappop b.priority heap with
    | none =>
      simp only [append_nil]
      exact ⟨List.Perm.refl heap, fun h => h⟩
    | some e =>
      rcases e with ⟨r, rest⟩
      have hperm := Heapq.heappop_perm _ heap _ r hpop
      simp only
      split
      · simp only [append_nil]
        exact ⟨List.Perm.refl heap, fun h => h⟩
      · rcases ih _ with ⟨h1, h2⟩
        refine ⟨?_, fun h => h2 (Heapq.isHeap_heappop _ heap _ r h hpop)⟩
        refine List.Perm.trans ?_ hperm.symm
        exact perm_middle.trans (List.Perm.cons r h1)

theorem removeExpiredMessagesFromHeap_perm (heap : List Ref) (now : ℚ) :
    ((removeExpiredMessagesFromHeap b heap now).1 ++
      (removeExpiredMessagesFromHeap b heap now).2).Perm heap :=
  (removeExpiredLoop_spec b _ heap.length heap).1

theorem isHeap_removeExpiredMessagesFromHeap (heap : List Ref) (now : ℚ)
    (h : Heapq.IsHeap b.priority heap) :
    Heapq.IsHeap b.priority (removeExpiredMessagesFromHeap b heap now).1 :=
  (removeExpiredLoop_spec b _ heap.length heap).2 h

/-! ### Calls that do not raise -/

section Inversion

variable {Q : Type} [QueueKind Q]

/-- What a change of a visibility timeout that does not raise has done. -/
theorem updateVisibilityTimeout_ok (q q' : Q) (h : ReceiptHandle) (visibilityTimeout : Int)
    (now : ℚ) (hok : updateVisibilityTimeout q h visibilityTimeout now = .ok q') :
    ∃ r, (base q).receipts h = some r ∧
      (((base q).isInflight r = false ∧ q' = q) ∨
       ((base q).isInflight r = true ∧ visibilityTimeout ≠ 0 ∧
          q' = setBase q ((base q).modify r
            fun m => m.updateVisibilityTimeout visibilityTimeout now)) ∨
       ((base q).isInflight r = true ∧ visibilityTimeout = 0 ∧
          q' = requeueMessage (setBase q ((base q).modify r
            fun m => m.updateVisibilityTimeout 0 now)) r)) := by
  unfold updateVisibilityTimeout at hok
  cases hv : (base q).validateReceiptHandle h with
  | error =>
    rw [hv] at hok
    cases hok
  | ok _ =>
    rw [hv] at hok
    simp only [bind, Except.bind] at hok
    cases hr : (base q).receipts h with
    | none =>
      rw [hr] at hok
      cases hok
    | some r =>
      rw [hr] at hok
      refine ⟨r, rfl, ?_⟩
      cases hin : (base q).isInflight r with
      | false =>
        simp only [hin, Bool.false_eq_true, if_false, Except.ok.injEq] at hok
        exact .inl ⟨rfl, hok.symm⟩
      | true =>
        simp only [hin, if_true] at hok
        by_cases hzero : visibilityTimeout = 0
        · subst hzero
          simp only [if_true, Except.ok.injEq] at hok
          exact .inr (.inr ⟨rfl, rfl, hok.symm⟩)
        · simp only [if_neg hzero, Except.ok.injEq] at hok
          exact .inr (.inl ⟨rfl, hzero, hok.symm⟩)

/-- A queue whose message `r` is marked as deleted and has lost its receipt handles. -/
def markDeleted (q : Q) (r : Ref) : Q :=
  let q := setBase q ((base q).modify r fun m => { m with deleted := true })
  setBase q ((base q).dropReceiptHandles r)

/-- What a call that does not raise has done. -/
theorem remove_ok (q q' : Q) (h : ReceiptHandle) (now : ℚ) (removed : Option Ref)
    (hok : remove q h now = .ok (q', removed)) :
    ((base q).receipts h = none ∧ removed = none ∧ q' = q) ∨
      ∃ r, (base q).receipts h = some r ∧ removed = some r ∧
        preDeleteChecks q r h now = .ok () ∧ q' = onRemoveMessage (markDeleted q r) r := by
  unfold remove at hok
  cases hv : (base q).validateReceiptHandle h with
  | error =>
    rw [hv] at hok
    cases hok
  | ok =>
    rw [hv] at hok
    simp only [bind, Except.bind] at hok
    cases hr : (base q).receipts h with
    | none =>
      rw [hr] at hok
      simp only [Except.ok.injEq, Prod.mk.injEq] at hok
      exact .inl ⟨rfl, hok.2.symm, hok.1.symm⟩
    | some r =>
      rw [hr] at hok
      simp only at hok
      cases hp : preDeleteChecks q r h now with
      | error =>
        rw [hp] at hok
        cases hok
      | ok =>
        rw [hp] at hok
        simp only [Except.ok.injEq, Prod.mk.injEq] at hok
        exact .inr ⟨r, rfl, hok.2.symm, hp, hok.1.symm⟩

/-- What handing messages over leaves alone. -/
structure Handover (q q' : Q) : Prop where
  core : ∀ r, ((base q').objects r).core = ((base q).objects r).core
  arn : (base q').arn = (base q).arn
  attributes : (base q').attributes = (base q).attributes
  nextRef : (base q').nextRef = (base q).nextRef
  delayed : (base q').delayed = (base q).delayed

theorem Handover.trans {q q' q'' : Q} (h : Handover q q') (h' : Handover q' q'') :
    Handover q q'' :=
  ⟨fun r => (h'.core r).trans (h.core r), h'.arn.trans h.arn, h'.attributes.trans h.attributes,
    h'.nextRef.trans h.nextRef, h'.delayed.trans h.delayed⟩

end Inversion

variable {Q : Type} [QueueKind Q] [LawfulQueueKind Q] {hand : Multiset Ref}

/-! ### Accepting a message -/

@[simp] theorem alloc_objects (b : SqsQueue) (m : SqsMessage) (r : Ref) :
    (b.alloc m).objects r = if r = b.nextRef then m else b.objects r := by
  exact Function.update_apply _ _ m r

theorem alloc_objects_of_lt (b : SqsQueue) (m : SqsMessage) (r : Ref) (hr : r < b.nextRef) :
    (b.alloc m).objects r = b.objects r := by
  rw [alloc_objects, if_neg (Nat.ne_of_lt hr)]

/-- Creating a message with a fresh id puts it in hand. -/
theorem sound_alloc (q : Q) (h : Sound hand q) (m : SqsMessage) (hlive : m.deleted = false)
    (hfresh : ∀ r, r < (base q).nextRef → (base q).messageId r ≠ m.message.messageId) :
    Sound ({(base q).nextRef} + hand) (setBase q ((base q).alloc m)) := by
  have hb := base_setBase q ((base q).alloc m)
  have hheld : held (setBase q ((base q).alloc m)) = held q := by
    unfold held
    rw [visible_setBase, hb]
    rfl
  have hnew : (base q).nextRef ∉ hand + held q := fun hc => Nat.lt_irrefl _ (h.lt _ hc)
  refine ⟨?_, ?_, ?_, ?_, ?_⟩
  · rw [hheld, add_assoc, Multiset.singleton_add, Multiset.nodup_cons]
    exact ⟨hnew, h.nodup⟩
  · intro r hr
    rw [hheld, add_assoc, Multiset.singleton_add, Multiset.mem_cons] at hr
    rw [hb]
    show r < (base q).nextRef + 1
    rcases hr with rfl | hr
    · exact Nat.lt_succ_self _
    · exact Nat.lt_succ_of_lt (h.lt r hr)
  · intro r r' hr hr' he
    rw [hb] at hr hr' he
    have hold : ∀ x, x ≠ (base q).nextRef → x < ((base q).alloc m).nextRef →
        x < (base q).nextRef := fun x hx hlt => Nat.lt_of_le_of_ne (Nat.le_of_lt_succ hlt) hx
    simp only [SqsQueue.messageId, alloc_objects] at he
    by_cases h1 : r = (base q).nextRef
    · by_cases h2 : r' = (base q).nextRef
      · rw [h1, h2]
      · rw [if_pos h1, if_neg h2] at he
        exact absurd he.symm (hfresh r' (hold r' h2 hr'))
    · by_cases h2 : r' = (base q).nextRef
      · rw [if_neg h1, if_pos h2] at he
        exact absurd he (hfresh r (hold r h1 hr))
      · rw [if_neg h1, if_neg h2] at he
        exact h.ids r r' (hold r h1 hr) (hold r' h2 hr') he
  · intro r hr
    rw [hheld, add_assoc, Multiset.singleton_add, Multiset.mem_cons] at hr
    rw [hb, alloc_objects]
    rcases hr with rfl | hr
    · rw [if_pos rfl]
      exact hlive
    · rw [if_neg (fun hc => hnew (by rw [← hc]; exact hr))]
      exact h.live r hr
  · intro k r hk
    rw [hb] at hk ⊢
    have hk := h.receipts k r hk
    exact ⟨Nat.lt_succ_of_lt hk.1, hk.2⟩

theorem held_putMessage (q : Q) (r : Ref) : held (putMessage q r) = {r} + held q := by
  unfold held
  rw [visible_putMessage, base_putMessage]
  abel

/-- Putting a message in hand somewhere. -/
theorem sound_putMessage (q : Q) (r : Ref) (h : Sound ({r} + hand) q) :
    Sound hand (putMessage q r) := by
  have hb := base_putMessage q r
  refine h.of_le (le_of_eq ?_) (by rw [hb]) (fun _ => by rw [hb]) (fun _ _ => by rw [hb])
    (fun k r' hk => ?_)
  · rw [held_putMessage]
    abel
  · rw [hb] at hk ⊢
    exact h.receipts k r' hk

theorem addDelayed_delayed (q : Q) (r : Ref) (h : Sound ({r} + hand) q) :
    (base q).addDelayed r = { base q with delayed := (base q).delayed ++ [r] } := by
  have hr := h.hand_lt r (Multiset.mem_add.mpr (.inl (Multiset.mem_singleton_self r)))
  have hnot : r ∉ (base q).delayed := fun hc =>
    h.not_held_of_hand (Multiset.mem_add.mpr (.inl (Multiset.mem_singleton_self r)))
      ((mem_held q r).mpr (.inl hc))
  unfold SqsQueue.addDelayed
  rw [if_neg (fun hc => hnot ((any_sameMessage _ h.ids r hr _ h.delayed_lt).mp hc))]

theorem addInflightMessage_inflight (q : Q) (r : Ref) (h : Sound ({r} + hand) q) :
    (base q).addInflightMessage r = { base q with inflight := (base q).inflight ++ [r] } := by
  have hr := h.hand_lt r (Multiset.mem_add.mpr (.inl (Multiset.mem_singleton_self r)))
  have hnot : r ∉ (base q).inflight := fun hc =>
    h.not_held_of_hand (Multiset.mem_add.mpr (.inl (Multiset.mem_singleton_self r)))
      ((mem_held q r).mpr (.inr (.inr hc)))
  unfold SqsQueue.addInflightMessage
  rw [if_neg (fun hc => hnot ((h.isInflight_iff r hr).mp hc))]

theorem held_addDelayed (q : Q) (r : Ref) (h : Sound ({r} + hand) q) :
    held (setBase q ((base q).addDelayed r)) = {r} + held q := by
  unfold held
  rw [visible_setBase, base_setBase, addDelayed_delayed q r h]
  simp only [← Multiset.coe_add, Multiset.coe_singleton]
  abel

theorem held_addInflightMessage (q : Q) (r : Ref) (h : Sound ({r} + hand) q) :
    held (setBase q ((base q).addInflightMessage r)) = {r} + held q := by
  unfold held
  rw [visible_setBase, base_setBase, addInflightMessage_inflight q r h]
  simp only [← Multiset.coe_add, Multiset.coe_singleton]
  abel

theorem sound_addDelayed (q : Q) (r : Ref) (h : Sound ({r} + hand) q)
    (hrec : ∀ k, (base q).receipts k ≠ some r) :
    Sound hand (setBase q ((base q).addDelayed r)) := by
  have hb : base (setBase q ((base q).addDelayed r)) =
      { base q with delayed := (base q).delayed ++ [r] } := by
    rw [base_setBase, addDelayed_delayed q r h]
  refine h.of_le (le_of_eq ?_) (by rw [hb]) (fun _ => by rw [hb]; rfl) (fun _ _ => by rw [hb])
    (fun k r' hk => ?_)
  · rw [held_addDelayed q r h]
    abel
  · rw [hb] at hk ⊢
    refine ⟨(h.receipts k r' hk).1, fun hc => ?_⟩
    rcases mem_append.mp hc with hc | hc
    · exact (h.receipts k r' hk).2 hc
    · exact hrec k (by rw [← mem_singleton.mp hc]; exact hk)

theorem sound_addInflightMessage (q : Q) (r : Ref) (h : Sound ({r} + hand) q) :
    Sound hand (setBase q ((base q).addInflightMessage r)) := by
  have hb : base (setBase q ((base q).addInflightMessage r)) =
      { base q with inflight := (base q).inflight ++ [r] } := by
    rw [base_setBase, addInflightMessage_inflight q r h]
  refine h.of_le (le_of_eq ?_) (by rw [hb]) (fun _ => by rw [hb]; rfl) (fun _ _ => by rw [hb])
    (fun k r' hk => ?_)
  · rw [held_addInflightMessage q r h]
    abel
  · rw [hb] at hk ⊢
    exact h.receipts k r' hk

/-! ### Taking messages off the queue -/

/-- What a `receive` loop that started on `q` has done so far. -/
structure Collecting (visibilityTimeout : Int) (now : Nat → ℚ) (q : Q) (c : Collected Q) :
    Prop where
  frame : base c.queue = { base q with objects := (base c.queue).objects }
  visible : visible c.queue + (c.successful + c.deadLetterMessages : Multiset Ref) = visible q
  kept : ∀ r, r ∉ c.successful → r ∉ c.deadLetterMessages →
    (base c.queue).objects r = (base q).objects r
  successful : ∀ r ∈ c.successful, (base q).exceedsNext r = false ∧ ∃ k,
    (base c.queue).objects r =
      taken false visibilityTimeout (now k) (now (k + 1)) ((base q).objects r)
  deadLetter : ∀ r ∈ c.deadLetterMessages, (base q).exceedsNext r = true ∧ ∃ k,
    (base c.queue).objects r =
      taken true visibilityTimeout (now k) (now (k + 1)) ((base q).objects r)

theorem collecting_start (visibilityTimeout : Int) (now : Nat → ℚ) (q : Q) :
    Collecting visibilityTimeout now q (Collected.start q) := by
  refine ⟨rfl, ?_, fun _ _ _ => rfl, ?_, ?_⟩
  · show LawfulQueueKind.visible q + (0 + 0 : Multiset Ref) = _
    rw [add_zero, add_zero]
  · intro r hr
    exact absurd hr not_mem_nil
  · intro r hr
    exact absurd hr not_mem_nil

section Collecting

variable {visibilityTimeout : Int} {now : Nat → ℚ} {q : Q} {c : Collected Q}

theorem Collecting.untouched (h : Collecting visibilityTimeout now q c) (hs : Sound hand q)
    (r : Ref) (hr : r ∈ LawfulQueueKind.visible c.queue) :
    r ∉ c.successful ∧ r ∉ c.deadLetterMessages ∧
      (base c.queue).objects r = (base q).objects r := by
  have hn := hs.visible_nodup
  rw [← h.visible] at hn
  have hd := Multiset.disjoint_left.mp (Multiset.nodup_add.mp hn).2.2 hr
  rw [Multiset.mem_add, not_or] at hd
  exact ⟨hd.1, hd.2, h.kept r hd.1 hd.2⟩

/-- One round of a `receive` loop. The loop has taken `r` off the queue,
    which is what the step from `c.queue` to `q'` says. -/
theorem collecting_take (h : Collecting visibilityTimeout now q c) (hs : Sound hand q)
    (numMessages : Int) (r : Ref) (q' : Q) (hbase : base q' = base c.queue)
    (hvis : LawfulQueueKind.visible c.queue = {r} + LawfulQueueKind.visible q') :
    Collecting visibilityTimeout now q
      (Collected.take numMessages visibilityTimeout now { c with queue := q' } r).1 := by
  have hmem : r ∈ LawfulQueueKind.visible c.queue := by
    rw [hvis]
    exact Multiset.mem_cons_self r _
  rcases h.untouched hs r hmem with ⟨hsucc, hdead, hobj⟩
  have hin : r ∈ LawfulQueueKind.visible q := by
    rw [← h.visible]
    exact Multiset.mem_add.mpr (.inl hmem)
  have hlive : ((base c.queue).objects r).deleted = false := by
    rw [hobj]
    exact hs.live r (Multiset.mem_add.mpr (.inr ((mem_held q r).mpr (.inr (.inl hin)))))
  have hexc : (base c.queue).exceedsNext r = (base q).exceedsNext r := by
    unfold SqsQueue.exceedsNext SqsQueue.maxReceiveCount
    rw [hobj, h.frame]
  rw [take_eq _ _ _ { c with queue := q' } r (by rw [hbase]; exact hlive)]
  simp only [hbase, hexc]
  -- Only the object of the message just taken has changed.
  have hother : ∀ r', r' ≠ r → ∀ f, ((base c.queue).modify r f).objects r' =
      (base c.queue).objects r' := fun r' hr' f => modify_objects_ne _ r r' f hr'
  refine ⟨?_, ?_, ?_, ?_, ?_⟩
  · show base (setBase q' _) = _
    rw [base_setBase]
    unfold SqsQueue.modify
    rw [h.frame]
  · show LawfulQueueKind.visible (setBase q' _) + _ = _
    rw [visible_setBase, ← h.visible, hvis]
    cases (base q).exceedsNext r with
    | false =>
      simp only [Bool.false_eq_true, if_false, ← Multiset.coe_add, Multiset.coe_singleton]
      abel
    | true =>
      simp only [if_true, ← Multiset.coe_add, Multiset.coe_singleton]
      abel
  · intro r' h1 h2
    have hne : r' ≠ r := by
      intro hc
      subst hc
      revert h1 h2
      cases (base q).exceedsNext r' with
      | false =>
        exact fun h1 _ => h1 (mem_append_right _ (mem_singleton_self r'))
      | true =>
        exact fun _ h2 => h2 (mem_append_right _ (mem_singleton_self r'))
    show (base (setBase q' _)).objects r' = _
    rw [base_setBase, hother r' hne]
    refine h.kept r' (fun hc => h1 ?_) (fun hc => h2 ?_)
    · simp only
      split
      · exact hc
      · exact mem_append_left _ hc
    · simp only
      split
      · exact mem_append_left _ hc
      · exact hc
  · intro r' hr'
    show (base q).exceedsNext r' = false ∧ ∃ k, (base (setBase q' _)).objects r' = _
    rw [base_setBase]
    by_cases hne : r' = r
    · subst hne
      cases he : (base q).exceedsNext r' with
      | false => exact ⟨rfl, c.reads, by rw [modify_objects_self, hobj]⟩
      | true =>
        simp only [he, if_true] at hr'
        exact absurd hr' hsucc
    · rw [hother r' hne]
      refine h.successful r' ?_
      split at hr'
      · exact hr'
      · rcases mem_append.mp hr' with hr' | hr'
        · exact hr'
        · exact absurd (mem_singleton.mp hr') hne
  · intro r' hr'
    show (base q).exceedsNext r' = true ∧ ∃ k, (base (setBase q' _)).objects r' = _
    rw [base_setBase]
    by_cases hne : r' = r
    · subst hne
      cases he : (base q).exceedsNext r' with
      | true => exact ⟨rfl, c.reads, by rw [modify_objects_self, hobj]⟩
      | false =>
        simp only [he, Bool.false_eq_true, if_false] at hr'
        exact absurd hr' hdead
    · rw [hother r' hne]
      refine h.deadLetter r' ?_
      split at hr'
      · rcases mem_append.mp hr' with hr' | hr'
        · exact hr'
        · exact absurd (mem_singleton.mp hr') hne
      · exact hr'

theorem Collecting.inflight (h : Collecting visibilityTimeout now q c) :
    (base c.queue).inflight = (base q).inflight := by
  rw [h.frame]

theorem Collecting.delayed (h : Collecting visibilityTimeout now q c) :
    (base c.queue).delayed = (base q).delayed := by
  rw [h.frame]

theorem Collecting.nextRef (h : Collecting visibilityTimeout now q c) :
    (base c.queue).nextRef = (base q).nextRef := by
  rw [h.frame]

theorem Collecting.field {α : Type} (h : Collecting visibilityTimeout now q c)
    (f : SqsMessage → α) (hf : ∀ exceeds t₀ t₁ m, f (taken exceeds visibilityTimeout t₀ t₁ m) = f m)
    (r : Ref) : f ((base c.queue).objects r) = f ((base q).objects r) := by
  by_cases h1 : r ∈ c.successful
  · rcases (h.successful r h1).2 with ⟨k, hk⟩
    rw [hk, hf]
  · by_cases h2 : r ∈ c.deadLetterMessages
    · rcases (h.deadLetter r h2).2 with ⟨k, hk⟩
      rw [hk, hf]
    · rw [h.kept r h1 h2]

theorem Collecting.priority (h : Collecting visibilityTimeout now q c) :
    (base c.queue).priority = (base q).priority := by
  ext r
  refine h.field _ (fun exceeds t₀ t₁ m => ?_) r
  cases exceeds with
  | false | true => rfl

/-- After the loop the taken messages are in hand. -/
theorem Collecting.sound (h : Collecting visibilityTimeout now q c) (hs : Sound hand q) :
    Sound ((c.successful : Multiset Ref) + ((c.deadLetterMessages : Multiset Ref) + hand))
      c.queue := by
  have hheld : held q = ((c.successful : Multiset Ref) + c.deadLetterMessages) +
      held c.queue := by
    unfold held
    rw [← h.visible, h.frame]
    abel
  refine hs.of_le (le_of_eq ?_) (by rw [h.frame]) (fun r => ?_) (fun r _ => ?_) (fun k r hk => ?_)
  · rw [hheld]
    abel
  · refine h.field (fun m => m.message.messageId) (fun exceeds t₀ t₁ m => ?_) r
    cases exceeds with
    | false | true => rfl
  · refine h.field _ (fun exceeds t₀ t₁ m => ?_) r
    cases exceeds with
    | false | true => rfl
  · rw [h.frame] at hk ⊢
    exact hs.receipts k r hk

end Collecting

/-! ### Handing messages over -/

theorem registerReceiptHandle_core (b : SqsQueue) (r r' : Ref) :
    ((b.registerReceiptHandle r).1.objects r').core = (b.objects r').core := by
  unfold SqsQueue.registerReceiptHandle
  simp
  by_cases h : r' = r
  · rw [if_pos h, h]
    rfl
  · rw [if_neg h]

theorem core_congr {α : Type} (f : SqsMessage → α) (hf : ∀ m : SqsMessage, f m.core = f m)
    {m m' : SqsMessage} (h : m.core = m'.core) : f m = f m' := by
  rw [← hf m, ← hf m', h]

theorem sound_registerReceiptHandle (q : Q) (r : Ref) (h : Sound ({r} + hand) q) :
    Sound ({r} + hand) (setBase q ((base q).registerReceiptHandle r).1) := by
  have hb := base_setBase q ((base q).registerReceiptHandle r).1
  have hmem : r ∈ {r} + hand := Multiset.mem_add.mpr (.inl (Multiset.mem_singleton_self r))
  have hheld : held (setBase q ((base q).registerReceiptHandle r).1) = held q := by
    unfold held
    rw [visible_setBase, hb]
    rfl
  refine h.of_le (by rw [hheld]) (by rw [hb]; rfl) (fun r' => ?_) (fun r' _ => ?_)
    (fun k r' hk => ?_)
  · rw [hb]
    exact core_congr (fun m => m.message.messageId) (fun _ => rfl)
      (registerReceiptHandle_core _ r r')
  · rw [hb]
    exact core_congr _ (fun _ => rfl) (registerReceiptHandle_core _ r r')
  · rw [hb] at hk ⊢
    show r' < (base q).nextRef ∧ r' ∉ (base q).delayed
    unfold SqsQueue.registerReceiptHandle at hk
    simp only [Function.update_apply] at hk
    split at hk
    · -- The new handle belongs to the message in hand.
      rw [← Option.some.inj hk]
      exact ⟨h.hand_lt r hmem, fun hc =>
        h.not_held_of_hand hmem ((mem_held q r).mpr (.inl hc))⟩
    · exact h.receipts k r' hk

theorem deliverMessage_spec (s : Q × List ReceiptHandle) (r : Ref)
    (h : Sound ({r} + hand) s.1) :
    Sound hand (deliverMessage s r).1 ∧ held (deliverMessage s r).1 = {r} + held s.1 ∧
      Handover s.1 (deliverMessage s r).1 := by
  have hs := sound_registerReceiptHandle s.1 r h
  have hb := base_setBase s.1 ((base s.1).registerReceiptHandle r).1
  have hheld : held (setBase s.1 ((base s.1).registerReceiptHandle r).1) = held s.1 := by
    unfold held
    rw [visible_setBase, hb]
    rfl
  unfold deliverMessage
  simp only
  split
  · refine ⟨sound_putMessage _ r hs, by rw [held_putMessage, hheld], ?_⟩
    have hbase := (base_putMessage _ r).trans hb
    refine ⟨fun r' => ?_, by rw [hbase]; rfl, by rw [hbase]; rfl, by rw [hbase]; rfl,
      by rw [hbase]; rfl⟩
    rw [hbase]
    exact registerReceiptHandle_core _ r r'
  · refine ⟨sound_addInflightMessage _ r hs, by rw [held_addInflightMessage _ r hs, hheld], ?_⟩
    have hadd := addInflightMessage_inflight _ r hs
    refine ⟨fun r' => ?_, ?_, ?_, ?_, ?_⟩
    · rw [base_setBase, hadd, hb]
      exact registerReceiptHandle_core _ r r'
    · rw [base_setBase, hadd, hb]
      rfl
    · rw [base_setBase, hadd, hb]
      rfl
    · rw [base_setBase, hadd, hb]
      rfl
    · rw [base_setBase, hadd, hb]
      rfl

/-- The second half of `receive`. -/
theorem foldl_deliverMessage_spec (l : List Ref) : ∀ (s : Q × List ReceiptHandle),
    Sound ((l : Multiset Ref) + hand) s.1 →
      Sound hand (l.foldl deliverMessage s).1 ∧
      held (l.foldl deliverMessage s).1 = (l : Multiset Ref) + held s.1 ∧
      Handover s.1 (l.foldl deliverMessage s).1 := by
  induction l with
  | nil =>
    intro s h
    rw [Multiset.coe_nil, zero_add] at h
    refine ⟨h, ?_, fun _ => rfl, rfl, rfl, rfl, rfl⟩
    rw [Multiset.coe_nil, zero_add]
    rfl
  | cons r l ih =>
    intro s h
    rw [← Multiset.cons_coe, ← Multiset.singleton_add, add_assoc] at h
    rcases deliverMessage_spec s r h with ⟨h1, h2, h3⟩
    rcases ih _ h1 with ⟨h4, h5, h6⟩
    refine ⟨h4, ?_, h3.trans h6⟩
    rw [foldl_cons, h5, h2, ← Multiset.cons_coe, ← Multiset.singleton_add]
    abel

/-! ### Deleting -/

theorem visible_markDeleted (q : Q) (r : Ref) : visible (markDeleted q r) = visible q := by
  unfold markDeleted
  simp only [visible_setBase]

theorem base_markDeleted (q : Q) (r : Ref) :
    base (markDeleted q r) = { base q with
      objects := Function.update (base q).objects r
        { (base q).objects r with deleted := true, receiptHandles := [] }
      receipts := fun h => if h ∈ ((base q).objects r).receiptHandles then none
        else (base q).receipts h } := by
  unfold markDeleted SqsQueue.dropReceiptHandles
  simp only [base_setBase, modify_objects_self]
  unfold SqsQueue.modify
  simp

theorem markDeleted_field {α : Type} (f : SqsMessage → α)
    (hf : ∀ m : SqsMessage, f { m with deleted := true, receiptHandles := [] } = f m) (q : Q)
    (r r' : Ref) : f ((base (markDeleted q r)).objects r') = f ((base q).objects r') := by
  have hobj : (base (markDeleted q r)).objects r' =
      if r' = r then { (base q).objects r with deleted := true, receiptHandles := [] }
      else (base q).objects r' := by
    rw [base_markDeleted]
    exact Function.update_apply (base q).objects r _ r'
  rw [hobj]
  by_cases h : r' = r
  · rw [if_pos h, hf, h]
  · rw [if_neg h]

end LocalEmu.Sqs
