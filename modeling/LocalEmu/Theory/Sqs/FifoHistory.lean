import LocalEmu.Theory.Sqs.FifoRun

/-!
# Histories of a FIFO Queue

What a FIFO queue remembers along a run in which no message expires.

`Outcome` lists what an operation can have done, once for all the properties
below: nothing, enqueue a message, hand messages out, delete one, move the
deadline of one, or move messages back among the visible ones. Every result
of this module is a case distinction over it.

The properties are those the order of deliveries rests on. The queue agrees
with its history, in the sense of `Accounted`. The messages are numbered in
the order of their creation times. No group is stale, since groups only
become empty by being received from. And a group with a message in flight is
never lost: it waits in the queue or it is in flight itself.
-/

namespace LocalEmu.Sqs.FifoQueue

open List

open QueueKind LawfulQueueKind

/-- The operations that let no message expire. -/
def Op.keeps : Op → Bool
  | .removeExpiredMessages => false
  | .clear => false
  | _ => true

/-- What an operation that ended by time `t` has done. -/
inductive Outcome (owed : Multiset Ref) (t : ℚ) (q : FifoQueue) :
    Op → (Nat → ℚ) → Event → FifoQueue → Prop
  | idle (op : Op) (now : Nat → ℚ) : Outcome owed t q op now {} q
  | enqueued (message : Message) (visibilityTimeout : Option Int)
      (messageDeduplicationId messageGroupId : Option String) (delaySeconds : Option Int)
      (sequenceNumber : Nat) (now : Nat → ℚ) (dedupId : String) (m : SqsMessage)
      (hnew : m.deleted = false ∧ m.receiveCount = 0 ∧ m.visibilityDeadline = none)
      (hstamp : m.priority = now 0 ∧ m.created = now 1 ∧
        m.delaySeconds = some q.attributes.delaySeconds)
      (hfresh : ∀ r, r < q.nextRef → q.messageId r ≠ m.message.messageId) :
      Outcome owed t q (.put message visibilityTimeout messageDeduplicationId messageGroupId
        delaySeconds sequenceNumber) now { accepted := some q.nextRef }
        (q.enqueue dedupId m (now 2))
  | received (numMessages : Int) (visibilityTimeout : Option Int) (now : Nat → ℚ)
      (c : Collected FifoQueue)
      (hrec : Receiving owed (visibilityTimeout.getD q.attributes.visibilityTimeout) now q c) :
      Outcome owed t q (.receive numMessages visibilityTimeout) now
        { successful := c.successful, deadLetterMessages := c.deadLetterMessages }
        (deliverMessages c).1
  | receivedMessage (numMessages : Int) (visibilityTimeout : Option Int) (now : Nat → ℚ)
      (c : Collected FifoQueue)
      (hrec : Receiving owed (visibilityTimeout.getD q.attributes.visibilityTimeout) now q c) :
      Outcome owed t q (.receiveMessage numMessages visibilityTimeout) now
        { successful := c.successful, deadLetterMessages := c.deadLetterMessages }
        ((deliverMessages c).1.releaseDeadLetters c.deadLetterMessages)
  | removed (receiptHandle : ReceiptHandle) (now : Nat → ℚ) (r : Ref) (hlt : r < q.nextRef)
      (hdelayed : r ∉ q.delayed) (hvis : r ∉ visible q) :
      Outcome owed t q (.remove receiptHandle) now { removed := some r }
        ((setBase (markDeleted q r)
          ((markDeleted q r).delInflight r)).updateMessageGroupVisibility (q.groupId r))
  | postponed (receiptHandle : ReceiptHandle) (visibilityTimeout : Int) (now : Nat → ℚ) (r : Ref)
      (hr : r ∈ q.inflight) :
      Outcome owed t q (.updateVisibilityTimeout receiptHandle visibilityTimeout) now {}
        (setBase q (q.modify r fun m => m.updateVisibilityTimeout visibilityTimeout (now 0)))
  | terminated (receiptHandle : ReceiptHandle) (visibilityTimeout : Int) (now : Nat → ℚ)
      (r : Ref) (hr : r ∈ q.inflight) :
      Outcome owed t q (.updateVisibilityTimeout receiptHandle visibilityTimeout) now {}
        (requeueMessage (setBase q (q.modify r fun m => m.updateVisibilityTimeout 0 (now 0))) r)
  | requeued (now : Nat → ℚ) (l : List Ref) (hn : l.Nodup) (hl : ∀ r ∈ l, r ∈ q.inflight) :
      Outcome owed t q .requeueInflightMessages now {} (l.foldl requeueMessage q)
  | undelayed (order : List Ref) (now : Nat → ℚ) (hperm : order.Perm q.delayed) :
      Outcome owed t q (.enqueueDelayedMessages order) now {}
        ((selectAt now (fun r t => !(q.objects r).isDelayed t) order).foldl
          enqueueDelayedMessage q)

variable (sha256 : String → String) {owed : Multiset Ref} {t : ℚ}

variable (q : FifoQueue)

/-- Every operation has one of the outcomes. -/
theorem step_outcome (q' : FifoQueue) (t t' : ℚ) (c : Call) (h : Tidy t owed 0 q)
    (hstep : Step sha256 (q, t) c (q', t')) (hkeeps : c.op.keeps = true) :
    Outcome owed t' q c.op c.now c.event q' := by
  rcases c with ⟨op, now, e⟩
  rcases hstep with ⟨hadm, -, hclock, hstep⟩
  simp only at hadm hclock hstep hkeeps ⊢
  cases op with
  | put message visibilityTimeout messageDeduplicationId messageGroupId delaySeconds
      sequenceNumber =>
      have hcases := put_cases sha256 q message visibilityTimeout messageDeduplicationId
        messageGroupId delaySeconds sequenceNumber now
      unfold step at hstep
      rcases hcases with ⟨-, x, hput⟩ | ⟨-, x, -, -, hput⟩ | ⟨-, -, hput⟩
      · simp only [hput, Prod.mk.injEq] at hstep
        rcases hstep with ⟨rfl, rfl⟩
        exact Outcome.idle _ _
      · simp only [hput, Bool.false_eq_true, if_false, Prod.mk.injEq] at hstep
        rcases hstep with ⟨rfl, rfl⟩
        exact Outcome.idle _ _
      · simp only [hput, if_true, Prod.mk.injEq] at hstep
        rcases hstep with ⟨rfl, rfl⟩
        exact Outcome.enqueued message visibilityTimeout messageDeduplicationId messageGroupId
          delaySeconds sequenceNumber now _ _ ⟨rfl, rfl, rfl⟩ ⟨rfl, rfl, rfl⟩ hadm
  | receive numMessages visibilityTimeout =>
    rcases hstep with ⟨rfl, rfl⟩
    exact Outcome.received numMessages visibilityTimeout now _ (receiving_receive q _ _ _ h)
  | receiveMessage numMessages visibilityTimeout =>
    rcases hstep with ⟨rfl, rfl⟩
    exact Outcome.receivedMessage numMessages visibilityTimeout now _ (receiving_receive q _ _ _ h)
  | remove receiptHandle =>
    unfold step at hstep
    simp only at hstep
    split at hstep
    · next q₁ removed hok =>
        simp only [Prod.mk.injEq] at hstep
        rcases hstep with ⟨rfl, rfl⟩
        rcases remove_spec q _ _ _ (hclock 0).1 _ h hok with
          ⟨rfl, rfl⟩ | ⟨r, rfl, hlt, hdelayed, hvis, rfl⟩
        · exact Outcome.idle _ _
        · exact Outcome.removed receiptHandle now r hlt hdelayed hvis
    · simp only [Prod.mk.injEq] at hstep
      rcases hstep with ⟨rfl, rfl⟩
      exact Outcome.idle _ _
  | updateVisibilityTimeout receiptHandle visibilityTimeout =>
    unfold step at hstep
    simp only at hstep
    split at hstep
    · next q₁ hok =>
        simp only [Prod.mk.injEq] at hstep
        rcases hstep with ⟨rfl, rfl⟩
        rcases updateVisibilityTimeout_ok q _ _ _ _ hok with
          ⟨r, hr, ⟨-, rfl⟩ | ⟨hin, -, rfl⟩ | ⟨hin, -, rfl⟩⟩
        · exact Outcome.idle _ _
        · exact Outcome.postponed receiptHandle visibilityTimeout now r
            ((h.sound.isInflight_iff r (h.sound.receipts _ r hr).1).mp hin)
        · exact Outcome.terminated receiptHandle visibilityTimeout now r
            ((h.sound.isInflight_iff r (h.sound.receipts _ r hr).1).mp hin)
    · simp only [Prod.mk.injEq] at hstep
      rcases hstep with ⟨rfl, rfl⟩
      exact Outcome.idle _ _
  | requeueInflightMessages =>
    rcases hstep with ⟨rfl, rfl⟩
    rw [requeueInflightMessages_eq]
    have hsub := expiredPrefix_sublist q now
    exact Outcome.requeued now _ (hsub.nodup h.sound.inflight_nodup) (fun r hr => hsub.mem hr)
  | enqueueDelayedMessages order =>
    rcases hstep with ⟨rfl, rfl⟩
    exact Outcome.undelayed order now hadm
  | removeExpiredMessages | clear =>
    cases hkeeps

/-! ### Effects -/

theorem enqueue_base (dedupId : String) (m : SqsMessage) (now : ℚ) :
    ∃ q₁ : FifoQueue, (q.enqueue dedupId m now).toSqsQueue = q₁.toSqsQueue ∧
      (q.enqueue dedupId m now).messageGroups = q₁.messageGroups ∧
      (q.enqueue dedupId m now).messageGroupQueue = q₁.messageGroupQueue ∧
      (q.enqueue dedupId m now).inflightGroups = q₁.inflightGroups ∧
      ((m.isDelayed now = true ∧
          q₁ = setBase (setBase q (q.alloc m)) ((q.alloc m).addDelayed q.nextRef)) ∨
       (m.isDelayed now = false ∧ q₁ = (setBase q (q.alloc m)).putMessage q.nextRef)) := by
  unfold enqueue
  cases hdel : m.isDelayed now with
  | true =>
    exact ⟨setBase (setBase q (q.alloc m)) ((q.alloc m).addDelayed q.nextRef), rfl, rfl, rfl,
      rfl, .inl ⟨rfl, rfl⟩⟩
  | false =>
    exact ⟨(setBase q (q.alloc m)).putMessage q.nextRef, rfl, rfl, rfl, rfl, .inr ⟨rfl, rfl⟩⟩

/-- What making groups visible does: a group moves only when it has no message in flight. -/
structure Released (q q' : FifoQueue) : Prop where
  base : q'.toSqsQueue = q.toSqsQueue
  groups : q'.messageGroups = q.messageGroups
  stale : ∀ g, q'.Stale g → q.Stale g
  placed : ∀ g, q.Placed g → q'.Placed g ∨ ∀ r ∈ q.inflight, q.groupId r ≠ g
  queue : ∀ g ∈ q'.messageGroupQueue, g ∈ q.messageGroupQueue ∨
    ∀ r ∈ q.inflight, q.groupId r ≠ g

theorem released_of_eq {q q' : FifoQueue} (hb : q'.toSqsQueue = q.toSqsQueue)
    (hgroups : q'.messageGroups = q.messageGroups)
    (hqueue : q'.messageGroupQueue = q.messageGroupQueue)
    (hin : q'.inflightGroups = q.inflightGroups) : Released q q' := by
  refine ⟨hb, hgroups, fun g h => ?_, fun g h => .inl ?_, fun g h => .inl ?_⟩
  · unfold Stale group at h ⊢
    rw [hqueue, hgroups] at h
    exact h
  · unfold Placed at h ⊢
    rw [hqueue, hin]
    exact h
  · rw [← hqueue]
    exact h

theorem Released.trans {q q' q'' : FifoQueue} (h1 : Released q q') (h2 : Released q' q'') :
    Released q q'' := by
  have hid : q'.groupId = q.groupId := by
    unfold groupId
    rw [h1.base]
  have hin : q'.inflight = q.inflight := by rw [h1.base]
  refine ⟨h2.base.trans h1.base, h2.groups.trans h1.groups, fun g h => h1.stale g (h2.stale g h),
    fun g h => ?_, fun g h => ?_⟩
  · rcases h1.placed g h with h | h
    · rw [← hid, ← hin]
      exact h2.placed g h
    · exact .inr h
  · rcases h2.queue g h with h | h
    · exact h1.queue g h
    · rw [hid, hin] at h
      exact .inr h

theorem released_updateMessageGroupVisibility (g : String) :
    Released q (q.updateMessageGroupVisibility g) := by
  rcases updateMessageGroupVisibility_frame q g with ⟨hb, hm, hstale⟩
  refine ⟨hb, hm, hstale, ?_, ?_⟩
  · intro g' hg'
    unfold updateMessageGroupVisibility Placed
    by_cases hin : g ∈ q.inflightGroups
    · rw [if_pos hin]
      by_cases hany : q.inflight.any (fun r => q.groupId r == g) = true
      · rw [if_pos hany]
        exact .inl hg'
      · rw [if_neg hany]
        by_cases hgg : g' = g
        · refine .inr (fun r hr hc => hany (any_eq_true.mpr ⟨r, hr, ?_⟩))
          rw [hc, hgg]
          exact beq_self_eq_true g
        · refine .inl ?_
          simp only
          split
          · exact hg'.imp_right fun h => Finset.mem_erase.mpr ⟨hgg, h⟩
          · exact hg'.imp (fun h => mem_append_left _ h)
              fun h => Finset.mem_erase.mpr ⟨hgg, h⟩
    · rw [if_neg hin]
      exact .inl hg'
  · intro g' hg'
    unfold updateMessageGroupVisibility at hg'
    by_cases hin : g ∈ q.inflightGroups
    · rw [if_pos hin] at hg'
      by_cases hany : q.inflight.any (fun r => q.groupId r == g) = true
      · rw [if_pos hany] at hg'
        exact .inl hg'
      · rw [if_neg hany] at hg'
        simp only at hg'
        split at hg'
        · exact .inl hg'
        · rcases mem_append.mp hg' with h | h
          · exact .inl h
          · refine .inr (fun r hr hc => hany (any_eq_true.mpr ⟨r, hr, ?_⟩))
            rw [hc, mem_singleton.mp h]
            exact beq_self_eq_true g
    · rw [if_neg hin] at hg'
      exact .inl hg'

variable (l : List Ref)

theorem released_releaseDeadLetters : ∀ (q : FifoQueue), Released q (q.releaseDeadLetters l) := by
  induction l with
  | nil => exact fun q => released_of_eq rfl rfl rfl rfl
  | cons r l ih =>
    intro q
    exact (released_updateMessageGroupVisibility q _).trans (ih _)

theorem visible_congr {q q' : FifoQueue} (h : q'.messageGroups = q.messageGroups) :
    visible q' = visible q := by
  show q'.messageGroups.total _ = q.messageGroups.total _
  rw [h]

variable {now : Nat → ℚ}

/-- The effect of an outcome. -/
theorem effect_outcome {q q' : FifoQueue} {op : Op} {e : Event}
    (hs : Sound 0 q) (h : Outcome owed t q op now e q') : Effect q e q' := by
  cases h with
  | idle => exact effect_refl q hs
  | enqueued _ _ _ _ _ _ _ dedupId m hnew _ hfresh =>
    rcases enqueue_base q _ m _ with ⟨q₁, h1, h2, -, -, h3⟩
    suffices heff : Effect q { accepted := some q.nextRef } q₁ from heff.congr h1 (visible_congr h2)
    refine effect_accept q hs m hnew.1 hnew.2.1 hfresh _ ?_
    rcases h3 with ⟨-, rfl⟩ | ⟨-, rfl⟩
    · exact .inl rfl
    · exact .inr rfl
  | received _ _ _ c hrec => exact effect_receive _ _ q c hrec.collecting hs
  | receivedMessage _ _ _ c hrec =>
    have hrel := released_releaseDeadLetters c.deadLetterMessages (deliverMessages c).1
    exact (effect_receive _ _ q c hrec.collecting hs).congr hrel.base (visible_congr hrel.groups)
  | removed _ _ r hlt hdelayed hvis =>
    have hrel := released_updateMessageGroupVisibility
      (setBase (markDeleted q r) ((markDeleted q r).delInflight r)) (q.groupId r)
    have heff := effect_remove q (setBase (markDeleted q r) ((markDeleted q r).delInflight r)) hs r
      hlt rfl (held_delInflight_markDeleted q hs r hlt hdelayed hvis)
    exact heff.congr hrel.base (visible_congr hrel.groups)
  | postponed _ visibilityTimeout _ r =>
    exact effect_modify q hs r _ (fun _ => rfl) (fun _ => rfl) (fun _ => rfl)
  | terminated _ _ _ r hr =>
    have hmod : Effect q {} (setBase q ((base q).modify r
        fun m => m.updateVisibilityTimeout 0 (now 0))) :=
      effect_modify q hs r _ (fun _ => rfl) (fun _ => rfl) (fun _ => rfl)
    refine hmod.trans_quiet
      (effect_putBack _ putsBack_requeue hmod.sound [r] (nodup_singleton r) ?_)
    intro r' hr'
    rw [mem_singleton.mp hr']
    exact hr
  | requeued _ l hn hl => exact effect_putBack q putsBack_requeue hs l hn hl
  | undelayed order _ hperm =>
    have hsub := selectAt_sublist now (fun r t => !(q.objects r).isDelayed t) order
    exact effect_putBack q putsBack_enqueueDelayed hs _
      (hsub.nodup (hperm.nodup_iff.mpr hs.delayed_nodup))
      (fun r hr => hperm.mem_iff.mp (hsub.mem hr))

/-! ### Handing over, without the bookkeeping -/

theorem mem_queue_putMessage (r : Ref) (g : String) (h : g ∈ (q.putMessage r).messageGroupQueue) :
    g ∈ q.messageGroupQueue ∨ g = q.groupId r := by
  rcases putMessage_cases q r with ⟨-, -, heq⟩ | ⟨-, -, heq⟩ | ⟨-, -, heq⟩ | ⟨-, -, heq⟩
  · rw [heq] at h
    exact .inl h
  · rw [heq] at h
    exact (mem_append.mp h).imp_right mem_singleton.mp
  · rw [heq] at h
    exact (mem_append.mp h).imp_right mem_singleton.mp
  · rw [heq] at h
    exact .inl h

/-- What handing messages over does to the groups and the containers. -/
structure Delivered (l : List Ref) (q q' : FifoQueue) : Prop where
  core : ∀ r, (q'.objects r).core = (q.objects r).core
  stale : ∀ g, q'.Stale g → q.Stale g
  placed : ∀ g, q.Placed g → q'.Placed g
  queue : ∀ g ∈ q'.messageGroupQueue, g ∈ q.messageGroupQueue ∨
    ∃ r ∈ l, q.groupId r = g ∧ (q.objects r).visibilityTimeout = 0
  inflight : ∀ r ∈ q'.inflight, r ∈ q.inflight ∨
    (r ∈ l ∧ (q.objects r).visibilityTimeout ≠ 0)
  delayed : q'.delayed = q.delayed

theorem delivered_deliverMessage (s : FifoQueue × List ReceiptHandle) (r : Ref) :
    Delivered [r] s.1 (deliverMessage s r).1 := by
  have hcore := registerReceiptHandle_core s.1.toSqsQueue r
  have hq : ∃ q₁ : FifoQueue, q₁ = setBase s.1 (s.1.registerReceiptHandle r).1 := ⟨_, rfl⟩
  rcases hq with ⟨q₁, hq₁⟩
  have hobj : ∀ r', (q₁.objects r').core = (s.1.objects r').core := by
    rw [hq₁]
    exact hcore
  have hgid : q₁.groupId r = s.1.groupId r :=
    core_congr (fun m => m.message.messageGroupId.getD "") (fun _ => rfl) (hobj r)
  have hvt : (q₁.objects r).visibilityTimeout = (s.1.objects r).visibilityTimeout :=
    core_congr _ (fun _ => rfl) (hobj r)
  have hsame : q₁.messageGroups = s.1.messageGroups ∧
      q₁.messageGroupQueue = s.1.messageGroupQueue ∧ q₁.inflightGroups = s.1.inflightGroups ∧
      q₁.inflight = s.1.inflight ∧ q₁.delayed = s.1.delayed := by
    rw [hq₁]
    exact ⟨rfl, rfl, rfl, rfl, rfl⟩
  rcases hsame with ⟨hg, hmq, hmi, hin, hdel⟩
  have hstale : ∀ g, q₁.Stale g → s.1.Stale g := by
    intro g h
    unfold Stale group at h ⊢
    rw [hmq, hg] at h
    exact h
  have hplaced : ∀ g, s.1.Placed g → q₁.Placed g := by
    intro g h
    unfold Placed at h ⊢
    rw [hmq, hmi]
    exact h
  have hdeliver : (deliverMessage s r).1 = if (q₁.objects r).visibilityTimeout = 0 then
      q₁.putMessage r else setBase q₁ (q₁.addInflightMessage r) := by
    rw [hq₁]
    unfold deliverMessage
    simp only
    split
    · next hz =>
        exact (if_pos hz).symm
    · next hz =>
        exact (if_neg hz).symm
  rw [hdeliver]
  by_cases hzero : (q₁.objects r).visibilityTimeout = 0
  · rw [if_pos hzero]
    have hb := putMessage_base q₁ r
    refine ⟨fun r' => by rw [hb]; exact hobj r',
      fun g h => hstale g (stale_of_putMessage _ r g h),
      fun g h => placed_putMessage q₁ r g (hplaced g h), fun g h => ?_, fun r' h => ?_,
      by rw [hb]; exact hdel⟩
    · rcases mem_queue_putMessage _ r g h with h | h
      · rw [hmq] at h
        exact .inl h
      · exact .inr ⟨r, mem_singleton_self r, by rw [h, hgid], by rw [← hvt]; exact hzero⟩
    · rw [hb, hin] at h
      exact .inl h
  · rw [if_neg hzero]
    have hadd : ∀ r', r' ∈ (q₁.addInflightMessage r).inflight → r' ∈ q₁.inflight ∨ r' = r := by
      intro r' h
      unfold SqsQueue.addInflightMessage at h
      split at h
      · exact .inl h
      · exact (mem_append.mp h).imp_right mem_singleton.mp
    have hframe : (q₁.addInflightMessage r).objects = q₁.objects ∧
        (q₁.addInflightMessage r).delayed = q₁.delayed := by
      unfold SqsQueue.addInflightMessage
      split
      · exact ⟨rfl, rfl⟩
      · exact ⟨rfl, rfl⟩
    refine ⟨fun r' => ?_, hstale, hplaced, fun g h => .inl ?_, fun r' h => ?_, ?_⟩
    · show ((q₁.addInflightMessage r).objects r').core = _
      rw [hframe.1]
      exact hobj r'
    · rw [← hmq]
      exact h
    · rcases hadd r' h with h | h
      · rw [hin] at h
        exact .inl h
      · rw [h]
        exact .inr ⟨mem_singleton_self r, by rw [← hvt]; exact hzero⟩
    · show (q₁.addInflightMessage r).delayed = _
      rw [hframe.2, hdel]

theorem delivered_foldl : ∀ (s : FifoQueue × List ReceiptHandle),
    Delivered l s.1 (l.foldl deliverMessage s).1 := by
  induction l with
  | nil =>
    exact fun s => ⟨fun _ => rfl, fun _ h => h, fun _ h => h, fun _ h => .inl h,
      fun _ h => .inl h, rfl⟩
  | cons r l ih =>
    intro s
    have h1 := delivered_deliverMessage s r
    have h2 := ih (deliverMessage s r)
    have hgid : ∀ r', (deliverMessage s r).1.groupId r' = s.1.groupId r' := fun r' =>
      core_congr (fun m => m.message.messageGroupId.getD "") (fun _ => rfl) (h1.core r')
    have hvt : ∀ r', ((deliverMessage s r).1.objects r').visibilityTimeout =
        (s.1.objects r').visibilityTimeout := fun r' =>
      core_congr _ (fun _ => rfl) (h1.core r')
    refine ⟨fun r' => (h2.core r').trans (h1.core r'), fun g h => h1.stale g (h2.stale g h),
      fun g h => h2.placed g (h1.placed g h), fun g h => ?_, fun r' h => ?_,
      h2.delayed.trans h1.delayed⟩
    · rcases h2.queue g h with h | ⟨r', hr', hg, hz⟩
      · rcases h1.queue g h with h | ⟨r', hr', hg, hz⟩
        · exact .inl h
        · rw [mem_singleton.mp hr'] at hg hz
          exact .inr ⟨r, mem_cons_self, hg, hz⟩
      · rw [hgid] at hg
        rw [hvt] at hz
        exact .inr ⟨r', mem_cons_of_mem r hr', hg, hz⟩
    · rcases h2.inflight r' h with h | ⟨hr', hz⟩
      · rcases h1.inflight r' h with h | ⟨hr', hz⟩
        · exact .inl h
        · exact .inr ⟨by rw [mem_singleton.mp hr']; exact mem_cons_self, hz⟩
      · rw [hvt] at hz
        exact .inr ⟨mem_cons_of_mem r hr', hz⟩

/-! ### Stamps -/

/-- The fields of a message that never change. -/
def stamp (m : SqsMessage) : ℚ × ℚ × Option Int × Option String :=
  (m.priority, m.created, m.delaySeconds, m.message.messageGroupId)

theorem objects_foldl_requeue (q : FifoQueue) : (l.foldl requeueMessage q).objects = q.objects ∧
      (l.foldl requeueMessage q).delayed = q.delayed := by
  refine foldlRecOn (motive := fun q' : FifoQueue => q'.objects = q.objects ∧
    q'.delayed = q.delayed) _ _ ⟨rfl, rfl⟩ (fun q' h r _ => ?_)
  have hb : (requeueMessage q' r).toSqsQueue = q'.delInflight r := base_requeueMessage q' r
  rw [hb]
  exact h

theorem objects_foldl_enqueueDelayed (q : FifoQueue) :
    (l.foldl enqueueDelayedMessage q).objects = q.objects ∧
      (l.foldl enqueueDelayedMessage q).inflight = q.inflight := by
  refine foldlRecOn (motive := fun q' : FifoQueue => q'.objects = q.objects ∧
    q'.inflight = q.inflight) _ _ ⟨rfl, rfl⟩ (fun q' h r _ => ?_)
  have hb : (enqueueDelayedMessage q' r).toSqsQueue = q'.removeDelayed r :=
    base_enqueueDelayedMessage q' r
  rw [hb]
  exact h

/-- No outcome changes a stamp. -/
theorem stamp_outcome {q q' : FifoQueue} {op : Op} {e : Event}
    (h : Outcome owed t q op now e q') :
    (∀ r, r < q.nextRef → stamp (q'.objects r) = stamp (q.objects r)) ∧
      ∀ r, e.accepted = some r → (q'.objects r).priority = now 0 ∧
        (q'.objects r).created = now 1 ∧
        (q'.objects r).delaySeconds = some q.attributes.delaySeconds := by
  have hnone : ∀ (r : Ref) (P : Prop), (none : Option Ref) = some r → P := fun r P hr =>
    absurd hr (by simp)
  have htaken : ∀ (vt : Int) (exceeds : Bool) (t₀ t₁ : ℚ) (m : SqsMessage),
      stamp (taken exceeds vt t₀ t₁ m) = stamp m := by
    intro vt exceeds t₀ t₁ m
    cases exceeds with
    | false | true => rfl
  have hdeliver : ∀ (vt : Int) (c : Collected FifoQueue), Receiving owed vt now q c →
      ∀ r, stamp ((deliverMessages c).1.objects r) = stamp (q.objects r) := by
    intro vt c hrec r
    have h1 : stamp ((deliverMessages c).1.objects r) = stamp (c.queue.objects r) :=
      core_congr _ (fun _ => rfl) ((delivered_foldl _ (c.queue, [])).core r)
    rw [h1]
    exact hrec.collecting.field _ (htaken vt) r
  cases h with
  | idle => exact ⟨fun _ _ => rfl, fun r hr => hnone r _ hr⟩
  | enqueued _ _ _ _ _ _ _ dedupId m hnew hstamp =>
    rcases enqueue_base q _ m _ with ⟨q₁, h1, -, -, -, h3⟩
    have hobj : (q.enqueue dedupId m (now 2)).objects = (q.alloc m).objects := by
      rw [h1]
      rcases h3 with ⟨-, rfl⟩ | ⟨-, rfl⟩
      · show ((q.alloc m).addDelayed q.nextRef).objects = _
        unfold SqsQueue.addDelayed
        split
        · rfl
        · rfl
      · rw [putMessage_base]
        rfl
    refine ⟨fun r hr => ?_, fun r hr => ?_⟩
    · rw [hobj, alloc_objects_of_lt _ m r hr]
    · rw [hobj, ← Option.some.inj hr, alloc_objects, if_pos rfl]
      exact hstamp
  | received _ _ _ c hrec => exact ⟨fun r _ => hdeliver _ c hrec r, fun r hr => hnone r _ hr⟩
  | receivedMessage _ _ _ c hrec =>
    have hb := (released_releaseDeadLetters c.deadLetterMessages (deliverMessages c).1).base
    refine ⟨fun r _ => ?_, fun r hr => hnone r _ hr⟩
    rw [hb]
    exact hdeliver _ c hrec r
  | removed _ _ r =>
    have hb := (released_updateMessageGroupVisibility
      (setBase (markDeleted q r) ((markDeleted q r).delInflight r)) (q.groupId r)).base
    refine ⟨fun r' _ => ?_, fun r hr => hnone r _ hr⟩
    rw [hb]
    exact markDeleted_field _ (fun _ => rfl) q r r'
  | postponed _ visibilityTimeout _ r hr =>
    exact ⟨fun r' _ => modify_field _ _ r
      (fun m => m.updateVisibilityTimeout visibilityTimeout (now 0)) (fun _ => rfl) r',
      fun r hr => hnone r _ hr⟩
  | terminated _ _ _ r hr =>
    refine ⟨fun r' _ => ?_, fun r hr => hnone r _ hr⟩
    have hb := congrArg SqsQueue.objects (base_requeueMessage (setBase q (q.modify r
      fun m => m.updateVisibilityTimeout 0 (now 0))) r)
    have hobj : (requeueMessage (setBase q (q.modify r
        fun m => m.updateVisibilityTimeout 0 (now 0))) r).objects = (q.modify r
        fun m => m.updateVisibilityTimeout 0 (now 0)).objects := hb
    rw [hobj]
    exact modify_field _ _ r (fun m => m.updateVisibilityTimeout 0 (now 0)) (fun _ => rfl) r'
  | requeued _ l =>
    refine ⟨fun r _ => ?_, fun r hr => hnone r _ hr⟩
    rw [(objects_foldl_requeue l q).1]
  | undelayed order _ =>
    refine ⟨fun r _ => ?_, fun r hr => hnone r _ hr⟩
    rw [(objects_foldl_enqueueDelayed _ q).1]

/-! ### Where the groups go -/

/-- What an operation does to the groups of the messages in flight. -/
structure Transfer (q q' : FifoQueue) : Prop where
  ids : ∀ r ∈ q'.inflight, q'.groupId r = q.groupId r
  stale : ∀ g, q'.Stale g → q.Stale g
  placed : ∀ g, q.Placed g →
    q'.Placed g ∨ q.Stale g ∨ ∀ r ∈ q'.inflight, q.groupId r ≠ g
  inflight : ∀ r ∈ q'.inflight, r ∈ q.inflight ∨
    (q.groupId r ∈ q.messageGroupQueue ∧ q.groupId r ∉ q'.messageGroupQueue)
  queue : ∀ g ∈ q'.messageGroupQueue, g ∈ q.messageGroupQueue ∨ g ∉ q.inflightGroups ∨
    (∀ r ∈ q'.inflight, q.groupId r ≠ g) ∨
    ∃ r ∈ q.inflight, q.groupId r = g ∧ r ∈ visible q'

theorem transfer_of_groups {q q' : FifoQueue} (hgroups : q'.messageGroups = q.messageGroups)
    (hqueue : q'.messageGroupQueue = q.messageGroupQueue)
    (hin : q'.inflightGroups = q.inflightGroups) (hsub : ∀ r ∈ q'.inflight, r ∈ q.inflight)
    (hid : ∀ r ∈ q'.inflight, q'.groupId r = q.groupId r) : Transfer q q' := by
  refine ⟨hid, fun g h => ?_, fun g h => .inl ?_, fun r hr => .inl (hsub r hr),
    fun g hg => .inl ?_⟩
  · unfold Stale group at h ⊢
    rw [hqueue, hgroups] at h
    exact h
  · unfold Placed at h ⊢
    rw [hqueue, hin]
    exact h
  · rw [← hqueue]
    exact hg

theorem Transfer.rebase {q q₀ q' : FifoQueue} (h : Transfer q₀ q')
    (hgroups : q₀.messageGroups = q.messageGroups)
    (hqueue : q₀.messageGroupQueue = q.messageGroupQueue)
    (hin : q₀.inflightGroups = q.inflightGroups) (hinflight : q₀.inflight = q.inflight)
    (hid : ∀ r, r ∈ q.inflight ∨ r ∈ q'.inflight → q₀.groupId r = q.groupId r) :
    Transfer q q' := by
  have hstale : ∀ g, q₀.Stale g → q.Stale g := by
    intro g hg
    unfold Stale group at hg ⊢
    rw [hqueue, hgroups] at hg
    exact hg
  refine ⟨fun r hr => (h.ids r hr).trans (hid r (.inr hr)), fun g hg => hstale g (h.stale g hg),
    fun g hg => ?_, fun r hr => ?_, fun g hg => ?_⟩
  · have hg₀ : q₀.Placed g := by
      unfold Placed at hg ⊢
      rw [hqueue, hin]
      exact hg
    rcases h.placed g hg₀ with hp | hp | hp
    · exact .inl hp
    · exact .inr (.inl (hstale g hp))
    · exact .inr (.inr fun r hr hc => hp r hr ((hid r (.inr hr)).trans hc))
  · have hr₀ := h.inflight r hr
    rw [hinflight, hid r (.inr hr), hqueue] at hr₀
    exact hr₀
  · rcases h.queue g hg with hg | hg | hg | ⟨r, hr, hg, hv⟩
    · rw [hqueue] at hg
      exact .inl hg
    · rw [hin] at hg
      exact .inr (.inl hg)
    · exact .inr (.inr (.inl fun r hr hc => hg r hr ((hid r (.inr hr)).trans hc)))
    · rw [hinflight] at hr
      rw [hid r (.inl hr)] at hg
      exact .inr (.inr (.inr ⟨r, hr, hg, hv⟩))

theorem Transfer.released {q q' q'' : FifoQueue} (h : Transfer q q') (hrel : Released q' q'') :
    Transfer q q'' := by
  have hin : q''.inflight = q'.inflight := by rw [hrel.base]
  have hid : q''.groupId = q'.groupId := by
    unfold groupId
    rw [hrel.base]
  have hnone : ∀ g, (∀ r ∈ q'.inflight, q'.groupId r ≠ g) → ∀ r ∈ q'.inflight,
      q.groupId r ≠ g := fun g hg r hr hc => hg r hr ((h.ids r hr).trans hc)
  refine ⟨?_, fun g hg => h.stale g (hrel.stale g hg), fun g hg => ?_, ?_, fun g hg => ?_⟩
  · rw [hin, hid]
    exact h.ids
  · rw [hin]
    rcases h.placed g hg with hp | hp | hp
    · rcases hrel.placed g hp with hp | hp
      · exact .inl hp
      · exact .inr (.inr (hnone g hp))
    · exact .inr (.inl hp)
    · exact .inr (.inr hp)
  · rw [hin]
    intro r hr
    refine (h.inflight r hr).imp_right fun hg => ⟨hg.1, fun hc => ?_⟩
    rcases hrel.queue _ hc with hc | hc
    · exact hg.2 hc
    · exact hc r hr (h.ids r hr)
  · rw [hin, visible_congr hrel.groups]
    rcases hrel.queue g hg with hg | hg
    · exact h.queue g hg
    · exact .inr (.inr (.inl (hnone g hg)))

/-- What pushing messages does to the groups. -/
structure Pushed (new : String → Prop) (q q' : FifoQueue) : Prop where
  objects : q'.objects = q.objects
  stale : ∀ g, q'.Stale g → q.Stale g
  placed : ∀ g, q.Placed g → q'.Placed g
  queue : ∀ g ∈ q'.messageGroupQueue, g ∈ q.messageGroupQueue ∨ new g

theorem pushed_refl (new : String → Prop) (q : FifoQueue) : Pushed new q q :=
  ⟨rfl, fun _ h => h, fun _ h => h, fun _ h => .inl h⟩

theorem Pushed.push {new : String → Prop} {q q' : FifoQueue} (h : Pushed new q q') (b : SqsQueue)
    (hb : b.objects = q'.objects) (r : Ref) (hr : new (q.groupId r)) :
    Pushed new q ((setBase q' b).putMessage r) := by
  have hid : (setBase q' b).groupId r = q.groupId r := by
    show (b.objects r).message.messageGroupId.getD "" = _
    rw [hb, h.objects]
    rfl
  refine ⟨?_, fun g hg => h.stale g (stale_of_putMessage (setBase q' b) r g hg),
    fun g hg => placed_putMessage _ r g (h.placed g hg), fun g hg => ?_⟩
  · rw [putMessage_base]
    exact hb.trans h.objects
  · rcases mem_queue_putMessage _ r g hg with hg | hg
    · exact h.queue g hg
    · rw [hg, hid]
      exact .inr hr

-- A message that was never received does not move a group that is in flight.
theorem Pushed.push_new {q q' : FifoQueue} (h : Pushed (fun g => g ∉ q.inflightGroups) q q')
    (hin : q'.inflightGroups = q.inflightGroups) (b : SqsQueue) (hb : b.objects = q'.objects)
    (r : Ref) (hcount : (q.objects r).receiveCount = 0) :
    Pushed (fun g => g ∉ q.inflightGroups) q ((setBase q' b).putMessage r) ∧
      ((setBase q' b).putMessage r).inflightGroups = q.inflightGroups := by
  have hid : (setBase q' b).groupId r = q.groupId r := by
    show (b.objects r).message.messageGroupId.getD "" = _
    rw [hb, h.objects]
    rfl
  have hnew : ¬ 1 ≤ ((setBase q' b).objects r).receiveCount := by
    show ¬ 1 ≤ (b.objects r).receiveCount
    rw [hb, h.objects, hcount]
    exact Nat.not_succ_le_zero 0
  have hsame : (setBase q' b).inflightGroups = q.inflightGroups := hin
  rcases putMessage_cases _ r with ⟨-, -, heq⟩ | ⟨hc, -, -⟩ | ⟨hout, -, heq⟩ |
    ⟨hout, -, heq⟩
  · -- The group is in flight and stays there.
    refine ⟨⟨?_, fun g hg => h.stale g (stale_of_putMessage (setBase q' b) r g hg),
      fun g hg => placed_putMessage _ r g (h.placed g hg), fun g hg => ?_⟩, ?_⟩
    · rw [putMessage_base]
      exact hb.trans h.objects
    · rw [heq] at hg
      exact h.queue g hg
    · rw [heq]
      exact hsame
  · exact absurd hc hnew
  · rw [hsame, hid] at hout
    refine ⟨h.push b hb r hout, ?_⟩
    rw [heq]
    exact hsame
  · rw [hsame, hid] at hout
    refine ⟨h.push b hb r hout, ?_⟩
    rw [heq]
    exact hsame

theorem inflight_foldl_requeue : ∀ (q : FifoQueue),
    (l.foldl requeueMessage q).inflight.Sublist q.inflight ∧
      ∀ r, r ∈ l ∨ r ∈ visible q → r ∈ visible (l.foldl requeueMessage q) := by
  induction l with
  | nil =>
    intro q
    exact ⟨List.Sublist.refl _, fun r hr => hr.resolve_left not_mem_nil⟩
  | cons r l ih =>
    intro q
    rcases ih _ with ⟨hsub, hvis⟩
    have hb : (requeueMessage q r).toSqsQueue = q.delInflight r := base_requeueMessage q r
    rw [hb] at hsub
    refine ⟨hsub.trans eraseP_sublist, fun r' hr' => hvis r' ?_⟩
    rw [visible_requeueMessage, Multiset.mem_add, Multiset.mem_singleton]
    rcases hr' with hr' | hr'
    · exact (mem_cons.mp hr').elim (fun hc => .inr (.inl hc)) Or.inl
    · exact .inr (.inr hr')

theorem pushed_foldl_requeue :
    Pushed (fun g => ∃ r ∈ l, q.groupId r = g) q (l.foldl requeueMessage q) :=
  foldlRecOn (motive := fun q' => Pushed (fun g => ∃ r ∈ l, q.groupId r = g) q q') l _
    (pushed_refl _ q) fun q' h r hr => h.push (q'.delInflight r) rfl r ⟨r, hr, rfl⟩

theorem pushed_foldl_enqueueDelayed (hcount : ∀ r ∈ l, (q.objects r).receiveCount = 0) :
    Pushed (fun g => g ∉ q.inflightGroups) q (l.foldl enqueueDelayedMessage q) :=
  (foldlRecOn (motive := fun q' => Pushed (fun g => g ∉ q.inflightGroups) q q' ∧
    q'.inflightGroups = q.inflightGroups) l _ ⟨pushed_refl _ q, rfl⟩ fun q' h r hr =>
      h.1.push_new h.2 (q'.removeDelayed r) rfl r (hcount r hr)).1

theorem Pushed.transfer {new : String → Prop} {q q' : FifoQueue} (h : Pushed new q q')
    (hsub : ∀ r ∈ q'.inflight, r ∈ q.inflight)
    (hnew : ∀ g, new g → g ∉ q.inflightGroups ∨ ∃ r ∈ q.inflight, q.groupId r = g ∧
      r ∈ visible q') : Transfer q q' := by
  refine ⟨fun r _ => ?_, h.stale, fun g hg => .inl (h.placed g hg),
    fun r hr => .inl (hsub r hr), fun g hg => ?_⟩
  · unfold groupId
    rw [h.objects]
  · rcases h.queue g hg with hg | hg
    · exact .inl hg
    · rcases hnew g hg with hg | hg
      · exact .inr (.inl hg)
      · exact .inr (.inr (.inr hg))

/-- Handing messages out. A group from which messages were handed out is in
    flight or, where all of them are visible again, waits. -/
theorem transfer_deliverMessages {visibilityTimeout : Int} {q : FifoQueue}
    {c : Collected FifoQueue} (hrec : Receiving owed visibilityTimeout now q c) :
    Transfer q (deliverMessages c).1 := by
  have hdel : Delivered c.successful c.queue (deliverMessages c).1 :=
    delivered_foldl _ (c.queue, [])
  have hid : ∀ r, c.queue.groupId r = q.groupId r := groupId_collecting hrec.collecting
  have hin : c.queue.inflight = q.inflight := hrec.collecting.inflight
  have hvt : ∀ r ∈ c.successful,
      (c.queue.objects r).visibilityTimeout = visibilityTimeout := by
    intro r hr
    rcases (hrec.collecting.successful r hr).2 with ⟨k, hk⟩
    have hk : c.queue.objects r = taken false visibilityTimeout (now k) (now (k + 1))
      (q.objects r) := hk
    rw [hk]
    rfl
  refine ⟨fun r _ => ?_, fun g hg => hrec.stale g (hdel.stale g hg), fun g hg => ?_,
    fun r hr => ?_, fun g hg => .inl ?_⟩
  · rw [← hid]
    exact core_congr (fun m => m.message.messageGroupId.getD "") (fun _ => rfl) (hdel.core r)
  · rcases hrec.placed g hg with hg | hg
    · exact .inl (hdel.placed g hg)
    · exact .inr (.inl hg)
  · rcases hdel.inflight r hr with hr | ⟨hr, hne⟩
    · rw [hin] at hr
      exact .inl hr
    · refine .inr ⟨(hrec.taken r (.inl hr)).2, fun hc => ?_⟩
      rcases hdel.queue _ hc with hc | ⟨r', hr', -, hz⟩
      · exact hrec.grouped.disjoint _ hc (hrec.taken r (.inl hr)).1
      · rw [hvt r' hr'] at hz
        rw [hvt r hr] at hne
        exact hne hz
  · rcases hdel.queue g hg with hg | ⟨r, hr, hg, -⟩
    · exact hrec.waiting g hg
    · rw [← hg, hid]
      exact (hrec.taken r (.inl hr)).2

theorem transfer_enqueue (hs : Sound 0 q) (dedupId : String) (m : SqsMessage) (now : ℚ)
    (hcount : m.receiveCount = 0) : Transfer q (q.enqueue dedupId m now) := by
  rcases enqueue_base q _ m _ with ⟨q₁, hb, hg, hq, hi, hcase⟩
  have hid : ∀ r ∈ q.inflight, (setBase q (q.alloc m)).groupId r = q.groupId r := by
    intro r hr
    show ((q.alloc m).objects r).message.messageGroupId.getD "" = _
    rw [alloc_objects_of_lt q.toSqsQueue m r (hs.inflight_lt r hr)]
    rfl
  -- The de-duplication table plays no part.
  suffices htransfer : Transfer q q₁ from htransfer.released (released_of_eq hb hg hq hi)
  rcases hcase with ⟨-, rfl⟩ | ⟨-, rfl⟩
  · have hframe : ((q.alloc m).addDelayed q.nextRef).inflight = q.inflight ∧
        ((q.alloc m).addDelayed q.nextRef).objects = (q.alloc m).objects := by
      unfold SqsQueue.addDelayed
      split
      · exact ⟨rfl, rfl⟩
      · exact ⟨rfl, rfl⟩
    refine transfer_of_groups rfl rfl rfl ?_ ?_
    · show ∀ r ∈ ((q.alloc m).addDelayed q.nextRef).inflight, r ∈ q.inflight
      rw [hframe.1]
      exact fun r hr => hr
    · show ∀ r ∈ ((q.alloc m).addDelayed q.nextRef).inflight,
        (((q.alloc m).addDelayed q.nextRef).objects r).message.messageGroupId.getD "" = _
      rw [hframe.1, hframe.2]
      exact hid
  · have hcount' : ((setBase q (q.alloc m)).objects q.nextRef).receiveCount = 0 := by
      show ((q.alloc m).objects q.nextRef).receiveCount = 0
      rw [alloc_objects, if_pos rfl]
      exact hcount
    have hput : Pushed (fun g => g ∉ q.inflightGroups) (setBase q (q.alloc m))
        ((setBase q (q.alloc m)).putMessage q.nextRef) :=
      ((pushed_refl _ _).push_new rfl (q.alloc m) rfl q.nextRef hcount').1
    have hinf : ((setBase q (q.alloc m)).putMessage q.nextRef).inflight = q.inflight := by
      rw [putMessage_base]
      rfl
    have hsub : ∀ r ∈ ((setBase q (q.alloc m)).putMessage q.nextRef).inflight,
        r ∈ q.inflight := by
      rw [hinf]
      exact fun r hr => hr
    exact (hput.transfer hsub fun g hg => .inl hg).rebase rfl rfl rfl rfl
      fun r hr => hid r (hr.elim id (hsub r))

theorem transfer_outcome {t₀ : ℚ} {q q' : FifoQueue} {op : Op} {e : Event}
    (ht : Tidy t₀ owed 0 q) (h : Outcome owed t q op now e q') : Transfer q q' := by
  cases h with
  | idle => exact transfer_of_groups rfl rfl rfl (fun _ h => h) (fun _ _ => rfl)
  | enqueued _ _ _ _ _ _ _ dedupId m hnew _ =>
    exact transfer_enqueue q ht.sound _ m _ hnew.2.1
  | received _ _ _ c hrec => exact transfer_deliverMessages hrec
  | receivedMessage _ _ _ c hrec =>
    exact (transfer_deliverMessages hrec).released (released_releaseDeadLetters _ _)
  | removed _ _ r =>
    suffices htransfer : Transfer q (setBase (markDeleted q r) ((markDeleted q r).delInflight r))
      from htransfer.released (released_updateMessageGroupVisibility _ _)
    have hinf : (markDeleted q r).inflight = q.inflight :=
      (congrArg SqsQueue.inflight (base_markDeleted q r) :)
    refine transfer_of_groups rfl rfl rfl (fun r' hr' => ?_) (fun r' _ => ?_)
    · rw [← hinf]
      exact eraseP_sublist.mem hr'
    · exact markDeleted_field (fun m => m.message.messageGroupId.getD "") (fun _ => rfl) q r r'
  | postponed _ visibilityTimeout _ r =>
    refine transfer_of_groups rfl rfl rfl (fun _ h => h) (fun r' _ => ?_)
    exact modify_field (fun m => m.message.messageGroupId.getD "") _ r
      (fun m => m.updateVisibilityTimeout visibilityTimeout (now 0)) (fun _ => rfl) r'
  | terminated _ _ _ r hr =>
    have hq : ∃ q₀ : FifoQueue, q₀ = setBase q (q.modify r
        fun m => m.updateVisibilityTimeout 0 (now 0)) := ⟨_, rfl⟩
    rcases hq with ⟨q₀, hq₀⟩
    rw [← hq₀]
    have hid : ∀ r', q₀.groupId r' = q.groupId r' := by
      intro r'
      rw [hq₀]
      exact modify_field (fun m => m.message.messageGroupId.getD "") _ r
        (fun m => m.updateVisibilityTimeout 0 (now 0)) (fun _ => rfl) r'
    have hr₀ : r ∈ q₀.inflight := by
      rw [hq₀]
      exact hr
    rcases inflight_foldl_requeue [r] _ with ⟨hsub, hvis⟩
    have htransfer : Transfer q₀ (requeueMessage q₀ r) := by
      refine (pushed_foldl_requeue _ [r]).transfer (fun r hr => hsub.mem hr) (fun g hg => .inr ?_)
      rcases hg with ⟨r', hr', hg⟩
      rw [mem_singleton.mp hr'] at hg
      exact ⟨r, hr₀, hg, hvis r (.inl (mem_singleton_self r))⟩
    refine htransfer.rebase ?_ ?_ ?_ ?_ (fun r' _ => hid r')
    · rw [hq₀]
      rfl
    · rw [hq₀]
      rfl
    · rw [hq₀]
      rfl
    · rw [hq₀]
      rfl
  | requeued _ l hn hl =>
    rcases inflight_foldl_requeue l q with ⟨hsub, hvis⟩
    refine (pushed_foldl_requeue q l).transfer (fun r hr => hsub.mem hr) (fun g hg => .inr ?_)
    rcases hg with ⟨r, hr, hg⟩
    exact ⟨r, hl r hr, hg, hvis r (.inl hr)⟩
  | undelayed order _ hperm =>
    have hsub := selectAt_sublist now (fun r t => !(q.objects r).isDelayed t) order
    refine (pushed_foldl_enqueueDelayed q _ (fun r hr => ?_)).transfer (fun r hr => ?_)
      (fun g hg => .inl hg)
    · exact (ht.untouched r (hperm.mem_iff.mp (hsub.mem hr))).2
    · rw [(objects_foldl_enqueueDelayed _ q).2] at hr
      exact hr

end LocalEmu.Sqs.FifoQueue
