import LocalEmu.Core.Sqs.Standard
import LocalEmu.Theory.Sqs.History

/-!
# Runs of a Standard Queue

Every finite sequence of operations on a standard queue accounts for every
message.

The operations are collected in `StandardQueue.Op`, and one of them applied
at given clock readings is `StandardQueue.step`. An operation that raises
does so before it has changed anything, so it leaves the queue as it was.
Nothing is assumed about the clock readings. What is assumed of the
environment is in `StandardQueue.Admissible`: a message put has an id of its
own, and the set of delayed messages is iterated in some order of its
elements.

Deletion is the operation with two ways to go. A handle of the current
delivery finds its message in flight. A stale handle finds the message back
in the heap, and it is then removed from the middle of it, which is where the
heap has to be rebuilt. `Sound` says that these are the only two places.

## Main definitions

* `StandardQueue.Op`, `StandardQueue.step`: The operations.
* `StandardQueue.Call`, `StandardQueue.Step`: One step of a run.
-/

namespace LocalEmu.Sqs.StandardQueue

open List

open QueueKind LawfulQueueKind

instance : LawfulQueueKind StandardQueue where
  visible q := (q.visible : Multiset Ref)
  base_setBase _ _ := rfl
  visible_setBase _ _ := rfl
  base_putMessage _ _ := rfl
  visible_putMessage q r := by
    show ((Heapq.heappush q.priority q.visible r : List Ref) : Multiset Ref) = _
    rw [Multiset.coe_eq_coe.mpr (Heapq.heappush_perm q.priority q.visible r),
      ← Multiset.cons_coe, Multiset.singleton_add]

/-- The operations on a standard queue. -/
inductive Op
  | put (message : Message) (visibilityTimeout : Option Int)
      (messageDeduplicationId messageGroupId : Option String) (delaySeconds : Option Int)
  | receive (numMessages : Int) (visibilityTimeout : Option Int)
  | remove (receiptHandle : ReceiptHandle)
  | updateVisibilityTimeout (receiptHandle : ReceiptHandle) (visibilityTimeout : Int)
  | requeueInflightMessages
  | enqueueDelayedMessages (order : List Ref)
  | removeExpiredMessages

variable (q : StandardQueue)

def step (op : Op) (now : Nat → ℚ) : StandardQueue × Event :=
  match op with
  | .put message visibilityTimeout messageDeduplicationId messageGroupId delaySeconds =>
    match q.put message visibilityTimeout messageDeduplicationId messageGroupId delaySeconds
      now with
    | .ok (q', _) => (q', { accepted := some q.nextRef })
    | .error _ => (q, {})
  | .receive numMessages visibilityTimeout =>
    let s := q.receive numMessages visibilityTimeout now
    (s.1, { successful := s.2.successful, deadLetterMessages := s.2.deadLetterMessages })
  | .remove receiptHandle =>
    match Sqs.remove q receiptHandle (now 0) with
    | .ok (q', removed) => (q', { removed := removed })
    | .error _ => (q, {})
  | .updateVisibilityTimeout receiptHandle visibilityTimeout =>
    match Sqs.updateVisibilityTimeout q receiptHandle visibilityTimeout (now 0) with
    | .ok q' => (q', {})
    | .error _ => (q, {})
  | .requeueInflightMessages => (Sqs.requeueInflightMessages q now, {})
  | .enqueueDelayedMessages order => (Sqs.enqueueDelayedMessages q order now, {})
  | .removeExpiredMessages =>
    let s := q.removeExpiredMessages (now 0)
    (s.1, { expired := s.2 })

/-- What the environment guarantees of an operation. -/
def Admissible : Op → Prop
  | .put message _ _ _ _ => ∀ r, r < q.nextRef → q.messageId r ≠ message.messageId
  | .enqueueDelayedMessages order => order.Perm q.delayed
  | _ => True

/-- One step of a run: an operation, the clock readings it made, and what it did. -/
structure Call where
  op : Op
  now : Nat → ℚ
  event : Event

def Step (c : Call) (q' : StandardQueue) : Prop :=
  q.Admissible c.op ∧ q.step c.op c.now = (q', c.event)

def perform (input : Op × (Nat → ℚ)) : StandardQueue × Call :=
  ((q.step input.1 input.2).1, ⟨input.1, input.2, (q.step input.1 input.2).2⟩)

theorem step_perform (input : Op × (Nat → ℚ))
    (h : q.Admissible input.1) : Step q (q.perform input).2 (q.perform input).1 :=
  ⟨h, rfl⟩

/-! ### Receiving -/

/-- What the loop of `receive` has done. -/
theorem collect_spec (q : StandardQueue) (hs : Sound 0 q) (numMessages visibilityTimeout : Int)
    (now : Nat → ℚ) : ∀ (fuel : Nat) (c : Collected StandardQueue),
    Collecting visibilityTimeout now q c → Heapq.IsHeap q.priority c.queue.visible →
      Collecting visibilityTimeout now q (collect numMessages visibilityTimeout now fuel c) ∧
      Heapq.IsHeap q.priority
        (collect numMessages visibilityTimeout now fuel c).queue.visible := by
  intro fuel
  induction fuel with
  | zero => exact fun c h hheap => ⟨h, hheap⟩
  | succ fuel ih =>
    intro c h hheap
    unfold collect
    have hprio : c.queue.priority = q.priority := h.priority
    cases hpop : Heapq.heappop c.queue.priority c.queue.visible with
    | none => exact ⟨h, hheap⟩
    | some e =>
      rcases e with ⟨r, rest⟩
      have hperm := Heapq.heappop_perm _ _ _ r hpop
      have hnext : Collecting visibilityTimeout now q (Collected.take numMessages
          visibilityTimeout now
          { c with queue := { c.queue with visible := rest } } r).1 := by
        refine collecting_take h hs _ r { c.queue with visible := rest } rfl ?_
        show (c.queue.visible : Multiset Ref) = {r} + (rest : Multiset Ref)
        exact Multiset.coe_eq_coe.mpr hperm
      have hrest : Heapq.IsHeap q.priority (Collected.take numMessages visibilityTimeout now
          { c with queue := { c.queue with visible := rest } } r).1.queue.visible := by
        have hvis : (Collected.take numMessages visibilityTimeout now
            { c with queue := { c.queue with visible := rest } } r).1.queue.visible =
            rest := by
          unfold Collected.take
          split
          · rfl
          · simp only
            split
            · rfl
            · rfl
        rw [hvis]
        rw [hprio] at hpop
        exact Heapq.isHeap_heappop _ _ _ r hheap hpop
      simp only
      split
      · exact ⟨hnext, hrest⟩
      · exact ih _ hnext hrest

abbrev Ordered (q : StandardQueue) : Prop := Heapq.IsHeap q.priority q.visible

theorem ordered_putMessage (q : StandardQueue) (r : Ref) (h : Ordered q) :
    Ordered (q.putMessage r) :=
  Heapq.isHeap_heappush _ _ r h

theorem ordered_deliverMessage (s : StandardQueue × List ReceiptHandle) (r : Ref)
    (h : Ordered s.1) : Ordered (deliverMessage s r).1 := by
  set registered := s.1.registerReceiptHandle r
  have hprio : registered.1.priority = s.1.priority := by
    ext r'
    exact core_congr _ (fun _ => rfl) (registerReceiptHandle_core s.1.toSqsQueue r r')
  have hstart : Heapq.IsHeap registered.1.priority s.1.visible := by
    rw [hprio]
    exact h
  unfold deliverMessage
  simp only
  split
  · exact ordered_putMessage _ r hstart
  · have hadd : (registered.1.addInflightMessage r).priority =
        registered.1.priority := by
      unfold SqsQueue.addInflightMessage
      split
      · rfl
      · rfl
    show Heapq.IsHeap (registered.1.addInflightMessage r).priority s.1.visible
    rw [hadd]
    exact hstart

/-! ### Deleting -/

/-- Deleting takes the message out. -/
theorem held_onRemoveMessage (q : StandardQueue) (hs : Sound 0 q) (h : ReceiptHandle) (r : Ref)
    (hr : q.receipts h = some r) :
    held (onRemoveMessage (markDeleted q r) r) = (held q).erase r ∧
      base (onRemoveMessage (markDeleted q r) r) = { base (markDeleted q r) with
        inflight := (base (onRemoveMessage (markDeleted q r) r)).inflight } := by
  have hlt : r < q.nextRef := (hs.receipts h r hr).1
  have hdelayed : r ∉ q.delayed := (hs.receipts h r hr).2
  -- Marking a message as deleted changes no message id.
  have hids : ∀ r', (markDeleted q r).messageId r' = q.messageId r' :=
    markDeleted_field (fun m => m.message.messageId) (fun _ => rfl) q r
  have hdist : (markDeleted q r).Distinct := by
    intro r₁ r₂ h₁ h₂ he
    rw [hids, hids] at he
    exact hs.ids _ _ h₁ h₂ he
  have hin : (markDeleted q r).isInflight r = true ↔ r ∈ q.inflight :=
    any_sameMessage (markDeleted q r).toSqsQueue hdist r hlt _ hs.inflight_lt
  have hvisible : ∀ r' ∈ q.visible, r' < q.nextRef := fun r' hr' =>
    hs.visible_lt r' (Multiset.mem_coe.mpr hr')
  have hany : (markDeleted q r).visible.any ((markDeleted q r).sameMessage r) = true ↔
      r ∈ q.visible :=
    any_sameMessage (markDeleted q r).toSqsQueue hdist r hlt _ hvisible
  have hmark : held (markDeleted q r) = held q := by
    unfold held
    rw [visible_markDeleted, base_markDeleted]
  show held (StandardQueue.onRemoveMessage (markDeleted q r) r) = _ ∧ base
    (StandardQueue.onRemoveMessage (markDeleted q r) r) = { base (markDeleted q r) with
      inflight := (base (StandardQueue.onRemoveMessage (markDeleted q r) r)).inflight }
  unfold StandardQueue.onRemoveMessage
  by_cases hinflight : r ∈ q.inflight
  · rw [if_pos (hin.mpr hinflight)]
    refine ⟨?_, rfl⟩
    have herase : ((markDeleted q r).delInflight r).inflight = q.inflight.erase r :=
      eraseP_sameMessage (markDeleted q r).toSqsQueue hdist r hlt _ hs.inflight_lt
    show (q.delayed : Multiset Ref) + (q.visible : Multiset Ref) +
      ((((markDeleted q r).delInflight r).inflight : List Ref) : Multiset Ref) = _
    rw [herase]
    exact (Multiset.erase_add_right_pos _ (Multiset.mem_coe.mpr hinflight)).symm
  · rw [if_neg (fun hc => hinflight (hin.mp hc))]
    by_cases hvis : r ∈ q.visible
    · rw [if_pos (hany.mpr hvis)]
      refine ⟨?_, rfl⟩
      have herase : (markDeleted q r).visible.eraseP ((markDeleted q r).sameMessage r) =
          q.visible.erase r :=
        eraseP_sameMessage (markDeleted q r).toSqsQueue hdist r hlt _ hvisible
      rw [herase]
      show (q.delayed : Multiset Ref) +
        (Heapq.heapify (markDeleted q r).priority (q.visible.erase r) : Multiset Ref) +
        (q.inflight : Multiset Ref) = _
      rw [Multiset.coe_eq_coe.mpr (Heapq.heapify_perm _ _), ← Multiset.coe_erase]
      show _ = ((q.delayed : Multiset Ref) + (q.visible : Multiset Ref) +
        (q.inflight : Multiset Ref)).erase r
      rw [Multiset.erase_add_left_neg _ (fun hc => hinflight (Multiset.mem_coe.mp hc)),
        Multiset.erase_add_right_pos _ (Multiset.mem_coe.mpr hvis)]
    · rw [if_neg (fun hc => hvis (hany.mp hc))]
      refine ⟨?_, rfl⟩
      rw [hmark, Multiset.erase_of_notMem]
      intro hc
      rcases (mem_held q r).mp hc with hc | hc | hc
      · exact hdelayed hc
      · exact hvis (Multiset.mem_coe.mp hc)
      · exact hinflight hc

theorem ordered_onRemoveMessage (q : StandardQueue) (r : Ref) (h : Ordered q) :
    Ordered (StandardQueue.onRemoveMessage (markDeleted q r) r) := by
  have hprio : (markDeleted q r).priority = q.priority := by
    ext r'
    exact markDeleted_field _ (fun _ => rfl) q r r'
  have hmark : Heapq.IsHeap (markDeleted q r).priority (markDeleted q r).visible := by
    rw [hprio]
    exact h
  unfold StandardQueue.onRemoveMessage
  split
  · exact hmark
  · split
    · exact Heapq.isHeap_heapify _ _
    · exact hmark

theorem ordered_modify (r : Ref) (f : SqsMessage → SqsMessage)
    (hf : ∀ m, (f m).priority = m.priority) (h : Ordered q) :
    Ordered (setBase q (q.modify r f)) := by
  have hprio : (setBase q (q.modify r f)).priority = q.priority := priority_modify _ r f hf
  rw [Ordered, hprio]
  exact h

theorem ordered_requeueMessage (q : StandardQueue) (r : Ref) (h : Ordered q) :
    Ordered (requeueMessage q r) :=
  ordered_putMessage _ r h

theorem ordered_enqueueDelayedMessage (q : StandardQueue) (r : Ref) (h : Ordered q) :
    Ordered (enqueueDelayedMessage q r) :=
  ordered_putMessage _ r h

/-! ### Single steps -/

theorem put_ok (q' : StandardQueue) (message : Message) (visibilityTimeout : Option Int)
    (messageDeduplicationId messageGroupId : Option String) (delaySeconds : Option Int)
    (now : Nat → ℚ) (m : SqsMessage)
    (hok : q.put message visibilityTimeout messageDeduplicationId messageGroupId delaySeconds
      now = .ok (q', m)) :
    m = q.newMessage message visibilityTimeout messageGroupId delaySeconds now ∧
      (q' = setBase (setBase q (q.alloc m)) ((q.alloc m).addDelayed q.nextRef) ∨
       q' = putMessage (setBase q (q.alloc m)) q.nextRef) := by
  unfold put at hok
  split at hok
  · cases hok
  · simp only at hok
    split at hok
    · simp only [Except.ok.injEq, Prod.mk.injEq] at hok
      rcases hok with ⟨hq, hm⟩
      rw [hm] at hq
      exact ⟨hm.symm, .inl hq.symm⟩
    · simp only [Except.ok.injEq, Prod.mk.injEq] at hok
      rcases hok with ⟨hq, hm⟩
      rw [hm] at hq
      exact ⟨hm.symm, .inr hq.symm⟩

/-- The effect of any operation, which keeps the heap property. -/
theorem step_spec (q q' : StandardQueue) (c : Call) (hs : Sound 0 q) (hheap : Ordered q)
    (h : Step q c q') : Effect q c.event q' ∧ Ordered q' := by
  rcases c with ⟨op, now, e⟩
  rcases h with ⟨hadm, hstep⟩
  simp only at hadm hstep ⊢
  cases op with
  | put =>
    unfold step at hstep
    simp only at hstep
    split at hstep
    · next q₁ m hok =>
        simp only [Prod.mk.injEq] at hstep
        rcases hstep with ⟨rfl, rfl⟩
        rcases put_ok q _ _ _ _ _ _ _ m hok with ⟨hm, hq⟩
        refine ⟨effect_accept q hs m (by rw [hm]; rfl) (by rw [hm]; rfl)
          (fun r hr => by rw [hm]; exact hadm r hr) _ hq, ?_⟩
        -- The new object does not change the key of any message in the heap.
        have halloc : Heapq.IsHeap (q.alloc m).priority q.visible := by
          refine Heapq.isHeap_congr _ _ _ hheap (fun r hr => ?_)
          unfold SqsQueue.priority
          rw [alloc_objects_of_lt q.toSqsQueue m r (hs.visible_lt r (Multiset.mem_coe.mpr hr))]
        rcases hq with rfl | rfl
        · have hadd : ((q.alloc m).addDelayed q.nextRef).priority = (q.alloc m).priority := by
            unfold SqsQueue.addDelayed
            split
            · rfl
            · rfl
          show Heapq.IsHeap ((q.alloc m).addDelayed q.nextRef).priority q.visible
          rw [hadd]
          exact halloc
        · exact ordered_putMessage _ _ halloc
    · simp only [Prod.mk.injEq] at hstep
      rcases hstep with ⟨rfl, rfl⟩
      exact ⟨effect_refl q hs, hheap⟩
  | receive =>
    rcases hstep with ⟨rfl, rfl⟩
    rcases collect_spec q hs _ _ _ _ _ (collecting_start _ _ q) hheap with ⟨hcol, hrest⟩
    refine ⟨effect_receive _ _ q _ hcol hs,
      foldlRecOn (motive := fun s : StandardQueue × List ReceiptHandle => Ordered s.1) _ _ ?_
        fun s h r _ => ordered_deliverMessage s r h⟩
    rwa [← show (collect _ _ now q.visible.length (Collected.start q)).queue.priority =
      q.priority from hcol.priority] at hrest
  | remove =>
    unfold step at hstep
    simp only at hstep
    split at hstep
    · next q₁ removed hok =>
        simp only [Prod.mk.injEq] at hstep
        rcases hstep with ⟨rfl, rfl⟩
        rcases remove_ok q _ _ _ _ hok with ⟨-, rfl, rfl⟩ | ⟨r, hr, rfl, -, rfl⟩
        · exact ⟨effect_refl q₁ hs, hheap⟩
        · rcases held_onRemoveMessage q hs _ r hr with ⟨hheld, hbase⟩
          exact ⟨effect_remove q _ hs r (hs.receipts _ r hr).1 hbase hheld,
            ordered_onRemoveMessage q r hheap⟩
    · simp only [Prod.mk.injEq] at hstep
      rcases hstep with ⟨rfl, rfl⟩
      exact ⟨effect_refl q hs, hheap⟩
  | updateVisibilityTimeout =>
    unfold step at hstep
    simp only at hstep
    split at hstep
    · next q₁ hok =>
        simp only [Prod.mk.injEq] at hstep
        rcases hstep with ⟨rfl, rfl⟩
        refine ⟨effect_updateVisibilityTimeout q _ hs _ _ _ hok, ?_⟩
        rcases updateVisibilityTimeout_ok q _ _ _ _ hok with
          ⟨r, -, ⟨-, rfl⟩ | ⟨-, -, rfl⟩ | ⟨-, -, rfl⟩⟩
        · exact hheap
        · exact ordered_modify q r _ (fun _ => rfl) hheap
        · exact ordered_requeueMessage _ r
            (ordered_modify q r (fun m => m.updateVisibilityTimeout 0 (now 0)) (fun _ => rfl) hheap)
    · simp only [Prod.mk.injEq] at hstep
      rcases hstep with ⟨rfl, rfl⟩
      exact ⟨effect_refl q hs, hheap⟩
  | requeueInflightMessages =>
    rcases hstep with ⟨rfl, rfl⟩
    have hsub := selectAt_sublist now (fun r t => ((base q).objects r).isVisible t) q.inflight
    exact ⟨effect_putBack q putsBack_requeue hs _ (hsub.nodup hs.inflight_nodup)
        fun r hr => hsub.mem hr,
      foldlRecOn (motive := Ordered) _ _ hheap fun _ h r _ => ordered_requeueMessage _ r h⟩
  | enqueueDelayedMessages order =>
    rcases hstep with ⟨rfl, rfl⟩
    have hsub := selectAt_sublist now (fun r t => !((base q).objects r).isDelayed t) order
    have hperm : order.Perm q.delayed := hadm
    exact ⟨effect_putBack q putsBack_enqueueDelayed hs _
        (hsub.nodup (hperm.nodup_iff.mpr hs.delayed_nodup)) fun r hr =>
          hperm.mem_iff.mp (hsub.mem hr),
      foldlRecOn (motive := Ordered) _ _ hheap fun _ h r _ => ordered_enqueueDelayedMessage _ r h⟩
  | removeExpiredMessages =>
    rcases hstep with ⟨rfl, rfl⟩
    have hexp := removeExpiredMessagesFromHeap_perm q.toSqsQueue q.visible (now 0)
    exact ⟨effect_expire q { q with visible :=
      (removeExpiredMessagesFromHeap q.toSqsQueue q.visible (now 0)).1 } hs rfl _
        (Multiset.coe_eq_coe.mpr hexp), isHeap_removeExpiredMessagesFromHeap _ _ _ hheap⟩

/-! ### Whole runs -/

variable (arn : String) (attributes : QueueAttributes)

theorem sound_init : Sound 0 (init arn attributes) := by
  have hnone : ∀ r : Ref, r ∉ (0 : Multiset Ref) + held (init arn attributes) := by
    intro r hr
    exact absurd hr (Multiset.notMem_zero r)
  refine ⟨Multiset.nodup_zero, fun r hr => absurd hr (hnone r), fun r r' hr _ _ => ?_,
    fun r hr => absurd hr (hnone r), fun k r hk => ?_⟩
  · exact absurd hr (Nat.not_lt_zero r)
  · cases hk

/-- What every state of a run satisfies, together with the calls that led to it. -/
structure Invariant (calls : List Call) (q : StandardQueue) : Prop where
  accounted : Accounted (calls.map Call.event) q
  heap : Heapq.IsHeap q.priority q.visible
  removed : calls.Pairwise fun c c' => ∀ r, c.event.removed = some r → r ∉ c'.event.successful

variable (calls : List Call)

theorem invariant_step (q q' : StandardQueue) (c : Call) (h : Invariant calls q)
    (hstep : Step q c q') : Invariant (calls ++ [c]) q' := by
  rcases step_spec q q' c h.accounted.sound h.heap hstep with ⟨heff, hheap⟩
  refine ⟨?_, hheap, ?_⟩
  · rw [map_append]
    exact accounted_step _ q q' _ h.accounted heff
  · rw [pairwise_append]
    refine ⟨h.removed, pairwise_singleton _ c, ?_⟩
    intro c₁ hc₁ c₂ hc₂ r hr hsucc
    rw [mem_singleton.mp hc₂] at hsucc
    -- What is handed out is held, and a removed message is not.
    have hheld := (mem_held q r).mpr (.inr (.inl (heff.successful r hsucc).1))
    refine ((h.accounted.held r).mp hheld).2 ⟨c₁.event, mem_map_of_mem hc₁, ?_⟩
    unfold Event.gone
    rw [hr]
    simp

theorem invariant_run (q : StandardQueue)
    (h : Runs Step (init arn attributes) calls q) : Invariant calls q := by
  have hstart : Invariant [] (init arn attributes) :=
    ⟨accounted_init _ (sound_init _ _) rfl, Heapq.isHeap_nil _, List.Pairwise.nil⟩
  have hrun := Runs.history (P := Invariant) (fun calls q c q' => invariant_step _ q q' c) h
    [] hstart
  exact hrun

/-- Message conservation. After any run, every accepted message is in one place, once, or the queue
    has let go of it; the visible messages form a heap; a removal with a known handle takes its
    message out, and it is not handed out again; and the redrive policy bounds how often a message
    is handed out. -/
theorem conservation (q : StandardQueue) (h : Runs Step (init arn attributes) calls q) :
    (∀ r, Accepted (calls.map Call.event) r →
      ((q.delayed ++ q.visible ++ q.inflight).count r = 1 ∧ ¬ Gone (calls.map Call.event) r) ∨
      ((q.delayed ++ q.visible ++ q.inflight).count r = 0 ∧ Gone (calls.map Call.event) r)) ∧
    Heapq.IsHeap q.priority q.visible ∧
    (calls.Pairwise fun c c' => ∀ r, c.event.removed = some r → r ∉ c'.event.successful) ∧
    (∀ k now r q' removed, q.receipts k = some r → Sqs.remove q k now = .ok (q', removed) →
      removed = some r ∧ r ∉ q'.delayed ++ q'.visible ++ q'.inflight) ∧
    (∀ n : Nat, q.maxReceiveCount = some (n : Int) → ∀ r,
      (n ≠ 0 → successes (calls.map Call.event) r ≤ n) ∧
      (n = 0 → ∀ c ∈ calls, r ∉ c.event.deadLetterMessages)) := by
  have hinv := invariant_run _ _ _ q h
  have hacc := hinv.accounted
  refine ⟨fun r hr => ?_, hinv.heap, hinv.removed, fun k now r q' removed hr hok => ?_,
    fun n hn r => ?_⟩
  · have hiff := hacc.held r
    have hnodup := hacc.sound.held_nodup
    by_cases hgone : Gone (calls.map Call.event) r
    · exact .inr ⟨count_eq_zero_of_not_mem fun hc => (hiff.mp hc).2 hgone, hgone⟩
    · exact .inl ⟨count_eq_one_of_mem hnodup (hiff.mpr ⟨hr, hgone⟩), hgone⟩
  · rcases remove_ok q q' k now removed hok with ⟨hnone, -, -⟩ | ⟨r', hr', rfl, -, rfl⟩
    · cases hnone.symm.trans hr
    · obtain rfl : r' = r := Option.some_inj.mp (hr'.symm.trans hr)
      have hheld := (held_onRemoveMessage q hacc.sound k r' hr).1
      have hnodup : (held q).Nodup := by simpa using hacc.sound.nodup
      have hnot : r' ∉ (held q).erase r' := hnodup.notMem_erase
      refine ⟨rfl, fun hmem => hnot ?_⟩
      rw [mem_append, mem_append] at hmem
      rw [← hheld, mem_held, ← or_assoc]
      exact hmem
  · rcases hacc.limit n hn r with ⟨h1, h2⟩
    exact ⟨h1, fun hz c hc => h2 hz _ (mem_map_of_mem hc)⟩

/-- A message that is put, received, put back by a zero timeout and received
    again is in flight, once. -/
theorem conservation_received_twice :
    let inputs : List (Op × (Nat → ℚ)) :=
      [(.put { messageId := "m", body := "" } none none none none, fun i => i),
       (.receive 1 (some 0), fun i => 10 + i), (.receive 1 none, fun i => 20 + i)]
    let q := (drive perform (init "arn" {}) inputs).1
    let calls := (drive perform (init "arn" {}) inputs).2
    Accepted (calls.map Call.event) 0 ∧ successes (calls.map Call.event) 0 = 2 ∧
      (((q.delayed ++ q.visible ++ q.inflight).count 0 = 1 ∧ ¬ Gone (calls.map Call.event) 0) ∨
       ((q.delayed ++ q.visible ++ q.inflight).count 0 = 0 ∧ Gone (calls.map Call.event) 0)) := by
  intro inputs q calls
  have hdriven : Driven (fun q input => q.Admissible input.1) perform (init "arn" {}) inputs :=
    ⟨fun r hr => absurd hr (Nat.not_lt_zero r), trivial, trivial, trivial⟩
  have hacc : Accepted (calls.map Call.event) 0 := ⟨_, mem_cons_self, by decide +kernel⟩
  refine ⟨hacc, by decide +kernel, ?_⟩
  exact (conservation "arn" {} _ q (Runs.of_driven step_perform _ _ hdriven)).1 0 hacc

end LocalEmu.Sqs.StandardQueue
