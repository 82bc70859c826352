import LocalEmu.Theory.Sqs.FifoReceive
import Mathlib.Data.Nat.Cast.Order.Ring

/-!
# Runs of a FIFO Queue

The operations on a FIFO queue as one step function, and the group
bookkeeping along whole runs.

The clock never goes back: a run carries the time of its last reading, and
the readings of the next operation are at or after it. Without that a message
could be deleted while it waits in its group, and the group would be handed
out with nothing in it.

The bookkeeping survives every operation but one kind: pushing a message into
a stale group. `FifoQueue.pushedGroups` lists the groups an operation pushes
into, computed from the state before it, and `FifoQueue.bookkeeping` says
that a run none of whose steps pushes into a stale group keeps every group in
its place. `FifoQueue.bookkeeping_stale_push` is a run that does push into
one. Its message group expires as a whole and is then put into, after which
it waits in the queue twice.
-/

namespace LocalEmu.Sqs.FifoQueue

open List

open QueueKind LawfulQueueKind

/-! ### Putting -/

/-- The parameters of a `put` are acceptable. -/
def Valid (dedupId messageGroupId : Option String) (delaySeconds : Option Int) : Prop :=
  delaySeconds.getD 0 = 0 ∧ truthy messageGroupId = true ∧ truthy dedupId = true

instance (dedupId messageGroupId : Option String) (delaySeconds : Option Int) :
    Decidable (Valid dedupId messageGroupId delaySeconds) :=
  inferInstanceAs (Decidable (_ ∧ _ ∧ _))

/-- The message is a duplicate of the one remembered for its id. -/
def Duplicate (q : FifoQueue) (dedupId : Option String) (m : SqsMessage) : Bool :=
  match q.deduplication (dedupId.getD "") with
  | some original => q.isDuplicate m original
  | none => false

section Put

variable (sha256 : String → String)

/-- The message object a `put` creates. -/
def candidate (q : FifoQueue) (message : Message) (visibilityTimeout : Option Int)
    (messageDeduplicationId messageGroupId : Option String) (sequenceNumber : Nat)
    (now : Nat → ℚ) : SqsMessage :=
  q.newMessage message visibilityTimeout
    (effectiveDeduplicationId sha256 q message messageDeduplicationId) messageGroupId
    sequenceNumber now

/-- The outcomes of a `put`. -/
theorem put_cases (q : FifoQueue) (message : Message) (visibilityTimeout : Option Int)
    (messageDeduplicationId messageGroupId : Option String) (delaySeconds : Option Int)
    (sequenceNumber : Nat) (now : Nat → ℚ) :
    let dedupId := effectiveDeduplicationId sha256 q message messageDeduplicationId
    let m := q.candidate sha256 message visibilityTimeout messageDeduplicationId messageGroupId
      sequenceNumber now
    let result := q.put sha256 message visibilityTimeout messageDeduplicationId messageGroupId
      delaySeconds sequenceNumber now
    (¬ Valid dedupId messageGroupId delaySeconds ∧ ∃ e, result = .error e) ∨
    (Valid dedupId messageGroupId delaySeconds ∧ ∃ original,
      q.deduplication (dedupId.getD "") = some original ∧ q.isDuplicate m original = true ∧
      result = .ok (q, { m with message := { m.message with
        messageId := q.messageId original } }, false)) ∨
    (Valid dedupId messageGroupId delaySeconds ∧ q.Duplicate dedupId m = false ∧
      result = .ok (q.enqueue (dedupId.getD "") m (now 2), m, true)) := by
  intro dedupId m result
  by_cases hvalid : Valid dedupId messageGroupId delaySeconds
  · refine .inr ?_
    have hresult : result = (match q.deduplication (dedupId.getD "") with
        | some original =>
          if q.isDuplicate m original then
            .ok (q, { m with message := { m.message with
              messageId := q.messageId original } }, false)
          else .ok (q.enqueue (dedupId.getD "") m (now 2), m, true)
        | none => .ok (q.enqueue (dedupId.getD "") m (now 2), m, true)) := by
      show q.put sha256 message visibilityTimeout messageDeduplicationId messageGroupId
        delaySeconds sequenceNumber now = _
      unfold put
      rw [if_neg (not_not.mpr hvalid.1), if_neg (by simp [hvalid.2.1, Bool.not_true])]
      exact if_neg (by simp [show truthy (effectiveDeduplicationId sha256 q message
        messageDeduplicationId) = true from hvalid.2.2, Bool.not_true])
    rw [hresult]
    unfold Duplicate
    cases hlook : q.deduplication (dedupId.getD "") with
    | none => exact .inr ⟨hvalid, rfl, rfl⟩
    | some original =>
      cases hdup : q.isDuplicate m original with
      | true =>
        refine .inl ⟨hvalid, original, rfl, hdup, ?_⟩
        simp only [hdup, if_true]
      | false =>
        refine .inr ⟨hvalid, hdup, ?_⟩
        simp only [hdup, Bool.false_eq_true, if_false]
  · refine .inl ⟨hvalid, ?_⟩
    show ∃ e, q.put sha256 message visibilityTimeout messageDeduplicationId messageGroupId
      delaySeconds sequenceNumber now = .error e
    unfold put
    split
    · exact ⟨_, rfl⟩
    · next hdelay =>
        split
        · exact ⟨_, rfl⟩
        · next hgroup =>
            simp only
            split
            · exact ⟨_, rfl⟩
            · next hdedup =>
                refine absurd ⟨not_not.mp hdelay, ?_, ?_⟩ hvalid
                · simpa only [Bool.not_eq_true', Bool.not_eq_false] using hgroup
                · simpa only [Bool.not_eq_true', Bool.not_eq_false] using hdedup

end Put

variable {t : ℚ} {owed hand : Multiset Ref}

theorem Tidy.remember {q : FifoQueue} (h : Tidy t owed hand q)
    (deduplication : String → Option Ref) :
    Tidy t owed hand { q with deduplication := deduplication } :=
  h.of_core (h.sound.of_le (le_of_eq rfl) rfl (fun _ => rfl) (fun _ _ => rfl) h.sound.receipts)
    rfl rfl rfl rfl rfl rfl fun _ => rfl

variable (q : FifoQueue)

/-- The single operations. -/
theorem tidy_enqueue (dedupId : String) (m : SqsMessage) (now : ℚ) (h : Tidy t owed 0 q)
    (hlive : m.deleted = false) (hcount : m.receiveCount = 0)
    (hdeadline : m.visibilityDeadline = none)
    (hfresh : ∀ r, r < q.nextRef → q.messageId r ≠ m.message.messageId)
    (hstale : m.isDelayed now = false → ¬ q.Stale (m.message.messageGroupId.getD "")) :
    Tidy t owed 0 (q.enqueue dedupId m now) := by
  set q' := setBase q (q.alloc m)
  have hs : Sound ({q.nextRef} + 0) q' := sound_alloc q h.sound m hlive hfresh
  have hobj : ∀ r, r < q.nextRef → (q.alloc m).objects r = q.objects r := alloc_objects_of_lt _ m
  have hnew : (q.alloc m).objects q.nextRef = m := by rw [alloc_objects, if_pos rfl]
  have hvislt : ∀ r ∈ visible q, r < q.nextRef := h.sound.visible_lt
  have hgrouplt : ∀ g, ∀ r ∈ q.group g, r < q.nextRef := fun g r hr =>
    hvislt r ((mem_visible q r).mpr ⟨g, hr⟩)
  have hid : ∀ r, r < q.nextRef → q'.groupId r = q.groupId r := by
    intro r hr
    show ((q.alloc m).objects r).message.messageGroupId.getD "" = _
    rw [hobj r hr]
    rfl
  have hgrouped : Grouped (0 + owed) q' := by
    refine ⟨h.grouped.nodup, h.grouped.disjoint, h.grouped.covered, fun g hg => ?_,
      fun g r hr => ?_⟩
    · rcases h.grouped.outstanding g hg with ⟨r, hr, hrg⟩ | ⟨r, hr, hrg⟩
      · exact .inl ⟨r, hr, by rw [hid r (h.sound.inflight_lt r hr)]; exact hrg⟩
      · rw [zero_add] at hr
        refine .inr ⟨r, by rw [zero_add]; exact hr, ?_⟩
        rw [hid r (h.owed_lt r hr)]
        exact hrg
    · rw [hid r (hgrouplt g r hr)]
      exact h.grouped.ids g r hr
  have hheaps : ∀ g, Heapq.IsHeap (q.alloc m).priority (q.group g) := by
    intro g
    refine Heapq.isHeap_congr _ _ _ (h.heaps g) (fun r hr => ?_)
    unfold SqsQueue.priority
    rw [hobj r (hgrouplt g r hr)]
  have hreturned : ∀ r, r ∈ q.inflight ∨ r ∈ (0 : Multiset Ref) →
      1 ≤ ((q.alloc m).objects r).receiveCount := by
    intro r hr
    rcases hr with hr | hr
    · rw [hobj r (h.sound.inflight_lt r hr)]
      exact h.returned r (.inl hr)
    · exact absurd hr (Multiset.notMem_zero r)
  have howed : ∀ r ∈ owed, r < (q.alloc m).nextRef := fun r hr =>
    Nat.lt_succ_of_lt (h.owed_lt r hr)
  refine Tidy.remember ?_ _
  split
  · -- A delayed message does not touch the groups.
    have hadd : (q.alloc m).addDelayed q.nextRef =
        { q.alloc m with delayed := q.delayed ++ [q.nextRef] } :=
      addDelayed_delayed _ _ hs
    have hsound : Sound 0 (setBase q'
        ((q.alloc m).addDelayed q.nextRef)) :=
      sound_addDelayed _ _ hs
        (fun k hk => Nat.lt_irrefl _ (h.sound.receipts k _ hk).1)
    rw [hadd] at hsound
    show Tidy t owed 0 (setBase q' ((q.alloc m).addDelayed q.nextRef))
    rw [hadd]
    refine ⟨hsound, hgrouped.congr rfl rfl rfl rfl (fun _ => rfl), howed, fun r hr => ?_, hreturned,
      fun r hr => ?_, hheaps⟩
    · show ((q.alloc m).objects r).isVisible t = true
      rw [hobj r (hvislt r hr)]
      exact h.settled r hr
    · show ((q.alloc m).objects r).visibilityDeadline = none ∧
        ((q.alloc m).objects r).receiveCount = 0
      rcases mem_append.mp hr with hr | hr
      · rw [hobj r (h.sound.delayed_lt r hr)]
        exact h.untouched r hr
      · rw [mem_singleton.mp hr, hnew]
        exact ⟨hdeadline, hcount⟩
  · next hdelayed =>
      have hgid : q'.groupId q.nextRef =
          m.message.messageGroupId.getD "" := by
        show ((q.alloc m).objects q.nextRef).message.messageGroupId.getD "" = _
        rw [hnew]
      have hnot : ¬ q'.Stale (q'.groupId q.nextRef) := by
        rw [hgid]
        exact hstale (Bool.not_eq_true _ ▸ hdelayed)
      have hb : (q'.putMessage q.nextRef).toSqsQueue = q.alloc m := putMessage_base _ _
      show Tidy t owed 0 (q'.putMessage q.nextRef)
      refine ⟨sound_putMessage _ _ hs, grouped_putMessage_new _ _ hgrouped hnot,
        by rw [hb]; exact howed, fun r hr => ?_, fun r hr => ?_, fun r hr => ?_,
        isHeap_putMessage _ _ hheaps⟩
      · have hcases : r ∈ ({q.nextRef} : Multiset Ref) + visible q := by
          have hput := visible_putMessage q' q.nextRef
          rw [visible_setBase] at hput
          rw [← hput]
          exact hr
        rw [hb]
        rw [Multiset.mem_add, Multiset.mem_singleton] at hcases
        rcases hcases with rfl | hr
        · rw [hnew]
          unfold SqsMessage.isVisible
          rw [hdeadline]
        · rw [hobj r (hvislt r hr)]
          exact h.settled r hr
      · rw [hb] at hr ⊢
        exact hreturned r hr
      · rw [hb] at hr ⊢
        rw [hobj r (h.sound.delayed_lt r hr)]
        exact h.untouched r hr

/-! ### Single operations -/

theorem tidy_foldl {place : FifoQueue → List Ref} {move : FifoQueue → Ref → FifoQueue}
    (hmove : PutsBack place move) (test : Ref → Prop) (q : FifoQueue) (h : Tidy t owed 0 q)
    (l : List Ref) (hn : l.Nodup) (hl : ∀ r ∈ l, r ∈ place q ∧ test r)
    (hstale : ∀ r ∈ l, ¬ q.Stale (q.groupId r))
    (htidy : ∀ q' r, Tidy t owed 0 q' → q'.objects = q.objects → r ∈ place q' → test r →
      ¬ q'.Stale (q'.groupId r) → Tidy t owed 0 (move q' r))
    (hput : ∀ q' r g, (move q' r).Stale g → q'.Stale g) :
    Tidy t owed 0 (l.foldl move q) := by
  have hinv := hmove.foldl
    (P := fun q' : FifoQueue => Tidy t owed 0 q' ∧ q'.objects = q.objects ∧
      ∀ g, q'.Stale g → q.Stale g)
    (fun r => test r ∧ ¬ q.Stale (q.groupId r))
    (fun q' r hp hr htest => ?_) l q h.sound ⟨h, rfl, fun _ hg => hg⟩ hn
    (fun r hr => ⟨(hl r hr).1, (hl r hr).2, hstale r hr⟩)
  · exact hinv.2.2.2.1
  · rcases hp with ⟨hp, hobj, hold⟩
    have hid : q'.groupId r = q.groupId r := by
      unfold groupId
      rw [hobj]
    refine ⟨htidy q' r hp hobj hr htest.1 fun hc => ?_, (hmove.frame q' r).2.2.trans hobj,
      fun g hg => hold g (hput q' r g hg)⟩
    rw [hid] at hc
    exact htest.2 (hold _ hc)

/-- The group a change of a visibility timeout pushes into: that of a message
    in flight whose timeout is set to zero. -/
def terminatedGroup (h : ReceiptHandle) (visibilityTimeout : Int) : Option String :=
  match q.receipts h with
  | none => none
  | some r => if q.isInflight r ∧ visibilityTimeout = 0 then some (q.groupId r) else none

variable (now : Nat → ℚ) (q' : FifoQueue) (k : ReceiptHandle)

theorem tidy_updateVisibilityTimeout (visibilityTimeout : Int) (now : ℚ) (hnow : now ≤ t)
    (h : Tidy t owed 0 q)
    (hok : Sqs.updateVisibilityTimeout q k visibilityTimeout now = .ok q')
    (hstale : ∀ g, q.terminatedGroup k visibilityTimeout = some g → ¬ q.Stale g) :
    Tidy t owed 0 q' ∧ ∀ g, q'.Stale g → q.Stale g := by
  rcases updateVisibilityTimeout_ok q q' k _ _ hok with ⟨r, hr, hcase⟩
  have hr : q.receipts k = some r := hr
  have hlt : r < q.nextRef := (h.sound.receipts k r hr).1
  -- A message in flight is neither visible nor delayed.
  have hmod : ∀ timeout : Int, q.isInflight r = true →
      Tidy t owed 0 (setBase q (q.modify r fun m => m.updateVisibilityTimeout timeout now)) := by
    intro timeout hin
    have hmem : r ∈ q.inflight := (h.sound.isInflight_iff r hlt).mp hin
    exact tidy_modify q r _ h (fun hc => h.sound.not_inflight_of_visible hc hmem)
      (fun hc => h.sound.not_inflight_of_delayed hc hmem) (fun _ => rfl) (fun _ => rfl)
      (fun _ => rfl) (fun _ => rfl) (fun _ => rfl)
  rcases hcase with ⟨-, rfl⟩ | ⟨hin, -, rfl⟩ | ⟨hin, hzero, rfl⟩
  · exact ⟨h, fun _ hg => hg⟩
  · exact ⟨hmod _ hin, fun _ hg => hg⟩
  · have hin : q.isInflight r = true := hin
    have hmem : r ∈ q.inflight := (h.sound.isInflight_iff r hlt).mp hin
    have hgroup : q.terminatedGroup k visibilityTimeout = some (q.groupId r) := by
      unfold terminatedGroup
      rw [hr]
      simp only
      rw [if_pos ⟨hin, hzero⟩]
    have hq : ∃ q₁ : FifoQueue, q₁ = setBase q ((base q).modify r
        fun m => m.updateVisibilityTimeout 0 now) := ⟨_, rfl⟩
    rcases hq with ⟨q₁, hq₁⟩
    have hobj : q₁.objects r = (q.objects r).updateVisibilityTimeout 0 now := by
      rw [hq₁]
      exact modify_objects_self _ r fun m => m.updateVisibilityTimeout 0 now
    have hsame : ∀ g, q₁.Stale g → q.Stale g := by
      intro g hg
      rw [hq₁] at hg
      exact hg
    have hid : q₁.groupId r = q.groupId r := by
      unfold groupId
      rw [hobj]
      rfl
    have htidy : Tidy t owed 0 q₁ := by
      rw [hq₁]
      exact hmod 0 hin
    have hmem₁ : r ∈ q₁.inflight := by
      rw [hq₁]
      exact hmem
    rw [← hq₁]
    refine ⟨tidy_requeueMessage _ r htidy hmem₁ ?_ ?_, fun g hg => ?_⟩
    · rw [hobj]
      simp only [SqsMessage.isVisible, SqsMessage.updateVisibilityTimeout, Int.cast_zero,
        add_zero, decide_eq_true_eq]
      exact hnow
    · intro hc
      rw [hid] at hc
      exact hstale _ hgroup (hsame _ hc)
    · exact hsame g (stale_of_putMessage (setBase q₁ (q₁.delInflight r)) r g hg)

theorem updateMessageGroupVisibility_frame (g : String) :
    (q.updateMessageGroupVisibility g).toSqsQueue = q.toSqsQueue ∧
      (q.updateMessageGroupVisibility g).messageGroups = q.messageGroups ∧
      ∀ g', (q.updateMessageGroupVisibility g).Stale g' → q.Stale g' := by
  unfold updateMessageGroupVisibility
  split
  · split
    · exact ⟨rfl, rfl, fun _ hg => hg⟩
    · simp only
      split
      · exact ⟨rfl, rfl, fun _ hg => hg⟩
      · next hne =>
          refine ⟨rfl, rfl, fun g' hg' => ⟨?_, hg'.2⟩⟩
          refine (mem_append.mp hg'.1).resolve_right (fun hc => ?_)
          rw [mem_singleton.mp hc] at hg'
          exact hne (isEmpty_iff.mpr hg'.2)
  · exact ⟨rfl, rfl, fun _ hg => hg⟩

theorem tidy_updateMessageGroupVisibility (r : Ref) (hs : Sound hand q)
    (hg : Grouped ({r} + (hand + owed)) q) (howed : ∀ r' ∈ owed, r' < q.nextRef)
    (hsettled : ∀ r' ∈ visible q, (q.objects r').isVisible t = true)
    (hreturned : ∀ r', r' ∈ q.inflight ∨ r' ∈ hand → 1 ≤ (q.objects r').receiveCount)
    (huntouched : ∀ r' ∈ q.delayed,
      (q.objects r').visibilityDeadline = none ∧ (q.objects r').receiveCount = 0)
    (hheaps : ∀ g, Heapq.IsHeap q.priority (q.group g)) :
    Tidy t owed hand (q.updateMessageGroupVisibility (q.groupId r)) := by
  set q' := q.updateMessageGroupVisibility (q.groupId r)
  rcases updateMessageGroupVisibility_frame q _ with ⟨hb, hm, -⟩
  have hvis : visible q' = visible q := by
    show q'.messageGroups.total _ = _
    rw [hm]
    rfl
  have hheld : held q' = held q := by
    show ((q'.toSqsQueue.delayed : List Ref) :
      Multiset Ref) + visible q' +
      ((q'.toSqsQueue.inflight : List Ref) :
      Multiset Ref) = _
    rw [hvis, hb]
    rfl
  have hbase : base q' = base q := hb
  refine ⟨?_, grouped_updateMessageGroupVisibility q r hg, by rw [hb]; exact howed, ?_, ?_, ?_,
    fun g => ?_⟩
  · refine hs.of_le (by rw [hheld]) (by rw [hbase]) (fun _ => by rw [hbase])
      (fun _ _ => by rw [hbase]) (fun k r' hk => ?_)
    rw [hbase] at hk ⊢
    exact hs.receipts k r' hk
  · rw [hvis, hb]
    exact hsettled
  · rw [hb]
    exact hreturned
  · rw [hb]
    exact huntouched
  · have hgroup : q'.group g = q.group g := by
      unfold group
      rw [hm]
    rw [hb, hgroup]
    exact hheaps g

/-- The provider's step for the dead letters of a `receive`. -/
def releaseDeadLetters (deadLetterMessages : List Ref) : FifoQueue :=
  deadLetterMessages.foldl (fun q r => q.updateMessageGroupVisibility (q.groupId r)) q

theorem tidy_releaseDeadLetters (l : List Ref) : ∀ (q : FifoQueue),
    Tidy t owed (l : Multiset Ref) q → Tidy t owed 0 (q.releaseDeadLetters l) := by
  induction l with
  | nil => exact fun q h => h
  | cons r l ih =>
    intro q h
    rw [← Multiset.cons_coe, ← Multiset.singleton_add] at h
    refine ih _ ?_
    refine tidy_updateMessageGroupVisibility q r (h.sound.drop (Multiset.le_add_left _ _))
      (by have hg := h.grouped; rw [add_assoc] at hg; exact hg) h.owed_lt h.settled
      (fun r' hr' => h.returned r' ?_) h.untouched h.heaps
    exact hr'.imp_right fun hc => Multiset.mem_add.mpr (.inr hc)

/-- What a deletion that does not raise has done. The message is not waiting
    in its group, since its visibility timeout is still running. -/
theorem remove_spec (now : ℚ) (hnow : t ≤ now) (removed : Option Ref) (h : Tidy t owed 0 q)
    (hok : Sqs.remove q k now = .ok (q', removed)) :
    (removed = none ∧ q' = q) ∨
      ∃ r, removed = some r ∧ r < q.nextRef ∧ r ∉ q.delayed ∧ r ∉ visible q ∧
        q' = (setBase (markDeleted q r)
          ((markDeleted q r).delInflight r)).updateMessageGroupVisibility
          (q.groupId r) := by
  rcases remove_ok q q' k _ _ hok with ⟨-, hnone⟩ | ⟨r, hr, hrem, hcheck, hq⟩
  · exact .inl hnone
  · refine .inr ⟨r, hrem, (h.sound.receipts k r hr).1, (h.sound.receipts k r hr).2, ?_, ?_⟩
    · intro hc
      have hvis := isVisible_mono _ hnow (h.settled r hc)
      have hcheck : q.preDeleteChecks r k now = .ok () := hcheck
      unfold preDeleteChecks at hcheck
      rw [if_pos hvis] at hcheck
      cases hcheck
    · have hid : (setBase (markDeleted q r) ((markDeleted q r).delInflight r)).groupId r =
          q.groupId r :=
        markDeleted_field (fun m => m.message.messageGroupId.getD "") (fun _ => rfl) q r r
      rw [hq, ← hid]
      rfl

theorem delInflight_markDeleted (h : Sound 0 q) (r : Ref) (hr : r < q.nextRef) :
    ((markDeleted q r).delInflight r).inflight = q.inflight.erase r := by
  have hids : ∀ r', (markDeleted q r).messageId r' = q.messageId r' :=
    markDeleted_field (fun m => m.message.messageId) (fun _ => rfl) q r
  have hdist : (markDeleted q r).Distinct := by
    intro r₁ r₂ h₁ h₂ he
    rw [hids, hids] at he
    exact h.ids _ _ h₁ h₂ he
  exact eraseP_sameMessage (markDeleted q r).toSqsQueue hdist r hr _ h.inflight_lt

theorem held_delInflight_markDeleted (h : Sound 0 q) (r : Ref) (hr : r < q.nextRef)
    (hdelayed : r ∉ q.delayed) (hvis : r ∉ visible q) :
    held (setBase (markDeleted q r) ((markDeleted q r).delInflight r)) = (held q).erase r := by
  have hdel := delInflight_markDeleted q h r hr
  show (q.delayed : Multiset Ref) + visible q +
    ((((markDeleted q r).delInflight r).inflight : List Ref) : Multiset Ref) = _
  rw [hdel, ← Multiset.coe_erase]
  refine (Multiset.erase_add_right_neg _ ?_).symm
  rw [Multiset.mem_add, not_or]
  exact ⟨hdelayed, hvis⟩

theorem tidy_remove (now : ℚ) (hnow : t ≤ now) (removed : Option Ref) (h : Tidy t owed 0 q)
    (hok : Sqs.remove q k now = .ok (q', removed)) :
    Tidy t owed 0 q' ∧ ∀ g, q'.Stale g → q.Stale g := by
  rcases remove_spec q q' k _ hnow _ h hok with ⟨-, rfl⟩ | hsome
  · exact ⟨h, fun _ hg => hg⟩
  rcases hsome with ⟨r, -, hlt, hdelayed, hvis, rfl⟩
  have hinflight := delInflight_markDeleted q h.sound r hlt
  have hheld := held_delInflight_markDeleted q h.sound r hlt hdelayed hvis
  have hobj : ∀ r', r' ≠ r → (markDeleted q r).objects r' = q.objects r' := by
    intro r' hr'
    show (base (markDeleted q r)).objects r' = _
    rw [base_markDeleted]
    exact Function.update_of_ne hr' _ _
  have hid : ∀ r', (setBase (markDeleted q r) ((markDeleted q r).delInflight r)).groupId r' =
      q.groupId r' :=
    markDeleted_field (fun m => m.message.messageGroupId.getD "") (fun _ => rfl) q r
  have hprio : (markDeleted q r).priority = q.priority := by
    ext r'
    exact markDeleted_field _ (fun _ => rfl) q r r'
  have hne : ∀ r' ∈ q.inflight.erase r, r' ≠ r := fun r' hr' hc =>
    ((List.Nodup.mem_erase_iff h.sound.inflight_nodup).mp hr').1 hc
  have hsound : Sound 0 (setBase (markDeleted q r) ((markDeleted q r).delInflight r)) :=
    (effect_remove q (setBase (markDeleted q r) ((markDeleted q r).delInflight r)) h.sound r hlt
      rfl hheld).sound
  -- The message is counted as in hand until its group has been looked at.
  have hgrouped : Grouped ({r} + (0 + owed))
      (setBase (markDeleted q r) ((markDeleted q r).delInflight r)) := by
    refine h.grouped.of_base rfl rfl rfl hid (fun g _ r' hr' hrg => ?_)
    rcases hr' with hr' | hr'
    · by_cases hc : r' = r
      · exact .inr ⟨r', Multiset.mem_add.mpr (.inl (Multiset.mem_singleton.mpr hc)), hrg⟩
      · refine .inl ⟨r', ?_, hrg⟩
        show r' ∈ ((markDeleted q r).delInflight r).inflight
        rw [hinflight]
        exact (mem_erase_of_ne hc).mpr hr'
    · exact .inr ⟨r', Multiset.mem_add.mpr (.inr hr'), hrg⟩
  have htidy := tidy_updateMessageGroupVisibility (t := t)
    _ r hsound hgrouped
    h.owed_lt (fun r' hr' => ?_) (fun r' hr' => ?_) (fun r' hr' => ?_) (fun g => ?_)
  · rw [hid] at htidy
    exact ⟨htidy, fun g hg => (updateMessageGroupVisibility_frame
      (setBase (markDeleted q r) ((markDeleted q r).delInflight r)) _).2.2 g hg⟩
  · have hr' : r' ∈ visible q := hr'
    show ((markDeleted q r).objects r').isVisible t = true
    rw [hobj r' (fun hc => hvis (hc ▸ hr'))]
    exact h.settled r' hr'
  · rcases hr' with hr' | hr'
    · have hr' : r' ∈ ((markDeleted q r).delInflight r).inflight := hr'
      rw [hinflight] at hr'
      show 1 ≤ ((markDeleted q r).objects r').receiveCount
      rw [hobj r' (hne r' hr')]
      exact h.returned r' (.inl (mem_of_mem_erase hr'))
    · exact absurd hr' (Multiset.notMem_zero r')
  · have hr' : r' ∈ q.delayed := hr'
    show ((markDeleted q r).objects r').visibilityDeadline = none ∧
      ((markDeleted q r).objects r').receiveCount = 0
    rw [hobj r' (fun hc => hdelayed (hc ▸ hr'))]
    exact h.untouched r' hr'
  · show Heapq.IsHeap (markDeleted q r).priority (q.group g)
    rw [hprio]
    exact h.heaps g

theorem tidy_removeExpiredGroup (s : FifoQueue × List Ref) (e : String × Nat)
    (h : Tidy t owed 0 s.1) : Tidy t owed 0 (removeExpiredGroup now s e).1 := by
  have hperm := removeExpiredMessagesFromHeap_perm s.1.toSqsQueue (s.1.group e.1) (now e.2)
  have hheap := isHeap_removeExpiredMessagesFromHeap s.1.toSqsQueue _ (now e.2) (h.heaps e.1)
  generalize hx : removeExpiredMessagesFromHeap s.1.toSqsQueue (s.1.group e.1) (now e.2) = x at *
  have hstep : (removeExpiredGroup now s e).1 = s.1.setGroup e.1 x.1 := by
    unfold removeExpiredGroup
    simp only [hx]
  have hsub : ∀ g r, r ∈ (s.1.setGroup e.1 x.1).group g → r ∈ s.1.group g := by
    intro g r hr
    rw [group_setGroup] at hr
    by_cases hc : g = e.1
    · rw [if_pos hc] at hr
      rw [hc]
      exact hperm.mem_iff.mp (mem_append_left _ hr)
    · rw [if_neg hc] at hr
      exact hr
  have hvis : visible (s.1.setGroup e.1 x.1) + (x.2 : Multiset Ref) = visible s.1 := by
    have htotal := total_setGroup s.1 e.1 x.1
    have hsplit : ((s.1.group e.1 : List Ref) : Multiset Ref) =
        (x.1 : Multiset Ref) + (x.2 : Multiset Ref) := by
      exact (Multiset.coe_eq_coe.mpr hperm).symm
    rw [hsplit, add_comm (x.1 : Multiset Ref), ← add_assoc] at htotal
    exact add_right_cancel htotal
  rw [hstep]
  refine ⟨(effect_expire s.1 (s.1.setGroup e.1 x.1) h.sound rfl x.2 hvis).sound, ⟨h.grouped.nodup,
    h.grouped.disjoint, fun g hg => h.grouped.covered g fun hc => hg ?_, h.grouped.outstanding,
    fun g r hr => h.grouped.ids g r (hsub g r hr)⟩, h.owed_lt, fun r hr =>
      h.settled r ?_, h.returned,
    h.untouched, fun g => ?_⟩
  · rw [eq_nil_iff_forall_not_mem] at hc ⊢
    exact fun r hr => hc r (hsub g r hr)
  · rw [← hvis]
    exact Multiset.mem_add.mpr (.inl hr)
  · rw [group_setGroup]
    split
    · exact hheap
    · exact h.heaps g

theorem tidy_removeExpired (q : FifoQueue) (now : Nat → ℚ) (h : Tidy t owed 0 q) :
    Tidy t owed 0 (q.removeExpiredMessages now).1 := by
  exact foldlRecOn (motive := fun s : FifoQueue × List Ref => Tidy t owed 0 s.1) _ _ h
    fun s hs e _ => tidy_removeExpiredGroup _ s e hs

theorem tidy_of_empty (hids : q.Distinct) (hdelayed : q.delayed = []) (hinflight : q.inflight = [])
    (hreceipts : ∀ k, q.receipts k = none)
    (hgroups : q.messageGroups = Dict.empty) (hin : q.inflightGroups = ∅)
    (hqueue : q.messageGroupQueue = []) (howed : ∀ r ∈ owed, r < q.nextRef) :
    Tidy t owed 0 q := by
  have hgroup : ∀ g, q.group g = [] := fun g => by
    unfold group
    rw [hgroups]
    rfl
  have hvis : visible q = 0 := by
    show q.messageGroups.total _ = 0
    rw [hgroups]
    rfl
  have hheld : held q = 0 := by
    show (q.delayed : Multiset Ref) + visible q + (q.inflight : Multiset Ref) = 0
    rw [hdelayed, hinflight, hvis]
    rfl
  have hnone : ∀ r, r ∉ (0 : Multiset Ref) + held q := fun r hr => by
    rw [hheld] at hr
    exact absurd hr (Multiset.notMem_zero r)
  refine ⟨⟨?_, fun r hr => absurd hr (hnone r), hids, fun r hr => absurd hr (hnone r),
    fun k r hk => ?_⟩, ⟨?_, ?_, fun g hg => absurd (hgroup g) hg, ?_, fun g r hr => ?_⟩, howed,
    fun r hr => ?_, fun r hr => ?_, fun r hr => ?_, fun g => ?_⟩
  · rw [hheld]
    exact Multiset.nodup_zero
  · have hk : q.receipts k = some r := hk
    rw [hreceipts] at hk
    cases hk
  · rw [hqueue]
    exact nodup_nil
  · rw [hqueue]
    exact fun g hg => absurd hg not_mem_nil
  · rw [hin]
    exact fun g hg => absurd hg (Finset.notMem_empty g)
  · rw [hgroup] at hr
    exact absurd hr not_mem_nil
  · rw [hvis] at hr
    exact absurd hr (Multiset.notMem_zero r)
  · rw [hinflight] at hr
    rcases hr with hr | hr
    · exact absurd hr not_mem_nil
    · exact absurd hr (Multiset.notMem_zero r)
  · rw [hdelayed] at hr
    exact absurd hr not_mem_nil
  · rw [hgroup]
    exact Heapq.isHeap_nil _

/-! ### Re-queueing -/

/-- The messages `requeue_inflight_messages` puts back: those before the first
    one that is still invisible. -/
def expiredPrefix : List Ref :=
  (q.inflight.zipIdx.takeWhile fun e => (q.objects e.1).isVisible (now e.2)).map Prod.fst

theorem requeueLoop_eq : ∀ (l : List (Ref × Nat)) (q' : FifoQueue), q'.objects = q.objects →
      requeueLoop now l q' =
        ((l.takeWhile fun e => (q.objects e.1).isVisible (now e.2)).map Prod.fst).foldl
          requeueMessage q' := by
  intro l
  induction l with
  | nil => exact fun _ _ => rfl
  | cons e l ih =>
    intro q' hobj
    rcases e with ⟨r, i⟩
    unfold requeueLoop
    rw [hobj]
    cases hvis : (q.objects r).isVisible (now i) with
    | false =>
      rw [takeWhile_cons_of_neg (by simp [hvis])]
      simp
    | true =>
      rw [takeWhile_cons_of_pos (by simp [hvis])]
      refine ih _ ?_
      have hb : (requeueMessage q' r).toSqsQueue = q'.delInflight r := base_requeueMessage q' r
      rw [hb]
      exact hobj

theorem requeueInflightMessages_eq :
    q.requeueInflightMessages now = (q.expiredPrefix now).foldl requeueMessage q :=
  requeueLoop_eq q _ _ q rfl

theorem expiredPrefix_sublist : (q.expiredPrefix now).Sublist q.inflight := by
  have hfst : q.inflight.zipIdx.map Prod.fst = q.inflight := zipIdx_map_fst 0 _
  conv_rhs => rw [← hfst]
  exact (takeWhile_sublist _).map Prod.fst

theorem isVisible_of_mem_expiredPrefix (r : Ref)
    (hr : r ∈ q.expiredPrefix now) : ∃ i, (q.objects r).isVisible (now i) = true := by
  rcases mem_map.mp hr with ⟨e, he, rfl⟩
  exact ⟨e.2, all_eq_true.mp all_takeWhile e he⟩

/-! ### Steps -/

/-- The operations on a FIFO queue. `receive` is the method of the queue alone and `receiveMessage`
    the method followed by the provider's step for the dead letters. -/
inductive Op
  | put (message : Message) (visibilityTimeout : Option Int)
      (messageDeduplicationId messageGroupId : Option String) (delaySeconds : Option Int)
      (sequenceNumber : Nat)
  | receive (numMessages : Int) (visibilityTimeout : Option Int)
  | receiveMessage (numMessages : Int) (visibilityTimeout : Option Int)
  | remove (receiptHandle : ReceiptHandle)
  | updateVisibilityTimeout (receiptHandle : ReceiptHandle) (visibilityTimeout : Int)
  | requeueInflightMessages
  | enqueueDelayedMessages (order : List Ref)
  | removeExpiredMessages
  | clear
  deriving DecidableEq

def Op.isReceive : Op → Bool
  | .receive _ _ => true
  | _ => false

section Steps

variable (sha256 : String → String)

variable (s : FifoQueue × ℚ) (input : Op × ℚ) (q : FifoQueue)

/-- One operation, with what it did. An operation that raises leaves the queue as it was. -/
def step (op : Op) (now : Nat → ℚ) : FifoQueue × Event :=
  match op with
  | .put message visibilityTimeout messageDeduplicationId messageGroupId delaySeconds
      sequenceNumber =>
      match q.put sha256 message visibilityTimeout messageDeduplicationId messageGroupId
        delaySeconds sequenceNumber now with
      | .ok (q', _, enqueued) => (q', { accepted := if enqueued then some q.nextRef else none })
      | .error _ => (q, {})
  | .receive numMessages visibilityTimeout =>
    let s := q.receive numMessages visibilityTimeout now
    (s.1, { successful := s.2.successful, deadLetterMessages := s.2.deadLetterMessages })
  | .receiveMessage numMessages visibilityTimeout =>
    let s := q.receive numMessages visibilityTimeout now
    (s.1.releaseDeadLetters s.2.deadLetterMessages,
      { successful := s.2.successful, deadLetterMessages := s.2.deadLetterMessages })
  | .remove receiptHandle =>
    match Sqs.remove q receiptHandle (now 0) with
    | .ok (q', removed) => (q', { removed := removed })
    | .error _ => (q, {})
  | .updateVisibilityTimeout receiptHandle visibilityTimeout =>
    match Sqs.updateVisibilityTimeout q receiptHandle visibilityTimeout (now 0) with
    | .ok q' => (q', {})
    | .error _ => (q, {})
  | .requeueInflightMessages => (q.requeueInflightMessages now, {})
  | .enqueueDelayedMessages order => (Sqs.enqueueDelayedMessages q order now, {})
  | .removeExpiredMessages =>
    let s := q.removeExpiredMessages now
    (s.1, { expired := s.2 })
  | .clear => (q.clear, {})

/-- What the environment guarantees of an operation: message ids are fresh,
    and a set is iterated in some order of its elements. -/
def Admissible : Op → Prop
  | .put message _ _ _ _ _ => ∀ r, r < q.nextRef → q.messageId r ≠ message.messageId
  | .enqueueDelayedMessages order => order.Perm q.delayed
  | _ => True

/-- The groups an operation pushes messages into that it has not just taken from them. -/
def pushedGroups (op : Op) (now : Nat → ℚ) : List String :=
  match op with
  | .put message visibilityTimeout messageDeduplicationId messageGroupId delaySeconds
      sequenceNumber =>
      let dedupId := effectiveDeduplicationId sha256 q message messageDeduplicationId
      let m := q.candidate sha256 message visibilityTimeout messageDeduplicationId messageGroupId
        sequenceNumber now
      if Valid dedupId messageGroupId delaySeconds ∧ q.Duplicate dedupId m = false ∧
          m.isDelayed (now 2) = false then
        [m.message.messageGroupId.getD ""]
      else []
  | .updateVisibilityTimeout receiptHandle visibilityTimeout =>
    (q.terminatedGroup receiptHandle visibilityTimeout).toList
  | .requeueInflightMessages => (q.expiredPrefix now).map q.groupId
  | .enqueueDelayedMessages order =>
    (selectAt now (fun r t => !(q.objects r).isDelayed t) order).map q.groupId
  | _ => []

/-- One step of a run: an operation, the clock readings it made, and what it did. -/
structure Call where
  op : Op
  now : Nat → ℚ
  event : Event

/-- The step relation of a run. The state carries the time, and the readings
    of an operation lie between the times before and after it. -/
def Step (c : Call) (s' : FifoQueue × ℚ) : Prop :=
  s.1.Admissible c.op ∧ Monotone c.now ∧ (∀ i, s.2 ≤ c.now i ∧ c.now i ≤ s'.2) ∧
    s.1.step sha256 c.op c.now = (s'.1, c.event)

/-- The dead letters of a bare `receive` stay owed. -/
def Call.unreleased (c : Call) : Multiset Ref :=
  if c.op.isReceive then (c.event.deadLetterMessages : Multiset Ref) else 0

-- Any operation keeps a queue tidy, unless it pushes into a stale group.
/-- Any operation that pushes into no stale group. -/
theorem tidy_step (q q' : FifoQueue) (t t' : ℚ) (c : Call) (h : Tidy t owed 0 q)
    (hstep : Step sha256 (q, t) c (q', t'))
    (hpush : ∀ g ∈ q.pushedGroups sha256 c.op c.now, ¬ q.Stale g) :
    Tidy t' (c.unreleased + owed) 0 q' := by
  rcases c with ⟨op, now, e⟩
  rcases hstep with ⟨hadm, -, hclock, hstep⟩
  simp only at hadm hclock hstep hpush
  have htt : t ≤ t' := le_trans (hclock 0).1 (hclock 0).2
  have h' := h.mono htt
  have hzero : ∀ {q' : FifoQueue}, op.isReceive = false → Tidy t' owed 0 q' →
      Tidy t' (Call.unreleased ⟨op, now, e⟩ + owed) 0 q' := by
    intro q' hop hq'
    unfold Call.unreleased
    simp only [hop, Bool.false_eq_true, if_false, zero_add]
    exact hq'
  cases op with
  | put message visibilityTimeout messageDeduplicationId messageGroupId delaySeconds
      sequenceNumber =>
      have hcases := put_cases sha256 q message visibilityTimeout messageDeduplicationId
        messageGroupId delaySeconds sequenceNumber now
      unfold step at hstep
      rcases hcases with ⟨-, x, hput⟩ | ⟨-, x, -, -, hput⟩ | ⟨hvalid, hdup, hput⟩
      · simp only [hput, Prod.mk.injEq] at hstep
        rw [← hstep.1]
        exact hzero rfl h'
      · simp only [hput, Prod.mk.injEq] at hstep
        rw [← hstep.1]
        exact hzero rfl h'
      · simp only [hput, Prod.mk.injEq] at hstep
        rw [← hstep.1]
        refine hzero rfl (tidy_enqueue q _ _ _ h' rfl rfl rfl hadm (fun hdel => hpush _ ?_))
        unfold pushedGroups
        simp only
        rw [if_pos ⟨hvalid, hdup, hdel⟩]
        exact mem_singleton_self _
  | receive numMessages visibilityTimeout =>
    have htidy := (tidy_receive q numMessages visibilityTimeout _ (fun i => (hclock i).2) h').1
    rcases hstep with ⟨rfl, rfl⟩
    -- What was in hand is owed from now on.
    refine ⟨htidy.sound.drop (Multiset.zero_le _), ?_, fun r hr => ?_, htidy.settled,
      fun r hr => htidy.returned r ?_, htidy.untouched, htidy.heaps⟩
    · rw [zero_add]
      exact htidy.grouped
    · rcases Multiset.mem_add.mp hr with hr | hr
      · exact htidy.sound.hand_lt r hr
      · exact htidy.owed_lt r hr
    · exact hr.imp_right fun hc => absurd hc (Multiset.notMem_zero r)
  | receiveMessage =>
    simp only [step, Prod.mk.injEq] at hstep
    rw [← hstep.1]
    exact hzero rfl (tidy_releaseDeadLetters _ _
      (tidy_receive q _ _ _ (fun i => (hclock i).2) h').1)
  | remove =>
    unfold step at hstep
    simp only at hstep
    split at hstep
    · next q₁ removed hok =>
        simp only [Prod.mk.injEq] at hstep
        rw [← hstep.1]
        exact hzero rfl ((tidy_remove q _ _ _ (hclock 0).1 _ h hok).1.mono htt)
    · simp only [Prod.mk.injEq] at hstep
      rw [← hstep.1]
      exact hzero rfl h'
  | updateVisibilityTimeout =>
    unfold step at hstep
    simp only at hstep
    split at hstep
    · next q₁ hok =>
        simp only [Prod.mk.injEq] at hstep
        rw [← hstep.1]
        refine hzero rfl (tidy_updateVisibilityTimeout q _ _ _
          _ (hclock 0).2 h' hok (fun g hg => hpush g ?_)).1
        unfold pushedGroups
        simp only [hg]
        exact mem_singleton_self g
    · simp only [Prod.mk.injEq] at hstep
      rw [← hstep.1]
      exact hzero rfl h'
  | requeueInflightMessages =>
    simp only [step, Prod.mk.injEq] at hstep
    rw [← hstep.1, requeueInflightMessages_eq]
    have hsub := expiredPrefix_sublist q now
    refine hzero rfl (tidy_foldl putsBack_requeue (fun r => (q.objects r).isVisible _ = true) q
      h' _ (hsub.nodup h.sound.inflight_nodup) (fun r hr => ?_)
      (fun r hr => hpush _ (mem_map_of_mem hr))
      (fun q' r hp hobj hr hvis => tidy_requeueMessage q' r hp hr (by rw [hobj]; exact hvis))
      fun q' r => stale_of_putMessage (setBase q' (q'.delInflight r)) r)
    rcases isVisible_of_mem_expiredPrefix q _ r hr with ⟨i, hi⟩
    exact ⟨hsub.mem hr, isVisible_mono _ (hclock i).2 hi⟩
  | enqueueDelayedMessages order =>
    simp only [step, Sqs.enqueueDelayedMessages, Prod.mk.injEq] at hstep
    rw [← hstep.1]
    have hsub := selectAt_sublist now (fun r t => !(q.objects r).isDelayed t) order
    have hperm : order.Perm q.delayed := hadm
    exact hzero rfl (tidy_foldl putsBack_enqueueDelayed (fun _ => True) q h' _
      (hsub.nodup (hperm.nodup_iff.mpr h.sound.delayed_nodup))
      (fun r hr => ⟨hperm.mem_iff.mp (hsub.mem hr), trivial⟩)
      (fun r hr => hpush _ (mem_map_of_mem hr))
      (fun q' r hp _ hr _ => tidy_enqueueDelayedMessage q' r hp hr)
      fun q' r => stale_of_putMessage (setBase q' (q'.removeDelayed r)) r)
  | removeExpiredMessages =>
    simp only [step, Prod.mk.injEq] at hstep
    rw [← hstep.1]
    exact hzero rfl (tidy_removeExpired q _ h')
  | clear =>
    simp only [step, Prod.mk.injEq] at hstep
    rw [← hstep.1]
    exact hzero rfl (tidy_of_empty _ h.sound.ids rfl rfl (fun _ => rfl) rfl rfl rfl h.owed_lt)

theorem tidy_init (arn : String) (attributes : QueueAttributes) (deduplicationScope : String)
    (t : ℚ) : Tidy t 0 0 (init arn attributes deduplicationScope) :=
  tidy_of_empty _ (fun r _ hr => absurd hr (Nat.not_lt_zero r)) rfl rfl (fun _ => rfl) rfl rfl rfl
    (fun r hr => absurd hr (Multiset.notMem_zero r))

/-! ### Whole runs -/

/-- A step of the queue under the provider that pushes into no stale group. -/
def SafeStep (c : Call) (s' : FifoQueue × ℚ) : Prop :=
  Step sha256 s c s' ∧ c.op.isReceive = false ∧
    ∀ g ∈ s.1.pushedGroups sha256 c.op c.now, ¬ s.1.Stale g

/-- The group bookkeeping along runs. No group waits twice, none waits while
    it is in flight, a group with messages is in exactly one of the two
    places, and a group in flight has a message in flight. -/
theorem bookkeeping (arn : String) (attributes : QueueAttributes) (deduplicationScope : String)
    (t₀ : ℚ) (calls : List Call) (q : FifoQueue) (t : ℚ)
    (h : Runs (SafeStep sha256) (init arn attributes deduplicationScope, t₀) calls (q, t)) :
    q.messageGroupQueue.Nodup ∧
    (∀ g, ¬ (g ∈ q.messageGroupQueue ∧ g ∈ q.inflightGroups)) ∧
    (∀ g, q.group g ≠ [] → Xor (g ∈ q.messageGroupQueue) (g ∈ q.inflightGroups)) ∧
    (∀ g ∈ q.inflightGroups, ∃ r ∈ q.inflight, q.groupId r = g) := by
  have hrun := Runs.invariant (P := fun s : FifoQueue × ℚ => Tidy s.2 0 0 s.1)
    (fun s c s' hs hstep => ?_) h (tidy_init _ _ _ _)
  rotate_left
  · have hnext := tidy_step _ s.1 s'.1 s.2 s'.2 c hs hstep.1 hstep.2.2
    unfold Call.unreleased at hnext
    simp only [hstep.2.1, Bool.false_eq_true, if_false, add_zero] at hnext
    exact hnext
  have hgrouped := hrun.grouped
  refine ⟨hgrouped.nodup, fun g hg => hgrouped.disjoint g hg.1 hg.2, fun g hg => ?_, fun g hg => ?_⟩
  · rcases hgrouped.covered g hg with hc | hc
    · exact .inl ⟨hc, hgrouped.disjoint g hc⟩
    · exact .inr ⟨hc, fun hq => hgrouped.disjoint g hq hc⟩
  · rcases hgrouped.outstanding g hg with hr | ⟨r, hr, -⟩
    · exact hr
    · exact absurd hr (Multiset.notMem_zero r)

/-! ### Concrete runs -/

/-- A clock that advances by one second over its first three readings. -/
def tick (start : ℚ) (i : Nat) : ℚ := start + ((min i 3 : Nat) : ℚ)

theorem tick_mono (start : ℚ) : Monotone (tick start) := by
  intro i j hij
  have hmin : min i 3 ≤ min j 3 := min_le_min hij (le_refl 3)
  have hcast : ((min i 3 : Nat) : ℚ) ≤ ((min j 3 : Nat) : ℚ) := by exact_mod_cast hmin
  exact add_le_add (le_refl _) hcast

theorem tick_bounds (start : ℚ) (i : Nat) : start ≤ tick start i ∧ tick start i ≤ start + 3 := by
  have hmin : min i 3 ≤ 3 := min_le_right i 3
  have hlow : (0 : ℚ) ≤ ((min i 3 : Nat) : ℚ) := Nat.cast_nonneg _
  have hcast : ((min i 3 : Nat) : ℚ) ≤ 3 := by exact_mod_cast hmin
  constructor
  · exact le_add_of_nonneg_right hlow
  · exact add_le_add (le_refl _) hcast

instance (q : FifoQueue) (op : Op) : Decidable (q.Admissible op) :=
  match op with
  | .put message _ _ _ _ _ =>
    inferInstanceAs (Decidable (∀ r, r < q.nextRef → q.messageId r ≠ message.messageId))
  | .enqueueDelayedMessages order => inferInstanceAs (Decidable (order.Perm q.delayed))
  | .receive _ _ | .receiveMessage _ _ | .remove _ | .updateVisibilityTimeout _ _
  | .requeueInflightMessages | .removeExpiredMessages | .clear => inferInstanceAs (Decidable True)

/-- Apply an operation that starts at a given time, and record the call. -/
def performAt : (FifoQueue × ℚ) × Call :=
  (((s.1.step sha256 input.1 (tick input.2)).1, input.2 + 3),
    ⟨input.1, tick input.2, (s.1.step sha256 input.1 (tick input.2)).2⟩)

/-- The operation can be applied at its time. -/
def Ready : Prop := s.1.Admissible input.1 ∧ s.2 ≤ input.2

instance (s : FifoQueue × ℚ) (input : Op × ℚ) : Decidable (Ready s input) :=
  inferInstanceAs (Decidable (_ ∧ _))

theorem step_performAt (h : Ready s input) :
    Step sha256 s (performAt sha256 s input).2 (performAt sha256 s input).1 :=
  ⟨h.1, tick_mono input.2, fun i => ⟨le_trans h.2 (tick_bounds input.2 i).1,
    (tick_bounds input.2 i).2⟩, rfl⟩

end Steps

/-! ### A stale group -/

/-- A `put` of a message of the group `g`. -/
def putInto (messageId g : String) : Op :=
  .put { messageId := messageId, body := "" } none (some messageId) (some g) none 0

/-- A queue whose messages expire after a minute. -/
def minuteQueue : FifoQueue :=
  init "arn" { messageRetentionPeriod := 60, fifoQueue := true } "queue"

instance (q : FifoQueue) (g : String) : Decidable (q.Stale g) :=
  inferInstanceAs (Decidable (_ ∧ _))

/-- A message is received while another one expires in its group. The stale
    group that expiry leaves stale is not put into, and the bookkeeping holds. -/
theorem bookkeeping_of_expiry :
    let inputs : List (Op × ℚ) := [(putInto "a" "g", 0), (.receiveMessage 1 none, 10),
      (putInto "b" "h", 20), (.removeExpiredMessages, 100), (putInto "c" "g", 200)]
    let s := (drive (performAt id) (minuteQueue, 0) inputs).1
    s.1.Stale "h" ∧ s.1.messageGroupQueue.Nodup ∧
      (∀ g, s.1.group g ≠ [] →
        Xor (g ∈ s.1.messageGroupQueue) (g ∈ s.1.inflightGroups)) := by
  intro inputs s
  have hdriven : Driven (fun s input => Ready s input ∧ input.1.isReceive = false ∧
      ∀ g ∈ s.1.pushedGroups id input.1 (tick input.2), ¬ s.1.Stale g)
      (performAt id) (minuteQueue, 0) inputs := by
    decide +kernel
  have hrun : Runs (SafeStep id) (minuteQueue, 0) (drive (performAt id) (minuteQueue, 0) inputs).2
      (s.1, s.2) :=
    Runs.of_driven (fun s input h => ⟨step_performAt id s _ h.1, h.2.1, h.2.2⟩) _ _ hdriven
  have hbook := bookkeeping id "arn" { messageRetentionPeriod := 60, fifoQueue := true } "queue" 0
    _ s.1 s.2 hrun
  exact ⟨by decide +kernel, hbook.1, hbook.2.2.1⟩

/-- A message is put, expires, and another one of its group is put: the group
    waits in the queue twice. -/
theorem bookkeeping_stale_push :
    ∃ calls q t, Runs (Step id) (minuteQueue, 0) calls (q, t) ∧
      (∀ c ∈ calls, c.op.isReceive = false) ∧ ¬ q.messageGroupQueue.Nodup := by
  have hdriven : Driven Ready (performAt id) (minuteQueue, 0)
      [(putInto "a" "g", 0), (.removeExpiredMessages, 100), (putInto "b" "g", 200)] := by
    decide +kernel
  refine ⟨_, _, _, Runs.of_driven (step_performAt id) _ _ hdriven, ?_, ?_⟩
  · decide +kernel
  · decide +kernel

end LocalEmu.Sqs.FifoQueue
