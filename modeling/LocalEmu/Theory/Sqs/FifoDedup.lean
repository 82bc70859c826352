import LocalEmu.Base.Window
import LocalEmu.Theory.Sqs.FifoRun

/-!
# De-duplication of a FIFO Queue

Which messages a FIFO queue takes for duplicates.

The queue remembers one message for each de-duplication id, the last one it
enqueued. That is a table in the sense of `Window.lastAdmits`, and a run of
the queue makes it process the stream of its `put` calls. No other operation
looks at the table or changes what it says about a message.

With the de-duplication scope `messageGroup` an id may be enqueued once for
each group within the interval. The table then forgets a group when the id is
enqueued for another one, so that two messages of one group can be enqueued
with one id within the interval. By `Window.separated_iff` this happens
exactly on the interleaved streams; `FifoQueue.deduplication_interleaved` is
the shortest one.
-/

namespace LocalEmu.Sqs.FifoQueue

open List Option

open QueueKind LawfulQueueKind

/-! ### Operations that leave the de-duplication alone -/

def identity (m : SqsMessage) : ℚ × Option String × String :=
  (m.priority, m.message.messageGroupId, m.message.messageId)

/-- The table, and what it says about messages, stay the same. -/
structure Framed (q q' : FifoQueue) : Prop where
  attributes : q'.attributes = q.attributes
  scope : q'.deduplicationScope = q.deduplicationScope
  table : q'.deduplication = q.deduplication
  nextRef : q'.nextRef = q.nextRef
  objects : ∀ r, identity (q'.objects r) = identity (q.objects r)

variable (q : FifoQueue)

theorem Framed.refl : Framed q q := ⟨rfl, rfl, rfl, rfl, fun _ => rfl⟩

theorem Framed.trans {q q' q'' : FifoQueue} (h1 : Framed q q') (h2 : Framed q' q'') :
    Framed q q'' :=
  ⟨h2.attributes.trans h1.attributes, h2.scope.trans h1.scope, h2.table.trans h1.table,
    h2.nextRef.trans h1.nextRef, fun r => (h2.objects r).trans (h1.objects r)⟩

variable (r : Ref)

theorem framed_putMessage : Framed q (q.putMessage r) := by
  rcases putMessage_cases q r with ⟨-, -, h⟩ | ⟨-, -, h⟩ | ⟨-, -, h⟩ | ⟨-, -, h⟩
  · rw [h]
    exact ⟨rfl, rfl, rfl, rfl, fun _ => rfl⟩
  · rw [h]
    exact ⟨rfl, rfl, rfl, rfl, fun _ => rfl⟩
  · rw [h]
    exact ⟨rfl, rfl, rfl, rfl, fun _ => rfl⟩
  · rw [h]
    exact ⟨rfl, rfl, rfl, rfl, fun _ => rfl⟩

theorem framed_modify (f : SqsMessage → SqsMessage)
    (hf : ∀ m, identity (f m) = identity m) : Framed q (setBase q (q.modify r f)) :=
  ⟨rfl, rfl, rfl, rfl, fun r' => modify_field _ _ r f hf r'⟩

theorem framed_requeueMessage : Framed q (requeueMessage q r) :=
  have hdel : Framed q (setBase q (q.delInflight r)) := ⟨rfl, rfl, rfl, rfl, fun _ => rfl⟩
  hdel.trans (framed_putMessage _ r)

theorem framed_enqueueDelayedMessage : Framed q (enqueueDelayedMessage q r) :=
  have hdel : Framed q (setBase q (q.removeDelayed r)) := ⟨rfl, rfl, rfl, rfl, fun _ => rfl⟩
  hdel.trans (framed_putMessage _ r)

theorem framed_updateMessageGroupVisibility (g : String) :
    Framed q (q.updateMessageGroupVisibility g) := by
  unfold updateMessageGroupVisibility
  split
  · split
    · exact Framed.refl q
    · simp only
      split
      · exact ⟨rfl, rfl, rfl, rfl, fun _ => rfl⟩
      · exact ⟨rfl, rfl, rfl, rfl, fun _ => rfl⟩
  · exact Framed.refl q

theorem framed_take (numMessages visibilityTimeout : Int) (now : Nat → ℚ) (c : Collected FifoQueue)
    (r : Ref) (h : Framed q c.queue) :
    Framed q (Collected.take numMessages visibilityTimeout now c r).1.queue := by
  unfold Collected.take
  split
  · exact h
  · simp only
    split
    · exact h.trans (framed_modify _ r _ fun _ => rfl)
    · have hfirst := h.trans (framed_modify _ r
        (fun m => m.markReceived visibilityTimeout (now c.reads) (now (c.reads + 1))) fun _ => rfl)
      exact hfirst.trans (framed_modify _ r _ fun _ => rfl)

theorem framed_deliverMessage (s : FifoQueue × List ReceiptHandle) (r : Ref)
    (h : Framed q s.1) : Framed q (deliverMessage s r).1 := by
  have hregister : Framed q (setBase s.1 (s.1.registerReceiptHandle r).1) := by
    refine h.trans ⟨rfl, rfl, rfl, rfl, fun r' => ?_⟩
    exact core_congr _ (fun _ => rfl) (registerReceiptHandle_core s.1.toSqsQueue r r')
  unfold deliverMessage
  simp only
  split
  · exact hregister.trans (framed_putMessage _ r)
  · refine hregister.trans ?_
    show Framed _ (setBase (setBase s.1 (s.1.registerReceiptHandle r).1)
      ((s.1.registerReceiptHandle r).1.addInflightMessage r))
    unfold SqsQueue.addInflightMessage
    split
    · exact ⟨rfl, rfl, rfl, rfl, fun _ => rfl⟩
    · exact ⟨rfl, rfl, rfl, rfl, fun _ => rfl⟩

theorem framed_receive (numMessages : Int) (visibilityTimeout : Option Int)
    (now : Nat → ℚ) : Framed q (q.receive numMessages visibilityTimeout now).1 := by
  have hcollect : Framed q (collectGroups numMessages
      (visibilityTimeout.getD q.attributes.visibilityTimeout) now q.messageGroupQueue.length
      (Collected.start q)).queue := by
    refine collectGroups_induction (P := fun c => Framed q c.queue)
      (R := fun _ c => Framed q c.queue) _ _ _ ?_ ?_ ?_ (fun _ _ h => h) _ _ (Framed.refl q)
    · intro c g waiting h _ _
      exact h.trans ⟨rfl, rfl, rfl, rfl, fun _ => rfl⟩
    · intro c g waiting r rest h _ _
      exact framed_take q _ _ _ _ r (h.trans ⟨rfl, rfl, rfl, rfl, fun _ => rfl⟩)
    · intro g c r rest h _
      exact framed_take q _ _ _ _ r (h.trans ⟨rfl, rfl, rfl, rfl, fun _ => rfl⟩)
  exact foldlRecOn (motive := fun s : FifoQueue × List ReceiptHandle => Framed q s.1) _ _
    hcollect fun s hs r _ => framed_deliverMessage q s r hs

theorem framed_remove (q' : FifoQueue) (receiptHandle : ReceiptHandle) (now : ℚ)
    (removed : Option Ref) (h : Sqs.remove q receiptHandle now = .ok (q', removed)) :
    Framed q q' := by
  rcases remove_ok q q' _ _ _ h with ⟨-, -, rfl⟩ | ⟨r, -, -, -, rfl⟩
  · exact Framed.refl _
  · have hmark : Framed q (markDeleted q r) := by
      refine ⟨?_, rfl, rfl, ?_, fun r' => markDeleted_field _ (fun _ => rfl) q r r'⟩
      · exact (congrArg SqsQueue.attributes (base_markDeleted q r) :)
      · exact (congrArg SqsQueue.nextRef (base_markDeleted q r) :)
    refine hmark.trans ?_
    show Framed _ (onRemoveMessage (markDeleted q r) r)
    refine Framed.trans ?_ (framed_updateMessageGroupVisibility _ _)
    exact ⟨rfl, rfl, rfl, rfl, fun _ => rfl⟩

def Op.touches : Op → Bool
  | .put _ _ _ _ _ _ => true
  | .clear => true
  | _ => false

section Steps

variable (sha256 : String → String)

variable (q : FifoQueue)

/-- No operation but `put` and `clear` touches the de-duplication. -/
theorem framed_step (op : Op) (now : Nat → ℚ) (h : op.touches = false) :
    Framed q (q.step sha256 op now).1 ∧ (q.step sha256 op now).2.accepted = none := by
  cases op with
  | put | clear => cases h
  | receive =>
    exact ⟨framed_receive q _ _ _, rfl⟩
  | receiveMessage =>
    refine ⟨?_, rfl⟩
    exact foldlRecOn (motive := Framed q) _ _
      (framed_receive q _ _ _)
      fun q' hq' r _ => hq'.trans (framed_updateMessageGroupVisibility q' _)
  | remove =>
    unfold step
    simp only
    split
    · next q' removed hok => exact ⟨framed_remove q q' _ _ _ hok, rfl⟩
    · exact ⟨Framed.refl q, rfl⟩
  | updateVisibilityTimeout receiptHandle visibilityTimeout =>
    unfold step
    simp only
    split
    · next q' hok =>
        refine ⟨?_, rfl⟩
        rcases updateVisibilityTimeout_ok q q' _ _ _ hok with
          ⟨r, -, ⟨-, rfl⟩ | ⟨-, -, rfl⟩ | ⟨-, -, rfl⟩⟩
        · exact Framed.refl _
        · exact framed_modify q r
            (fun m => m.updateVisibilityTimeout visibilityTimeout (now 0)) fun _ => rfl
        · exact (framed_modify q r (fun m => m.updateVisibilityTimeout 0 (now 0))
            fun _ => rfl).trans (framed_requeueMessage _ r)
    · exact ⟨Framed.refl q, rfl⟩
  | requeueInflightMessages =>
    refine ⟨?_, rfl⟩
    simp only [step, requeueInflightMessages_eq]
    exact foldlRecOn (motive := Framed q) _ _ (Framed.refl q)
      fun q' hq' r _ => hq'.trans (framed_requeueMessage q' r)
  | enqueueDelayedMessages =>
    refine ⟨?_, rfl⟩
    exact foldlRecOn (motive := Framed q) _ _ (Framed.refl q)
      fun q' hq' r _ => hq'.trans (framed_enqueueDelayedMessage q' r)
  | removeExpiredMessages =>
    refine ⟨?_, rfl⟩
    exact foldlRecOn (motive := fun s : FifoQueue × List Ref => Framed q s.1) _ _
      (Framed.refl q) fun s hs e _ => hs.trans ⟨rfl, rfl, rfl, rfl, fun _ => rfl⟩

/-! ### Requests -/

variable (calls : List Call) (c : Call)

/-- A `put` call that does not raise, as a request. -/
def request : Option (Window.Request String (Option String) ℚ String) :=
  match c.op with
  | .put message _ messageDeduplicationId messageGroupId delaySeconds _ =>
    let dedupId := effectiveDeduplicationId sha256 q message messageDeduplicationId
    if Valid dedupId messageGroupId delaySeconds then
      some { key := dedupId.getD "", group := messageGroupId, time := c.now 0,
             payload := message.messageId }
    else none
  | _ => none

/-- The `MessageId` a `put` call returns. -/
def returnedId : Option String :=
  match c.op with
  | .put message visibilityTimeout messageDeduplicationId messageGroupId delaySeconds
      sequenceNumber =>
      match q.put sha256 message visibilityTimeout messageDeduplicationId messageGroupId
        delaySeconds sequenceNumber c.now with
      | .ok (_, m, _) => some m.message.messageId
      | .error _ => none
  | _ => none

def requests : List (Window.Request String (Option String) ℚ String) :=
  calls.filterMap (request sha256 q)

def enqueued : List (Window.Request String (Option String) ℚ String) :=
  requests sha256 q (calls.filter fun c => c.event.accepted.isSome)

def expires (time : ℚ) : ℚ := time + deduplicationIntervalInSec

theorem expires_mono : Monotone expires := fun _ _ h => add_le_add h (le_refl _)

/-- Groups matter in the scope `messageGroup`. -/
def grouped : Bool := decide (q.deduplicationScope = "messageGroup")

/-- The log of the messages a run has enqueued, by the rule of the table. -/
def dedupLog : List (Window.Request String (Option String) ℚ String) :=
  Window.process (Window.lastAdmits expires q.grouped) [] (requests sha256 q calls)

/-- An entry of the table stands for a request. -/
def EntryOf (r : Ref) (e : Window.Request String (Option String) ℚ String) : Prop :=
  r < q.nextRef ∧ identity (q.objects r) = (e.time, e.group, e.payload)

/-- The table of the queue is that of the log. -/
structure Remembers (q₀ : FifoQueue) (log : List (Window.Request String (Option String) ℚ String))
    (q : FifoQueue) : Prop where
  attributes : q.attributes = q₀.attributes
  scope : q.deduplicationScope = q₀.deduplicationScope
  forgotten : ∀ key, Window.lastWith key log = none → q.deduplication key = none
  remembered : ∀ key e, Window.lastWith key log = some e →
    ∃ r, q.deduplication key = some r ∧ EntryOf q r e

variable {log : List (Window.Request String (Option String) ℚ String)}

theorem Remembers.framed {q₀ q q' : FifoQueue} (h : Remembers q₀ log q)
    (hf : Framed q q') : Remembers q₀ log q' := by
  refine ⟨hf.attributes.trans h.attributes, hf.scope.trans h.scope, fun key hkey => ?_,
    fun key e he => ?_⟩
  · rw [hf.table]
    exact h.forgotten _ hkey
  · rcases h.remembered _ e he with ⟨r, hr, hlt, hentry⟩
    refine ⟨r, by rw [hf.table]; exact hr, by rw [hf.nextRef]; exact hlt, ?_⟩
    rw [hf.objects]
    exact hentry

theorem Remembers.duplicate {q₀ q : FifoQueue} (h : Remembers q₀ log q) (m : SqsMessage)
    (dedupId : Option String)
    (x : Window.Request String (Option String) ℚ String) (hkey : x.key = dedupId.getD "")
    (htime : m.priority = x.time) (hgroup : m.message.messageGroupId = x.group) :
    q.Duplicate dedupId m = !Window.lastAdmits expires q₀.grouped log x := by
  unfold Duplicate
  rw [← hkey]
  cases hlast : Window.lastWith x.key log with
  | none =>
    rw [h.forgotten _ hlast]
    unfold Window.lastAdmits
    rw [hlast]
    rfl
  | some e =>
    rcases h.remembered _ e hlast with ⟨r, hr, -, hentry⟩
    rw [hr, Window.lastAdmits_eq _ x e hlast, Bool.not_not]
    have hpriority : (q.objects r).priority = e.time := congrArg Prod.fst hentry
    have hsame : (q.objects r).message.messageGroupId = e.group := congrArg (fun i => i.2.1) hentry
    rw [Bool.eq_iff_iff]
    simp only [isDuplicate, Window.conflict, hpriority, hsame, htime, hgroup, h.scope, grouped,
      expires, ne_eq, Bool.and_eq_true, Bool.or_eq_true, Bool.not_eq_true', decide_eq_true_eq,
      decide_eq_false_iff_not]
    exact and_congr_left' decide_eq_true_iff.symm

theorem candidate_group (message : Message) (visibilityTimeout : Option Int)
    (messageDeduplicationId messageGroupId : Option String) (sequenceNumber : Nat)
    (now : Nat → ℚ) (h : truthy messageGroupId = true) :
    (q.candidate sha256 message visibilityTimeout messageDeduplicationId messageGroupId
      sequenceNumber now).message.messageGroupId = messageGroupId := by
  cases messageGroupId with
  | none => cases h
  | some => rfl

theorem remembers_enqueue {q₀ q : FifoQueue} (h : Remembers q₀ log q) (m : SqsMessage) (now : ℚ)
    (x : Window.Request String (Option String) ℚ String)
    (hentry : identity m = (x.time, x.group, x.payload)) :
    Remembers q₀ (x :: log) (q.enqueue x.key m now) := by
  have hq : ∃ q₁ : FifoQueue, q.enqueue x.key m now =
      { q₁ with deduplication := Function.update q₁.deduplication x.key (some q.nextRef) } ∧
      Framed (setBase q (q.alloc m)) q₁ := by
    unfold enqueue
    split
    · refine ⟨_, rfl, ?_⟩
      show Framed _ (setBase (setBase q (q.alloc m)) ((q.alloc m).addDelayed q.nextRef))
      unfold SqsQueue.addDelayed
      split
      · exact ⟨rfl, rfl, rfl, rfl, fun _ => rfl⟩
      · exact ⟨rfl, rfl, rfl, rfl, fun _ => rfl⟩
    · exact ⟨_, rfl, framed_putMessage _ _⟩
  rcases hq with ⟨q₁, heq, hf⟩
  rw [heq]
  have htable : q₁.deduplication = q.deduplication := hf.table
  have hold : ∀ r e, EntryOf q r e → EntryOf q₁ r e := by
    intro r e hr
    refine ⟨?_, ?_⟩
    · rw [hf.nextRef]
      exact Nat.lt_succ_of_lt hr.1
    · rw [hf.objects, show ((setBase q (q.alloc m)).objects r) = q.objects r from
        alloc_objects_of_lt _ m r hr.1]
      exact hr.2
  have hnew : EntryOf q₁ q.nextRef x := by
    refine ⟨?_, ?_⟩
    · rw [hf.nextRef]
      exact Nat.lt_succ_self _
    · have hobj : (q.alloc m).objects q.nextRef = m := by
        rw [alloc_objects, if_pos rfl]
      rw [hf.objects]
      show identity ((q.alloc m).objects q.nextRef) = _
      rw [hobj]
      exact hentry
  have hlast : ∀ key, Window.lastWith key (x :: log) =
      if x.key = key then some x else Window.lastWith key log := by
    intro key
    unfold Window.lastWith
    by_cases hkey : x.key = key
    · simp only [find?_cons, hkey, decide_true, if_true]
    · simp only [find?_cons, hkey, decide_false, if_false]
  refine ⟨hf.attributes.trans h.attributes, hf.scope.trans h.scope, fun key hkey => ?_,
    fun key e he => ?_⟩
  · rw [hlast] at hkey
    by_cases hc : x.key = key
    · rw [if_pos hc] at hkey
      cases hkey
    · rw [if_neg hc] at hkey
      show Function.update q₁.deduplication x.key (some q.nextRef) key = none
      rw [Function.update_of_ne (fun hk => hc hk.symm), htable]
      exact h.forgotten _ hkey
  · rw [hlast] at he
    show ∃ r, Function.update q₁.deduplication x.key (some q.nextRef) key = some r ∧
      EntryOf q₁ r e
    by_cases hc : x.key = key
    · rw [if_pos hc] at he
      rw [← some.inj he, ← hc, Function.update_self]
      exact ⟨q.nextRef, rfl, hnew⟩
    · rw [if_neg hc] at he
      rw [Function.update_of_ne (fun hk => hc hk.symm), htable]
      rcases h.remembered _ e he with ⟨r, hr, hentry⟩
      exact ⟨r, hr, hold r e hentry⟩

/-! ### Runs -/

theorem request_congr {q q₀ : FifoQueue} (h : q.attributes = q₀.attributes) (c : Call) :
    request sha256 q c = request sha256 q₀ c := by
  unfold request effectiveDeduplicationId isMessageDeduplicationIdRequired
  rw [h]

theorem requests_append :
    requests sha256 q (calls ++ [c]) = requests sha256 q calls ++ (request sha256 q c).toList := by
  unfold requests
  rw [filterMap_append]
  cases hr : request sha256 q c with
  | none => simp only [filterMap_cons, hr, filterMap_nil, toList_none]
  | some => simp only [filterMap_cons, hr, filterMap_nil, toList_some]

theorem enqueued_append : enqueued sha256 q (calls ++ [c]) = enqueued sha256 q calls ++
      if c.event.accepted.isSome then (request sha256 q c).toList else [] := by
  unfold enqueued
  rw [filter_append]
  cases ha : c.event.accepted.isSome with
  | false =>
    simp only [filter_cons, ha, Bool.false_eq_true, if_false, filter_nil, append_nil]
  | true =>
    simp only [filter_cons, ha, if_true, filter_nil]
    exact requests_append _ q _ c

theorem put_outcome {q₀ q q' : FifoQueue} (h : Remembers q₀ log q) (c : Call)
    (hput : c.op.touches = true) (hclear : c.op ≠ .clear)
    (hstep : q.step sha256 c.op c.now = (q', c.event)) :
    (request sha256 q₀ c = none ∧ c.event.accepted = none ∧ q' = q) ∨
    (∃ x e, request sha256 q₀ c = some x ∧ Window.lastWith x.key log = some e ∧
      Window.conflict expires q₀.grouped e x = true ∧ c.event.accepted = none ∧ q' = q ∧
      returnedId sha256 q c = some e.payload) ∨
    (∃ x, request sha256 q₀ c = some x ∧ Window.lastAdmits expires q₀.grouped log x = true ∧
      c.event.accepted.isSome = true ∧ Remembers q₀ (x :: log) q') := by
  rcases c with ⟨op, now, ev⟩
  rw [← request_congr _ h.attributes]
  cases op with
  | put message visibilityTimeout messageDeduplicationId messageGroupId delaySeconds
      sequenceNumber =>
      have hx : ∃ x : Window.Request String (Option String) ℚ String, x = ⟨(effectiveDeduplicationId
          sha256 q message messageDeduplicationId).getD "", messageGroupId, now 0,
          message.messageId⟩ := ⟨_, rfl⟩
      rcases hx with ⟨x, hx⟩
      have hkey : x.key = (effectiveDeduplicationId sha256 q message
          messageDeduplicationId).getD "" := by
        rw [hx]
      have hrequest : ∀ hvalid : Valid (effectiveDeduplicationId sha256 q message
          messageDeduplicationId) messageGroupId delaySeconds, request sha256 q
          ⟨.put message visibilityTimeout messageDeduplicationId messageGroupId delaySeconds
            sequenceNumber, now, ev⟩ = some x := by
        intro hvalid
        rw [hx]
        exact if_pos hvalid
      have hidentity : truthy messageGroupId = true → identity (q.candidate sha256 message
          visibilityTimeout messageDeduplicationId messageGroupId sequenceNumber now) =
          (x.time, x.group, x.payload) := by
        intro htruthy
        unfold identity
        rw [candidate_group _ q _ _ _ _ _ _ htruthy, hx]
        rfl
      have htest : truthy messageGroupId = true → q.Duplicate (effectiveDeduplicationId sha256 q
          message messageDeduplicationId) (q.candidate sha256 message visibilityTimeout
            messageDeduplicationId messageGroupId sequenceNumber now) =
          !Window.lastAdmits expires q₀.grouped log x := fun htruthy =>
        h.duplicate _ _ x hkey (congrArg Prod.fst (hidentity htruthy))
          (congrArg (fun i => i.2.1) (hidentity htruthy))
      have hcases := put_cases sha256 q message visibilityTimeout messageDeduplicationId
        messageGroupId delaySeconds sequenceNumber now
      simp only [step] at hstep
      rcases hcases with ⟨hvalid, x, hput⟩ | ⟨hvalid, original, hsome, hdup, hput⟩ |
        ⟨hvalid, hdup, hput⟩
      · simp only [hput, Prod.mk.injEq] at hstep
        refine .inl ⟨if_neg hvalid, ?_, hstep.1.symm⟩
        rw [← hstep.2]
      · have hkept := htest hvalid.2.1
        unfold Duplicate at hkept
        rw [hsome] at hkept
        simp only [hdup] at hkept
        simp only [hput, Bool.false_eq_true, if_false, Prod.mk.injEq] at hstep
        rw [← hkey] at hsome
        cases hlast : Window.lastWith x.key log with
        | none =>
          rw [h.forgotten _ hlast] at hsome
          cases hsome
        | some e =>
          rw [Window.lastAdmits_eq _ x e hlast, Bool.not_not] at hkept
          rcases h.remembered _ e hlast with ⟨r, hr, -, hentry⟩
          rw [hsome] at hr
          have hid : q.messageId r = e.payload := congrArg (fun i => i.2.2) hentry
          refine .inr (.inl ⟨x, e, hrequest hvalid, hlast, hkept.symm, ?_, hstep.1.symm, ?_⟩)
          · rw [← hstep.2]
          · unfold returnedId
            simp only [hput, some.inj hr, hid]
      · have hkept := htest hvalid.2.1
        rw [hdup] at hkept
        simp only [hput, if_true, Prod.mk.injEq] at hstep
        refine .inr (.inr ⟨x, hrequest hvalid, ?_, ?_, ?_⟩)
        · rw [← Bool.not_not (Window.lastAdmits _ _ _ _), ← hkept]
          rfl
        · rw [← hstep.2]
          rfl
        · rw [← hstep.1, ← hkey]
          exact remembers_enqueue h _ _ x (hidentity hvalid.2.1)
  | clear => exact absurd rfl hclear
  | receive | receiveMessage | remove | updateVisibilityTimeout | requeueInflightMessages
  | enqueueDelayedMessages | removeExpiredMessages =>
    cases hput

/-- What a run has recorded. -/
structure Recorded (q₀ : FifoQueue) (calls : List Call) (s : FifoQueue × ℚ) : Prop where
  remembers : Remembers q₀ (dedupLog sha256 q₀ calls) s.1
  enqueued : dedupLog sha256 q₀ calls = (enqueued sha256 q₀ calls).reverse
  chronological : Window.Chronological (requests sha256 q₀ calls)
  past : ∀ x ∈ requests sha256 q₀ calls, x.time ≤ s.2

theorem Recorded.next {q₀ : FifoQueue} {calls : List Call} {s s' : FifoQueue × ℚ} {c : Call}
    (h : Recorded sha256 q₀ calls s) (htt : s.2 ≤ s'.2)
    (hlog : dedupLog sha256 q₀ (calls ++ [c]) = (if c.event.accepted.isSome then
      (request sha256 q₀ c).toList else []) ++ dedupLog sha256 q₀ calls)
    (hremembers : Remembers q₀ (dedupLog sha256 q₀ (calls ++ [c])) s'.1)
    (htime : ∀ x, request sha256 q₀ c = some x → s.2 ≤ x.time ∧ x.time ≤ s'.2) :
    Recorded sha256 q₀ (calls ++ [c]) s' := by
  refine ⟨hremembers, ?_, ?_, ?_⟩
  · rw [hlog, enqueued_append, reverse_append, h.enqueued]
    congr 1
    split
    · cases request sha256 q₀ c with
      | none | some => rfl
    · rfl
  · unfold Window.Chronological
    rw [requests_append]
    refine pairwise_append.mpr ⟨h.chronological, ?_, fun x hx y hy => ?_⟩
    · cases request sha256 q₀ c with
      | none => exact List.Pairwise.nil
      | some => exact pairwise_singleton _ _
    · rw [mem_toList] at hy
      exact le_trans (h.past x hx) (htime y hy).1
  · intro x hx
    rw [requests_append] at hx
    rcases mem_append.mp hx with hx | hx
    · exact le_trans (h.past x hx) htt
    · rw [mem_toList] at hx
      exact (htime x hx).2

/-- A step that does not clear the queue. -/
def UnclearedStep (s : FifoQueue × ℚ) (c : Call) (s' : FifoQueue × ℚ) : Prop :=
  Step sha256 s c s' ∧ c.op ≠ .clear

theorem dedupLog_append :
    dedupLog sha256 q (calls ++ [c]) = Window.process (Window.lastAdmits expires q.grouped)
      (dedupLog sha256 q calls) (request sha256 q c).toList := by
  unfold dedupLog
  rw [requests_append, Window.process_append]

variable (q₀ : FifoQueue)

theorem recorded_step (calls : List Call) (s s' : FifoQueue × ℚ) (c : Call)
    (h : Recorded sha256 q₀ calls s) (hstep : UnclearedStep sha256 s c s') :
    Recorded sha256 q₀ (calls ++ [c]) s' := by
  rcases hstep with ⟨⟨-, -, hclock, hstep⟩, hclear⟩
  have htt : s.2 ≤ s'.2 := le_trans (hclock 0).1 (hclock 0).2
  have htime : ∀ x, request sha256 q₀ c = some x → s.2 ≤ x.time ∧ x.time ≤ s'.2 := by
    intro x hx
    unfold request at hx
    split at hx
    · simp only [ite_none_right_eq_some, some.injEq] at hx
      rw [← hx.2]
      exact hclock 0
    · cases hx
  have hquiet : request sha256 q₀ c = none → c.event.accepted = none → Framed s.1 s'.1 →
      Recorded sha256 q₀ (calls ++ [c]) s' := by
    intro hnone hacc hf
    have hlog : dedupLog sha256 q₀ (calls ++ [c]) = dedupLog sha256 q₀ calls := by
      rw [dedupLog_append, hnone]
      rfl
    refine h.next _ htt ?_ ?_ htime
    · rw [hlog, hacc]
      rfl
    · rw [hlog]
      exact h.remembers.framed hf
  cases htouch : c.op.touches with
  | false =>
    have hf := framed_step sha256 s.1 _ c.now htouch
    rw [hstep] at hf
    refine hquiet ?_ hf.2 hf.1
    unfold request
    split
    · next hop =>
        rw [hop] at htouch
        cases htouch
    · rfl
  | true =>
    rcases put_outcome _ h.remembers c htouch hclear hstep with
      ⟨hnone, hacc, hq⟩ | ⟨x, e, hx, hlast, hconf, hacc, hq, -⟩ | ⟨x, hx, hadm, hacc, hrem⟩
    · refine hquiet hnone hacc ?_
      rw [hq]
      exact Framed.refl _
    · have hlog : dedupLog sha256 q₀ (calls ++ [c]) = dedupLog sha256 q₀ calls := by
        rw [dedupLog_append, hx]
        show Window.record _ _ x = _
        unfold Window.record
        rw [Window.lastAdmits_eq _ x e hlast, hconf]
        rfl
      refine h.next _ htt ?_ ?_ htime
      · rw [hlog, hacc]
        rfl
      · rw [hlog, hq]
        exact h.remembers
    · have hlog : dedupLog sha256 q₀ (calls ++ [c]) = x :: dedupLog sha256 q₀ calls := by
        rw [dedupLog_append, hx]
        show Window.record _ _ x = _
        unfold Window.record
        rw [hadm]
        rfl
      refine h.next _ htt ?_ ?_ htime
      · rw [hlog, hacc, hx]
        rfl
      · rw [hlog]
        exact hrem

theorem recorded_run (t₀ : ℚ) (hempty : ∀ key, q₀.deduplication key = none) (calls : List Call)
    (s : FifoQueue × ℚ)
    (hrun : Runs (UnclearedStep sha256) (q₀, t₀) calls s) : Recorded sha256 q₀ calls s := by
  refine Runs.history (P := fun calls s => Recorded sha256 q₀ calls s)
    (fun calls s c s' h hstep => recorded_step _ _ _ s s' c h hstep) hrun [] ?_
  refine ⟨⟨rfl, rfl, fun key _ => hempty _, fun key e he => ?_⟩, rfl, List.Pairwise.nil,
    fun x hx => absurd hx not_mem_nil⟩
  cases he

/-! ### The law -/

/-- Two enqueued messages with one id, and of one group where groups matter,
    are at least the interval apart. -/
def Windowed : Prop :=
  (enqueued sha256 q calls).Pairwise fun x y => y.key = x.key →
    (q.deduplicationScope = "messageGroup" → y.group = x.group) →
    x.time + deduplicationIntervalInSec ≤ y.time

/-- A message that is not enqueued is answered with the id of an enqueued one
    less than the interval old. -/
def Answered (t : ℚ) (calls : List Call) : Prop :=
  ∀ before c after s s' x, calls = before ++ c :: after →
    Runs (UnclearedStep sha256) (q, t) before s → UnclearedStep sha256 s c s' →
    request sha256 q c = some x → c.event.accepted = none →
      ∃ e ∈ enqueued sha256 q before, e.key = x.key ∧
      (q.deduplicationScope = "messageGroup" → e.group = x.group) ∧
      x.time < e.time + deduplicationIntervalInSec ∧ returnedId sha256 s.1 c = some e.payload

theorem windowed_iff : Windowed sha256 q calls ↔
      Window.Separated expires q.grouped (enqueued sha256 q calls).reverse := by
  unfold Windowed Window.Separated
  rw [pairwise_reverse]
  refine List.Pairwise.iff fun x y => ?_
  have hconflict : Window.conflict expires q.grouped x y = false ↔
      ((q.deduplicationScope = "messageGroup" → y.group = x.group) →
        x.time + deduplicationIntervalInSec ≤ y.time) := by
    unfold Window.conflict grouped expires
    rw [Bool.and_eq_false_iff, decide_eq_false_iff_not, not_lt, Bool.or_eq_false_iff,
      Bool.not_eq_false', decide_eq_true_iff, decide_eq_false_iff_not]
    by_cases hscope : q.deduplicationScope = "messageGroup"
    · by_cases hgroup : y.group = x.group
      · simp only [hscope, hgroup, not_true_eq_false, and_false, or_false, imp_self, forall_const]
      · simp only [hscope, hgroup, not_false_eq_true, and_self, or_true, forall_const,
          false_implies]
    · simp only [hscope, false_and, or_false, false_implies, forall_const]
  rw [hconflict]
  exact ⟨fun h hkey => h hkey.symm, fun h hkey => h hkey.symm⟩

/-- The law of the de-duplication window holds on exactly those runs whose requests are not
    interleaved, where groups matter, and on all of them where they do not. -/
theorem deduplication_iff (t₀ : ℚ) (hempty : ∀ key, q₀.deduplication key = none) (calls : List Call)
    (s : FifoQueue × ℚ)
    (hrun : Runs (UnclearedStep sha256) (q₀, t₀) calls s) :
    (Windowed sha256 q₀ calls ∧ Answered sha256 q₀ t₀ calls) ↔
      (q₀.deduplicationScope = "messageGroup" →
        ¬ Window.Interleaved expires (requests sha256 q₀ calls)) := by
  have hrec := recorded_run _ _ _ hempty _ s hrun
  have hanswered : Answered sha256 q₀ t₀ calls := by
    intro before c after s s' x _ hbefore hstep hx hacc
    have hpast := recorded_run _ _ _ hempty _ s hbefore
    have htouch : c.op.touches = true := by
      unfold request at hx
      split at hx
      · next hop =>
          rw [hop]
          rfl
      · cases hx
    rcases put_outcome _ hpast.remembers c htouch hstep.2 hstep.1.2.2.2 with
      ⟨hnone, -, -⟩ | ⟨x', e, hx', hlast, hconf, -, -, hid⟩ | ⟨x', -, -, hsome, -⟩
    · rw [hnone] at hx
      cases hx
    · rw [hx] at hx'
      rw [← some.inj hx'] at hlast hconf
      rcases Window.of_lastWith _ _ e hlast with ⟨hmem, hkey⟩
      rw [hpast.enqueued, mem_reverse] at hmem
      simp only [Window.conflict, grouped, expires, Bool.and_eq_true, Bool.or_eq_true,
        Bool.not_eq_true', decide_eq_true_eq, decide_eq_false_iff_not] at hconf
      refine ⟨e, hmem, hkey, fun hscope => ?_, ?_, hid⟩
      · exact (hconf.2.resolve_left (not_not.mpr hscope)).symm
      · exact of_decide_eq_true hconf.1
    · rw [hacc] at hsome
      cases hsome
  rw [windowed_iff, ← hrec.enqueued]
  unfold dedupLog grouped
  by_cases hscope : q₀.deduplicationScope = "messageGroup"
  · rw [decide_eq_true hscope, Window.separated_iff expires_mono _ hrec.chronological]
    exact ⟨fun h _ => h.1, fun h => ⟨h hscope, hanswered⟩⟩
  · rw [decide_eq_false hscope]
    exact ⟨fun _ hc => absurd hc hscope, fun _ =>
      ⟨Window.separated_of_ungrouped expires_mono _ hrec.chronological, hanswered⟩⟩

end Steps

/-! ### Hidden messages -/

/-- A queue that de-duplicates within groups. -/
def groupScopedQueue : FifoQueue := init "arn" { fifoQueue := true } "messageGroup"

/-- A `put` with an explicit de-duplication id. -/
def putKeyed (messageId key g : String) : Op :=
  .put { messageId := messageId, body := "" } none (some key) (some g) none 0

theorem unclearedStep_performAt (sha256 : String → String) (s : FifoQueue × ℚ) (input : Op × ℚ)
    (h : Ready s input ∧ input.1 ≠ .clear) :
    UnclearedStep sha256 s (performAt sha256 s input).2 (performAt sha256 s input).1 :=
  ⟨step_performAt _ s _ h.1, h.2⟩

/-- Two messages with one id, of which the second is a duplicate: nothing is
    hidden, and the law holds. -/
theorem deduplication_of_duplicate :
    let calls := (drive (performAt id) (groupScopedQueue, 0)
      [(putKeyed "a" "x" "g", 0), (putKeyed "b" "x" "g", 10)]).2
    requests id groupScopedQueue calls ≠ enqueued id groupScopedQueue calls ∧
      Windowed id groupScopedQueue calls ∧ Answered id groupScopedQueue 0 calls := by
  intro calls
  have hdriven : Driven (fun s input => Ready s input ∧ input.1 ≠ .clear) (performAt id)
      (groupScopedQueue, 0) [(putKeyed "a" "x" "g", 0), (putKeyed "b" "x" "g", 10)] := by
    decide +kernel
  have hlength : (requests id groupScopedQueue calls).length = 2 ∧
      (enqueued id groupScopedQueue calls).length = 1 := by
    decide +kernel
  refine ⟨fun hc => ?_, (deduplication_iff id _ 0 (fun _ => rfl) _ _
    (Runs.of_driven (unclearedStep_performAt id) _ _ hdriven)).mpr fun _ => ?_⟩
  · rw [hc, hlength.2] at hlength
    exact absurd hlength.1 (by decide)
  · -- Hiding a message takes three requests.
    rintro ⟨before, x, between, y, after, hsplit, -, -, -, -, z, hz, -⟩
    have hcount := hlength.1
    rw [hsplit] at hcount
    simp only [length_append, length_cons] at hcount
    have hpos := length_pos_of_mem hz
    omega

/-- The id `x` is put into one group, into another and into the first one
    again, all within half a minute. The first group holds it twice. -/
theorem deduplication_interleaved :
    ∃ calls s, Runs (UnclearedStep id) (groupScopedQueue, 0) calls s ∧
      ¬ (Windowed id groupScopedQueue calls ∧ Answered id groupScopedQueue 0 calls) := by
  have hdriven : Driven (fun s input => Ready s input ∧ input.1 ≠ .clear) (performAt id)
      (groupScopedQueue, 0) [(putKeyed "a" "x" "g", 0), (putKeyed "b" "x" "h", 10),
        (putKeyed "c" "x" "g", 20)] := by
    decide +kernel
  refine ⟨_, _, Runs.of_driven (unclearedStep_performAt id) _ _ hdriven, fun h => ?_⟩
  have hwindowed := h.1
  unfold Windowed at hwindowed
  revert hwindowed
  decide +kernel

end LocalEmu.Sqs.FifoQueue
