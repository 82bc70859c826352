import LocalEmu.Base.Run
import LocalEmu.Theory.Sqs.Receiving

/-!
# Histories of a Queue

What an operation did to a queue, as an event, and what a list of events says
about where every message is.

An operation accepts messages, hands them out, or lets go of them: by
deletion, as dead letters, or because they expired. `Effect` relates the
queue before an operation, its event and the queue after it, in terms of
`held` alone. Each operation satisfies it for a reason of its own, and what
follows for whole runs follows from `Effect` and from nothing else.

`Accounted` is what follows. A message is held exactly if it was accepted and
the queue has not let go of it, and while it is held its receive count is the
number of times it was handed out.
-/

namespace LocalEmu.Sqs

open List Option

open QueueKind LawfulQueueKind

/-- What an operation did. -/
structure Event where
  accepted : Option Ref := none
  successful : List Ref := []
  deadLetterMessages : List Ref := []
  removed : Option Ref := none
  expired : List Ref := []

variable (history : List Event) (e : Event)

def Event.gone : List Ref := e.deadLetterMessages ++ e.removed.toList ++ e.expired

variable (r : Ref)

/-- Some operation accepted the message. -/
def Accepted : Prop := ∃ e ∈ history, e.accepted = some r

/-- Some operation let go of the message. -/
def Gone : Prop := ∃ e ∈ history, r ∈ e.gone

/-- How often the message was handed out. -/
def successes : Nat :=
  (history.map fun e => e.successful.count r).sum

theorem accepted_append :
    Accepted (history ++ [e]) r ↔ Accepted history r ∨ e.accepted = some r := by
  unfold Accepted
  simp

theorem gone_append : Gone (history ++ [e]) r ↔ Gone history r ∨ r ∈ e.gone := by
  unfold Gone
  simp

theorem successes_append :
    successes (history ++ [e]) r = successes history r + e.successful.count r := by
  unfold successes
  rw [map_append, sum_append, map_singleton, sum_singleton]

variable {Q : Type} [QueueKind Q] [LawfulQueueKind Q] {hand : Multiset Ref}

/-- An operation, seen from the messages held. -/
structure Effect (q : Q) (e : Event) (q' : Q) : Prop where
  sound : Sound 0 q'
  attributes : (base q').attributes = (base q).attributes
  next : (base q').nextRef = (base q).nextRef + e.accepted.toList.length
  accepted : ∀ r, e.accepted = some r → r = (base q).nextRef
  held : ∀ r, r ∈ held q' ↔ (r ∈ held q ∨ e.accepted = some r) ∧ r ∉ e.gone
  gone : ∀ r ∈ e.gone, r < (base q).nextRef
  successful : ∀ r ∈ e.successful, r ∈ visible q ∧ (base q).exceedsNext r = false
  once : e.successful.Nodup
  deadLetter : ∀ r ∈ e.deadLetterMessages, (base q).exceedsNext r = true
  receiveCount : ∀ r ∈ Sqs.held q', ((base q').objects r).receiveCount =
    (if e.accepted = some r then 0 else ((base q).objects r).receiveCount) +
      e.successful.count r

theorem Effect.congr {q q' q'' : Q} {e : Event} (h : Effect q e q') (hb : base q'' = base q')
    (hv : visible q'' = visible q') : Effect q e q'' := by
  have hheld : Sqs.held q'' = Sqs.held q' := by
    unfold Sqs.held
    rw [hb, hv]
  have hsound : Sound 0 q'' :=
    h.sound.of_le (by rw [hheld]) (by rw [hb]) (fun _ => by rw [hb]) (fun _ _ => by rw [hb])
      (fun k r hk => by rw [hb] at hk ⊢; exact h.sound.receipts k r hk)
  refine ⟨hsound, by rw [hb, h.attributes], by rw [hb, h.next], h.accepted, ?_, h.gone,
    h.successful, h.once, h.deadLetter, ?_⟩
  · intro r
    rw [hheld]
    exact h.held r
  · intro r hr
    rw [hheld] at hr
    rw [hb]
    exact h.receiveCount r hr

variable (q q' : Q)

theorem effect_quiet (hs : Sound 0 q') (hheld : Sqs.held q' = Sqs.held q)
    (hattr : (base q').attributes = (base q).attributes)
    (hnext : (base q').nextRef = (base q).nextRef)
    (hcount : ∀ r, ((base q').objects r).receiveCount = ((base q).objects r).receiveCount) :
    Effect q {} q' := by
  refine ⟨hs, hattr, hnext, fun r hr => by simp only [reduceCtorEq] at hr, fun r => ?_,
    fun r hr => absurd hr not_mem_nil, fun r hr => absurd hr not_mem_nil,
    nodup_nil, fun r hr => absurd hr not_mem_nil, fun r _ => ?_⟩
  · rw [hheld]
    simp only [reduceCtorEq, or_false, Event.gone, toList_none, append_nil,
      not_mem_nil, not_false_eq_true, and_true]
  · rw [hcount]
    simp

theorem effect_refl (hs : Sound 0 q) : Effect q {} q :=
  effect_quiet q q hs rfl rfl rfl fun _ => rfl

/-! ### Accepting -/

/-- Accepting a message: the new object is delayed or made visible. -/
theorem effect_accept (h : Sound 0 q) (m : SqsMessage) (hlive : m.deleted = false)
    (hcount : m.receiveCount = 0)
    (hfresh : ∀ r, r < (base q).nextRef → (base q).messageId r ≠ m.message.messageId) (q' : Q)
    (hq' : q' = setBase (setBase q ((base q).alloc m))
        (((base q).alloc m).addDelayed (base q).nextRef) ∨
      q' = putMessage (setBase q ((base q).alloc m)) (base q).nextRef) :
    Effect q { accepted := some (base q).nextRef } q' := by
  have hs : Sound ({(base q).nextRef} + 0) (setBase q ((base q).alloc m)) :=
    sound_alloc q h m hlive hfresh
  have hb : base (setBase q ((base q).alloc m)) = (base q).alloc m := base_setBase q _
  have hold : Sqs.held (setBase q ((base q).alloc m)) = Sqs.held q := by
    unfold Sqs.held
    rw [visible_setBase, hb]
    rfl
  -- A fresh reference has no receipt handle.
  have hrec : ∀ k, (base (setBase q ((base q).alloc m))).receipts k ≠
      some (base q).nextRef := by
    intro k hk
    rw [hb] at hk
    exact Nat.lt_irrefl _ (h.receipts k _ hk).1
  have hpost : Sound 0 q' ∧ Sqs.held q' = {(base q).nextRef} + Sqs.held q ∧
      (base q').objects = ((base q).alloc m).objects ∧
      (base q').nextRef = (base q).nextRef + 1 ∧
      (base q').attributes = (base q).attributes := by
    rcases hq' with rfl | rfl
    · have hadd := addDelayed_delayed _ (base q).nextRef hs
      have h1 := sound_addDelayed _ (base q).nextRef hs hrec
      have h2 := held_addDelayed _ (base q).nextRef hs
      rw [hb] at h1 h2 hadd
      refine ⟨h1, by rw [h2, hold], ?_, ?_, ?_⟩
      · rw [base_setBase, hadd]
      · rw [base_setBase, hadd]
        rfl
      · rw [base_setBase, hadd]
        rfl
    · refine ⟨sound_putMessage _ _ hs, by rw [held_putMessage, hold], ?_, ?_, ?_⟩
      · rw [base_putMessage, hb]
      · rw [base_putMessage, hb]
        rfl
      · rw [base_putMessage, hb]
        rfl
  rcases hpost with ⟨h1, h2, h3, h4, h5⟩
  refine ⟨h1, h5, h4, fun r hr => (some.inj hr).symm, fun r => ?_,
    fun r hr => absurd hr not_mem_nil, fun r hr => absurd hr not_mem_nil,
    nodup_nil, fun r hr => absurd hr not_mem_nil, fun r _ => ?_⟩
  · rw [h2, Multiset.singleton_add, Multiset.mem_cons]
    simp only [some.injEq, Event.gone, toList_none, append_nil,
      not_mem_nil, not_false_eq_true, and_true]
    rw [or_comm, @eq_comm _ r]
  · rw [h3, alloc_objects]
    simp only [some.injEq, count_nil, add_zero, @eq_comm _ (base q).nextRef]
    split
    · exact hcount
    · rfl

/-! ### Receiving -/

theorem taken_receiveCount (exceeds : Bool) (visibilityTimeout : Int) (t₀ t₁ : ℚ)
    (m : SqsMessage) :
    (taken exceeds visibilityTimeout t₀ t₁ m).receiveCount = m.receiveCount + 1 := by
  unfold taken
  split
  · rfl
  · rfl

/-- Receiving, once the loop has taken its messages. -/
theorem effect_receive (visibilityTimeout : Int) (now : Nat → ℚ) (q : Q) (c : Collected Q)
    (h : Collecting visibilityTimeout now q c) (hs : Sound 0 q) :
    Effect q { successful := c.successful, deadLetterMessages := c.deadLetterMessages }
      (deliverMessages c).1 := by
  have hloop := h.sound hs
  rcases foldl_deliverMessage_spec _ (c.queue, []) hloop with ⟨h1, h2, h3⟩
  have hq : (deliverMessages c).1 = (c.successful.foldl deliverMessage (c.queue, [])).1 := rfl
  have hheld : Sqs.held q = (c.deadLetterMessages : Multiset Ref) +
      Sqs.held (deliverMessages c).1 := by
    rw [hq, h2]
    unfold Sqs.held
    rw [← h.visible, h.frame]
    abel
  have hmem : ∀ r, r ∈ c.successful ∨ r ∈ c.deadLetterMessages → r ∈ visible q := by
    intro r hr
    rw [← h.visible, Multiset.mem_add, Multiset.mem_add, Multiset.mem_coe]
    exact .inr hr
  have hdisj : ∀ r ∈ c.deadLetterMessages, r ∉ Sqs.held (deliverMessages c).1 := by
    intro r hr
    have hn := hs.held_nodup
    rw [hheld] at hn
    exact Multiset.disjoint_left.mp (Multiset.nodup_add.mp hn).2.2 (Multiset.mem_coe.mpr hr)
  have honce : c.successful.Nodup := by
    have hn := hs.visible_nodup
    rw [← h.visible] at hn
    exact Multiset.coe_nodup.mp (Multiset.nodup_add.mp (Multiset.nodup_add.mp hn).2.1).1
  refine ⟨h1.drop (Multiset.zero_le _), ?_, ?_, fun r hr => by simp only [reduceCtorEq] at hr,
    fun r => ?_, fun r hr => ?_, fun r hr => ⟨hmem r (.inl hr), (h.successful r hr).1⟩, honce,
    fun r hr => (h.deadLetter r hr).1, fun r hr => ?_⟩
  · rw [hq, h3.attributes, h.frame]
  · rw [hq, h3.nextRef, h.frame]
    rfl
  · rw [hheld, Multiset.mem_add]
    simp only [reduceCtorEq, or_false, Event.gone, toList_none, append_nil]
    constructor
    · exact fun hr => ⟨.inr hr, fun hc => hdisj r hc hr⟩
    · exact fun hr => hr.1.resolve_left hr.2
  · simp only [Event.gone, toList_none, append_nil] at hr
    exact hs.visible_lt r (hmem r (.inr hr))
  · have hdead : r ∉ c.deadLetterMessages := fun hc => hdisj r hc hr
    have hcount : ((base (deliverMessages c).1).objects r).receiveCount =
        ((base c.queue).objects r).receiveCount :=
      core_congr _ (fun _ => rfl) (h3.core r)
    rw [hcount]
    simp
    by_cases hsucc : r ∈ c.successful
    · rcases (h.successful r hsucc).2 with ⟨k, hk⟩
      rw [hk, taken_receiveCount, count_eq_one_of_mem honce hsucc]
    · rw [h.kept r hsucc hdead, count_eq_zero_of_not_mem hsucc, add_zero]

/-! ### Operations that hand nothing out -/

/-- The operations that hand nothing out. -/
theorem effect_putBack {place : Q → List Ref} {move : Q → Ref → Q} (hmove : PutsBack place move)
    (hs : Sound 0 q) (l : List Ref) (hn : l.Nodup) (hl : ∀ r ∈ l, r ∈ place q) :
    Effect q {} (l.foldl move q) := by
  have hinv := hmove.foldl
    (P := fun q' : Q => (base q').attributes = (base q).attributes ∧
      (base q').nextRef = (base q).nextRef ∧ (base q').objects = (base q).objects)
    (fun _ => True) (fun q' r hp _ _ => ?_) l q hs ⟨rfl, rfl, rfl⟩ hn
    (fun r hr => ⟨hl r hr, trivial⟩)
  · rcases hinv with ⟨h1, h2, -, h3, h4, h5⟩
    exact effect_quiet q _ h1 h2 h3 h4 fun r => by rw [h5]
  · rcases hmove.frame q' r with ⟨hattributes, hnext, hobjects⟩
    exact ⟨hattributes.trans hp.1, hnext.trans hp.2.1, hobjects.trans hp.2.2⟩

theorem effect_modify (hs : Sound 0 q) (r : Ref) (f : SqsMessage → SqsMessage)
    (hid : ∀ m, (f m).message.messageId = m.message.messageId)
    (hdel : ∀ m, (f m).deleted = m.deleted)
    (hcount : ∀ m, (f m).receiveCount = m.receiveCount) :
    Effect q {} (setBase q ((base q).modify r f)) := by
  have hb := base_setBase q ((base q).modify r f)
  have hobj : ∀ {α : Type} (g : SqsMessage → α), (∀ m, g (f m) = g m) →
      ∀ r', g (((base q).modify r f).objects r') = g ((base q).objects r') := by
    intro α g hg r'
    rw [modify_objects]
    by_cases hr : r' = r
    · rw [if_pos hr, hg, hr]
    · rw [if_neg hr]
  have hheld : held (setBase q ((base q).modify r f)) = held q := by
    unfold held
    rw [visible_setBase, hb]
    rfl
  refine effect_quiet q _ ?_ hheld (by rw [hb]; rfl) (by rw [hb]; rfl) (fun r' => ?_)
  · refine hs.of_le (by rw [hheld]) (by rw [hb]; rfl) (fun r' => ?_) (fun r' _ => ?_)
      (fun k r' hk => ?_)
    · rw [hb]
      exact hobj (fun m => m.message.messageId) hid r'
    · rw [hb]
      exact hobj _ hdel r'
    · rw [hb] at hk ⊢
      exact hs.receipts k r' hk
  · rw [hb]
    exact hobj _ hcount r'

theorem Effect.trans_quiet {q q' q'' : Q} (h : Effect q {} q') (h' : Effect q' {} q'') :
    Effect q {} q'' := by
  refine ⟨h'.sound, h'.attributes.trans h.attributes, h'.next.trans h.next,
    fun r hr => by simp only [reduceCtorEq] at hr, fun r => ?_,
    fun r hr => absurd hr not_mem_nil, fun r hr => absurd hr not_mem_nil,
    nodup_nil, fun r hr => absurd hr not_mem_nil, fun r hr => ?_⟩
  · rw [h'.held, h.held]
    simp
  · have hmid : r ∈ Sqs.held q' := by
      have hr' := (h'.held r).mp hr
      simpa only [reduceCtorEq, or_false, Event.gone, toList_none, append_nil,
        not_mem_nil, not_false_eq_true, and_true] using hr'
    have h1 := h'.receiveCount r hr
    have h2 := h.receiveCount r hmid
    simp only [reduceCtorEq, if_false, count_nil, add_zero] at h1 h2 ⊢
    rw [h1, h2]

theorem effect_updateVisibilityTimeout (hs : Sound 0 q) (h : ReceiptHandle)
    (visibilityTimeout : Int) (now : ℚ)
    (hok : updateVisibilityTimeout q h visibilityTimeout now = .ok q') : Effect q {} q' := by
  rcases updateVisibilityTimeout_ok q q' h _ _ hok with ⟨r, hr, hcase⟩
  have hlt := (hs.receipts h r hr).1
  rcases hcase with ⟨-, rfl⟩ | ⟨-, -, rfl⟩ | ⟨hin, -, rfl⟩
  · exact effect_refl q' hs
  · exact effect_modify q hs r _ (fun _ => rfl) (fun _ => rfl) (fun _ => rfl)
  · have hmod : Effect q {} (setBase q ((base q).modify r
        fun m => m.updateVisibilityTimeout 0 now)) :=
      effect_modify q hs r _ (fun _ => rfl) (fun _ => rfl) (fun _ => rfl)
    refine hmod.trans_quiet
      (effect_putBack _ putsBack_requeue hmod.sound [r] (nodup_singleton r) ?_)
    intro r' hr'
    rw [mem_singleton.mp hr', base_setBase]
    exact (hs.isInflight_iff r hlt).mp hin

/-! ### Letting go -/

theorem effect_remove (hs : Sound 0 q) (r : Ref) (hr : r < (base q).nextRef)
    (hbase : base q' = { base (markDeleted q r) with inflight := (base q').inflight })
    (hheld : held q' = (held q).erase r) : Effect q { removed := some r } q' := by
  have hmark := base_markDeleted q r
  have hobj : ∀ r', r' ≠ r → (base q').objects r' = (base q).objects r' := by
    intro r' hr'
    rw [hbase, hmark]
    exact Function.update_of_ne hr' _ _
  have hself : (base q').objects r =
      { (base q).objects r with deleted := true, receiptHandles := [] } := by
    rw [hbase, hmark]
    exact Function.update_self r _ _
  have hne : ∀ r' ∈ held q', r' ≠ r := by
    intro r' hmem hc
    rw [hheld, hc] at hmem
    exact (Multiset.Nodup.mem_erase_iff hs.held_nodup).mp hmem |>.1 rfl
  have hsound : Sound 0 q' := by
    refine hs.of_le ?_ (by rw [hbase, hmark]) (fun r' => ?_) (fun r' hr' => ?_) (fun k r' hk => ?_)
    · rw [hheld, zero_add, zero_add]
      exact Multiset.erase_le r _
    · by_cases hc : r' = r
      · unfold SqsQueue.messageId
        rw [hc, hself]
      · unfold SqsQueue.messageId
        rw [hobj r' hc]
    · rw [zero_add] at hr'
      rw [hobj r' (hne r' hr')]
    · rw [hbase, hmark] at hk ⊢
      simp only at hk
      split at hk
      · cases hk
      · exact hs.receipts k r' hk
  refine ⟨hsound, by rw [hbase, hmark], by rw [hbase, hmark]; rfl,
    fun r' hr' => by simp only [reduceCtorEq] at hr', fun r' => ?_, fun r' hr' => ?_,
    fun r' hr' => absurd hr' not_mem_nil, nodup_nil,
    fun r' hr' => absurd hr' not_mem_nil, fun r' hr' => ?_⟩
  · rw [hheld, Multiset.Nodup.mem_erase_iff hs.held_nodup]
    simp only [reduceCtorEq, or_false, Event.gone, nil_append, toList_some,
      append_nil, mem_singleton]
    rw [and_comm]
  · simp only [Event.gone, nil_append, toList_some, append_nil,
      mem_singleton] at hr'
    rw [hr']
    exact hr
  · rw [hobj r' (hne r' hr')]
    simp

theorem effect_expire (hs : Sound 0 q) (hbase : base q' = base q) (expired : List Ref)
    (hvis : visible q' + (expired : Multiset Ref) = visible q) :
    Effect q { expired := expired } q' := by
  have hheld : held q = (expired : Multiset Ref) + held q' := by
    unfold held
    rw [hbase, ← hvis]
    abel
  have hdisj : ∀ r ∈ expired, r ∉ held q' := by
    intro r hr
    have hn := hs.held_nodup
    rw [hheld] at hn
    exact Multiset.disjoint_left.mp (Multiset.nodup_add.mp hn).2.2 (Multiset.mem_coe.mpr hr)
  have hsound : Sound 0 q' :=
    hs.of_le (by rw [hheld, zero_add, zero_add]; exact Multiset.le_add_left _ _) (by rw [hbase])
      (fun _ => by rw [hbase]) (fun _ _ => by rw [hbase])
      (fun k r hk => by rw [hbase] at hk ⊢; exact hs.receipts k r hk)
  refine ⟨hsound, by rw [hbase], by rw [hbase]; rfl,
    fun r hr => by simp only [reduceCtorEq] at hr, fun r => ?_, fun r hr => ?_,
    fun r hr => absurd hr not_mem_nil, nodup_nil,
    fun r hr => absurd hr not_mem_nil, fun r _ => ?_⟩
  · rw [hheld, Multiset.mem_add]
    simp
    constructor
    · exact fun hr => ⟨.inr hr, fun hc => hdisj r hc hr⟩
    · exact fun hr => hr.1.resolve_left hr.2
  · simp only [Event.gone, toList_none, nil_append] at hr
    refine hs.visible_lt r ?_
    rw [← hvis]
    exact Multiset.mem_add.mpr (.inr (Multiset.mem_coe.mpr hr))
  · rw [hbase]
    simp

/-! ### Whole histories -/

/-- A queue agrees with its history: what was accepted and not let go of is held, nothing else is,
    and receive counts are the numbers of deliveries, which the redrive policy bounds. -/
structure Accounted (history : List Event) (q : Q) : Prop where
  sound : Sound 0 q
  accepted : ∀ r, Accepted history r ↔ r < (base q).nextRef
  held : ∀ r, r ∈ held q ↔ Accepted history r ∧ ¬ Gone history r
  receiveCount : ∀ r ∈ Sqs.held q, ((base q).objects r).receiveCount = successes history r
  limit : ∀ n : Nat, (base q).maxReceiveCount = some (n : Int) → ∀ r,
    (n ≠ 0 → successes history r ≤ n) ∧ (n = 0 → ∀ e ∈ history, r ∉ e.deadLetterMessages)
  fresh : ∀ r, ¬ Accepted history r → ¬ Gone history r ∧ successes history r = 0

/-- Every history is accounted for. -/
theorem accounted_init (hs : Sound 0 q) (hnext : (base q).nextRef = 0) : Accounted [] q := by
  have hno : ∀ r, ¬ Accepted [] r := fun r hr => by
    rcases hr with ⟨e, he, -⟩
    exact absurd he not_mem_nil
  have hgone : ∀ r, ¬ Gone [] r := fun r hr => by
    rcases hr with ⟨e, he, -⟩
    exact absurd he not_mem_nil
  have hnone : ∀ r, r ∉ Sqs.held q := fun r hr => by
    have hlt := hs.held_lt r hr
    rw [hnext] at hlt
    exact Nat.not_lt_zero r hlt
  refine ⟨hs, fun r => ?_, fun r => ?_, fun r hr => absurd hr (hnone r), fun n _ r => ?_,
    fun r _ => ⟨hgone r, rfl⟩⟩
  · rw [hnext]
    exact ⟨fun hr => absurd hr (hno r), fun hr => absurd hr (Nat.not_lt_zero r)⟩
  · exact ⟨fun hr => absurd hr (hnone r), fun hr => absurd hr.1 (hno r)⟩
  · exact ⟨fun _ => Nat.zero_le n, fun _ e he => absurd he not_mem_nil⟩

/-- An operation keeps a queue in agreement with its history. -/
theorem accounted_step (history : List Event) (q q' : Q) (e : Event)
    (h : Accounted history q) (he : Effect q e q') : Accounted (history ++ [e]) q' := by
  have hacc : ∀ r, e.accepted = some r → ¬ Accepted history r := by
    intro r hr hc
    have hlt := (h.accepted r).mp hc
    rw [he.accepted r hr] at hlt
    exact Nat.lt_irrefl _ hlt
  refine ⟨he.sound, fun r => ?_, fun r => ?_, fun r hr => ?_, fun n hn r => ?_, fun r hr => ?_⟩
  · rw [accepted_append, h.accepted, he.next]
    cases hopt : e.accepted with
    | none =>
      simp only [reduceCtorEq, or_false, toList_none, length_nil, add_zero]
    | some r' =>
      have hr' := he.accepted r' hopt
      simp only [some.injEq, toList_some, length_cons, length_nil, zero_add]
      rw [hr', Nat.lt_succ_iff_lt_or_eq]
      exact or_congr_right ⟨Eq.symm, Eq.symm⟩
  · rw [he.held, h.held, accepted_append, gone_append, not_or]
    constructor
    · intro hr
      rcases hr with ⟨hr | hr, hgone⟩
      · exact ⟨.inl hr.1, hr.2, hgone⟩
      · exact ⟨.inr hr, (h.fresh r (hacc r hr)).1, hgone⟩
    · intro hr
      rcases hr with ⟨hr | hr, hnot, hgone⟩
      · exact ⟨.inl ⟨hr, hnot⟩, hgone⟩
      · exact ⟨.inr hr, hgone⟩
  · rw [he.receiveCount r hr, successes_append]
    by_cases hnew : e.accepted = some r
    · rw [if_pos hnew, (h.fresh r (hacc r hnew)).2]
    · rw [if_neg hnew, h.receiveCount r (((he.held r).mp hr).1.resolve_right hnew)]
  · have hpol : (base q).maxReceiveCount = some (n : Int) := by
      unfold SqsQueue.maxReceiveCount at hn ⊢
      rw [← he.attributes]
      exact hn
    have hlim := h.limit n hpol r
    constructor
    · intro hne
      rw [successes_append]
      by_cases hr : r ∈ e.successful
      · -- The delivery was allowed, so the count before it was below the limit.
        rcases he.successful r hr with ⟨hvis, hexc⟩
        have hcount := h.receiveCount r ((mem_held q r).mpr (.inr (.inl hvis)))
        unfold SqsQueue.exceedsNext at hexc
        rw [hpol] at hexc
        simp only [decide_eq_false_iff_not, not_and, not_lt] at hexc
        have hle := hexc (by exact_mod_cast hne)
        rw [count_eq_one_of_mem he.once hr, ← hcount]
        exact_mod_cast hle
      · rw [count_eq_zero_of_not_mem hr]
        exact hlim.1 hne
    · intro hzero e' he' hr
      rcases mem_append.mp he' with he' | he'
      · exact hlim.2 hzero e' he' hr
      · rw [mem_singleton.mp he'] at hr
        have hexc := he.deadLetter r hr
        unfold SqsQueue.exceedsNext at hexc
        rw [hpol, hzero] at hexc
        simp only [Nat.cast_zero, ne_eq, not_true_eq_false, false_and, decide_false,
          Bool.false_eq_true] at hexc
  · rw [accepted_append, not_or] at hr
    have hge : ¬ r < (base q).nextRef := fun hc => hr.1 ((h.accepted r).mpr hc)
    rw [gone_append, successes_append, not_or]
    refine ⟨⟨(h.fresh r hr.1).1, fun hc => hge (he.gone r hc)⟩, ?_⟩
    rw [(h.fresh r hr.1).2, count_eq_zero_of_not_mem (fun hc =>
      hge (h.sound.visible_lt r (he.successful r hc).1))]

end LocalEmu.Sqs
