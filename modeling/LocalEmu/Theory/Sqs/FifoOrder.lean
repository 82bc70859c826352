import LocalEmu.Theory.Sqs.FifoHistory

/-!
# The Order of a FIFO Queue

In which order the messages of a group are handed out.

When a message is handed out, an earlier message of its group that is still
in the queue is handed out before it by the same call, or it is in flight, or
it is still delayed. The last two have their reasons. A message can be in
flight only after a call made another message of the group visible again and
left this one in flight: the group then waits in the queue as a whole, as
`FifoQueue.PartialReturn` has it. And an earlier message can be delayed for
longer only when the clock readings of one operation disagree, which
`FifoQueue.Punctual` excludes.

`FifoQueue.order_partial_return` is a run in which a group is handed out
while one of its messages is in flight.
-/

namespace LocalEmu.Sqs.FifoQueue

open List

open QueueKind LawfulQueueKind

variable (sha256 : String → String)

/-! ### The chronicle of a run -/

/-- What holds along a run in which no message expires. -/
structure Chronicle (history : List Event) (s : FifoQueue × ℚ) : Prop where
  tidy : ∃ owed, Tidy s.2 owed 0 s.1
  fresh : ∀ g, ¬ s.1.Stale g
  placed : ∀ r ∈ s.1.inflight, s.1.Placed (s.1.groupId r)
  accounted : Accounted history s.1
  created : ∀ r, r < s.1.nextRef → (s.1.objects r).created ≤ s.2
  ordered : ∀ r r', r < r' → r' < s.1.nextRef →
    (s.1.objects r).created ≤ (s.1.objects r').created
  delay : ∀ r, r < s.1.nextRef →
    (s.1.objects r).delaySeconds = some s.1.attributes.delaySeconds

variable (s : FifoQueue × ℚ)

variable (history : List Event) (arn : String) (attributes : QueueAttributes)
  (deduplicationScope : String) (t₀ : ℚ) (calls : List Call) (g : String) (q : FifoQueue) (c : Call)
  (s' : FifoQueue × ℚ)

/-- A step that lets no message expire. -/
def KeepingStep : Prop :=
  Step sha256 s c s' ∧ c.op.keeps = true

theorem chronicle_init (t : ℚ) : Chronicle [] (init arn attributes deduplicationScope, t) := by
  have hno : ∀ r, ¬ r < (init arn attributes deduplicationScope).nextRef := Nat.not_lt_zero
  refine ⟨⟨0, tidy_init _ _ _ t⟩, fun g hg => ?_, fun r hr => ?_,
    accounted_init _ (tidy_init _ _ _ t).sound rfl,
    fun r hr => absurd hr (hno r), fun _ r' _ hr' => absurd hr' (hno r'),
    fun r hr => absurd hr (hno r)⟩
  · exact absurd hg.1 not_mem_nil
  · exact absurd hr not_mem_nil

-- The creation times stay ordered, since a new message is created last.
theorem chronicle_step (s s' : FifoQueue × ℚ) (c : Call) (h : Chronicle history s)
    (hstep : KeepingStep sha256 s c s') :
    Chronicle (history ++ [c.event]) s' := by
  rcases hstep with ⟨hstep, hkeeps⟩
  rcases h.tidy with ⟨owed, ht⟩
  have hout := step_outcome _ s.1 s'.1 s.2 s'.2 c ht hstep hkeeps
  have heff := effect_outcome ht.sound hout
  have htr := transfer_outcome ht hout
  rcases stamp_outcome hout with ⟨hold, hnew⟩
  have hclock := hstep.2.2.1
  have htt : s.2 ≤ s'.2 := le_trans (hclock 0).1 (hclock 0).2
  -- A message of the new state is an old one or the one just accepted.
  have hsplit : ∀ r, r < s'.1.nextRef → r < s.1.nextRef ∨ c.event.accepted = some r := by
    intro r hr
    have hnext : s'.1.nextRef = s.1.nextRef + c.event.accepted.toList.length := heff.next
    rw [hnext] at hr
    cases hacc : c.event.accepted with
    | none =>
      rw [hacc] at hr
      exact .inl hr
    | some r₀ =>
      have hr₀ : r₀ = s.1.nextRef := heff.accepted _ hacc
      rw [hacc] at hr
      rcases Nat.lt_succ_iff_lt_or_eq.mp hr with hr | hr
      · exact .inl hr
      · exact .inr (by rw [hr₀, hr])
  have hcreated : ∀ r, r < s.1.nextRef →
      (s'.1.objects r).created = (s.1.objects r).created := fun r hr =>
    congrArg (fun x : ℚ × ℚ × Option Int × Option String => x.2.1) (hold r hr)
  have hdelay : ∀ r, r < s.1.nextRef →
      (s'.1.objects r).delaySeconds = (s.1.objects r).delaySeconds := fun r hr =>
    congrArg (fun x : ℚ × ℚ × Option Int × Option String => x.2.2.1) (hold r hr)
  have hattr : s'.1.attributes = s.1.attributes := heff.attributes
  refine ⟨⟨_, tidy_step _ s.1 s'.1 s.2 s'.2 c ht hstep fun g _ => h.fresh g⟩,
    fun g hg => h.fresh g (htr.stale g hg), fun r hr => ?_,
    accounted_step history s.1 s'.1 _ h.accounted heff, fun r hr => ?_,
    fun r r' hrr hr' => ?_, fun r hr => ?_⟩
  · have hplaced : s.1.Placed (s.1.groupId r) := by
      rcases htr.inflight r hr with hr | hr
      · exact h.placed r hr
      · exact .inl hr.1
    rw [htr.ids r hr]
    rcases htr.placed _ hplaced with hp | hp | hp
    · exact hp
    · exact absurd hp (h.fresh _)
    · exact absurd rfl (hp r hr)
  · rcases hsplit r hr with hr | hr
    · rw [hcreated r hr]
      exact le_trans (h.created r hr) htt
    · rw [(hnew r hr).2.1]
      exact (hclock 1).2
  · rcases hsplit r' hr' with hr' | hr'
    · rw [hcreated r' hr', hcreated r (lt_trans hrr hr')]
      exact h.ordered r r' hrr hr'
    · have hlast : r' = s.1.nextRef := heff.accepted r' hr'
      have hr : r < s.1.nextRef := lt_of_lt_of_eq hrr hlast
      rw [hcreated r hr, (hnew r' hr').2.1]
      exact le_trans (h.created r hr) (hclock 1).1
  · rw [hattr]
    rcases hsplit r hr with hr | hr
    · rw [hdelay r hr]
      exact h.delay r hr
    · exact (hnew r hr).2.2

/-- The chronicle of a run. -/
theorem chronicle_run (s : FifoQueue × ℚ)
    (h : Runs (KeepingStep sha256) (init arn attributes deduplicationScope, t₀) calls s) :
    Chronicle (calls.map Call.event) s := by
  refine Runs.history (P := fun calls s => Chronicle (calls.map Call.event) s)
    (fun calls s c s' hs hstep => ?_) h [] (chronicle_init _ _ _ _)
  have hnext := chronicle_step _ _ s s' c hs hstep
  rw [map_append]
  exact hnext

/-! ### Exclusive groups -/

/-- A group that waits in the queue has no message in flight. -/
def Exclusive : Prop :=
  g ∈ q.messageGroupQueue → ∀ r ∈ q.inflight, q.groupId r ≠ g

/-- Two messages of a group were in flight, and one of them is visible again
    while the other still is in flight. -/
def PartialReturn (q' : FifoQueue) : Prop :=
  ∃ r r', r ∈ q.inflight ∧ r' ∈ q.inflight ∧ q.groupId r = g ∧ q.groupId r' = g ∧
    r ∈ visible q' ∧ r' ∈ q'.inflight

theorem exclusive_step (s s' : FifoQueue × ℚ) (c : Call) (h : Chronicle history s)
    (hstep : KeepingStep sha256 s c s') (g : String)
    (hg : Exclusive g s.1) (hpart : ¬ PartialReturn g s.1 s'.1) : Exclusive g s'.1 := by
  rcases h.tidy with ⟨owed, ht⟩
  have htr := transfer_outcome ht (step_outcome sha256 s.1 s'.1 s.2 s'.2 c ht hstep.1 hstep.2)
  intro hqueue r hr hrg
  rw [htr.ids r hr] at hrg
  have hin : r ∈ s.1.inflight := by
    rcases htr.inflight r hr with hin | ⟨-, hnot⟩
    · exact hin
    · rw [hrg] at hnot
      exact absurd hqueue hnot
  rcases htr.queue g hqueue with hold | hout | hnone | ⟨r₁, hr₁, hr₁g, hvis⟩
  · exact hg hold r hin hrg
  · -- The group of a message in flight was not lost, so it waited before.
    have hplaced := h.placed r hin
    rw [hrg] at hplaced
    exact hg (hplaced.resolve_right hout) r hin hrg
  · exact hnone r hr hrg
  · exact hpart ⟨r₁, r, hr₁, hin, hr₁g, hrg, hvis, hr⟩

/-- A step that returns no group in part. -/
def WholeStep (s : FifoQueue × ℚ) (c : Call) (s' : FifoQueue × ℚ) : Prop :=
  KeepingStep sha256 s c s' ∧ ¬ PartialReturn g s.1 s'.1

/-- Without partial returns, groups are exclusive. -/
theorem exclusive_run (s s' : FifoQueue × ℚ) (calls : List Call) (h : Chronicle history s)
    (g : String) (hg : Exclusive g s.1)
    (hrun : Runs (WholeStep sha256 g) s calls s') : Exclusive g s'.1 :=
  (Runs.invariant (P := fun s : FifoQueue × ℚ => (∃ history, Chronicle history s) ∧
    Exclusive g s.1) (fun s c s' hs hstep => by
      rcases hs with ⟨⟨history, hs⟩, hex⟩
      exact ⟨⟨_, chronicle_step _ history s s' c hs hstep.1⟩,
        exclusive_step _ history s s' c hs hstep.1 g hex hstep.2⟩) hrun
    ⟨⟨history, h⟩, hg⟩).2

/-! ### The order of the delayed messages -/

/-- Messages leave the delayed ones in order: behind a delayed message all
    messages held are delayed. Without a delay none is. -/
structure Orderly (q : FifoQueue) : Prop where
  behind : ∀ r ∈ q.delayed, ∀ r' ∈ held q, r < r' → r' ∈ q.delayed
  undelayed : q.attributes.delaySeconds ≤ 0 → q.delayed = []

/-- The readings of an operation agree about the delay: a `put` takes neither as long as a positive
    delay nor no time at all, and one pass over the delayed messages takes no time. -/
def Punctual : Prop :=
  match c.op with
  | .put _ _ _ _ _ _ =>
    (q.attributes.delaySeconds ≤ 0 → c.now 1 + q.attributes.delaySeconds < c.now 2) ∧
      (0 < q.attributes.delaySeconds → c.now 2 ≤ c.now 1 + q.attributes.delaySeconds)
  | .enqueueDelayedMessages _ => ∀ i, c.now i = c.now 0
  | _ => True

theorem selectAt_const (now : Nat → ℚ) (test : Ref → ℚ → Bool) (l : List Ref)
    (hnow : ∀ i, now i = now 0) :
    selectAt now test l = l.filter fun r => test r (now 0) := by
  have hfst : l.zipIdx.map Prod.fst = l := zipIdx_map_fst 0 l
  have hmap := filter_map (f := Prod.fst) (p := fun r => test r (now 0)) (l := l.zipIdx)
  rw [hfst] at hmap
  unfold selectAt
  simp only [hnow, hmap]
  rfl

theorem Orderly.of_delayed {q q' : FifoQueue} {e : Event} (h : Orderly q) (heff : Effect q e q')
    (hacc : e.accepted = none) (hdel : q'.delayed = q.delayed) : Orderly q' := by
  have hattr : q'.attributes = q.attributes := heff.attributes
  refine ⟨fun r hr r' hr' hrr => ?_, fun hd => ?_⟩
  · rw [hdel] at hr ⊢
    have hheld := ((heff.held r').mp hr').1
    rw [hacc] at hheld
    exact h.behind r hr r' (hheld.resolve_right (by simp)) hrr
  · rw [hattr] at hd
    rw [hdel]
    exact h.undelayed hd

theorem orderly_enqueue {q : FifoQueue} (h : Orderly q) (hs : Sound 0 q) (dedupId : String)
    (m : SqsMessage) (now : Nat → ℚ)
    (heff : Effect q { accepted := some q.nextRef } (q.enqueue dedupId m (now 2)))
    (hlive : m.deleted = false)
    (hfresh : ∀ r, r < q.nextRef → q.messageId r ≠ m.message.messageId)
    (hcreated : m.created = now 1) (hdelay : m.delaySeconds = some q.attributes.delaySeconds)
    (hzero : q.attributes.delaySeconds ≤ 0 → now 1 + q.attributes.delaySeconds < now 2)
    (hpos : 0 < q.attributes.delaySeconds → now 2 ≤ now 1 + q.attributes.delaySeconds) :
    Orderly (q.enqueue dedupId m (now 2)) := by
  have hattr : (q.enqueue dedupId m (now 2)).attributes = q.attributes := heff.attributes
  rcases enqueue_base q _ m _ with ⟨q₁, hb, -, -, -, hcase⟩
  have hisDelayed : m.isDelayed (now 2) = decide (now 2 ≤ now 1 + q.attributes.delaySeconds) := by
    unfold SqsMessage.isDelayed
    rw [hdelay, hcreated]
  have hold : ∀ r, r ∈ held (q.enqueue dedupId m (now 2)) → r ∈ held q ∨ r = q.nextRef :=
    fun r hr => ((heff.held r).mp hr).1.imp_right fun hc => (Option.some.inj hc).symm
  by_cases hd : q.attributes.delaySeconds ≤ 0
  · have hnot : m.isDelayed (now 2) = false := by
      rw [hisDelayed, decide_eq_false_iff_not]
      exact not_le.mpr (hzero hd)
    have hdel : (q.enqueue dedupId m (now 2)).delayed = [] := by
      rw [hb]
      rcases hcase with ⟨hc, -⟩ | ⟨-, rfl⟩
      · rw [hnot] at hc
        exact absurd hc Bool.false_ne_true
      · rw [putMessage_base]
        exact h.undelayed hd
    refine ⟨fun r hr => ?_, fun _ => hdel⟩
    rw [hdel] at hr
    exact absurd hr not_mem_nil
  · have hyes : m.isDelayed (now 2) = true := by
      rw [hisDelayed, decide_eq_true_iff]
      exact hpos (not_le.mp hd)
    have hmem : ∀ r, r ∈ (q.enqueue dedupId m (now 2)).delayed ↔ r ∈ q.delayed ∨ r = q.nextRef := by
      intro r
      rw [hb]
      rcases hcase with ⟨-, rfl⟩ | ⟨hc, -⟩
      · have hsound := sound_alloc q hs m hlive hfresh
        have hadd := addDelayed_delayed _ _ hsound
        have hadd : ((q.alloc m).addDelayed q.nextRef).delayed = q.delayed ++ [q.nextRef] :=
          congrArg _ hadd
        show r ∈ ((q.alloc m).addDelayed q.nextRef).delayed ↔ _
        rw [hadd, mem_append, mem_singleton]
      · rw [hyes] at hc
        exact absurd hc.symm Bool.false_ne_true
    refine ⟨fun r hr r' hr' hrr => ?_, fun hd' => ?_⟩
    · rcases hold r' hr' with hr' | hr'
      · rw [hmem] at hr ⊢
        rcases hr with hr | hr
        · exact .inl (h.behind r hr r' hr' hrr)
        · rw [hr] at hrr
          exact absurd (hs.held_lt r' hr') (Nat.lt_asymm hrr)
      · exact (hmem r').mpr (.inr hr')
    · rw [hattr] at hd'
      exact absurd hd' hd

theorem orderly_undelayed {history : List Event} {t : ℚ} {q : FifoQueue} (h : Orderly q)
    (hc : Chronicle history (q, t)) (order : List Ref) (now : Nat → ℚ)
    (hperm : order.Perm q.delayed) (hnow : ∀ i, now i = now 0) :
    Orderly ((selectAt now (fun r t => !(q.objects r).isDelayed t) order).foldl
      enqueueDelayedMessage q) := by
  have hs : Sound 0 q := hc.accounted.sound
  have hsub := selectAt_sublist now (fun r t => !(q.objects r).isDelayed t) order
  have hl : ∀ r ∈ selectAt now (fun r t => !(q.objects r).isDelayed t) order, r ∈ q.delayed :=
    fun r hr => hperm.mem_iff.mp (hsub.mem hr)
  have hn : (selectAt now (fun r t => !(q.objects r).isDelayed t) order).Nodup :=
    hsub.nodup (hperm.nodup_iff.mpr hs.delayed_nodup)
  have heff := effect_putBack q putsBack_enqueueDelayed hs _ hn hl
  have hattr := heff.attributes
  -- A delayed message stays exactly when it is delayed at the one reading.
  have hstays : ∀ r ∈ q.delayed,
      r ∉ selectAt now (fun r t => !(q.objects r).isDelayed t) order ↔
        now 0 ≤ (q.objects r).created + q.attributes.delaySeconds := by
    intro r hr
    rw [selectAt_const _ _ _ hnow, mem_filter, not_and]
    have hr' : r ∈ order := hperm.mem_iff.mpr hr
    have hdelay : (q.objects r).delaySeconds = some q.attributes.delaySeconds :=
      hc.delay r (hs.delayed_lt r hr)
    unfold SqsMessage.isDelayed
    rw [hdelay]
    simp only [hr', forall_const, Bool.not_eq_true', decide_eq_false_iff_not, not_not]
  generalize selectAt now (fun r t => !(q.objects r).isDelayed t) order = l at *
  have hback : (l.foldl enqueueDelayedMessage q).delayed = q.delayed.diff l :=
    (putsBack_enqueueDelayed.foldl (P := fun _ => True) (fun _ => True)
      (fun _ _ _ _ _ => trivial) _ q hs trivial hn fun r hr => ⟨hl r hr, trivial⟩).2.2.1
  have hmem (r : Ref) : r ∈ (l.foldl enqueueDelayedMessage q).delayed ↔ r ∈ q.delayed ∧ r ∉ l := by
    rw [hback]
    exact hs.delayed_nodup.mem_sdiff_iff
  refine ⟨fun r hr r' hr' hrr => ?_, fun hd => ?_⟩
  · rcases (hmem r).mp hr with ⟨hr, hkept⟩
    have hheld : r' ∈ held q := ((heff.held r').mp hr').1.resolve_right (by simp)
    have hdel := h.behind r hr r' hheld hrr
    refine (hmem r').mpr ⟨hdel, (hstays r' hdel).mpr ?_⟩
    calc now 0 ≤ (q.objects r).created + q.attributes.delaySeconds := (hstays r hr).mp hkept
      _ ≤ (q.objects r').created + q.attributes.delaySeconds :=
        add_le_add (hc.ordered r r' hrr (hs.delayed_lt r' hdel)) (le_refl _)
  · have hd : q.attributes.delaySeconds ≤ 0 := by
      have hattr : (l.foldl enqueueDelayedMessage q).attributes = q.attributes := hattr
      rw [← hattr]
      exact hd
    rw [eq_nil_iff_forall_not_mem]
    intro r hr
    have hr := ((hmem r).mp hr).1
    rw [h.undelayed hd] at hr
    exact absurd hr not_mem_nil

theorem orderly_step (s s' : FifoQueue × ℚ) (c : Call) (h : Chronicle history s)
    (hstep : KeepingStep sha256 s c s') (horder : Orderly s.1)
    (hpunctual : s.1.Punctual c) : Orderly s'.1 := by
  rcases h.tidy with ⟨owed, ht⟩
  have hout := step_outcome _ s.1 s'.1 s.2 s'.2 c ht hstep.1 hstep.2
  have heff := effect_outcome ht.sound hout
  rcases s' with ⟨q', t'⟩
  rcases c with ⟨op, now, e⟩
  simp only at hout heff hpunctual ⊢
  cases hout with
  | idle => exact horder
  | enqueued _ _ _ _ _ _ _ dedupId m hnew hstamp hfresh =>
    exact orderly_enqueue horder ht.sound _ m _ heff hnew.1 hfresh hstamp.2.1 hstamp.2.2
      hpunctual.1 hpunctual.2
  | received _ _ _ c hrec =>
    refine horder.of_delayed heff rfl ?_
    exact (delivered_foldl _ (c.queue, [])).delayed.trans hrec.collecting.delayed
  | receivedMessage _ _ _ c hrec =>
    refine horder.of_delayed heff rfl ?_
    rw [(released_releaseDeadLetters _ (deliverMessages c).1).base]
    exact (delivered_foldl _ (c.queue, [])).delayed.trans hrec.collecting.delayed
  | removed _ _ r =>
    refine horder.of_delayed heff rfl ?_
    rw [(released_updateMessageGroupVisibility _ _).base]
    exact (congrArg SqsQueue.delayed (base_markDeleted s.1 r) :)
  | postponed => exact horder.of_delayed heff rfl rfl
  | terminated _ _ _ r =>
    refine horder.of_delayed heff rfl ?_
    exact (congrArg _ (base_requeueMessage (setBase s.1 (s.1.modify r
      fun m => m.updateVisibilityTimeout 0 (now 0))) r) :)
  | requeued _ l => exact horder.of_delayed heff rfl (objects_foldl_requeue l s.1).2
  | undelayed order _ hperm => exact orderly_undelayed horder h _ _ hperm hpunctual

/-- A step whose readings agree about the delay. -/
def PunctualStep : Prop :=
  KeepingStep sha256 s c s' ∧ s.1.Punctual c

/-- Punctual runs keep the order of the delayed messages. -/
theorem orderly_run (s : FifoQueue × ℚ)
    (h : Runs (PunctualStep sha256) (init arn attributes deduplicationScope, t₀) calls s) :
    Orderly s.1 := by
  refine (Runs.invariant (P := fun s : FifoQueue × ℚ => (∃ history, Chronicle history s) ∧
    Orderly s.1) (fun s c s' hs hstep => ?_) h
    ⟨⟨[], chronicle_init _ _ _ _⟩, ?_, fun _ => rfl⟩).2
  · rcases hs with ⟨⟨history, hs⟩, horder⟩
    exact ⟨⟨_, chronicle_step _ history s s' c hs hstep.1⟩,
      orderly_step _ history s s' c hs hstep.1 horder hstep.2⟩
  · exact fun r hr => absurd hr not_mem_nil

/-! ### The order of a delivery -/

/-- When a message is handed out, an earlier message of its group that is still there is handed out
    before it by the same call, or is in flight, or is delayed. No message of the group is in flight
    unless the group was returned in part since it last had no message in flight, and none that is
    earlier is delayed where the readings of each operation agree. -/
theorem order (t : ℚ)
    (h : Runs (KeepingStep sha256) (init arn attributes deduplicationScope, t₀) calls (q, t))
    (c : Call) (s' : FifoQueue × ℚ) (hstep : KeepingStep sha256 (q, t) c s')
    (m : Ref) (hm : m ∈ c.event.successful) :
    (∀ m', m' < m → q.groupId m' = q.groupId m → q.priority m' < q.priority m →
      ¬ Gone (calls.map Call.event ++ [c.event]) m' →
      [m', m].Sublist c.event.successful ∨ m' ∈ q.inflight ∨ m' ∈ q.delayed) ∧
    (∀ before after s, calls = before ++ after →
      Runs (KeepingStep sha256) (init arn attributes deduplicationScope, t₀) before s →
      (∀ r ∈ s.1.inflight, s.1.groupId r ≠ q.groupId m) →
      Runs (WholeStep sha256 (q.groupId m)) s after (q, t) →
      ∀ r ∈ q.inflight, q.groupId r ≠ q.groupId m) ∧
    (Runs (PunctualStep sha256) (init arn attributes deduplicationScope, t₀) calls (q, t) →
      ∀ m' ∈ q.delayed, ¬ m' < m) := by
  have hc := chronicle_run _ _ _ _ _ _ (q, t) h
  rcases hc.tidy with ⟨owed, ht⟩
  rcases s' with ⟨q', t'⟩
  have hout := step_outcome _ q q' t t' c ht hstep.1 hstep.2
  have heff := effect_outcome ht.sound hout
  have hvis : m ∈ visible q := (heff.successful m hm).1
  have hheld : m ∈ held q := (mem_held q m).mpr (.inr (.inl hvis))
  have hlt : m < q.nextRef := ht.sound.held_lt m hheld
  -- Both ways of receiving collect the messages in the same way.
  have hrec : ∃ vt col, Receiving owed vt c.now q col ∧ c.event.successful = col.successful ∧
      c.event.deadLetterMessages = col.deadLetterMessages := by
    rcases c with ⟨op, now, e⟩
    cases hout with
    | received _ _ _ col hrec => exact ⟨_, col, hrec, rfl, rfl⟩
    | receivedMessage _ _ _ col hrec => exact ⟨_, col, hrec, rfl, rfl⟩
    | idle | enqueued | removed | postponed | terminated | requeued | undelayed =>
      exact absurd hm not_mem_nil
  rcases hrec with ⟨vt, col, hrec, hsuccessful, hdead⟩
  refine ⟨fun m' hmm hgroup hpriority hgone => ?_, fun before after s hsplit hbefore hnone hafter =>
    ?_, fun hpunctual m' hm' hmm => ?_⟩
  · rw [gone_append, not_or] at hgone
    have hheld' : m' ∈ held q :=
      (hc.accounted.held m').mpr ⟨(hc.accounted.accepted m').mpr (lt_trans hmm hlt), hgone.1⟩
    rcases (mem_held q m').mp hheld' with hr | hr | hr
    · exact .inr (.inr hr)
    · rw [hsuccessful] at hm ⊢
      rcases hrec.ordered m hm m' hr hgroup hpriority with hsub | hdl
      · exact .inl hsub
      · refine absurd ?_ hgone.2
        unfold Event.gone
        rw [hdead]
        exact mem_append_left _ (mem_append_left _ hdl)
    · exact .inr (.inl hr)
  · have hmid := chronicle_run _ _ _ _ _ _ s hbefore
    have hex := exclusive_run _ _ s (q, t) _ hmid _ (fun _ => hnone) hafter
    refine hex (hrec.taken m (.inl ?_)).2
    rw [← hsuccessful]
    exact hm
  · have horder := orderly_run _ _ _ _ _ _ (q, t) hpunctual
    have hdel := horder.behind m' hm' m hheld hmm
    exact ht.sound.not_visible_of_delayed hdel hvis

/-! ### Returning a group in part -/

/-- A queue without a delay. -/
def plainQueue : FifoQueue := init "arn" { fifoQueue := true } "queue"

instance (s : FifoQueue × ℚ) (input : Op × ℚ) : Decidable (Ready s input ∧ input.1.keeps = true) :=
  inferInstanceAs (Decidable (_ ∧ _))

theorem keepingStep_performAt (input : Op × ℚ) (h : Ready s input ∧ input.1.keeps = true) :
    KeepingStep sha256 s (performAt sha256 s input).2 (performAt sha256 s input).1 :=
  ⟨step_performAt _ s _ h.1, h.2⟩

/-- Two messages of a group are put, at different times. -/
def twoPut : List (Op × ℚ) := [(putInto "a" "g", 0), (putInto "b" "g", 10)]

/-- Both messages are received by one call, the earlier one first. -/
theorem order_two_received :
    let s := (drive (performAt id) (plainQueue, 0) twoPut).1
    let c := (performAt id s (.receive 2 none, 20)).2
    1 ∈ c.event.successful ∧ [0, 1].Sublist c.event.successful ∧
      ∀ r ∈ s.1.inflight, s.1.groupId r ≠ s.1.groupId 1 := by
  intro s c
  have hdriven : Driven (fun s input => Ready s input ∧ input.1.keeps = true) (performAt id)
      (plainQueue, 0) twoPut := by
    decide +kernel
  have hrun : Runs (KeepingStep id) (plainQueue, 0)
      (drive (performAt id) (plainQueue, 0) twoPut).2 (s.1, s.2) :=
    Runs.of_driven (keepingStep_performAt id) _ _ hdriven
  have hstep : KeepingStep id (s.1, s.2) c (performAt id s (.receive 2 none, 20)).1 :=
    keepingStep_performAt id s (.receive 2 none, 20) (by decide +kernel)
  have hm : 1 ∈ c.event.successful := by decide +kernel
  rcases order id "arn" { fifoQueue := true } "queue" 0 _ s.1 s.2 hrun c _ hstep 1 hm with
    ⟨horder, hexclusive, -⟩
  have hnone : s.1.inflight = [] := by decide +kernel
  refine ⟨hm, ?_, hexclusive _ [] s (append_nil _).symm hrun ?_ (Runs.nil _)⟩
  · have hgone : ¬ Gone ((drive (performAt id) (plainQueue, 0) twoPut).2.map Call.event ++
        [c.event]) 0 := by
      unfold Gone
      decide +kernel
    rcases horder 0 (by decide) (by decide +kernel) (by decide +kernel) hgone with h | h | h
    · exact h
    · rw [hnone] at h
      exact absurd h not_mem_nil
    · exact absurd h (by decide +kernel)
  · rw [hnone]
    exact fun r hr => absurd hr not_mem_nil

/-- Both messages are received, and the later one is made visible again. -/
def partialReturn : List (Op × ℚ) :=
  twoPut ++ [(.receive 2 none, 20),
    (.updateVisibilityTimeout ⟨1, "arn", "b", some 23⟩ 0, 30)]

/-- The later message is handed out a second time while the earlier one, which
    is neither removed nor a dead letter, is in flight. -/
theorem order_partial_return :
    ∃ calls q t c s' m m', Runs (KeepingStep id) (plainQueue, 0) calls (q, t) ∧
      KeepingStep id (q, t) c s' ∧ c.op.isReceive = true ∧ m ∈ c.event.successful ∧
      m' < m ∧ q.groupId m' = q.groupId m ∧ q.priority m' < q.priority m ∧
      ¬ Gone (calls.map Call.event ++ [c.event]) m' ∧
      m' ∉ c.event.successful ∧ m' ∈ q.inflight := by
  have hdriven : Driven (fun s input => Ready s input ∧ input.1.keeps = true) (performAt id)
      (plainQueue, 0) partialReturn := by
    decide +kernel
  refine ⟨_, _, _, (performAt id (drive (performAt id) (plainQueue, 0) partialReturn).1
    (.receive 1 none, 40)).2, _, 1, 0, Runs.of_driven (keepingStep_performAt id) _ _ hdriven,
    keepingStep_performAt id _ (.receive 1 none, 40) (by decide +kernel), rfl, by decide +kernel,
    by decide, by decide +kernel, by decide +kernel, ?_, by decide +kernel, by decide +kernel⟩
  unfold Gone
  decide +kernel

/-! ### Conservation -/

/-- In a run without expiry a message that was accepted is in one place, once, with the count of
    its deliveries, until the queue lets go of it, and only then is it no longer handed out. -/
theorem deliveries_accounted (s : FifoQueue × ℚ) (r : Ref)
    (h : Runs (KeepingStep sha256) (init arn attributes deduplicationScope, t₀) calls s) :
    (Accepted (calls.map Call.event) r → ¬Gone (calls.map Call.event) r →
      (held s.1).count r = 1 ∧
        (s.1.objects r).receiveCount = successes (calls.map Call.event) r) ∧
    (Gone (calls.map Call.event) r → r ∉ held s.1 ∧
      ∀ c s', KeepingStep sha256 s c s' → r ∉ c.event.successful) ∧
    ∀ n : Nat, n ≠ 0 → s.1.maxReceiveCount = some (n : Int) →
      successes (calls.map Call.event) r ≤ n := by
  have hc := chronicle_run _ _ _ _ _ _ s h
  have hacc := hc.accounted
  refine ⟨fun hr hgone => ?_, fun hgone => ?_, fun n hn hmax => (hacc.limit n hmax r).1 hn⟩
  · have hheld := (hacc.held r).mpr ⟨hr, hgone⟩
    exact ⟨Multiset.count_eq_one_of_mem hacc.sound.held_nodup hheld, hacc.receiveCount r hheld⟩
  · have hheld : r ∉ held s.1 := fun hr => ((hacc.held r).mp hr).2 hgone
    refine ⟨hheld, fun c s' hstep hr => hheld ?_⟩
    -- A message that is handed out is held until then.
    rcases hc.tidy with ⟨owed, ht⟩
    have heff := effect_outcome ht.sound (step_outcome _ s.1 s'.1 s.2 s'.2 c ht hstep.1 hstep.2)
    exact (mem_held s.1 r).mpr (.inr (.inl (heff.successful r hr).1))

theorem deliveries_accounted_twoPut :
    let s := (drive (performAt id) (plainQueue, 0) twoPut).1
    (held s.1).count 1 = 1 := by
  intro s
  have hdriven : Driven (fun s input => Ready s input ∧ input.1.keeps = true) (performAt id)
      (plainQueue, 0) twoPut := by
    decide +kernel
  have hgone : ¬Gone ((drive (performAt id) (plainQueue, 0) twoPut).2.map Call.event) 1 := by
    unfold Gone
    decide +kernel
  exact ((deliveries_accounted id "arn" { fifoQueue := true } "queue" 0 _ s 1
    (Runs.of_driven (keepingStep_performAt id) _ _ hdriven)).1
    ⟨_, mem_cons_of_mem _ mem_cons_self, by decide +kernel⟩ hgone).1

end LocalEmu.Sqs.FifoQueue
