import LocalEmu.Theory.Sqs.FifoGroups

/-!
# Receiving From a FIFO Queue

What `FifoQueue.receive` does to the groups, and in which order it takes the
messages of a group.

The method has two nested loops: over the groups waiting in the queue, and
over the messages of a group. `collectGroups_induction` turns them into three
elementary steps. An empty group is dropped; a group is opened and its first
message taken; a further message of an open group is taken. Opening a group
and taking its first message are one step on purpose. Between them the group
would be in flight with nothing outstanding.

The heap of a group hands out its messages by priority, so a message that is
taken has no message of smaller priority left behind in its group. `Receiving`
carries this along as the order in which the result lists the messages.
-/

namespace LocalEmu.Sqs.FifoQueue

open List

open QueueKind LawfulQueueKind

/-! ### The loops -/

theorem collectGroup_induction {P : Collected FifoQueue → Prop}
    (numMessages visibilityTimeout : Int) (now : Nat → ℚ) (g : String)
    (hpop : ∀ c r rest, P c →
      Heapq.heappop c.queue.priority (c.queue.group g) = some (r, rest) →
      P (Collected.take numMessages visibilityTimeout now
        { c with queue := c.queue.setGroup g rest } r).1) :
    ∀ (fuel : Nat) (c : Collected FifoQueue), P c →
      P (collectGroup numMessages visibilityTimeout now g fuel c) := by
  intro fuel
  induction fuel with
  | zero => exact fun c h => h
  | succ fuel ih =>
    intro c h
    unfold collectGroup
    cases hp : Heapq.heappop c.queue.priority (c.queue.group g) with
    | none => exact h
    | some e =>
      rcases e with ⟨r, rest⟩
      have hnext := hpop c r _ h hp
      simp only
      split
      · exact hnext
      · exact ih _ hnext

/-- The loops as elementary steps. -/
theorem collectGroups_induction {P : Collected FifoQueue → Prop}
    {R : String → Collected FifoQueue → Prop} (numMessages visibilityTimeout : Int)
    (now : Nat → ℚ)
    (hdrop : ∀ c g waiting, P c → c.queue.messageGroupQueue = g :: waiting →
      c.queue.group g = [] → P { c with queue := { c.queue with messageGroupQueue := waiting } })
    (hopen : ∀ c g waiting r rest, P c → c.queue.messageGroupQueue = g :: waiting →
      Heapq.heappop c.queue.priority (c.queue.group g) = some (r, rest) →
      R g (Collected.take numMessages visibilityTimeout now
        { c with queue := ({ c.queue with
            messageGroupQueue := waiting
            inflightGroups := insert g c.queue.inflightGroups } : FifoQueue).setGroup g rest } r).1)
    (hpop : ∀ g c r rest, R g c →
      Heapq.heappop c.queue.priority (c.queue.group g) = some (r, rest) →
      R g (Collected.take numMessages visibilityTimeout now
        { c with queue := c.queue.setGroup g rest } r).1)
    (hclose : ∀ g c, R g c → P c) :
    ∀ (fuel : Nat) (c : Collected FifoQueue), P c →
      P (collectGroups numMessages visibilityTimeout now fuel c) := by
  intro fuel
  induction fuel with
  | zero => exact fun c h => h
  | succ fuel ih =>
    intro c h
    unfold collectGroups
    cases hqueue : c.queue.messageGroupQueue with
    | nil => exact h
    | cons g waiting =>
      simp only
      split
      · next hempty => exact ih _ (hdrop c g _ h hqueue (isEmpty_iff.mp hempty))
      · next hempty =>
          -- The group is not empty, so its loop takes at least one message.
          have hgroup : P (collectGroup numMessages visibilityTimeout now g
              (c.queue.group g).length
              { c with queue := { c.queue with
                  messageGroupQueue := waiting
                  inflightGroups := insert g c.queue.inflightGroups } }) := by
            have hne : c.queue.group g ≠ [] := fun hc => hempty (isEmpty_iff.mpr hc)
            cases hp : Heapq.heappop c.queue.priority (c.queue.group g) with
            | none =>
              exact absurd ((Heapq.heappop_eq_none _ _).mp hp) hne
            | some e =>
              rcases e with ⟨r, rest⟩
              have hfirst := hopen c g _ r _ h hqueue hp
              rw [Heapq.heappop_length _ _ _ r hp]
              unfold collectGroup
              have hp' : Heapq.heappop
                  ({ c.queue with
                      messageGroupQueue := waiting
                      inflightGroups := insert g c.queue.inflightGroups } :
                    FifoQueue).priority
                  (({ c.queue with
                      messageGroupQueue := waiting
                      inflightGroups := insert g c.queue.inflightGroups } :
                    FifoQueue).group g) = some (r, rest) := hp
              simp only [hp']
              split
              · exact hclose g _ hfirst
              · exact hclose g _ (collectGroup_induction _ _ _ g
                  (fun c r rest => hpop g c r _) _ _ hfirst)
          split
          · exact hgroup
          · exact ih _ hgroup

theorem take_groups (numMessages visibilityTimeout : Int) (now : Nat → ℚ)
    (c : Collected FifoQueue) (r : Ref) :
    (Collected.take numMessages visibilityTimeout now c r).1.queue.messageGroups =
        c.queue.messageGroups ∧
      (Collected.take numMessages visibilityTimeout now c r).1.queue.messageGroupQueue =
        c.queue.messageGroupQueue ∧
      (Collected.take numMessages visibilityTimeout now c r).1.queue.inflightGroups =
        c.queue.inflightGroups := by
  unfold Collected.take
  split
  · exact ⟨rfl, rfl, rfl⟩
  · simp only
    split
    · exact ⟨rfl, rfl, rfl⟩
    · exact ⟨rfl, rfl, rfl⟩

theorem take_lists {Q : Type} [QueueKind Q] (numMessages visibilityTimeout : Int)
    (now : Nat → ℚ) (c : Collected Q) (r : Ref)
    (hlive : ((base c.queue).objects r).deleted = false) :
    ((Collected.take numMessages visibilityTimeout now c r).1.successful =
        c.successful ++ [r] ∧
      (Collected.take numMessages visibilityTimeout now c r).1.deadLetterMessages =
        c.deadLetterMessages) ∨
    ((Collected.take numMessages visibilityTimeout now c r).1.successful = c.successful ∧
      (Collected.take numMessages visibilityTimeout now c r).1.deadLetterMessages =
        c.deadLetterMessages ++ [r]) := by
  rw [take_eq _ _ _ c r hlive]
  cases (base c.queue).exceedsNext r with
  | false => exact .inl ⟨rfl, rfl⟩
  | true => exact .inr ⟨rfl, rfl⟩

/-! ### What the loops have done -/

/-- What the loops of `receive` have done so far. The last field is the order of the result: a
    message is listed after every message of its group that has a smaller priority. -/
structure Receiving (owed : Multiset Ref) (visibilityTimeout : Int) (now : Nat → ℚ)
    (q : FifoQueue) (c : Collected FifoQueue) : Prop where
  collecting : Collecting visibilityTimeout now q c
  grouped : Grouped ((c.successful : Multiset Ref) + (c.deadLetterMessages : Multiset Ref) + owed)
    c.queue
  taken : ∀ r, r ∈ c.successful ∨ r ∈ c.deadLetterMessages →
    q.groupId r ∈ c.queue.inflightGroups ∧ q.groupId r ∈ q.messageGroupQueue
  waiting : ∀ g ∈ c.queue.messageGroupQueue, g ∈ q.messageGroupQueue
  stale : ∀ g, c.queue.Stale g → q.Stale g
  placed : ∀ g, q.Placed g → c.queue.Placed g ∨ q.Stale g
  heaps : ∀ g, Heapq.IsHeap c.queue.priority (c.queue.group g)
  ordered : ∀ m ∈ c.successful, ∀ m' ∈ visible q, q.groupId m' = q.groupId m →
    q.priority m' < q.priority m → [m', m].Sublist c.successful ∨ m' ∈ c.deadLetterMessages

theorem groupId_collecting {visibilityTimeout : Int} {now : Nat → ℚ} {q : FifoQueue}
    {c : Collected FifoQueue} (h : Collecting visibilityTimeout now q c) (r : Ref) :
    c.queue.groupId r = q.groupId r := by
  refine congrArg (fun g => g.getD "")
    (h.field (fun m => m.message.messageGroupId) (fun exceeds t₀ t₁ m => ?_) r)
  cases exceeds with
  | false | true => rfl

section Receiving

variable {owed : Multiset Ref} {visibilityTimeout : Int} {now : Nat → ℚ} {q : FifoQueue}
  {c : Collected FifoQueue}

theorem receiving_start (h : Grouped owed q) (hheaps : ∀ g, Heapq.IsHeap q.priority (q.group g)) :
    Receiving owed visibilityTimeout now q (Collected.start q) :=
  ⟨collecting_start _ _ q, by
      show Grouped (0 + 0 + owed) q
      rw [add_zero, zero_add]
      exact h,
    fun r hr => absurd hr (by simp [Collected.start, or_self]),
    fun _ hg => hg, fun _ hg => hg, fun _ hg => .inl hg, hheaps,
    fun m hm => absurd hm not_mem_nil⟩

theorem receiving_drop (h : Receiving owed visibilityTimeout now q c) (g : String)
    (waiting : List String) (hqueue : c.queue.messageGroupQueue = g :: waiting)
    (hempty : c.queue.group g = []) :
    Receiving owed visibilityTimeout now q
      { c with queue := { c.queue with messageGroupQueue := waiting } } := by
  have hn := h.grouped.nodup
  have hsub : ∀ g' ∈ waiting, g' ∈ c.queue.messageGroupQueue := fun g' hg' => by
    rw [hqueue]
    exact mem_cons_of_mem g hg'
  rw [hqueue, nodup_cons] at hn
  refine ⟨⟨h.collecting.frame, h.collecting.visible, h.collecting.kept, h.collecting.successful,
    h.collecting.deadLetter⟩, ⟨hn.2, fun g' hg' => h.grouped.disjoint g' (hsub g' hg'),
    fun g' hg' => ?_, h.grouped.outstanding, h.grouped.ids⟩, h.taken,
    fun g' hg' => h.waiting g' (hsub g' hg'), fun g' hg' => h.stale g' ⟨hsub g' hg'.1, hg'.2⟩,
    fun g' hg' => ?_, h.heaps, h.ordered⟩
  · rcases h.grouped.covered g' hg' with hc | hc
    · rw [hqueue] at hc
      rcases mem_cons.mp hc with rfl | hc
      · exact absurd hempty hg'
      · exact .inl hc
    · exact .inr hc
  · rcases h.placed g' hg' with (hc | hc) | hc
    · rw [hqueue] at hc
      rcases mem_cons.mp hc with rfl | hc
      · exact .inr (h.stale g' ⟨by rw [hqueue]; exact mem_cons_self, hempty⟩)
      · exact .inl (.inl hc)
    · exact .inl (.inr hc)
    · exact .inr hc

/-! ### Taking a message -/

/-- The first message `r` of the heap of a group was taken. The group is in flight now, and
    all other groups are where they were. -/
structure TakesFirst (q : FifoQueue) (c : Collected FifoQueue) (g : String) (r : Ref)
    (rest : List Ref) (c' : Collected FifoQueue) : Prop where
  popped : Heapq.heappop c.queue.priority (c.queue.group g) = some (r, rest)
  origin : g ∈ q.messageGroupQueue
  group : ∀ g', c'.queue.group g' = if g' = g then rest else c.queue.group g'
  nodup : c'.queue.messageGroupQueue.Nodup
  disjoint : ∀ g' ∈ c'.queue.messageGroupQueue, g' ∉ c'.queue.inflightGroups
  waiting : ∀ g' ∈ c'.queue.messageGroupQueue, g' ∈ c.queue.messageGroupQueue
  placed : ∀ g', c.queue.Placed g' → c'.queue.Placed g'
  inflight : ∀ g', g' ∈ c'.queue.inflightGroups ↔ g' = g ∨ g' ∈ c.queue.inflightGroups
  lists : (c'.successful = c.successful ++ [r] ∧ c'.deadLetterMessages = c.deadLetterMessages) ∨
    (c'.successful = c.successful ∧ c'.deadLetterMessages = c.deadLetterMessages ++ [r])

namespace TakesFirst

variable {g : String} {r : Ref} {rest : List Ref} {c' : Collected FifoQueue}

/-- What is taken after the step is what was taken before it, and `r`. -/
theorem taken_iff (ht : TakesFirst q c g r rest c') (r' : Ref) :
    r' ∈ c'.successful ∨ r' ∈ c'.deadLetterMessages ↔
      r' = r ∨ r' ∈ c.successful ∨ r' ∈ c.deadLetterMessages := by
  rcases ht.lists with ⟨h1, h2⟩ | ⟨h1, h2⟩
  · rw [h1, h2, mem_append, mem_singleton]
    tauto
  · rw [h1, h2, mem_append, mem_singleton]
    tauto

theorem perm (ht : TakesFirst q c g r rest c') : (c.queue.group g).Perm (r :: rest) :=
  Heapq.heappop_perm _ _ _ r ht.popped

theorem mem_group (ht : TakesFirst q c g r rest c') : r ∈ c.queue.group g :=
  ht.perm.mem_iff.mpr mem_cons_self

theorem mem_of_mem_group (ht : TakesFirst q c g r rest c') {g' : String} {r' : Ref}
    (hr' : r' ∈ c'.queue.group g') : r' ∈ c.queue.group g' := by
  rw [ht.group] at hr'
  by_cases hc : g' = g
  · rw [if_pos hc] at hr'
    rw [hc]
    exact ht.perm.mem_iff.mpr (mem_cons_of_mem r hr')
  · rw [if_neg hc] at hr'
    exact hr'

variable (h : Receiving owed visibilityTimeout now q c)
  (ht : TakesFirst q c g r rest c')

include h ht

theorem groupId_eq : q.groupId r = g := by
  rw [← groupId_collecting h.collecting r]
  exact h.grouped.ids g r ht.mem_group

/-- A group with messages is in the queue or in flight. -/
theorem covered {g' : String} (hg' : c'.queue.group g' ≠ []) : c'.queue.Placed g' := by
  refine ht.placed g' (h.grouped.covered g' fun hc => hg' ?_)
  rw [ht.group]
  split
  · next hgg =>
      have hmem := ht.mem_group
      rw [← hgg, hc] at hmem
      exact absurd hmem not_mem_nil
  · exact hc

/-- A group in flight has a message that is in flight, or in the hand of the call. -/
theorem outstanding (hcol : Collecting visibilityTimeout now q c') {g' : String}
    (hg' : g' ∈ c'.queue.inflightGroups) :
    (∃ r' ∈ c'.queue.inflight, c'.queue.groupId r' = g') ∨
      ∃ r' ∈ (c'.successful : Multiset Ref) + (c'.deadLetterMessages : Multiset Ref) + owed,
        c'.queue.groupId r' = g' := by
  simp only [groupId_collecting hcol, Multiset.mem_add, Multiset.mem_coe]
  rcases (ht.inflight g').mp hg' with rfl | hg'
  · exact .inr ⟨r, .inl ((ht.taken_iff r).mpr (.inl rfl)), ht.groupId_eq h⟩
  · have hinflight : c'.queue.inflight = c.queue.inflight :=
      hcol.inflight.trans h.collecting.inflight.symm
    rw [hinflight]
    rcases h.grouped.outstanding g' hg' with ⟨r', hr', hrg⟩ | ⟨r', hr', hrg⟩
    · rw [groupId_collecting h.collecting] at hrg
      exact .inl ⟨r', hr', hrg⟩
    · rw [groupId_collecting h.collecting] at hrg
      rw [Multiset.mem_add, Multiset.mem_add, Multiset.mem_coe] at hr'
      exact .inr ⟨r', hr'.imp_left fun hc => (ht.taken_iff r').mpr (.inr hc), hrg⟩

/-- The bookkeeping of the groups. -/
theorem grouped (hcol : Collecting visibilityTimeout now q c') :
    Grouped ((c'.successful : Multiset Ref) + (c'.deadLetterMessages : Multiset Ref) + owed)
      c'.queue where
  nodup := ht.nodup
  disjoint := ht.disjoint
  covered _ hg' := ht.covered h hg'
  outstanding _ hg' := ht.outstanding h hcol hg'
  ids g' r' hr' := by
    rw [groupId_collecting hcol, ← groupId_collecting h.collecting r']
    exact h.grouped.ids g' r' (ht.mem_of_mem_group hr')

/-- The groups of what was taken are in flight, and were in the queue at the start. -/
theorem taken {r' : Ref} (hr' : r' ∈ c'.successful ∨ r' ∈ c'.deadLetterMessages) :
    q.groupId r' ∈ c'.queue.inflightGroups ∧ q.groupId r' ∈ q.messageGroupQueue := by
  rcases (ht.taken_iff r').mp hr' with rfl | hr'
  · rw [ht.groupId_eq h]
    exact ⟨(ht.inflight g).mpr (.inl rfl), ht.origin⟩
  · exact ⟨(ht.inflight _).mpr (.inr (h.taken r' hr').1), (h.taken r' hr').2⟩

/-- The group that was opened is no longer in the queue, so that the stale ones were stale. -/
theorem stale {g' : String} (hg' : c'.queue.Stale g') : q.Stale g' := by
  rcases hg' with ⟨hg', hempty⟩
  have hgg : g' ≠ g := fun hc => ht.disjoint g' hg' ((ht.inflight g').mpr (.inl hc))
  rw [ht.group, if_neg hgg] at hempty
  exact h.stale g' ⟨ht.waiting g' hg', hempty⟩

theorem heaps (hcol : Collecting visibilityTimeout now q c') (g' : String) :
    Heapq.IsHeap c'.queue.priority (c'.queue.group g') := by
  have hprio : c'.queue.priority = c.queue.priority :=
    hcol.priority.trans h.collecting.priority.symm
  rw [hprio, ht.group]
  split
  · exact Heapq.isHeap_heappop _ _ _ r (h.heaps g) ht.popped
  · exact h.heaps g'

/-- A message of smaller priority than the one just taken is no longer there. -/
theorem gone {m' : Ref} (hm' : m' ∈ visible q) (hgroup : q.groupId m' = q.groupId r)
    (hlt : q.priority m' < q.priority r) : m' ∈ c.successful ∨ m' ∈ c.deadLetterMessages := by
  by_contra hc
  rw [not_or] at hc
  have hstill : m' ∈ visible c.queue := by
    rw [← h.collecting.visible, Multiset.mem_add, Multiset.mem_add, Multiset.mem_coe] at hm'
    exact hm'.resolve_right (fun hc' => hc'.elim hc.1 hc.2)
  rcases (mem_visible _ m').mp hstill with ⟨g', hg'⟩
  have hgg : g' = g := by
    rw [← h.grouped.ids g' m' hg', groupId_collecting h.collecting, hgroup, ht.groupId_eq h]
  rw [hgg] at hg'
  rcases mem_cons.mp (ht.perm.mem_iff.mp hg') with hc' | hrest
  · rw [hc'] at hlt
    exact absurd hlt (lt_irrefl _)
  · have hprio : c.queue.priority = q.priority := h.collecting.priority
    have hle := Heapq.heappop_le _ _ _ r m' (h.heaps g) ht.popped hrest
    rw [hprio] at hle
    exact absurd hlt (not_lt.mpr hle)

/-- The messages of a group are listed by priority. -/
theorem ordered {m m' : Ref} (hm : m ∈ c'.successful) (hm' : m' ∈ visible q)
    (hgroup : q.groupId m' = q.groupId m) (hlt : q.priority m' < q.priority m) :
    [m', m].Sublist c'.successful ∨ m' ∈ c'.deadLetterMessages := by
  rcases ht.lists with ⟨h1, h2⟩ | ⟨h1, h2⟩
  · rw [h1] at hm ⊢
    rw [h2]
    rcases mem_append.mp hm with hm | hm
    · rcases h.ordered m hm m' hm' hgroup hlt with hsubl | hdead
      · exact .inl (hsubl.trans (sublist_append_left _ _))
      · exact .inr hdead
    · rw [mem_singleton.mp hm] at hgroup hlt ⊢
      rcases ht.gone h hm' hgroup hlt with hsucc | hdead
      · exact .inl ((singleton_sublist.mpr hsucc).append (List.Sublist.refl [r]))
      · exact .inr hdead
  · rw [h1] at hm ⊢
    rw [h2]
    rcases h.ordered m hm m' hm' hgroup hlt with hsubl | hdead
    · exact .inl hsubl
    · exact .inr (mem_append_left _ hdead)

theorem receiving (hcol : Collecting visibilityTimeout now q c') :
    Receiving owed visibilityTimeout now q c' where
  collecting := hcol
  grouped := ht.grouped h hcol
  taken _ hr' := ht.taken h hr'
  waiting g' hg' := h.waiting g' (ht.waiting g' hg')
  stale _ hg' := ht.stale h hg'
  placed g' hg' := (h.placed g' hg').imp_left (ht.placed g')
  heaps := ht.heaps h hcol
  ordered _ hm _ hm' := ht.ordered h hm hm'

end TakesFirst

/-- Taking the first message of the heap of a group that is in flight. `q'` is the queue with the
    group opened, if it was not, and with the message off its heap. -/
theorem receiving_take (h : Receiving owed visibilityTimeout now q c) (hs : Sound 0 q)
    (numMessages : Int) (g : String) (r : Ref) (rest : List Ref)
    (hpop : Heapq.heappop c.queue.priority (c.queue.group g) = some (r, rest)) (q' : FifoQueue)
    (hbase : q'.toSqsQueue = c.queue.toSqsQueue)
    (hgroups : q'.messageGroups = c.queue.messageGroups.set g rest)
    (hnodup : q'.messageGroupQueue.Nodup)
    (hdisj : ∀ g' ∈ q'.messageGroupQueue, g' ∉ q'.inflightGroups)
    (hsub : ∀ g' ∈ q'.messageGroupQueue, g' ∈ c.queue.messageGroupQueue)
    (hcov : ∀ g', c.queue.Placed g' → q'.Placed g')
    (hin : ∀ g', g' ∈ q'.inflightGroups ↔ g' = g ∨ g' ∈ c.queue.inflightGroups)
    (horigin : g ∈ q.messageGroupQueue) :
    Receiving owed visibilityTimeout now q
      (Collected.take numMessages visibilityTimeout now { c with queue := q' } r).1 := by
  have hperm := Heapq.heappop_perm _ _ _ r hpop
  have hrvis : r ∈ visible c.queue :=
    (mem_visible _ r).mpr ⟨g, hperm.mem_iff.mpr mem_cons_self⟩
  have hvis : visible c.queue = {r} + visible q' := by
    have htotal := Dict.total_set c.queue.messageGroups (fun l : List Ref => (l : Multiset Ref)) g
      rest [] rfl
    rw [← hgroups] at htotal
    have hold : ((c.queue.messageGroups.getD g [] : List Ref) : Multiset Ref) =
        {r} + (rest : Multiset Ref) := Multiset.coe_eq_coe.mpr hperm
    rw [hold, ← add_assoc] at htotal
    have hcancel := add_right_cancel htotal
    rw [add_comm] at hcancel
    exact hcancel.symm
  have hlive : ((base { c with queue := q' }.queue).objects r).deleted = false := by
    have hobj : c.queue.objects r = q.objects r := (h.collecting.untouched hs r hrvis).2.2
    have hin' : r ∈ visible q := by
      rw [← h.collecting.visible]
      exact Multiset.mem_add.mpr (.inl hrvis)
    show (q'.objects r).deleted = false
    rw [hbase, hobj]
    exact hs.live r (Multiset.mem_add.mpr (.inr ((mem_held q r).mpr (.inr (.inl hin')))))
  have hcol := collecting_take h.collecting hs numMessages r q' hbase hvis
  rcases take_groups numMessages visibilityTimeout now { c with queue := q' } r with
    ⟨hmg, hmq, hmi⟩
  have hlists := take_lists numMessages visibilityTimeout now { c with queue := q' } r hlive
  refine TakesFirst.receiving (g := g) (r := r) h
    ⟨hpop, horigin, fun g' => ?_, by rw [hmq]; exact hnodup, by rw [hmq, hmi]; exact hdisj,
      by rw [hmq]; exact hsub, fun g' => ?_, by rw [hmi]; exact hin, hlists⟩ hcol
  · unfold group
    rw [hmg, hgroups, Dict.getD_set]
  · unfold Placed
    rw [hmq, hmi]
    exact hcov g'

/-- What the loops have done. -/
theorem receiving_collectGroups (hs : Sound 0 q) (numMessages : Int) (fuel : Nat)
    (h : Receiving owed visibilityTimeout now q c) :
    Receiving owed visibilityTimeout now q
      (collectGroups numMessages visibilityTimeout now fuel c) := by
  refine collectGroups_induction (P := Receiving owed visibilityTimeout now q)
    (R := fun g c => Receiving owed visibilityTimeout now q c ∧ g ∈ c.queue.inflightGroups ∧
      g ∈ q.messageGroupQueue)
    _ _ _ ?_ ?_ ?_ ?_ _ c h
  · exact fun c g waiting h hqueue hempty => receiving_drop h g _ hqueue hempty
  · intro c g waiting r rest h hqueue hpop
    have hn := h.grouped.nodup
    rw [hqueue, nodup_cons] at hn
    have hmemq : g ∈ c.queue.messageGroupQueue := by
      rw [hqueue]
      exact mem_cons_self
    have hsub : ∀ g' ∈ waiting, g' ∈ c.queue.messageGroupQueue := fun g' hg' => by
      rw [hqueue]
      exact mem_cons_of_mem g hg'
    refine ⟨receiving_take h hs _ g r _ hpop _ rfl rfl hn.2 ?_ hsub ?_
      (fun _ => Finset.mem_insert) (h.waiting g hmemq), ?_, h.waiting g hmemq⟩
    · intro g' hg' hc
      rcases Finset.mem_insert.mp hc with rfl | hc
      · exact hn.1 hg'
      · exact h.grouped.disjoint g' (hsub g' hg') hc
    · intro g' hg'
      rcases hg' with hg' | hg'
      · rw [hqueue] at hg'
        rcases mem_cons.mp hg' with rfl | hg'
        · exact .inr (Finset.mem_insert_self g' _)
        · exact .inl hg'
      · exact .inr (Finset.mem_insert_of_mem hg')
    · rw [(take_groups _ _ _ _ r).2.2]
      exact Finset.mem_insert_self g _
  · intro g c r rest h hpop
    rcases h with ⟨h, hg, horigin⟩
    refine ⟨receiving_take h hs _ g r _ hpop _ rfl rfl
      h.grouped.nodup h.grouped.disjoint (fun _ hg' => hg') (fun _ hg' => hg')
      (fun _ => (or_iff_right_of_imp fun hc => by rw [hc]; exact hg).symm) horigin, ?_, horigin⟩
    rw [(take_groups _ _ _ _ r).2.2]
    exact hg
  · exact fun g c h => h.1

end Receiving

/-! ### Handing the messages over -/

theorem Tidy.of_core {t : ℚ} {owed hand : Multiset Ref} {q q' : FifoQueue} (h : Tidy t owed hand q)
    (hs : Sound hand q') (hgroups : q'.messageGroups = q.messageGroups)
    (hqueue : q'.messageGroupQueue = q.messageGroupQueue)
    (hin : q'.inflightGroups = q.inflightGroups) (hinflight : q'.inflight = q.inflight)
    (hdelayed : q'.delayed = q.delayed) (hnext : q'.nextRef = q.nextRef)
    (hcore : ∀ r, (q'.objects r).core = (q.objects r).core) : Tidy t owed hand q' := by
  have hprio : q'.priority = q.priority := by
    ext r
    exact core_congr _ (fun _ => rfl) (hcore r)
  have hvis : visible q' = visible q := by
    show q'.messageGroups.total _ = q.messageGroups.total _
    rw [hgroups]
  have hcount : ∀ r, (q'.objects r).receiveCount = (q.objects r).receiveCount := fun r =>
    core_congr _ (fun _ => rfl) (hcore r)
  refine ⟨hs, ?_, by rw [hnext]; exact h.owed_lt, fun r hr => ?_, fun r hr => ?_, fun r hr => ?_,
    fun g => ?_⟩
  · refine h.grouped.congr hgroups hqueue hin hinflight (fun r => ?_)
    exact core_congr (fun m => m.message.messageGroupId.getD "") (fun _ => rfl) (hcore r)
  · rw [hvis] at hr
    rw [core_congr (fun m => m.isVisible t) (fun _ => rfl) (hcore r)]
    exact h.settled r hr
  · rw [hinflight] at hr
    rw [hcount]
    exact h.returned r hr
  · rw [hdelayed] at hr
    rw [hcount, core_congr SqsMessage.visibilityDeadline (fun _ => rfl) (hcore r)]
    exact h.untouched r hr
  · have hgroup : q'.group g = q.group g := by
      unfold group
      rw [hgroups]
    rw [hprio, hgroup]
    exact h.heaps g

theorem tidy_receiving {visibilityTimeout : Int} {now : Nat → ℚ} {q : FifoQueue}
    {c : Collected FifoQueue} {t : ℚ} {owed : Multiset Ref}
    (h : Receiving owed visibilityTimeout now q c)
    (hq : Tidy t owed 0 q) :
    Tidy t owed ((c.successful : Multiset Ref) + (c.deadLetterMessages : Multiset Ref))
      c.queue := by
  have hsound := h.collecting.sound hq.sound
  rw [add_zero] at hsound
  have hvisible : ∀ r ∈ visible c.queue, r ∈ visible q := by
    intro r hr
    rw [← h.collecting.visible]
    exact Multiset.mem_add.mpr (.inl hr)
  have htaken : ∀ r, r ∈ c.successful ∨ r ∈ c.deadLetterMessages → r ∈ visible q := by
    intro r hr
    rw [← h.collecting.visible, Multiset.mem_add, Multiset.mem_add, Multiset.mem_coe]
    exact .inr hr
  have hkept : ∀ r, r ∉ visible q → c.queue.objects r = q.objects r := fun r hr =>
    h.collecting.kept r (fun hc => hr (htaken r (.inl hc)))
      (fun hc => hr (htaken r (.inr hc)))
  have hnext : c.queue.nextRef = q.nextRef := h.collecting.nextRef
  refine ⟨hsound, h.grouped, by rw [hnext]; exact hq.owed_lt, fun r hr => ?_, fun r hr => ?_,
    fun r hr => ?_, h.heaps⟩
  · have hobj : c.queue.objects r = q.objects r :=
      (h.collecting.untouched hq.sound r hr).2.2
    rw [hobj]
    exact hq.settled r (hvisible r hr)
  · rcases hr with hr | hr
    · have hin : r ∈ q.inflight := by
        have heq : c.queue.inflight = q.inflight := h.collecting.inflight
        rw [← heq]
        exact hr
      rw [hkept r (fun hc => hq.sound.not_inflight_of_visible hc hin)]
      exact hq.returned r (.inl hin)
    · rw [Multiset.mem_add, Multiset.mem_coe] at hr
      -- Taking a message counts a delivery.
      rcases hr with hr | hr
      · rcases (h.collecting.successful r hr).2 with ⟨k, hk⟩
        have hk' : c.queue.objects r = _ := hk
        rw [hk']
        exact Nat.succ_le_succ (Nat.zero_le _)
      · rcases (h.collecting.deadLetter r hr).2 with ⟨k, hk⟩
        have hk' : c.queue.objects r = _ := hk
        rw [hk']
        exact Nat.succ_le_succ (Nat.zero_le _)
  · have hin : r ∈ q.delayed := by
      have heq : c.queue.delayed = q.delayed := h.collecting.delayed
      rw [← heq]
      exact hr
    rw [hkept r (fun hc => hq.sound.not_visible_of_delayed hin hc)]
    exact hq.untouched r hin

variable {t : ℚ} {owed hand : Multiset Ref}

theorem tidy_registerReceiptHandle (q : FifoQueue) (r : Ref) (h : Tidy t owed ({r} + hand) q) :
    Tidy t owed ({r} + hand) (setBase q (q.registerReceiptHandle r).1) :=
  h.of_core (sound_registerReceiptHandle q r h.sound) rfl rfl rfl rfl rfl rfl
    (registerReceiptHandle_core _ r)

theorem tidy_deliverMessage (s : FifoQueue × List ReceiptHandle) (r : Ref)
    (h : Tidy t owed ({r} + hand) s.1)
    (hvis : (s.1.objects r).visibilityTimeout = 0 → (s.1.objects r).isVisible t = true)
    (hstale : ¬ s.1.Stale (s.1.groupId r)) :
    Tidy t owed hand (deliverMessage s r).1 ∧
      ∀ g, (deliverMessage s r).1.Stale g → s.1.Stale g := by
  have hreg := tidy_registerReceiptHandle s.1 r h
  have hcore := registerReceiptHandle_core s.1.toSqsQueue r
  have hid : ∀ r', (setBase s.1 (s.1.registerReceiptHandle r).1).groupId r' = s.1.groupId r' :=
    fun r' => core_congr (fun m => m.message.messageGroupId.getD "") (fun _ => rfl) (hcore r')
  unfold deliverMessage
  simp only
  split
  · next hzero =>
      have hzero' : (s.1.objects r).visibilityTimeout = 0 := by
        rw [← hzero]
        exact (core_congr _ (fun _ => rfl) (hcore r)).symm
      refine ⟨tidy_putMessage _ r hreg ?_ ?_, fun g hg => ?_⟩
      · have hsame : ((setBase s.1 (s.1.registerReceiptHandle r).1).objects r).isVisible t =
            (s.1.objects r).isVisible t :=
          core_congr (fun m => m.isVisible t) (fun _ => rfl) (hcore r)
        exact hsame.trans (hvis hzero')
      · intro hc
        have hc' : s.1.Stale ((setBase s.1 (s.1.registerReceiptHandle r).1).groupId r) := hc
        rw [hid] at hc'
        exact hstale hc'
      · exact stale_of_putMessage (setBase s.1 (s.1.registerReceiptHandle r).1) r g hg
  · exact ⟨tidy_addInflightMessage _ r hreg, fun g hg => hg⟩

/-- Handing the messages over. -/
theorem tidy_foldl_deliverMessage (l : List Ref) : ∀ (s : FifoQueue × List ReceiptHandle),
    Tidy t owed ((l : Multiset Ref) + hand) s.1 →
    (∀ r ∈ l, (s.1.objects r).visibilityTimeout = 0 → (s.1.objects r).isVisible t = true) →
    (∀ r ∈ l, ¬ s.1.Stale (s.1.groupId r)) →
      Tidy t owed hand (l.foldl deliverMessage s).1 ∧
        ∀ g, (l.foldl deliverMessage s).1.Stale g → s.1.Stale g := by
  induction l with
  | nil =>
    intro s h _ _
    rw [Multiset.coe_nil, zero_add] at h
    exact ⟨h, fun _ hg => hg⟩
  | cons r l ih =>
    intro s h hvis hstale
    rw [← Multiset.cons_coe, ← Multiset.singleton_add, add_assoc] at h
    rcases tidy_deliverMessage s r h (hvis r mem_cons_self) (hstale r mem_cons_self) with ⟨h1, h2⟩
    have hcore := (deliverMessage_spec s r h.sound).2.2.core
    have hvis' : ∀ r' ∈ l, ((deliverMessage s r).1.objects r').visibilityTimeout = 0 →
        ((deliverMessage s r).1.objects r').isVisible t = true := by
      intro r' hr' hzero
      have hvt : ((deliverMessage s r).1.objects r').visibilityTimeout =
          (s.1.objects r').visibilityTimeout :=
        core_congr _ (fun _ => rfl) (hcore r')
      have hsame : ((deliverMessage s r).1.objects r').isVisible t =
          (s.1.objects r').isVisible t :=
        core_congr (fun m => m.isVisible t) (fun _ => rfl) (hcore r')
      rw [hsame]
      exact hvis r' (mem_cons_of_mem r hr') (by rw [← hvt]; exact hzero)
    have hstale' : ∀ r' ∈ l,
        ¬ (deliverMessage s r).1.Stale ((deliverMessage s r).1.groupId r') := by
      intro r' hr' hc
      have hid : (deliverMessage s r).1.groupId r' = s.1.groupId r' :=
        core_congr (fun m => m.message.messageGroupId.getD "") (fun _ => rfl) (hcore r')
      rw [hid] at hc
      exact hstale r' (mem_cons_of_mem r hr') (h2 _ hc)
    rcases ih _ h1 hvis' hstale' with ⟨h3, h4⟩
    exact ⟨h3, fun g hg => h2 g (h4 g hg)⟩

theorem isVisible_taken (exceeds : Bool) (visibilityTimeout : Int) (t₀ t₁ : ℚ) (m : SqsMessage)
    (hzero : (taken exceeds visibilityTimeout t₀ t₁ m).visibilityTimeout = 0) (ht : t₁ ≤ t) :
    (taken exceeds visibilityTimeout t₀ t₁ m).isVisible t = true := by
  have hvt : visibilityTimeout = 0 := by
    cases exceeds with
    | false | true => exact hzero
  have hdeadline : (taken exceeds visibilityTimeout t₀ t₁ m).visibilityDeadline =
      some (t₁ + (visibilityTimeout : ℚ)) := by
    cases exceeds with
    | false | true => rfl
  unfold SqsMessage.isVisible
  rw [hdeadline, hvt]
  simp
  exact ht

theorem receiving_receive (q : FifoQueue) (numMessages : Int) (visibilityTimeout : Option Int)
    (now : Nat → ℚ) (h : Tidy t owed 0 q) :
    Receiving owed (visibilityTimeout.getD q.attributes.visibilityTimeout) now q
      (collectGroups numMessages (visibilityTimeout.getD q.attributes.visibilityTimeout) now
        q.messageGroupQueue.length (Collected.start q)) :=
  receiving_collectGroups h.sound _ _
    (receiving_start (by have hg := h.grouped; rw [zero_add] at hg; exact hg) h.heaps)

theorem tidy_receive (q : FifoQueue) (numMessages : Int) (visibilityTimeout : Option Int)
    (now : Nat → ℚ) (hnow : ∀ i, now i ≤ t) (h : Tidy t owed 0 q) :
    Tidy t owed ((q.receive numMessages visibilityTimeout now).2.deadLetterMessages : Multiset Ref)
        (q.receive numMessages visibilityTimeout now).1 ∧
      ∀ g, (q.receive numMessages visibilityTimeout now).1.Stale g → q.Stale g := by
  have hrec := receiving_receive q numMessages visibilityTimeout now h
  unfold receive
  generalize collectGroups numMessages (visibilityTimeout.getD q.attributes.visibilityTimeout) now
    q.messageGroupQueue.length (Collected.start q) = c at hrec ⊢
  have htidy := tidy_receiving hrec h
  -- A group just taken from waits nowhere.
  have hnot : ∀ r ∈ c.successful, ¬ c.queue.Stale (c.queue.groupId r) := by
    intro r hr hc
    rw [groupId_collecting hrec.collecting] at hc
    exact hrec.grouped.disjoint _ hc.1 (hrec.taken r (.inl hr)).1
  have hvis : ∀ r ∈ c.successful, (c.queue.objects r).visibilityTimeout = 0 →
      (c.queue.objects r).isVisible t = true := by
    intro r hr hzero
    rcases (hrec.collecting.successful r hr).2 with ⟨k, hk⟩
    have hk' : c.queue.objects r = _ := hk
    rw [hk'] at hzero ⊢
    exact isVisible_taken _ _ _ _ _ hzero (hnow _)
  rcases tidy_foldl_deliverMessage _ (c.queue, []) htidy hvis hnot with ⟨h1, h2⟩
  exact ⟨h1, fun g hg => hrec.stale g (h2 g hg)⟩

end LocalEmu.Sqs.FifoQueue
