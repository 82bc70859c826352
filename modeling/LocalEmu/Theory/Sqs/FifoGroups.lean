import LocalEmu.Core.Sqs.Fifo
import LocalEmu.Theory.Sqs.History

/-!
# The Groups of a FIFO Queue

Where the message groups of a FIFO queue are, and what each operation does to
them.

A group is to be in `message_group_queue` while it may be received from and
in `inflight_groups` while a delivery from it is outstanding. `Grouped` says
so, with the messages an operation has in hand counted as outstanding.

Pushing a message into a group is the delicate step. The code decides from
two flags what to do with the group: whether it was empty before the push and
whether the message has been received before. An empty group is taken to be
waiting nowhere. That is right as long as groups only become empty by being
received from, since `receive` takes a group off the queue before it takes
its messages. Retention expiry empties a group where it stands, and a push
into such a `Stale` group enters it into the queue a second time. Every
result below that pushes a message therefore asks that its group is not
stale.

`Tidy` adds what is known about the messages by where they are: a visible
message has no visibility timeout running, a message in flight has been
received, a delayed one has not. Deletion depends on the first of these,
since it refuses a message whose timeout has run out.
-/

namespace LocalEmu.Sqs.FifoQueue

open List

open QueueKind LawfulQueueKind

/-! ### Heaps of groups -/

variable (q : FifoQueue) (r : Ref) (g : String)

theorem group_setGroup (g' : String) (heap : List Ref) :
    (q.setGroup g heap).group g' = if g' = g then heap else q.group g' :=
  Dict.getD_set _ g g' heap []

/-- The four outcomes of a push. -/
theorem putMessage_cases : ((q.objects r).receiveCount < 1 ∧ q.groupId r ∈ q.inflightGroups ∧
      q.putMessage r = q.setGroup (q.groupId r)
        (Heapq.heappush q.priority (q.group (q.groupId r)) r)) ∨
    (1 ≤ (q.objects r).receiveCount ∧ q.groupId r ∈ q.inflightGroups ∧
      q.putMessage r = { q.setGroup (q.groupId r)
          (Heapq.heappush q.priority (q.group (q.groupId r)) r) with
        inflightGroups := q.inflightGroups.erase (q.groupId r)
        messageGroupQueue := q.messageGroupQueue ++ [q.groupId r] }) ∨
    (q.groupId r ∉ q.inflightGroups ∧ q.group (q.groupId r) = [] ∧
      q.putMessage r = { q.setGroup (q.groupId r)
          (Heapq.heappush q.priority (q.group (q.groupId r)) r) with
        messageGroupQueue := q.messageGroupQueue ++ [q.groupId r] }) ∨
    (q.groupId r ∉ q.inflightGroups ∧ q.group (q.groupId r) ≠ [] ∧
      q.putMessage r = q.setGroup (q.groupId r)
        (Heapq.heappush q.priority (q.group (q.groupId r)) r)) := by
  have hset : ∀ l : List Ref,
      (q.setGroup (q.groupId r) l).inflightGroups = q.inflightGroups ∧
      (q.setGroup (q.groupId r) l).messageGroupQueue = q.messageGroupQueue ∧
      (q.setGroup (q.groupId r) l).objects = q.objects := fun _ => ⟨rfl, rfl, rfl⟩
  by_cases hin : q.groupId r ∈ q.inflightGroups
  · by_cases hcount : (q.objects r).receiveCount < 1
    · refine .inl ⟨hcount, hin, ?_⟩
      unfold putMessage
      rw [if_pos ⟨hcount, hin⟩]
    · refine .inr (.inl ⟨Nat.not_lt.mp hcount, hin, ?_⟩)
      unfold putMessage
      simp only [hset]
      rw [if_neg (fun hc => hcount hc.1), if_pos hin]
  · by_cases hempty : q.group (q.groupId r) = []
    · refine .inr (.inr (.inl ⟨hin, hempty, ?_⟩))
      unfold putMessage
      simp only [hset]
      rw [if_neg (fun hc => hin hc.2), if_neg hin, if_pos (isEmpty_iff.mpr hempty)]
    · refine .inr (.inr (.inr ⟨hin, hempty, ?_⟩))
      unfold putMessage
      simp only [hset]
      rw [if_neg (fun hc => hin hc.2), if_neg hin, if_neg (fun hc => hempty (isEmpty_iff.mp hc))]

theorem putMessage_base : (q.putMessage r).toSqsQueue = q.toSqsQueue := by
  rcases putMessage_cases q r with ⟨-, -, h⟩ | ⟨-, -, h⟩ | ⟨-, -, h⟩ | ⟨-, -, h⟩
  · rw [h]
    rfl
  · rw [h]
    rfl
  · rw [h]
    rfl
  · rw [h]
    rfl

theorem putMessage_messageGroups :
    (q.putMessage r).messageGroups = q.messageGroups.set (q.groupId r)
      (Heapq.heappush q.priority (q.group (q.groupId r)) r) := by
  rcases putMessage_cases q r with ⟨-, -, h⟩ | ⟨-, -, h⟩ | ⟨-, -, h⟩ | ⟨-, -, h⟩
  · rw [h]
    rfl
  · rw [h]
    rfl
  · rw [h]
    rfl
  · rw [h]
    rfl

theorem putMessage_group : (q.putMessage r).group g = if g = q.groupId r then
      Heapq.heappush q.priority (q.group (q.groupId r)) r else q.group g := by
  unfold group
  rw [putMessage_messageGroups, Dict.getD_set]
  rfl

theorem total_setGroup (heap : List Ref) :
    (q.setGroup g heap).messageGroups.total (fun l => (l : Multiset Ref)) +
      (q.group g : Multiset Ref) =
    q.messageGroups.total (fun l => (l : Multiset Ref)) + (heap : Multiset Ref) :=
  Dict.total_set q.messageGroups (fun l => (l : Multiset Ref)) g heap [] rfl

instance : LawfulQueueKind FifoQueue where
  visible q := q.messageGroups.total fun l => (l : Multiset Ref)
  base_setBase _ _ := rfl
  visible_setBase _ _ := rfl
  base_putMessage q r := putMessage_base q r
  visible_putMessage q r := by
    have htotal := total_setGroup q (q.groupId r)
      (Heapq.heappush q.priority (q.group (q.groupId r)) r)
    rw [Multiset.coe_eq_coe.mpr (Heapq.heappush_perm q.priority (q.group (q.groupId r)) r),
      ← Multiset.cons_coe, ← Multiset.singleton_add, ← add_assoc] at htotal
    have hcancel := add_right_cancel htotal
    rw [add_comm ({r} : Multiset Ref)]
    show (q.putMessage r).messageGroups.total (fun l => (l : Multiset Ref)) = _
    rw [putMessage_messageGroups]
    exact hcancel

theorem mem_visible : r ∈ visible q ↔ ∃ g, r ∈ q.group g :=
  Dict.mem_total_coe _ r

/-! ### The group bookkeeping -/

/-- An empty group that waits in the queue of groups. -/
def Stale : Prop := g ∈ q.messageGroupQueue ∧ q.group g = []

/-- A group that waits in the queue of groups or is in flight. -/
def Placed : Prop :=
  g ∈ q.messageGroupQueue ∨ g ∈ q.inflightGroups

/-- The invariant of the group bookkeeping, with the messages in `hand` counted as in flight. -/
structure Grouped (hand : Multiset Ref) (q : FifoQueue) : Prop where
  nodup : q.messageGroupQueue.Nodup
  disjoint : ∀ g ∈ q.messageGroupQueue, g ∉ q.inflightGroups
  covered : ∀ g, q.group g ≠ [] → g ∈ q.messageGroupQueue ∨ g ∈ q.inflightGroups
  outstanding : ∀ g ∈ q.inflightGroups,
    (∃ r ∈ q.inflight, q.groupId r = g) ∨ ∃ r ∈ hand, q.groupId r = g
  ids : ∀ g, ∀ r ∈ q.group g, q.groupId r = g

theorem Grouped.of_base {hand hand' : Multiset Ref} {q q' : FifoQueue} (h : Grouped hand q)
    (hgroups : q'.messageGroups = q.messageGroups)
    (hqueue : q'.messageGroupQueue = q.messageGroupQueue)
    (hin : q'.inflightGroups = q.inflightGroups)
    (hid : ∀ r, q'.groupId r = q.groupId r)
    (hout : ∀ g ∈ q.inflightGroups, ∀ r, r ∈ q.inflight ∨ r ∈ hand → q.groupId r = g →
      (∃ r' ∈ q'.inflight, q.groupId r' = g) ∨ ∃ r' ∈ hand', q.groupId r' = g) :
    Grouped hand' q' := by
  have hgroup : ∀ g, q'.group g = q.group g := fun g => by
    unfold group
    rw [hgroups]
  refine ⟨by rw [hqueue]; exact h.nodup, ?_, ?_, ?_, ?_⟩
  · rw [hqueue, hin]
    exact h.disjoint
  · intro g hg
    rw [hgroup] at hg
    rw [hqueue, hin]
    exact h.covered g hg
  · intro g hg
    rw [hin] at hg
    simp only [hid]
    rcases h.outstanding g hg with ⟨r, hr, hrg⟩ | ⟨r, hr, hrg⟩
    · exact hout g hg r (.inl hr) hrg
    · exact hout g hg r (.inr hr) hrg
  · intro g r hr
    rw [hgroup] at hr
    rw [hid]
    exact h.ids g r hr

variable {hand : Multiset Ref}

theorem Grouped.congr {q q' : FifoQueue} (h : Grouped hand q)
    (hgroups : q'.messageGroups = q.messageGroups)
    (hqueue : q'.messageGroupQueue = q.messageGroupQueue)
    (hin : q'.inflightGroups = q.inflightGroups) (hinflight : q'.inflight = q.inflight)
    (hid : ∀ r, q'.groupId r = q.groupId r) : Grouped hand q' := by
  refine h.of_base hgroups hqueue hin hid (fun g _ r hr hrg => ?_)
  rw [hinflight]
  rcases hr with hr | hr
  · exact .inl ⟨r, hr, hrg⟩
  · exact .inr ⟨r, hr, hrg⟩

theorem putMessage_group_ne_nil
    (hg : (q.putMessage r).group g ≠ []) : g = q.groupId r ∨ q.group g ≠ [] := by
  rw [putMessage_group] at hg
  by_cases hc : g = q.groupId r
  · exact .inl hc
  · rw [if_neg hc] at hg
    exact .inr hg

theorem mem_putMessage_group (r' : Ref) (g : String) :
    r' ∈ (q.putMessage r).group g ↔ (r' = r ∧ g = q.groupId r) ∨ r' ∈ q.group g := by
  rw [putMessage_group]
  by_cases hg : g = q.groupId r
  · rw [if_pos hg, (Heapq.heappush_perm _ _ r).mem_iff,
      mem_cons]
    simp only [hg, and_true]
  · rw [if_neg hg]
    simp only [hg, and_false, false_or]

theorem groupId_putMessage (r' : Ref) : (q.putMessage r).groupId r' = q.groupId r' := by
  unfold groupId
  rw [putMessage_base]

theorem ids_putMessage (h : ∀ g, ∀ r' ∈ q.group g, q.groupId r' = g) (g : String) (r' : Ref)
    (hr' : r' ∈ (q.putMessage r).group g) : (q.putMessage r).groupId r' = g := by
  rw [groupId_putMessage]
  rcases (mem_putMessage_group q r r' g).mp hr' with ⟨h1, h2⟩ | h1
  · rw [h1, h2]
  · exact h g r' h1

/-- Where the groups are after a push. The group of the message ends up in
    one of the two places, and no other group moves. -/
theorem putMessage_places (h : Grouped hand q)
    (hstale : ¬ q.Stale (q.groupId r)) :
    (q.putMessage r).messageGroupQueue.Nodup ∧
    (∀ g ∈ (q.putMessage r).messageGroupQueue, g ∉ (q.putMessage r).inflightGroups) ∧
    (∀ g, (q.putMessage r).group g ≠ [] →
      g ∈ (q.putMessage r).messageGroupQueue ∨ g ∈ (q.putMessage r).inflightGroups) ∧
    (∀ g ∈ (q.putMessage r).inflightGroups, g ∈ q.inflightGroups) := by
  have hne := putMessage_group_ne_nil q r
  -- A group in flight does not wait in the queue.
  have hqueue : q.groupId r ∈ q.inflightGroups → q.groupId r ∉ q.messageGroupQueue :=
    fun hin hc => h.disjoint _ hc hin
  have hnodup : q.groupId r ∉ q.messageGroupQueue →
      (q.messageGroupQueue ++ [q.groupId r]).Nodup := by
    intro hnot
    rw [← concat_eq_append]
    exact List.Nodup.concat hnot h.nodup
  rcases putMessage_cases q r with ⟨-, hin, heq⟩ | ⟨-, hin, heq⟩ | ⟨hin, hempty, heq⟩ |
    ⟨hin, hnonempty, heq⟩
  · have hq : (q.putMessage r).messageGroupQueue = q.messageGroupQueue := by
      rw [heq]
      rfl
    have hf : (q.putMessage r).inflightGroups = q.inflightGroups := by
      rw [heq]
      rfl
    rw [hq, hf]
    refine ⟨h.nodup, h.disjoint, fun g hg => ?_, fun g hg => hg⟩
    rcases hne g hg with rfl | hg
    · exact .inr hin
    · exact h.covered g hg
  · have hq : (q.putMessage r).messageGroupQueue = q.messageGroupQueue ++ [q.groupId r] := by
      rw [heq]
    have hf : (q.putMessage r).inflightGroups = q.inflightGroups.erase (q.groupId r) := by rw [heq]
    rw [hq, hf]
    refine ⟨hnodup (hqueue hin), fun g hg => ?_, fun g hg => ?_,
      fun g hg => Finset.mem_of_mem_erase hg⟩
    · rcases mem_append.mp hg with hg | hg
      · exact fun hc => h.disjoint g hg (Finset.mem_of_mem_erase hc)
      · rw [mem_singleton.mp hg]
        exact Finset.notMem_erase _ _
    · rw [mem_append, mem_singleton, Finset.mem_erase]
      by_cases hgr : g = q.groupId r
      · exact .inl (.inr hgr)
      · rcases h.covered g ((hne g hg).resolve_left hgr) with hc | hc
        · exact .inl (.inl hc)
        · exact .inr ⟨hgr, hc⟩
  · have hq : (q.putMessage r).messageGroupQueue = q.messageGroupQueue ++ [q.groupId r] := by
      rw [heq]
    have hf : (q.putMessage r).inflightGroups = q.inflightGroups := by
      rw [heq]
      rfl
    rw [hq, hf]
    refine ⟨hnodup (fun hc => hstale ⟨hc, hempty⟩), fun g hg => ?_, fun g hg => ?_, fun g hg => hg⟩
    · rcases mem_append.mp hg with hg | hg
      · exact h.disjoint g hg
      · rw [mem_singleton.mp hg]
        exact hin
    · rw [mem_append, mem_singleton]
      rcases hne g hg with hgr | hg
      · exact .inl (.inr hgr)
      · rcases h.covered g hg with hc | hc
        · exact .inl (.inl hc)
        · exact .inr hc
  · have hq : (q.putMessage r).messageGroupQueue = q.messageGroupQueue := by
      rw [heq]
      rfl
    have hf : (q.putMessage r).inflightGroups = q.inflightGroups := by
      rw [heq]
      rfl
    rw [hq, hf]
    refine ⟨h.nodup, h.disjoint, fun g hg => ?_, fun g hg => hg⟩
    rcases hne g hg with rfl | hg
    · exact h.covered _ hnonempty
    · exact h.covered g hg

/-- Pushing a new message and a returning one. -/
theorem grouped_putMessage_new (h : Grouped hand q)
    (hstale : ¬ q.Stale (q.groupId r)) :
    Grouped hand (q.putMessage r) := by
  rcases putMessage_places q r h hstale with ⟨h1, h2, h3, h4⟩
  refine ⟨h1, h2, h3, fun g hg => ?_, ids_putMessage q r h.ids⟩
  simp only [groupId_putMessage, putMessage_base]
  exact h.outstanding g (h4 g hg)

/-- Pushing a message that was outstanding. It takes its group out of
    `inflight_groups`, so no group there counts on it any more. -/
theorem grouped_putMessage_back (h : Grouped ({r} + hand) q)
    (hcount : 1 ≤ (q.objects r).receiveCount)
    (hstale : ¬ q.Stale (q.groupId r)) : Grouped hand (q.putMessage r) := by
  rcases putMessage_places q r h hstale with ⟨h1, h2, h3, h4⟩
  have hleft : q.groupId r ∉ (q.putMessage r).inflightGroups := by
    rcases putMessage_cases q r with ⟨hlt, -, -⟩ | ⟨-, -, heq⟩ | ⟨hin, -, heq⟩ | ⟨hin, -, heq⟩
    · omega
    · rw [heq]
      exact Finset.notMem_erase _ _
    · rw [heq]
      exact hin
    · rw [heq]
      exact hin
  refine ⟨h1, h2, h3, fun g hg => ?_, ids_putMessage q r h.ids⟩
  simp only [groupId_putMessage, putMessage_base]
  rcases h.outstanding g (h4 g hg) with hr | ⟨r', hr', hrg⟩
  · exact .inl hr
  · rw [Multiset.mem_add, Multiset.mem_singleton] at hr'
    rcases hr' with rfl | hr'
    · exact absurd (hrg ▸ hg) hleft
    · exact .inr ⟨r', hr', hrg⟩

/-- Making a group visible. -/
theorem grouped_updateMessageGroupVisibility (h : Grouped ({r} + hand) q) :
    Grouped hand (q.updateMessageGroupVisibility (q.groupId r)) := by
  -- A group other than that of the message does not count on it.
  have hother : ∀ g ∈ q.inflightGroups, g ≠ q.groupId r →
      (∃ r' ∈ q.inflight, q.groupId r' = g) ∨ ∃ r' ∈ hand, q.groupId r' = g := by
    intro g hg hgr
    rcases h.outstanding g hg with hr | ⟨r', hr', hrg⟩
    · exact .inl hr
    · rw [Multiset.mem_add, Multiset.mem_singleton] at hr'
      rcases hr' with rfl | hr'
      · exact absurd hrg.symm hgr
      · exact .inr ⟨r', hr', hrg⟩
  unfold updateMessageGroupVisibility
  by_cases hin : q.groupId r ∈ q.inflightGroups
  · rw [if_pos hin]
    by_cases hany : q.inflight.any (fun r' => q.groupId r' == q.groupId r) = true
    · rw [if_pos hany]
      refine ⟨h.nodup, h.disjoint, h.covered, fun g hg => ?_, h.ids⟩
      by_cases hgr : g = q.groupId r
      · rcases any_eq_true.mp hany with ⟨r', hr', hrg⟩
        exact .inl ⟨r', hr', by rw [hgr]; exact beq_iff_eq.mp hrg⟩
      · exact hother g hg hgr
    · rw [if_neg hany]
      have hqueue : q.groupId r ∉ q.messageGroupQueue := fun hc => h.disjoint _ hc hin
      simp only
      split
      · next hempty =>
          refine ⟨h.nodup, fun g hg hc => h.disjoint g hg (Finset.mem_of_mem_erase hc),
            fun g hg => ?_, fun g hg => ?_, h.ids⟩
          · have hgr : g ≠ q.groupId r := fun hc =>
              hg (by rw [hc]; exact isEmpty_iff.mp hempty)
            rcases h.covered g hg with hc | hc
            · exact .inl hc
            · exact .inr (Finset.mem_erase.mpr ⟨hgr, hc⟩)
          · rcases Finset.mem_erase.mp hg with ⟨hgr, hg⟩
            exact hother g hg hgr
      · refine ⟨?_, fun g hg hc => ?_, fun g hg => ?_, fun g hg => ?_, h.ids⟩
        · rw [← concat_eq_append]
          exact List.Nodup.concat hqueue h.nodup
        · rcases Finset.mem_erase.mp hc with ⟨hgr, hc⟩
          rcases mem_append.mp hg with hg | hg
          · exact h.disjoint g hg hc
          · exact hgr (mem_singleton.mp hg)
        · show g ∈ q.messageGroupQueue ++ [q.groupId r] ∨ g ∈ q.inflightGroups.erase _
          rw [mem_append, mem_singleton, Finset.mem_erase]
          by_cases hgr : g = q.groupId r
          · exact .inl (.inr hgr)
          · rcases h.covered g hg with hc | hc
            · exact .inl (.inl hc)
            · exact .inr ⟨hgr, hc⟩
        · rcases Finset.mem_erase.mp hg with ⟨hgr, hg⟩
          exact hother g hg hgr
  · rw [if_neg hin]
    exact ⟨h.nodup, h.disjoint, h.covered, fun g hg => hother g hg (fun hc => hin (hc ▸ hg)), h.ids⟩

theorem stale_of_putMessage (h : (q.putMessage r).Stale g) : q.Stale g := by
  rcases h with ⟨hqueue, hempty⟩
  have hgr : g ≠ q.groupId r := by
    intro hc
    have hmem : r ∈ (q.putMessage r).group g :=
      (mem_putMessage_group q r r g).mpr (.inl ⟨rfl, hc⟩)
    rw [hempty] at hmem
    exact absurd hmem not_mem_nil
  have hgroup : q.group g = [] := by
    rw [putMessage_group, if_neg hgr] at hempty
    exact hempty
  refine ⟨?_, hgroup⟩
  rcases putMessage_cases q r with ⟨-, -, heq⟩ | ⟨-, -, heq⟩ | ⟨-, -, heq⟩ | ⟨-, -, heq⟩
  · rw [heq] at hqueue
    exact hqueue
  · rw [heq] at hqueue
    exact (mem_append.mp hqueue).resolve_right (fun hc => hgr (mem_singleton.mp hc))
  · rw [heq] at hqueue
    exact (mem_append.mp hqueue).resolve_right (fun hc => hgr (mem_singleton.mp hc))
  · rw [heq] at hqueue
    exact hqueue

theorem placed_putMessage (h : q.Placed g) : (q.putMessage r).Placed g := by
  unfold Placed at h ⊢
  rcases putMessage_cases q r with ⟨-, -, heq⟩ | ⟨-, -, heq⟩ | ⟨-, -, heq⟩ | ⟨-, -, heq⟩
  · rw [heq]
    exact h
  · rw [heq]
    simp
    by_cases hg : g = q.groupId r
    · exact .inl (.inr hg)
    · rcases h with h | h
      · exact .inl (.inl h)
      · exact .inr ⟨hg, h⟩
  · rw [heq]
    simp
    exact h.imp_left Or.inl
  · rw [heq]
    exact h

/-! ### What is known from where a message is -/

/-- The bookkeeping at time `t`, together with what is known about a message
    from where it is. The groups of the messages in `owed` are still to be
    made visible: these are dead letters the provider has not dealt with. -/
structure Tidy (t : ℚ) (owed hand : Multiset Ref) (q : FifoQueue) : Prop where
  sound : Sound hand q
  grouped : Grouped (hand + owed) q
  owed_lt : ∀ r ∈ owed, r < q.nextRef
  settled : ∀ r ∈ visible q, (q.objects r).isVisible t = true
  returned : ∀ r, r ∈ q.inflight ∨ r ∈ hand → 1 ≤ (q.objects r).receiveCount
  untouched : ∀ r ∈ q.delayed,
    (q.objects r).visibilityDeadline = none ∧ (q.objects r).receiveCount = 0
  heaps : ∀ g, Heapq.IsHeap q.priority (q.group g)

theorem isVisible_mono (m : SqsMessage) {t t' : ℚ} (htt : t ≤ t')
    (h : m.isVisible t = true) : m.isVisible t' = true := by
  unfold SqsMessage.isVisible at h ⊢
  cases hd : m.visibilityDeadline with
  | none => rfl
  | some =>
    rw [hd] at h
    simp only [decide_eq_true_eq] at h ⊢
    exact le_trans h htt

theorem Tidy.mono {t t' : ℚ} {owed hand : Multiset Ref} {q : FifoQueue} (h : Tidy t owed hand q)
    (htt : t ≤ t') : Tidy t' owed hand q :=
  ⟨h.sound, h.grouped, h.owed_lt, fun r hr => isVisible_mono _ htt (h.settled r hr), h.returned,
    h.untouched, h.heaps⟩

theorem isHeap_putMessage (h : ∀ g, Heapq.IsHeap q.priority (q.group g)) (g : String) :
    Heapq.IsHeap (q.putMessage r).priority ((q.putMessage r).group g) := by
  have hprio : (q.putMessage r).priority = q.priority := by rw [putMessage_base]
  rw [hprio, putMessage_group]
  split
  · exact Heapq.isHeap_heappush _ _ r (h _)
  · exact h g

variable {t : ℚ} {owed hand : Multiset Ref}

/-- Putting a message in hand somewhere. -/
theorem tidy_putMessage (q : FifoQueue) (r : Ref) (h : Tidy t owed ({r} + hand) q)
    (hvis : (q.objects r).isVisible t = true) (hstale : ¬ q.Stale (q.groupId r)) :
    Tidy t owed hand (q.putMessage r) := by
  have hmem : r ∈ {r} + hand := Multiset.mem_add.mpr (.inl (Multiset.mem_singleton_self r))
  have hgrouped := h.grouped
  rw [add_assoc] at hgrouped
  refine ⟨sound_putMessage q r h.sound,
    grouped_putMessage_back q r hgrouped (h.returned r (.inr hmem)) hstale,
    by rw [putMessage_base]; exact h.owed_lt, ?_, ?_, ?_, isHeap_putMessage q r h.heaps⟩
  · intro r' hr'
    rw [putMessage_base]
    have hcases : r' ∈ ({r} : Multiset Ref) + visible q := by
      rw [← visible_putMessage q r]
      exact hr'
    rw [Multiset.mem_add, Multiset.mem_singleton] at hcases
    rcases hcases with rfl | hr'
    · exact hvis
    · exact h.settled r' hr'
  · intro r' hr'
    rw [putMessage_base] at hr' ⊢
    exact h.returned r' (hr'.imp_right fun hc => Multiset.mem_add.mpr (.inr hc))
  · rw [putMessage_base]
    exact h.untouched

theorem tidy_addInflightMessage (q : FifoQueue) (r : Ref) (h : Tidy t owed ({r} + hand) q) :
    Tidy t owed hand (setBase q (q.addInflightMessage r)) := by
  have hmem : r ∈ {r} + hand := Multiset.mem_add.mpr (.inl (Multiset.mem_singleton_self r))
  have hadd : q.addInflightMessage r = { q.toSqsQueue with inflight := q.inflight ++ [r] } :=
    addInflightMessage_inflight q r h.sound
  have hin : ∀ r', r' ∈ (setBase q (q.addInflightMessage r)).inflight ↔
      r' ∈ q.inflight ∨ r' = r := by
    intro r'
    show r' ∈ (q.addInflightMessage r).inflight ↔ _
    rw [hadd, mem_append, mem_singleton]
  have hobj : (setBase q (q.addInflightMessage r)).objects = q.objects := by
    show (q.addInflightMessage r).objects = q.objects
    rw [hadd]
  have hid : ∀ r', (setBase q (q.addInflightMessage r)).groupId r' = q.groupId r' := by
    intro r'
    unfold groupId
    rw [hobj]
  have hprio : (setBase q (q.addInflightMessage r)).priority = q.priority := by
    unfold SqsQueue.priority
    rw [hobj]
  have hnext : (setBase q (q.addInflightMessage r)).nextRef = q.nextRef := by
    show (q.addInflightMessage r).nextRef = q.nextRef
    rw [hadd]
  refine ⟨sound_addInflightMessage q r h.sound, ?_, by rw [hnext]; exact h.owed_lt, ?_, ?_, ?_,
    by rw [hprio]; exact h.heaps⟩
  · refine h.grouped.of_base rfl rfl rfl hid (fun g _ r' hr' hrg => ?_)
    rcases hr' with hr' | hr'
    · exact .inl ⟨r', (hin r').mpr (.inl hr'), hrg⟩
    · rw [add_assoc, Multiset.mem_add, Multiset.mem_singleton] at hr'
      rcases hr' with hr' | hr'
      · exact .inl ⟨r', (hin r').mpr (.inr hr'), hrg⟩
      · exact .inr ⟨r', hr', hrg⟩
  · rw [hobj]
    exact h.settled
  · intro r' hr'
    rw [hobj]
    rcases hr' with hr' | hr'
    · rcases (hin r').mp hr' with hr' | rfl
      · exact h.returned r' (.inl hr')
      · exact h.returned r' (.inr hmem)
    · exact h.returned r' (.inr (Multiset.mem_add.mpr (.inr hr')))
  · rw [hobj]
    show ∀ r' ∈ (q.addInflightMessage r).delayed, _
    rw [hadd]
    exact h.untouched

/-- Rewriting an object that is in flight, in hand, or held nowhere, in a way
    that keeps what identifies it and its receive count. -/
theorem tidy_modify (q : FifoQueue) (r : Ref) (f : SqsMessage → SqsMessage)
    (h : Tidy t owed hand q) (hvis : r ∉ visible q) (hdelayed : r ∉ q.delayed)
    (hid : ∀ m, (f m).message.messageId = m.message.messageId)
    (hgroup : ∀ m, (f m).message.messageGroupId = m.message.messageGroupId)
    (hdel : ∀ m, (f m).deleted = m.deleted) (hcount : ∀ m, (f m).receiveCount = m.receiveCount)
    (hprio : ∀ m, (f m).priority = m.priority) :
    Tidy t owed hand (setBase q (q.modify r f)) := by
  have hobj : ∀ r', r' ≠ r → (q.modify r f).objects r' = q.objects r' :=
    fun r' hr' => modify_objects_ne _ r r' f hr'
  have hfield : ∀ {α : Type} (k : SqsMessage → α), (∀ m, k (f m) = k m) →
      ∀ r', k ((q.modify r f).objects r') = k (q.objects r') := by
    intro α k hk r'
    rw [modify_objects]
    by_cases hr : r' = r
    · rw [if_pos hr, hk, hr]
    · rw [if_neg hr]
  refine ⟨?_, ?_, h.owed_lt, ?_, ?_, ?_, ?_⟩
  · refine h.sound.of_le (le_of_eq rfl) rfl (hfield (fun m => m.message.messageId) hid)
      (fun r' _ => hfield _ hdel r') h.sound.receipts
  · refine h.grouped.congr rfl rfl rfl rfl (fun r' => ?_)
    exact congrArg (fun g => g.getD "") (hfield (fun m => m.message.messageGroupId) hgroup r')
  · intro r' hr'
    have hne : r' ≠ r := fun hc => hvis (hc ▸ hr')
    show ((q.modify r f).objects r').isVisible t = true
    rw [hobj r' hne]
    exact h.settled r' hr'
  · intro r' hr'
    show 1 ≤ ((q.modify r f).objects r').receiveCount
    rw [hfield _ hcount r']
    exact h.returned r' hr'
  · intro r' hr'
    have hne : r' ≠ r := fun hc => hdelayed (hc ▸ hr')
    show ((q.modify r f).objects r').visibilityDeadline = none ∧
      ((q.modify r f).objects r').receiveCount = 0
    rw [hobj r' hne]
    exact h.untouched r' hr'
  · intro g
    have hsame : (setBase q (q.modify r f)).priority = q.priority := priority_modify _ r f hprio
    rw [hsame]
    exact h.heaps g

theorem tidy_delInflight (q : FifoQueue) (r : Ref) (h : Tidy t owed hand q) (hr : r ∈ q.inflight) :
    Tidy t owed ({r} + hand) (setBase q (q.delInflight r)) := by
  have hdel : (q.delInflight r).inflight = q.inflight.erase r :=
    h.sound.delInflight_inflight r (h.sound.inflight_lt r hr)
  have hheld : ({r} : Multiset Ref) + hand + held (setBase q (q.delInflight r)) =
      hand + held q := by
    show {r} + hand + ((q.delayed : Multiset Ref) + visible q +
      (((q.delInflight r).inflight : List Ref) : Multiset Ref)) = _
    rw [hdel]
    show _ = hand + ((q.delayed : Multiset Ref) + visible q + (q.inflight : Multiset Ref))
    rw [← coe_erase_add _ r hr]
    abel
  refine ⟨h.sound.of_le (le_of_eq hheld) rfl (fun _ => rfl) (fun _ _ => rfl) h.sound.receipts,
    ?_, h.owed_lt, h.settled, ?_, h.untouched, h.heaps⟩
  · refine h.grouped.of_base rfl rfl rfl (fun _ => rfl) (fun g _ r' hr' hrg => ?_)
    simp only [add_assoc, Multiset.mem_add, Multiset.mem_singleton]
    by_cases hc : r' = r
    · exact .inr ⟨r', .inl hc, hrg⟩
    · rcases hr' with hr' | hr'
      · refine .inl ⟨r', ?_, hrg⟩
        show r' ∈ (q.delInflight r).inflight
        rw [hdel]
        exact (mem_erase_of_ne hc).mpr hr'
      · exact .inr ⟨r', .inr (Multiset.mem_add.mp hr'), hrg⟩
  · intro r' hr'
    rcases hr' with hr' | hr'
    · have hr' : r' ∈ (q.delInflight r).inflight := hr'
      rw [hdel] at hr'
      exact h.returned r' (.inl (mem_of_mem_erase hr'))
    · rw [Multiset.mem_add, Multiset.mem_singleton] at hr'
      rcases hr' with rfl | hr'
      · exact h.returned r' (.inl hr)
      · exact h.returned r' (.inr hr')

/-- Moving a message back among the visible ones. -/
theorem tidy_requeueMessage (q : FifoQueue) (r : Ref) (h : Tidy t owed hand q) (hr : r ∈ q.inflight)
    (hvis : (q.objects r).isVisible t = true) (hstale : ¬ q.Stale (q.groupId r)) :
    Tidy t owed hand (requeueMessage q r) :=
  tidy_putMessage _ r (tidy_delInflight q r h hr) hvis hstale

theorem tidy_enqueueDelayedMessage (q : FifoQueue) (r : Ref) (h : Tidy t owed hand q)
    (hr : r ∈ q.delayed) (hstale : ¬ q.Stale (q.groupId r)) :
    Tidy t owed hand (enqueueDelayedMessage q r) := by
  have hdel : (q.removeDelayed r).delayed = q.delayed.erase r :=
    h.sound.removeDelayed_delayed r (h.sound.delayed_lt r hr)
  have hobj : (enqueueDelayedMessage q r).toSqsQueue = q.removeDelayed r :=
    base_enqueueDelayedMessage q r
  have hgrouped : Grouped (hand + owed) (setBase q (q.removeDelayed r)) :=
    h.grouped.congr rfl rfl rfl rfl fun _ => rfl
  refine ⟨sound_enqueueDelayedMessage q h.sound r hr,
    grouped_putMessage_new _ r hgrouped hstale,
    by rw [hobj]; exact h.owed_lt, ?_, ?_, ?_,
    isHeap_putMessage _ r h.heaps⟩
  · intro r' hr'
    rw [visible_enqueueDelayedMessage, Multiset.mem_add, Multiset.mem_singleton] at hr'
    rw [hobj]
    rcases hr' with rfl | hr'
    · -- A delayed message has no visibility timeout yet.
      show (q.objects r').isVisible t = true
      unfold SqsMessage.isVisible
      rw [(h.untouched r' hr).1]
    · exact h.settled r' hr'
  · intro r' hr'
    rw [hobj] at hr' ⊢
    exact h.returned r' hr'
  · intro r' hr'
    rw [hobj, hdel] at hr'
    rw [hobj]
    exact h.untouched r' (mem_of_mem_erase hr')

end LocalEmu.Sqs.FifoQueue
