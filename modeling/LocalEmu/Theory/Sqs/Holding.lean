import LocalEmu.Core.Sqs.Queue
import Mathlib.Tactic.Abel

/-!
# What a Queue Holds

The messages of a queue as one multiset, and what the inherited operations do
to it.

A message is in `delayed`, among the visible messages, or in `inflight`.
`held` adds the three up. That is the quantity the operations conserve:
re-queueing and enqueueing move a message from one summand to another, so the
sum is the same before and after. Whether a message is in one place only is
then a question about duplicates in `held`, asked once and not once per pair
of containers.

In the middle of `receive` a message is in none of the three. It is in the
hands of the operation, and `Sound` counts such messages along with the held
ones, so that the invariant has no gap while the loop runs.

`LawfulQueueKind` is what a queue type has to provide: where its visible
messages are, and that `_put_message` adds to them and touches nothing of the
base part. Both queue types satisfy it, so the results below hold for both.

The containers compare by message id. `Sound` makes that the same as
comparing references, and carries the other facts every reachable queue
satisfies.
-/

namespace LocalEmu.Sqs

open List

open QueueKind

/-- The laws of a queue type. -/
class LawfulQueueKind (Q : Type) [QueueKind Q] where
  /-- The visible messages. -/
  visible : Q → Multiset Ref
  base_setBase : ∀ (q : Q) (b : SqsQueue), base (setBase q b) = b
  visible_setBase : ∀ (q : Q) (b : SqsQueue), visible (setBase q b) = visible q
  base_putMessage : ∀ (q : Q) (r : Ref), base (putMessage q r) = base q
  visible_putMessage : ∀ (q : Q) (r : Ref), visible (putMessage q r) = {r} + visible q

open LawfulQueueKind

variable {Q : Type} [QueueKind Q] [LawfulQueueKind Q]

/-- Every message of a queue. -/
def held (q : Q) : Multiset Ref :=
  ((base q).delayed : Multiset Ref) + visible q + ((base q).inflight : Multiset Ref)

/-- A message without its receipt handles. -/
def SqsMessage.core (m : SqsMessage) : SqsMessage := { m with receiptHandles := [] }

/-- Message ids tell the message objects of a queue apart. -/
def SqsQueue.Distinct (b : SqsQueue) : Prop :=
  ∀ r r', r < b.nextRef → r' < b.nextRef → b.messageId r = b.messageId r' → r = r'

/-- The facts every reachable queue satisfies, with `hand` the messages an operation has taken out
    and not yet put anywhere: no message is in two places, ids tell the messages apart, none of them
    has been deleted, and a receipt handle never belongs to a delayed message. -/
structure Sound (hand : Multiset Ref) (q : Q) : Prop where
  nodup : (hand + held q).Nodup
  lt : ∀ r ∈ hand + held q, r < (base q).nextRef
  ids : (base q).Distinct
  live : ∀ r ∈ hand + held q, ((base q).objects r).deleted = false
  receipts : ∀ h r, (base q).receipts h = some r → r < (base q).nextRef ∧ r ∉ (base q).delayed

theorem mem_held (q : Q) (r : Ref) :
    r ∈ held q ↔ r ∈ (base q).delayed ∨ r ∈ visible q ∨ r ∈ (base q).inflight := by
  unfold held
  rw [Multiset.mem_add, Multiset.mem_add, Multiset.mem_coe, Multiset.mem_coe, or_assoc]

/-! ### Comparing by message id -/

section Distinct

variable (b : SqsQueue) (h : b.Distinct)

include h

theorem sameMessage_iff (r r' : Ref) (hr : r < b.nextRef) (hr' : r' < b.nextRef) :
    b.sameMessage r r' = true ↔ r = r' := by
  unfold SqsQueue.sameMessage
  rw [beq_iff_eq]
  exact ⟨h r r' hr hr', fun he => by rw [he]⟩

theorem eraseP_sameMessage (r : Ref) (hr : r < b.nextRef) (l : List Ref)
    (hl : ∀ r' ∈ l, r' < b.nextRef) : l.eraseP (b.sameMessage r) = l.erase r := by
  induction l with
  | nil => rfl
  | cons a l ih =>
    have ha := sameMessage_iff b h r a hr (hl a mem_cons_self)
    by_cases hra : r = a
    · rw [eraseP_cons_of_pos (ha.mpr hra), hra, erase_cons_head]
    · rw [eraseP_cons_of_neg (fun hc => hra (ha.mp hc)),
        erase_cons_tail (by simpa only [beq_iff_eq] using fun hc => hra hc.symm),
        ih (fun r' hr' => hl r' (mem_cons_of_mem a hr'))]

theorem any_sameMessage (r : Ref) (hr : r < b.nextRef) (l : List Ref)
    (hl : ∀ r' ∈ l, r' < b.nextRef) : l.any (b.sameMessage r) = true ↔ r ∈ l := by
  rw [any_eq_true]
  constructor
  · intro hany
    rcases hany with ⟨a, ha, hsame⟩
    rw [(sameMessage_iff b h r a hr (hl a ha)).mp hsame]
    exact ha
  · exact fun hmem => ⟨r, hmem, (sameMessage_iff b h r r hr hr).mpr rfl⟩

end Distinct

section Accessors

variable {hand : Multiset Ref} {q : Q}

theorem Sound.held_lt (h : Sound hand q) : ∀ r ∈ held q, r < (base q).nextRef :=
  fun r hr => h.lt r (Multiset.mem_add.mpr (.inr hr))

theorem Sound.hand_lt (h : Sound hand q) : ∀ r ∈ hand, r < (base q).nextRef :=
  fun r hr => h.lt r (Multiset.mem_add.mpr (.inl hr))

theorem Sound.inflight_lt (h : Sound hand q) :
    ∀ r ∈ (base q).inflight, r < (base q).nextRef :=
  fun r hr => h.held_lt r ((mem_held q r).mpr (.inr (.inr hr)))

theorem Sound.delayed_lt (h : Sound hand q) : ∀ r ∈ (base q).delayed, r < (base q).nextRef :=
  fun r hr => h.held_lt r ((mem_held q r).mpr (.inl hr))

theorem Sound.visible_lt (h : Sound hand q) : ∀ r ∈ visible q, r < (base q).nextRef :=
  fun r hr => h.held_lt r ((mem_held q r).mpr (.inr (.inl hr)))

theorem Sound.held_nodup (h : Sound hand q) : (held q).Nodup := (Multiset.nodup_add.mp h.nodup).2.1

theorem Sound.inflight_nodup (h : Sound hand q) : (base q).inflight.Nodup :=
  Multiset.coe_nodup.mp (Multiset.nodup_add.mp h.held_nodup).2.1

theorem Sound.delayed_nodup (h : Sound hand q) : (base q).delayed.Nodup :=
  Multiset.coe_nodup.mp (Multiset.nodup_add.mp (Multiset.nodup_add.mp h.held_nodup).1).1

theorem Sound.visible_nodup (h : Sound hand q) : (visible q).Nodup :=
  (Multiset.nodup_add.mp (Multiset.nodup_add.mp h.held_nodup).1).2.1

theorem Sound.not_inflight_of_visible (h : Sound hand q) {r : Ref} (hr : r ∈ visible q) :
    r ∉ (base q).inflight := fun hc =>
  Multiset.disjoint_left.mp (Multiset.nodup_add.mp h.held_nodup).2.2
    (Multiset.mem_add.mpr (.inr hr)) (Multiset.mem_coe.mpr hc)

theorem Sound.not_inflight_of_delayed (h : Sound hand q) {r : Ref}
    (hr : r ∈ (base q).delayed) : r ∉ (base q).inflight := fun hc =>
  Multiset.disjoint_left.mp (Multiset.nodup_add.mp h.held_nodup).2.2
    (Multiset.mem_add.mpr (.inl (Multiset.mem_coe.mpr hr))) (Multiset.mem_coe.mpr hc)

theorem Sound.not_visible_of_delayed (h : Sound hand q) {r : Ref}
    (hr : r ∈ (base q).delayed) : r ∉ visible q := fun hc =>
  Multiset.disjoint_left.mp
    (Multiset.nodup_add.mp (Multiset.nodup_add.mp h.held_nodup).1).2.2
    (Multiset.mem_coe.mpr hr) hc

theorem Sound.not_held_of_hand (h : Sound hand q) {r : Ref} (hr : r ∈ hand) : r ∉ held q :=
  fun hc => Multiset.disjoint_left.mp (Multiset.nodup_add.mp h.nodup).2.2 hr hc

theorem Sound.isInflight_iff (h : Sound hand q) (r : Ref) (hr : r < (base q).nextRef) :
    (base q).isInflight r = true ↔ r ∈ (base q).inflight :=
  any_sameMessage _ h.ids r hr _ h.inflight_lt

theorem Sound.delInflight_inflight (h : Sound hand q) (r : Ref) (hr : r < (base q).nextRef) :
    ((base q).delInflight r).inflight = (base q).inflight.erase r :=
  eraseP_sameMessage _ h.ids r hr _ h.inflight_lt

theorem Sound.removeDelayed_delayed (h : Sound hand q) (r : Ref) (hr : r < (base q).nextRef) :
    ((base q).removeDelayed r).delayed = (base q).delayed.erase r :=
  eraseP_sameMessage _ h.ids r hr _ h.delayed_lt

/-- A step that does not add to the messages held or in hand, and keeps their ids, their deletion
    flags and whatever the receipts say, keeps a queue sound. -/
theorem Sound.of_le {hand' : Multiset Ref} {q' : Q} (h : Sound hand q)
    (hle : hand' + held q' ≤ hand + held q) (hnext : (base q').nextRef = (base q).nextRef)
    (hids : ∀ r, (base q').messageId r = (base q).messageId r)
    (hdel : ∀ r ∈ hand' + held q', ((base q').objects r).deleted = ((base q).objects r).deleted)
    (hrec : ∀ k r, (base q').receipts k = some r → r < (base q).nextRef ∧
      r ∉ (base q').delayed) : Sound hand' q' := by
  refine ⟨Multiset.nodup_of_le hle h.nodup, ?_, ?_, ?_, ?_⟩
  · intro r hr
    rw [hnext]
    exact h.lt r (Multiset.mem_of_le hle hr)
  · intro r r' hr hr' he
    rw [hnext] at hr hr'
    rw [hids, hids] at he
    exact h.ids r r' hr hr' he
  · intro r hr
    rw [hdel r hr]
    exact h.live r (Multiset.mem_of_le hle hr)
  · intro k r hk
    rw [hnext]
    exact hrec k r hk

theorem Sound.drop {hand' : Multiset Ref} (h : Sound hand q) (hle : hand' ≤ hand) :
    Sound hand' q :=
  h.of_le (by gcongr) rfl (fun _ => rfl) (fun _ _ => rfl) h.receipts

end Accessors

/-! ### Moving messages back -/

theorem base_requeueMessage (q : Q) (r : Ref) :
    base (requeueMessage q r) = (base q).delInflight r := by
  unfold requeueMessage
  rw [base_putMessage, base_setBase]

theorem visible_requeueMessage (q : Q) (r : Ref) :
    visible (requeueMessage q r) = {r} + visible q := by
  unfold requeueMessage
  rw [visible_putMessage, visible_setBase]

theorem base_enqueueDelayedMessage (q : Q) (r : Ref) :
    base (enqueueDelayedMessage q r) = (base q).removeDelayed r := by
  unfold enqueueDelayedMessage
  rw [base_putMessage, base_setBase]

theorem visible_enqueueDelayedMessage (q : Q) (r : Ref) :
    visible (enqueueDelayedMessage q r) = {r} + visible q := by
  unfold enqueueDelayedMessage
  rw [visible_putMessage, visible_setBase]

theorem coe_erase_add (l : List Ref) (r : Ref) (hr : r ∈ l) :
    ({r} : Multiset Ref) + ((l.erase r : List Ref) : Multiset Ref) = (l : Multiset Ref) := by
  exact Multiset.cons_erase (Multiset.mem_coe.mpr hr)

variable {hand : Multiset Ref}

theorem held_requeueMessage (q : Q) (h : Sound hand q) (r : Ref) (hr : r ∈ (base q).inflight) :
    held (requeueMessage q r) = held q := by
  have hsplit := coe_erase_add (base q).inflight r hr
  unfold held
  rw [visible_requeueMessage, base_requeueMessage,
    h.delInflight_inflight r (h.inflight_lt r hr), ← hsplit]
  simp only [SqsQueue.delInflight]
  abel

theorem held_enqueueDelayedMessage (q : Q) (h : Sound hand q) (r : Ref)
    (hr : r ∈ (base q).delayed) : held (enqueueDelayedMessage q r) = held q := by
  have hsplit := coe_erase_add (base q).delayed r hr
  unfold held
  rw [visible_enqueueDelayedMessage, base_enqueueDelayedMessage,
    h.removeDelayed_delayed r (h.delayed_lt r hr), ← hsplit]
  abel

/-- Moving a message back among the visible ones. -/
theorem sound_requeueMessage (q : Q) (h : Sound hand q) (r : Ref)
    (hr : r ∈ (base q).inflight) : Sound hand (requeueMessage q r) := by
  have hb := base_requeueMessage q r
  refine h.of_le (by rw [held_requeueMessage q h r hr]) (by rw [hb]; rfl)
    (fun _ => by rw [hb]; rfl) (fun _ _ => by rw [hb]; rfl) (fun k r' hk => ?_)
  rw [hb] at hk ⊢
  exact h.receipts k r' hk

theorem sound_enqueueDelayedMessage (q : Q) (h : Sound hand q) (r : Ref)
    (hr : r ∈ (base q).delayed) : Sound hand (enqueueDelayedMessage q r) := by
  have hb := base_enqueueDelayedMessage q r
  refine h.of_le (by rw [held_enqueueDelayedMessage q h r hr]) (by rw [hb]; rfl)
    (fun _ => by rw [hb]; rfl) (fun _ _ => by rw [hb]; rfl) (fun k r' hk => ?_)
  rw [hb] at hk ⊢
  rw [h.removeDelayed_delayed r (h.delayed_lt r hr)]
  exact ⟨(h.receipts k r' hk).1, fun hc => (h.receipts k r' hk).2 (mem_of_mem_erase hc)⟩

theorem selectAt_sublist (now : Nat → ℚ) (test : Ref → ℚ → Bool) (l : List Ref) :
    (selectAt now test l).Sublist l := by
  have hfst : l.zipIdx.map Prod.fst = l := zipIdx_map_fst 0 l
  conv_rhs => rw [← hfst]
  exact filter_sublist.map _

/-- A step that puts a message back among the visible ones, and leaves the other data. -/
structure PutsBack (place : Q → List Ref) (move : Q → Ref → Q) : Prop where
  sound : ∀ {hand q r}, Sound hand q → r ∈ place q → Sound hand (move q r)
  conserves : ∀ {hand q r}, Sound hand q → r ∈ place q → held (move q r) = held q
  place : ∀ {hand q r}, Sound hand q → r ∈ place q → place (move q r) = (place q).erase r
  frame : ∀ q r, (base (move q r)).attributes = (base q).attributes ∧
    (base (move q r)).nextRef = (base q).nextRef ∧ (base (move q r)).objects = (base q).objects

theorem putsBack_requeue : PutsBack (fun q : Q => (base q).inflight) requeueMessage where
  sound h := sound_requeueMessage _ h _
  conserves h := held_requeueMessage _ h _
  place h hr := by
    rw [base_requeueMessage]
    exact h.delInflight_inflight _ (h.inflight_lt _ hr)
  frame q r := by
    rw [base_requeueMessage]
    exact ⟨rfl, rfl, rfl⟩

theorem putsBack_enqueueDelayed :
    PutsBack (fun q : Q => (base q).delayed) enqueueDelayedMessage where
  sound h := sound_enqueueDelayedMessage _ h _
  conserves h := held_enqueueDelayedMessage _ h _
  place h hr := by
    rw [base_enqueueDelayedMessage]
    exact h.removeDelayed_delayed _ (h.delayed_lt _ hr)
  frame q r := by
    rw [base_enqueueDelayedMessage]
    exact ⟨rfl, rfl, rfl⟩

theorem PutsBack.foldl {place : Q → List Ref} {move : Q → Ref → Q} (hmove : PutsBack place move)
    {P : Q → Prop} (test : Ref → Prop)
    (hP : ∀ q r, P q → r ∈ place q → test r → P (move q r)) (l : List Ref) (q : Q)
    (h : Sound hand q) (hp : P q) (hn : l.Nodup) (hl : ∀ r ∈ l, r ∈ place q ∧ test r) :
    Sound hand (l.foldl move q) ∧ held (l.foldl move q) = held q ∧
      place (l.foldl move q) = (place q).diff l ∧ P (l.foldl move q) := by
  induction l generalizing q with
  | nil => exact ⟨h, rfl, rfl, hp⟩
  | cons r l ih =>
    rw [nodup_cons] at hn
    rcases hl r mem_cons_self with ⟨hr, htest⟩
    have herase := hmove.place h hr
    -- The messages still to come are not the one just taken.
    have hl' : ∀ r' ∈ l, r' ∈ place (move q r) ∧ test r' := by
      intro r' hr'
      rcases hl r' (mem_cons_of_mem r hr') with ⟨hmem, ht⟩
      rw [herase]
      exact ⟨(mem_erase_of_ne (fun hc => hn.1 (by rw [← hc]; exact hr'))).mpr hmem, ht⟩
    rcases ih _ (hmove.sound h hr) (hP q r hp hr htest) hn.2 hl' with ⟨h1, h2, h3, h4⟩
    refine ⟨h1, h2.trans (hmove.conserves h hr), ?_, h4⟩
    rw [foldl_cons, h3, herase, diff_cons]

end LocalEmu.Sqs
