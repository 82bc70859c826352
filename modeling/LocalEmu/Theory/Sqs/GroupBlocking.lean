import LocalEmu.Theory.Sqs.FifoRun
import Mathlib.Data.List.TakeWhile

/-!
# Which Messages Keep Others in Flight

The messages of all the groups are in flight in one order, and requeueing goes along it up to
the first message that is not visible. So a message of one group keeps the messages of the
other groups behind it in flight.
-/

namespace LocalEmu.Sqs.FifoQueue

open List

open QueueKind

variable (q : FifoQueue) (t : ℚ)

/-- The message comes before the other one in flight, in the same group, and it is not visible. -/
def Blocked (before : List Ref) (r : Ref) : Prop :=
  ∃ b ∈ before, q.groupId b = q.groupId r ∧ (q.objects b).isVisible t = false

/-- Each message in flight that is visible comes after one of its group that is not. -/
def OwnGroupBlocks : Prop :=
  ∀ before r after, q.inflight = before ++ r :: after → (q.objects r).isVisible t = true →
    q.Blocked t before r

/-- Each message in flight that is visible and comes after one that is not comes after one of
    its own group that is not. -/
def Ordered : Prop :=
  ∀ before r after, q.inflight = before ++ r :: after → (q.objects r).isVisible t = true →
    (∃ b ∈ before, (q.objects b).isVisible t = false) → q.Blocked t before r

theorem foldl_requeueMessage (expired rest : List Ref) (q : FifoQueue)
    (h : q.inflight = expired ++ rest) :
    (expired.foldl requeueMessage q).inflight = rest ∧
      (expired.foldl requeueMessage q).objects = q.objects := by
  induction expired generalizing q with
  | nil => exact ⟨h, rfl⟩
  | cons r expired ih =>
    have hb : (requeueMessage q r).toSqsQueue = q.delInflight r := base_requeueMessage q r
    have hrest : (requeueMessage q r).inflight = expired ++ rest := by
      rw [hb, SqsQueue.delInflight, h, cons_append, eraseP_cons_of_pos]
      exact beq_self_eq_true _
    rw [foldl_cons, (ih _ hrest).1, (ih _ hrest).2, hb]
    exact ⟨rfl, rfl⟩

theorem expiredPrefix_const : q.expiredPrefix (fun _ => t) =
    q.inflight.takeWhile fun r => (q.objects r).isVisible t := by
  have hfst : q.inflight = q.inflight.zipIdx.map Prod.fst := (zipIdx_map_fst 0 _).symm
  conv_rhs => rw [hfst, takeWhile_map]
  rfl

/-- After requeueing, each expired message is kept in flight by one of its own group if and
    only if that is so of the messages that come after one that is not visible. -/
theorem ownGroupBlocks_requeue :
    OwnGroupBlocks (q.requeueInflightMessages fun _ => t) t ↔ q.Ordered t := by
  have hkept := foldl_requeueMessage (q.inflight.takeWhile fun r => (q.objects r).isVisible t) _ q
    takeWhile_append_dropWhile.symm
  rw [← expiredPrefix_const, ← requeueInflightMessages_eq] at hkept
  rcases hkept with ⟨hinflight, hobjects⟩
  have hblocked : (q.requeueInflightMessages fun _ => t).Blocked t = q.Blocked t := by
    unfold Blocked groupId
    rw [hobjects]
  have hparts : q.inflight = q.inflight.takeWhile (fun r => (q.objects r).isVisible t) ++
      q.inflight.dropWhile (fun r => (q.objects r).isVisible t) :=
    takeWhile_append_dropWhile.symm
  unfold OwnGroupBlocks Ordered
  rw [hinflight, hobjects, hblocked]
  constructor
  · intro h before r after heq hr hb
    have hne : before.dropWhile (fun r => (q.objects r).isVisible t) ≠ [] := by
      rcases hb with ⟨b, hb, hvis⟩
      intro hnil
      simp [dropWhile_eq_nil_iff.mp hnil b hb] at hvis
    rcases h (before.dropWhile fun r => (q.objects r).isVisible t) r _ (by
      rw [heq, dropWhile_append, if_neg (mt List.isEmpty_iff.mp hne)]) hr with ⟨b, hb, hblocks⟩
    exact ⟨b, (dropWhile_sublist _).mem hb, hblocks⟩
  · intro h before r after heq hr
    -- what is left begins with a message that is not visible
    have hhead := head?_dropWhile_not (fun r => (q.objects r).isVisible t) q.inflight
    rw [heq] at hparts hhead
    cases before with
    | nil => exact absurd hr (by simpa using hhead)
    | cons first before =>
      rcases h _ r _ (by rw [append_assoc]; exact hparts) hr
        ⟨first, mem_append_right _ mem_cons_self, hhead⟩ with ⟨b, hb, hgroup, hvis⟩
      refine ⟨b, (mem_append.mp hb).resolve_left fun hb => ?_, hgroup, hvis⟩
      have := all_eq_true.mp all_takeWhile b hb
      simp [this] at hvis

/-- In every state that is reached, only messages of its own group keep an expired message in
    flight if and only if those that come after a message that is not visible come after one
    of their own group. -/
theorem own_group_blocks_iff (sha256 : String → String) (arn : String)
    (attributes : QueueAttributes) (deduplicationScope : String)
    (inputs : List (Op × (Nat → ℚ))) (t : ℚ) :
    let q := (drive (fun q (c : Op × (Nat → ℚ)) => q.step sha256 c.1 c.2)
      (init arn attributes deduplicationScope) inputs).1
    OwnGroupBlocks (q.requeueInflightMessages fun _ => t) t ↔ q.Ordered t :=
  ownGroupBlocks_requeue _ t

/-- A message of one group, with a long timeout, and one of another group. -/
def otherGroupInputs : List (Op × (Nat → ℚ)) :=
  [(putInto "a" "g", tick 0), (.receive 1 (some 100), tick 10), (putInto "b" "h", tick 20),
    (.receive 1 (some 10), tick 30)]

/-- The message of the other group stays in flight after its timeout. -/
theorem other_group_blocks :
    let q := (drive (fun q (c : Op × (Nat → ℚ)) => q.step id c.1 c.2)
      (init "arn" {} "queue") otherGroupInputs).1
    ¬OwnGroupBlocks (q.requeueInflightMessages fun _ => 60) 60 := by
  intro q h
  have hinflight : (q.requeueInflightMessages fun _ => 60).inflight = [0] ++ 1 :: [] := by
    decide +kernel
  rcases h [0] 1 [] hinflight (by decide +kernel) with ⟨b, hb, hgroup, -⟩
  rw [mem_singleton.mp hb] at hgroup
  revert hgroup
  decide +kernel

end LocalEmu.Sqs.FifoQueue
