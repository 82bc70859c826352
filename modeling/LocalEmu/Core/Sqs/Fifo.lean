import LocalEmu.Core.Sqs.Standard
import Mathlib.Data.Finset.Basic

/-!
# FIFO Queues

`FifoQueue`: one heap of visible messages for each message group, and a queue
of the groups that may be received from.

A group moves between three places. It waits in `messageGroupQueue` while it
may be received from; a `receive` that takes messages from it moves it to
`inflightGroups`; and it leaves that set for the queue again when one of its
messages comes back or when the last of its messages in flight is deleted.
A group in neither place has no messages. Nothing in the data structure says
so: the flags `previously_empty` and `receive_count` are what each operation
goes by.

De-duplication remembers the last enqueued message for each de-duplication
id, whatever its group.

The digest `put` falls back to is a parameter of the model.
-/

namespace LocalEmu.Sqs

def deduplicationIntervalInSec : ℚ := 5 * 60

/-- `FifoQueue`. A message group is known by its id, and a group without an
    entry in `messageGroups` is one that would be created empty on demand. -/
structure FifoQueue extends SqsQueue where
  deduplication : String → Option Ref
  messageGroups : Dict String (List Ref)
  inflightGroups : Finset String
  messageGroupQueue : List String
  deduplicationScope : String

namespace FifoQueue

def init (arn : String) (attributes : QueueAttributes) (deduplicationScope : String) :
    FifoQueue :=
  { SqsQueue.init arn attributes with
    deduplication := fun _ => none
    messageGroups := Dict.empty
    inflightGroups := ∅
    messageGroupQueue := []
    deduplicationScope := deduplicationScope }

variable (q : FifoQueue)

def group (g : String) : List Ref := q.messageGroups.getD g []

def setGroup (g : String) (heap : List Ref) : FifoQueue :=
  { q with messageGroups := q.messageGroups.set g heap }

variable (now : Nat → ℚ) (r : Ref)

/-- `message.message_group_id`. -/
def groupId : String :=
  (q.objects r).message.messageGroupId.getD ""

def putMessage : FifoQueue :=
  let g := q.groupId r
  let previouslyEmpty := (q.group g).isEmpty
  let q := q.setGroup g (Heapq.heappush q.priority (q.group g) r)
  -- A new message does not make a group visible that is in flight.
  if (q.objects r).receiveCount < 1 ∧ g ∈ q.inflightGroups then q
  -- A message that becomes visible again takes its group with it.
  else if g ∈ q.inflightGroups then
    { q with
      inflightGroups := q.inflightGroups.erase g
      messageGroupQueue := q.messageGroupQueue ++ [g] }
  else if previouslyEmpty then { q with messageGroupQueue := q.messageGroupQueue ++ [g] }
  else q

/-- Making a group visible again. -/
def updateMessageGroupVisibility (g : String) : FifoQueue :=
  if g ∈ q.inflightGroups then
    if q.inflight.any (fun r => q.groupId r == g) then q
    else
      let q := { q with inflightGroups := q.inflightGroups.erase g }
      if (q.group g).isEmpty then q
      else { q with messageGroupQueue := q.messageGroupQueue ++ [g] }
  else q

def onRemoveMessage : FifoQueue :=
  let q := { q with toSqsQueue := q.delInflight r }
  q.updateMessageGroupVisibility (q.groupId r)

def preDeleteChecks (h : ReceiptHandle) (now : ℚ) : Except SqsError Unit :=
  if (q.objects r).isVisible now then
    .error (.invalidParameterValue ("Value " ++ h.text ++ " for parameter ReceiptHandle is " ++
      "invalid. Reason: The receipt handle has expired."))
  else .ok ()

instance : QueueKind FifoQueue where
  base q := q.toSqsQueue
  setBase q b := { q with toSqsQueue := b }
  putMessage := putMessage
  onRemoveMessage := onRemoveMessage
  preDeleteChecks := preDeleteChecks

def isMessageDeduplicationIdRequired : Bool :=
  q.attributes.fifoQueue && !q.attributes.contentBasedDeduplication

/-- The de-duplication id `put` works with: the explicit one, or the digest of the body. -/
def effectiveDeduplicationId (sha256 : String → String) (q : FifoQueue) (message : Message)
    (messageDeduplicationId : Option String) : Option String :=
  if truthy messageDeduplicationId then messageDeduplicationId
  else if q.isMessageDeduplicationIdRequired then messageDeduplicationId
  else some (sha256 message.body)

/-- The message object `put` creates. -/
def newMessage (message : Message) (visibilityTimeout : Option Int)
    (dedupId messageGroupId : Option String) (sequenceNumber : Nat) (now : Nat → ℚ) :
    SqsMessage :=
  { SqsMessage.new (now 0) (now 1) message dedupId messageGroupId (some sequenceNumber) with
    visibilityTimeout := visibilityTimeout.getD q.attributes.visibilityTimeout
    delaySeconds := some q.attributes.delaySeconds }

/-- The de-duplication test: the remembered message is recent enough, and of
    the same group where the scope asks for it. -/
def isDuplicate (m : SqsMessage) (original : Ref) : Bool :=
  decide (m.priority < (q.objects original).priority + deduplicationIntervalInSec) &&
    (decide (q.deduplicationScope ≠ "messageGroup") ||
      decide (m.message.messageGroupId = (q.objects original).message.messageGroupId))

/-- Enqueue a message object that is no duplicate, and remember it. -/
def enqueue (dedupId : String) (m : SqsMessage) (now : ℚ) : FifoQueue :=
  let q' := { q with toSqsQueue := q.alloc m }
  let q' := if m.isDelayed now then { q' with toSqsQueue := q'.addDelayed q.nextRef }
    else q'.putMessage q.nextRef
  { q' with deduplication := Function.update q'.deduplication dedupId (some q.nextRef) }

/-- `FifoQueue.put`. The flag of the result says whether the message was enqueued. -/
def put (sha256 : String → String) (q : FifoQueue) (message : Message)
    (visibilityTimeout : Option Int) (messageDeduplicationId messageGroupId : Option String)
    (delaySeconds : Option Int) (sequenceNumber : Nat) (now : Nat → ℚ) :
    Except SqsError (FifoQueue × SqsMessage × Bool) :=
  if delaySeconds.getD 0 ≠ 0 then
    .error (.invalidParameterValue ("Value " ++ toString (delaySeconds.getD 0) ++
      " for parameter DelaySeconds is invalid. Reason: The request include parameter that is " ++
      "not valid for this queue type."))
  else if !truthy messageGroupId then
    .error (.missingRequiredParameter "The request must contain the parameter MessageGroupId.")
  else
    let dedupId := effectiveDeduplicationId sha256 q message messageDeduplicationId
    if !truthy dedupId then
      .error (.invalidParameterValue ("The queue should either have " ++
        "ContentBasedDeduplication enabled or MessageDeduplicationId provided explicitly"))
    else
      let m := q.newMessage message visibilityTimeout dedupId messageGroupId sequenceNumber now
      match q.deduplication (dedupId.getD "") with
      | some original =>
        if q.isDuplicate m original then
          .ok (q, { m with message := { m.message with
            messageId := q.messageId original } }, false)
        else .ok (q.enqueue (dedupId.getD "") m (now 2), m, true)
      | none => .ok (q.enqueue (dedupId.getD "") m (now 2), m, true)

/-- The loop of `FifoQueue.requeue_inflight_messages`: it stops at the first
    message that is still invisible. -/
def requeueLoop (now : Nat → ℚ) : List (Ref × Nat) → FifoQueue → FifoQueue
  | [], q => q
  | (r, i) :: rest, q =>
    if (q.objects r).isVisible (now i) then requeueLoop now rest (requeueMessage q r) else q

def requeueInflightMessages : FifoQueue :=
  requeueLoop now q.inflight.zipIdx q

/-- One round of `FifoQueue.remove_expired_messages`. -/
def removeExpiredGroup (s : FifoQueue × List Ref) (e : String × Nat) : FifoQueue × List Ref :=
  let x := removeExpiredMessagesFromHeap s.1.toSqsQueue (s.1.group e.1) (now e.2)
  (s.1.setGroup e.1 x.1, s.2 ++ x.2)

/-- `FifoQueue.remove_expired_messages`, with the messages it removes. -/
def removeExpiredMessages : FifoQueue × List Ref :=
  q.messageGroups.keys.zipIdx.foldl (removeExpiredGroup now) (q, [])

/-- The inner loop of `FifoQueue.receive`, over the messages of one group. -/
def collectGroup (numMessages visibilityTimeout : Int) (now : Nat → ℚ) (g : String) :
    Nat → Collected FifoQueue → Collected FifoQueue
  | 0, c => c
  | fuel + 1, c =>
    match Heapq.heappop c.queue.priority (c.queue.group g) with
    | none => c
    | some (r, rest) =>
      let t := Collected.take numMessages visibilityTimeout now
        { c with queue := c.queue.setGroup g rest } r
      if t.2 then t.1 else collectGroup numMessages visibilityTimeout now g fuel t.1

/-- The outer loop of `FifoQueue.receive`, over the groups waiting. -/
def collectGroups (numMessages visibilityTimeout : Int) (now : Nat → ℚ) :
    Nat → Collected FifoQueue → Collected FifoQueue
  | 0, c => c
  | fuel + 1, c =>
    match c.queue.messageGroupQueue with
    | [] => c
    | g :: waiting =>
      let q := { c.queue with messageGroupQueue := waiting }
      -- An empty group is dropped from the queue of groups.
      if (q.group g).isEmpty then
        collectGroups numMessages visibilityTimeout now fuel { c with queue := q }
      else
        let q := { q with inflightGroups := insert g q.inflightGroups }
        let c := collectGroup numMessages visibilityTimeout now g (q.group g).length
          { c with queue := q }
        if (c.successful.length : Int) = numMessages then c
        else collectGroups numMessages visibilityTimeout now fuel c

def receive (numMessages : Int) (visibilityTimeout : Option Int)
    (now : Nat → ℚ) : FifoQueue × ReceiveMessageResult :=
  deliverMessages (collectGroups numMessages
    (visibilityTimeout.getD q.attributes.visibilityTimeout) now q.messageGroupQueue.length
    (Collected.start q))

def clear : FifoQueue :=
  { q with
    toSqsQueue := q.toSqsQueue.clear
    deduplication := fun _ => none
    messageGroups := Dict.empty
    inflightGroups := ∅
    messageGroupQueue := [] }

end FifoQueue

end LocalEmu.Sqs
