import LocalEmu.Base.Heapq
import LocalEmu.Core.Sqs.Message

/-!
# The Base Queue

`SqsQueue` and the operations both queue types inherit from it.

A queue refers to its message objects, and the same object sits in a heap, in
`inflight`, and behind every receipt handle ever given out for it. The model
keeps the objects in one place, `objects`, and lets the containers hold
references into it, so that an update made through one container is seen
through the others. Containers compare messages the way `SqsMessage.__eq__`
does, by message id and not by reference.

`delayed` is a set. Python iterates it in hash order, so the operation that
iterates it takes the order as an argument. `inflight` is a dictionary used
as an ordered set, so its list is in insertion order.

Two methods are overridden by the queue types and called by the inherited
operations. `QueueKind` lists them, and the operations are written against
it.
-/

namespace LocalEmu.Sqs

/-- A reference to a message object of a queue. -/
abbrev Ref := Nat

/-- The parsed redrive policy of a queue. -/
structure RedrivePolicy where
  deadLetterTargetArn : Option String
  maxReceiveCount : Int
  deriving DecidableEq

/-- The queue attributes the operations read, as the properties of the base class parse them. -/
structure QueueAttributes where
  visibilityTimeout : Int := 30
  delaySeconds : Int := 0
  messageRetentionPeriod : Int := 345600
  redrivePolicy : Option RedrivePolicy := none
  contentBasedDeduplication : Bool := false
  fifoQueue : Bool := false

/-- The base queue. -/
structure SqsQueue where
  arn : String
  attributes : QueueAttributes
  /-- The message objects created by this queue. -/
  objects : Ref → SqsMessage
  /-- The next unused reference. -/
  nextRef : Ref
  delayed : List Ref
  inflight : List Ref
  receipts : ReceiptHandle → Option Ref
  /-- The next unused receipt handle identifier. -/
  nextUid : Nat

namespace SqsQueue

def init (arn : String) (attributes : QueueAttributes) : SqsQueue :=
  { arn := arn
    attributes := attributes
    objects := fun _ => default
    nextRef := 0
    delayed := []
    inflight := []
    receipts := fun _ => none
    nextUid := 0 }

variable (q : SqsQueue)

def maxReceiveCount : Option Int :=
  q.attributes.redrivePolicy.map RedrivePolicy.maxReceiveCount

/-- The test `max_receive_count and message.receive_count > max_receive_count`:
    a policy of zero counts as no policy. -/
def exceedsMaxReceiveCount (m : SqsMessage) : Bool :=
  match q.maxReceiveCount with
  | none => false
  | some n => decide (n ≠ 0 ∧ n < m.receiveCount)

variable (r : Ref)

def priority : ℚ := (q.objects r).priority

def messageId : String := (q.objects r).message.messageId

/-- `SqsMessage.__eq__`. -/
def sameMessage (r' : Ref) : Bool := q.messageId r == q.messageId r'

def modify (f : SqsMessage → SqsMessage) : SqsQueue :=
  { q with objects := Function.update q.objects r (f (q.objects r)) }

/-- Create a message object. Its reference is the `nextRef` of before. -/
def alloc (m : SqsMessage) : SqsQueue :=
  { q with objects := Function.update q.objects q.nextRef m, nextRef := q.nextRef + 1 }

/-- `message in self.inflight`. -/
def isInflight : Bool := q.inflight.any (q.sameMessage r)

/-- `add_inflight_message`: assigning an existing key keeps the key. -/
def addInflightMessage : SqsQueue :=
  if q.isInflight r then q else { q with inflight := q.inflight ++ [r] }

/-- `del self.inflight[message]`. -/
def delInflight : SqsQueue :=
  { q with inflight := q.inflight.eraseP (q.sameMessage r) }

/-- `self.delayed.add(message)`. -/
def addDelayed : SqsQueue :=
  if q.delayed.any (q.sameMessage r) then q else { q with delayed := q.delayed ++ [r] }

/-- `self.delayed.remove(message)`. -/
def removeDelayed : SqsQueue :=
  { q with delayed := q.delayed.eraseP (q.sameMessage r) }

def validateReceiptHandle (h : ReceiptHandle) : Except SqsError Unit :=
  if q.arn ≠ h.queueArn then
    .error (.receiptHandleIsInvalid ("The input receipt handle \"" ++ h.text ++
      "\" is not a valid receipt handle."))
  else .ok ()

/-- Create a receipt handle for a received message and register it with the
    message and with the queue. -/
def registerReceiptHandle : SqsQueue × ReceiptHandle :=
  let h : ReceiptHandle :=
    { identifier := q.nextUid
      queueArn := q.arn
      messageId := q.messageId r
      lastReceived := (q.objects r).lastReceived }
  let q := q.modify r fun m => { m with receiptHandles := m.receiptHandles ++ [h] }
  ({ q with
      receipts := Function.update q.receipts h (some r)
      nextUid := q.nextUid + 1 }, h)

/-- Forget every receipt handle of a message. -/
def dropReceiptHandles : SqsQueue :=
  let handles := (q.objects r).receiptHandles
  let q := { q with receipts := fun h => if h ∈ handles then none else q.receipts h }
  q.modify r fun m => { m with receiptHandles := [] }

def clear : SqsQueue :=
  { q with inflight := [], delayed := [], receipts := fun _ => none }

end SqsQueue

/-- What the inherited operations need of a queue type: its base part, and
    the methods it overrides. -/
class QueueKind (Q : Type) where
  /-- The base part. -/
  base : Q → SqsQueue
  /-- Replace the base part. -/
  setBase : Q → SqsQueue → Q
  /-- `_put_message`. -/
  putMessage : Q → Ref → Q
  /-- `_on_remove_message`. -/
  onRemoveMessage : Q → Ref → Q
  /-- `_pre_delete_checks` at a clock reading. -/
  preDeleteChecks : Q → Ref → ReceiptHandle → ℚ → Except SqsError Unit

open QueueKind

variable {Q : Type} [QueueKind Q]

/-- Take a message out of `inflight` and put it into the queue. -/
def requeueMessage (q : Q) (r : Ref) : Q :=
  putMessage (setBase q ((base q).delInflight r)) r

/-- Take a message out of `delayed` and put it into the queue. -/
def enqueueDelayedMessage (q : Q) (r : Ref) : Q :=
  putMessage (setBase q ((base q).removeDelayed r)) r

def updateVisibilityTimeout (q : Q) (h : ReceiptHandle) (visibilityTimeout : Int) (now : ℚ) :
    Except SqsError Q := do
  (base q).validateReceiptHandle h
  match (base q).receipts h with
  | none =>
    .error (.invalidParameterValue ("Value " ++ h.text ++ " for parameter ReceiptHandle is " ++
      "invalid. Reason: Message does not exist or is not available for visibility timeout " ++
      "change."))
  | some r =>
    if (base q).isInflight r then
      let q := setBase q ((base q).modify r
        fun m => m.updateVisibilityTimeout visibilityTimeout now)
      -- Zero terminates the visibility timeout at once.
      if visibilityTimeout = 0 then .ok (requeueMessage q r) else .ok q
    else .ok q

/-- `remove`. The result names the message the handle belonged to, if any. -/
def remove (q : Q) (h : ReceiptHandle) (now : ℚ) : Except SqsError (Q × Option Ref) := do
  (base q).validateReceiptHandle h
  match (base q).receipts h with
  | none => .ok (q, none)
  | some r =>
    preDeleteChecks q r h now
    let q := setBase q ((base q).modify r fun m => { m with deleted := true })
    let q := setBase q ((base q).dropReceiptHandles r)
    .ok (onRemoveMessage q r, some r)

/-- The messages `[m for m in messages if test m]`, the clock being read once for each. -/
def selectAt (now : Nat → ℚ) (test : Ref → ℚ → Bool) (messages : List Ref) : List Ref :=
  (messages.zipIdx.filter fun e => test e.1 (now e.2)).map Prod.fst

/-- `requeue_inflight_messages` of the base class. -/
def requeueInflightMessages (q : Q) (now : Nat → ℚ) : Q :=
  (selectAt now (fun r t => ((base q).objects r).isVisible t) (base q).inflight).foldl
    requeueMessage q

/-- `enqueue_delayed_messages`, with the order in which the set is iterated. -/
def enqueueDelayedMessages (q : Q) (order : List Ref) (now : Nat → ℚ) : Q :=
  (selectAt now (fun r t => !((base q).objects r).isDelayed t) order).foldl
    enqueueDelayedMessage q

structure ReceiveMessageResult where
  successful : List Ref
  receiptHandles : List ReceiptHandle
  deadLetterMessages : List Ref

/-- The state of a `receive` loop: the queue, the messages taken so far, and
    how often the clock has been read. -/
structure Collected (Q : Type) where
  queue : Q
  successful : List Ref
  deadLetterMessages : List Ref
  reads : Nat

/-- A `receive` loop before its first round. -/
def Collected.start {Q : Type} (q : Q) : Collected Q :=
  { queue := q, successful := [], deadLetterMessages := [], reads := 0 }

/-- What both `receive` loops do with a message they have taken off the queue. The flag says that
    the loop has all the messages it wants, which is checked only after a successful one. The clock
    reading that shortens the remaining wait is not represented. -/
def Collected.take (numMessages visibilityTimeout : Int) (now : Nat → ℚ) (c : Collected Q)
    (r : Ref) : Collected Q × Bool :=
  if ((base c.queue).objects r).deleted then (c, false)
  else
    let b := (base c.queue).modify r
      fun m => m.markReceived visibilityTimeout (now c.reads) (now (c.reads + 1))
    if b.exceedsMaxReceiveCount (b.objects r) then
      ({ queue := setBase c.queue b
         successful := c.successful
         deadLetterMessages := c.deadLetterMessages ++ [r]
         reads := c.reads + 2 }, false)
    else
      ({ queue := setBase c.queue (b.modify r SqsMessage.incrementApproximateReceiveCount)
         successful := c.successful ++ [r]
         deadLetterMessages := c.deadLetterMessages
         reads := c.reads + 2 },
        decide (((c.successful ++ [r]).length : Int) = numMessages))

/-- Hand one received message over: give it a receipt handle, and put it back
    at once if its visibility timeout is zero. -/
def deliverMessage (s : Q × List ReceiptHandle) (r : Ref) : Q × List ReceiptHandle :=
  let registered := (base s.1).registerReceiptHandle r
  let q := setBase s.1 registered.1
  if ((base q).objects r).visibilityTimeout = 0 then (putMessage q r, s.2 ++ [registered.2])
  else (setBase q ((base q).addInflightMessage r), s.2 ++ [registered.2])

/-- The second half of both `receive` methods. -/
def deliverMessages (c : Collected Q) : Q × ReceiveMessageResult :=
  let s := c.successful.foldl deliverMessage (c.queue, [])
  (s.1, { successful := c.successful
          receiptHandles := s.2
          deadLetterMessages := c.deadLetterMessages })

/-- The loop of `remove_expired_messages_from_heap`. -/
def removeExpiredLoop (q : SqsQueue) (threshold : ℚ) : Nat → List Ref → List Ref × List Ref
  | 0, heap => (heap, [])
  | fuel + 1, heap =>
    match Heapq.heappop q.priority heap with
    | none => (heap, [])
    | some (message, rest) =>
      if threshold < (q.objects message).created then (heap, [])
      else ((removeExpiredLoop q threshold fuel rest).1,
        message :: (removeExpiredLoop q threshold fuel rest).2)

/-- `remove_expired_messages_from_heap`: the heap that is left and the
    expired messages, in the order they were taken. -/
def removeExpiredMessagesFromHeap (q : SqsQueue) (heap : List Ref) (now : ℚ) :
    List Ref × List Ref :=
  removeExpiredLoop q (now - q.attributes.messageRetentionPeriod) heap.length heap

end LocalEmu.Sqs
