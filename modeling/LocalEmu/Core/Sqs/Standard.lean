import LocalEmu.Core.Sqs.Queue

/-!
# Standard Queues

`StandardQueue`: one heap of visible messages, ordered by the time they were
put.

A message leaves the heap when it is received and comes back when its
visibility timeout ends, so it can be received again. Deleting goes by
receipt handle and works at any time, also with a handle of an earlier
delivery; a message that has gone back into the heap is then taken out of
the middle of it, and the heap is rebuilt.

The operations are atomic here, so the wait for a message on an empty queue
ends without one and does nothing.
-/

namespace LocalEmu.Sqs

/-- A string parameter that is present and not empty. -/
def truthy (s : Option String) : Bool :=
  match s with
  | none => false
  | some s => decide (s ≠ "")

/-- The queue. -/
structure StandardQueue extends SqsQueue where
  visible : List Ref

namespace StandardQueue

def init (arn : String) (attributes : QueueAttributes) : StandardQueue :=
  { SqsQueue.init arn attributes with visible := [] }

variable (q : StandardQueue)

def putMessage (r : Ref) : StandardQueue :=
  { q with visible := Heapq.heappush q.priority q.visible r }

/-- `StandardQueue._on_remove_message`: a message that is not in flight is
    searched for in the heap. -/
def onRemoveMessage (r : Ref) : StandardQueue :=
  if q.isInflight r then { q with toSqsQueue := q.delInflight r }
  else if q.visible.any (q.sameMessage r) then
    { q with visible := Heapq.heapify q.priority (q.visible.eraseP (q.sameMessage r)) }
  else q

instance : QueueKind StandardQueue where
  base q := q.toSqsQueue
  setBase q b := { q with toSqsQueue := b }
  putMessage := putMessage
  onRemoveMessage := onRemoveMessage
  preDeleteChecks _ _ _ _ := .ok ()

/-- The message object `put` creates. -/
def newMessage (message : Message) (visibilityTimeout : Option Int) (messageGroupId : Option String)
    (delaySeconds : Option Int) (now : Nat → ℚ) : SqsMessage :=
  { SqsMessage.new (now 0) (now 1) message none messageGroupId none with
    visibilityTimeout := visibilityTimeout.getD q.attributes.visibilityTimeout
    delaySeconds := some (delaySeconds.getD q.attributes.delaySeconds) }

def put (message : Message) (visibilityTimeout : Option Int)
    (messageDeduplicationId messageGroupId : Option String) (delaySeconds : Option Int)
    (now : Nat → ℚ) : Except SqsError (StandardQueue × SqsMessage) :=
  if truthy messageDeduplicationId then
    .error (.invalidParameterValue ("Value " ++ messageDeduplicationId.getD "" ++
      " for parameter MessageDeduplicationId is invalid. Reason: The request includes a " ++
      "parameter that is not valid for this queue type."))
  else
    let m := q.newMessage message visibilityTimeout messageGroupId delaySeconds now
    let q' := { q with toSqsQueue := q.alloc m }
    if m.isDelayed (now 2) then .ok ({ q' with toSqsQueue := q'.addDelayed q.nextRef }, m)
    else .ok (q'.putMessage q.nextRef, m)

/-- The loop of `StandardQueue.receive`. -/
def collect (numMessages visibilityTimeout : Int) (now : Nat → ℚ) :
    Nat → Collected StandardQueue → Collected StandardQueue
  | 0, c => c
  | fuel + 1, c =>
    match Heapq.heappop c.queue.priority c.queue.visible with
    | none => c
    | some (r, rest) =>
      let t := Collected.take numMessages visibilityTimeout now
        { c with queue := { c.queue with visible := rest } } r
      if t.2 then t.1 else collect numMessages visibilityTimeout now fuel t.1

def receive (numMessages : Int) (visibilityTimeout : Option Int)
    (now : Nat → ℚ) : StandardQueue × ReceiveMessageResult :=
  deliverMessages (collect numMessages
    (visibilityTimeout.getD q.attributes.visibilityTimeout) now q.visible.length
    (Collected.start q))

/-- `StandardQueue.remove_expired_messages`, with the messages it removes. -/
def removeExpiredMessages (now : ℚ) : StandardQueue × List Ref :=
  let s := removeExpiredMessagesFromHeap q.toSqsQueue q.visible now
  ({ q with visible := s.1 }, s.2)

end StandardQueue

end LocalEmu.Sqs
