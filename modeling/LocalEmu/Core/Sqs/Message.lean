import LocalEmu.Base.Dict
import LocalEmu.Base.Text
import Mathlib.Algebra.Order.Ring.Rat

/-!
# SQS Messages

The message objects the queues hold, and the errors the queue operations
raise.

`Message` is the dictionary a caller hands in: the fields of it some queue
operation reads or writes. `SqsMessage` is the queue's own object around that
dictionary, with the bookkeeping of deliveries. One dictionary can be wrapped
twice, since dead-lettering and move tasks pass the dictionary of a message
to another queue's `put`.

`time.time()` is an exact rational here. Every function that reads the clock
takes the reading as an argument, so a caller decides what the clock does
between two readings of one operation.
-/

namespace LocalEmu.Sqs

/-- The exceptions the queue operations raise, with their texts. -/
inductive SqsError
  | invalidParameterValue (message : String)
  | missingRequiredParameter (message : String)
  | receiptHandleIsInvalid (message : String)
  | queueDoesNotExist (message : String)
  | keyError (key : String)
  | notImplementedError (message : String)

/-- What `extract_receipt_handle_info` decodes from a receipt handle. The
    identifier is a fresh unique id for each handle. -/
structure ReceiptHandle where
  identifier : Nat
  queueArn : String
  messageId : String
  lastReceived : Option ℚ
  deriving DecidableEq

/-- The text a receipt handle is the encoding of. -/
def ReceiptHandle.text (h : ReceiptHandle) : String :=
  toString h.identifier ++ " " ++ h.queueArn ++ " " ++ h.messageId ++ " " ++
    (match h.lastReceived with
    | none => "None"
    | some t => toString t)

/-- The message dictionary, its system attributes flattened into fields. -/
structure Message where
  messageId : String
  body : String
  approximateReceiveCount : Nat := 0
  messageGroupId : Option String := none
  messageDeduplicationId : Option String := none
  sequenceNumber : Option Nat := none
  deadLetterQueueSourceArn : Option String := none
  deriving DecidableEq, Inhabited

/-- A message object of a queue. -/
structure SqsMessage where
  message : Message
  created : ℚ
  visibilityTimeout : Int
  receiveCount : Nat
  delaySeconds : Option Int
  receiptHandles : List ReceiptHandle
  lastReceived : Option ℚ
  firstReceived : Option ℚ
  visibilityDeadline : Option ℚ
  deleted : Bool
  priority : ℚ
  sequenceNumber : Option Nat
  deriving Inhabited

namespace SqsMessage

/-- `SqsMessage.__init__`. An attribute that is not given leaves whatever the
    dictionary already holds. -/
def new (priority created : ℚ) (message : Message) (messageDeduplicationId : Option String)
    (messageGroupId : Option String) (sequenceNumber : Option Nat) : SqsMessage :=
  { message := { message with
      messageGroupId := messageGroupId.orElse fun _ => message.messageGroupId
      messageDeduplicationId :=
        messageDeduplicationId.orElse fun _ => message.messageDeduplicationId
      sequenceNumber := sequenceNumber.orElse fun _ => message.sequenceNumber }
    created := created
    visibilityTimeout := 0
    receiveCount := 0
    delaySeconds := none
    receiptHandles := []
    lastReceived := none
    firstReceived := none
    visibilityDeadline := none
    deleted := false
    priority := priority
    sequenceNumber := sequenceNumber }

variable (m : SqsMessage)

def incrementApproximateReceiveCount : SqsMessage :=
  { m with message := { m.message with
      approximateReceiveCount := m.message.approximateReceiveCount + 1 } }

def setLastReceived (timestamp : ℚ) : SqsMessage :=
  { m with
    lastReceived := some timestamp
    visibilityDeadline := some (timestamp + m.visibilityTimeout) }

/-- `update_visibility_timeout`, with the clock reading it makes. -/
def updateVisibilityTimeout (timeout : Int) (now : ℚ) : SqsMessage :=
  { m with
    visibilityTimeout := timeout
    visibilityDeadline := some (now + timeout) }

/-- `is_visible` at the clock reading `now`. -/
def isVisible (now : ℚ) : Bool :=
  match m.visibilityDeadline with
  | none => true
  | some deadline => decide (deadline ≤ now)

/-- `is_delayed` at the clock reading `now`. -/
def isDelayed (now : ℚ) : Bool :=
  match m.delaySeconds with
  | none => false
  | some delay => decide (now ≤ m.created + delay)

/-- What both `receive` loops do to a message they take: count the delivery
    and restart its visibility timeout, reading the clock twice. -/
def markReceived (visibilityTimeout : Int) (now₀ now₁ : ℚ) : SqsMessage :=
  let m := { m with receiveCount := m.receiveCount + 1 }
  let m := m.updateVisibilityTimeout visibilityTimeout now₀
  let m := m.setLastReceived now₁
  { m with firstReceived := m.firstReceived.orElse fun _ => m.lastReceived }

end SqsMessage

/-! ### Message attributes -/

variable {ν : Type}

/-- The part of a requested name before `.*`, if it has one. -/
def filterPrefix? (name : Text) : Option Text := Text.before ['.', '*'] name

/-- The loop over the prefixes. It ends after the first of them. -/
def matchPrefixes (k : Text) (matched : List Text) : List Text → List Text
  | [] => matched
  | first :: _ => if first <+: k then matched ++ [k] else matched

/-- One round of the loop over the attributes. -/
def matchAttribute (keys prefixes matched : List Text) (k : Text) : List Text :=
  if k ∈ keys then matched ++ [k] else matchPrefixes k matched prefixes

/-- `message_filter_message_attributes`, on the entry `MessageAttributes` of the message. -/
def messageFilterMessageAttributes (messageAttributes : Option (Dict Text ν))
    (names : List Text) : Option (Dict Text ν) :=
  match messageAttributes with
  | none => none
  | some attributes =>
    if attributes.entries.isEmpty then some attributes
    else if names.isEmpty then none
    else if "All".toList ∈ names ∨ ".*".toList ∈ names ∨ "*".toList ∈ names then some attributes
    else
      let keys := names.filter fun name => (filterPrefix? name).isNone
      let prefixes := names.filterMap filterPrefix?
      let matched := attributes.keys.foldl (matchAttribute keys prefixes) []
      if matched.isEmpty then none
      else some (Dict.ofEntries
        (matched.filterMap fun k => (attributes.get? k).map fun value => (k, value)))

end LocalEmu.Sqs
