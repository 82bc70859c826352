import LocalEmu.Base.Dict
import LocalEmu.Base.JsonText

/-!
# SQS Pollers

A poller receives a batch of messages, filters them, gives what is left to a
processor and deletes what is done. The filters read a body as a JSON value,
and afterwards it is made into a text again.

A loop over the messages raises if one of its turns does, and none of them has
an effect before that, so the three loops of `handle_messages` are one here.
-/

namespace LocalEmu.Lambda

/-- What `json.loads` does. It may raise something else than `JSONDecodeError`, where
    the nesting is too deep or an integer has too many digits. -/
inductive Loaded (F : Type)
  | value (v : JsonValue F)
  | decodeError
  | raised

/-- `json`, and the floats that are zero. What is loaded can be dumped. -/
structure Library (F : Type) where
  loads : Text → Loaded F
  dumps : JsonValue F → Text
  isZero : F → Bool

/-- A message. Outside of FIFO queues its group is not read. -/
structure Message where
  messageId : Text
  receiptHandle : Text
  body : Option Text
  messageGroupId : Text
  md5OfBody : Text
  deriving DecidableEq

/-- The event of a message. Everything but the body is copied from it. -/
structure Event (β : Type) where
  message : Message
  body : β
  deriving DecidableEq

/-- What `process_events_batch` does. -/
inductive Processed (F : Type)
  | success
  | partialBatchFailure (payload : JsonValue F)
  | exception

/-- A poller. No two calls are for the same events, so that the processor is a
    function of them. `matchesEvent` is `none` where a filter raises. -/
structure SqsPoller (F : Type) where
  library : Library F
  isFifoQueue : Bool
  matchesEvent : Event (JsonValue F) → Option Bool
  processor : List (Event Text) → Processed F

/-- What `handle_messages` did: the messages that it deleted, the events that it
    gave to the processor, and whether it raised. -/
structure Handled where
  deleted : List Message
  call : Option (List (Event Text))
  raised : Bool

/-- `transform_into_events`, for one message. -/
def transformIntoEvent (message : Message) : Event Text :=
  ⟨message, message.body.getD "MessageBody".toList⟩

/-- The messages that `delete_messages` deletes. -/
def deleteMessages (messages : List Message) (ids : List Text) : List Message :=
  messages.filter fun message => decide (message.messageId ∈ ids)

def batched {α : Type} (n : Nat) (l : List α) : List (List α) :=
  (List.range ((l.length + n - 1) / n)).map fun i => (l.drop (n * i)).take n

namespace SqsPoller

variable {F : Type} (p : SqsPoller F)

/-- `bool` of a JSON value. -/
def truthy : JsonValue F → Bool
  | .null => false
  | .bool b => b
  | .int n => n != 0
  | .float x => !p.library.isZero x
  | .str s => !s.isEmpty
  | .arr items => !items.isEmpty
  | .obj members => !members.isEmpty

variable (validItemIds : List Text)

/-- The identifier of a failed item, in a batch that is not empty. -/
def itemIdentifier : JsonValue F → Option Text
  | .obj members =>
    match members.lookup "itemIdentifier".toList with
    | some (.str id) => if id ≠ [] ∧ id ∈ validItemIds then some id else none
    | _ => none
  | _ => none

/-- The failed items of a document that was read. -/
def batchItemFailures (document : JsonValue F) : Option (List Text) :=
  if p.truthy document then
    match document with
    | .obj members =>
      match members.lookup "batchItemFailures".toList with
      | none => some []
      | some (.arr items) => items.mapM (itemIdentifier validItemIds)
      | some v => if p.truthy v then none else some []
    | _ => none
  else some []

/-- `parse_batch_item_failures`, or `none` if it raises. -/
def parseBatchItemFailures (result : JsonValue F) : Option (List Text) :=
  if p.truthy result then
    match result with
    | .obj _ => p.batchItemFailures validItemIds result
    | .str text =>
      match p.library.loads text with
      | .value document => p.batchItemFailures validItemIds document
      | _ => none
    | _ => none
  else some []

/-- The body as JSON, or as it is if it is not. -/
def readBody (event : Event Text) : Option (Event (JsonValue F)) :=
  match p.library.loads event.body with
  | .value v => some ⟨event.message, v⟩
  | .decodeError => some ⟨event.message, .str event.body⟩
  | .raised => none

def writeBody (event : Event (JsonValue F)) : Event Text :=
  match event.body with
  | .str s => ⟨event.message, s⟩
  | v => ⟨event.message, p.library.dumps v⟩

/-- The event that is left of a message, if it matches. -/
def inspect (message : Message) : Option (Option (Event Text)) :=
  (p.readBody (transformIntoEvent message)).bind fun event =>
    (p.matchesEvent event).map fun b => if b then some (p.writeBody event) else none

variable (messages : List Message)

/-- The matching events, or `none` if a body cannot be read or a filter raises. -/
def matchingEvents : Option (List (Event Text)) :=
  (messages.mapM p.inspect).map fun events => events.filterMap id

/-- What is deleted of the messages of one call. -/
def handleMessages : Handled :=
  match p.matchingEvents messages with
  | none => ⟨[], none, true⟩
  | some events =>
    let allIds := messages.map Message.messageId
    let matchingIds := events.map fun event => event.message.messageId
    let discarded :=
      deleteMessages messages (allIds.filter fun id => decide (id ∉ matchingIds))
    if events.isEmpty then ⟨discarded, none, false⟩
    else
      match p.processor events with
      | .success => ⟨discarded ++ deleteMessages messages allIds, some events, false⟩
      | .exception => ⟨discarded, some events, true⟩
      | .partialBatchFailure payload =>
        match p.parseBatchItemFailures matchingIds payload with
        | none => ⟨discarded, some events, true⟩
        | some failed =>
          ⟨discarded ++ deleteMessages messages
            (matchingIds.filter fun id => decide (id ∉ failed)), some events, false⟩

def groupsOf (batch : List Message) : List (List Message) :=
  if p.isFifoQueue then (Dict.group Message.messageGroupId batch).values else [batch]

/-- The calls for the groups of a batch. What one of them raises ends the loop. -/
def handleGroups : List (List Message) → List Handled
  | [] => []
  | group :: groups =>
    p.handleMessages group ::
      if (p.handleMessages group).raised then [] else handleGroups groups

/-- `poll_events`, for the messages that were received. -/
def pollEvents : List Handled :=
  (batched 2500 messages).flatMap fun batch => p.handleGroups (p.groupsOf batch)

end SqsPoller

end LocalEmu.Lambda
