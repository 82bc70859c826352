import Mathlib.Order.Basic

/-!
# Stream Pollers

A poller gets a batch of records of one shard, filters them and gives them to a
processor until it succeeds. If the processor names items that failed, those
before the lowest one are done and the others are tried again. Events that are
too old are set aside, and at the end they go to the dead-letter queue, or else
the events do for which no attempt is left.

A poller is a Kinesis or a DynamoDB poller, and what these two define is a
parameter. The clock, the processor and the flag for the shutdown are read once in
every turn of the loop, and what is read is a `Tick`. Times are in microseconds.

## Main definitions

* `bisectEvents`, `bisectEventsByRecordAge`, `maxRetriesExceeded`: The helpers of the loop.
* `Loop`, `StreamPoller.iterate`: One turn of the loop.
-/

namespace LocalEmu.Lambda

/-- What a call of the processor does. A report names its items by their
    identifiers, and an identifier may be missing. -/
inductive Outcome (η : Type)
  | success
  | partialFailure (payload : List (Option String)) (error : Option η)
  | batchFailure (error : Option η)
  | unexpectedError
  deriving DecidableEq

/-- What is read in one turn of the loop. -/
structure Tick (η : Type) where
  shutdown : Bool
  now : Int
  outcome : Outcome η

/-- The exceptions of `parse_batch_item_failures`. -/
inductive ParseError
  | keyError (message : String)
  | valueError (message : String)

variable (payload : List (Option String)) (validItemIds : List String)

def parseItem : Option String → Except ParseError String
  | none => .error (.keyError "missing itemIdentifier in batchItemFailure record")
  | some itemIdentifier =>
    if itemIdentifier = "" then .error (.valueError "itemIdentifier cannot be empty or null")
    else if validItemIds ≠ [] ∧ itemIdentifier ∉ validItemIds then
      .error (.keyError ("itemIdentifier '" ++ itemIdentifier ++ "' not in the batch"))
    else .ok itemIdentifier

def parseBatchItemFailures : Except ParseError (List String) :=
  payload.mapM (parseItem validItemIds)

/-- The items that a report names. -/
def getBatchItemFailures : Option (List String) :=
  (parseBatchItemFailures payload validItemIds).toOption

/-- `min` with a key: the first of those with the lowest key. -/
def minBy (key : String → Int) : List String → Option String
  | [] => none
  | first :: rest =>
    some (rest.foldl (fun lowest id => if key id < key lowest then id else lowest) first)

/-- The loop of `bisect_left`, for a list of the given length at most. -/
def bisectLeft (before : Nat → Bool) : Nat → Nat → Nat → Nat
  | 0, lo, _ => lo
  | length + 1, lo, hi =>
    if lo < hi then
      let mid := (lo + hi) / 2
      if before mid then bisectLeft before length (mid + 1) hi
      else bisectLeft before length lo mid
    else lo

/-- A poller: how it makes events from records, what it adds to them before and after the filter,
    and the parameters of the event source mapping. None of it changes the sequence number. -/
structure StreamPoller (ρ ε : Type) where
  recordNumber : ρ → String
  sequenceNumber : ε → String
  arrivalTime : ε → Int
  transformIntoEvent : ρ → ε
  /-- An event whose data cannot be parsed is dropped. -/
  preFilter : ε → Option ε
  /-- The filter patterns. -/
  filterPatterns : List (ε → Bool)
  postFilter : ε → ε
  addSourceMetadata : ε → ε
  maximumRetryAttempts : Int
  maximumRecordAgeInSeconds : Int
  /-- `int`. -/
  int : String → Int
  transform_number : ∀ record, sequenceNumber (transformIntoEvent record) = recordNumber record
  preFilter_number : ∀ event event', preFilter event = some event' →
    sequenceNumber event' = sequenceNumber event
  postFilter_number : ∀ event, sequenceNumber (postFilter event) = sequenceNumber event
  metadata_number : ∀ event, sequenceNumber (addSourceMetadata event) = sequenceNumber event

/-- Why events are sent to the dead-letter queue. -/
inductive AbortCondition
  | retryAttemptsExhausted
  | recordAgeExceeded

/-- The variables of the loop, and the calls of the processor so far. -/
structure Loop (ε η : Type) where
  events : List ε
  attempts : Nat
  discardedEventsForDlq : List ε
  errorPayload : Option η
  calls : List (List ε × Outcome η)

/-- How the loop is left. -/
inductive Ending
  | retryAttemptsExhausted
  | processed
  /-- The condition of the loop is false. -/
  | finished
  | assertionError
  deriving DecidableEq

/-- What is sent to the dead-letter queue. -/
structure DeadLetter (ε η : Type) where
  events : List ε
  abortCondition : AbortCondition
  error : Option η
  attemptsCount : Nat

/-- The calls of the processor and of `send_events_to_dlq`. -/
structure Forwarded (ε η : Type) where
  calls : List (List ε × Outcome η)
  deadLetter : Option (DeadLetter ε η)

namespace StreamPoller

variable {ρ ε η : Type} (poller : StreamPoller ρ ε)

/-- `filter_events`, with `any` over the patterns. -/
def filterEvents (events : List ε) : List ε :=
  if poller.filterPatterns.length = 0 then events
  else events.filter fun event => poller.filterPatterns.any fun pattern => pattern event

variable (records : List ρ)

def matchingEvents : List ε :=
  poller.filterEvents ((records.map poller.transformIntoEvent).filterMap poller.preFilter)

/-- The events of a batch that passed the filter, as the processor gets them. -/
def eventsOf : List ε :=
  ((poller.matchingEvents records).map poller.postFilter).map poller.addSourceMetadata

def maxRetriesExceeded (attempts : Nat) : Bool :=
  if poller.maximumRetryAttempts = -1 then false
  else decide (poller.maximumRetryAttempts < attempts)

/-- `bisect_events`: the events before the sequence number, and the others. -/
def bisectEvents (sequenceNumber : String) (events : List ε) : List ε × List ε :=
  (events.takeWhile fun event => decide (poller.sequenceNumber event ≠ sequenceNumber),
    events.dropWhile fun event => decide (poller.sequenceNumber event ≠ sequenceNumber))

/-- `bisect_events_by_record_age`: the valid events, and the expired ones. -/
def bisectEventsByRecordAge (maximumRecordAge now : Int) (events : List ε) : List ε × List ε :=
  let cutoff := now - maximumRecordAge * 1000000
  let index := bisectLeft (fun i => (events[i]?).any fun event =>
    decide (poller.arrivalTime event < cutoff)) events.length 0 events.length
  (events.drop index, events.take index)

/-- The valid and the expired events of a turn. An age of zero switches this off. -/
def splitByAge (now : Int) (events : List ε) : List ε × List ε :=
  let maxRecordAge := max poller.maximumRecordAgeInSeconds 0
  if maxRecordAge = 0 then (events, [])
  else poller.bisectEventsByRecordAge maxRecordAge now events

variable (validItemIds : List String) (s : Loop ε η)

/-- After a call of the processor: the next state of the loop, or how it is left. -/
def processed (outcome : Outcome η) : Loop ε η × Option Ending :=
  let called := { s with calls := s.calls ++ [(s.events, outcome)], attempts := s.attempts + 1 }
  match outcome with
  | .success => (called, some .processed)
  | .partialFailure payload error =>
    match getBatchItemFailures payload validItemIds with
    | none => ({ called with errorPayload := error }, none)
    | some failed =>
      match minBy poller.int failed with
      | none => ({ called with errorPayload := error }, some .assertionError)
      | some lowest =>
        ({ called with errorPayload := error, events := (poller.bisectEvents lowest s.events).2 },
          none)
  | .batchFailure error => ({ called with errorPayload := error }, none)
  | .unexpectedError => (called, none)

def iterate (tick : Tick η) : Loop ε η × Option Ending :=
  if s.events.length = 0 ∨ tick.shutdown then (s, some .finished)
  else if poller.maxRetriesExceeded s.attempts then (s, some .retryAttemptsExhausted)
  else
    let split := poller.splitByAge tick.now s.events
    if split.2.length ≠ 0 then
      ({ s with
        events := split.1
        discardedEventsForDlq := s.discardedEventsForDlq ++ split.2 }, none)
    else poller.processed validItemIds { s with events := split.1 } tick.outcome

/-- The loop. It has not ended if the ticks are used up. -/
def loop (validItemIds : List String) : Loop ε η → List (Tick η) → Option (Loop ε η × Ending)
  | _, [] => none
  | s, tick :: ticks =>
    match poller.iterate validItemIds s tick with
    | (s', some ending) => some (s', ending)
    | (s', none) => loop validItemIds s' ticks

/-- The variables before the loop. -/
def start (events : List ε) : Loop ε η := ⟨events, 0, [], none, []⟩

def finish (ending : Ending) : Forwarded ε η :=
  if s.discardedEventsForDlq.length ≠ 0 then
    ⟨s.calls, some ⟨s.discardedEventsForDlq, .recordAgeExceeded, none, s.attempts⟩⟩
  else if ending = .retryAttemptsExhausted then
    ⟨s.calls, some ⟨s.events, .retryAttemptsExhausted, s.errorPayload, s.attempts⟩⟩
  else ⟨s.calls, none⟩

/-- The sequence numbers that a report may name. -/
def batchSequenceNumbers : List String :=
  (poller.matchingEvents records).map poller.sequenceNumber

/-- `forward_events_to_target`. There is no result as long as the loop goes on, and
    none if the assertion fails. -/
def forwardEventsToTarget (ticks : List (Tick η)) : Option (Forwarded ε η) :=
  if (poller.eventsOf records).length = 0 then some ⟨[], none⟩
  else
    (poller.loop (poller.batchSequenceNumbers records) (start (poller.eventsOf records))
      ticks).bind fun result =>
        if result.2 = .assertionError then none else some (finish result.1 result.2)

end StreamPoller

end LocalEmu.Lambda
