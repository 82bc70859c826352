import LocalEmu.Base.Dict
import LocalEmu.Base.Text

/-!
# The Store of CloudTrail Events

Events are kept in a deque of bounded length, the newest first, with an index by their
request ids. A new event takes the place of the one with its request id, and when the
deque is full the oldest event goes. A query filters the events and returns a page of them;
the token of a page is the id of its last event.

## Main definitions

* `record`, `getByRequestId`, `reset`, `loadFromDisk`: What is done with them.
* `Filter`, `query`: Pages of events.
-/

namespace LocalEmu.CloudTrail

/-! ### Events -/

/-- A resource of an event. -/
structure Resource where
  resourceType : Option Text
  resourceName : Option Text
  deriving DecidableEq

abbrev EventId := { text : Text // text ≠ [] }

/-- An event, with the details that nothing here reads. -/
structure CloudTrailEvent (δ : Type) where
  eventId : EventId
  eventTime : Int
  eventSource : Text
  eventName : Text
  readOnly : Bool
  username : Text
  accessKeyId : Text
  resources : List Resource
  requestId : Text
  eventCategory : Text
  details : δ
  deriving DecidableEq

variable {δ : Type} [DecidableEq δ]

/-! ### The store -/

/-- `CloudTrailEventStore`, with the deque as a list. -/
structure CloudTrailEventStore (δ : Type) where
  events : List (CloudTrailEvent δ)
  byRequestId : Dict Text (CloudTrailEvent δ)
  maxEvents : Nat
  recordCountSinceSave : Nat

namespace CloudTrailEventStore

/-- `CloudTrailEventStore(max_events)`. -/
def new (maxEvents : Nat) : CloudTrailEventStore δ := ⟨[], .empty, maxEvents, 0⟩

def saveInterval : Nat := 100

/-- `events.appendleft(event)`, on a deque with a maximal length. -/
def appendleft (maxEvents : Nat) (event : CloudTrailEvent δ) (events : List (CloudTrailEvent δ)) :
    List (CloudTrailEvent δ) :=
  (event :: events).take maxEvents

variable (store : CloudTrailEventStore δ)

/-- The index entry of the oldest event is removed if the deque is full. -/
def unindexOldest : CloudTrailEventStore δ :=
  if store.events.length = store.maxEvents then
    match store.events.getLast? with
    | some oldest => { store with byRequestId := store.byRequestId.erase oldest.requestId }
    | none => store
  else store

variable (event : CloudTrailEvent δ)

/-- The event that the index has under the request id of a new one is removed. -/
def removeStale : CloudTrailEventStore δ :=
  if event.requestId = [] then store
  else
    match store.byRequestId.get? event.requestId with
    | some stale => { store with events := store.events.erase stale }
    | none => store

/-- An event is added to the deque and to the index. -/
def add : CloudTrailEventStore δ :=
  { store with
    events := appendleft store.maxEvents event store.events
    byRequestId :=
      if event.requestId = [] then store.byRequestId
      else store.byRequestId.set event.requestId event }

/-- `record`, with whether the events should be saved. -/
def record : Bool × CloudTrailEventStore δ :=
  let added := (store.unindexOldest.removeStale event).add event
  let count := store.recordCountSinceSave + 1
  if saveInterval ≤ count then (true, { added with recordCountSinceSave := 0 })
  else (false, { added with recordCountSinceSave := count })

def getByRequestId (requestId : Text) : Option (CloudTrailEvent δ) :=
  store.byRequestId.get? requestId

def reset : CloudTrailEventStore δ :=
  { store with events := [], byRequestId := .empty }

/-- `load_from_disk`, of a file with some events. -/
def loadFromDisk (eventsData : List (CloudTrailEvent δ)) : CloudTrailEventStore δ :=
  if 0 < store.events.length then store else eventsData.reverse.foldl add store

end CloudTrailEventStore

/-! ### Queries -/

/-- `val.lower()`, for what is compared with a Boolean. -/
def lower (value : Text) : Text := value.map Char.toLower

/-- `str(evt.read_only).lower()`. -/
def lowerBool (b : Bool) : Text := if b then "true".toList else "false".toList

/-- `_ATTRIBUTE_FILTERS`. -/
def attributeFilter (key value : Text) : Option (CloudTrailEvent δ → Bool) :=
  if key = "EventName".toList then some fun event => decide (event.eventName = value)
  else if key = "EventSource".toList then some fun event => decide (event.eventSource = value)
  else if key = "EventId".toList then some fun event => decide (event.eventId.1 = value)
  else if key = "ReadOnly".toList then
    some fun event => decide (lowerBool event.readOnly = lower value)
  else if key = "Username".toList then some fun event => decide (event.username = value)
  else if key = "ResourceType".toList then
    some fun event => event.resources.any fun r => decide (r.resourceType = some value)
  else if key = "ResourceName".toList then
    some fun event => event.resources.any fun r => decide (r.resourceName = some value)
  else if key = "AccessKeyId".toList then some fun event => decide (event.accessKeyId = value)
  else none

def validEventCategories : List Text :=
  ["Management".toList, "Data".toList, "Insight".toList]

/-- What events are looked up by. -/
structure Filter where
  startTime : Option Int
  endTime : Option Int
  lookupAttributes : List (Text × Text)
  eventCategory : Option Text

/-- What a query raises. -/
inductive QueryError
  | invalidLookupAttributes
  | invalidEventCategory
  | invalidNextToken
  deriving DecidableEq

def ofCategory (category : Option Text) (events : List (CloudTrailEvent δ)) :
    List (CloudTrailEvent δ) :=
  match category with
  | some category =>
    if category = [] then events
    else
      events.filter fun event =>
        decide ((if event.eventCategory = [] then "Management".toList else event.eventCategory) =
          category)
  | none => events

def ofTimes (startTime endTime : Option Int) (events : List (CloudTrailEvent δ)) :
    List (CloudTrailEvent δ) :=
  let fromStart := match startTime with
    | some start => events.filter fun event => decide (start ≤ event.eventTime)
    | none => events
  match endTime with
  | some stop => fromStart.filter fun event => decide (event.eventTime ≤ stop)
  | none => fromStart

def ofAttributes (attributes : List (Text × Text)) (events : List (CloudTrailEvent δ)) :
    List (CloudTrailEvent δ) :=
  attributes.foldl (fun events lookup =>
    match attributeFilter lookup.1 lookup.2 with
    | some filter => events.filter filter
    | none => events) events

def Filter.apply (filter : Filter) (events : List (CloudTrailEvent δ)) : List (CloudTrailEvent δ) :=
  ofAttributes filter.lookupAttributes
    (ofTimes filter.startTime filter.endTime (ofCategory filter.eventCategory events))

/-- The length of a page: `max_results`, if it is a number, between 1 and 50. -/
def clampMaxResults (maxResults : Option Int) : Nat := (max 1 (min 50 (maxResults.getD 50))).toNat

def offsetAfter (token : Text) : List (CloudTrailEvent δ) → Option Nat
  | [] => none
  | event :: events =>
    if event.eventId.1 = token then some 1 else (offsetAfter token events).map (· + 1)

def cursorOffset (nextToken : Option Text) (snapshot : List (CloudTrailEvent δ)) : Option Nat :=
  match nextToken with
  | some token => if token = [] then some 0 else offsetAfter token snapshot
  | none => some 0

def CloudTrailEventStore.query (store : CloudTrailEventStore δ) (filter : Filter)
    (maxResults : Option Int) (nextToken : Option Text) :
    Except QueryError (List (CloudTrailEvent δ) × Option EventId) :=
  if 1 < filter.lookupAttributes.length then .error .invalidLookupAttributes
  else if ∃ category ∈ filter.eventCategory, category ∉ validEventCategories then
    .error .invalidEventCategory
  else
    let snapshot := filter.apply store.events
    match cursorOffset nextToken snapshot with
    | none => .error .invalidNextToken
    | some offset =>
      let size := clampMaxResults maxResults
      let page := (snapshot.drop offset).take size
      let newToken := if offset + size < snapshot.length then
          page.getLast?.map CloudTrailEvent.eventId
        else none
      .ok (page, newToken)

end LocalEmu.CloudTrail
