import LocalEmu.Base.Dict
import LocalEmu.Base.Text

/-!
# Event Archives

An event that is put on a bus is formatted, and an archive of the bus keeps it
under its identifier. A replay gets the events of a window from the archive, makes
entries of them again and puts these on the bus.

The time of an event is a point in time or a text. Points in time are in
microseconds. A value of the wrong kind makes the code raise, which is `none`.
-/

namespace LocalEmu.Events

/-- A `datetime` in UTC, or a `str`. -/
inductive EventTime
  | datetime (t : Int)
  | text (s : Text)
  deriving DecidableEq

/-- What a trace header says about the event it comes from. -/
structure Origin where
  originalId : Option Text
  originalRegion : Option Text
  originalAccount : Option Text

/-- `json`, and `strftime` with the format of the time of an event. A trace header
    that is not JSON has an empty origin, and one that is not an object none. -/
structure EventLibrary (V : Type) where
  loads : Text → Option V
  dumps : V → Text
  strftime : Int → Text
  origin : Text → Option Origin

structure PutEventsRequestEntry where
  source : Option Text
  detailType : Option Text
  detail : Option Text
  resources : Option (List Text)
  time : Option EventTime
  eventBusName : Option Text
  traceHeader : Option Text
  replayName : Option Text

structure FormattedEvent (V : Type) where
  id : Text
  detailType : Option Text
  source : Option Text
  account : Text
  time : EventTime
  region : Text
  resources : List Text
  detail : V
  eventBusName : Text
  replayName : Option Text

/-- `get_event_time`. A text has no `replace` with a time zone. -/
def getEventTime (now : Int) (event : PutEventsRequestEntry) : Option Int :=
  match event.time with
  | none | some (.text []) => some now
  | some (.text _) => none
  | some (.datetime t) => some t

variable {V : Type} (lib : EventLibrary V)

def originOf (event : PutEventsRequestEntry) : Option Origin :=
  match event.traceHeader with
  | none | some [] => some ⟨none, none, none⟩
  | some header => lib.origin header

/-- `format_event`, given the time and a new identifier. -/
def formatEvent (now : Int) (uid : Text) (event : PutEventsRequestEntry)
    (region accountId eventBusName : Text) : Option (FormattedEvent V) :=
  (originOf lib event).bind fun message =>
  (getEventTime now event).bind fun eventTime =>
  (lib.loads (event.detail.getD ['\x7b', '\x7d'])).map fun detail =>
    { id := message.originalId.getD uid
      detailType := event.detailType
      source := event.source
      account := message.originalAccount.getD accountId
      time := .text (lib.strftime eventTime)
      region := message.originalRegion.getD region
      resources := event.resources.getD []
      detail := detail
      eventBusName := eventBusName
      replayName := event.replayName.filter (· ≠ []) }

/-- `re_format_event`. The name of a replay is looked up under another key. -/
def reFormatEvent (event : FormattedEvent V) (eventBusName : Text) :
    Option PutEventsRequestEntry :=
  if event.replayName.isSome then none
  else
    some
      { source := event.source
        detailType := event.detailType
        detail := some (lib.dumps event.detail)
        resources := if event.resources.isEmpty then none else some event.resources
        time := some event.time
        eventBusName := if eventBusName.isEmpty then none else some eventBusName
        traceHeader := none
        replayName := none }

/-- `re_format_events_from_archive`, for one event. -/
def reFormatEventsFromArchive (event : FormattedEvent V) (eventBusName replayName : Text) :
    Option PutEventsRequestEntry :=
  (reFormatEvent lib event eventBusName).map fun entry => { entry with replayName := replayName }

/-- The events of an archive. -/
structure Archive (V : Type) where
  events : Dict Text (FormattedEvent V)

def normalizeDatetime (t : Int) : Int := t - t % 60000000

namespace Archive

def putEvents (archive : Archive V) (events : List (FormattedEvent V)) : Archive V :=
  ⟨events.foldl (fun stored event => stored.set event.id event) archive.events⟩

/-- `_normalize_datetime` of the time of an event. A text has no `replace` with seconds. -/
def normalizedTime (event : FormattedEvent V) : Option Int :=
  match event.time with
  | .datetime t => some (normalizeDatetime t)
  | .text _ => none

def getEvents (archive : Archive V) (startTime endTime : Int) :
    Option (List (FormattedEvent V)) :=
  (archive.events.values.mapM fun event => (normalizedTime event).map fun t =>
    if normalizeDatetime startTime ≤ t ∧ t ≤ normalizeDatetime endTime then [event] else []).map
    List.flatten

end Archive

end LocalEmu.Events
