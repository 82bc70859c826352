import LocalEmu.Base.Run

/-!
# Event Histories Of Executions

All environments of an execution add their events to one history. Each environment has a
context with the id of the event its next one follows. A frame starts with the source event
of the environment that opens it, and closing the frame merges its context back.

An event manager adds one event at a time, under a lock. Environments open and close their
frames one at a time too, each under a lock of its own, but to merge two contexts is not
under the lock of the manager: each access to a context is a step, and what the threads do
comes in any order.
-/

namespace LocalEmu.StepFunctions

/-- The two ids of a context. -/
inductive ContextField
  | sourceEventId
  | lastPublishedEventId
  deriving DecidableEq

structure EventHistoryContext where
  sourceEventId : Nat
  lastPublishedEventId : Nat
  deriving DecidableEq

namespace EventHistoryContext

/-- `EventHistoryContext(previous_event_id)`. -/
def new (previousEventId : Nat) : EventHistoryContext := ⟨previousEventId, previousEventId⟩

def ofProgramStart : EventHistoryContext := new 0

def get (context : EventHistoryContext) : ContextField → Nat
  | .sourceEventId => context.sourceEventId
  | .lastPublishedEventId => context.lastPublishedEventId

def set (context : EventHistoryContext) (field : ContextField) (value : Nat) :
    EventHistoryContext :=
  match field with
  | .sourceEventId => { context with sourceEventId := value }
  | .lastPublishedEventId => { context with lastPublishedEventId := value }

end EventHistoryContext

structure HistoryEvent (τ δ : Type) where
  eventDetails : Option δ
  id : Nat
  previousEventId : Nat
  type : τ
  timestamp : Int
  deriving DecidableEq

/-- The arguments of `add_event`, with the context named by its environment, and the current
    time. -/
structure AddEvent (τ δ : Type) where
  env : Nat
  eventType : τ
  eventDetails : Option δ
  timestamp : Option Int
  updateSourceEventId : Bool
  now : Int
  deriving DecidableEq

/-- What `add_event` does next. -/
inductive AddPhase
  | writeLastPublished
  | writeSource
  | publish
  deriving DecidableEq

/-- A call of `add_event` that holds the lock, with the id it took from the generator and the
    source event id it read. -/
structure Adding (τ δ : Type) where
  call : AddEvent τ δ
  eventId : Nat
  sourceEventId : Nat
  phase : AddPhase
  deriving DecidableEq

namespace Adding

variable {τ δ : Type}

def createHistoryEvent (adding : Adding τ δ) : HistoryEvent τ δ :=
  { eventDetails := adding.call.eventDetails
    id := adding.eventId
    previousEventId := adding.sourceEventId
    type := adding.call.eventType
    timestamp := adding.call.timestamp.getD adding.call.now }

end Adding

/-- What `integrate` does next: for each of the two fields, read the own value, read the
    other one and write the greater of both. -/
inductive IntegratePhase
  | readOwn (field : ContextField)
  | readOther (field : ContextField) (own : Nat)
  | write (field : ContextField) (value : Nat)
  deriving DecidableEq

/-- A call of `close_frame` that integrates the context of a frame into that of the environment. -/
structure Integration where
  env : Nat
  frame : Nat
  phase : IntegratePhase
  deriving DecidableEq

/-- The environments of an execution, by their numbers. The environment of the execution
    itself has the number 0. -/
structure Histories (τ δ : Type) where
  contexts : List EventHistoryContext
  frames : List (Nat × Nat)
  nextId : Nat
  historyEventList : List (HistoryEvent τ δ)
  adding : Option (Adding τ δ)
  integrating : List Integration
  deriving DecidableEq

/-- A step of one of the threads. -/
inductive HistoryStep (τ δ : Type)
  | addEvent (call : AddEvent τ δ)
  | continueAdd
  | openFrame (env : Nat)
  | openInnerFrame (env : Nat)
  | closeFrame (env frame : Nat)
  | continueIntegrate (index : Nat)
  | deleteFrame (env frame : Nat)
  | abort (env : Nat)
  | adoptPublished (env frame : Nat)

namespace Histories

variable {τ δ : Type}

/-- An execution before its first event. -/
def initial : Histories τ δ := ⟨[.ofProgramStart], [], 1, [], none, []⟩

variable (w : Histories τ δ) (env : Nat)

/-- Write a field of the context of an environment. -/
def write (field : ContextField) (value : Nat) : Histories τ δ :=
  { w with contexts := w.contexts.modify env fun context => context.set field value }

/-- Some thread is in `open_frame` or `close_frame` of an environment. -/
def locked : Bool :=
  w.integrating.any fun integration => integration.env == env

/-- `add_event`, up to the reading of the source event id. -/
def addEvent (call : AddEvent τ δ) : Option (Histories τ δ) :=
  match w.adding, w.contexts[call.env]? with
  | none, some context =>
    some { w with
      nextId := w.nextId + 1
      adding := some ⟨call, w.nextId, context.sourceEventId, .writeLastPublished⟩ }
  | _, _ => none

/-- `add_event`, one step further. -/
def continueAdd : Option (Histories τ δ) :=
  w.adding.map fun adding =>
    match adding.phase with
    | .writeLastPublished =>
      { w.write adding.call.env .lastPublishedEventId adding.eventId with
        adding := some { adding with phase := .writeSource } }
    | .writeSource =>
      { (if adding.call.updateSourceEventId then
          w.write adding.call.env .sourceEventId adding.eventId
        else w) with
        adding := some { adding with phase := .publish } }
    -- The lock is released, and the next event may be added.
    | .publish =>
      { w with
        historyEventList := w.historyEventList ++ [adding.createHistoryEvent]
        adding := none }

/-- `as_inner_frame_of`: the context of the frame extends the source event. -/
def asInnerFrameOf : Option (Histories τ δ) :=
  if w.locked env then none
  else
    w.contexts[env]?.map fun context =>
      { w with
        contexts := w.contexts ++ [.new context.sourceEventId]
        frames := w.frames ++ [(env, w.contexts.length)] }

def openFrame : Option (Histories τ δ) := w.asInnerFrameOf env

/-- `open_inner_frame`. It differs in the variables of the frame. -/
def openInnerFrame : Option (Histories τ δ) :=
  w.asInnerFrameOf env

variable (frame : Nat)

/-- `close_frame`, up to the call of `integrate`. -/
def closeFrame : Option (Histories τ δ) :=
  if w.locked env then none
  else if (env, frame) ∈ w.frames then
    some { w with
      frames := w.frames.erase (env, frame)
      integrating := w.integrating ++ [⟨env, frame, .readOwn .sourceEventId⟩] }
  else some w

def deleteFrame : Option (Histories τ δ) :=
  if w.locked env then none
  else some { w with frames := w.frames.erase (env, frame) }

/-- The value of a field of the context of an environment. -/
def read (field : ContextField) : Nat :=
  (w.contexts[env]?.map fun context => context.get field).getD 0

/-- A call of `integrate` goes on to another phase. -/
def goOn (index : Nat) (phase : IntegratePhase) : Histories τ δ :=
  { w with integrating := w.integrating.modify index fun i => { i with phase := phase } }

/-- `integrate`, one step further. -/
def continueIntegrate (index : Nat) : Option (Histories τ δ) :=
  w.integrating[index]?.map fun i =>
    match i.phase with
    | .readOwn field => w.goOn index (.readOther field (w.read i.env field))
    | .readOther field own => w.goOn index (.write field (max own (w.read i.frame field)))
    | .write .sourceEventId value =>
      (w.write i.env .sourceEventId value).goOn index (.readOwn .lastPublishedEventId)
    | .write .lastPublishedEventId value =>
      { w.write i.env .lastPublishedEventId value with
        integrating := w.integrating.eraseIdx index }

/-- A stopped program has the start of the execution for its source event. -/
def abort : Option (Histories τ δ) :=
  w.contexts[env]?.map fun _ => w.write env .sourceEventId 0

/-- The worker of a Map state takes the last event of its last job for its source event. -/
def adoptPublished : Option (Histories τ δ) :=
  match w.contexts[env]?, w.contexts[frame]? with
  | some _, some job => some (w.write env .sourceEventId job.lastPublishedEventId)
  | _, _ => none

/-- One step. -/
def step : HistoryStep τ δ → Option (Histories τ δ)
  | .addEvent call => w.addEvent call
  | .continueAdd => w.continueAdd
  | .openFrame env => w.openFrame env
  | .openInnerFrame env => w.openInnerFrame env
  | .closeFrame env frame => w.closeFrame env frame
  | .continueIntegrate index => w.continueIntegrate index
  | .deleteFrame env frame => w.deleteFrame env frame
  | .abort env => w.abort env
  | .adoptPublished env frame => w.adoptPublished env frame

end Histories

end LocalEmu.StepFunctions
