import LocalEmu.Base.Forest

/-!
# Execution Environments

The environment of an execution has a program state. A state that runs branches
or iterations opens frames, which are environments too, and closes them when it
is done. To end, stop, fail or time out an environment is also to do so to its
frames.

All frames of an execution make a forest: the first tree is the environment of
the execution with the frames that are attached to it, and the others are the
frames that were closed. A closed frame is not reached from its former parent
any more, but whoever holds it may go on calling it.

Each call holds the lock of its environment from its beginning to its end and is
one step. What the calls do to variables and to the event history is left out.
-/

namespace LocalEmu.StepFunctions

structure ExecutionFailedEventDetails where
  error : Option String
  cause : Option String
  deriving DecidableEq

/-- `ProgramState`, with a constructor for each of its subclasses. -/
inductive ProgramState
  | ended
  | stopped (stopDate : Int) (error cause : Option String)
  | running (nextStateName nextFieldName : Option String)
  | error (error : Option ExecutionFailedEventDetails)
  | timedOut
  deriving DecidableEq

/-- `Environment`. Objects are told apart by an identifier. -/
structure Environment where
  id : Nat
  isFrame : Bool
  programState : Option ProgramState
  deriving DecidableEq

namespace Environment

variable (state : ProgramState) (env : Environment)

def isRunning : Bool :=
  match env.programState with
  | some (.running _ _) => true
  | _ => false

/-- The environment with another program state. -/
def finish : Environment :=
  { env with programState := some state }

variable (frames : Forest Environment)

/-- A setter that changes a running environment only, and goes on to the frames only if it does. -/
def terminateRunning : Environment × Forest Environment :=
  if env.isRunning then (env.finish state, frames.mapWhile isRunning (finish state))
  else (env, frames)

/-- A setter that changes the environment whatever its state is. -/
def terminate : Environment × Forest Environment :=
  (env.finish state, frames.map (finish state))

def setEnded : Environment → Forest Environment → Environment × Forest Environment :=
  terminateRunning .ended

def setError (error : Option ExecutionFailedEventDetails) :
    Environment → Forest Environment → Environment × Forest Environment :=
  terminate (.error error)

def setTimedOut : Environment → Forest Environment → Environment × Forest Environment :=
  terminate .timedOut

def setStop (stopDate : Int) (cause error : Option String) :
    Environment → Forest Environment → Environment × Forest Environment :=
  terminateRunning (.stopped stopDate error cause)

/-- `as_inner_frame_of`: the frame starts with a copy of the program state. -/
def asInnerFrameOf (id : Nat) : Environment := ⟨id, true, env.programState⟩

/-- `as_frame_of`. It differs in the variables of the frame. -/
def asFrameOf (id : Nat) : Environment := env.asInnerFrameOf id

end Environment

open Environment

/-! ### Calls -/

/-- The forest of an execution. The next frame gets the next identifier. -/
structure Frames where
  nextId : Nat
  forest : Forest Environment
  deriving DecidableEq

/-- A call on one of the environments. -/
inductive Call
  | setEnded (env : Nat)
  | setError (env : Nat) (error : Option ExecutionFailedEventDetails)
  | setTimedOut (env : Nat)
  | setStop (env : Nat) (stopDate : Int) (cause error : Option String)
  | openFrame (env : Nat)
  | openInnerFrame (env : Nat)
  | closeFrame (env frame : Nat)

namespace Frames

/-- The environment of an execution, before any frame is opened. -/
def initial (state : Option ProgramState) : Frames := ⟨1, .tree ⟨0, false, state⟩ .nil⟩

variable (w : Frames) (id : Nat)

def hasId (env : Environment) : Bool := env.id == id

def change
    (f : Environment → Forest Environment → Environment × Forest Environment) : Option Frames :=
  (w.forest.find (hasId id)).map fun _ => { w with forest := w.forest.update (hasId id) f }

/-- Append a new frame to those of an environment. -/
def openAs (frameOf : Environment → Nat → Environment) : Option Frames :=
  (w.change id fun env frames => (env, frames.append (.tree (frameOf env w.nextId) .nil))).map
    fun w => { w with nextId := w.nextId + 1 }

/-- `close_frame`. If the frame is not one of the environment's own, nothing happens. -/
def closeFrame (frame : Nat) : Option Frames :=
  (w.forest.find (hasId id)).map fun found =>
    match found.2.extract (hasId frame) with
    | none => w
    | some (closed, remaining) =>
      { w with
        forest := (w.forest.update (hasId id) fun env _ => (env, remaining)).append
          (.tree closed.1 closed.2) }

/-- One call. -/
def step : Call → Option Frames
  | .setEnded env => w.change env Environment.setEnded
  | .setError env error => w.change env (Environment.setError error)
  | .setTimedOut env => w.change env Environment.setTimedOut
  | .setStop env stopDate cause error => w.change env (Environment.setStop stopDate cause error)
  | .openFrame env => w.openAs env asFrameOf
  | .openInnerFrame env => w.openAs env asInnerFrameOf
  | .closeFrame env frame => w.closeFrame env frame

end Frames

/-! ### Reports -/

/-- The history events at the end of an execution. -/
inductive HistoryEventType
  | executionFailed
  | executionAborted
  | executionTimedOut
  | executionSucceeded

inductive ExecutionStatus
  | succeeded
  | aborted
  | failed
  | timedOut

namespace Environment

/-- The event that `Program._eval_body` adds in the end. A frame adds none. -/
def terminationEvent (env : Environment) : Option HistoryEventType :=
  if env.isFrame then none
  else
    match env.programState with
    | some (.error _) => some .executionFailed
    | some (.stopped _ _ _) => some .executionAborted
    | some .timedOut => some .executionTimedOut
    | some .ended => some .executionSucceeded
    | _ => none

/-- `_reflect_execution_status`. It raises if the program has not terminated. -/
def executionStatus (env : Environment) : Option ExecutionStatus :=
  match env.programState with
  | some .ended => some .succeeded
  | some (.stopped _ _ _) => some .aborted
  | some (.error _) => some .failed
  | some .timedOut => some .timedOut
  | _ => none

end Environment

end LocalEmu.StepFunctions
