import LocalEmu.Base.Run

/-!
# Event Source Mapping Workers

A worker polls an event source in a thread. `create` and `start` start such a
thread, and `stop` and `delete` set an event that it looks at: the thread leaves
its loop and then does what the state says. All threads of a worker share the
event and the state.

The calls come one after the other, and any number of threads run beside them. A
step is a section under the lock, a single read or write outside of it, or an
operation on the event. A thread that waits on the event is woken up when the
event is set, also if it is cleared again right away.
-/

namespace LocalEmu.Lambda

/-- The states of a mapping. -/
inductive EsmState
  | creating
  | enabling
  | enabled
  | disabling
  | disabled
  | updating
  | deleting
  deriving DecidableEq

/-- Where a thread is in `poller_loop`. -/
inductive Phase
  /-- Before the first section. -/
  | provisioning
  /-- Before the wait of a second. -/
  | enteringWait
  | waiting (notified : Bool)
  /-- The wait has timed out: before the state becomes `ENABLED`. -/
  | enabling
  /-- Before the condition of the loop. -/
  | looping
  /-- In `poll_events`. -/
  | polling
  /-- In the wait at the end of the body. -/
  | sleeping
  /-- In `close`. -/
  | closing
  /-- Before the reads of the condition for a deletion. -/
  | readEnabled
  | readState
  /-- Before the reads of the condition for a stop. -/
  | readDisabled
  | readDisabling
  /-- In `delete_esm_in_store`. -/
  | deleting
  /-- Before the state becomes `DISABLED`, and before it is stored. -/
  | disabling
  | storing
  | ended
  deriving DecidableEq

/-- A call. -/
inductive EsmCall
  | create
  | start
  | stop
  | delete
  deriving DecidableEq

/-- Where a call is. -/
inductive EsmControl
  | idle
  /-- In `create`, before `start`. -/
  | createStart
  /-- In `create`, before the state is stored. -/
  | createStore
  /-- In `start`, before the event is cleared. -/
  | startClear
  /-- In `start`, before the thread is started. -/
  | startThread
  /-- In `stop`, before the event is set. -/
  | stopSet
  /-- In `delete`, before the event is set. -/
  | deleteSet
  deriving DecidableEq

/-- `EsmWorker`, with its threads, the state of the mapping in the store if it is
    there, and the last call. -/
structure EsmWorker where
  enabled : Bool
  currentState : EsmState
  shutdownEvent : Bool
  stored : Option EsmState
  control : EsmControl
  lastCall : Option EsmCall
  threads : List Phase
  deriving DecidableEq

namespace EsmWorker

/-- A new worker. The mapping was stored before. -/
def initial (enabled : Bool) : EsmWorker where
  enabled := enabled
  currentState := .creating
  shutdownEvent := false
  stored := some (if enabled then .creating else .disabled)
  control := .idle
  lastCall := none
  threads := []

variable (w : EsmWorker)

def updateEsmStateInStore (newState : EsmState) : EsmWorker :=
  { w with stored := w.stored.map fun _ => newState }

def deleteEsmInStore : EsmWorker := { w with stored := none }

/-- `set` of the event: those who wait are woken up. -/
def setEvent : EsmWorker :=
  { w with
    shutdownEvent := true
    threads := w.threads.map fun
      | .waiting _ => .waiting true
      | phase => phase }

/-- The first section of `start`. -/
def enable : EsmWorker :=
  { w with
    enabled := true
    currentState := if w.currentState = .creating then .creating else .enabling
    control := .startClear }

/-- The first section of a call. -/
def call : EsmCall → EsmWorker
  | .create =>
    if w.enabled then
      { w with currentState := .creating, control := .createStart, lastCall := some .create }
    else { w with currentState := .disabled, control := .createStore, lastCall := some .create }
  | .start => { w.enable with lastCall := some .start }
  | .stop =>
    { { w with enabled := false, currentState := .disabling }.updateEsmStateInStore .disabling with
      control := .stopSet
      lastCall := some .stop }
  | .delete =>
    { { w with currentState := .deleting }.updateEsmStateInStore .deleting with
      control := .deleteSet
      lastCall := some .delete }

def resume : Option EsmWorker :=
  match w.control with
  | .idle => none
  | .createStart => some w.enable
  | .createStore => some { w.updateEsmStateInStore .disabled with control := .idle }
  | .startClear => some { w with shutdownEvent := false, control := .startThread }
  | .startThread => some { w with threads := w.threads ++ [.provisioning], control := .idle }
  | .stopSet => some { w.setEvent with control := .idle }
  | .deleteSet => some { w.setEvent with control := .idle }

/-- The next section of a thread: the worker and the thread after it. -/
def advance : Phase → Option (EsmWorker × Phase)
  | .provisioning =>
    some (if w.currentState = .creating ∨ w.currentState = .enabling then
      w.updateEsmStateInStore w.currentState else w, .enteringWait)
  | .enteringWait => some (w, if w.shutdownEvent then .ended else .waiting false)
  | .waiting notified => some (w, if notified then .ended else .enabling)
  | .enabling =>
    some ({ w with currentState := .enabled }.updateEsmStateInStore .enabled, .looping)
  | .looping => some (w, if w.shutdownEvent then .closing else .polling)
  | .polling => some (w, .sleeping)
  | .sleeping => some (w, .looping)
  | .closing => some (w, .readEnabled)
  | .readEnabled => some (w, if w.enabled then .readState else .readDisabled)
  | .readState => some (w, if w.currentState = .deleting then .deleting else .readDisabled)
  | .readDisabled => some (w, if w.enabled then .ended else .readDisabling)
  | .readDisabling => some (w, if w.currentState = .disabling then .disabling else .ended)
  | .deleting => some (w.deleteEsmInStore, .ended)
  | .disabling => some ({ w with currentState := .disabled }, .storing)
  | .storing => some (w.updateEsmStateInStore .disabled, .ended)
  | .ended => none

/-- Who takes a step. -/
inductive Label
  | call (call : EsmCall)
  | resume
  | thread (n : Nat)

/-- A step. A call is made when the one before it has returned. -/
def step : Label → Option EsmWorker
  | .call c => if w.control = .idle then some (w.call c) else none
  | .resume => w.resume
  | .thread n =>
    w.threads[n]?.bind fun phase =>
      (w.advance phase).map fun next => { next.1 with threads := w.threads.set n next.2 }

end EsmWorker

end LocalEmu.Lambda
