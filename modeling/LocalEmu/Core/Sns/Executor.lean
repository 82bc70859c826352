import LocalEmu.Base.Dict

/-!
# The Topic Executor

The tasks of a topic go to the queue of one worker. Workers are started as topics come, up to
a number, and the queues are dealt out in turn.

A submission holds the lock, so that it is one step. A worker is a thread with its queue. It
takes a task from the queue, and runs it. An `Exception` of the task is caught and logged by
the name of its function. What else is raised leaves the loop of the worker, which is the end
of the thread, and the tasks left in its queue are not taken any more. The executor is not shut
down here.
-/

namespace LocalEmu.Sns

variable {α : Type}

/-- What is raised: an `Exception`, or another `BaseException` as `SystemExit` is one. -/
inductive Raised
  | exception
  | baseException

/-- `_WorkItem`, with the topic it is submitted for. -/
structure WorkItem (α : Type) where
  topic : String
  /-- `fn.__name__`, which not every callable has. -/
  fn : Option String
  args : α
  /-- What the call raises. -/
  raised : Option Raised

/-- `_WorkItem.run`: what it logs, or what it raises. -/
def WorkItem.run (item : WorkItem α) : Except Raised (Option String) :=
  match item.raised with
  | none => .ok none
  | some .exception =>
    match item.fn with
    | some name => .ok (some ("Unhandled Exception in while running " ++ name))
    -- the handler reads the name, which raises an `AttributeError`
    | none => .error .exception
  | some .baseException => .error .baseException

/-- A thread: its queue, the task that runs, those that have run, what it has logged, and
    whether it has come to its end. -/
structure Worker (α : Type) where
  workQueue : List (WorkItem α)
  running : Option (WorkItem α)
  finished : List (WorkItem α)
  errors : List String
  ended : Bool

namespace Worker

def new : Worker α := ⟨[], none, [], [], false⟩

/-- `work_queue.get`, which waits for a task. -/
def get (w : Worker α) : Option (Worker α) :=
  match w.ended, w.running, w.workQueue with
  | false, none, item :: rest => some { w with running := some item, workQueue := rest }
  | _, _, _ => none

/-- `work_item.run` comes to its end. The loop of `_worker` is within its `try`, so that the
    thread ends with what is raised. -/
def run (w : Worker α) : Option (Worker α) :=
  w.running.map fun item =>
    let w := { w with running := none, finished := w.finished ++ [item] }
    match item.run with
    | .ok error => { w with errors := w.errors ++ error.toList }
    | .error .exception => { w with errors := w.errors ++ ["Exception in worker"], ended := true }
    | .error .baseException => { w with ended := true }

end Worker

/-- An exception of `submit`. -/
inductive ExecutorError
  | indexError
  | runtimeError (message : String)

/-- `TopicPartitionedThreadPoolExecutor`. The pool has the index of the queue of a topic, and
    the cycle has given out so many indices. -/
structure Executor (α : Type) where
  maxWorkers : Nat
  pool : Dict String Nat
  workers : List (Worker α)
  cycle : Nat
  shutdown : Bool

namespace Executor

def initial (maxWorkers : Nat) : Executor α := ⟨maxWorkers, Dict.empty, [], 0, false⟩

variable (s : Executor α)

/-- `_get_work_queue`: the index of the queue. -/
def getWorkQueue (topic : String) : Except ExecutorError (Nat × Executor α) :=
  match s.pool.get? topic with
  | some index => .ok (index, s)
  | none =>
    let workers := if s.workers.length < s.maxWorkers then s.workers ++ [.new] else s.workers
    let index := s.cycle % s.maxWorkers
    if index < workers.length then
      .ok (index,
        { s with workers := workers, cycle := s.cycle + 1, pool := s.pool.set topic index })
    else .error .indexError

def put (index : Nat) (item : WorkItem α) : Executor α :=
  { s with
    workers := s.workers.modify index fun w => { w with workQueue := w.workQueue ++ [item] } }

def submit (item : WorkItem α) : Except ExecutorError (Executor α) :=
  (s.getWorkQueue item.topic).bind fun (index, s) =>
    if s.shutdown then
      .error (.runtimeError "cannot schedule new futures after shutdown")
    else .ok (s.put index item)

end Executor

/-- A task is submitted, or a worker takes one, or comes to the end of one. -/
inductive Event (α : Type)
  | submit (item : WorkItem α)
  | get (n : Nat)
  | run (n : Nat)

/-- One step. -/
def Executor.step (s : Executor α) : Event α → Option (Executor α)
  | .submit item => (s.submit item).toOption
  | .get n => (s.workers[n]?.bind Worker.get).map fun w => { s with workers := s.workers.set n w }
  | .run n => (s.workers[n]?.bind Worker.run).map fun w => { s with workers := s.workers.set n w }

end LocalEmu.Sns
