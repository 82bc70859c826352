import Mathlib.Algebra.GroupWithZero.Nat
import LocalEmu.Base.Dict
import LocalEmu.Core.StepFunctions.ErrorNames

/-!
# States

The interpreter of a state machine. A program evaluates the state that the
environment names as the next one, for as long as the environment is running. A
state finds its own name there, and leaves the name of the state that follows, or
ends the environment.

Several components write the name: the Catcher that catches an error, the Choice
state, and `_set_next` in the end, which every other state uses and which looks at
the name to see if it was written before.

What the states do to their data is a parameter, `Evaluation`, and may be different
each time a state is evaluated. The environment is running until a state ends it or
something is raised: to stop an execution from outside is left out here.
-/

namespace LocalEmu.StepFunctions

/-! ### Definitions -/

/-- `ContinueWithNext`, with a `Next` that may be missing, or `ContinueWithEnd`. -/
inductive ContinueWith
  | next (nextState : Option String)
  | ended

/-- The declarations of `StateProps` on the flow. A second one of them is refused. -/
structure FlowDecl where
  endDecl : Option Bool
  nextDecl : Option String
  unique : endDecl = none ∨ nextDecl = none

/-- The `continue_with` of `from_state_props`. That `End` is declared is enough: its
    value is not read. -/
def FlowDecl.continueWith (flow : FlowDecl) : ContinueWith :=
  if flow.endDecl.isSome then .ended else .next flow.nextDecl

structure RetrierDecl where
  errorEquals : ErrorEqualsDecl
  maxAttempts : Nat

structure CatcherDecl where
  errorEquals : ErrorEqualsDecl
  nextDecl : String

structure ChoiceRule where
  nextStmt : Option String

/-- `ExecutionState`: Task, Map and Parallel states. What is handled of an exception
    that is raised is the failure event that it is turned into. -/
structure ExecutionState where
  flow : FlowDecl
  retriers : List RetrierDecl
  catchers : List CatcherDecl
  handled : Raised → Option FailureEvent

/-- The types of states. -/
inductive StateBody
  | common (flow : FlowDecl)
  | succeed
  | fail
  | execution (state : ExecutionState)
  | choice (rules : List ChoiceRule) (defaultState : Option String)

/-- `CommonStateField`. -/
structure State where
  name : String
  body : StateBody

/-- `continue_with`. A Choice state has one, which it does not use. -/
def State.continueWith (state : State) : ContinueWith :=
  match state.body with
  | .common flow => flow.continueWith
  | .succeed => .ended
  | .fail => .ended
  | .execution state => state.flow.continueWith
  | .choice _ _ => .next none

/-! ### Evaluation -/

section Evaluation

variable {Data : Type}

/-- What the components of a state do when it is evaluated once. An attempt leaves data
    behind also if it raises something. -/
structure Evaluation (Data : Type) where
  input : Data → Except Raised Data
  attempt : Nat → Data → Data × Option Raised
  failure : Data → Raised
  condition : Nat → Data → Except Raised Bool
  chosen : Nat → Data → Except Raised Data
  caught : CatcherDecl → FailureEvent → Data → Except Raised Data
  output : Data → Except Raised Data
  quota : Data → Except Raised Unit

/-- The part of an environment that states change. -/
structure Env (Data : Type) where
  programState : ProgramState
  data : Data

def ProgramState.nextStateName : ProgramState → Option String
  | .running name _ => name
  | _ => none

/-- The setter of `next_state_name`. -/
def ProgramState.setNextStateName (name : String) : ProgramState → Except Raised ProgramState
  | .running _ _ => .ok (.running (some name) none)
  | _ => .error (.exception "Could not set NextState value.")

def ProgramState.isRunning : ProgramState → Bool
  | .running _ _ => true
  | _ => false

inductive RetryOutcome
  | canRetry
  | cannotRetry
  | noRetrier
  deriving DecidableEq

/-- `RetryDecl._eval_body`, on the Retriers with the attempt numbers that are stored for
    them. A Retrier that is for the error decides alone. -/
def retryEval (errorName : Option ErrorName) :
    List (RetrierDecl × Int) → RetryOutcome × List (RetrierDecl × Int)
  | [] => (.noRetrier, [])
  | (retrier, number) :: rest =>
    if retrier.errorEquals.eval errorName then
      if number + 1 < retrier.maxAttempts then (.canRetry, (retrier, number + 1) :: rest)
      else (.cannotRetry, (retrier, number + 1) :: rest)
    else ((retryEval errorName rest).1, (retrier, number) :: (retryEval errorName rest).2)

def remaining (retriers : List (RetrierDecl × Int)) : Nat :=
  (retriers.map fun entry => ((entry.1.maxAttempts : Int) - (entry.2 + 1)).toNat).sum

theorem remaining_retryEval (errorName : Option ErrorName) (retriers : List (RetrierDecl × Int))
    (h : (retryEval errorName retriers).1 = .canRetry) :
    remaining (retryEval errorName retriers).2 < remaining retriers := by
  induction retriers with
  | nil => exact absurd h (by simp [retryEval])
  | cons entry rest ih =>
    rcases entry with ⟨retrier, number⟩
    unfold retryEval at h ⊢
    split_ifs at h ⊢ with heq hlt
    · simp only [remaining, List.map_cons, List.sum_cons]
      omega
    · have hrest := ih h
      simp only [remaining, List.map_cons, List.sum_cons] at hrest ⊢
      omega

/-- `CatchDecl._eval_body`. -/
def catchEval (catchers : List CatcherDecl) (event : FailureEvent) : Option CatcherDecl :=
  catchers.find? fun catcher => catcher.errorEquals.eval event.errorName

/-- How the evaluation of a state goes, up to the point where the next state is set. -/
inductive Ending
  | completed
  | caught (catcher : CatcherDecl)
  | chosen (next : String)

/-- The loop of `ExecutionState._eval_state`: it attempts to evaluate the state until
    it is successful, caught, or retries have run out. -/
def evalAttempts (state : ExecutionState) (run : Evaluation Data) (number : Nat)
    (retriers : List (RetrierDecl × Int)) (data : Data) : Except Raised (Ending × Data) :=
  match run.attempt number data with
  | (data, none) => .ok (.completed, data)
  | (data, some raised) =>
    match state.handled raised with
    | none => .error raised
    | some event =>
      if _h : (retryEval event.errorName retriers).1 = .canRetry then
        evalAttempts state run (number + 1) (retryEval event.errorName retriers).2 data
      else
        match catchEval state.catchers event with
        | none => .error (.failureEvent event)
        | some catcher => (run.caught catcher event data).map fun data => (.caught catcher, data)
termination_by remaining retriers
decreasing_by exact remaining_retryEval _ _ _h

/-- `StateChoice._eval_state`, from one of the rules on. -/
def evalChoice (name : String) (run : Evaluation Data) (defaultState : Option String)
    (data : Data) : Nat → List ChoiceRule → Except Raised (Ending × Data)
  | _, [] =>
    match defaultState with
    | none => .error (.exception
        ("('No branching option reached in state %s', '" ++ name ++ "')"))
    | some next => .ok (.chosen next, data)
  | number, rule :: rules =>
    match run.condition number data with
    | .error raised => .error raised
    | .ok true =>
      match run.chosen number data with
      | .error raised => .error raised
      | .ok data =>
        match rule.nextStmt with
        | none => .error (.exception "Missing Next definition for state_choice rule.")
        | some next => .ok (.chosen next, data)
    | .ok false => evalChoice name run defaultState data (number + 1) rules

namespace State

variable (state : State) (run : Evaluation Data)

def evalState (data : Data) : Except Raised (Ending × Data) :=
  match state.body with
  | .fail => .error (run.failure data)
  | .execution execution =>
    evalAttempts execution run 0 (execution.retriers.map fun retrier => (retrier, -1)) data
  | .choice rules defaultState => evalChoice state.name run defaultState data 0 rules
  | _ =>
    match run.attempt 0 data with
    | (data, none) => .ok (.completed, data)
    | (_, some raised) => .error raised

variable (ending : Ending)

/-- `_eval_state_output`: what a Catcher has left is not normalised. -/
def evalStateOutput (data : Data) : Except Raised Data :=
  match ending with
  | .caught _ => .ok data
  | _ => run.output data

variable (programState : ProgramState)

/-- What a Catcher or a Choice state has written by the time that `_set_next` is called. -/
def overridden : Except Raised ProgramState :=
  match ending with
  | .completed => .ok programState
  | .caught catcher => programState.setNextStateName catcher.nextDecl
  | .chosen next => programState.setNextStateName next

def setNext : Except Raised ProgramState :=
  match state.body with
  | .choice _ _ => .ok programState
  | _ =>
    -- Next was already overridden.
    if programState.nextStateName ≠ some state.name then .ok programState
    else
      match state.continueWith with
      | .next (some next) => programState.setNextStateName next
      | .next none => .error (.exception "'NoneType' object has no attribute 'name'")
      | .ended => .ok .ended

/-- The evaluation of a state. -/
def evalBody (env : Env Data) : Except Raised (Env Data) := do
  let data ← run.input env.data
  let (ending, data) ← state.evalState run data
  let data ← evalStateOutput run ending data
  let programState ← overridden ending env.programState
  run.quota data
  let programState ← state.setNext programState
  return ⟨programState, data⟩

end State

/-! ### Programs -/

/-- `Program`. The states are stored under their names. -/
structure Program where
  startAt : String
  states : Dict String State
  named : ∀ name state, states.get? name = some state → state.name = name

namespace Program

def getState (program : Program) (name : String) : Except Raised State :=
  match program.states.get? name with
  | none => .error (.exception "No such state None.")
  | some state => .ok state

/-- One turn of the loop of `_eval_body`. -/
def step (program : Program) (run : Evaluation Data) (env : Env Data) :
    Except Raised (Env Data) :=
  match env.programState.nextStateName with
  | none => .error (.exception "Could not retrieve NextState from uninitialised ProgramState.")
  | some name => do
      let state ← program.getState name
      state.evalBody run env

/-- The details that `set_error` is called with. -/
def failedDetails : Raised → ExecutionFailedEventDetails
  | .failureEvent event => ⟨event.error, event.cause⟩
  | .exception text => ⟨some (StatesErrorNameType.toName .statesRuntime), some text⟩

/-- The loop of `_eval_body`, for as many evaluations of states as are given. -/
def eval (program : Program) : List (Evaluation Data) → Env Data → Env Data
  | [], env => env
  | run :: runs, env =>
    if env.programState.isRunning then
      match program.step run env with
      | .ok env => program.eval runs env
      | .error raised => { env with programState := .error (some (failedDetails raised)) }
    else env

end Program

end Evaluation

end LocalEmu.StepFunctions
