import LocalEmu.Core.StepFunctions.Environment

/-!
# Error Names

A state that fails reports a failure event with an error name, and the Retriers and
Catchers of the state compare the name with those they list. There are two kinds of
names: those that the language reserves, all of which start with `States.`, and those
of the user, none of which may. The kind matters: `States.TaskFailed` stands for
every name that is not reserved.

An iteration of a Map state or a branch of a Parallel state is a program of its own.
If it fails, only the text of the error name is left in its program state, and the
enclosing state makes a failure event from it.
-/

namespace LocalEmu.StepFunctions

/-! ### Names -/

inductive StatesErrorNameType
  | statesALL
  | statesDataLimitExceeded
  | statesHeartbeatTimeout
  | statesTimeout
  | statesTaskFailed
  | statesPermissions
  | statesResultPathMatchFailure
  | statesParameterPathFailure
  | statesBranchFailed
  | statesNoChoiceMatched
  | statesIntrinsicFailure
  | statesExceedToleratedFailureThreshold
  | statesItemReaderFailed
  | statesResultWriterFailed
  | statesRuntime
  | statesQueryEvaluationError
  deriving DecidableEq

namespace StatesErrorNameType

def toName : StatesErrorNameType → String
  | statesALL => "States.ALL"
  | statesDataLimitExceeded => "States.DataLimitExceeded"
  | statesHeartbeatTimeout => "States.HeartbeatTimeout"
  | statesTimeout => "States.Timeout"
  | statesTaskFailed => "States.TaskFailed"
  | statesPermissions => "States.Permissions"
  | statesResultPathMatchFailure => "States.ResultPathMatchFailure"
  | statesParameterPathFailure => "States.ParameterPathFailure"
  | statesBranchFailed => "States.BranchFailed"
  | statesNoChoiceMatched => "States.NoChoiceMatched"
  | statesIntrinsicFailure => "States.IntrinsicFailure"
  | statesExceedToleratedFailureThreshold => "States.ExceedToleratedFailureThreshold"
  | statesItemReaderFailed => "States.ItemReaderFailed"
  | statesResultWriterFailed => "States.ResultWriterFailed"
  | statesRuntime => "States.Runtime"
  | statesQueryEvaluationError => "States.QueryEvaluationError"

def all : List StatesErrorNameType :=
  [statesALL, statesDataLimitExceeded, statesHeartbeatTimeout, statesTimeout, statesTaskFailed,
    statesPermissions, statesResultPathMatchFailure, statesParameterPathFailure,
    statesBranchFailed, statesNoChoiceMatched, statesIntrinsicFailure,
    statesExceedToleratedFailureThreshold, statesItemReaderFailed, statesResultWriterFailed,
    statesRuntime, statesQueryEvaluationError]

/-- `from_name`, which raises for a name that is not one of them. -/
def fromName (name : String) : Option StatesErrorNameType := all.find? fun typ => typ.toName == name

end StatesErrorNameType

/-- `error_name.startswith(ILLEGAL_CUSTOM_ERROR_PREFIX)`. -/
def isReserved (name : String) : Bool := "States.".toList.isPrefixOf name.toList

structure CustomErrorName where
  errorName : Option String
  legal : ∀ name ∈ errorName, isReserved name = false
  deriving DecidableEq

/-- The constructor of `CustomErrorName`, which raises for a reserved name. -/
def CustomErrorName.make? (errorName : Option String) : Option CustomErrorName :=
  if h : ∀ name ∈ errorName, isReserved name = false then some ⟨errorName, h⟩ else none

inductive ErrorName
  | states (typ : StatesErrorNameType)
  | custom (name : CustomErrorName)
  deriving DecidableEq

namespace ErrorName

def errorName : ErrorName → Option String
  | states typ => some typ.toName
  | custom name => name.errorName

/-- `a == b`. -/
def equals (a b : ErrorName) : Bool := a.errorName == b.errorName

/-- `isinstance(error_name, StatesErrorName)`. -/
def isStates : ErrorName → Bool
  | states _ => true
  | custom _ => false

end ErrorName

structure ErrorEqualsDecl where
  errorNames : List ErrorName
  all_alone : (errorNames.any (ErrorName.equals (.states .statesALL))) = true →
    errorNames.length ≤ 1

/-- `_eval_body`. The error may have no name. -/
def ErrorEqualsDecl.eval (decl : ErrorEqualsDecl) (errorName : Option ErrorName) : Bool :=
  if decl.errorNames.any (ErrorName.equals (.states .statesALL)) then true
  else if decl.errorNames.any (ErrorName.equals (.states .statesTaskFailed)) &&
      !errorName.any ErrorName.isStates then true
  else errorName.any fun errorName => decl.errorNames.any (ErrorName.equals errorName)

/-! ### Failures -/

/-- The types of the failure events. -/
inductive FailureEventType
  | mapIterationFailed
  | mapIterationAborted
  | executionFailed
  | taskFailed
  deriving DecidableEq

structure FailureEvent where
  errorName : Option ErrorName
  eventType : FailureEventType
  error : Option String
  cause : Option String
  deriving DecidableEq

/-- What an evaluation raises: a failure event, or another exception. -/
inductive Raised
  | failureEvent (event : FailureEvent)
  | exception (text : String)

def fromError : Raised → FailureEvent
  | .failureEvent event => event
  | .exception text =>
    ⟨some (.states .statesRuntime), .taskFailed, some (StatesErrorNameType.toName .statesRuntime),
      some text⟩

/-- What the constructor of `CustomErrorName` raises. -/
def illegalName (name : Option String) : Raised :=
  .exception ("Custom Error Names MUST NOT begin with the prefix 'States.', got '" ++
    name.getD "None" ++ "'.")

/-- The end of an iteration in `IterationWorker._eval_job`: the output of the
    program, or what is raised for its program state. -/
def evalIteration {Output : Type} (output : Output) : ProgramState → Except Raised Output
  | .error none => .error (.exception "'NoneType' object has no attribute 'get'")
  | .error (some details) =>
    match details.error with
    | none => .error (.failureEvent ⟨none, .mapIterationFailed, details.error, details.cause⟩)
    | some name =>
      match CustomErrorName.make? (some name) with
      | none => .error (illegalName (some name))
      | some errorName => .error (.failureEvent
          ⟨some (.custom errorName), .mapIterationFailed, details.error, details.cause⟩)
  | .stopped _ error cause =>
    .error (.failureEvent ⟨some (.custom ⟨some "MapIterationAborted", by decide⟩),
      .mapIterationAborted, error, cause⟩)
  | _ => .ok output

structure BranchWorkerPool where
  terminated : Bool
  activeWorkersNum : Int
  terminatedWithError : Option ExecutionFailedEventDetails

/-- The section of `on_terminated` under the lock, which a worker enters if it has
    not found the pool terminated. -/
def BranchWorkerPool.onTerminated (pool : BranchWorkerPool) : ProgramState → BranchWorkerPool
  | .error error =>
    { pool with terminatedWithError := some (error.getD ⟨none, none⟩), terminated := true }
  | _ =>
    { pool with
      activeWorkersNum := pool.activeWorkersNum - 1
      terminated := pool.terminated || decide (pool.activeWorkersNum - 1 = 0) }

/-- The end of `BranchesDecl._eval_body`: the outputs of the branches, or what is
    raised for a branch that failed. -/
def evalBranches {Output : Type} (outputs : List Output) (pool : BranchWorkerPool) :
    Except Raised (List Output) :=
  match pool.terminatedWithError with
  | none => .ok outputs
  | some details =>
    match CustomErrorName.make? details.error with
    | none => .error (illegalName details.error)
    | some errorName => .error (.failureEvent
        ⟨some (.custom errorName), .executionFailed, details.error, details.cause⟩)

/-- The failure event that the Retriers and Catchers of a Map state get: every
    exception is caught. -/
def mapFailureEvent (raised : Raised) : Option FailureEvent := some (fromError raised)

/-- The failure event that the Retriers and Catchers of a Parallel state get: only
    failure events are caught, other exceptions leave the state. -/
def parallelFailureEvent : Raised → Option FailureEvent
  | .failureEvent event => some (fromError (.failureEvent event))
  | .exception _ => none

end LocalEmu.StepFunctions
