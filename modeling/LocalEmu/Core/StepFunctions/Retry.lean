import Mathlib.Data.Nat.Cast.Defs
import LocalEmu.Base.Dict
import LocalEmu.Base.Run
import LocalEmu.Base.Text
import LocalEmu.Core.StepFunctions.ErrorNames

/-!
# Retry

When an attempt to evaluate a state fails, the Retriers of the state are asked in turn. The
components of a Retrier take their arguments from a stack and leave their results there, and
they keep the number of the attempt and the next multiplier in a heap that all components
of the environment share, each under a key of its own. A component makes up its key when
it is first asked for it, which may happen in another frame, where the same program is
evaluated with another heap. Once a state has been evaluated, the program clears the stack
and the heap.

To get one's key is one step. The environment is running all the while: to stop an
execution from outside is left out here.
-/

namespace LocalEmu.StepFunctions.Retry

/-! ### Declarations -/

variable {K : Type}

/-- `MaxAttemptsDecl`, with the check of its constructor. -/
structure MaxAttemptsDecl where
  attempts : Nat
  le_maxValue : attempts ≤ 99999999

/-- `IntervalSecondsDecl`, with the check of its constructor. -/
structure IntervalSecondsDecl where
  seconds : Nat
  pos : 1 ≤ seconds
  le_maxValue : seconds ≤ 99999999

/-- `BackoffRateDecl`, with the check of its constructor. -/
structure BackoffRateDecl (K : Type) [One K] [LE K] where
  rate : K
  minRate_le : 1 ≤ rate

/-- `MaxDelaySecondsDecl`, with the check of its constructor. -/
structure MaxDelaySecondsDecl where
  maxDelaysSeconds : Nat
  pos : 1 ≤ maxDelaysSeconds
  le_maxValue : maxDelaysSeconds ≤ 31622401

inductive JitterStrategy
  | full
  | none

/-- The default of `MaxAttempts`. -/
def MaxAttemptsDecl.default : MaxAttemptsDecl := ⟨3, by decide⟩

/-- The default of `IntervalSeconds`. -/
def IntervalSecondsDecl.default : IntervalSecondsDecl := ⟨1, by decide, by decide⟩

/-- The default of `MaxDelaySeconds`. -/
def MaxDelaySecondsDecl.default : MaxDelaySecondsDecl := ⟨31622401, by decide, by decide⟩

/-- The declarations of a Retrier. -/
structure RetrierDecl (K : Type) [One K] [LE K] where
  errorEquals : ErrorEqualsDecl
  intervalSeconds : IntervalSecondsDecl
  maxAttempts : MaxAttemptsDecl
  backoffRate : BackoffRateDecl K
  maxDelaySeconds : MaxDelaySecondsDecl
  jitterStrategy : JitterStrategy

/-- `RetrierDecl.__init__`, with the default of each declaration that is missing, and the
    default rate as a number. -/
def RetrierDecl.make [One K] [LE K] (defaultRate : BackoffRateDecl K)
    (errorEquals : ErrorEqualsDecl) (intervalSeconds : Option IntervalSecondsDecl)
    (maxAttempts : Option MaxAttemptsDecl) (backoffRate : Option (BackoffRateDecl K))
    (maxDelaySeconds : Option MaxDelaySecondsDecl) (jitterStrategy : Option JitterStrategy) :
    RetrierDecl K where
  errorEquals := errorEquals
  intervalSeconds := intervalSeconds.getD .default
  maxAttempts := maxAttempts.getD .default
  backoffRate := backoffRate.getD defaultRate
  maxDelaySeconds := maxDelaySeconds.getD .default
  jitterStrategy := jitterStrategy.getD .none

/-- The part of an execution state that retries are about. -/
structure ExecutionState (K : Type) [One K] [LE K] where
  name : String
  retry : Option (List (RetrierDecl K))

/-! ### The environment -/

/-- The kinds of components that use the heap. -/
inductive ComponentKind
  | maxAttempts
  | backoffRate
  deriving DecidableEq

/-- A component: that of one of the Retriers of a state. -/
structure Component where
  state : String
  retrier : Nat
  kind : ComponentKind
  deriving DecidableEq

/-- `long_uid`, whose results are all different, and `random.uniform(0, value)`, each by the
    number of the call. -/
structure Library (K : Type) where
  longUid : Nat → Text
  longUid_injective : Function.Injective longUid
  uniform : Nat → K → K

inductive RetrierOutcome
  | executed
  | failed
  | skipped
  deriving DecidableEq

inductive RetryOutcome
  | canRetry
  | cannotRetry
  | noRetrier
  deriving DecidableEq

inductive MaxAttemptsOutcome
  | exhausted
  | success
  deriving DecidableEq

/-- A value on the stack. What other components leave there is not distinguished. -/
inductive StackValue (K : Type)
  | errorName (name : Option ErrorName)
  | bool (value : Bool)
  | maxAttemptsOutcome (outcome : MaxAttemptsOutcome)
  | seconds (value : K)
  | retrierOutcome (outcome : RetrierOutcome)
  | retryOutcome (outcome : RetryOutcome)
  | other

/-- A value in the heap. -/
inductive HeapValue (K : Type)
  | attemptNumber (number : Int)
  | nextMultiplier (multiplier : K)

/-- The stack and the heap of an environment, the keys that the components have got so far,
    the `RetryCount` of the context, and for how long it has slept. -/
structure Env (K : Type) where
  stack : List (StackValue K)
  heap : Dict Text (HeapValue K)
  heapKeys : Dict Component Text
  uids : Nat
  retryCount : Nat
  slept : List K

namespace Env

def heapKey (library : Library K) (component : Component) (env : Env K) : Text × Env K :=
  match env.heapKeys.get? component with
  | some key => (key, env)
  | none =>
    (library.longUid env.uids, { env with
      heapKeys := env.heapKeys.set component (library.longUid env.uids)
      uids := env.uids + 1 })

def push (value : StackValue K) (env : Env K) : Env K := { env with stack := value :: env.stack }

variable (env : Env K)

def popBool : Option (Bool × Env K) :=
  match env.stack with
  | .bool value :: rest => some (value, { env with stack := rest })
  | _ => none

/-- Take an outcome of `MaxAttemptsDecl` from the stack. -/
def popMaxAttemptsOutcome : Option (MaxAttemptsOutcome × Env K) :=
  match env.stack with
  | .maxAttemptsOutcome outcome :: rest => some (outcome, { env with stack := rest })
  | _ => none

def popSeconds : Option (K × Env K) :=
  match env.stack with
  | .seconds value :: rest => some (value, { env with stack := rest })
  | _ => none

def popErrorName : Option (Option ErrorName × Env K) :=
  match env.stack with
  | .errorName name :: rest => some (name, { env with stack := rest })
  | _ => none

/-- Take the outcome of a Retrier from the stack. -/
def popRetrierOutcome : Option (RetrierOutcome × Env K) :=
  match env.stack with
  | .retrierOutcome outcome :: rest => some (outcome, { env with stack := rest })
  | _ => none

/-- Take the outcome of all Retriers from the stack. -/
def popRetryOutcome : Option (RetryOutcome × Env K) :=
  match env.stack with
  | .retryOutcome outcome :: rest => some (outcome, { env with stack := rest })
  | _ => none

/-- `time.sleep(seconds)`. -/
def sleep (seconds : K) (env : Env K) : Env K := { env with slept := env.slept ++ [seconds] }

end Env

/-! ### Evaluation -/

/-- `ErrorEqualsDecl._eval_body`. -/
def evalErrorEquals (decl : ErrorEqualsDecl) (env : Env K) : Option (Env K) :=
  env.popErrorName.map fun (name, env) => env.push (.bool (decl.eval name))

def attemptNumberKey (heapKey : Text) : Text :=
  "MaxAttemptsDecl-".toList ++ heapKey ++ "-attempt_number".toList

def nextMultiplierKey (heapKey : Text) : Text :=
  "BackoffRateDecl-".toList ++ heapKey ++ "-next_multiplier".toList

/-- `_access_attempt_number`. The heap has attempt numbers only under their keys. -/
def accessAttemptNumber (heapKey : Text) (env : Env K) : Int :=
  match env.heap.get? (attemptNumberKey heapKey) with
  | some (.attemptNumber number) => number
  | _ => -1

/-- `_access_next_multiplier`. The heap has multipliers only under their keys. -/
def accessNextMultiplier [One K] (heapKey : Text) (env : Env K) : K :=
  match env.heap.get? (nextMultiplierKey heapKey) with
  | some (.nextMultiplier multiplier) => multiplier
  | _ => 1

def MaxAttemptsDecl.evalBody (library : Library K) (component : Component)
    (decl : MaxAttemptsDecl) (env : Env K) : Env K :=
  let (heapKey, env) := env.heapKey library component
  let number := accessAttemptNumber heapKey env + 1
  let outcome : MaxAttemptsOutcome := if number < decl.attempts then .success else .exhausted
  { env.push (.maxAttemptsOutcome outcome) with
    heap := env.heap.set (attemptNumberKey heapKey) (.attemptNumber number) }

def IntervalSecondsDecl.evalBody [NatCast K] (decl : IntervalSecondsDecl) (env : Env K) : Env K :=
  env.push (.seconds decl.seconds)

def BackoffRateDecl.evalBody [One K] [LE K] [Mul K] (library : Library K) (component : Component)
    (decl : BackoffRateDecl K) (env : Env K) : Option (Env K) :=
  env.popSeconds.map fun (seconds, env) =>
    let (heapKey, env) := env.heapKey library component
    let multiplier := accessNextMultiplier heapKey env
    { env.push (.seconds (seconds * multiplier)) with
      heap := env.heap.set (nextMultiplierKey heapKey) (.nextMultiplier (multiplier * decl.rate)) }

def MaxDelaySecondsDecl.evalBody [NatCast K] [Min K] (decl : MaxDelaySecondsDecl) (env : Env K) :
    Option (Env K) :=
  env.popSeconds.map fun (seconds, env) =>
    env.push (.seconds (min seconds (decl.maxDelaysSeconds : K)))

def JitterStrategy.evalBody (library : Library K) (strategy : JitterStrategy) (env : Env K) :
    Option (Env K) :=
  match strategy with
  | .none => some env
  | .full => env.popSeconds.map fun (seconds, env) =>
    env.push (.seconds (library.uniform env.slept.length seconds))

variable [One K] [LE K] [Mul K] [NatCast K] [Min K]

variable (library : Library K) (state : String)

/-- `RetrierDecl._eval_body`, of a Retrier of a state by its number. -/
def RetrierDecl.evalBody (number : Nat) (retrier : RetrierDecl K)
    (env : Env K) : Option (Env K) := do
  let env ← evalErrorEquals retrier.errorEquals env
  let (res, env) ← env.popBool
  if !res then return env.push (.retrierOutcome .skipped)
  -- Another attempt is asked for, and counted also if it is not granted.
  let env := retrier.maxAttempts.evalBody library ⟨state, number, .maxAttempts⟩ env
  let (outcome, env) ← env.popMaxAttemptsOutcome
  if outcome = .exhausted then return env.push (.retrierOutcome .failed)
  let env := retrier.intervalSeconds.evalBody env
  let env ← retrier.backoffRate.evalBody library ⟨state, number, .backoffRate⟩ env
  let env ← retrier.maxDelaySeconds.evalBody env
  let env ← retrier.jitterStrategy.evalBody library env
  let (seconds, env) ← env.popSeconds
  return (env.sleep seconds).push (.retrierOutcome .executed)

/-- The loop of `RetryDecl._eval_body`, from a Retrier on. -/
def evalRetriers (library : Library K) (state : String) (errorName : Option ErrorName) :
    Nat → List (RetrierDecl K) → Env K → Option (Env K)
  | _, [], env => some (env.push (.retryOutcome .noRetrier))
  | number, retrier :: retriers, env => do
    let env ← retrier.evalBody library state number (env.push (.errorName errorName))
    let (outcome, env) ← env.popRetrierOutcome
    match outcome with
    | .skipped => evalRetriers library state errorName (number + 1) retriers env
    | .executed => return env.push (.retryOutcome .canRetry)
    | .failed => return env.push (.retryOutcome .cannotRetry)

def RetryDecl.evalBody (retriers : List (RetrierDecl K)) (env : Env K) : Option (Env K) := do
  let (errorName, env) ← env.popErrorName
  evalRetriers library state errorName 0 retriers env

def handleRetry (retriers : List (RetrierDecl K)) (errorName : Option ErrorName)
    (env : Env K) : Option (RetryOutcome × Env K) := do
  let env ← RetryDecl.evalBody library state retriers (env.push (.errorName errorName))
  let (outcome, env) ← env.popRetryOutcome
  if outcome = .canRetry then return (outcome, { env with retryCount := env.retryCount + 1 })
  return (outcome, env)

/-! ### States -/

/-- Where an environment is: between two states, in the loop of `_eval_state`, or behind it. -/
inductive Phase (K : Type) [One K] [LE K]
  | between
  | attempting (state : ExecutionState K)
  | finished

/-- An environment that evaluates its states. -/
structure Execution (K : Type) [One K] [LE K] where
  env : Env K
  phase : Phase K

/-- What happens: a state is entered, an attempt fails with an error and leaves some values
    on the stack, an attempt succeeds, the program goes on after the state, or a component is
    asked for its key in another frame. -/
inductive Event (K : Type) [One K] [LE K]
  | enter (state : ExecutionState K)
  | fail (errorName : Option ErrorName) (left : Nat)
  | succeed
  | leave
  | keyElsewhere (component : Component)

namespace Execution

/-- The environment of an execution or of a frame, before its first state. -/
def initial : Execution K := ⟨⟨[], .empty, .empty, 0, 0, []⟩, .between⟩

/-- The handler of `_eval_state`. An attempt that is not retried ends the loop, whether the
    error is caught or not. -/
def fail (library : Library K) (state : ExecutionState K) (errorName : Option ErrorName)
    (env : Env K) : Option (Execution K) :=
  match state.retry with
  | none => some ⟨env, .finished⟩
  | some retriers => do
    let (outcome, env) ← handleRetry library state.name retriers errorName env
    if outcome = .canRetry then return ⟨env, .attempting state⟩
    return ⟨env, .finished⟩

/-- One step. -/
def step (library : Library K) (s : Execution K) : Event K → Option (Execution K)
  | .enter state =>
    match s.phase with
    | .between => some ⟨{ s.env.push .other with retryCount := 0 }, .attempting state⟩
    | _ => none
  | .fail errorName left =>
    match s.phase with
    | .attempting state =>
      fail library state errorName
        { s.env with stack := List.replicate left .other ++ s.env.stack }
    | _ => none
  | .succeed =>
    match s.phase with
    | .attempting _ => some ⟨s.env, .finished⟩
    | _ => none
  | .leave =>
    match s.phase with
    | .finished => some ⟨{ s.env with stack := [], heap := .empty }, .between⟩
    | _ => none
  | .keyElsewhere component => some ⟨(s.env.heapKey library component).2, s.phase⟩

end Execution

end LocalEmu.StepFunctions.Retry
