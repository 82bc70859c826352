import LocalEmu.Base.Dict
import LocalEmu.Base.Pool

/-!
# The Counting Service

Every invocation of a function takes a lease first. A lease is provisioned or on
demand, and a tracker counts the leases of each kind: those on demand by
function, the provisioned ones by version. Whether a lease is given depends on
the counters and on the settings of the functions of the account.

A caller goes through `get_invocation_lease` section by section, each under the
lock of a tracker, and between two sections any other caller may run. The
account and the region are fixed, so that there is one tracker of each kind. It
is made when it is first looked up and never replaced, so that all callers count
with the same one.
-/

namespace LocalEmu.Lambda

inductive InitializationType
  | onDemand
  | provisionedConcurrency
  | lambdaManagedInstances
  deriving DecidableEq

/-- `ProvisionedConcurrencyStatusEnum`. -/
inductive ProvisionedConcurrencyStatus
  | inProgress
  | ready
  | failed
  deriving DecidableEq

/-! ### Functions -/

/-- The table of `get_partition`. -/
def regionPartitions : List (String × String) :=
  [("cn-", "aws-cn"), ("us-gov-", "aws-us-gov"), ("us-iso-", "aws-iso"), ("us-isob-", "aws-iso-b"),
    ("eusc-", "aws-eusc")]

def getPartition (region : String) : String :=
  if region = "" then "aws"
  else if region ∈ regionPartitions.map Prod.snd ++ ["aws"] then region
  else ((regionPartitions.find? fun entry =>
    entry.1.toList.isPrefixOf region.toList).map Prod.snd).getD "aws"

structure VersionIdentifier where
  functionName : String
  qualifier : String
  region : String
  account : String
  deriving DecidableEq

namespace VersionIdentifier

def unqualifiedArn (id : VersionIdentifier) : String :=
  "arn:" ++ getPartition id.region ++ ":lambda:" ++ id.region ++ ":" ++ id.account ++
    ":function:" ++ id.functionName

def qualifiedArn (id : VersionIdentifier) : String :=
  id.unqualifiedArn ++ ":" ++ (if id.qualifier = "" then "$LATEST" else id.qualifier)

end VersionIdentifier

structure FunctionVersion where
  id : VersionIdentifier

structure VersionAlias where
  functionVersion : String
  name : String

/-- `Function`. The provisioned concurrency is set for a version or for an alias. -/
structure Function where
  functionName : String
  aliases : Dict String VersionAlias
  versions : Dict String FunctionVersion
  reservedConcurrentExecutions : Option Nat
  provisionedConcurrencyConfigs : Dict String Nat

namespace Function

def latest (fn : Function) : Option FunctionVersion := fn.versions.get? "$LATEST"

/-- `calculate_provisioned_concurrency_sum`. -/
def provisionedConcurrencySum (fn : Function) : Nat := fn.provisionedConcurrencyConfigs.values.sum

/-- The provisioned concurrency that a version is invoked with: its own, or that
    of the first alias that points to it. -/
def provisionedConcurrencyConfig (fn : Function) (qualifier : String) : Option Nat :=
  match fn.provisionedConcurrencyConfigs.get? qualifier with
  | some config => some config
  | none =>
    (fn.aliases.values.find? fun versionAlias =>
      versionAlias.functionVersion = qualifier).bind fun versionAlias =>
        fn.provisionedConcurrencyConfigs.get? versionAlias.name

end Function

/-- The functions of an account in a region. The versions of a function are
    identified by its name, and the name is also its key. -/
structure LambdaStore where
  account : String
  region : String
  functions : Dict String Function
  named : ∀ name fn, functions.get? name = some fn → fn.functionName = name
  identified : ∀ name fn, functions.get? name = some fn → ∀ version ∈ fn.versions.values,
    version.id.functionName = name ∧ version.id.region = region ∧ version.id.account = account

/-! ### Leases -/

/-- `ConcurrencyTracker.concurrent_executions`. -/
abbrev ConcurrencyTracker := Dict String Int

namespace ConcurrencyTracker

variable (tracker : ConcurrencyTracker) (scope : String)

/-- The counter of a scope. It starts at zero. -/
def count : Int := tracker.getD scope 0

def increment : ConcurrencyTracker :=
  tracker.set scope (count tracker scope + 1)

def decrement : ConcurrencyTracker :=
  tracker.set scope (count tracker scope - 1)

end ConcurrencyTracker

/-- `CountingService`. There is no tracker before the first call. -/
structure CountingService where
  onDemand : Option ConcurrencyTracker
  provisioned : Option ConcurrencyTracker

namespace CountingService

/-- The tracker of the leases on demand. A caller counts with it only after the
    lookup, when it is there. -/
def onDemandTracker (s : CountingService) : ConcurrencyTracker := s.onDemand.getD Dict.empty

def provisionedTracker (s : CountingService) : ConcurrencyTracker := s.provisioned.getD Dict.empty

end CountingService

/-- The exceptions of `get_invocation_lease`. -/
inductive LeaseError
  | tooManyRequests (message reason type : String)
  /-- `provisioned_state` is `None`. -/
  | attributeError
  /-- A function has no version `$LATEST`. -/
  | keyError
  deriving DecidableEq

/-- The exception of a lease that is refused. -/
def rateExceeded : LeaseError :=
  .tooManyRequests "Rate Exceeded." "ReservedFunctionConcurrentInvocationLimitExceeded" "User"

/-- The arguments of `get_invocation_lease`. -/
structure Invocation where
  function : Option Function
  functionVersion : FunctionVersion
  provisionedState : Option ProvisionedConcurrencyStatus

/-- Where a caller is. -/
inductive Control
  /-- Before the first look for the tracker of the leases on demand. -/
  | lookUpOnDemand
  /-- It was not there: before the section that makes it. -/
  | initOnDemand
  | lookUpProvisioned
  | initProvisioned
  /-- Before the section under the lock of the provisioned tracker. -/
  | checkProvisioned
  /-- Before the section under the lock of the tracker on demand. -/
  | checkOnDemand
  /-- In the body of the `with` statement. -/
  | leased
  | left
  | raised (error : LeaseError)
  deriving DecidableEq

/-- A call of `get_invocation_lease` and its local variable `lease_type`. -/
structure Caller where
  invocation : Invocation
  control : Control
  leaseType : Option InitializationType

namespace Caller

def enter (invocation : Invocation) : Caller := ⟨invocation, .lookUpOnDemand, none⟩

def unqualifiedArn (c : Caller) : String := c.invocation.functionVersion.id.unqualifiedArn

def qualifiedArn (c : Caller) : String := c.invocation.functionVersion.id.qualifiedArn

/-- The section under the lock of the provisioned tracker. -/
def checkProvisioned (tracker : ConcurrencyTracker) (c : Caller) : ConcurrencyTracker × Caller :=
  match c.invocation.function.bind fun fn =>
    fn.provisionedConcurrencyConfig c.invocation.functionVersion.id.qualifier with
  | none => (tracker, { c with control := .checkOnDemand })
  | some config =>
    match c.invocation.provisionedState with
    | none => (tracker, { c with control := .raised .attributeError })
    | some status =>
      if status = .ready ∧ 0 < (config : Int) - tracker.count c.qualifiedArn then
        (tracker.increment c.qualifiedArn,
          { c with control := .leased, leaseType := some .provisionedConcurrency })
      else (tracker, { c with control := .checkOnDemand })

/-- The concurrency that one function takes away from the others. -/
def usedConcurrency (tracker : ConcurrencyTracker) (fn : Function) : Except LeaseError Int :=
  match fn.reservedConcurrentExecutions with
  | some reserved => .ok reserved
  | none =>
    match fn.latest with
    | none => .error .keyError
    | some version =>
      .ok (fn.provisionedConcurrencySum + tracker.count version.id.unqualifiedArn)

def totalUsedConcurrency (tracker : ConcurrencyTracker) :
    List Function → Except LeaseError Int
  | [] => .ok 0
  | fn :: rest => do
      let used ← usedConcurrency tracker fn
      let others ← totalUsedConcurrency tracker rest
      return used + others

variable (store : LambdaStore)

/-- The concurrency that is left for the caller. -/
def availableConcurrency (limit : Nat) (tracker : ConcurrencyTracker)
    (c : Caller) : Except LeaseError Int :=
  match c.invocation.function.bind Function.reservedConcurrentExecutions with
  | some reserved =>
    .ok (reserved - ((c.invocation.function.map Function.provisionedConcurrencySum).getD 0 : Nat) -
      tracker.count c.unqualifiedArn)
  | none => (totalUsedConcurrency tracker store.functions.values).map fun used => limit - used

/-- The section under the lock of the tracker of the leases on demand. -/
def checkOnDemand (limit : Nat) (tracker : ConcurrencyTracker) (c : Caller) :
    ConcurrencyTracker × Caller :=
  match availableConcurrency store limit tracker c with
  | .error error => (tracker, { c with control := .raised error })
  | .ok available =>
    if 0 < available then
      (tracker.increment c.unqualifiedArn,
        { c with control := .leased, leaseType := some .onDemand })
    else (tracker, { c with control := .raised rateExceeded })

/-- The `finally` block. It is run whether the body raises or not. -/
def release (s : CountingService) (c : Caller) : CountingService :=
  match c.leaseType with
  | some .provisionedConcurrency =>
    { s with provisioned := some (s.provisionedTracker.decrement c.qualifiedArn) }
  | some _ => { s with onDemand := some (s.onDemandTracker.decrement c.unqualifiedArn) }
  | none => s

/-- The next section of a caller. A lookup of a tracker is a step of its own: it
    is not protected by a lock. -/
def next (limit : Nat) (s : CountingService) (c : Caller) (_ : Unit) :
    Option (CountingService × Caller) :=
  match c.control with
  | .lookUpOnDemand =>
    some (s, { c with
      control := if s.onDemand.isSome then .lookUpProvisioned else .initOnDemand })
  | .initOnDemand =>
    some ({ s with onDemand := some s.onDemandTracker },
      { c with control := .lookUpProvisioned })
  | .lookUpProvisioned =>
    some (s, { c with
      control := if s.provisioned.isSome then .checkProvisioned else .initProvisioned })
  | .initProvisioned =>
    some ({ s with provisioned := some s.provisionedTracker },
      { c with control := .checkProvisioned })
  | .checkProvisioned =>
    some ({ s with provisioned := some (checkProvisioned s.provisionedTracker c).1 },
      (checkProvisioned s.provisionedTracker c).2)
  | .checkOnDemand =>
    some ({ s with onDemand := some (checkOnDemand store limit s.onDemandTracker c).1 },
      (checkOnDemand store limit s.onDemandTracker c).2)
  | .leased => some (release s c, { c with control := .left })
  | .left => none
  | .raised _ => none

end Caller

abbrev Leases := Pool CountingService Caller

/-- Before the first call. -/
def Leases.initial : Leases := ⟨⟨none, none⟩, []⟩

/-- A call is made, or one of the callers runs its next section. -/
abbrev Leases.step (store : LambdaStore) (limit : Nat) :
    Leases → Pool.Label Caller Unit → Option Leases :=
  Pool.step (Caller.next store limit)

end LocalEmu.Lambda
