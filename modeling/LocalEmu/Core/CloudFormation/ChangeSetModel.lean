import LocalEmu.Core.Iam.Json

/-!
# The Change Set Model

Two versions of a template are modelled as one graph of entities. Each entity stands
for a place of the templates, which its scope names, and says how this place changes.
-/

namespace LocalEmu.CloudFormation

open Iam (Json)

/-- A value, or `Nothing`: there is no such value, which is not the value `None`. -/
abbrev Maybe (α : Type) := Option α

/-- The `before` and the `after` of something. -/
structure Delta (α : Type) where
  before : Maybe α
  after : Maybe α

/-- How a place of the template changes. -/
inductive ChangeType
  | unchanged
  | created
  | modified
  | removed
  deriving DecidableEq

/-- `INTRINSIC_FUNCTIONS`. -/
inductive IntrinsicFunction
  | ref
  | condition
  | fnIf
  | fnAnd
  | fnOr
  | fnNot
  | fnJoin
  | fnEquals
  | fnGetAtt
  | fnFindInMap
  | fnSub
  | fnTransform
  | fnSelect
  | fnSplit
  | fnGetAZs
  | fnBase64
  | fnImportValue

/-! ### Scopes -/

/-- `Scope`: the keys and indices that lead to a place, joined by slashes. -/
abbrev Scope := String

/-! ### Entities -/

/-- `TerminalValueCreated`, `TerminalValueRemoved`, `TerminalValueUnchanged` and
    `TerminalValueModified`. -/
inductive TerminalValue
  | created (value : Json)
  | removed (value : Json)
  | unchanged (value : Json)
  | modified (value modifiedValue : Json)

/-- `ChangeSetEntity`, for the places below the properties of a resource. -/
inductive Entity
  | terminal (scope : Scope) (value : TerminalValue)
  | divergence (scope : Scope) (value divergence : Entity)
  | object (scope : Scope) (changeType : ChangeType) (bindings : List (String × Entity))
  | array (scope : Scope) (changeType : ChangeType) (array : List Entity)
  | property (scope : Scope) (name : String) (value : Entity)
  | function (scope : Scope) (changeType : ChangeType) (name : IntrinsicFunction)
      (arguments : Entity)

end LocalEmu.CloudFormation
