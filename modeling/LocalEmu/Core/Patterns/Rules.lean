import LocalEmu.Core.Iam.Json

/-!
# Rules Of Patterns

What the compiler of event patterns and the validator of filter policies have in
common: a pattern is accepted if its leaves are lists that are not empty and if
every element of them is a valid rule. Numeric rules and address ranges are checked
and evaluated in the same way by both, up to the start of the messages.
-/

namespace LocalEmu.Patterns

open Iam (Json PyError)

/-- Built-in functions of Python. -/
structure Builtins where
  /-- The floating point numbers. -/
  Number : Type
  /-- `str(value)`. -/
  str : Json → String
  /-- `text.lower()`. -/
  lower : String → String
  /-- `a == b`. -/
  eq : Json → Json → Bool
  /-- `a <= b` for numbers. -/
  le : Json → Json → Bool
  /-- `float(value)`. -/
  float : Json → Except PyError Number
  /-- How two floating point numbers compare; `none` if one is not a number. -/
  compare : Number → Number → Option Ordering
  /-- Whether `int(text)` succeeds. -/
  isInt : String → Bool
  /-- Whether `ip_network(text)` succeeds. -/
  isNetwork : String → Bool
  /-- `ip_address(value) in ip_network(cidr)`; `none` for a `ValueError`. -/
  ipInNetwork : Json → Json → Option Bool

/-- Why a pattern is rejected. -/
inductive RuleError
  | invalid (message : String)
  | python (error : PyError)

/-! ### The rules of a pattern -/

section Aggregate

-- How the messages start, and whether objects may be nested.
variable (errorPrefix label : String) (nested : Bool)

mutual

/-- One turn of the loop of `_inner`. -/
def aggregateMember (key : String) (depth : Nat) :
    Json → Nat → Except RuleError (List (List Json) × Nat)
  | .obj members, combinations => aggregateMembers (depth + 1) members combinations
  | .arr items, combinations =>
    if items.isEmpty then
      .error (.invalid (errorPrefix ++ label ++ "Empty arrays are not allowed"))
    else if key = "$or" then aggregateAlternatives depth items combinations
    else .ok ([items], combinations * items.length * depth)
  | _, _ =>
    .error (.invalid (errorPrefix ++ label ++ "\"" ++ key ++ "\" must be an object or an array"))

/-- `_inner`. -/
def aggregateMembers (depth : Nat) :
    List (String × Json) → Nat → Except RuleError (List (List Json) × Nat)
  | [], combinations =>
    if !nested && decide (1 < depth) then .error (.invalid (errorPrefix ++
      "Filter policy scope MessageAttributes does not support nested filter policy"))
    else .ok ([], combinations)
  | (key, value) :: members, combinations =>
    (aggregateMember key depth value combinations).bind fun first =>
      (aggregateMembers depth members first.2).map fun rest => (first.1 ++ rest.1, rest.2)

/-- The alternatives of a `$or`. -/
def aggregateAlternatives (depth : Nat) :
    List Json → Nat → Except RuleError (List (List Json) × Nat)
  | [], _ => .ok ([], 0)
  | value :: values, combinations =>
    (aggregateAlternative depth value combinations).bind fun first =>
      (aggregateAlternatives depth values combinations).map fun rest =>
        (first.1 ++ rest.1, first.2 + rest.2)

/-- One alternative of a `$or`. -/
def aggregateAlternative (depth : Nat) : Json → Nat → Except RuleError (List (List Json) × Nat)
  | .obj members, combinations => aggregateMembers depth members combinations
  | _, _ => .error (.python .attributeError)

end

/-- The lists of rules of a pattern, and its complexity. -/
def aggregateRules (pattern : List (String × Json)) : Except RuleError (List (List Json) × Nat) :=
  aggregateMembers errorPrefix label nested 1 pattern 1

end Aggregate

/-! ### Numeric rules -/

/-- `isinstance(value, (int, float))`. -/
def isNumber : Json → Bool
  | .int _ | .float _ | .bool _ => true
  | _ => false

/-- A message, unless a check succeeds. -/
def require (check : Bool) (message : String) : Except RuleError Unit :=
  if check then .ok () else .error (.invalid message)

/-- The message for a bound that is not a number. -/
def mustBeNumeric (operator : String) : String :=
  "Value of " ++ (if operator = "=" then "equals" else operator) ++ " must be numeric"

section Validate

variable (py : Builtins) (messagePrefix : String)

def validateSecondBound (value : Json) : List Json → Except RuleError Unit
  | [] => .ok ()
  | .str operator :: rest =>
    (require (operator ∈ ["<", "<="])
      (messagePrefix ++ "Bad numeric range operator: " ++ operator)).bind fun _ =>
    match rest with
    | [] => .error (.invalid (messagePrefix ++ mustBeNumeric operator))
    | second :: more =>
      (require (isNumber second) (messagePrefix ++ mustBeNumeric operator)).bind fun _ =>
      (require (!py.le second value)
        (messagePrefix ++ "Bottom must be less than top")).bind fun _ =>
      require more.isEmpty (messagePrefix ++ "Too many terms in numeric range expression")
  | operator :: _ =>
    .error (.invalid (messagePrefix ++ "Bad value in numeric range: " ++ py.str operator))

/-- `_validate_numeric_condition` of a list. -/
def validateNumericCondition : List Json → Except RuleError Unit
  | [] => .error (.invalid (messagePrefix ++ "Invalid member in numeric match: ]"))
  | .str operator :: rest =>
    (require (operator ∈ ["<", "<=", "=", ">", ">="])
      (messagePrefix ++ "Unrecognized numeric range operator: " ++ operator)).bind fun _ =>
    match rest with
    | [] => .error (.invalid (messagePrefix ++ mustBeNumeric operator))
    | value :: more =>
      (require (isNumber value) (messagePrefix ++ mustBeNumeric operator)).bind fun _ =>
      (require (more.isEmpty || decide (operator ∈ [">", ">="]))
        (messagePrefix ++ "Too many elements in numeric expression")).bind fun _ =>
      validateSecondBound py messagePrefix value more
  | operator :: _ =>
    .error (.invalid (messagePrefix ++ "Invalid member in numeric match: " ++ py.str operator))

def validateCidrCondition : Json → Except RuleError Unit
  | .str value =>
    match (value.toList.splitOn '/').map String.ofList with
    | [ipAddr, mask] =>
      (require (py.isInt mask)
        (messagePrefix ++ "Malformed CIDR, mask bits must be an integer")).bind fun _ =>
      require (py.isNetwork value) (messagePrefix ++ "Nonstandard IP address: " ++ ipAddr)
    | _ => .error (.invalid (messagePrefix ++ "Malformed CIDR, one '/' required"))
  | _ => .error (.invalid (messagePrefix ++ "prefix match pattern must be a string"))

end Validate

/-- Whether a number is not in the range of an operator. -/
def outOfRange (operator : Json) (comparison : Option Ordering) : Bool :=
  if operator.isStr "=" then comparison != some .eq
  else if operator.isStr ">" then comparison == some .lt || comparison == some .eq
  else if operator.isStr "<" then comparison == some .gt || comparison == some .eq
  else if operator.isStr ">=" then comparison == some .lt
  else if operator.isStr "<=" then comparison == some .gt
  else false

/-- The loop of `_evaluate_numeric_condition`. -/
def evaluateBounds (py : Builtins) (value : py.Number) : List Json → Except PyError Bool
  | [] => .ok true
  | [_] => .error .indexError
  | operator :: bound :: conditions =>
    (py.float bound).bind fun operand =>
      if outOfRange operator (py.compare value operand) then .ok false
      else evaluateBounds py value conditions

/-- `_evaluate_numeric_condition` of the filter of subscriptions. -/
def evaluateNumericCondition (py : Builtins) (conditions : List Json) (value : Json) :
    Except PyError Bool :=
  match py.float value with
  | .error .valueError => .ok false
  | .error error => .error error
  | .ok number => evaluateBounds py number conditions

end LocalEmu.Patterns
