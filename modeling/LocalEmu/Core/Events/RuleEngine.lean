import LocalEmu.Core.Patterns.Flattening
import LocalEmu.Core.Patterns.Rules

/-!
# The Event Rule Engine

Event patterns are compiled, which only checks them, and then evaluated on events.
A pattern is a nested object whose leaves are lists of conditions; a condition is a
value, or an object with one operator.

The rules of a bus are processed one after another. An exception of one of them leaves the
loop, so that the rules behind it are not looked at.

The rules of a bus are processed one after another. An exception of one of them leaves the
loop, so that the rules behind it are not looked at.
-/

namespace LocalEmu.Events

open Iam (Json PyError)
open Patterns

/-! ### Compiling a pattern -/

def errorPrefix : String := "Event pattern is not valid. Reason: "

def aggregateRules : List (String × Json) → Except RuleError (List (List Json) × Nat) :=
  Patterns.aggregateRules errorPrefix "" true

def reject (reason : String) : Except RuleError Unit := .error (.invalid (errorPrefix ++ reason))

/-- `isinstance(value, str)`. -/
def isStr : Json → Bool
  | .str _ => true
  | _ => false

def isStrOrListOfStr : Json → Bool
  | .arr items => items.all isStr
  | value => isStr value

def validateWildcard : Json → Except RuleError Unit
  | .str value =>
    match Text.before "**".toList value.toList with
    | some before =>
      reject s!"Consecutive wildcard characters at pos {before.length + 1}"
    | none =>
      if 5 < value.toList.count '*' then
        reject ("Rule is too complex - try using fewer wildcard characters or fewer repeating " ++
          "character sequences after a wildcard character")
      else .ok ()
  | _ => reject "wildcard match pattern must be a string"

/-- The branch for `prefix` and `suffix`. -/
def validateAffix (anythingBut : Bool) (operator : String) (value : Json) :
    Except RuleError Unit :=
  if anythingBut then
    if value.isObj then
      reject "Value of anything-but must be an array or single string/number value."
    else if !isStrOrListOfStr value then reject "prefix/suffix match pattern must be a string"
    else if !value.truthy then reject "Null prefix/suffix not allowed"
    else .ok ()
  else
    match value with
    | .obj members =>
      match members.find? fun member => member.1 != "equals-ignore-case" with
      | some member => reject ("Unsupported anything-but pattern: " ++ member.1)
      | none => .ok ()
    | .str _ => .ok ()
    | _ => reject (operator ++ " match pattern must be a string")

/-- The branch for `equals-ignore-case`. -/
def validateEqualsIgnoreCase (anythingBut : Bool) (value : Json) : Except RuleError Unit :=
  if anythingBut then
    if !isStrOrListOfStr value then
      reject ("Inside anything-but/equals-ignore-case list, number|start|null|boolean is not " ++
        "supported.")
    else .ok ()
  else
    match value with
    | .str _ => .ok ()
    | _ => reject "equals-ignore-case match pattern must be a string"

section Validate

variable (py : Builtins)

/-- The branch for `wildcard`. -/
def validateWildcards (anythingBut : Bool) (value : Json) : Except RuleError Unit :=
  match anythingBut, value with
  | true, .arr items => items.forM validateWildcard
  | _, value => validateWildcard value

/-- The operators whose rules have no rules in them. -/
def validateOperator (anythingBut : Bool) (operator : String) (value : Json) :
    Except RuleError Unit :=
  if operator = "prefix" ∨ operator = "suffix" then validateAffix anythingBut operator value
  else if operator = "equals-ignore-case" then validateEqualsIgnoreCase anythingBut value
  else if operator = "exists" then
    match value with
    | .bool _ => .ok ()
    | _ => reject "exists match pattern must be either true or false."
  else if operator = "numeric" then
    match value with
    | .arr items => validateNumericCondition py errorPrefix items
    | _ => reject "Value of numeric must be an array."
  else if operator = "cidr" then validateCidrCondition py errorPrefix value
  else if operator = "wildcard" then validateWildcards anythingBut value
  else reject ("Unrecognized match type " ++ operator)

mutual

def validateRule (anythingBut : Bool) : Json → Except RuleError Unit
  | .obj [(operator, value)] =>
    if operator = "anything-but" then validateAnythingBut value
    else validateOperator py anythingBut operator value
  | .obj _ => reject "Only one key allowed in match expression"
  | .arr _ => reject "Match value must be String, number, true, false, or null"
  | _ => .ok ()

/-- The branch for `anything-but`. -/
def validateAnythingBut : Json → Except RuleError Unit
  | .null => reject "Value of anything-but must be an array or single string/number value."
  | .arr items => validateAnythingButItems items
  | .obj members =>
    match members.find? fun member =>
        !decide (member.1 ∈ ["prefix", "equals-ignore-case", "suffix", "wildcard"]) with
    | some member => reject ("Unsupported anything-but pattern: " ++ member.1)
    | none => validateAnythingButRule members
  | _ => .ok ()

/-- `_validate_rule` of an object below `anything-but`, none of whose operators is
    `anything-but`. -/
def validateAnythingButRule : List (String × Json) → Except RuleError Unit
  | [(operator, value)] => validateOperator py true operator value
  | _ => reject "Only one key allowed in match expression"

/-- The loop of the branch for `anything-but`. -/
def validateAnythingButItems : List Json → Except RuleError Unit
  | [] => .ok ()
  | item :: items =>
    (match item with
      | .null => reject "Inside anything but list, start|null|boolean is not supported."
      | item => validateRule true item).bind fun _ => validateAnythingButItems items

end

/-- `compile_event_pattern` of an object. -/
def compileEventPattern (pattern : List (String × Json)) :
    Except RuleError (List (String × Json)) :=
  (aggregateRules pattern).bind fun rules =>
    (rules.1.forM fun rules => rules.forM (validateRule py false)).map fun _ => pattern

/-- `compile_event_pattern` of the JSON value of a text. -/
def compileJson : Json → Except RuleError (List (String × Json))
  | .obj pattern => compileEventPattern py pattern
  | _ => (reject "Filter is not an object").map fun _ => []

end Validate

/-! ### Evaluating a pattern -/

section Evaluate

variable (py : Builtins)

variable (condition : Json)

/-- A member of a condition that is there and is not `None`. -/
def operand (operator : String) : Option Json :=
  match condition.get operator .null with
  | .null => none
  | value => some value

variable (value : Json)

/-- A check of a text, which a value of another type does not pass. -/
def onText (check : String → Except PyError Bool) : Except PyError Bool :=
  match value with
  | .str text => check text
  | _ => .ok false

/-- A text that is given to a text method, or the error of giving it something else. -/
def asArgument : Json → Except PyError String
  | .str text => .ok text
  | _ => .error .typeError

def evaluatePrefix : Except PyError Bool :=
  onText value fun text => (asArgument condition).map fun start =>
    decide (start.toList <+: text.toList)

def evaluateSuffix : Except PyError Bool :=
  onText value fun text => (asArgument condition).map fun ending =>
    decide (ending.toList <:+ text.toList)

def evaluateEqualIgnoreCase : Except PyError Bool :=
  onText value fun text => condition.asStr.map fun other => py.lower other == py.lower text

def evaluateCidr : Bool := (py.ipInNetwork value condition).getD false

/-- A match of a wildcard pattern: a star is one or more characters that are not
    newlines, and the text may end with one more newline. -/
def matchesWildcard : List Char → List Char → Bool
  | [], text => text == [] || text == ['\n']
  | '*' :: _, [] => false
  | '*' :: pattern, c :: text =>
    c != '\n' && (matchesWildcard pattern text || matchesWildcard ('*' :: pattern) text)
  | _ :: _, [] => false
  | p :: pattern, c :: text => p == c && matchesWildcard pattern text

def evaluateWildcard : Except PyError Bool :=
  onText value fun text => (asArgument condition).map fun pattern =>
    matchesWildcard pattern.toList text.toList

/-- `_evaluate_numeric_condition`. The compiler lets lists through only. -/
def evaluateNumericCondition (conditions value : Json) : Except PyError Bool :=
  if isNumber value then
    match conditions with
    | .arr conditions => Patterns.evaluateNumericCondition py conditions value
    | _ => .error .typeError
  else .ok false

/-- No condition holds that follows `anything-but`. -/
def evaluateNone (predicate : Json → Json → Except PyError Bool) (notCondition value : Json) :
    Except PyError Bool :=
  match notCondition with
  | .str text => (predicate (.str text) value).map (!·)
  | .arr conditions => conditions.allM fun condition => (predicate condition value).map (!·)
  | _ => .ok false

/-- The branch for `anything-but`, for a field that exists. -/
def evaluateAnythingBut (anythingBut value : Json) : Except PyError Bool :=
  match anythingBut with
  | .obj _ =>
    match operand anythingBut "prefix", operand anythingBut "suffix",
      operand anythingBut "equals-ignore-case", operand anythingBut "wildcard" with
    | some condition, _, _, _ => evaluateNone evaluatePrefix condition value
    | none, some condition, _, _ => evaluateNone evaluateSuffix condition value
    | none, none, some condition, _ => evaluateNone (evaluateEqualIgnoreCase py) condition value
    | none, none, none, some condition => evaluateNone evaluateWildcard condition value
    | none, none, none, none => .ok false
  | .arr items => .ok !(items.any (py.eq value))
  | _ => .ok !(py.eq value anythingBut)

/-- The branch for `prefix` or `suffix`. -/
def evaluateAffix (evaluate : Json → Json → Except PyError Bool) (condition value : Json) :
    Except PyError Bool :=
  match condition with
  | .obj _ =>
    match operand condition "equals-ignore-case" with
    | some ignored =>
      -- Both are turned to lower case before their types are looked at.
      ignored.asStr.bind fun ignored => value.asStr.bind fun text =>
        evaluate (.str (py.lower ignored)) (.str (py.lower text))
    | none => .ok false
  | _ => evaluate condition value

/-- A member of a condition that is there and is true. -/
def trueOperand (operator : String) : Option Json :=
  let value := condition.get operator .null
  if value.truthy then some value else none

def evaluateOperator : Except PyError Bool :=
  match operand condition "prefix", operand condition "suffix",
    operand condition "equals-ignore-case", trueOperand condition "numeric",
    trueOperand condition "cidr", operand condition "wildcard" with
  | some affix, _, _, _, _, _ => evaluateAffix py evaluatePrefix affix value
  | none, some affix, _, _, _, _ => evaluateAffix py evaluateSuffix affix value
  | none, none, some other, _, _, _ => evaluateEqualIgnoreCase py other value
  | none, none, none, some numeric, _, _ => evaluateNumericCondition py numeric value
  | none, none, none, none, some cidr, _ => .ok (evaluateCidr py cidr value)
  | none, none, none, none, none, some wildcard => evaluateWildcard wildcard value
  | none, none, none, none, none, none => .ok false

/-- `_evaluate_condition`, for what is found at a path, if anything is. -/
def evaluateCondition (field : Option Json) (condition : Json) : Except PyError Bool :=
  match condition with
  | .obj _ =>
    match operand condition "exists", operand condition "anything-but", field with
    | some mustExist, _, _ => .ok (py.eq mustExist (.bool field.isSome))
    | none, some _, none => .ok false
    | none, some anythingBut, some value => evaluateAnythingBut py anythingBut value
    | none, none, none => .ok false
    | none, none, some .null => .ok false
    | none, none, some value => evaluateOperator py condition value
  | _ =>
    match field with
    | none => .ok false
    | some value => .ok (py.eq value condition)

def evaluateNestedEventPatternOnDict (pattern payload : List (String × Json)) :
    Except PyError Bool :=
  evaluateNestedPattern (evaluateCondition py) pattern payload

/-- An event: a text, or an object. -/
inductive Event
  | text (event : String)
  | body (members : List (String × Json))

/-- `evaluate_pattern_on_event`, given `json.loads`, which fails on a text that is not JSON. -/
def evaluatePatternOnEvent (loads : String → Option Json) (pattern : List (String × Json))
    (event : Event) : Except PyError Bool :=
  match event with
  | .text text =>
    match loads text with
    | some (.obj body) => evaluateNestedEventPatternOnDict py pattern body
    | _ => .ok false
  | .body body => evaluateNestedEventPatternOnDict py pattern body

end Evaluate

/-! ### Processing the rules of a bus -/

/-- A rule, with the JSON value of its pattern if it has one. -/
structure Rule (τ : Type) where
  scheduleExpression : Option String
  eventPattern : Option Json
  targets : τ

section Process

-- What is done with the targets of a rule that matches.
variable {τ : Type} (py : Builtins) (loads : String → Option Json)
  (send : τ → Except RuleError Unit) (event : Event)

def matchesEvent (eventPattern : Option Json) : Except RuleError Bool :=
  match eventPattern with
  | none => .ok true
  | some pattern =>
    (compileJson py pattern).bind fun compiled =>
      (evaluatePatternOnEvent py loads compiled event).mapError .python

/-- `_process_rules`. -/
def processRules (rule : Rule τ) : Except RuleError Unit :=
  (matchesEvent py loads event rule.eventPattern).bind fun isMatch =>
    if isMatch then send rule.targets else .ok ()

/-- `_process_rules_async`: the rules that are processed, up to one that raises. -/
def processRulesAsync : List (Rule τ) → List (Rule τ)
  | [] => []
  | rule :: rules =>
    -- scheduled rules are left out
    if rule.scheduleExpression.any (· ≠ "") then processRulesAsync rules
    else
      match processRules py loads send event rule with
      | .ok _ => rule :: processRulesAsync rules
      | .error _ => [rule]

end Process

end LocalEmu.Events
