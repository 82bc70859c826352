import LocalEmu.Core.Iam.Json

/-!
# Matching Statements

The three matchers a policy statement goes through: its actions, its
resources and its conditions. Each accepts a text or a list for most elements
and treats a statement that names both an element and its negation, or
neither, as one that does not match.

What none of them does is to check the shapes it does not expect. A number in
the place of a pattern raises, and the exception ends the whole evaluation.
-/

namespace LocalEmu.Iam

/-- The request context of the conditions, and of the policy variables. -/
abbrev Context := List (String × Json)

variable (py : Builtins)

def escapeBrackets (pattern : String) : String :=
  replaceText (replaceText pattern "[" "[[]") "]" "[]]"

/-! ### Actions -/

/-- `fnmatch` of an action with a pattern, ignoring case. -/
def actionPatternMatches (action : String) (pattern : Json) : Except PyError Bool := do
  let pattern ← pattern.asStr
  pure (py.fnmatch (py.lower action) (escapeBrackets (py.lower pattern)))

/-- `any(test(item) for item in value)`. -/
def anyItem (value : Json) (test : Json → Except PyError Bool) : Except PyError Bool := do
  let items ← value.iter
  items.anyM test

variable (context : Context) (statement : Json)

def matchesAction (action : String) : Except PyError Bool :=
  let actions := (statement.get "Action" (.arr [])).listify
  let notActions := (statement.get "NotAction" (.arr [])).listify
  if actions.truthy && notActions.truthy then pure false
  else if !actions.truthy && !notActions.truthy then pure false
  else if notActions.truthy then do
    let found ← anyItem notActions (actionPatternMatches py action)
    pure (!found)
  else anyItem actions (actionPatternMatches py action)

/-! ### Resources -/

/-- The value of a policy variable: that of the key, or of the first key that
    is the same ignoring case, or nothing. -/
def variableValue (name : String) : String :=
  match context.lookup name with
  | some .null | none =>
    match context.find? fun member => py.lower member.1 == py.lower name with
    | some member => py.str member.2
    | none => ""
  | some value => py.str value

/-- Replace every `$\x7bname\x7d` with a non-empty name. The first argument
    bounds the length of the text. -/
def substituteVariables (value : String → String) : Nat → List Char → List Char
  | 0, text => text
  | _ + 1, [] => []
  | n + 1, c :: rest =>
    let body := rest.drop 1
    let name := body.takeWhile fun d => d != '}'
    if c == '$' && rest.head? == some '{' && !name.isEmpty && name.length < body.length then
      (value (String.ofList name)).toList ++
        substituteVariables value n (body.drop (name.length + 1))
    else c :: substituteVariables value n rest

/-- `_substitute_policy_variables`, on a text. -/
def substitutePolicyVariables (pattern : String) : String :=
  if context.isEmpty || !hasPart "$\x7b" pattern then pattern
  else String.ofList
    (substituteVariables (variableValue py context) pattern.toList.length pattern.toList)

/-- `_substitute_policy_variables`, on an element of a resource list. The test for a variable is a
    membership test: it raises on a number, and it finds nothing in most lists and dictionaries. -/
def substituteItem (pattern : Json) : Except PyError Json :=
  if context.isEmpty then pure pattern
  else
    match pattern with
    | .str s => pure (.str (substitutePolicyVariables py context s))
    | .arr items =>
      if items.any fun item => item.isStr "$\x7b" then throw .typeError else pure pattern
    | .obj members => if (members.lookup "$\x7b").isSome then throw .typeError else pure pattern
    | _ => throw .typeError

/-- A resource name against a pattern. -/
def arnMatches (pattern arn : String) : Bool :=
  let patternParts := splitColons pattern
  let arnParts := splitColons arn
  if pattern == "*" then true
  else if patternParts.length ≥ 6 && arnParts.length ≥ 6 then
    ((patternParts.take 5).zip (arnParts.take 5)).all
        (fun (pat, actual) => py.fnmatch actual (escapeBrackets pat)) &&
      py.fnmatch (":".intercalate (arnParts.drop 5))
        (escapeBrackets (":".intercalate (patternParts.drop 5)))
  else if (dropHead? pattern "arn:").isSome || (dropHead? arn "arn:").isSome then false
  else py.fnmatch arn (escapeBrackets pattern)

/-- `arn_matches`, on an element of a resource list. -/
def itemArnMatches (arn : String) (pattern : Json) : Except PyError Bool := do
  let pattern ← pattern.asStr
  pure (arnMatches py pattern arn)

def matchesResource (resourceArn : String) (context : Context) : Except PyError Bool :=
  let resources := (statement.get "Resource" (.arr [])).listify
  let notResources := (statement.get "NotResource" (.arr [])).listify
  if resources.truthy && notResources.truthy then pure false
  else if !resources.truthy && !notResources.truthy then pure false
  else do
    let resources ← (← resources.iter).mapM (substituteItem py context)
    let notResources ← (← notResources.iter).mapM (substituteItem py context)
    if !notResources.isEmpty then do
      let found ← notResources.anyM (itemArnMatches py resourceArn)
      pure (!found)
    else resources.anyM (itemArnMatches py resourceArn)

/-! ### Conditions -/

/-- A comparison of two numbers or two dates. -/
inductive Comparison
  | equals
  | notEquals
  | lessThan
  | lessThanEquals
  | greaterThan
  | greaterThanEquals
  deriving DecidableEq

/-- Whether a comparison holds of two values that compare as given; nothing
    but `notEquals` holds of values that do not. -/
def Comparison.holds (comparison : Comparison) (ordering : Option Ordering) : Bool :=
  match comparison with
  | equals => ordering == some .eq
  | notEquals => ordering != some .eq
  | lessThan => ordering == some .lt
  | lessThanEquals => ordering == some .lt || ordering == some .eq
  | greaterThan => ordering == some .gt
  | greaterThanEquals => ordering == some .gt || ordering == some .eq

/-- `_OPERATORS`. An operator on texts or addresses comes with its negation. -/
inductive Operator
  | stringEquals (negated : Bool)
  | stringEqualsIgnoreCase (negated : Bool)
  | stringLike (negated : Bool)
  | numeric (comparison : Comparison)
  | date (comparison : Comparison)
  | bool
  | ipAddress (negated : Bool)
  | arnEquals (negated : Bool)
  | arnLike (negated : Bool)
  | null
  deriving DecidableEq

def operators : List (String × Operator) :=
  [("StringEquals", .stringEquals false),
   ("StringNotEquals", .stringEquals true),
   ("StringEqualsIgnoreCase", .stringEqualsIgnoreCase false),
   ("StringNotEqualsIgnoreCase", .stringEqualsIgnoreCase true),
   ("StringLike", .stringLike false),
   ("StringNotLike", .stringLike true),
   ("NumericEquals", .numeric .equals),
   ("NumericNotEquals", .numeric .notEquals),
   ("NumericLessThan", .numeric .lessThan),
   ("NumericLessThanEquals", .numeric .lessThanEquals),
   ("NumericGreaterThan", .numeric .greaterThan),
   ("NumericGreaterThanEquals", .numeric .greaterThanEquals),
   ("DateEquals", .date .equals),
   ("DateNotEquals", .date .notEquals),
   ("DateLessThan", .date .lessThan),
   ("DateLessThanEquals", .date .lessThanEquals),
   ("DateGreaterThan", .date .greaterThan),
   ("DateGreaterThanEquals", .date .greaterThanEquals),
   ("Bool", .bool),
   ("IpAddress", .ipAddress false),
   ("NotIpAddress", .ipAddress true),
   ("ArnEquals", .arnEquals false),
   ("ArnNotEquals", .arnEquals true),
   ("ArnLike", .arnLike false),
   ("ArnNotLike", .arnLike true),
   ("Null", .null)]

/-- `_parse_date`: the first format that fits. -/
def parseDate (value : Json) : Except PyError Datetime :=
  ["%Y-%m-%dT%H:%M:%SZ", "%Y-%m-%dT%H:%M:%S%z", "%Y-%m-%d"].foldr
    (fun format rest =>
      match py.strptime value format with
      | .error .valueError => rest
      | result => result)
    (.error .valueError)

/-- Compare two dates. Dates with and without a time zone are unequal, and ordering them raises. -/
def compareDates (comparison : Comparison) (a b : Datetime) : Except PyError Bool :=
  if a.aware = b.aware then pure (comparison.holds (some (compare a.seconds b.seconds)))
  else
    match comparison with
    | .equals | .notEquals => pure (comparison.holds none)
    | _ => throw .typeError

def ipInCidr (ip cidr : String) : Bool := (py.ipInNetwork ip cidr).getD false

/-- The comparison an operator stands for, of a context value and a condition
    value. `null` is `None`. -/
def Operator.compare (operator : Operator) (a : Json) (b : String) : Except PyError Bool :=
  match operator with
  | stringEquals negated => pure ((py.str a == b) != negated)
  | stringEqualsIgnoreCase negated => pure ((py.lower (py.str a) == py.lower b) != negated)
  | stringLike negated => pure (py.fnmatch (py.str a) b != negated)
  | numeric comparison => do pure (comparison.holds (← py.compareFloat a (.str b)))
  | date comparison => do compareDates comparison (← parseDate py a) (← parseDate py (.str b))
  | bool => pure (py.lower (py.str a) == py.lower b)
  | ipAddress negated => pure (ipInCidr py (py.str a) b != negated)
  | arnEquals negated => pure ((py.str a == b) != negated)
  | arnLike negated => pure (arnMatches py b (py.str a) != negated)
  | null =>
    let isNone := match a with
      | .null => true
      | _ => false
    pure (isNone == (py.lower b == "true"))

def safeCompare (operator : Operator) (a : Json) (b : String) : Except PyError Bool :=
  match operator.compare py a b with
  | .error .valueError | .error .typeError => pure false
  | result => result

/-- The set operators. -/
inductive SetOperator
  | forAllValues
  | forAnyValue

/-- The parts of an operator name. -/
structure OperatorName where
  ifExists : Bool
  setOp : Option SetOperator
  base : String

def parseOperatorName (operator : String) : OperatorName :=
  let ifExists := endsWith operator "IfExists"
  let base := if ifExists then replaceText operator "IfExists" "" else operator
  match dropHead? base "ForAllValues:" with
  | some rest => ⟨ifExists, some .forAllValues, rest⟩
  | none =>
    match dropHead? base "ForAnyValue:" with
    | some rest => ⟨ifExists, some .forAnyValue, rest⟩
    | none => ⟨ifExists, none, base⟩

/-- The value of a condition key. An empty list counts as absent. -/
def contextValue (key : String) : Option Json :=
  match context.lookup key with
  | some .null | none => none
  | some (.arr []) => none
  | some value => some value

/-- One key of a condition block: whether the loop goes on. -/
def matchesConditionKey (name : OperatorName) (operator : Operator)
    (member : String × Json) : Except PyError Bool := do
  let values ← member.2.listify.iter
  let conditionValues := values.map fun v => substitutePolicyVariables py context (py.str v)
  match contextValue context member.1 with
  | none =>
    if name.ifExists then pure true
    else if operator = .null then
      match conditionValues with
      | [] => throw .indexError
      | first :: _ => operator.compare py .null first
    else pure false
  | some value =>
    let values := match value with
      | .arr items => items
      | value => [value]
    match name.setOp with
    | some .forAllValues =>
      values.allM fun cv => conditionValues.anyM (safeCompare py operator cv)
    | some .forAnyValue =>
      values.anyM fun cv => conditionValues.anyM (safeCompare py operator cv)
    | none => conditionValues.anyM (safeCompare py operator value)

/-- One operator of a condition element: whether the loop goes on. -/
def matchesConditionBlock (block : String × Json) : Except PyError Bool :=
  let name := parseOperatorName block.1
  match operators.lookup name.base with
  -- An unknown operator does not match.
  | none => pure false
  | some operator => do
      let members ← block.2.items
      members.allM (matchesConditionKey py context name operator)

def matchesConditions (context : Context) : Except PyError Bool :=
  let conditions := statement.get "Condition" .null
  if !conditions.truthy then pure true
  else do
    let blocks ← conditions.items
    blocks.allM (matchesConditionBlock py context)

end LocalEmu.Iam
