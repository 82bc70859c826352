import LocalEmu.Core.Iam.Matcher

/-!
# Policy Evaluation

The decision on a request, from the identity policies of the caller, the
policy of the resource, the permission boundary and the session policies.

The policies are given: where they come from is not part of the evaluation.
They are arbitrary JSON values, `null` for a policy that is not there.
-/

namespace LocalEmu.Iam

/-- The kinds of callers. -/
inductive PrincipalType
  | root
  | user
  | assumedRole
  | federatedUser
  | anonymous
  deriving DecidableEq

/-- `CallerIdentity`, with the fields the evaluation reads. -/
structure CallerIdentity where
  principalType : PrincipalType
  accountId : String
  arn : String
  tags : Context := []
  actingServices : List String := []

inductive Decision
  | allow
  | implicitDeny
  | explicitDeny
  deriving DecidableEq

/-- The arguments of `evaluate` other than the policies. -/
structure Request where
  caller : CallerIdentity
  action : String
  resource : String
  conditions : Context := []

/-- The policies of a request. -/
structure Policies where
  identity : List Json := []
  resource : Json := .null
  boundary : Json := .null
  session : List Json := []

variable (py : Builtins)

/-- `\x7b**conditions, **caller.tags\x7d`: an existing key keeps its place. -/
def mergeContext (conditions tags : Context) : Context :=
  tags.foldl
    (fun context tag =>
      if (context.lookup tag.1).isSome then
        context.map fun member => if member.1 = tag.1 then tag else member
      else context ++ [tag])
    conditions

variable (request : Request)

def Request.context : Context :=
  mergeContext request.conditions request.caller.tags

/-- The statements of a policy. -/
def iterPolicyStatements (policy : Json) : List Json :=
  match policy.get "Statement" .null with
  | .obj members => [.obj members]
  | .arr items => items.filter Json.isObj
  | _ => []

/-! ### Principals -/

variable (caller : CallerIdentity) (principal : Json)

def arnOrAccountMatches : Except PyError Bool :=
  if principal.isStr "*" || principal.isStr caller.accountId || principal.isStr caller.arn then
    pure true
  else do
    let value ← principal.asStr
    if endsWith value ":root" then
      match (splitColons value)[4]? with
      | some account => pure (account == caller.accountId)
      | none => throw .indexError
    else pure false

def federatedMatches : Except PyError Bool :=
  if principal.isStr "*" then pure true
  else if caller.principalType = .assumedRole then
    match principal with
    | .str s => pure (hasPart s caller.arn)
    | _ => throw .typeError
  else pure false

def principalMatches (caller : CallerIdentity) : Except PyError Bool :=
  match principal with
  | .str s => if s == "*" then pure true else arnOrAccountMatches caller (.str s)
  | .obj _ => do
      let principalsOf := fun key => (principal.get key (.arr [])).listify
      if ← anyItem (principalsOf "AWS") (arnOrAccountMatches caller) then pure true
      else if ← (if caller.actingServices.isEmpty then pure false
          else anyItem (principalsOf "Service") fun service =>
            pure (caller.actingServices.any fun acting => service.isStr acting)) then pure true
      else if ← anyItem (principalsOf "Federated") (federatedMatches caller) then pure true
      else anyItem (principalsOf "CanonicalUser") fun user => pure (user.isStr caller.accountId)
  | _ => pure false

variable (statement : Json)

/-- The caller against the principals of a statement. -/
def matchesPrincipal (caller : CallerIdentity) : Except PyError Bool :=
  let principal := statement.get "Principal" .null
  let notPrincipal := statement.get "NotPrincipal" .null
  if principal.truthy && notPrincipal.truthy then pure false
  else if notPrincipal.truthy then do
    let found ← principalMatches notPrincipal caller
    pure (!found)
  else if !principal.truthy then pure false
  else principalMatches principal caller

/-! ### Statements -/

def allChecks (checks : List (Unit → Except PyError Bool)) : Except PyError Bool :=
  checks.allM fun check => check ()

/-- Whether a statement denies the request, as the first step reads it. The
    principal of a resource policy is checked before the conditions. -/
def denies (isResourcePolicy : Bool) (statement : Json) : Except PyError Bool :=
  allChecks
    [fun _ => pure ((statement.get "Effect" .null).isStr "Deny"),
     fun _ => matchesAction py statement request.action,
     fun _ => matchesResource py statement request.resource request.context,
     fun _ => if isResourcePolicy then matchesPrincipal statement request.caller else pure true,
     fun _ => matchesConditions py statement request.context]

/-- Whether a statement of the resource policy grants the request, as the
    second step reads it. The principal is checked first. -/
def grants : Except PyError Bool :=
  allChecks
    [fun _ => pure ((statement.get "Effect" .null).isStr "Allow"),
     fun _ => matchesPrincipal statement request.caller,
     fun _ => matchesAction py statement request.action,
     fun _ => matchesResource py statement request.resource request.context,
     fun _ => matchesConditions py statement request.context]

/-- Whether a statement allows the request, as the later steps read it. -/
def allows : Except PyError Bool :=
  allChecks
    [fun _ => pure ((statement.get "Effect" .null).isStr "Allow"),
     fun _ => matchesAction py statement request.action,
     fun _ => matchesResource py statement request.resource request.context,
     fun _ => matchesConditions py statement request.context]

/-! ### Evaluation -/

/-- The nested loops over policies and their statements: whether a statement passes the test. -/
def anyStatement (policies : List Json) (test : Json → Except PyError Bool) :
    Except PyError Bool :=
  policies.anyM fun policy => (iterPolicyStatements policy).anyM test

/-- A policy as a list, empty if it is not there. -/
def Json.present (policy : Json) : List Json := if policy.truthy then [policy] else []

/-- `get_session_policies`: only a session has session policies. -/
def getSessionPolicies (policies : List Json) : List Json :=
  if caller.principalType = .assumedRole ∨ caller.principalType = .federatedUser then policies
  else []

/-- `PolicyEvaluator.evaluate`. -/
def evaluate (policies : Policies) : Except PyError Decision :=
  if request.caller.principalType = .root then pure .allow
  else do
    -- Step 1: an explicit deny.
    let denied ← do
      if ← anyStatement policies.identity (denies py request false) then pure true
      else if ← anyStatement policies.resource.present (denies py request true) then pure true
      else anyStatement policies.boundary.present (denies py request false)
    if denied then pure .explicitDeny
    -- Step 2: an allow of the resource policy.
    else if ← anyStatement policies.resource.present (grants py request) then pure .allow
    -- Step 3: an allow of an identity policy.
    else if !(← anyStatement policies.identity (allows py request)) then pure .implicitDeny
    -- Step 4: the permission boundary.
    else if policies.boundary.truthy &&
        !(← anyStatement policies.boundary.present (allows py request)) then pure .implicitDeny
    -- Step 5: the session policies.
    else
      let session := getSessionPolicies request.caller policies.session
      if !session.isEmpty && !(← anyStatement session (allows py request)) then
        pure .implicitDeny
      else pure .allow

end LocalEmu.Iam
