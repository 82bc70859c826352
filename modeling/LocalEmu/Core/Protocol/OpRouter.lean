import Mathlib.Data.List.Sort
import LocalEmu.Base.Query

/-!
# The Router of REST Operations

The operations of a service are grouped by their path and their method. When a group has
more than one operation, a request is matched against the query arguments and the headers
that each of them requires, those that require most first.

A required value of a query argument comes from an iterator that the rule keeps. It is
consumed by the first request that is compared with it.
-/

namespace LocalEmu.Protocol

/-! ### Service models -/

/-- Where a member of the input is in a request, and its name there. -/
structure Member where
  location : Option Text
  name : Text
  deriving DecidableEq

/-- `OperationModel`. The required members are those of the input, if it is a structure. -/
structure OperationModel where
  name : Text
  authPath : Option Text
  requestUri : Text
  method : Text
  deprecated : Bool
  requiredMembers : List Member
  deriving DecidableEq

/-- What a required query argument must be: anything, or what an iterator still has. -/
inductive RequiredValues
  | any
  | iterator (remaining : List Text)
  deriving DecidableEq

def RequiredValues.remaining : RequiredValues → List Text
  | any => []
  | iterator remaining => remaining

structure HttpOperation where
  operation : OperationModel
  path : Text
  method : Text
  queryArgs : Dict Text RequiredValues
  headerArgs : List Text
  deprecated : Bool

/-- `text.rstrip("/")`. -/
def rstripSlash (text : Text) : Text := (text.reverse.dropWhile fun c => c == '/').reverse

variable (operations : List OperationModel) (operation : OperationModel)

def uri : Text :=
  match operation.authPath with
  | some authPath =>
    if authPath = [] then operation.requestUri
    else
      let separated := operation.requestUri.dropWhile fun c => c != '?'
      rstripSlash authPath ++ separated
  | none => operation.requestUri

/-- The query arguments of the URI, with an iterator over the values that are not blank. -/
def uriArgs (uri : Text) : Dict Text RequiredValues :=
  match uri.splitOn '?' with
  | _ :: query :: _ =>
    (Query.parseQs query).mapValues fun values =>
      .iterator (values.filter fun value => decide (value ≠ []))
  | _ => .empty

def addMember (args : Dict Text RequiredValues × List Text) (member : Member) :
    Dict Text RequiredValues × List Text :=
  if member.location = some "header".toList then (args.1, args.2 ++ [member.name])
  else if member.location = some "querystring".toList then
    if member.name ∈ args.1.keys then args else (args.1.set member.name .any, args.2)
  else args

def fromOperation : HttpOperation :=
  let uri := uri operation
  let args := operation.requiredMembers.foldl addMember (uriArgs uri, [])
  { operation := operation
    path := uri.takeWhile fun c => c != '?'
    method := operation.method
    queryArgs := args.1
    headerArgs := args.2
    deprecated := operation.deprecated }

/-! ### Requests -/

/-- A request, with its query arguments and the names of its headers. -/
structure Request where
  host : Text
  method : Text
  rawPath : Text
  args : List (Text × Text)
  headers : List Text

/-- `text.lower()`, of the name of a header. -/
def lower (name : Text) : Text := name.map Char.toLower

/-- `key in headers`. -/
def hasHeader (headers : List Text) (key : Text) : Bool :=
  headers.any fun name => decide (lower name = lower key)

variable (args : List (Text × Text))

/-- `query_args.getlist(key)`. -/
def getlist (key : Text) : List Text :=
  (args.filter fun arg => decide (arg.1 = key)).map Prod.snd

/-! ### Rules -/

/-- `_RequiredArgsRule`, with the items of its query arguments. -/
structure RequiredArgsRule where
  endpoint : OperationModel
  requiredQueryArgs : List (Text × RequiredValues)
  requiredHeaderArgs : List Text
  matchScore : Nat
  deriving DecidableEq

/-- `_RequiredArgsRule(operation)`. -/
def RequiredArgsRule.new (operation : HttpOperation) : RequiredArgsRule :=
  let score := 10 + 10 * operation.queryArgs.entries.length + 10 * operation.headerArgs.length
  { endpoint := operation.operation
    requiredQueryArgs := operation.queryArgs.entries
    requiredHeaderArgs := operation.headerArgs
    matchScore := if operation.deprecated then score - 5 else score }

/-- The loop over the required values: whether they are all there, and what the iterator has after
    it. -/
def consume (present : List Text) : List Text → Bool × List Text
  | [] => (true, [])
  | value :: remaining =>
    if value ∈ present then consume present remaining else (false, remaining)

/-- The loop over the required query arguments. -/
def matchArgs (args : List (Text × Text)) :
    List (Text × RequiredValues) → Bool × List (Text × RequiredValues)
  | [] => (true, [])
  | (key, values) :: rest =>
    if key ∈ args.map Prod.fst then
      match values with
      | .any =>
        let next := matchArgs args rest
        (next.1, (key, .any) :: next.2)
      | .iterator remaining =>
        let read := consume (getlist args key) remaining
        if read.1 then
          let next := matchArgs args rest
          (next.1, (key, .iterator read.2) :: next.2)
        else (false, (key, .iterator read.2) :: rest)
    else (false, (key, values) :: rest)

def RequiredArgsRule.matches (rule : RequiredArgsRule) (request : Request) :
    Bool × RequiredArgsRule :=
  let matched := matchArgs request.args rule.requiredQueryArgs
  (matched.1 && rule.requiredHeaderArgs.all fun key => hasHeader request.headers key,
    { rule with requiredQueryArgs := matched.2 })

def matchRequest (request : Request) :
    List RequiredArgsRule → Option OperationModel × List RequiredArgsRule
  | [] => (none, [])
  | rule :: rules =>
    let matched := rule.matches request
    if matched.1 then (some rule.endpoint, matched.2 :: rules)
    else
      let next := matchRequest request rules
      (next.1, matched.2 :: next.2)

/-- The rule of a group: that of its only operation, or a `_RequestMatchingRule`. -/
inductive Rule
  | strict (endpoint : OperationModel)
  | matching (rules : List RequiredArgsRule)

/-- `_RequestMatchingRule(operations)`. -/
def sortedRules (operations : List HttpOperation) : List RequiredArgsRule :=
  (operations.map .new).insertionSort fun a b => b.matchScore ≤ a.matchScore

def Rule.new (operations : List HttpOperation) : Rule :=
  match operations with
  | [operation] => .strict operation.operation
  | operations => .matching (sortedRules operations)

/-! ### The router -/

/-- A path with its parameters, and a method. -/
abbrev Target := Text × Text

/-- `(http_op.path, http_op.method)`. -/
def HttpOperation.target (operation : HttpOperation) : Target := (operation.path, operation.method)

/-- What the matching of path and method raises. -/
inductive RoutingError
  | notFound
  | methodNotAllowed

/-- The matching of a path and a method, with the parameters of the path. It returns one of the
    targets. -/
structure Matcher where
  find : List Target → Text → Text → Text → Except RoutingError (Target × List (Text × Text))
  find_mem : ∀ targets host path method target args,
    find targets host path method = .ok (target, args) → target ∈ targets

/-- `RestServiceOperationRouter`. -/
structure Router where
  map : Dict Target Rule

def createServiceMap : Dict Target Rule :=
  (Dict.group HttpOperation.target (operations.map fromOperation)).mapValues Rule.new

/-- `RestServiceOperationRouter(service)`. -/
def Router.new : Router := ⟨createServiceMap operations⟩

def postProcessArgName : Text → Text
  | '_' :: '0' :: '_' :: rest => '-' :: postProcessArgName rest
  | c :: rest => c :: postProcessArgName rest
  | [] => []

def postProcessArgs : Dict Text Text :=
  .ofEntries (args.map fun arg => (postProcessArgName arg.1, Query.unquote arg.2))

variable (request : Request)

def Request.matchedMethod : Text :=
  if request.method = "OPTIONS".toList then "GET".toList else request.method

def Request.matchedPath : Text :=
  let path := rstripSlash request.rawPath
  if path = [] then ['/'] else path

variable (matcher : Matcher) (router : Router)

/-- The path and the method of a request are matched. -/
def Router.find (request : Request) : Except RoutingError (Target × List (Text × Text)) :=
  matcher.find router.map.keys request.host request.matchedPath request.matchedMethod

/-- An operation with the arguments of the path. -/
abbrev Outcome := Option (OperationModel × Dict Text Text)

/-- `match`. There is no outcome when it raises `NotFound`. -/
def Router.match (request : Request) : Outcome × Router :=
  match router.find matcher request with
  | .error _ => (none, router)
  | .ok (target, args) =>
    match router.map.get? target with
    | none => (none, router)
    | some (.strict endpoint) => (some (endpoint, postProcessArgs args), router)
    | some (.matching rules) =>
      let matched := matchRequest request rules
      (matched.1.map fun endpoint => (endpoint, postProcessArgs args),
        ⟨router.map.set target (.matching matched.2)⟩)

end LocalEmu.Protocol
