import LocalEmu.Base.Dict
import LocalEmu.Base.Base64
import LocalEmu.Base.JsonText

/-!
# Lambda@Edge

A distribution runs functions on its requests and responses, at four stages. A function is given
an event, and returns the request or the response of the event as it shall be, or at the stages of
the request a response that is to be sent at once. The functions of a stage run one after the
other.

The results of functions are JSON values, which are read without checks: what is of the wrong
type raises an exception. A text is expected where the state of a request keeps one; the code
keeps any value there and fails when it uses it.

## Main definitions

* `RequestState`, `ResponseState`: What the functions may change.
* `headersToCf`, `headersFromCf`: The headers of an event.
* `applyRequestMutations`, `applyResponseMutations`, `synthesizeResponse`: What is made of a result.
* `runRequestChain`, `runResponseChain`: The stages.
-/

namespace LocalEmu.CloudFront.Edge

abbrev Bytes := List UInt8

/-! ### States -/

/-- The event types. -/
inductive EventType
  | viewerRequest
  | originRequest
  | originResponse
  | viewerResponse
  deriving DecidableEq

def EventType.text : EventType → Text
  | .viewerRequest => "viewer-request".toList
  | .originRequest => "origin-request".toList
  | .originResponse => "origin-response".toList
  | .viewerResponse => "viewer-response".toList

structure RequestState where
  method : Text
  uri : Text
  querystring : Text
  headers : Dict Text Text
  body : Option Bytes

structure ResponseState where
  status : Int
  headers : Dict Text Text
  body : Bytes

structure ShortCircuit where
  status : Int
  headers : Dict Text Text
  body : Bytes

/-- What reading a result may raise. -/
inductive Failure
  | attributeError
  | typeError
  | keyError

variable {F : Type}

/-- What is used of the standard library: `upper` and `lower`, the length of an event, `int` and
    `bytes` of values, and which floats are true. -/
structure Library (F : Type) where
  upper : Text → Text
  lower : Text → Text
  dumpsLength : JsonValue F → Nat
  parseInt : Text → Option Int
  intOfFloat : F → Option Int
  isTrue : F → Bool
  bytesOf : JsonValue F → Except Failure Bytes
  upper_ascii : ∀ text, (∀ c ∈ text, c.toNat < 128) → upper text = text.map Char.toUpper
  lower_ascii : ∀ text, (∀ c ∈ text, c.toNat < 128) → lower text = text.map Char.toLower
  parseInt_intText : ∀ n, parseInt (JsonText.intText n) = some n

/-! ### Values -/

def membersOf (members : List (String × JsonValue F)) : List (Text × JsonValue F) :=
  members.map fun member => (member.1.toList, member.2)

def objectOf (members : List (String × JsonValue F)) : JsonValue F := .obj (membersOf members)

variable (library : Library F) (members : List (Text × JsonValue F)) (call : Call)
  (response : ResponseState) (request : RequestState) (key : String)

/-- `members.get(key)`. -/
def get : Option (JsonValue F) :=
  members.lookup key.toList

def truthy : JsonValue F → Bool
  | .null => false
  | .bool b => b
  | .int n => n ≠ 0
  | .float x => library.isTrue x
  | .str s => s ≠ []
  | .arr items => !items.isEmpty
  | .obj members => !members.isEmpty

/-- `members.get(key)`, if it is true. -/
def getTrue : Option (JsonValue F) :=
  (get members key).filter (truthy library)

/-- A text, or the default if there is no true value. -/
def textOr (default : Text) : Option (JsonValue F) → Except Failure Text
  | none => .ok default
  | some (.str s) => .ok s
  | some _ => .error .attributeError

/-! ### Headers -/

def headerEntry (header : Text × Text) : JsonValue F :=
  objectOf [("key", .str header.1), ("value", .str header.2)]

def headersToCf (headers : Dict Text Text) : JsonValue F :=
  let out : Dict Text (List (JsonValue F)) := headers.entries.foldl (fun out header =>
    out.set (library.lower header.1)
      ((out.get? (library.lower header.1)).getD [] ++ [headerEntry header])) .empty
  .obj (out.entries.map fun entry => (entry.1, .arr entry.2))

/-- `entry.get(key, "")`. -/
def entryText : JsonValue F → Except Failure Text
  | .obj members =>
    match get members key with
    | none => .ok []
    | some (.str s) => .ok s
    | some _ => .error .typeError
  | _ => .error .attributeError

/-- `entry.get("key") or ""`. -/
def entryKey : JsonValue F → Except Failure Text
  | .obj members => textOr [] (getTrue library members "key")
  | _ => .error .attributeError

/-- One step of the loop of `_headers_from_cf`. -/
def addHeader (out : Dict Text Text) (member : Text × JsonValue F) :
    Except Failure (Dict Text Text) :=
  if truthy library member.2 then
    match member.2 with
    | .arr (first :: rest) => do
      let name ← entryKey library first
      let values ← (first :: rest).mapM (entryText "value")
      return out.set name ([','].intercalate values)
    | .obj _ => .error .keyError
    | _ => .error .attributeError
  else .ok out

def headersFromCf : Option (JsonValue F) → Except Failure (Dict Text Text)
  | some (.obj members) => members.foldlM (addHeader library) .empty
  | some value => if truthy library value then .error .attributeError else .ok .empty
  | none => .ok .empty

/-- The headers of a result, or the current ones if it has none. -/
def headersOr (current : Dict Text Text) (headers : Option (JsonValue F)) :
    Except Failure (Dict Text Text) :=
  (headersFromCf library headers).map fun headers =>
    if headers.entries = [] then current else headers

/-! ### Events -/

/-- What the events of a chain have in common. -/
structure Call where
  eventType : EventType
  distributionId : Text
  requestId : Text
  clientIp : Text

def maxBodyBytes : Nat := 1048576

def checkSize (event : JsonValue F) : Option (JsonValue F) :=
  if maxBodyBytes < library.dumpsLength event then none else some event

/-- An event around the parts of its `cf`. -/
def eventOf (parts : List (String × JsonValue F)) : JsonValue F :=
  objectOf [("Records", .arr [objectOf [("cf", objectOf (("config", objectOf [
    ("distributionDomainName", .str (call.distributionId ++ ".cloudfront.net".toList)),
    ("distributionId", .str call.distributionId), ("eventType", .str call.eventType.text),
    ("requestId", .str call.requestId)]) :: parts))]])]

def requestMembers : List (String × JsonValue F) :=
  [("clientIp", .str call.clientIp), ("method", .str (library.upper request.method)),
    ("uri", .str (if ['/'].isPrefixOf request.uri then request.uri else '/' :: request.uri)),
    ("querystring", .str request.querystring), ("headers", headersToCf library request.headers)]

/-- `_encode_body_for_event`: the data, and how it is encoded. -/
def encodeBodyForEvent (body : Bytes) : Text × Text :=
  match Text.decode body with
  | some text => (text, "text".toList)
  | none => (Base64.encodeStandard body, "base64".toList)

def requestValue (includeBody : Bool) (request : RequestState) : JsonValue F :=
  match includeBody, request.body with
  | true, some body =>
    objectOf (requestMembers library call request ++ [("body", objectOf [
      ("inputTruncated", .bool false), ("action", .str "read-only".toList),
      ("encoding", .str (encodeBodyForEvent body).2),
      ("data", .str (encodeBodyForEvent body).1)])])
  | _, _ => objectOf (requestMembers library call request)

/-- `build_request_event`, or nothing where it raises `ValueError`. -/
def buildRequestEvent (includeBody : Bool) (request : RequestState) : Option (JsonValue F) :=
  if call.eventType = .viewerRequest ∨ call.eventType = .originRequest then
    checkSize library (eventOf call [("request", requestValue library call includeBody request)])
  else none

def statusDesc (status : Int) : Text :=
  (match status with
    | 200 => "OK"
    | 201 => "Created"
    | 204 => "No Content"
    | 301 => "Moved Permanently"
    | 302 => "Found"
    | 304 => "Not Modified"
    | 400 => "Bad Request"
    | 401 => "Unauthorized"
    | 403 => "Forbidden"
    | 404 => "Not Found"
    | 500 => "Internal Server Error"
    | 502 => "Bad Gateway"
    | 503 => "Service Unavailable"
    | _ => "").toList

def responseValue : JsonValue F :=
  objectOf [("status", .str (JsonText.intText response.status)),
    ("statusDescription", .str (statusDesc response.status)),
    ("headers", headersToCf library response.headers)]

/-- `build_response_event`, or nothing where it raises `ValueError`. -/
def buildResponseEvent (response : ResponseState) : Option (JsonValue F) :=
  if call.eventType = .originResponse ∨ call.eventType = .viewerResponse then
    checkSize library (eventOf call [("request", objectOf (requestMembers library call request)),
      ("response", responseValue library response)])
  else none

/-! ### Results -/

inductive EdgeDecision (F : Type)
  | continueUnchanged
  | shortCircuit (response : List (Text × JsonValue F))
  | mutateRequest (request : List (Text × JsonValue F))
  | mutateResponse (response : List (Text × JsonValue F))

def parseRequestStageOutput : JsonValue F → EdgeDecision F
  | .obj members =>
    match get members "response", get members "request" with
    | some (.obj response), _ => .shortCircuit response
    | _, some (.obj request) => .mutateRequest request
    | _, _ =>
      if (get members "status").isSome then .shortCircuit members
      else if (get members "uri").isSome ∨ (get members "method").isSome then
        .mutateRequest members
      else .continueUnchanged
  | _ => .continueUnchanged

def parseResponseStageOutput : JsonValue F → EdgeDecision F
  | .obj members =>
    match get members "response" with
    | some (.obj response) => .mutateResponse response
    | _ => if (get members "status").isSome then .mutateResponse members else .continueUnchanged
  | _ => .continueUnchanged

def unwrapCfOutput : JsonValue F → Except Failure (JsonValue F)
  | .obj members =>
    match getTrue library members "Records" with
    | some (.arr (.obj record :: _)) =>
      .ok ((getTrue library record "cf").getD (.obj []))
    | some (.obj _) => .error .keyError
    | some (.arr _) | some (.str _) | none => .ok (.obj members)
    | some _ => .error .typeError
  | _ => .ok (.obj [])

/-- `apply_request_mutations`: headers, method, uri and query string. -/
def applyRequestMutations (current : Dict Text Text) (mutated : List (Text × JsonValue F)) :
    Except Failure (Dict Text Text × Text × Text × Text) := do
  let headers ← headersOr library current (get mutated "headers")
  let method := library.upper (← textOr [] (getTrue library mutated "method"))
  let uri ← textOr "/".toList (getTrue library mutated "uri")
  let querystring ← textOr [] ((get mutated "querystring").filter fun value =>
    match value with
    | .null => false
    | _ => true)
  return (headers, if method = [] then "GET".toList else method, uri, querystring)

/-- `int(value)`, or nothing where it is not a number. -/
def intOf : JsonValue F → Option Int
  | .int n => some n
  | .bool b => some (if b then 1 else 0)
  | .str s => library.parseInt s
  | .float x => library.intOfFloat x
  | _ => none

def statusOr (default : Int) (members : List (Text × JsonValue F)) : Int :=
  match getTrue library members "status" with
  | some value => (intOf library value).getD default
  | none => default

/-- The body of a result, or the default if it has none or is not to be decoded. -/
def bodyOr (default refused : Bytes) (members : List (Text × JsonValue F)) : Except Failure Bytes :=
  match get members "body" with
  | none => .ok default
  | some value => do
    let encoding := library.lower (← textOr "text".toList (getTrue library members "bodyEncoding"))
    let raw := if truthy library value then value else .str []
    if encoding = "base64".toList then
      match raw with
      | .str s => return ((Base64.decodeStandard s).toOption).getD refused
      | _ => return refused
    else
      match raw with
      | .str s => return s.utf8
      | raw => library.bytesOf raw

def applyResponseMutations
    (mutated : List (Text × JsonValue F)) : Except Failure ResponseState := do
  let headers ← headersOr library response.headers (get mutated "headers")
  let body ← bodyOr library response.body response.body mutated
  return ⟨statusOr library response.status mutated, headers, body⟩

/-- `synthesize_response_from_short_circuit`. -/
def synthesizeResponse : Except Failure ShortCircuit := do
  let headers ← headersFromCf library (get members "headers")
  let body ← bodyOr library [] [] members
  return ⟨statusOr library 200 members, headers, body⟩

/-! ### Chains -/

/-- An association of a cache behaviour. The function is what the invocation returns for an
    event: `null` also where it fails. -/
structure Association (F : Type) where
  eventType : EventType
  arn : Text
  includeBody : Bool
  function : JsonValue F → JsonValue F

def associationsFor (behavior : List (Association F)) (eventType : EventType) :
    List (Association F) :=
  behavior.filter fun a => decide (a.eventType = eventType ∧ a.arn ≠ [])

/-- What becomes of a request after the result of a function. -/
def requestStep (output : JsonValue F) : Except Failure (ShortCircuit ⊕ RequestState) := do
  match parseRequestStageOutput (← unwrapCfOutput library output) with
  | .shortCircuit response => return .inl (← synthesizeResponse library response)
  | .mutateRequest mutated =>
    let (headers, method, uri, querystring) ←
      applyRequestMutations library request.headers mutated
    return .inr { request with headers, method, uri, querystring }
  | _ => return .inr request

/-- The loop of `run_request_chain`. -/
def requestChain (library : Library F) (call : Call) :
    List (Association F) → RequestState → Except Failure (Option ShortCircuit × RequestState)
  | [], request => .ok (none, request)
  | association :: rest, request =>
    match buildRequestEvent library call association.includeBody request with
    | none => requestChain library call rest request
    | some event =>
      match association.function event with
      | .null => requestChain library call rest request
      | output =>
        match requestStep library request output with
        | .error failure => .error failure
        | .ok (.inl short) => .ok (some short, request)
        | .ok (.inr request) => requestChain library call rest request

def runRequestChain (enabled : Bool) (call : Call) (behavior : List (Association F))
    (request : RequestState) :
    Except Failure (Option ShortCircuit × RequestState) :=
  if enabled then requestChain library call (associationsFor behavior call.eventType) request
  else .ok (none, request)

/-- What becomes of a response after the result of a function. -/
def responseStep (output : JsonValue F) : Except Failure ResponseState := do
  match parseResponseStageOutput (← unwrapCfOutput library output) with
  | .mutateResponse mutated => applyResponseMutations library response mutated
  | _ => return response

/-- The loop of `run_response_chain`. -/
def responseChain (library : Library F) (call : Call) (request : RequestState) :
    List (Association F) → ResponseState → Except Failure ResponseState
  | [], response => .ok response
  | association :: rest, response =>
    match buildResponseEvent library call request response with
    | none => responseChain library call request rest response
    | some event =>
      match association.function event with
      | .null => responseChain library call request rest response
      | output =>
        match responseStep library response output with
        | .error failure => .error failure
        | .ok response => responseChain library call request rest response

def runResponseChain (enabled : Bool) (call : Call) (behavior : List (Association F))
    (request : RequestState) (response : ResponseState) :
    Except Failure ResponseState :=
  if enabled then
    responseChain library call request (associationsFor behavior call.eventType) response
  else .ok response

end LocalEmu.CloudFront.Edge
