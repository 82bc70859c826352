import LocalEmu.Core.Elbv2.Stickiness

/-!
# The Listener Router

A listener forwards a request to a target of its target group. With stickiness it first looks
up the cookie that the request brings, then the target that the cookie stands for; if either is
not there, it picks a target in turn and remembers it under a fresh cookie. There is a lock
around each of these steps and none around them all, so that other requests and the
registration of targets may come between them.

A request is forwarded by one of three ways: to a function, as a WebSocket, or as plain HTTP.

## Main definitions

* `Target`, `TargetGroup`: The targets.
* `addTargets`, `removeTargets`, `pickTarget`: What is done with them.
-/

namespace LocalEmu.Elbv2

abbrev Bytes := List UInt8

/-! ### Target groups -/

inductive Health
  | initial
  | healthy
  | unhealthy
  deriving DecidableEq

structure Target where
  targetId : Text
  port : Nat
  host : Text
  health : Health
  lambdaArn : Option Text
  deriving DecidableEq

/-- `target_key`. -/
def Target.key (target : Target) : Text :=
  target.targetId ++ ':' :: (toString target.port).toList

/-- `TargetGroup`, as far as requests and registrations use it. -/
structure TargetGroup where
  port : Nat
  targets : Dict Text Target
  stickyStore : StickyStore
  rrCounter : Nat

/-- The prefixes of the ids that are functions. -/
def isLambdaArn (targetId : Text) : Bool :=
  "arn:aws:lambda:".toList.isPrefixOf targetId ||
    "arn:aws-us-gov:lambda:".toList.isPrefixOf targetId ||
    "arn:aws-cn:lambda:".toList.isPrefixOf targetId

def looksLikeHost (s : Text) : Bool :=
  s ≠ [] && !"i-".toList.isPrefixOf s && (s.contains '.' || s.contains ':')

namespace TargetGroup

variable (group : TargetGroup)

def portOf (port : Option Nat) : Nat :=
  (port.filter (· ≠ 0)).getD group.port

def newTarget (description : Text × Option Nat) : Target :=
  let port := group.portOf description.2
  if isLambdaArn description.1 then ⟨description.1, port, [], .initial, some description.1⟩
  else
    let host := if looksLikeHost description.1 then description.1 else "127.0.0.1".toList
    ⟨description.1, port, host, .initial, none⟩

def addTargets (descriptions : List (Text × Option Nat)) : TargetGroup :=
  { group with targets := descriptions.foldl (fun targets description =>
      targets.set (group.newTarget description).key (group.newTarget description)) group.targets }

def removeTargets (descriptions : List (Text × Option Nat)) : TargetGroup :=
  { group with targets := descriptions.foldl (fun targets description =>
      targets.erase (group.newTarget description).key) group.targets }

def setHealth (key : Text) (health : Health) : TargetGroup :=
  match group.targets.get? key with
  | none => group
  | some target =>
    { group with targets := group.targets.set key { target with health := health } }

def setStore (store : StickyStore) : TargetGroup :=
  { group with stickyStore := store }

def pickTarget : Option Target × TargetGroup :=
  let all := group.targets.values
  if all = [] then (none, group)
  else
    let healthy := all.filter fun target => target.health = .healthy
    let pool := if healthy = [] then all else healthy
    (pool[group.rrCounter % pool.length]?, { group with rrCounter := group.rrCounter + 1 })

end TargetGroup

/-! ### Requests and responses -/

/-- A request. -/
structure Request where
  headers : List (Text × Text)
  deriving DecidableEq

/-- `str.lower`, for what is compared with it. -/
def lower (text : Text) : Text := text.map Char.toLower

/-- `headers.get(name, "")`. -/
def Request.header (request : Request) (name : String) : Text :=
  ((request.headers.find? fun h => lower h.1 = lower name.toList).map Prod.snd).getD []

def isWebsocketUpgrade (request : Request) : Bool :=
  lower (strip (request.header "Upgrade")) = "websocket".toList &&
    ((lower (request.header "Connection")).splitOn ',').any fun t => strip t = "upgrade".toList

def hopByHop : List String :=
  ["connection", "keep-alive", "proxy-authenticate", "proxy-authorization", "te", "trailers",
    "transfer-encoding", "upgrade", "host", "content-length"]

/-- What comes back from a target, a function or a WebSocket; a failure is one of the exceptions
    that the listener catches. -/
inductive Upstream
  | answers (status : Nat) (headers : List (Text × Text)) (body : Bytes)
  | fails
  deriving DecidableEq

/-- The response to the client; an error is a page of the server. -/
inductive Response
  | forwarded (status : Nat) (headers : List (Text × Text)) (body : Bytes)
  | error (status : Nat)
  deriving DecidableEq

/-- The headers that are not for the hop. -/
def endToEnd (headers : List (Text × Text)) : List (Text × Text) :=
  headers.filter fun h => String.ofList (lower h.1) ∉ hopByHop

def contentLength (body : Bytes) : Text × Text :=
  ("Content-Length".toList, (toString body.length).toList)

/-- What a listener does with a request: the request, the configuration that it has read and
    whether it has the protocol HTTPS. -/
structure Serving where
  request : Request
  config : StickinessConfig
  secure : Bool
  deriving DecidableEq

namespace Serving

variable (serving : Serving)

def stickyActive : Bool :=
  serving.config.enabled && serving.config.type = "lb_cookie".toList

def setCookie (cookie : Text) : Text × Text :=
  ("Set-Cookie".toList, buildSetCookie cookie serving.config.cookieDuration serving.secure)

/-- Whether the request is forwarded as plain HTTP. -/
def isPlain (target : Target) : Bool :=
  !isWebsocketUpgrade serving.request && target.lambdaArn = none

/-- The end of `_handle`. Only plain HTTP has the cookie in its response. -/
def respond (target : Target) (cookie : Option Text) : Upstream → Response
  | .fails => .error 502
  | .answers status headers body =>
    if isWebsocketUpgrade serving.request then .forwarded status headers body
    else if target.lambdaArn ≠ none then
      .forwarded status (endToEnd headers ++ [contentLength body]) body
    else
      .forwarded status (endToEnd headers ++ (cookie.map serving.setCookie).toList ++
        [contentLength body]) body

end Serving

/-! ### Handlers -/

/-- How far `_handle` is. -/
inductive Phase
  -- Before the lookup of the cookie.
  | arrived
  -- The cookie has a pin.
  | found (cookie : Text) (pin : StickyPin)
  -- The target of the pin is not registered.
  | stale (cookie : Text)
  -- Before a target is picked.
  | picking
  -- Before the target is remembered.
  | picked (target : Target)
  -- Before the request is forwarded.
  | chosen (target : Target) (cookie : Option Text)
  | answered (target : Option Target) (cookie : Option Text) (response : Response)
  deriving DecidableEq

/-- A request that is served. -/
structure Handler where
  serving : Serving
  phase : Phase
  deriving DecidableEq

/-- A step of a request, with the clock readings, what is drawn and what comes back. The cookie
    is remembered with the key of its target. -/
inductive Act
  | lookup (now : Int)
  | targetByKey
  | forget
  | pick
  | remember (cookie : CookieId) (key : Text) (now : Int)
  | answer (upstream : Upstream)
  deriving DecidableEq

/-- The start of `_handle`. -/
def Handler.new (serving : Serving) : Handler :=
  ⟨serving, if serving.stickyActive then .arrived else .picking⟩

/-- The next step of `_handle`, if it is this one. -/
def Handler.next (group : TargetGroup) (handler : Handler) (act : Act) :
    Option (TargetGroup × Phase) :=
  match handler.phase, act with
  | .arrived, .lookup now =>
    match parseAwsalbCookie (handler.serving.request.header "Cookie") with
    | none => some (group, .picking)
    | some cookie =>
      let found := group.stickyStore.lookup cookie now
      let group := group.setStore found.2
      match found.1 with
      | none => some (group, .picking)
      | some pin => some (group, .found cookie pin)
  | .found cookie pin, .targetByKey =>
    match group.targets.get? pin.targetKey with
    | some target => some (group, .chosen target none)
    | none => some (group, .stale cookie)
  | .stale cookie, .forget =>
    some (group.setStore (group.stickyStore.forget cookie), .picking)
  | .picking, .pick =>
    let picked := group.pickTarget
    match picked.1 with
    | none => some (picked.2, .answered none none (.error 503))
    | some target =>
      if handler.serving.stickyActive then some (picked.2, .picked target)
      else some (picked.2, .chosen target none)
  | .picked target, .remember cookie key now =>
    if key = target.key then
      let store := group.stickyStore.remember cookie.text target.key
        handler.serving.config.cookieDuration now
      some (group.setStore store, .chosen target (some cookie.text))
    else none
  | .chosen target cookie, .answer upstream =>
    some (group, .answered (some target) cookie (handler.serving.respond target cookie upstream))
  | _, _ => none

/-! ### Interleavings -/

/-- A target group with the requests that have arrived. -/
structure State where
  group : TargetGroup
  handlers : List Handler

/-- What can happen. -/
inductive Event
  | addTargets (descriptions : List (Text × Option Nat))
  | removeTargets (descriptions : List (Text × Option Nat))
  | setHealth (key : Text) (health : Health)
  | arrive (serving : Serving)
  | act (n : Nat) (act : Act)

/-- One event. -/
def step (s : State) : Event → Option State
  | .addTargets descriptions => some { s with group := s.group.addTargets descriptions }
  | .removeTargets descriptions => some { s with group := s.group.removeTargets descriptions }
  | .setHealth key health => some { s with group := s.group.setHealth key health }
  | .arrive serving => some { s with handlers := s.handlers ++ [.new serving] }
  | .act n act =>
    s.handlers[n]?.bind fun handler =>
      (handler.next s.group act).map fun next =>
        ⟨next.1, s.handlers.set n ⟨handler.serving, next.2⟩⟩

def State.initial (port : Nat) : State := ⟨⟨port, .empty, .empty, 0⟩, []⟩

end LocalEmu.Elbv2
