import LocalEmu.Base.Run

/-!
# Task Tokens

A task that waits for a callback has an endpoint in the pool of its execution, under
its token. `SendTaskSuccess` and `SendTaskFailure` look the endpoint up and notify it
of an outcome, each on a thread of its own, and the task waits on the endpoint until it
is notified, with a heartbeat or without one.

There is no lock around any of this. What a thread reads or writes at once is one step,
and the steps of the threads come in any order.
-/

namespace LocalEmu.StepFunctions

variable {Outcome : Type}

/-- `CallbackEndpoint`. The heartbeat endpoint is there once it is set up, with its event. -/
structure CallbackEndpoint (Outcome : Type) where
  outcome : Option Outcome
  notifyEvent : Bool
  consumerError : Option String
  heartbeat : Option Bool
  deriving DecidableEq

namespace CallbackEndpoint

/-- The endpoint that `add` puts into the pool. -/
def initial : CallbackEndpoint Outcome := ⟨none, false, none, none⟩

/-- `HeartbeatEndpoint.notify`, if there is a heartbeat endpoint. -/
def beat (endpoint : CallbackEndpoint Outcome) : CallbackEndpoint Outcome :=
  { endpoint with heartbeat := endpoint.heartbeat.map fun _ => true }

def interruptAll (endpoint : CallbackEndpoint Outcome) : CallbackEndpoint Outcome :=
  { endpoint with notifyEvent := true }.beat

end CallbackEndpoint

/-! ### Notifications -/

/-- How far a call of `CallbackPoolManager.notify` is. -/
inductive NotifyStage
  | called
  | found
  | cleared
  | written
  | woken
  | returned (result : Bool)
  | raised
  deriving DecidableEq

/-- A call of `CallbackPoolManager.notify`. -/
structure Notification (Outcome : Type) where
  outcome : Outcome
  stage : NotifyStage
  deriving DecidableEq

/-- The next step of a call, on the endpoint that is in the pool. -/
def Notification.next (endpoint : Option (CallbackEndpoint Outcome))
    (notification : Notification Outcome) :
    Option (Option (CallbackEndpoint Outcome) × NotifyStage) :=
  match notification.stage, endpoint with
  | .called, none => some (none, .returned false)
  | .called, some endpoint => some (some endpoint, .found)
  | .found, some endpoint =>
    match endpoint.consumerError with
    | none => some (some endpoint, .cleared)
    | some _ => some (some endpoint, .raised)
  | .cleared, some endpoint =>
    some (some { endpoint with outcome := some notification.outcome }, .written)
  | .written, some endpoint => some (some { endpoint with notifyEvent := true }, .woken)
  | .woken, some endpoint => some (some endpoint.beat, .returned true)
  | _, _ => none

/-! ### The task -/

/-- The task: it puts the endpoint into the pool before it starts the work, waits for an outcome or
    for heartbeats, reads the outcome, and acts on it. To act on no outcome is to time out. -/
inductive Consumer (Outcome : Type)
  | starting
  | evaluating
  | waiting
  | woken
  | beating
  | received
  | acted (outcome : Option Outcome)
  deriving DecidableEq

/-- A token: its endpoint in the pool, the task, and the notifications. -/
structure Token (Outcome : Type) where
  endpoint : Option (CallbackEndpoint Outcome)
  consumer : Consumer Outcome
  notifications : List (Notification Outcome)

/-- What happens to a token. `received` says if the event of the heartbeat endpoint was
    set before the wait, and so is cleared. -/
inductive TokenStep (Outcome : Type)
  | call (outcome : Outcome)
  | notify (number : Nat)
  | add
  | wait
  | setupHeartbeat
  | wake
  | timeOut
  | receive (cleared : Bool)
  | read
  | interrupt
  | heartbeat
  | report (consumerError : String)

namespace Token

/-- A token before its task begins. -/
def initial : Token Outcome := ⟨none, .starting, []⟩

variable (token : Token Outcome)

/-- A step of the task that leaves the endpoint alone. -/
def become (consumer : Consumer Outcome) : Token Outcome :=
  { token with consumer := consumer }

def consume (endpoint : CallbackEndpoint Outcome) : TokenStep Outcome → Option (Token Outcome)
  | .wait => if token.consumer matches .evaluating then some (token.become .waiting) else none
  | .setupHeartbeat =>
    if token.consumer matches .evaluating then
      some ({ token with endpoint := some { endpoint with heartbeat := some false } }.become
        .beating)
    else none
  | .wake =>
    if token.consumer matches .waiting then
      if endpoint.notifyEvent then some (token.become .woken) else none
    else none
  | .timeOut =>
    match token.consumer with
    | .waiting => some (token.become .woken)
    | .beating =>
      if endpoint.heartbeat = some false then some (token.become (.acted none)) else none
    | _ => none
  | .receive cleared =>
    if token.consumer matches .beating then
      if endpoint.heartbeat = some true then
        some ({ token with endpoint := some { endpoint with heartbeat := some !cleared } }.become
          .received)
      else none
    else none
  | .read =>
    match token.consumer with
    | .woken => some (token.become (.acted endpoint.outcome))
    | .received =>
      match endpoint.outcome with
      | none => some (token.become .beating)
      | some outcome => some (token.become (.acted (some outcome)))
    | _ => none
  | .interrupt =>
    if token.consumer matches .acted _ then
      some { token with endpoint := some endpoint.interruptAll }
    else none
  | .heartbeat =>
    match endpoint.consumerError with
    | none => some { token with endpoint := some endpoint.beat }
    | some _ => none
  | .report consumerError =>
    some { token with endpoint := some { endpoint with consumerError := some consumerError } }
  | _ => none

/-- One step. No class of the source calls `report`, but it may be called. -/
def step : TokenStep Outcome → Option (Token Outcome)
  | .call outcome =>
    some { token with notifications := token.notifications ++ [⟨outcome, .called⟩] }
  | .notify number =>
    token.notifications[number]?.bind fun notification =>
      (notification.next token.endpoint).map fun result =>
        { token with
          endpoint := result.1
          notifications := token.notifications.set number { notification with stage := result.2 } }
  | .add =>
    match token.consumer with
    | .starting => some { token with endpoint := some .initial, consumer := .evaluating }
    | _ => none
  | label => token.endpoint.bind fun endpoint => token.consume endpoint label

end Token

end LocalEmu.StepFunctions
