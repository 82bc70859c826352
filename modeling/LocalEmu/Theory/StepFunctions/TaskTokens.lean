import LocalEmu.Base.Pool
import LocalEmu.Core.StepFunctions.Callback

/-!
# Completion Of Task Tokens

A notification of a token is let through unless the task has reported an error, which no
task does. So each one that is sent returns `True`, and the last one that writes its
outcome before the task reads it is the one that counts; if the task is no longer
waiting, none is.

A token is completed once if the notifications are sent with care: one is let through
only if none was before and the task is still waiting, and the task does not time out
once one was let through.
-/

namespace LocalEmu.StepFunctions

open List Option

variable {Outcome : Type}

namespace Notification

def isWritten (notification : Notification Outcome) : Bool :=
  match notification.stage with
  | .written => true
  | .woken => true
  | .returned result => result
  | _ => false

/-- The call has got past the check of the consumer error. -/
def letThrough (notification : Notification Outcome) : Bool :=
  notification.isWritten || notification.stage == .cleared

end Notification

namespace Token

/-- At most one notification of the token returns `True`, and the outcome that the task
    acts on is the one passed to that call. -/
structure CompletesOnce (token : Token Outcome) : Prop where
  once : ∀ (i j : Nat) (a b : Notification Outcome), token.notifications[i]? = some a →
    token.notifications[j]? = some b → a.stage = .returned true → b.stage = .returned true → i = j
  acted_of_returned : ∀ a ∈ token.notifications, a.stage = .returned true →
    ∀ result, token.consumer = .acted result → result = some a.outcome
  passed_of_acted : ∀ outcome, token.consumer = .acted (some outcome) →
    ∃ a ∈ token.notifications, a.outcome = outcome ∧ a.letThrough = true

/-- The task has not stopped waiting. -/
def isWaiting (token : Token Outcome) : Bool :=
  match token.consumer with
  | .woken => false
  | .acted _ => false
  | _ => true

/-- No notification was let through. -/
def untouched (token : Token Outcome) : Bool :=
  token.notifications.all fun notification => !notification.letThrough

/-- A notification is let through only if none was before and the task is waiting, and
    the task does not time out once one was. -/
def Orderly (token : Token Outcome) : TokenStep Outcome → Bool
  | .notify number =>
    token.notifications[number]?.all fun notification =>
      notification.stage != .found ||
        (token.endpoint.any fun endpoint => endpoint.consumerError.isSome) ||
        (token.untouched && token.isWaiting)
  | .timeOut => token.untouched
  | _ => true

/-- No notification was let through yet. -/
structure Idle (token : Token Outcome) : Prop where
  notifications : ∀ (i : Nat) (a : Notification Outcome), token.notifications[i]? = some a →
    a.letThrough = false
  outcome : ∀ endpoint, token.endpoint = some endpoint → endpoint.outcome = none
  event : ∀ endpoint, token.endpoint = some endpoint → endpoint.notifyEvent = true →
    token.isWaiting = false
  acted : ∀ result, token.consumer = .acted result → result = none
  started : ∀ endpoint, token.endpoint = some endpoint → token.consumer ≠ .starting

/-- One notification was let through, and no other. -/
structure Held (token : Token Outcome) (number : Nat) (notification : Notification Outcome) :
    Prop where
  self : token.notifications[number]? = some notification
  passed : notification.letThrough = true
  others : ∀ (i : Nat) (a : Notification Outcome), token.notifications[i]? = some a →
    i ≠ number → a.letThrough = false
  outcome : ∃ endpoint, token.endpoint = some endpoint ∧
    endpoint.outcome = (if notification.isWritten then some notification.outcome else none) ∧
    (endpoint.notifyEvent = true → notification.isWritten = true)
  woken : token.consumer = .woken → notification.isWritten = true
  acted : ∀ result, token.consumer = .acted result →
    notification.isWritten = true ∧ result = some notification.outcome
  started : token.consumer ≠ .starting

/-! ### Steps -/

theorem untouched_iff (token : Token Outcome) :
    token.untouched = true ↔ ∀ (i : Nat) (a : Notification Outcome),
      token.notifications[i]? = some a → a.letThrough = false := by
  rw [untouched, List.all_eq_true]
  constructor
  · intro h i a ha
    simpa using h a (mem_of_getElem? ha)
  · intro h a ha
    rcases getElem?_of_mem ha with ⟨i, hi⟩
    simp [h i a hi]

theorem next_cases {endpoint endpoint' : Option (CallbackEndpoint Outcome)}
    {notification : Notification Outcome} {stage : NotifyStage}
    (h : notification.next endpoint = some (endpoint', stage)) :
    (notification.stage = .called ∧ endpoint' = endpoint ∧
      (stage = .found ∨ stage = .returned false)) ∨
    ∃ e, endpoint = some e ∧
      ((notification.stage = .found ∧ endpoint' = endpoint ∧ e.consumerError = none ∧
        stage = .cleared) ∨
      (notification.stage = .found ∧ endpoint' = endpoint ∧ stage = .raised) ∨
      (notification.stage = .cleared ∧
        endpoint' = some { e with outcome := some notification.outcome } ∧ stage = .written) ∨
      (notification.stage = .written ∧ endpoint' = some { e with notifyEvent := true } ∧
        stage = .woken) ∨
      (notification.stage = .woken ∧ endpoint' = some e.beat ∧ stage = .returned true)) := by
  rcases notification with ⟨outcome, stage'⟩
  cases endpoint with
  | none =>
    cases stage' with
    | called => cases h; exact .inl ⟨rfl, rfl, .inr rfl⟩
    | _ => cases h
  | some e =>
    cases stage' with
    | called => cases h; exact .inl ⟨rfl, rfl, .inl rfl⟩
    | found =>
      refine .inr ⟨e, rfl, ?_⟩
      simp only [Notification.next] at h
      cases herror : e.consumerError with
      | none => rw [herror] at h; cases h; exact .inl ⟨rfl, rfl, rfl, rfl⟩
      | some => rw [herror] at h; cases h; exact .inr (.inl ⟨rfl, rfl, rfl⟩)
    | cleared => cases h; exact .inr ⟨e, rfl, .inr (.inr (.inl ⟨rfl, rfl, rfl⟩))⟩
    | written => cases h; exact .inr ⟨e, rfl, .inr (.inr (.inr (.inl ⟨rfl, rfl, rfl⟩)))⟩
    | woken => cases h; exact .inr ⟨e, rfl, .inr (.inr (.inr (.inr ⟨rfl, rfl, rfl⟩)))⟩
    | returned | raised => cases h

theorem next_cases_of_not_letThrough {endpoint endpoint' : Option (CallbackEndpoint Outcome)}
    {notification : Notification Outcome} {stage : NotifyStage}
    (hold : notification.letThrough = false)
    (h : notification.next endpoint = some (endpoint', stage)) :
    endpoint' = endpoint ∧
      ((⟨notification.outcome, stage⟩ : Notification Outcome).letThrough = false ∨
        ∃ e, endpoint = some e ∧ notification.stage = .found ∧ e.consumerError = none ∧
          stage = .cleared) := by
  rw [Notification.letThrough, Notification.isWritten] at hold
  rcases next_cases h with ⟨_, rfl, rfl | rfl⟩ | ⟨e, he, ⟨hfound, rfl, herror, rfl⟩ |
    ⟨_, rfl, rfl⟩ | ⟨hstage, _⟩ | ⟨hstage, _⟩ | ⟨hstage, _⟩⟩
  · exact ⟨rfl, .inl rfl⟩
  · exact ⟨rfl, .inl rfl⟩
  · exact ⟨rfl, .inr ⟨e, he, hfound, herror, rfl⟩⟩
  · exact ⟨rfl, .inl rfl⟩
  all_goals
    rw [hstage] at hold
    cases hold

variable {token token' : Token Outcome}

/-- A step of the task, of a heartbeat or of a report: the notifications and the outcome
    stay, the event is set only by an interruption, and the task goes on. -/
theorem consume_cases {endpoint : CallbackEndpoint Outcome} {label : TokenStep Outcome}
    (h : token.consume endpoint label = some token')
    (hendpoint : token.endpoint = some endpoint) :
    token'.notifications = token.notifications ∧
    ∃ endpoint', token'.endpoint = some endpoint' ∧ endpoint'.outcome = endpoint.outcome ∧
      (endpoint'.notifyEvent = true → endpoint.notifyEvent = true ∨
        ∃ result, token'.consumer = .acted result) ∧
      (token'.consumer = token.consumer ∨
        (token.isWaiting = true ∧ token'.isWaiting = true ∧ token'.consumer ≠ .starting) ∨
        (token.consumer = .waiting ∧ token'.consumer = .woken ∧
          (endpoint.notifyEvent = true ∨ label = .timeOut)) ∨
        (token.consumer = .beating ∧ token'.consumer = .acted none ∧ label = .timeOut) ∨
        (token.consumer = .woken ∧ token'.consumer = .acted endpoint.outcome) ∨
        (token.consumer = .received ∧ token'.consumer = .acted endpoint.outcome ∧
          endpoint.outcome ≠ none)) := by
  rcases token with ⟨tokenEndpoint, consumer, notifications⟩
  cases hendpoint
  cases label with
  | wait =>
    cases consumer <;> cases h
    exact ⟨rfl, endpoint, rfl, rfl, .inl, .inr (.inl ⟨rfl, rfl, by simp [become]⟩)⟩
  | setupHeartbeat =>
    cases consumer <;> cases h
    exact ⟨rfl, _, rfl, rfl, .inl, .inr (.inl ⟨rfl, rfl, by simp [become]⟩)⟩
  | wake =>
    cases consumer <;> simp only [consume] at h <;> try cases h
    simp only [if_true] at h
    split_ifs at h with hevent
    cases h
    exact ⟨rfl, endpoint, rfl, rfl, .inl, .inr (.inr (.inl ⟨rfl, rfl, .inl hevent⟩))⟩
  | timeOut =>
    cases consumer <;> simp only [consume] at h <;> try cases h
    · exact ⟨rfl, endpoint, rfl, rfl, .inl, .inr (.inr (.inl ⟨rfl, rfl, .inr rfl⟩))⟩
    · split_ifs at h
      cases h
      exact ⟨rfl, endpoint, rfl, rfl, .inl, .inr (.inr (.inr (.inl ⟨rfl, rfl, rfl⟩)))⟩
  | receive =>
    cases consumer <;> simp only [consume] at h <;> try cases h
    simp only [if_true] at h
    split_ifs at h
    cases h
    exact ⟨rfl, _, rfl, rfl, .inl, .inr (.inl ⟨rfl, rfl, by simp [become]⟩)⟩
  | read =>
    cases consumer <;> simp only [consume] at h <;> try cases h
    · exact ⟨rfl, endpoint, rfl, rfl, .inl, .inr (.inr (.inr (.inr (.inl ⟨rfl, rfl⟩))))⟩
    · cases houtcome : endpoint.outcome with
      | none =>
        rw [houtcome] at h
        cases h
        exact ⟨rfl, endpoint, rfl, houtcome, .inl, .inr (.inl ⟨rfl, rfl, by simp [become]⟩)⟩
      | some =>
        rw [houtcome] at h
        cases h
        refine ⟨rfl, endpoint, rfl, houtcome, .inl, ?_⟩
        exact .inr (.inr (.inr (.inr (.inr ⟨rfl, rfl, by simp⟩))))
  | interrupt =>
    cases consumer <;> simp only [consume] at h <;> try cases h
    exact ⟨rfl, _, rfl, rfl, fun _ => .inr ⟨_, rfl⟩, .inl rfl⟩
  | heartbeat =>
    simp only [consume] at h
    cases herror : endpoint.consumerError with
    | none =>
      rw [herror] at h
      cases h
      exact ⟨rfl, _, rfl, rfl, .inl, .inl rfl⟩
    | some => rw [herror] at h; cases h
  | report =>
    cases h
    exact ⟨rfl, _, rfl, rfl, .inl, .inl rfl⟩
  | call | notify | add => cases h

variable {label : TokenStep Outcome}

theorem consumer_ne_starting {endpoint : CallbackEndpoint Outcome}
    (h : token.consume endpoint label = some token') (hendpoint : token.endpoint = some endpoint)
    (hne : token.consumer ≠ .starting) : token'.consumer ≠ .starting := by
  intro hstarting
  rcases consume_cases h hendpoint with ⟨_, _, _, _, _, hsame | ⟨_, _, hnot⟩ | ⟨_, hnow, _⟩ |
    ⟨_, hnow, _⟩ | ⟨_, hnow⟩ | ⟨_, hnow, _⟩⟩
  · exact hne (hsame ▸ hstarting)
  · exact hnot hstarting
  all_goals
    rw [hnow] at hstarting
    cases hstarting

theorem step_cases (h : token.step label = some token') : (∃ outcome, token' =
      { token with notifications := token.notifications ++ [⟨outcome, .called⟩] }) ∨
    (∃ number notification endpoint stage, label = .notify number ∧
      token.notifications[number]? = some notification ∧
      notification.next token.endpoint = some (endpoint, stage) ∧
      token' = { token with
        endpoint := endpoint
        notifications := token.notifications.set number { notification with stage := stage } }) ∨
    (token.consumer = .starting ∧
      token' = { token with endpoint := some .initial, consumer := .evaluating }) ∨
    (∃ endpoint, token.endpoint = some endpoint ∧ token.consume endpoint label = some token') := by
  cases label with
  | call outcome => exact .inl ⟨outcome, (some.inj h).symm⟩
  | notify number =>
    rcases bind_eq_some_iff.mp h with ⟨notification, hget, hmap⟩
    rcases map_eq_some_iff.mp hmap with ⟨⟨endpoint, stage⟩, hnext, rfl⟩
    exact .inr (.inl ⟨number, notification, endpoint, stage, rfl, hget, hnext, rfl⟩)
  | add =>
    simp only [step] at h
    split at h
    next hconsumer => exact .inr (.inr (.inl ⟨hconsumer, (some.inj h).symm⟩))
    next => cases h
  | _ =>
    rcases bind_eq_some_iff.mp h with ⟨endpoint, hendpoint, hconsume⟩
    exact .inr (.inr (.inr ⟨endpoint, hendpoint, hconsume⟩))

theorem isWaiting_of_acted {result : Option Outcome}
    (h : token.consumer = .acted result) : token.isWaiting = false := by
  rw [isWaiting, h]

theorem idle_step (hidle : Idle token) (horderly : token.Orderly label = true)
    (h : token.step label = some token') :
    Idle token' ∨ ∃ number notification, Held token' number notification := by
  rcases step_cases h with ⟨outcome, rfl⟩ | ⟨number, notification, endpoint, stage, rfl, hget,
    hnext, rfl⟩ | ⟨hstarting, rfl⟩ | ⟨endpoint, hendpoint, hconsume⟩
  · refine .inl ⟨fun i a ha => ?_, hidle.outcome, hidle.event, hidle.acted, hidle.started⟩
    rcases Pool.getElem?_append_cases ha with rfl | ha
    · rfl
    · exact hidle.notifications i a ha
  · have hold := hidle.notifications _ _ hget
    rcases next_cases_of_not_letThrough hold hnext with ⟨rfl, hstage |
      ⟨e, he, hfound, herror, rfl⟩⟩
    · refine .inl ⟨fun i a ha => ?_, hidle.outcome, hidle.event, hidle.acted, hidle.started⟩
      rcases Pool.getElem?_set_cases ha with ⟨_, rfl⟩ | ⟨_, ha⟩
      · exact hstage
      · exact hidle.notifications i a ha
    · rw [Orderly, hget, all_some, hfound, he, any_some, herror] at horderly
      simp only [bne_self_eq_false, isSome_none, Bool.or_self, Bool.false_or,
        Bool.and_eq_true] at horderly
      refine .inr ⟨number, ⟨notification.outcome, .cleared⟩, ?_, rfl, ?_, ?_, ?_, ?_, ?_⟩
      · exact (List.getElem?_set_self (List.getElem?_eq_some_iff.mp hget).1)
      · intro i a ha hne
        rcases Pool.getElem?_set_cases ha with ⟨heq, _⟩ | ⟨_, ha⟩
        · exact absurd heq hne
        · exact hidle.notifications i a ha
      · refine ⟨e, he, hidle.outcome e he, fun hevent => ?_⟩
        rw [hidle.event e he hevent] at horderly
        exact absurd horderly.2 (by decide)
      · intro hwoken
        have hwaiting := horderly.2
        rw [isWaiting, show token.consumer = .woken from hwoken] at hwaiting
        cases hwaiting
      · intro result hacted
        have hacted : token.consumer = .acted result := hacted
        rw [isWaiting_of_acted hacted] at horderly
        exact absurd horderly.2 (by decide)
      · exact hidle.started e he
  · refine .inl ⟨hidle.notifications, ?_, ?_, ?_, ?_⟩
    · intro endpoint hendpoint
      cases hendpoint
      rfl
    · intro endpoint hendpoint hevent
      cases hendpoint
      cases hevent
    · intro result hacted
      cases hacted
    · intro endpoint _ hconsumer
      cases hconsumer
  · rcases consume_cases hconsume hendpoint with ⟨hnotifications, endpoint', hendpoint', houtcome,
      hevent, hconsumer⟩
    have hnone := hidle.outcome _ hendpoint
    refine .inl ⟨by rw [hnotifications]; exact hidle.notifications, ?_, ?_, ?_, ?_⟩
    · intro e he
      rw [hendpoint', some.injEq] at he
      rw [← he, houtcome, hnone]
    · intro e he hset
      rw [hendpoint', some.injEq] at he
      rw [← he] at hset
      rcases hevent hset with hset | ⟨result, hacted⟩
      · have hstopped := hidle.event _ hendpoint hset
        rcases hconsumer with hsame | ⟨hwaiting, _⟩ | ⟨_, hwoken, _⟩ | ⟨_, hacted, _⟩ |
          ⟨_, hacted⟩ | ⟨_, hacted, _⟩
        · rw [isWaiting, hsame]
          exact hstopped
        · rw [hstopped] at hwaiting
          cases hwaiting
        · rw [isWaiting, hwoken]
        · exact isWaiting_of_acted hacted
        · exact isWaiting_of_acted hacted
        · exact isWaiting_of_acted hacted
      · exact isWaiting_of_acted hacted
    · intro result hacted
      rcases hconsumer with hsame | ⟨_, hwaiting, _⟩ | ⟨_, hwoken, _⟩ | ⟨_, hnow, _⟩ |
        ⟨_, hnow⟩ | ⟨_, _, hsome⟩
      · exact hidle.acted _ (hsame ▸ hacted)
      · rw [isWaiting_of_acted hacted] at hwaiting
        cases hwaiting
      · rw [hwoken] at hacted
        cases hacted
      · rw [hnow] at hacted
        cases hacted
        rfl
      · rw [hnow, hnone] at hacted
        cases hacted
        rfl
      · exact absurd hnone hsome
    · exact fun _ _ => consumer_ne_starting hconsume hendpoint (hidle.started _ hendpoint)

variable {number : Nat} {notification : Notification Outcome}

theorem held_not_untouched (h : Held token number notification) : token.untouched = false := by
  rw [← Bool.not_eq_true, untouched_iff]
  intro hall
  have hfalse := hall _ _ h.self
  rw [h.passed] at hfalse
  cases hfalse

theorem held_next {endpoint : Option (CallbackEndpoint Outcome)} {stage : NotifyStage}
    (hheld : Held token number notification)
    (hnext : notification.next token.endpoint = some (endpoint, stage)) :
    Held { token with
      endpoint := endpoint
      notifications := token.notifications.set number ⟨notification.outcome, stage⟩ } number
      ⟨notification.outcome, stage⟩ := by
  have hself : (token.notifications.set number
      (⟨notification.outcome, stage⟩ : Notification Outcome))[number]? =
      some ⟨notification.outcome, stage⟩ :=
    List.getElem?_set_self (List.getElem?_eq_some_iff.mp hheld.self).1
  have hothers : ∀ (i : Nat) (a : Notification Outcome), (token.notifications.set number
      (⟨notification.outcome, stage⟩ : Notification Outcome))[i]? = some a → i ≠ number →
      a.letThrough = false := by
    intro i a ha hne
    rcases Pool.getElem?_set_cases ha with ⟨heq, _⟩ | ⟨_, ha⟩
    · exact absurd heq hne
    · exact hheld.others i a ha hne
  have hpassed := hheld.passed
  rcases hheld.outcome with ⟨e, he, houtcome, hevent⟩
  rcases next_cases hnext with ⟨hstage, _⟩ | ⟨e', he', ⟨hstage, _⟩ | ⟨hstage, _⟩ |
    ⟨_, rfl, rfl⟩ | ⟨hstage, rfl, rfl⟩ | ⟨hstage, rfl, rfl⟩⟩
  · rw [Notification.letThrough, Notification.isWritten, hstage] at hpassed
    cases hpassed
  · rw [Notification.letThrough, Notification.isWritten, hstage] at hpassed
    cases hpassed
  · rw [Notification.letThrough, Notification.isWritten, hstage] at hpassed
    cases hpassed
  · exact ⟨hself, rfl, hothers, ⟨_, rfl, rfl, fun _ => rfl⟩, fun _ => rfl,
      fun result hacted => ⟨rfl, (hheld.acted _ hacted).2⟩, hheld.started⟩
  · have hwritten : notification.isWritten = true := by rw [Notification.isWritten, hstage]
    rw [he, some.injEq] at he'
    rw [hwritten, he'] at houtcome
    exact ⟨hself, rfl, hothers, ⟨_, rfl, houtcome, fun _ => rfl⟩, fun _ => rfl,
      fun result hacted => ⟨rfl, (hheld.acted _ hacted).2⟩, hheld.started⟩
  · have hwritten : notification.isWritten = true := by rw [Notification.isWritten, hstage]
    rw [he, some.injEq] at he'
    rw [hwritten, he'] at houtcome
    exact ⟨hself, rfl, hothers, ⟨_, rfl, houtcome, fun _ => rfl⟩, fun _ => rfl,
      fun result hacted => ⟨rfl, (hheld.acted _ hacted).2⟩, hheld.started⟩

theorem held_step (hheld : Held token number notification) (horderly : token.Orderly label = true)
    (h : token.step label = some token') :
    ∃ notification', Held token' number notification' := by
  rcases step_cases h with ⟨outcome, rfl⟩ | ⟨other, found, endpoint, stage, rfl, hget, hnext,
    rfl⟩ | ⟨hstarting, rfl⟩ | ⟨endpoint, hendpoint, hconsume⟩
  · refine ⟨notification, ?_, hheld.passed, fun i a ha hne => ?_, hheld.outcome, hheld.woken,
      hheld.acted, hheld.started⟩
    · exact List.getElem?_append_left (List.getElem?_eq_some_iff.mp hheld.self).1 ▸ hheld.self
    · rcases Pool.getElem?_append_cases ha with rfl | ha
      · rfl
      · exact hheld.others i a ha hne
  · by_cases hother : other = number
    · subst hother
      rw [hheld.self, some.injEq] at hget
      subst hget
      exact ⟨_, held_next hheld hnext⟩
    · have hold := hheld.others _ _ hget hother
      rcases next_cases_of_not_letThrough hold hnext with ⟨rfl, hstage | ⟨e, he, hfound, herror, _⟩⟩
      · refine ⟨notification, ?_, hheld.passed, fun i a ha hne => ?_, hheld.outcome, hheld.woken,
          hheld.acted, hheld.started⟩
        · rw [getElem?_set_ne hother]
          exact hheld.self
        · rcases Pool.getElem?_set_cases ha with ⟨_, rfl⟩ | ⟨_, ha⟩
          · exact hstage
          · exact hheld.others i a ha hne
      · -- To let a second one through is not orderly.
        rw [Orderly, hget, all_some, hfound, he, any_some, herror,
          held_not_untouched hheld] at horderly
        cases horderly
  · exact absurd hstarting hheld.started
  · rcases consume_cases hconsume hendpoint with ⟨hnotifications, endpoint', hendpoint', houtcome',
      hevent', hconsumer⟩
    rcases hheld.outcome with ⟨e, he, houtcome, hevent⟩
    rw [hendpoint, some.injEq] at he
    subst he
    have htimeOut : label ≠ .timeOut := by
      rintro rfl
      rw [Orderly, held_not_untouched hheld] at horderly
      cases horderly
    have hacts : ∀ result, token'.consumer = .acted result →
        notification.isWritten = true ∧ result = some notification.outcome := by
      intro result hacted
      rcases hconsumer with hsame | ⟨_, hwaiting, _⟩ | ⟨_, hwoken, _⟩ | ⟨_, _, hlabel⟩ |
        ⟨hwoken, hnow⟩ | ⟨_, hnow, hsome⟩
      · exact hheld.acted _ (hsame ▸ hacted)
      · rw [isWaiting_of_acted hacted] at hwaiting
        cases hwaiting
      · rw [hwoken] at hacted
        cases hacted
      · exact absurd hlabel htimeOut
      · have hwritten := hheld.woken hwoken
        rw [hnow, houtcome, hwritten] at hacted
        cases hacted
        exact ⟨hwritten, rfl⟩
      · cases hwritten : notification.isWritten with
        | false =>
          rw [hwritten] at houtcome
          exact absurd houtcome hsome
        | true =>
          rw [hnow, houtcome, hwritten] at hacted
          cases hacted
          exact ⟨rfl, rfl⟩
    refine ⟨notification, ?_, hheld.passed, ?_, ⟨endpoint', hendpoint', ?_, ?_⟩, ?_, hacts, ?_⟩
    · rw [hnotifications]
      exact hheld.self
    · rw [hnotifications]
      exact hheld.others
    · rw [houtcome', houtcome]
    · intro hset
      rcases hevent' hset with hset | ⟨result, hacted⟩
      · exact hevent hset
      · exact (hacts _ hacted).1
    · intro hwoken
      rcases hconsumer with hsame | ⟨_, hwaiting, _⟩ | ⟨_, _, hwake⟩ | ⟨_, hnow, _⟩ | ⟨_, hnow⟩ |
        ⟨_, hnow, _⟩
      · exact hheld.woken (hsame ▸ hwoken)
      · rw [isWaiting, hwoken] at hwaiting
        cases hwaiting
      · rcases hwake with hset | hlabel
        · exact hevent hset
        · exact absurd hlabel htimeOut
      · rw [hnow] at hwoken
        cases hwoken
      · rw [hnow] at hwoken
        cases hwoken
      · rw [hnow] at hwoken
        cases hwoken
    · exact consumer_ne_starting hconsume hendpoint hheld.started

/-! ### Runs -/

/-- A token is idle, or one notification was let through. -/
def Sound (token : Token Outcome) : Prop :=
  Idle token ∨ ∃ number notification, Held token number notification

/-- A step keeps a token idle or held, or makes it held. -/
theorem step_sound (horderly : token.Orderly label = true) (hsound : Sound token)
    (h : token.step label = some token') : Sound token' := by
  rcases hsound with hidle | ⟨number, notification, hheld⟩
  · exact idle_step hidle horderly h
  · rcases held_step hheld horderly h with ⟨notification', hheld'⟩
    exact .inr ⟨number, notification', hheld'⟩

theorem initial_sound : Sound (initial : Token Outcome) := by
  refine .inl ⟨?_, ?_, ?_, ?_, ?_⟩
  · intro i a ha
    cases ha
  · intro endpoint hendpoint
    cases hendpoint
  · intro endpoint hendpoint
    cases hendpoint
  · intro result hacted
    cases hacted
  · intro endpoint hendpoint
    cases hendpoint

theorem letThrough_of_returned
    (h : notification.stage = .returned true) : notification.letThrough = true := by
  rw [Notification.letThrough, Notification.isWritten, h, Bool.true_or]

theorem Sound.completesOnce (h : Sound token) : CompletesOnce token := by
  rcases h with hidle | ⟨number, notification, hheld⟩
  · have hnone : ∀ (i : Nat) (a : Notification Outcome), token.notifications[i]? = some a →
        a.stage ≠ .returned true := by
      intro i a ha hreturned
      have hfalse := hidle.notifications i a ha
      rw [letThrough_of_returned hreturned] at hfalse
      cases hfalse
    refine ⟨fun i j a b ha _ hreturned => absurd hreturned (hnone i a ha), ?_, ?_⟩
    · intro a ha hreturned
      rcases getElem?_of_mem ha with ⟨i, hi⟩
      exact absurd hreturned (hnone i a hi)
    · intro outcome hacted
      cases hidle.acted _ hacted
  · have hthis : ∀ (i : Nat) (a : Notification Outcome), token.notifications[i]? = some a →
        a.stage = .returned true → i = number := by
      intro i a ha hreturned
      by_contra hne
      have hfalse := hheld.others i a ha hne
      rw [letThrough_of_returned hreturned] at hfalse
      cases hfalse
    refine ⟨?_, ?_, ?_⟩
    · intro i j a b ha hb hreturned hreturned'
      rw [hthis i a ha hreturned, hthis j b hb hreturned']
    · intro a ha hreturned result hacted
      rcases getElem?_of_mem ha with ⟨i, hi⟩
      rw [hthis i a hi hreturned, hheld.self, some.injEq] at hi
      rw [← hi]
      exact (hheld.acted _ hacted).2
    · intro outcome hacted
      have hresult := (hheld.acted _ hacted).2
      cases hresult
      exact ⟨notification, mem_of_getElem? hheld.self, rfl, hheld.passed⟩

/-- In every run of orderly steps, the token is completed at most once, and the task acts
    on the outcome of the notification that completed it. -/
theorem completes_once_of_orderly (labels : List (TokenStep Outcome)) (token : Token Outcome)
    (hrun : Runs (Takes step) initial labels token)
    (horderly : Along (Takes step) (fun token label => Orderly token label = true) initial
      labels) : CompletesOnce token :=
  (hrun.invariant_along (P := Sound) (fun _ _ _ horderly hsound hstep =>
    step_sound horderly hsound hstep) horderly initial_sound).completesOnce

/-- The task waits, is notified and acts on the outcome. -/
def notifiedSteps : List (TokenStep Bool) :=
  [.add, .call true, .wait, .notify 0, .notify 0, .notify 0, .notify 0, .wake, .read, .notify 0,
    .interrupt]

theorem completes_once_of_notifiedSteps :
    ∃ token : Token Bool, Runs (Takes step) initial notifiedSteps token ∧
      token.consumer = .acted (some true) ∧ CompletesOnce token := by
  have hsome : (takeAll (step : Token Bool → TokenStep Bool → Option (Token Bool)) initial
      notifiedSteps).any (fun token => decide (token.consumer = .acted (some true))) = true := by
    decide +kernel
  rcases (any_eq_true _ _).mp hsome with ⟨token, htoken, hacted⟩
  have hrun := Runs.of_takeAll _ _ _ htoken
  have horderly := Runs.along_of_check (C := Orderly) notifiedSteps (initial : Token Bool)
    (show checkAlong step _ _ _ = true by decide +kernel)
  exact ⟨token, hrun, of_decide_eq_true hacted, completes_once_of_orderly _ _ hrun horderly⟩

/-- Two notifications both return `True`, and the task acts on the second. -/
theorem completed_twice : ¬∀ (labels : List (TokenStep Bool)) (token : Token Bool),
    Runs (Takes step) initial labels token → CompletesOnce token := by
  intro h
  have hsome : (takeAll (step : Token Bool → TokenStep Bool → Option (Token Bool)) initial
      [.add, .wait, .call true, .notify 0, .notify 0, .notify 0, .notify 0, .notify 0, .call false,
      .notify 1, .notify 1, .notify 1, .notify 1, .notify 1, .wake, .read]).any (fun token => decide
        (token.notifications = [⟨true, .returned true⟩, ⟨false, .returned true⟩])) = true := by
    decide +kernel
  rcases (any_eq_true _ _).mp hsome with ⟨token, htoken, hboth⟩
  have honce := (h _ _ (Runs.of_takeAll _ _ _ htoken)).once 0 1 ⟨true, .returned true⟩
    ⟨false, .returned true⟩
  rw [of_decide_eq_true hboth] at honce
  exact absurd (honce rfl rfl rfl rfl) (by decide)

end Token

end LocalEmu.StepFunctions
