import LocalEmu.Core.Lambda.EventManager

/-!
# Retries Of Asynchronous Invocations

An event is attempted until it succeeds or is given up. Its function errors are
counted in the message, so that the number of retries is bounded and each of
them is delayed longer. The throttles and system errors are not: the counter for
them is reset and read, but never increased. So the delay after such an error is
always a second, which is right only for the first one in a row.

A notification is not sent if a payload that goes into it is no text. Then
nothing is left of the event. A dead letter is lost if it cannot be written: it
needs the error message of a result, and there is no result after a throttle or
a system error.
-/

namespace LocalEmu.Lambda.EventManager

open List Option

variable {π τ θ ν : Type}

/-! ### One attempt -/

def Attempt.isFunctionError (attempt : Attempt π) : Bool :=
  match attempt.outcome with
  | .result isError _ => isError
  | _ => false

def Attempt.isException (attempt : Attempt π) : Bool :=
  match attempt.outcome with
  | .exception _ => true
  | _ => false

variable (codec : Codec π τ θ ν) (settings : Settings)

variable (s : SQSInvocation π τ θ)

/-- One dead letter can be sent: the queue is one of SQS or SNS, and the event and the result are
    texts. A result in JSON is an object, whose error message is a text if there is one. -/
def Deliverable (payload : Option π) : Prop :=
  ∀ dlqArn, settings.deadLetterQueue = some dlqArn →
    isOfQueueOrTopic dlqArn = true ∧
    ∃ event result, codec.event s.invocation.payload = some event ∧
      codec.resultText payload = some result ∧
      if isOfQueueOrTopic settings.functionArn = true then
        ∃ letter, codec.serviceMessages settings.functionArn event result = some [letter]
      else ∃ text, result = some text ∧
        ∀ value, codec.loads text = some value → (codec.errorMessage value).isSome = true

/-- The payloads that go into a notification to a configured destination are texts, and a dead
    letter can be sent to a configured queue. -/
def Readable (attempt : Attempt π) : Prop :=
  match attempt.outcome with
  | .result false payload =>
    (settings.eventInvokeConfig.bind EventInvokeConfig.onSuccess).isSome = true →
      (codec.value s.invocation.payload).isSome = true ∧
      ∀ p, payload = some p → codec.isEmpty p = false → (codec.value p).isSome = true
  | .result true payload =>
    ∀ cause, failureCause settings s true attempt.timePassed = some cause →
      ((settings.eventInvokeConfig.bind EventInvokeConfig.onFailure).isSome = true →
        (codec.value s.invocation.payload).isSome = true ∧
        (cause ≠ "ZeroReservedConcurrency" →
          ∀ p, payload = some p → (codec.value p).isSome = true)) ∧
      Deliverable codec settings s payload
  | .exception _ =>
    ∀ cause, failureCause settings s false attempt.timePassed = some cause →
      ((settings.eventInvokeConfig.bind EventInvokeConfig.onFailure).isSome = true →
        (codec.value s.invocation.payload).isSome = true) ∧
      Deliverable codec settings s none

/-- What is left of an event that is given up has its dead letter. -/
def Left.Complete (settings : Settings) : Left π τ θ ν → Prop
  | failed _ _ deadLetters => settings.deadLetterQueue.isSome = true → deadLetters.length = 1
  | _ => True

/-- One thing is left, with all that belongs to it. -/
def Leaves (left : List (Left π τ θ ν)) : Prop := ∃ one, left = [one] ∧ one.Complete settings

/-- One message is prepared just if the result has an error message or is no JSON. -/
theorem prepareMessagesToDlq_one (event : ν) (result : Option String) :
    (∃ letter, prepareMessagesToDlq codec settings event result = some [letter]) ↔
      if isOfQueueOrTopic settings.functionArn = true then
        ∃ letter, codec.serviceMessages settings.functionArn event result = some [letter]
      else ∃ text, result = some text ∧
        ∀ value, codec.loads text = some value → (codec.errorMessage value).isSome = true := by
  rw [prepareMessagesToDlq]
  split
  · rfl
  · cases result with
    | none => simp
    | some text =>
      cases hvalue : codec.loads text with
      | none => simp [hvalue]
      | some value => cases herror : codec.errorMessage value <;> simp [hvalue, herror]

theorem length_deadLetters (payload : Option π) :
    (settings.deadLetterQueue.isSome = true →
      (processDeadLetterQueue codec settings s payload).length = 1) ↔
      Deliverable codec settings s payload := by
  rw [processDeadLetterQueue, Deliverable]
  cases settings.deadLetterQueue with
  | none => simp
  | some dlqArn =>
    simp only [isSome_some, forall_const, some.injEq, forall_eq', deadLetters]
    cases codec.event s.invocation.payload with
    | none => simp
    | some event =>
      cases codec.resultText payload with
      | none => simp
      | some result =>
        simp only [bind_eq_bind, bind_some, some.injEq, sendToDeadLetterQueue,
          ← prepareMessagesToDlq_one]
        cases hmessages : prepareMessagesToDlq codec settings event result <;>
          cases isOfQueueOrTopic dlqArn <;> simp [hmessages, length_eq_one_iff]

theorem leaves_success (payload : Option π) :
    Leaves settings ((processSuccessDestination codec settings s payload).toList.map
        (Left.succeeded (π := π) (τ := τ) (θ := θ))) ↔
      ((settings.eventInvokeConfig.bind EventInvokeConfig.onSuccess).isSome = true →
        (codec.value s.invocation.payload).isSome = true ∧
        ∀ p, payload = some p → codec.isEmpty p = false → (codec.value p).isSome = true) := by
  rw [processSuccessDestination, Leaves]
  cases settings.eventInvokeConfig.bind EventInvokeConfig.onSuccess with
  | none => simp [Left.Complete]
  | some =>
    cases hrequest : codec.value s.invocation.payload with
    | none => simp
    | some =>
      cases payload with
      | none => simp [Left.Complete]
      | some p =>
        cases hempty : codec.isEmpty p with
        | true => simp [hempty, Left.Complete]
        | false => cases hvalue : codec.value p <;> simp [hempty, hvalue, Left.Complete]

theorem isSome_failure (payload : Option π) (cause : String) :
    (processFailureDestination codec settings s payload cause).isSome = true ↔
      ((settings.eventInvokeConfig.bind EventInvokeConfig.onFailure).isSome = true →
        (codec.value s.invocation.payload).isSome = true ∧
        (cause ≠ "ZeroReservedConcurrency" →
          ∀ p, payload = some p → (codec.value p).isSome = true)) := by
  rw [processFailureDestination]
  cases settings.eventInvokeConfig.bind EventInvokeConfig.onFailure with
  | none => simp
  | some =>
    cases hrequest : codec.value s.invocation.payload with
    | none => simp
    | some =>
      by_cases hcause : cause = "ZeroReservedConcurrency"
      · simp [hcause]
      · cases payload with
        | none => simp [hcause]
        | some p => cases hvalue : codec.value p <;> simp [hcause, hvalue]

theorem leaves_fail (payload : Option π) (cause : String) :
    Leaves settings (fail codec settings s payload cause) ↔
      ((settings.eventInvokeConfig.bind EventInvokeConfig.onFailure).isSome = true →
        (codec.value s.invocation.payload).isSome = true ∧
        (cause ≠ "ZeroReservedConcurrency" →
          ∀ p, payload = some p → (codec.value p).isSome = true)) ∧
      Deliverable codec settings s payload := by
  rw [← isSome_failure, ← length_deadLetters, fail, Leaves]
  cases processFailureDestination codec settings s payload cause <;> simp [Left.Complete]

theorem leaves_handleMessage (attempt : Attempt π) :
    Leaves settings (handleMessage codec settings s attempt) ↔
      Readable codec settings s attempt := by
  rcases attempt with ⟨⟨_ | _, payload⟩ | _, timePassed⟩
  · exact leaves_success _ _ s _
  · rw [handleMessage, Readable]
    cases hcause : failureCause settings s true timePassed with
    | none => simp [Leaves, Left.Complete]
    | some => simp [leaves_fail]
  · rw [handleMessage, Readable]
    cases hcause : failureCause settings s false timePassed with
    | none => simp [processThrottlesAndSystemErrors, Leaves, Left.Complete]
    | some => simp [leaves_fail]

variable {attempt : Attempt π}

/-- When a message is sent again. -/
theorem handleMessage_enqueued {s : SQSInvocation π τ θ} {message : Message}
    (h : enqueuedMessage (handleMessage codec settings s attempt) = some message) :
    failureCause settings s attempt.isFunctionError attempt.timePassed = none ∧
      ((attempt.isException = true ∧ message = s.encode codec) ∨
       (attempt.isFunctionError = true ∧ message = s.retry.encode codec)) := by
  have hfail : ∀ payload cause, enqueuedMessage (fail codec settings s payload cause) = none := by
    intro payload cause
    rw [fail]
    cases processFailureDestination codec settings s payload cause <;> rfl
  rcases attempt with ⟨⟨_ | _, payload⟩ | _, timePassed⟩
  · rw [handleMessage] at h
    cases hsent : processSuccessDestination codec settings s payload <;>
      simp [hsent, enqueuedMessage] at h
  · rw [handleMessage] at h
    cases hcause : failureCause settings s true timePassed with
    | none =>
      simp only [hcause, enqueuedMessage, some.injEq] at h
      exact ⟨hcause, .inr ⟨rfl, h.symm⟩⟩
    | some => simp [hcause, hfail] at h
  · rw [handleMessage] at h
    cases hcause : failureCause settings s false timePassed with
    | none =>
      simp only [hcause, processThrottlesAndSystemErrors, enqueuedMessage, some.injEq] at h
      exact ⟨hcause, .inl ⟨rfl, h.symm⟩⟩
    | some => simp [hcause, hfail] at h

theorem isFunctionError_of_isException (h : attempt.isException = true) :
    attempt.isFunctionError = false := by
  rcases attempt with ⟨_ | _, _⟩
  · exact absurd h Bool.false_ne_true
  · rfl

theorem handleMessage_of_exception {s : SQSInvocation π τ θ}
    (hexception : attempt.isException = true)
    (hcause : failureCause settings s false attempt.timePassed = none) :
    handleMessage codec settings s attempt =
      [.enqueued (s.encode codec) (min (2 ^ s.exceptionRetries) (5 * 60))] := by
  rcases attempt with ⟨_ | _, timePassed⟩
  · exact absurd hexception Bool.false_ne_true
  · simp only [handleMessage, hcause, processThrottlesAndSystemErrors]

theorem handleMessage_of_functionError {s : SQSInvocation π τ θ}
    (herror : attempt.isFunctionError = true)
    (hcause : failureCause settings s true attempt.timePassed = none) :
    handleMessage codec settings s attempt =
      [.enqueued (s.retry.encode codec) (s.retry.retries * settings.retryBaseDelaySeconds)] := by
  rcases attempt with ⟨⟨_ | _, payload⟩ | _, timePassed⟩
  · exact absurd herror Bool.false_ne_true
  · simp only [handleMessage, hcause]
  · exact absurd herror Bool.false_ne_true

/-! ### Runs -/

/-- What is assumed of the texts in a message. -/
structure Codec.Lawful (codec : Codec π τ θ ν) : Prop where
  payload : ∀ p, codec.decodePayload (codec.encodePayload p) = some p
  time : ∀ t, codec.fromisoformat (codec.isoformat t) = some t
  header : ∀ h, codec.fromHeaderStr (codec.headerStr h) = some h

variable {codec} {settings}

theorem decode_encode (hlawful : codec.Lawful) (s : SQSInvocation π τ θ) :
    SQSInvocation.decode codec (s.encode codec) = some s := by
  simp [SQSInvocation.decode, SQSInvocation.encode, hlawful.payload, hlawful.time, hlawful.header]

theorem run_cons (hlawful : codec.Lawful) (s : SQSInvocation π τ θ) (attempt : Attempt π)
    (attempts : List (Attempt π)) :
    run codec settings (some (s.encode codec)) (attempt :: attempts) =
      ⟨s, attempt, handleMessage codec settings s attempt⟩ ::
        run codec settings (enqueuedMessage (handleMessage codec settings s attempt)) attempts := by
  rw [run, bind_some, decode_encode hlawful]

theorem run_none (attempts : List (Attempt π)) : run codec settings none attempts = [] := by
  cases attempts <;> rfl

/-- The attempts of a run that are function errors. -/
def functionErrors (trace : List (Handled π τ θ ν)) : Nat :=
  trace.countP fun h => h.attempt.isFunctionError

/-- What is in the message at an attempt: the function errors so far, and a
    counter for the other errors that is still zero. -/
theorem run_split (hlawful : codec.Lawful) {s : SQSInvocation π τ θ} (hs : s.exceptionRetries = 0)
    {attempts : List (Attempt π)} {before after : List (Handled π τ θ ν)} {h : Handled π τ θ ν}
    (htrace : run codec settings (some (s.encode codec)) attempts = before ++ h :: after) :
    h.message.retries = s.retries + functionErrors before ∧ h.message.exceptionRetries = 0 ∧
      h.left = handleMessage codec settings h.message h.attempt := by
  induction attempts generalizing s before with
  | nil => exact absurd htrace (by simp [run])
  | cons attempt attempts ih =>
    rw [run_cons hlawful] at htrace
    cases before with
    | nil =>
      rcases cons.inj htrace with ⟨rfl, -⟩
      exact ⟨rfl, hs, rfl⟩
    | cons =>
      rcases cons.inj htrace with ⟨rfl, hrest⟩
      cases hsent : enqueuedMessage (handleMessage codec settings s attempt) with
      | none =>
        rw [hsent, run_none] at hrest
        exact absurd hrest (by simp)
      | some message =>
        rw [hsent] at hrest
        -- The next message has the same counters or one more function error.
        rcases (handleMessage_enqueued _ _ hsent).2 with ⟨hexception, rfl⟩ |
          ⟨herror, rfl⟩
        · have hno := isFunctionError_of_isException hexception
          rcases ih hs hrest with ⟨hretries, hrow, hleft⟩
          refine ⟨?_, hrow, hleft⟩
          rw [hretries, functionErrors, functionErrors]
          simp [hno]
        · rcases ih (s := s.retry) rfl hrest with ⟨hretries, hrow, hleft⟩
          refine ⟨?_, hrow, hleft⟩
          rw [hretries, functionErrors, functionErrors, countP_cons]
          simp only [herror, if_true, SQSInvocation.retry]
          omega

/-- The bound on the function errors. -/
theorem countP_functionErrors_le (hlawful : codec.Lawful) {s : SQSInvocation π τ θ}
    (hs : s.retries ≤ settings.maxRetryAttempts) (attempts : List (Attempt π)) :
    s.retries + functionErrors (run codec settings (some (s.encode codec)) attempts) ≤
      settings.maxRetryAttempts + 1 := by
  induction attempts generalizing s with
  | nil => exact Nat.le_succ_of_le hs
  | cons attempt attempts ih =>
    rw [run_cons hlawful, functionErrors, countP_cons]
    cases hsent : enqueuedMessage (handleMessage codec settings s attempt) with
    | none =>
      rw [run_none, countP_nil]
      split <;> omega
    | some =>
      rcases handleMessage_enqueued _ _ hsent with ⟨hcause, ⟨hexception, rfl⟩ | ⟨herror, rfl⟩⟩
      · rw [if_neg (by simp [isFunctionError_of_isException hexception])]
        exact ih hs
      · have hlt : s.retries < settings.maxRetryAttempts := by
          by_contra hge
          rw [failureCause] at hcause
          split at hcause
          · cases hcause
          · rw [if_pos ⟨herror, Nat.le_of_not_lt hge⟩] at hcause
            cases hcause
        have hrest := ih (s := s.retry) hlt
        rw [if_pos herror]
        rw [functionErrors] at hrest
        have hretry : s.retry.retries = s.retries + 1 := rfl
        omega

/-! ### The protocol -/

/-- The throttles and system errors at the end of a list of attempts. -/
def exceptionsInARow (before : List (Handled π τ θ ν)) : Nat :=
  (before.reverse.takeWhile fun h => h.attempt.isException).length

/-- What is claimed of the attempts for an event. -/
structure Protocol (settings : Settings) (trace : List (Handled π τ θ ν)) : Prop where
  one : ∀ h ∈ trace, Leaves settings h.left
  errors : functionErrors trace ≤ settings.maxRetryAttempts + 1
  retried : ∀ before h after message delay, trace = before ++ h :: after →
    h.attempt.isFunctionError = true → h.left = [.enqueued message delay] →
    delay = (functionErrors before + 1) * settings.retryBaseDelaySeconds
  backedOff : ∀ before h after message delay, trace = before ++ h :: after →
    h.attempt.isException = true → h.left = [.enqueued message delay] →
    delay = min (2 ^ exceptionsInARow before) (5 * 60)

/-- No throttle or system error comes right after another one, unless the event is then given up. -/
def NoneInARow (settings : Settings) (trace : List (Handled π τ θ ν)) : Prop :=
  ∀ before h h' after, trace = before ++ h :: h' :: after → h.attempt.isException = true →
    h'.attempt.isException = true →
    failureCause settings h'.message false h'.attempt.timePassed ≠ none

/-- For every event and every sequence of attempts, the protocol is kept exactly
    if no throttle or system error is retried right after another one and the
    payloads of the notifications and dead letters are readable. -/
theorem protocol_iff (codec : Codec π τ θ ν) (hlawful : codec.Lawful) (settings : Settings)
    (invocation : Invocation π τ θ) (attempts : List (Attempt π)) :
    Protocol settings (run codec settings (some (enqueueEvent codec invocation)) attempts) ↔
      NoneInARow settings (run codec settings (some (enqueueEvent codec invocation)) attempts) ∧
      ∀ h ∈ run codec settings (some (enqueueEvent codec invocation)) attempts,
        Readable codec settings h.message h.attempt := by
  have hsplit : ∀ before h after,
      run codec settings (some (enqueueEvent codec invocation)) attempts = before ++ h :: after →
      h.message.retries = 0 + functionErrors before ∧ h.message.exceptionRetries = 0 ∧
        h.left = handleMessage codec settings h.message h.attempt :=
    fun before h after htrace => run_split hlawful (s := ⟨invocation, 0, 0⟩) rfl htrace
  have hleft : ∀ h ∈ run codec settings (some (enqueueEvent codec invocation)) attempts,
      h.left = handleMessage codec settings h.message h.attempt := by
    intro h hh
    rcases append_of_mem hh with ⟨before, after, htrace⟩
    exact (hsplit _ h _ htrace).2.2
  constructor
  · intro hp
    refine ⟨fun before h h' after htrace hh hh' hcause => ?_, fun h hh => ?_⟩
    · have hlater : run codec settings (some (enqueueEvent codec invocation)) attempts =
          (before ++ [h]) ++ h' :: after := by
        rw [htrace, append_assoc]
        rfl
      rcases hsplit _ _ _ hlater with ⟨-, hrow, hleft'⟩
      have hdelay := hp.backedOff _ _ _ _ _ hlater hh'
        (hleft'.trans (handleMessage_of_exception _ _ hh' hcause))
      -- The code waits for a second, but the row has begun before.
      have hpos : 1 ≤ exceptionsInARow (before ++ [h]) := by
        rw [exceptionsInARow]
        simp [hh]
      have htwo : 2 ^ 1 ≤ 2 ^ exceptionsInARow (before ++ [h]) :=
        Nat.pow_le_pow_right (by decide) hpos
      rw [hrow] at hdelay
      omega
    · rw [← leaves_handleMessage, ← hleft h hh]
      exact hp.one h hh
  · rintro ⟨hnone, hreadable⟩
    have hnone' : ∀ (h : Handled π τ θ ν) message delay,
        h.left = handleMessage codec settings h.message h.attempt →
        h.left = [.enqueued message delay] →
        failureCause settings h.message h.attempt.isFunctionError h.attempt.timePassed = none := by
      intro h message delay hleft' hsent
      rw [hsent] at hleft'
      exact (handleMessage_enqueued codec _ (congrArg enqueuedMessage hleft'.symm)).1
    refine ⟨fun h hh => ?_, ?_, ?_, ?_⟩
    · rw [hleft h hh, leaves_handleMessage]
      exact hreadable h hh
    · rw [← Nat.zero_add (functionErrors _)]
      exact countP_functionErrors_le hlawful (s := ⟨invocation, 0, 0⟩) (Nat.zero_le _) _
    · intro before h after message delay htrace herror hsent
      rcases hsplit _ h _ htrace with ⟨hretries, -, hleft'⟩
      have hcause := hnone' h message delay hleft' hsent
      rw [herror] at hcause
      rw [hleft', handleMessage_of_functionError _ _ herror hcause] at hsent
      simp only [cons.injEq, Left.enqueued.injEq, and_true] at hsent
      rw [← hsent.2, SQSInvocation.retry, hretries, Nat.zero_add]
    · intro before h after message delay htrace hexception hsent
      rcases hsplit before h after htrace with ⟨-, hrow, hleft'⟩
      have hcause := hnone' h message delay hleft' hsent
      rw [isFunctionError_of_isException hexception] at hcause
      have hzero : exceptionsInARow before = 0 := by
        rcases eq_nil_or_concat' before with rfl | ⟨before, first, rfl⟩
        · rfl
        · have hfirst : first.attempt.isException = false := by
            by_contra hfirst
            refine hnone before first h after ?_ (by simpa using hfirst) hexception hcause
            rw [htrace, append_assoc]
            rfl
          rw [exceptionsInARow]
          simp [hfirst]
      rw [hleft', handleMessage_of_exception _ _ hexception hcause, hrow] at hsent
      simp only [cons.injEq, Left.enqueued.injEq, and_true] at hsent
      rw [hzero, ← hsent.2]

def textCodec : Codec String String String String where
  encodePayload := id
  decodePayload := some
  isoformat := id
  fromisoformat := some
  headerStr := id
  fromHeaderStr := some
  text := some
  loads _ := none
  dumps := id
  ofText := id
  rawPayload := id
  errorMessage _ := none
  serviceMessages _ _ _ := none
  isEmpty p := p = ""
  null := "null"
  emptyObject := "\x7b\x7d"

def exampleSettings : Settings :=
  ⟨none, none, "arn:aws:lambda:us-east-1:000000000000:function:f:$LATEST", none, 60⟩

def exampleInvocation : Invocation String String String :=
  ⟨"1", "arn:aws:lambda:us-east-1:000000000000:function:f", none, "Event", "2024-01-01T00:00:00",
    "r", "Root=1"⟩

def exampleAttempts : List (Attempt String) :=
  [⟨.exception true, 1⟩, ⟨.result true none, 2⟩, ⟨.result false none, 65⟩]

theorem protocol_of_mixed_errors :
    Protocol exampleSettings (run textCodec exampleSettings
      (some (enqueueEvent textCodec exampleInvocation)) exampleAttempts) := by
  refine (protocol_iff _ ⟨fun _ => rfl, fun _ => rfl, fun _ => rfl⟩ _ _ _).mpr
    ⟨fun before h h' after htrace hh hh' => ?_, fun h hh => ?_⟩
  · -- Only the first attempt is an exception.
    have hsecond : ∀ x ∈ (run textCodec exampleSettings
        (some (enqueueEvent textCodec exampleInvocation)) exampleAttempts).tail,
        x.attempt.isException = false := by decide +kernel
    rw [htrace] at hsecond
    have hmem : h' ∈ (before ++ h :: h' :: after).tail := by cases before <;> simp
    rw [hsecond h' hmem] at hh'
    cases hh'
  · rw [Readable]
    split
    · exact fun hsome => absurd hsome (by decide)
    · exact fun cause _ => ⟨fun hsome => absurd hsome (by decide), fun _ hqueue => by cases hqueue⟩
    · exact fun cause _ => ⟨fun hsome => absurd hsome (by decide), fun _ hqueue => by cases hqueue⟩

/-- Two throttles in a row are both retried after a second. -/
theorem second_throttle_delay :
    (run textCodec exampleSettings (some (enqueueEvent textCodec exampleInvocation))
        [⟨.exception true, 1⟩, ⟨.exception true, 2⟩]).map (fun h => h.left) =
      [[.enqueued (enqueueEvent textCodec exampleInvocation) 1],
       [.enqueued (enqueueEvent textCodec exampleInvocation) 1]] ∧
      ¬ Protocol exampleSettings (run textCodec exampleSettings
        (enqueueEvent textCodec exampleInvocation)
        [⟨.exception true, 1⟩, ⟨.exception true, 2⟩]) := by
  refine ⟨by decide +kernel, fun hp => ?_⟩
  have hdelay := hp.backedOff [⟨⟨exampleInvocation, 0, 0⟩, ⟨.exception true, 1⟩,
    [.enqueued (enqueueEvent textCodec exampleInvocation) 1]⟩]
    ⟨⟨exampleInvocation, 0, 0⟩, ⟨.exception true, 2⟩,
      [.enqueued (enqueueEvent textCodec exampleInvocation) 1]⟩ [] _ _ (by decide +kernel) rfl rfl
  exact absurd hdelay (by decide +kernel)

end LocalEmu.Lambda.EventManager
