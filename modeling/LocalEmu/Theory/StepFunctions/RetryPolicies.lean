import LocalEmu.Core.StepFunctions.Retry

/-!
# Retries Follow The Retriers

While a state is evaluated, the heap has for each of its Retriers how many of the errors of
this entry were for it, and the power of its rate that goes with the number. The keys keep
the values of different components apart, and at the end of every state all of them are
forgotten. So what is done about an error depends on the Retriers and on the errors of
the entry alone.

Powers are repeated multiplications here, as for floating-point numbers the product of some
powers need not be one.
-/

namespace LocalEmu.StepFunctions.Retry

open List Option

variable {K : Type}

/-! ### What the Retriers say -/

def power [One K] [Mul K] (rate : K) : Nat → K
  | 0 => 1
  | n + 1 => power rate n * rate

section Policy

variable [One K] [LE K]

variable (retriers : List (RetrierDecl K))

/-- The first Retrier that is for an error, and its number. -/
def firstRetrier (errorName : Option ErrorName) : Option (RetrierDecl K × Nat) :=
  retriers.zipIdx.find? fun entry => entry.1.errorEquals.eval errorName

variable (errors : List (Option ErrorName))

/-- How many of some errors a Retrier is used for. -/
def uses (number : Nat) : Nat :=
  errors.countP fun errorName => (firstRetrier retriers errorName).map Prod.snd == some number

/-- The delay of a Retrier that has been used some times before. -/
def delay [Mul K] [NatCast K] [Min K] (retrier : RetrierDecl K) (used : Nat) : K :=
  min ((retrier.intervalSeconds.seconds : K) * power retrier.backoffRate.rate used)
    (retrier.maxDelaySeconds.maxDelaysSeconds : K)

/-- What an event means for the errors of an entry. -/
def addEvent : Event K → List (Option ErrorName)
  | .enter _ => []
  | .fail errorName _ => errors ++ [errorName]
  | _ => errors

/-- The errors since a state was entered. -/
def entryErrors (events : List (Event K)) : List (Option ErrorName) := events.foldl addEvent []

theorem entryErrors_concat (events : List (Event K)) (event : Event K) :
    entryErrors (events ++ [event]) = addEvent (entryErrors events) event := by
  rw [entryErrors, foldl_append]
  rfl

theorem uses_concat (errorName : Option ErrorName) (number : Nat) :
    uses retriers (errors ++ [errorName]) number = uses retriers errors number +
      if (firstRetrier retriers errorName).map Prod.snd = some number then 1 else 0 := by
  unfold uses
  rw [countP_append, countP_singleton]
  simp only [beq_iff_eq]

theorem getElem?_of_firstRetrier {retriers : List (RetrierDecl K)} {errorName : Option ErrorName}
    {retrier : RetrierDecl K} {number : Nat}
    (h : firstRetrier retriers errorName = some (retrier, number)) :
    retriers[number]? = some retrier :=
  mem_zipIdx_iff_getElem?.mp (mem_of_find?_eq_some h)

theorem eval_of_firstRetrier {retriers : List (RetrierDecl K)} {errorName : Option ErrorName}
    {entry : RetrierDecl K × Nat} (h : firstRetrier retriers errorName = some entry) :
    entry.1.errorEquals.eval errorName = true := by
  have hentry := find?_some h
  exact hentry

end Policy

/-! ### The values of components -/

def storageKey : ComponentKind → Text → Text
  | .maxAttempts => attemptNumberKey
  | .backoffRate => nextMultiplierKey

theorem storageKey_injective {kind kind' : ComponentKind} {heapKey heapKey' : Text}
    (h : storageKey kind heapKey = storageKey kind' heapKey') :
    kind = kind' ∧ heapKey = heapKey' := by
  cases kind with
  | maxAttempts =>
    cases kind' with
    | maxAttempts => exact ⟨rfl, append_cancel_left (append_cancel_right h)⟩
    | backoffRate => exact absurd (cons.inj h).1 (by decide)
  | backoffRate =>
    cases kind' with
    | maxAttempts => exact absurd (cons.inj h).1 (by decide)
    | backoffRate => exact ⟨rfl, append_cancel_left (append_cancel_right h)⟩

variable {env : Env K}

namespace Env

/-- The value that the heap has for a component. -/
def value (env : Env K) (component : Component) : Option (HeapValue K) :=
  (env.heapKeys.get? component).bind fun heapKey =>
    env.heap.get? (storageKey component.kind heapKey)

/-- The attempt number that `MaxAttemptsDecl` finds. -/
def attemptNumber (env : Env K) (component : Component) : Int :=
  match env.value component with
  | some (.attemptNumber number) => number
  | _ => -1

/-- The multiplier that `BackoffRateDecl` finds. -/
def nextMultiplier [One K] (env : Env K) (component : Component) : K :=
  match env.value component with
  | some (.nextMultiplier multiplier) => multiplier
  | _ => 1

/-- Every key belongs to one component, and every value in the heap has such a key. -/
structure Keyed (library : Library K) (env : Env K) : Prop where
  issued : ∀ component heapKey, env.heapKeys.get? component = some heapKey →
    ∃ n, n < env.uids ∧ heapKey = library.longUid n
  distinct : ∀ component component' heapKey, env.heapKeys.get? component = some heapKey →
    env.heapKeys.get? component' = some heapKey → component = component'
  owned : ∀ key, env.heap.get? key ≠ none →
    ∃ component heapKey, env.heapKeys.get? component = some heapKey ∧
      key = storageKey component.kind heapKey

variable {library : Library K}

theorem heapKey_spec (h : env.Keyed library) (component : Component) :
    ∃ keys uids, (env.heapKey library component).2 = { env with heapKeys := keys, uids := uids } ∧
      Keyed library { env with heapKeys := keys, uids := uids } ∧
      keys.get? component = some (env.heapKey library component).1 ∧
      value { env with heapKeys := keys, uids := uids } = env.value := by
  unfold heapKey
  cases hkey : env.heapKeys.get? component with
  | some => exact ⟨env.heapKeys, env.uids, rfl, h, hkey, rfl⟩
  | none =>
    have hnew : ∀ other, env.heapKeys.get? other ≠ some (library.longUid env.uids) := by
      intro other hother
      rcases h.issued _ _ hother with ⟨n, hn, heq⟩
      exact absurd (library.longUid_injective heq) (by omega)
    refine ⟨_, _, rfl, ⟨?_, ?_, ?_⟩, by rw [Dict.get?_set, if_pos rfl], ?_⟩
    · intro other heapKey hother
      rcases Dict.get?_set_eq_some _ _ _ hother with ⟨-, rfl⟩ | ⟨-, hother⟩
      · exact ⟨env.uids, Nat.lt_succ_self _, rfl⟩
      · rcases h.issued _ heapKey hother with ⟨n, hn, heq⟩
        exact ⟨n, Nat.lt_succ_of_lt hn, heq⟩
    · intro a b heapKey ha hb
      rw [Dict.get?_set] at ha hb
      by_cases hac : a = component <;> by_cases hbc : b = component
      · rw [hac, hbc]
      · rw [if_pos hac] at ha
        rw [if_neg hbc, ← ha] at hb
        exact absurd hb (hnew b)
      · rw [if_pos hbc] at hb
        rw [if_neg hac, ← hb] at ha
        exact absurd ha (hnew a)
      · rw [if_neg hac] at ha
        rw [if_neg hbc] at hb
        exact h.distinct a b heapKey ha hb
    · intro key hkey'
      rcases h.owned _ hkey' with ⟨other, heapKey, hother, heq⟩
      refine ⟨other, heapKey, ?_, heq⟩
      rw [Dict.get?_set, if_neg, hother]
      intro hsame
      rw [hsame, hkey] at hother
      cases hother
    · funext other
      unfold value
      rw [Dict.get?_set]
      by_cases hsame : other = component
      · rw [if_pos hsame, hsame, hkey, bind_some]
        -- A value under the new key would belong to a component that has the key already.
        refine Classical.byContradiction fun hne => ?_
        rcases h.owned _ hne with ⟨owner, heapKey, howner, heq⟩
        exact hnew _ ((storageKey_injective heq).2 ▸ howner)
      · rw [if_neg hsame]

theorem store_spec (h : env.Keyed library) {component : Component} {heapKey : Text}
    (hkey : env.heapKeys.get? component = some heapKey) (v : HeapValue K) :
    Keyed library { env with heap := env.heap.set (storageKey component.kind heapKey) v } ∧
      value { env with heap := env.heap.set (storageKey component.kind heapKey) v } =
        Function.update env.value component (some v) := by
  refine ⟨⟨h.issued, h.distinct, ?_⟩, ?_⟩
  · intro key hne
    rw [Dict.get?_set] at hne
    by_cases hsame : key = storageKey component.kind heapKey
    · exact ⟨component, heapKey, hkey, hsame⟩
    · rw [if_neg hsame] at hne
      exact h.owned _ hne
  · funext other
    by_cases hsame : other = component
    · rw [hsame, Function.update_self]
      unfold value
      rw [hkey, bind_some, Dict.get?_set, if_pos rfl]
    · rw [Function.update_of_ne hsame]
      unfold value
      cases hother : env.heapKeys.get? other with
      | none => rfl
      | some =>
        rw [bind_some, bind_some, Dict.get?_set, if_neg]
        intro heq
        rw [(storageKey_injective heq).2] at hother
        exact hsame (h.distinct _ _ heapKey hother hkey)

abbrev withHeap (env : Env K) (heap : Dict Text (HeapValue K)) (keys : Dict Component Text)
    (uids : Nat) : Env K :=
  { env with heap := heap, heapKeys := keys, uids := uids }

end Env

/-! ### Evaluation -/

variable {library : Library K}

theorem evalMaxAttempts_spec (decl : MaxAttemptsDecl) (component : Component)
    (hkind : component.kind = .maxAttempts) (h : env.Keyed library) :
    ∃ heap keys uids,
      decl.evalBody library component env =
        { env with
          stack := .maxAttemptsOutcome (if env.attemptNumber component + 1 < decl.attempts then
            .success else .exhausted) :: env.stack
          heap := heap, heapKeys := keys, uids := uids } ∧
      (env.withHeap heap keys uids).Keyed library ∧ (env.withHeap heap keys uids).value =
        Function.update env.value component
          (some (.attemptNumber (env.attemptNumber component + 1))) := by
  rcases Env.heapKey_spec h _ with ⟨keys, uids, henv, hkeyed, hkey, hvalue⟩
  have hnumber : accessAttemptNumber (env.heapKey library component).1
      { env with heapKeys := keys, uids := uids } = env.attemptNumber component := by
    unfold accessAttemptNumber Env.attemptNumber
    rw [← hvalue]
    unfold Env.value
    rw [hkey, hkind]
    rfl
  have hstore := Env.store_spec hkeyed hkey (.attemptNumber (env.attemptNumber component + 1))
  rw [hvalue, hkind] at hstore
  refine ⟨_, keys, uids, ?_, hstore⟩
  unfold MaxAttemptsDecl.evalBody
  dsimp only
  rw [henv, hnumber]
  rfl

theorem evalBackoffRate_spec [One K] [LE K] [Mul K] (decl : BackoffRateDecl K)
    (component : Component) (hkind : component.kind = .backoffRate)
    (h : env.Keyed library) (seconds : K) :
    ∃ heap keys uids,
      decl.evalBody library component (env.push (.seconds seconds)) =
        some { env with
          stack := .seconds (seconds * env.nextMultiplier component) :: env.stack
          heap := heap, heapKeys := keys, uids := uids } ∧
      (env.withHeap heap keys uids).Keyed library ∧ (env.withHeap heap keys uids).value =
        Function.update env.value component
          (some (.nextMultiplier (env.nextMultiplier component * decl.rate))) := by
  rcases Env.heapKey_spec h _ with ⟨keys, uids, henv, hkeyed, hkey, hvalue⟩
  have hmultiplier : accessNextMultiplier (env.heapKey library component).1
      { env with heapKeys := keys, uids := uids } = env.nextMultiplier component := by
    unfold accessNextMultiplier Env.nextMultiplier
    rw [← hvalue]
    unfold Env.value
    rw [hkey, hkind]
    rfl
  have hstore :=
    Env.store_spec hkeyed hkey (.nextMultiplier (env.nextMultiplier component * decl.rate))
  rw [hvalue, hkind] at hstore
  refine ⟨_, keys, uids, ?_, hstore⟩
  unfold BackoffRateDecl.evalBody Env.popSeconds Env.push
  dsimp only [map_some]
  rw [henv, hmultiplier]
  rfl

theorem evalErrorEquals_push (decl : ErrorEqualsDecl) (errorName : Option ErrorName)
    (env : Env K) :
    evalErrorEquals decl (env.push (.errorName errorName)) =
      some (env.push (.bool (decl.eval errorName))) := rfl

section Retriers

variable [One K] [LE K] [Mul K] [NatCast K] [Min K]

variable (state : String) (retriers : List (RetrierDecl K)) (errorName : Option ErrorName)
  (number : Nat)

/-- The component of a Retrier that counts attempts. -/
def maxAttemptsOf : Component := ⟨state, number, .maxAttempts⟩

/-- The component of a Retrier that keeps the multiplier. -/
def backoffRateOf : Component := ⟨state, number, .backoffRate⟩

/-- The wait that is made for a delay, with its jitter. -/
def wait (library : Library K) (retrier : RetrierDecl K) (env : Env K) (seconds : K) : K :=
  match retrier.jitterStrategy with
  | .none => seconds
  | .full => library.uniform env.slept.length seconds

variable (retrier : RetrierDecl K)

theorem evalBody_skipped (errorName : Option ErrorName) (env : Env K)
    (h : retrier.errorEquals.eval errorName = false) :
    retrier.evalBody library state number (env.push (.errorName errorName)) =
      some (env.push (.retrierOutcome .skipped)) := by
  unfold RetrierDecl.evalBody
  rw [evalErrorEquals_push, h]
  rfl

/-- The heap after a Retrier has been used once more. -/
def Env.retriedValue (env : Env K) (retrier : RetrierDecl K) (state : String) (number : Nat) :=
  Function.update (Function.update env.value (maxAttemptsOf state number)
      (some (.attemptNumber (env.attemptNumber (maxAttemptsOf state number) + 1))))
    (backoffRateOf state number) (some (.nextMultiplier
      (env.nextMultiplier (backoffRateOf state number) * retrier.backoffRate.rate)))

abbrev Env.waited (after : Env K) (library : Library K) (env : Env K) (retrier : RetrierDecl K)
    (state : String) (number : Nat) : Env K :=
  { after with slept := env.slept ++ [wait library retrier env
      (min ((retrier.intervalSeconds.seconds : K) *
        env.nextMultiplier (backoffRateOf state number))
        (retrier.maxDelaySeconds.maxDelaysSeconds : K))] }

theorem evalBody_executed (errorName : Option ErrorName) (hkeyed : env.Keyed library)
    (h : retrier.errorEquals.eval errorName = true)
    (hlt : env.attemptNumber (maxAttemptsOf state number) + 1 < retrier.maxAttempts.attempts) :
    ∃ heap keys uids,
      retrier.evalBody library state number (env.push (.errorName errorName)) =
        some (Env.push (.retrierOutcome .executed)
          ((env.withHeap heap keys uids).waited library env retrier state number)) ∧
      (env.withHeap heap keys uids).Keyed library ∧ (env.withHeap heap keys uids).value =
        env.retriedValue retrier state number := by
  rcases evalMaxAttempts_spec _ (maxAttemptsOf state number) rfl hkeyed with
    ⟨heap, keys, uids, heval, hkeyed', hvalue⟩
  rcases evalBackoffRate_spec _ (backoffRateOf state number) rfl hkeyed'
    (retrier.intervalSeconds.seconds : K) with ⟨heap', keys', uids', heval', hkeyed'', hvalue'⟩
  -- To count the attempt has not changed the multiplier.
  have hmultiplier : (env.withHeap heap keys uids).nextMultiplier (backoffRateOf state number) =
      env.nextMultiplier (backoffRateOf state number) := by
    unfold Env.nextMultiplier
    rw [hvalue, Function.update_of_ne (by simp [maxAttemptsOf, backoffRateOf])]
  rw [hmultiplier] at heval' hvalue'
  rw [hvalue] at hvalue'
  refine ⟨heap', keys', uids', ?_, hkeyed'', hvalue'⟩
  unfold RetrierDecl.evalBody
  rw [evalErrorEquals_push, h]
  rw [if_pos hlt] at heval
  unfold maxAttemptsOf at heval
  unfold backoffRateOf at heval'
  simp only [Env.push, Env.popBool, Env.popMaxAttemptsOutcome, bind_eq_bind,
    bind_some, Bool.not_true, Bool.false_eq_true, if_false, heval, reduceCtorEq,
    IntervalSecondsDecl.evalBody] at heval' ⊢
  rw [heval']
  unfold MaxDelaySecondsDecl.evalBody Env.popSeconds JitterStrategy.evalBody wait
  cases retrier.jitterStrategy <;> rfl

theorem evalBody_failed (errorName : Option ErrorName) (hkeyed : env.Keyed library)
    (h : retrier.errorEquals.eval errorName = true)
    (hlt : ¬env.attemptNumber (maxAttemptsOf state number) + 1 < retrier.maxAttempts.attempts) :
    ∃ heap keys uids,
      retrier.evalBody library state number (env.push (.errorName errorName)) =
        some (Env.push (.retrierOutcome .failed) (env.withHeap heap keys uids)) ∧
      (env.withHeap heap keys uids).Keyed library := by
  rcases evalMaxAttempts_spec _ (maxAttemptsOf state number) rfl hkeyed with
    ⟨heap, keys, uids, heval, hkeyed', -⟩
  refine ⟨heap, keys, uids, ?_, hkeyed'⟩
  unfold RetrierDecl.evalBody
  rw [evalErrorEquals_push, h]
  rw [if_neg hlt] at heval
  unfold maxAttemptsOf at heval
  simp only [Env.push, Env.popBool, Env.popMaxAttemptsOutcome, bind_eq_bind,
    Option.bind_some, Bool.not_true, Bool.false_eq_true, if_false, heval, if_true, Option.pure_def]

/-- What the outcome of the Retrier that is for an error means for the state. -/
def retryOutcome : RetrierOutcome → RetryOutcome
  | .executed => .canRetry
  | _ => .cannotRetry

theorem evalRetriers_none (env : Env K) (retriers : List (RetrierDecl K)) : ∀ number : Nat,
    (retriers.zipIdx number).find? (fun entry => entry.1.errorEquals.eval errorName) = none →
    evalRetriers library state errorName number retriers env =
      some (env.push (.retryOutcome .noRetrier)) := by
  induction retriers with
  | nil => exact fun number _ => rfl
  | cons retrier retriers ih =>
    intro number hfind
    rw [zipIdx_cons, find?_cons] at hfind
    cases h : retrier.errorEquals.eval errorName with
    | true =>
      rw [h] at hfind
      cases hfind
    | false =>
      rw [h] at hfind
      rw [← ih _ hfind, evalRetriers, evalBody_skipped _ _ _ _ _ h]
      rfl

theorem evalRetriers_some (env : Env K) {retrier : RetrierDecl K} {i : Nat} {after : Env K}
    {outcome : RetrierOutcome}
    (hne : outcome ≠ .skipped)
    (heval : retrier.evalBody library state i (env.push (.errorName errorName)) =
      some (after.push (.retrierOutcome outcome))) (retriers : List (RetrierDecl K)) :
    ∀ number : Nat, (retriers.zipIdx number).find?
      (fun entry => entry.1.errorEquals.eval errorName) = some (retrier, i) →
    evalRetriers library state errorName number retriers env =
      some (after.push (.retryOutcome (retryOutcome outcome))) := by
  induction retriers with
  | nil =>
    intro number hfind
    cases hfind
  | cons first retriers ih =>
    intro number hfind
    rw [zipIdx_cons, find?_cons] at hfind
    cases h : first.errorEquals.eval errorName with
    | true =>
      rw [h] at hfind
      cases hfind
      rw [evalRetriers, heval]
      cases outcome with
      | skipped => exact absurd rfl hne
      | executed | failed => rfl
    | false =>
      rw [h] at hfind
      rw [← ih _ hfind, evalRetriers, evalBody_skipped _ _ _ _ _ h]
      rfl

/-! ### Errors -/

theorem handleRetry_of_evalRetriers {env after : Env K} {outcome : RetryOutcome}
    (hloop : evalRetriers library state errorName 0 retriers env =
      some (after.push (.retryOutcome outcome))) :
    handleRetry library state retriers errorName env =
      some (outcome, if outcome = .canRetry then
        { after with retryCount := after.retryCount + 1 } else after) := by
  simp only [handleRetry, RetryDecl.evalBody, Env.push, Env.popErrorName, bind_eq_bind,
    bind_some] at hloop ⊢
  rw [hloop]
  cases outcome <;> rfl

/-- What becomes of an error. -/
theorem handleRetry_none (env : Env K) (h : firstRetrier retriers errorName = none) :
    handleRetry library state retriers errorName env = some (.noRetrier, env) := by
  have hloop : evalRetriers library state errorName 0 retriers env =
      some (env.push (.retryOutcome .noRetrier)) :=
    evalRetriers_none _ _ _ _ 0 h
  rw [handleRetry_of_evalRetriers _ _ _ hloop]
  rfl

end Retriers

/-! ### Heaps and errors -/

section Tallies

variable [One K] [LE K] [Mul K]

/-- The heap has what the errors of the entry have left there. -/
def Tallies (state : String) (retriers : List (RetrierDecl K)) (errors : List (Option ErrorName))
    (env : Env K) : Prop :=
  ∀ number : Nat,
    env.attemptNumber (maxAttemptsOf state number) = (uses retriers errors number : Int) - 1 ∧
      ∀ retrier, retriers[number]? = some retrier →
        env.nextMultiplier (backoffRateOf state number) =
          power retrier.backoffRate.rate (uses retriers errors number)

theorem tallies_congr {state : String} {retriers : List (RetrierDecl K)}
    {errors : List (Option ErrorName)} {env env' : Env K} (h : env'.value = env.value)
    (ht : Tallies state retriers errors env) : Tallies state retriers errors env' := by
  intro number
  simp only [Env.attemptNumber, Env.nextMultiplier, h]
  exact ht _

theorem tallies_nil (h : ∀ component, env.value component = none) (state : String)
    (retriers : List (RetrierDecl K)) : Tallies state retriers [] env := by
  intro number
  unfold Env.attemptNumber Env.nextMultiplier
  rw [h, h]
  exact ⟨rfl, fun _ _ => rfl⟩

theorem tallies_concat {state : String} {retriers : List (RetrierDecl K)}
    {errors : List (Option ErrorName)} {env env' : Env K} {errorName : Option ErrorName}
    {retrier : RetrierDecl K} {i : Nat}
    (hfirst : firstRetrier retriers errorName = some (retrier, i))
    (ht : Tallies state retriers errors env)
    (hvalue : env'.value = env.retriedValue retrier state i) :
    Tallies state retriers (errors ++ [errorName]) env' := by
  intro number
  rw [Env.retriedValue] at hvalue
  rw [uses_concat, hfirst, map_some]
  have hkinds : maxAttemptsOf state number ≠ backoffRateOf state i := by
    simp [maxAttemptsOf, backoffRateOf]
  have hkinds' : backoffRateOf state number ≠ maxAttemptsOf state i := by
    simp [maxAttemptsOf, backoffRateOf]
  by_cases hsame : number = i
  · subst hsame
    rw [if_pos rfl]
    constructor
    · unfold Env.attemptNumber
      rw [hvalue, Function.update_of_ne hkinds, Function.update_self]
      dsimp only
      rw [(ht _).1]
      omega
    · intro other hother
      rw [getElem?_of_firstRetrier hfirst, some.injEq] at hother
      subst hother
      unfold Env.nextMultiplier
      rw [hvalue, Function.update_self]
      rw [(ht _).2 retrier (getElem?_of_firstRetrier hfirst)]
      rfl
  · have hne : i ≠ number := fun heq => hsame heq.symm
    rw [if_neg (by simpa using hne)]
    have hattempt : maxAttemptsOf state number ≠ maxAttemptsOf state i := by
      simpa [maxAttemptsOf] using hsame
    have hbackoff : backoffRateOf state number ≠ backoffRateOf state i := by
      simpa [backoffRateOf] using hsame
    unfold Env.attemptNumber Env.nextMultiplier
    rw [hvalue, Function.update_of_ne hkinds, Function.update_of_ne hattempt,
      Function.update_of_ne hbackoff, Function.update_of_ne hkinds']
    exact ht _

/-- The values of the heap have their keys, and go with the errors of the entry. -/
structure Tracks (library : Library K) (events : List (Event K)) (s : Execution K) : Prop where
  keyed : s.env.Keyed library
  between : s.phase = .between → ∀ component, s.env.value component = none
  attempting : ∀ state, s.phase = .attempting state → ∀ retriers, state.retry = some retriers →
    Tallies state.name retriers (entryErrors events) s.env

theorem initial_tracks : Tracks library [] (Execution.initial : Execution K) where
  keyed := by
    refine ⟨?_, ?_, ?_⟩
    · intro component heapKey h
      cases h
    · intro component component' heapKey h
      cases h
    · intro key h
      exact absurd rfl h
  between := fun _ _ => rfl
  attempting := by
    intro state h
    cases h

theorem tracks_over {events : List (Event K)} (h : env.Keyed library) :
    Tracks library events ⟨env, .finished⟩ where
  keyed := h
  between := by
    intro hphase
    cases hphase
  attempting := by
    intro state hphase
    cases hphase

end Tallies

/-! ### Runs -/

section Runs

variable [One K] [LE K] [Mul K] [NatCast K] [Min K]

def Retried (library : Library K) (retriers : List (RetrierDecl K))
    (errors : List (Option ErrorName)) (errorName : Option ErrorName) (s t : Execution K) : Prop :=
  ∃ retrier number, firstRetrier retriers errorName = some (retrier, number) ∧
    uses retriers errors number < retrier.maxAttempts.attempts ∧
    t.phase = s.phase ∧ t.env.retryCount = s.env.retryCount + 1 ∧
    t.env.slept =
      s.env.slept ++ [wait library retrier s.env (delay retrier (uses retriers errors number))]

/-- No wait is made for an error that is not retried. -/
def NotRetried (retriers : List (RetrierDecl K)) (errors : List (Option ErrorName))
    (errorName : Option ErrorName) (s t : Execution K) : Prop :=
  (∀ retrier number, firstRetrier retriers errorName = some (retrier, number) →
    ¬uses retriers errors number < retrier.maxAttempts.attempts) ∧
    t.phase = .finished ∧ t.env.retryCount = s.env.retryCount ∧ t.env.slept = s.env.slept

variable {events : List (Event K)}

theorem fail_spec {s : Execution K} (h : Tracks library events s) {state : ExecutionState K}
    (hphase : s.phase = .attempting state)
    {retriers : List (RetrierDecl K)} (hretry : state.retry = some retriers)
    (errorName : Option ErrorName) (left : Nat) :
    ∃ t, s.step library (.fail errorName left) = some t ∧
      Tracks library (events ++ [.fail errorName left]) t ∧
      (Retried library retriers (entryErrors events) errorName s t ∨
        NotRetried retriers (entryErrors events) errorName s t) := by
  have htallies := h.attempting _ hphase _ hretry
  unfold Execution.step
  rw [hphase]
  dsimp only
  unfold Execution.fail
  rw [hretry]
  dsimp only
  -- What the attempt leaves on the stack is of no account for the heap.
  have hkeyed : Env.Keyed library
      { s.env with stack := replicate left .other ++ s.env.stack } :=
    ⟨h.keyed.issued, h.keyed.distinct, h.keyed.owned⟩
  cases hfirst : firstRetrier retriers errorName with
  | none =>
    rw [handleRetry_none _ _ _ _ hfirst]
    refine ⟨_, rfl, tracks_over hkeyed, .inr ⟨?_, rfl, rfl, rfl⟩⟩
    intro retrier number heq
    rw [hfirst] at heq
    cases heq
  | some entry =>
    rcases entry with ⟨retrier, number⟩
    have hnumber := (htallies number).1
    by_cases hlt : uses retriers (entryErrors events) number < retrier.maxAttempts.attempts
    · rcases evalBody_executed state.name number _ _ hkeyed (eval_of_firstRetrier hfirst)
        (show s.env.attemptNumber _ + 1 < retrier.maxAttempts.attempts by omega) with
        ⟨heap, keys, uids, heval, hkeyed', hvalue⟩
      rw [handleRetry_of_evalRetriers _ _ _ (evalRetriers_some _ _ _ (by decide) heval _ 0 hfirst)]
      refine ⟨_, rfl, ⟨⟨hkeyed'.issued, hkeyed'.distinct, hkeyed'.owned⟩, ?_, ?_⟩, .inl ?_⟩
      · intro hother
        cases hother
      · intro other hother others hothers
        cases hother
        rw [hretry, some.injEq] at hothers
        rw [← hothers, entryErrors_concat]
        exact tallies_concat hfirst htallies hvalue
      · refine ⟨retrier, number, hfirst, hlt, hphase.symm, rfl, ?_⟩
        have hmultiplier := (htallies _).2 retrier (getElem?_of_firstRetrier hfirst)
        unfold delay
        rw [← hmultiplier]
        rfl
    · rcases evalBody_failed state.name number _ _ hkeyed (eval_of_firstRetrier hfirst)
        (show ¬s.env.attemptNumber _ + 1 < retrier.maxAttempts.attempts by omega) with
        ⟨heap, keys, uids, heval, hkeyed'⟩
      rw [handleRetry_of_evalRetriers _ _ _ (evalRetriers_some _ _ _ (by decide) heval _ 0 hfirst)]
      refine ⟨_, rfl, tracks_over ⟨hkeyed'.issued, hkeyed'.distinct, hkeyed'.owned⟩,
        .inr ⟨?_, rfl, rfl, rfl⟩⟩
      intro other i heq
      rw [hfirst] at heq
      cases heq
      exact hlt

theorem enter_tracks {s t : Execution K} (h : Tracks library events s) (state : ExecutionState K)
    (hstep : s.step library (.enter state) = some t) :
    Tracks library (events ++ [.enter state]) t := by
  unfold Execution.step at hstep
  cases hphase : s.phase with
  | attempting | finished => rw [hphase] at hstep; cases hstep
  | between =>
    rw [hphase] at hstep
    cases hstep
    refine ⟨⟨h.keyed.issued, h.keyed.distinct, h.keyed.owned⟩, ?_, ?_⟩
    · intro hother
      cases hother
    · intro other hother retriers _
      cases hother
      rw [entryErrors_concat]
      exact tallies_nil (h.between hphase) _ _

theorem leave_tracks {s t : Execution K} (h : Tracks library events s)
    (hstep : s.step library .leave = some t) : Tracks library (events ++ [.leave]) t := by
  unfold Execution.step at hstep
  cases hphase : s.phase with
  | between | attempting => rw [hphase] at hstep; cases hstep
  | finished =>
    rw [hphase] at hstep
    cases hstep
    refine ⟨⟨h.keyed.issued, h.keyed.distinct, fun key hkey => absurd rfl hkey⟩, ?_, ?_⟩
    · intro _ component
      unfold Env.value
      cases s.env.heapKeys.get? component <;> rfl
    · intro other hother
      cases hother

theorem keyElsewhere_tracks {s t : Execution K} (h : Tracks library events s)
    (component : Component)
    (hstep : s.step library (.keyElsewhere component) = some t) :
    Tracks library (events ++ [.keyElsewhere component]) t := by
  rcases Env.heapKey_spec h.keyed _ with ⟨keys, uids, henv, hkeyed, -, hvalue⟩
  unfold Execution.step at hstep
  dsimp only at hstep
  rw [henv] at hstep
  cases hstep
  refine ⟨hkeyed, ?_, ?_⟩
  · intro hphase other
    rw [hvalue]
    exact h.between hphase _
  · intro state hphase retriers hretry
    rw [entryErrors_concat]
    exact tallies_congr hvalue (h.attempting _ hphase _ hretry)

/-- Every step preserves the invariant. -/
theorem step_tracks (events : List (Event K)) (s : Execution K) (event : Event K)
    (t : Execution K) (h : Tracks library events s)
    (hstep : Takes (Execution.step library) s event t) : Tracks library (events ++ [event]) t := by
  cases event with
  | enter => exact enter_tracks h _ hstep
  | leave => exact leave_tracks h hstep
  | keyElsewhere => exact keyElsewhere_tracks h _ hstep
  | succeed =>
    unfold Takes Execution.step at hstep
    cases hphase : s.phase with
    | between | finished => rw [hphase] at hstep; cases hstep
    | attempting =>
      rw [hphase] at hstep
      cases hstep
      exact tracks_over h.keyed
  | fail =>
    cases hphase : s.phase with
    | between | finished => rw [Takes, Execution.step, hphase] at hstep; cases hstep
    | attempting state =>
      cases hretry : state.retry with
      | none =>
        unfold Takes Execution.step Execution.fail at hstep
        rw [hphase] at hstep
        dsimp only at hstep
        rw [hretry] at hstep
        cases hstep
        exact tracks_over ⟨h.keyed.issued, h.keyed.distinct, h.keyed.owned⟩
      | some =>
        rcases fail_spec h hphase hretry _ _ with ⟨t', ht', htracks, -⟩
        rw [Takes, ht', some.injEq] at hstep
        exact hstep ▸ htracks

/-- After every run, an error in a state with Retriers is retried exactly if the first
    Retrier that is for it has been used less often in this entry than it may be. Without
    jitter the wait is the delay that goes with the number of the retry. -/
theorem fail_follows_retriers (library : Library K) (events : List (Event K)) (s : Execution K)
    (h : Runs (Takes (Execution.step library)) Execution.initial events s)
    (state : ExecutionState K) (hphase : s.phase = .attempting state)
    (retriers : List (RetrierDecl K)) (hretry : state.retry = some retriers)
    (errorName : Option ErrorName) (left : Nat) :
    ∃ t, s.step library (.fail errorName left) = some t ∧
      (t.phase = .attempting state ↔
        ∃ retrier number, firstRetrier retriers errorName = some (retrier, number) ∧
          uses retriers (entryErrors events) number < retrier.maxAttempts.attempts) ∧
      (∀ retrier number, firstRetrier retriers errorName = some (retrier, number) →
        uses retriers (entryErrors events) number < retrier.maxAttempts.attempts →
        retrier.jitterStrategy = .none →
        t.env.slept =
          s.env.slept ++ [delay retrier (uses retriers (entryErrors events) number)]) := by
  have htracks := h.history step_tracks [] initial_tracks
  rcases fail_spec htracks hphase hretry _ _ with ⟨t, ht, -, hretried | hnot⟩
  · rcases hretried with ⟨retrier, number, hfirst, hlt, hsame, -, hslept⟩
    refine ⟨t, ht, ⟨fun _ => ⟨retrier, number, hfirst, hlt⟩, fun _ => hsame.trans hphase⟩, ?_⟩
    intro other i hother _ hjitter
    rw [hfirst] at hother
    cases hother
    rw [wait, hjitter] at hslept
    exact hslept
  · rcases hnot with ⟨hnone, hover, -, -⟩
    refine ⟨t, ht, ⟨?_, ?_⟩, ?_⟩
    · intro hagain
      rw [hover] at hagain
      cases hagain
    · rintro ⟨retrier, number, hfirst, hlt⟩
      exact absurd hlt (hnone _ _ hfirst)
    · intro retrier number hfirst hlt
      exact absurd hlt (hnone _ _ hfirst)

end Runs

def exampleLibrary : Library Nat where
  longUid n := List.replicate n 'a'
  longUid_injective := by
    intro m n h
    simpa using congrArg List.length h
  uniform _ seconds := seconds

def exampleRetrier : RetrierDecl Nat where
  errorEquals := ⟨[.states .statesALL], fun _ => le_rfl⟩
  intervalSeconds := ⟨2, by decide, by decide⟩
  maxAttempts := ⟨2, by decide⟩
  backoffRate := ⟨3, by decide⟩
  maxDelaySeconds := ⟨5, by decide, by decide⟩
  jitterStrategy := .none

def exampleState : ExecutionState Nat := ⟨"Call", some [exampleRetrier]⟩

def exampleExecution : Execution Nat :=
  (takeAll (Execution.step exampleLibrary) .initial
    [.enter exampleState, .fail none 0]).getD .initial

theorem fail_follows_retriers_example :
    exampleExecution.env.slept = [2] ∧
      ∃ t, exampleExecution.step exampleLibrary (.fail none 0) = some t ∧ t.env.slept = [2, 5] := by
  have hrun : Runs (Takes (Execution.step exampleLibrary)) .initial
      [.enter exampleState, .fail none 0] exampleExecution := Runs.of_takeAll _ _ _ rfl
  rcases fail_follows_retriers _ _ _ hrun _ rfl [exampleRetrier] rfl _ 0 with ⟨t, ht, -, hslept⟩
  exact ⟨rfl, t, ht, hslept _ 0 rfl (by decide) rfl⟩

end LocalEmu.StepFunctions.Retry
