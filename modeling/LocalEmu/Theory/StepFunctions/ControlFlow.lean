import LocalEmu.Core.StepFunctions.States

/-!
# Control Flow

The state that follows is the one that the definition names, except in one case: an
error is caught by a Catcher that goes back to the state itself. `_set_next` finds the
name of the state in the environment, takes it for a name that was not written, and
goes on as if the state had completed.

`Attempts` and `Chooses` say how an execution state and a Choice state end without
reference to the loops of the interpreter, and `Reaches` how any state does.
-/

namespace LocalEmu.StepFunctions

variable {Data : Type}

/-! ### How a state ends -/

/-- The attempts to evaluate an execution state end in some way. -/
inductive Attempts (state : ExecutionState) (run : Evaluation Data) :
    Nat → List (RetrierDecl × Int) → Data → Ending → Data → Prop
  | completed {number : Nat} {retriers : List (RetrierDecl × Int)} {data data' : Data}
      (hattempt : run.attempt number data = (data', none)) :
      Attempts state run number retriers data .completed data'
  | retried {number : Nat} {retriers : List (RetrierDecl × Int)} {data data' data'' : Data}
      {raised : Raised} {event : FailureEvent} {ending : Ending}
      (hattempt : run.attempt number data = (data', some raised))
      (hevent : state.handled raised = some event)
      (hretry : (retryEval event.errorName retriers).1 = .canRetry)
      (hrest : Attempts state run (number + 1) (retryEval event.errorName retriers).2 data'
        ending data'') :
      Attempts state run number retriers data ending data''
  | caught {number : Nat} {retriers : List (RetrierDecl × Int)} {data data' data'' : Data}
      {raised : Raised} {event : FailureEvent} {catcher : CatcherDecl}
      (hattempt : run.attempt number data = (data', some raised))
      (hevent : state.handled raised = some event)
      (hretry : (retryEval event.errorName retriers).1 ≠ .canRetry)
      (hcatcher : catchEval state.catchers event = some catcher)
      (hcaught : run.caught catcher event data' = .ok data'') :
      Attempts state run number retriers data (.caught catcher) data''

variable (state : State) (run : Evaluation Data)

/-- A Choice state goes to the `Next` of the first rule that evaluates to true, else to
    the `Default`. The rules are numbered from some number on. -/
def Chooses (defaultState : Option String) (data : Data) (number : Nat) (rules : List ChoiceRule)
    (next : String) (data' : Data) : Prop :=
  (∃ i rule, rules[i]? = some rule ∧ (∀ j < i, run.condition (number + j) data = .ok false) ∧
    run.condition (number + i) data = .ok true ∧ run.chosen (number + i) data = .ok data' ∧
    rule.nextStmt = some next) ∨
  ((∀ j < rules.length, run.condition (number + j) data = .ok false) ∧
    defaultState = some next ∧ data' = data)

variable (next : String) (data : Data)

variable (result : Except Raised (Env Data)) (ending : Ending) (data' : Data)

/-- A state ends in some way. -/
def Ends : Prop :=
  match state.body with
  | .fail => False
  | .execution execution =>
    Attempts execution run 0 (execution.retriers.map fun retrier => (retrier, -1)) data ending
      data'
  | .choice rules defaultState =>
    ∃ next, ending = .chosen next ∧ Chooses run defaultState data 0 rules next data'
  | _ => ending = .completed ∧ run.attempt 0 data = (data', none)

theorem attempts_of_evalAttempts (state : ExecutionState) (run : Evaluation Data) (number : Nat)
    (retriers : List (RetrierDecl × Int)) (data data' : Data) (ending : Ending)
    (h : evalAttempts state run number retriers data = .ok (ending, data')) :
    Attempts state run number retriers data ending data' := by
  -- The recursion is that of the loop: one case for each way through its body.
  fun_induction evalAttempts state run number retriers data with
  | case1 number retriers data data₁ hattempt =>
    cases h
    exact .completed hattempt
  | case2 => cases h
  | case3 number retriers data data₁ raised hattempt event hevent hretry ih =>
    exact .retried hattempt hevent hretry (ih h)
  | case4 => cases h
  | case5 number retriers data data₁ raised hattempt event hevent hretry catcher hcatcher =>
    cases hcaught : run.caught catcher event data₁ with
    | error => rw [hcaught] at h; cases h
    | ok =>
      rw [hcaught] at h
      cases h
      exact .caught hattempt hevent hretry hcatcher hcaught

variable {defaultState field : Option String} {rules : List ChoiceRule} {number : Nat}

theorem evalAttempts_of_attempts {state : ExecutionState} {run : Evaluation Data}
    {retriers : List (RetrierDecl × Int)} {data data' : Data} {ending : Ending}
    (h : Attempts state run number retriers data ending data') :
    evalAttempts state run number retriers data = .ok (ending, data') := by
  induction h with
  | completed hattempt =>
    unfold evalAttempts
    simp only [hattempt]
  | retried hattempt hevent hretry _ ih =>
    unfold evalAttempts
    simp only [hattempt, hevent, dif_pos hretry]
    exact ih
  | caught hattempt hevent hretry hcatcher hcaught =>
    unfold evalAttempts
    simp only [hattempt, hevent, dif_neg hretry, hcatcher, hcaught]
    rfl

theorem chooses_cons_true {run : Evaluation Data} {data data' : Data} {rule : ChoiceRule}
    {next : String} (h : run.condition number data = .ok true) :
    Chooses run defaultState data number (rule :: rules) next data' ↔
      run.chosen number data = .ok data' ∧ rule.nextStmt = some next := by
  constructor
  · rintro (⟨i, rule', hrule, hfalse, _, hchosen, hnext⟩ | ⟨hfalse, _⟩)
    · cases i with
      | zero =>
        cases hrule
        exact ⟨hchosen, hnext⟩
      | succ i =>
        have hfirst := hfalse 0 (Nat.succ_pos i)
        rw [Nat.add_zero, h] at hfirst
        cases hfirst
    · have hfirst := hfalse 0 (by simp)
      rw [Nat.add_zero, h] at hfirst
      cases hfirst
  · intro hrule
    exact .inl ⟨0, rule, rfl, fun j hj => absurd hj (Nat.not_lt_zero j), h, hrule.1, hrule.2⟩

theorem chooses_cons_false {run : Evaluation Data} {data data' : Data} {rule : ChoiceRule}
    {next : String} (h : run.condition number data = .ok false) :
    Chooses run defaultState data number (rule :: rules) next data' ↔
      Chooses run defaultState data (number + 1) rules next data' := by
  have hshift : ∀ i, number + 1 + i = number + (i + 1) := fun i => by omega
  constructor
  · rintro (⟨i, rule', hrule, hfalse, htrue, hchosen, hnext⟩ | ⟨hfalse, hdefault⟩)
    · cases i with
      | zero =>
        rw [Nat.add_zero, h] at htrue
        cases htrue
      | succ i =>
        refine .inl ⟨i, rule', hrule, fun j hj => ?_, ?_, ?_, hnext⟩
        · rw [hshift]
          exact hfalse _ (by omega)
        · rw [hshift]
          exact htrue
        · rw [hshift]
          exact hchosen
    · refine .inr ⟨fun j hj => ?_, hdefault⟩
      rw [hshift]
      exact hfalse _ (by rw [List.length_cons]; omega)
  · rintro (⟨i, rule', hrule, hfalse, htrue, hchosen, hnext⟩ | ⟨hfalse, hdefault⟩)
    · refine .inl ⟨i + 1, rule', hrule, fun j hj => ?_, ?_, ?_, hnext⟩
      · cases j with
        | zero => exact h
        | succ j =>
          rw [← hshift]
          exact hfalse j (by omega)
      · rw [← hshift]
        exact htrue
      · rw [← hshift]
        exact hchosen
    · refine .inr ⟨fun j hj => ?_, hdefault⟩
      cases j with
      | zero => exact h
      | succ j =>
        rw [← hshift]
        rw [List.length_cons] at hj
        exact hfalse j (by omega)

/-- The loop of a Choice state chooses the first rule that evaluates to true. -/
theorem evalChoice_iff (name : String) (run : Evaluation Data) (defaultState : Option String)
    (data data' : Data) (ending : Ending) (rules : List ChoiceRule) (number : Nat) :
    evalChoice name run defaultState data number rules = .ok (ending, data') ↔
      ∃ next, ending = .chosen next ∧ Chooses run defaultState data number rules next data' := by
  induction rules generalizing number with
  | nil =>
    cases defaultState with
    | none => simp [evalChoice, Chooses]
    | some next =>
      simp only [evalChoice, Chooses, Except.ok.injEq, Prod.mk.injEq]
      constructor
      · rintro ⟨rfl, rfl⟩
        exact ⟨next, rfl, .inr ⟨fun j hj => absurd hj (Nat.not_lt_zero j), rfl, rfl⟩⟩
      · rintro ⟨next', rfl, ⟨i, rule, hrule, _⟩ | ⟨_, hdefault, rfl⟩⟩
        · simp at hrule
        · cases hdefault
          exact ⟨rfl, rfl⟩
  | cons rule rules ih =>
    unfold evalChoice
    cases hcondition : run.condition number data with
    | error =>
      -- A condition that raises is neither true nor false.
      refine iff_of_false (by simp) ?_
      rintro ⟨next, _, ⟨i, rule', _, hfalse, htrue, _⟩ | ⟨hfalse, _⟩⟩
      · cases i with
        | zero => rw [Nat.add_zero, hcondition] at htrue; cases htrue
        | succ i =>
          have hfirst := hfalse 0 (Nat.succ_pos i)
          rw [Nat.add_zero, hcondition] at hfirst
          cases hfirst
      · have hfirst := hfalse 0 (by simp)
        rw [Nat.add_zero, hcondition] at hfirst
        cases hfirst
    | ok value =>
      cases value with
      | false =>
        simp only [chooses_cons_false hcondition]
        exact ih _
      | true =>
        simp only [chooses_cons_true hcondition]
        cases run.chosen number data with
        | error => simp
        | ok =>
          cases rule.nextStmt with
          | none => simp
          | some next =>
            simp only [Except.ok.injEq, Prod.mk.injEq, Option.some.injEq]
            constructor
            · rintro ⟨rfl, rfl⟩
              exact ⟨next, rfl, rfl, rfl⟩
            · rintro ⟨next', rfl, rfl, rfl⟩
              exact ⟨rfl, rfl⟩

/-- The interpreter ends a state as described. -/
theorem evalState_iff (ending : Ending) :
    state.evalState run data = .ok (ending, data') ↔ Ends state run data ending data' := by
  rcases state with ⟨name, body⟩
  cases body with
  | common | succeed =>
    simp only [State.evalState, Ends]
    rcases run.attempt 0 data with ⟨data₁, _ | raised⟩
    · simp [eq_comm]
    · simp
  | fail => simp [State.evalState, Ends]
  | execution => exact ⟨attempts_of_evalAttempts _ _ _ _ _ _ _, evalAttempts_of_attempts⟩
  | choice => exact evalChoice_iff _ _ _ _ _ _ _ 0

/-! ### The next state -/

/-- A state ends, and nothing is raised until the next state is set. -/
def Reaches : Prop :=
  ∃ data₁ data₂, run.input data = .ok data₁ ∧ Ends state run data₁ ending data₂ ∧
    State.evalStateOutput run ending data₂ = .ok data' ∧ run.quota data' = .ok ()

/-- The evaluation of a state leaves the name of another. -/
def GoesTo : Prop :=
  ∃ field, result = .ok ⟨.running (some next) field, data⟩

/-- The `Next` of a state. -/
def State.next? : Option String :=
  match state.body with
  | .common flow => flow.nextDecl
  | .execution execution => execution.flow.nextDecl
  | _ => none

/-- A state has `End`, or is one that ends the execution without it. -/
def State.hasEnd : Bool :=
  match state.body with
  | .common flow => flow.endDecl.isSome
  | .succeed => true
  | .fail => true
  | .execution execution => execution.flow.endDecl.isSome
  | .choice _ _ => false

/-- The next state is the one of the definition. -/
def FollowsDefinition : Prop :=
  ∀ ending data', Reaches state run data ending data' →
    match ending with
    | .completed =>
      (∀ next, state.next? = some next → GoesTo next data' result) ∧
        (state.hasEnd = true → result = .ok ⟨.ended, data'⟩)
    | .caught catcher => GoesTo catcher.nextDecl data' result
    | .chosen next => GoesTo next data' result

theorem FlowDecl.continueWith_next (flow : FlowDecl) (next : String) :
    flow.continueWith = .next (some next) ↔ flow.nextDecl = some next := by
  unfold FlowDecl.continueWith
  cases hend : flow.endDecl with
  | none => simp
  | some =>
    rcases flow.unique with hunique | hunique
    · rw [hend] at hunique
      cases hunique
    · simp [hunique]

theorem State.continueWith_next :
    state.continueWith = .next (some next) ↔ state.next? = some next := by
  rcases state with ⟨name, body⟩
  cases body with
  | common flow => exact flow.continueWith_next next
  | succeed | fail | choice => simp [State.continueWith, State.next?]
  | execution execution => exact execution.flow.continueWith_next next

theorem State.continueWith_ended (h : state.hasEnd = true) : state.continueWith = .ended := by
  rcases state with ⟨name, body⟩
  cases body with
  | common | execution => exact if_pos h
  | succeed | fail => rfl
  | choice => cases h

theorem attempts_ne_chosen {state : ExecutionState} {run : Evaluation Data}
    {retriers : List (RetrierDecl × Int)} {data data' : Data} {ending : Ending}
    (h : Attempts state run number retriers data ending data') (next : String) :
    ending ≠ .chosen next := by
  induction h with
  | completed | caught => intro hending; cases hending
  | retried _ _ _ _ ih => exact ih

theorem body_of_chosen {state : State} {run : Evaluation Data} {data data' : Data}
    {next : String} (h : Ends state run data (.chosen next) data') :
    ∃ rules defaultState, state.body = .choice rules defaultState := by
  rcases state with ⟨name, body⟩
  cases body with
  | common | succeed => cases h.1
  | fail => exact h.elim
  | execution execution =>
    have hattempts : Attempts execution run 0 _ data (.chosen next) data' := h
    exact absurd rfl (attempts_ne_chosen hattempts _)
  | choice rules defaultState => exact ⟨rules, defaultState, rfl⟩

theorem body_ne_choice {state : State} {run : Evaluation Data} {data data' : Data}
    {ending : Ending} (h : Ends state run data ending data')
    (hending : ∀ next, ending ≠ .chosen next) (rules : List ChoiceRule)
    (defaultState : Option String) : state.body ≠ .choice rules defaultState := by
  intro hbody
  unfold Ends at h
  rw [hbody] at h
  rcases h with ⟨next, hchosen, _⟩
  exact hending _ hchosen

/-- The name that `_set_next` finds in the environment. -/
def foundName (name : String) : Ending → String
  | .completed => name
  | .caught catcher => catcher.nextDecl
  | .chosen next => next

/-- Only `_set_next` is left to do. -/
theorem evalBody_of_reaches {state : State} {run : Evaluation Data} {name : String}
    {data data' : Data} {ending : Ending}
    (h : Reaches state run data ending data') :
    ∃ field', state.evalBody run ⟨.running (some name) field, data⟩ =
      (state.setNext (.running (some (foundName name ending)) field')).map
        fun programState => ⟨programState, data'⟩ := by
  rcases h with ⟨data₁, data₂, hinput, hends, houtput, hquota⟩
  have hstate := (evalState_iff _ _ _ _ _).mpr hends
  have hmap : ∀ programState, (do
      let programState ← state.setNext programState
      return (⟨programState, data'⟩ : Env Data)) =
      (state.setNext programState).map fun programState => ⟨programState, data'⟩ := by
    intro programState
    cases state.setNext programState <;> rfl
  cases ending with
  | completed =>
    refine ⟨field, ?_⟩
    simp only [State.evalBody, hinput, hstate, houtput, hquota, State.overridden, bind,
      Except.bind, foundName]
    exact hmap _
  | caught | chosen =>
    refine ⟨none, ?_⟩
    simp only [State.evalBody, hinput, hstate, houtput, hquota, State.overridden, bind,
      Except.bind, foundName, ProgramState.setNextStateName]
    exact hmap _

theorem setNext_of_ne {state : State} {next : String} (h : next ≠ state.name) :
    state.setNext (.running (some next) field) = .ok (.running (some next) field) := by
  have hne : ProgramState.nextStateName (.running (some next) field) ≠ some state.name :=
    fun heq => h (Option.some.inj heq)
  unfold State.setNext
  split
  · rfl
  · rw [if_pos hne]

theorem setNext_self {state : State}
    (h : ∀ rules defaultState, state.body ≠ .choice rules defaultState) :
    state.setNext (.running (some state.name) field) =
      match state.continueWith with
      | .next (some next) => .ok (.running (some next) none)
      | .next none => .error (.exception "'NoneType' object has no attribute 'name'")
      | .ended => .ok .ended := by
  unfold State.setNext
  split
  next rules defaultState hbody => exact absurd hbody (h _ _)
  next =>
    have hsame : ¬ProgramState.nextStateName (.running (some state.name) field) ≠ some state.name :=
      not_not.mpr rfl
    rw [if_neg hsame]
    rfl

/-- In the evaluation of a state that is the next one of the environment, the state that
    follows is the one of the definition, if and only if no error is caught by a Catcher
    that goes back to the state itself, or the state goes back to itself anyway. -/
theorem evalBody_follows_iff (field : Option String) (data : Data) :
    FollowsDefinition state run data
        (state.evalBody run ⟨.running (some state.name) field, data⟩) ↔
      ∀ catcher data', Reaches state run data (.caught catcher) data' →
        catcher.nextDecl = state.name → state.next? = some state.name := by
  constructor
  · intro hfollows catcher data' hreaches hself
    rcases hfollows _ _ hreaches with ⟨field', hgoes⟩
    rcases evalBody_of_reaches hreaches with ⟨field'', heq⟩
    rcases hreaches with ⟨data₁, data₂, _, hends, _⟩
    rw [heq, foundName, hself, setNext_self (body_ne_choice hends (by simp))] at hgoes
    rw [← State.continueWith_next]
    cases hcontinue : state.continueWith with
    | ended => rw [hcontinue] at hgoes; cases hgoes
    | next next =>
      cases next with
      | none => rw [hcontinue] at hgoes; cases hgoes
      | some => rw [hcontinue] at hgoes; cases hgoes; rfl
  · intro hself ending data' hreaches
    rcases evalBody_of_reaches hreaches with ⟨field', heq⟩
    have hends := hreaches
    rcases hends with ⟨data₁, data₂, _, hends, _⟩
    rw [heq]
    cases ending with
    | completed =>
      rw [foundName, setNext_self (body_ne_choice hends (by simp))]
      constructor
      · intro next hnext
        rw [(state.continueWith_next next).mpr hnext]
        exact ⟨none, rfl⟩
      · intro hend
        rw [state.continueWith_ended hend]
        rfl
    | caught catcher =>
      show GoesTo catcher.nextDecl data' _
      rw [foundName]
      by_cases hname : catcher.nextDecl = state.name
      · rw [hname, setNext_self (body_ne_choice hends (by simp)),
          (state.continueWith_next state.name).mpr (hself _ _ hreaches hname)]
        exact ⟨none, rfl⟩
      · rw [setNext_of_ne hname]
        exact ⟨field', rfl⟩
    | chosen =>
      rcases body_of_chosen hends with ⟨rules, defaultState, hbody⟩
      rw [State.setNext, hbody]
      exact ⟨field', rfl⟩

/-- In every step of a program, the state that follows is the one of the definition, if
    and only if the error of the state is not caught by a Catcher that goes back to the
    state itself, or the state goes back to itself anyway. -/
theorem step_follows_iff (program : Program) (run : Evaluation Data) (name : String)
    (state : State) (field : Option String) (data : Data)
    (hstate : program.states.get? name = some state) :
    FollowsDefinition state run data (program.step run ⟨.running (some name) field, data⟩) ↔
      ∀ catcher data', Reaches state run data (.caught catcher) data' →
        catcher.nextDecl = name → state.next? = some name := by
  have hname := program.named name state hstate
  have hstep : program.step run ⟨.running (some name) field, data⟩ =
      state.evalBody run ⟨.running (some name) field, data⟩ := by
    simp only [Program.step, ProgramState.nextStateName, Program.getState, hstate]
    rfl
  rw [hstep, ← hname]
  exact evalBody_follows_iff _ _ _ _

/-- The name `States.ALL` alone. -/
def allErrors : ErrorEqualsDecl := ⟨[.states .statesALL], fun _ => by decide⟩

/-- A Task state that ends the execution, with a Catcher for every error. -/
def caughtTask : State :=
  ⟨"Task", .execution ⟨⟨some true, none, .inr rfl⟩, [], [⟨allErrors, next⟩], mapFailureEvent⟩⟩

/-- A task that fails, with a Catcher that leaves the data alone. -/
def failingTask : Evaluation Unit where
  input := .ok
  attempt := fun _ data => (data, some (.exception "failed"))
  failure := fun _ => .exception "failed"
  condition := fun _ _ => .ok false
  chosen := fun _ => .ok
  caught := fun _ _ => .ok
  output := .ok
  quota := fun _ => .ok ()

def caughtProgram : Program where
  startAt := "Task"
  states := Dict.empty.set "Task" (caughtTask next)
  named := by
    intro name state h
    rcases Dict.get?_set_eq_some _ _ _ h with ⟨hname, rfl⟩ | ⟨-, h⟩
    · exact hname.symm
    · cases h

theorem ends_caughtTask : Ends (caughtTask next) failingTask () (.caught ⟨allErrors, next⟩) () :=
  .caught rfl rfl (fun h => by cases h) rfl rfl

theorem reaches_caughtTask :
    Reaches (caughtTask next) failingTask () (.caught ⟨allErrors, next⟩) () :=
  ⟨(), (), rfl, ends_caughtTask _, rfl, rfl⟩

/-- The Catcher goes on to another state, and the next state is that one. -/
theorem step_follows_of_caughtProgram :
    (caughtProgram "Fallback").states.get? "Task" = some (caughtTask "Fallback") ∧
      FollowsDefinition (caughtTask "Fallback") failingTask ()
        ((caughtProgram "Fallback").step failingTask ⟨.running (some "Task") none, ()⟩) := by
  have hstate : (caughtProgram "Fallback").states.get? "Task" = some (caughtTask "Fallback") := rfl
  refine ⟨hstate, (step_follows_iff _ _ "Task" _ _ () hstate).mpr ?_⟩
  intro catcher data' hreaches hself
  rcases hreaches with ⟨data₁, data₂, _, hends, _⟩
  -- The task ends in one way only.
  have heq := (evalState_iff _ _ _ _ _).mpr hends
  rw [(evalState_iff _ _ () () _).mpr (ends_caughtTask "Fallback")] at heq
  cases heq
  exact absurd hself (by decide)

/-- The Catcher goes back to the state, but the execution ends. -/
theorem execution_ends_instead : ¬FollowsDefinition (caughtTask "Task") failingTask ()
    ((caughtProgram "Task").step failingTask ⟨.running (some "Task") none, ()⟩) := by
  intro hfollows
  rcases hfollows _ _ (reaches_caughtTask "Task") with ⟨field, hgoes⟩
  have hstep : (caughtProgram "Task").step failingTask ⟨.running (some "Task") none, ()⟩ =
      (caughtTask "Task").evalBody failingTask ⟨.running (some "Task") none, ()⟩ := rfl
  rcases evalBody_of_reaches (reaches_caughtTask "Task") with ⟨field', heq⟩
  rw [hstep, heq] at hgoes
  cases hgoes

end LocalEmu.StepFunctions
