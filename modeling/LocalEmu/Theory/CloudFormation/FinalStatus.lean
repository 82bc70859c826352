import LocalEmu.Theory.CloudFormation.Deployments

/-!
# The Final Status of a Stack

When a worker has finished, the status of its stack should say that it is complete exactly
if the executor reported no failure message and no resource action failed.

An action that fails during the visit of the templates ends the visit at once, with the
message of the action for the reason. Only what a worker makes of this is different from
worker to worker. `create_stack` reads the records of the resources, where a failed action
is seen and a failed preprocessing is not. `execute_change_set` reads the message, where a
failed action without a message is not seen, and neither is a deferred action that fails.
`update_stack` and `delete_stack` read nothing.
-/

namespace LocalEmu.CloudFormation

open List

open Iam (Json)
open LocalEmu.Action

variable {env : Environment} {providers : Providers} {depth : Nat}

/-- A resource action that ended `FAILED`. -/
def Performed.Failed (p : Performed) : Prop := p.event.status = .failed

/-! ### Failed actions -/

/-- The actions that failed on the way ended it with a rollback, and with their message. -/
def Reports (s : State) (o : Option Exn) (t : State) : Prop :=
  ∃ new, t.performed = s.performed ++ new ∧
    ∀ p ∈ new, p.Failed → ∃ id, o = some (.triggerRollback id p.event.message)

variable {s t : State}

theorem reports_nothing {o : Option Exn} (h : t.performed = s.performed) :
    Reports s o t :=
  ⟨[], by rw [h, append_nil], fun _ hp => absurd hp not_mem_nil⟩

theorem reports_visitEffect : VisitEffect Reports where
  refl _ := reports_nothing rfl
  trans := by
    intro s t u o h1 h2
    rcases h1 with ⟨new1, heq1, hfailed1⟩
    rcases h2 with ⟨new2, heq2, hfailed2⟩
    refine ⟨new1 ++ new2, by rw [heq2, heq1, append_assoc], fun p hp hf => ?_⟩
    rcases List.mem_append.mp hp with h | h
    · rcases hfailed1 p h hf with ⟨id, hid⟩
      cases hid
    · exact hfailed2 p h hf
  free := by
    intro s t e h
    rcases h with ⟨new, heq, hfailed⟩
    refine ⟨new, heq, fun p hp hf => ?_⟩
    rcases hfailed p hp hf with ⟨id, hid⟩
    cases hid
  other := by
    intro s t e e' h
    rcases h with ⟨new, heq, hfailed⟩
    refine ⟨new, heq, fun p hp hf => ?_⟩
    rcases hfailed p hp hf with ⟨id, hid⟩
    cases hid
  store _ _ _ := reports_nothing rfl

theorem failedRecord_of_failed {s : State} {call : Call} {event : ProgressEvent}
    {resource : ResolvedResource} {name : String} (haction : call.action ≠ .remove)
    (hrecords : Records call event resource) (hfailed : event.status = .failed)
    (hget : s.resources.get? name = some resource) :
    FailedRecord s name ∧
      (s.resources.getD name .empty).resourceStatusReason = event.message := by
  have hgetD : s.resources.getD name .empty = resource := by
    unfold Dict.getD
    rw [hget]
    rfl
  unfold FailedRecord
  rw [hgetD]
  rcases hrecords with ⟨hsuccess, -⟩ | ⟨-, hstatus, hreason⟩
  · rw [hfailed] at hsuccess
    cases hsuccess
  · refine ⟨?_, hreason⟩
    cases hact : call.action with
    | remove => exact absurd hact haction
    | add => exact .inl (hact ▸ hstatus)
    | modify => exact .inr (hact ▸ hstatus)

variable {node : NodeResource} {delta : Delta PreprocResource}

-- What applies a delta reports nothing unless its record is that of a failure.
theorem reports_applies {r : Except Exn Unit} (h : Applies node delta s r t)
    (o : Option Exn)
    (ho : FailedRecord t node.name → o = some (.triggerRollback node.name
      (t.resources.getD node.name .empty).resourceStatusReason)) : Reports s o t := by
  cases h with
  | nothing | kept | removed => exact reports_nothing rfl
  | deployed after call event resource stack deferred ha haction hname hrecords hstack hadd
      hdeferred =>
    refine ⟨[⟨call, event⟩], rfl, fun p hp hf => ?_⟩
    rw [List.mem_singleton.mp hp] at hf ⊢
    have hrecord := failedRecord_of_failed haction hrecords hf
      (s := { s with
        performed := s.performed ++ [⟨call, event⟩]
        resources := s.resources.set node.name resource
        stack := stack
        deferredActions := s.deferredActions ++ deferred })
      (by rw [Dict.get?_set, if_pos rfl])
    rw [ho hrecord.1, hrecord.2]
    exact ⟨node.name, rfl⟩
  | broken after call event stack deferred e ha haction hname hevent =>
    refine ⟨[⟨call, event⟩], rfl, fun p hp hf => ?_⟩
    rw [List.mem_singleton.mp hp] at hf
    exact absurd hf hevent.2

/-- A failed action ends the visit with its message. -/
theorem reports_process : Does Reports (process env providers depth) := by
  refine process_does (deployEffect_of_deploys reports_visitEffect ?_ ?_ ?_) _
  · intro s o t stack _ h
    exact h
  · intro node _ delta s r t _ h
    cases h with
    | broken e t h =>
      cases h with
      | broken after call event stack deferred e ha haction hname hevent =>
        refine ⟨[⟨call, event⟩], rfl, fun p hp hf => ?_⟩
        rw [List.mem_singleton.mp hp] at hf
        exact absurd hf hevent.2
    | marked t marked h hb ha hrecord =>
      cases hafter : delta.after with
      | none =>
        cases h with
        | nothing | kept | removed =>
          exact reports_nothing rfl
        | deployed after call event resource stack deferred ha =>
          rw [hafter] at ha
          cases ha
      | some =>
        exact reports_applies h _ fun hf => absurd hf (hrecord (by rw [hafter]; rfl))
    | incomplete t e h ha hrecord =>
      exact reports_applies h _ fun hf => absurd hf hrecord
    | rolledBack t h => exact reports_applies h _ fun _ => rfl
  · intro s outputs
    exact reports_nothing rfl

/-! ### Creations -/

/-- All records are those of resources that were created. -/
def AllCreated (s : State) : Prop :=
  ∀ name resource, s.resources.get? name = some resource →
    resource.resourceStatus = some (.complete .add)

/-- A visit in which all resources are new puts nothing off. It leaves records of created
    resources, or it ends with a rollback and has a record of a resource that failed. -/
def Creates (s : State) (o : Option Exn) (t : State) : Prop :=
  (s.deferredActions = [] → t.deferredActions = []) ∧ (AllCreated s → match o with
    | some (.triggerRollback _ _) =>
      (∃ name resource, t.resources.get? name = some resource ∧
        resource.resourceStatus = some (.failed .add)) ∧ ∃ p ∈ t.performed, p.Failed
    | _ => AllCreated t)

theorem creates_nothing (hd : t.deferredActions = s.deferredActions)
    (hr : t.resources = s.resources) : Creates s none t := by
  refine ⟨fun h => hd.trans h, fun h => ?_⟩
  unfold AllCreated
  rw [hr]
  exact h

theorem creates_visitEffect : VisitEffect Creates where
  refl _ := creates_nothing rfl rfl
  trans := fun _ _ _ _ h1 h2 => ⟨fun h => h2.1 (h1.1 h), fun h => h2.2 (h1.2 h)⟩
  free := fun _ _ _ h => h
  other := fun _ _ _ _ h => h
  store _ _ _ := creates_nothing rfl rfl

theorem deferred_eq_nil {deferred : List Deferred} (hbefore : delta.before = none)
    (h : ∀ d ∈ deferred, d.name = node.name ∧ d.isRemoval = false ∧ delta.before.isSome) :
    deferred = [] := by
  cases deferred with
  | nil => rfl
  | cons d =>
    have hsome := (h d (mem_cons_self ..)).2.2
    rw [hbefore] at hsome
    cases hsome

theorem before_eq_none (hpre : Preprocessed env node delta)
    (hcreated : node.changeType = .created) :
    delta.before = none := by
  have hsome := hpre.before_isSome
  unfold NodeResource.presentBefore shouldProcess at hsome
  rw [hcreated] at hsome
  rw [← Option.isNone_iff_eq_none, ← Option.not_isSome, hsome]
  split
  · rfl
  · rfl

theorem creates_applies (hbefore : delta.before = none)
    (h : Applies node delta s (.ok ()) t) :
    t.deferredActions = s.deferredActions ∧ (AllCreated s →
      (AllCreated t ∧ (delta.after.isSome → ¬FailedRecord t node.name)) ∨
      (delta.after.isSome ∧ FailedRecord t node.name ∧
        (∃ name resource, t.resources.get? name = some resource ∧
          resource.resourceStatus = some (.failed .add)) ∧ ∃ p ∈ t.performed, p.Failed)) := by
  cases h with
  | nothing hb ha =>
    refine ⟨rfl, fun hall => .inl ⟨hall, fun hsome => ?_⟩⟩
    rw [ha] at hsome
    cases hsome
  | kept before after hb =>
    rw [hbefore] at hb
    cases hb
  | removed before hb =>
    rw [hbefore] at hb
    cases hb
  | deployed after call event resource stack deferred ha haction hname hrecords hstack hadd
      hdeferred =>
    refine ⟨by rw [deferred_eq_nil hbefore hdeferred, append_nil], fun hall => ?_⟩
    have hget : ∀ name, (s.resources.set node.name resource).get? name =
        if name = node.name then some resource else s.resources.get? name :=
      fun name => Dict.get?_set _ _ _ _
    unfold FailedRecord Dict.getD
    simp only [hget, ↓reduceIte, Option.getD_some]
    rcases hrecords with ⟨hsuccess, hstatus⟩ | ⟨hfailed, hstatus, hreason⟩
    · rw [hadd hbefore] at hstatus
      refine .inl ⟨fun name r hr => ?_, fun _ => ?_⟩
      · simp only [hget] at hr
        split at hr
        · cases hr
          exact hstatus
        · exact hall _ r hr
      · simp only [hstatus, Option.some.injEq, reduceCtorEq, or_self, not_false_eq_true]
    · rw [hadd hbefore] at hstatus
      refine .inr ⟨by rw [ha]; rfl, .inl hstatus, ⟨node.name, resource, ?_, hstatus⟩,
        ⟨call, event⟩, mem_append_right _ (List.mem_singleton.mpr rfl), hfailed⟩
      rw [if_pos rfl]

theorem creates_deploys {r : Except Exn (Delta PreprocResource)}
    (hbefore : delta.before = none)
    (h : Deploys node delta s r t) : Creates s (raised r) t := by
  cases h with
  | broken e t h =>
    cases h with
    | broken after call event stack deferred e ha haction hname hevent hstack hdeferred =>
      refine ⟨fun hd => ?_, fun h => h⟩
      simp only [deferred_eq_nil hbefore hdeferred, append_nil]
      exact hd
  | marked t marked h hb ha hrecord =>
    rcases creates_applies hbefore h with ⟨hdeferred, hall⟩
    refine ⟨fun hd => hdeferred.trans hd, fun hs => ?_⟩
    rcases hall hs with ⟨h, -⟩ | ⟨hsome, hf, -⟩
    · exact h
    · exact absurd hf (hrecord hsome)
  | incomplete t e h ha hrecord =>
    rcases creates_applies hbefore h with ⟨hdeferred, hall⟩
    refine ⟨fun hd => hdeferred.trans hd, fun hs => ?_⟩
    rcases hall hs with ⟨h, -⟩ | ⟨-, hf, -⟩
    · exact h
    · exact absurd hf hrecord
  | rolledBack t h ha hrecord =>
    rcases creates_applies hbefore h with ⟨hdeferred, hall⟩
    refine ⟨fun hd => hdeferred.trans hd, fun hs => ?_⟩
    rcases hall hs with ⟨-, hf⟩ | ⟨-, -, h⟩
    · exact absurd hrecord (hf ha)
    · exact h

theorem creates_process (hcreated : ∀ node ∈ env.resources, node.changeType = .created) :
    Does Creates (process env providers depth) := by
  refine process_does (deployEffect_of_deploys creates_visitEffect ?_ ?_ ?_) _
  · intro s o t stack _ h
    exact h
  · intro node hnode delta s r t hpre h
    exact creates_deploys (before_eq_none hpre (hcreated node hnode)) h
  · intro s outputs
    exact creates_nothing rfl rfl

/-! ### Statuses -/

/-- The status is not that of a stack that was created or updated. -/
def Unfinished (status : StackStatus) : Prop :=
  status ≠ .createComplete ∧ status ≠ .updateComplete

theorem unfinished_onlyEvents {stack stack' : Stack} (h : OnlyEvents stack stack')
    (hu : Unfinished stack.status) : Unfinished stack'.status := by
  rcases h.status with h | ⟨action, h⟩
  · rw [h]
    exact hu
  · rw [h]
    cases action with
    | add | modify | remove => exact ⟨nofun, nofun⟩

/-- A visit does nothing to the stack but make events. -/
def OnlyEventsOn (s : State) (_ : Option Exn) (t : State) : Prop := OnlyEvents s.stack t.stack

theorem onlyEventsOn_visitEffect : VisitEffect OnlyEventsOn where
  refl s := .refl s.stack
  trans := fun _ _ _ _ h1 h2 => h1.trans h2
  free := fun _ _ _ h => h
  other := fun _ _ _ _ h => h
  store s _ _ := .refl s.stack

theorem onlyEvents_applies {r : Except Exn Unit}
    (h : Applies node delta s r t) : OnlyEvents s.stack t.stack := by
  cases h with
  | nothing | kept | removed => exact .refl _
  | deployed after call event resource stack deferred ha haction hname hrecords hstack =>
    exact hstack
  | broken after call event stack deferred e ha haction hname hevent hstack => exact hstack

theorem onlyEvents_process : Does OnlyEventsOn (process env providers depth) := by
  refine process_does (deployEffect_of_deploys onlyEventsOn_visitEffect ?_ ?_ ?_) _
  · intro s o t stack hstack h
    exact h.trans hstack
  · intro node _ delta s r t _ h
    cases h with
    | broken e t h => exact onlyEvents_applies h
    | marked u marked h =>
      have honly : OnlyEvents s.stack u.stack := onlyEvents_applies h
      exact honly
    | incomplete t e h => exact onlyEvents_applies h
    | rolledBack t h => exact onlyEvents_applies h
  · intro s outputs
    exact .refl _

theorem performDeferred_does {Q : State → Option Exn → State → Prop} (hQ : Composes Q)
    (h : ∀ d s r t, Performs d s r t → Q s (raised r) t) (deferred : List Deferred) :
    Does Q (performDeferred providers deferred) := by
  induction deferred with
  | nil => exact Does.of_pure hQ _
  | cons d rest ih =>
    refine Does.of_bind hQ (fun s => ?_) fun _ => ih
    exact h d s _ _ (action_performs _ d s)

theorem onlyEvents_performDeferred (deferred : List Deferred) :
    Does OnlyEventsOn (performDeferred providers deferred) := by
  refine performDeferred_does onlyEventsOn_visitEffect.toComposes ?_ _
  intro d s r t h
  cases h with
  | skipped stack hretained hstack => exact hstack
  | removed call event stack resources r hretained haction hname hstack => exact hstack

theorem unfinished_runDeferredActions (providers : Providers) (message : FailureMessage)
    (isDeletion : Bool) (s : State)
    (hu : Unfinished s.stack.status) :
    Unfinished (exec (runDeferredActions providers message isDeletion) s).2.stack.status := by
  unfold runDeferredActions
  rw [exec_get_bind]
  split
  · exact hu
  · next hne =>
    have hstart : Unfinished (if isDeletion then s.stack else s.stack.setStackStatus
        (if truthyMessage message then .rollbackInProgress
          else .updateCompleteCleanupInProgress)).status := by
      split
      · exact hu
      · simp only [Stack.setStackStatus]
        split
        · exact ⟨nofun, nofun⟩
        · exact ⟨nofun, nofun⟩
    exact unfinished_onlyEvents (onlyEvents_performDeferred _ _) hstart

theorem unfinished_conclude (providers : Providers) (message : FailureMessage) (s : State)
    (hu : Unfinished s.stack.status) :
    Unfinished (exec (conclude providers message) s).2.stack.status := by
  unfold conclude
  rw [exec_get_bind]
  have hmiddle := unfinished_runDeferredActions providers message
    (decide (s.stack.status = .deleteInProgress)) s hu
  rcases hrun : exec (runDeferredActions providers message
    (decide (s.stack.status = .deleteInProgress))) s with ⟨e | u, t⟩
  · rw [exec_bind_of_error _ _ _ _ _ hrun]
    rw [hrun] at hmiddle
    exact hmiddle
  · rw [exec_bind_of_ok _ _ _ _ _ hrun]
    rw [hrun] at hmiddle
    split
    · exact ⟨nofun, nofun⟩
    · exact hmiddle

/-! ### Executions -/

/-- The message that the visit of the templates ends with. -/
def visitMessage (r : Except Exn Unit) : FailureMessage :=
  match r with
  | .ok _ => none
  | .error e => e.failureMessage

theorem exec_execute (s : State) :
    exec (execute env providers depth) s =
      match exec (conclude providers (visitMessage (exec (process env providers depth) s).1))
        (exec (process env providers depth) s).2 with
      | (.ok _, t) => (.ok (visitMessage (exec (process env providers depth) s).1), t)
      | (.error e, t) => (.error e, t) := by
  have hattempt : exec (attemptProcess env providers depth) s =
      (.ok (visitMessage (exec (process env providers depth) s).1),
        (exec (process env providers depth) s).2) := by
    unfold attemptProcess
    rw [exec_attempt, exec_bind]
    rcases exec (process env providers depth) s with ⟨e | u, t⟩
    · rfl
    · rfl
  unfold execute
  rw [exec_bind_of_ok _ _ _ _ _ hattempt, exec_bind]
  rcases exec (conclude providers (visitMessage (exec (process env providers depth) s).1))
    (exec (process env providers depth) s).2 with ⟨e | u, t⟩
  · rfl
  · rfl

theorem unfinished_execute (s : State) (hu : Unfinished s.stack.status) :
    Unfinished (exec (execute env providers depth) s).2.stack.status := by
  have honly : OnlyEvents s.stack (exec (process env providers depth) s).2.stack :=
    onlyEvents_process s
  have hprocess := unfinished_onlyEvents honly hu
  have hconclude := unfinished_conclude providers
    (visitMessage (exec (process env providers depth) s).1) _ hprocess
  rw [exec_execute]
  split
  · next h => rw [h] at hconclude; exact hconclude
  · next h => rw [h] at hconclude; exact hconclude

/-- The status of the stack is the one it has when it is complete exactly if the executor
    reported no failure message and no resource action failed. -/
def Truthful (complete : StackStatus) (finished : Finished) : Prop :=
  finished.stack.status = complete ↔
    (∃ message, finished.reported = .ok message ∧ truthyMessage message = false) ∧
      ∀ p ∈ finished.performed, ¬p.Failed

section Workers

variable (env) (providers) (depth) (s : State)

/-- A deferred action raises, and the executor with it. -/
def Interrupted : Prop := ∃ e, (exec (execute env providers depth) s).1 = .error e

/-- The visit of the templates ends with a message. -/
def VisitFails : Prop :=
  truthyMessage (visitMessage (exec (process env providers depth) s).1) = true

/-- A resource action fails, in the visit or among the deferred actions. -/
def ActionFails : Prop := ∃ p ∈ (exec (execute env providers depth) s).2.performed, p.Failed

/-- The preprocessing raises, and not because of an action that failed. -/
def PreprocessingFails : Prop :=
  ∃ e, (exec (process env providers depth) s).1 = .error (.error e) ∧
    truthyMessage (Exn.error e).failureMessage = true

theorem reported_iff (message : FailureMessage) :
    (exec (execute env providers depth) s).1 = .ok message ↔
      ¬Interrupted env providers depth s ∧
        message = visitMessage (exec (process env providers depth) s).1 := by
  unfold Interrupted
  rw [exec_execute]
  split
  · next h =>
    simp
    exact eq_comm
  · next h =>
    simp

variable {env providers depth s}

/-- What a worker leaves behind is true to the execution. -/
structure TrueTo (env : Environment) (providers : Providers) (depth : Nat) (s : State)
    (finished : Finished) : Prop where
  reported : finished.reported = (exec (execute env providers depth) s).1
  performed : finished.performed = (exec (execute env providers depth) s).2.performed

theorem truthful_iff {complete : StackStatus} {finished : Finished}
    (h : TrueTo env providers depth s finished) :
    Truthful complete finished ↔ (finished.stack.status = complete ↔
      ¬Interrupted env providers depth s ∧ ¬VisitFails env providers depth s ∧
        ¬ActionFails env providers depth s) := by
  unfold Truthful
  rw [h.reported, h.performed]
  refine iff_congr Iff.rfl ⟨fun hnone => ?_, fun hnone => ?_⟩
  · rcases hnone with ⟨⟨message, hreported, hfalsy⟩, hperformed⟩
    rcases (reported_iff _ _ _ s _).mp hreported with ⟨hint, hmessage⟩
    refine ⟨hint, ?_, ?_⟩
    · unfold VisitFails
      rw [← hmessage, hfalsy]
      exact Bool.false_ne_true
    · rintro ⟨p, hp, hf⟩
      exact hperformed p hp hf
  · refine ⟨⟨_, (reported_iff _ _ _ s _).mpr ⟨hnone.1, rfl⟩, ?_⟩, ?_⟩
    · exact Bool.not_eq_true _ |>.mp hnone.2.1
    · exact fun p hp hf => hnone.2.2 ⟨p, hp, hf⟩

theorem careless_iff {complete : StackStatus} {finished : Finished}
    (h : TrueTo env providers depth s finished)
    (hstatus : finished.stack.status = complete ↔ ¬Interrupted env providers depth s) :
    Truthful complete finished ↔ (Interrupted env providers depth s ∨
      (¬VisitFails env providers depth s ∧ ¬ActionFails env providers depth s)) := by
  rw [truthful_iff h, hstatus]
  by_cases hint : Interrupted env providers depth s
  · simp only [hint, not_true_eq_false, false_and, true_or]
  · simp only [hint, not_false_eq_true, true_and, true_iff, false_or]

theorem interrupted_of_error {e : Exn} {t : State}
    (h : exec (execute env providers depth) s = (.error e, t)) :
    Interrupted env providers depth s := ⟨e, by rw [h]⟩

theorem not_interrupted_of_ok {message : FailureMessage} {t : State}
    (h : exec (execute env providers depth) s = (.ok message, t)) :
    ¬Interrupted env providers depth s := by
  rintro ⟨e, he⟩
  rw [h] at he
  cases he

theorem message_of_ok {message : FailureMessage} {t : State}
    (h : exec (execute env providers depth) s = (.ok message, t)) :
    VisitFails env providers depth s ↔ truthyMessage message = true := by
  have hmessage := ((reported_iff _ _ _ s _).mp (by rw [h])).2
  unfold VisitFails
  rw [hmessage]

end Workers

/-! ### Workers -/

section Results

variable (env) (providers) (depth) (stack : Stack) (beforeCache : Dict Scope (Maybe Json))

/-- When the status is right, for each of the workers. -/
theorem updateStack_truthful_iff :
    Truthful .updateComplete (updateStack env providers depth stack beforeCache) ↔
      (Interrupted env providers depth (updateStart stack beforeCache) ∨
        (¬VisitFails env providers depth (updateStart stack beforeCache) ∧
          ¬ActionFails env providers depth (updateStart stack beforeCache))) := by
  rcases hrun : exec (execute env providers depth) (updateStart stack beforeCache) with ⟨e | m, t⟩
  · refine careless_iff ⟨?_, ?_⟩ ?_
    all_goals simp only [updateStack, hrun]
    exact ⟨nofun, fun h => absurd (interrupted_of_error hrun) h⟩
  · refine careless_iff ⟨?_, ?_⟩ ?_
    all_goals simp only [updateStack, hrun]
    exact ⟨fun _ => not_interrupted_of_ok hrun, fun _ => trivial⟩

theorem deleteStack_truthful_iff :
    Truthful .deleteComplete (deleteStack env providers depth stack) ↔
      (Interrupted env providers depth (deleteStart stack) ∨
        (¬VisitFails env providers depth (deleteStart stack) ∧
          ¬ActionFails env providers depth (deleteStart stack))) := by
  rcases hrun : exec (execute env providers depth) (deleteStart stack) with ⟨e | m, t⟩
  · refine careless_iff ⟨?_, ?_⟩ ?_
    all_goals simp only [deleteStack, hrun]
    exact ⟨nofun, fun h => absurd (interrupted_of_error hrun) h⟩
  · refine careless_iff ⟨?_, ?_⟩ ?_
    all_goals simp only [deleteStack, hrun]
    exact ⟨fun _ => not_interrupted_of_ok hrun, fun _ => rfl⟩

variable (changeSetType : ChangeSetType)

theorem unfinished_inProgress : Unfinished changeSetType.inProgress := by
  cases changeSetType with
  | create | update => exact ⟨nofun, nofun⟩

theorem ne_complete_of_unfinished {status : StackStatus} (h : Unfinished status)
    (changeSetType : ChangeSetType) : status ≠ changeSetType.complete := by
  cases changeSetType with
  | create => exact h.1
  | update => exact h.2

/-- The executor takes care of the status of an execution that failed, and never with the
    status of one that is complete. -/
theorem executeChangeSet_truthful_iff : Truthful changeSetType.complete
        (executeChangeSet env providers changeSetType depth stack beforeCache) ↔
      (Interrupted env providers depth (changeSetStart stack beforeCache changeSetType) ∨
        VisitFails env providers depth (changeSetStart stack beforeCache changeSetType) ∨
        ¬ActionFails env providers depth (changeSetStart stack beforeCache changeSetType)) := by
  have hunfinished : Unfinished (exec (execute env providers depth)
      (changeSetStart stack beforeCache changeSetType)).2.stack.status :=
    unfinished_execute _ (unfinished_inProgress _)
  have htrue : TrueTo env providers depth (changeSetStart stack beforeCache changeSetType)
      (executeChangeSet env providers changeSetType depth stack beforeCache) := by
    unfold executeChangeSet
    constructor
    all_goals
      split
      · next h => rw [h]
      · next h => rw [h]
  rw [truthful_iff htrue]
  rcases hrun : exec (execute env providers depth) (changeSetStart stack beforeCache changeSetType)
    with ⟨e | m, t⟩
  · rw [hrun] at hunfinished
    have hint := interrupted_of_error hrun
    simp only [hint, not_true_eq_false, false_and, iff_false, true_or, iff_true, executeChangeSet,
      hrun]
    exact ne_complete_of_unfinished hunfinished _
  · rw [hrun] at hunfinished
    have hne := ne_complete_of_unfinished hunfinished changeSetType
    have hint := not_interrupted_of_ok hrun
    have hstatus : (executeChangeSet env providers changeSetType depth stack
        beforeCache).stack.status = changeSetType.complete ↔
        ¬VisitFails env providers depth (changeSetStart stack beforeCache changeSetType) := by
      rw [message_of_ok hrun]
      simp only [executeChangeSet, hrun]
      split
      · next h => simp only [h, not_true_eq_false, iff_false]; exact hne
      · next h => simp only [h, Bool.false_eq_true, not_false_eq_true]
    rw [hstatus]
    simp only [hint, not_false_eq_true, true_and, false_or]
    by_cases hv : VisitFails env providers depth (changeSetStart stack beforeCache changeSetType)
    · simp only [hv, not_true_eq_false, false_and, true_or]
    · simp only [hv, not_false_eq_true, true_and, true_iff, false_or]

theorem allCreated_iff (s : State) :
    (s.resources.values.all fun resource => resource.resourceStatus == some (.complete .add)) =
      true ↔ AllCreated s := by
  unfold AllCreated Dict.values
  simp only [all_map, all_eq_true, Function.comp_apply, beq_iff_eq, Prod.forall,
    Dict.get?_eq_some_iff]

theorem conclude_of_nil (message : FailureMessage) (s : State) (h : s.deferredActions = []) :
    ∃ stack, exec (conclude providers message) s = (.ok (), { s with stack := stack }) := by
  refine ⟨if truthyMessage message && !decide (s.stack.status = .deleteInProgress) then
    s.stack.setStackStatus .rollbackComplete else s.stack, ?_⟩
  unfold conclude runDeferredActions
  rw [exec_get_bind, bind_assoc, exec_get_bind]
  simp only [pure_bind, onStack, exec_modify, h]

theorem execute_of_nil (s : State)
    (h : (exec (process env providers depth) s).2.deferredActions = []) :
    ∃ stack, exec (execute env providers depth) s =
      (.ok (visitMessage (exec (process env providers depth) s).1),
        { (exec (process env providers depth) s).2 with stack := stack }) := by
  rcases conclude_of_nil _ _ _ h with ⟨stack, hrun⟩
  refine ⟨stack, ?_⟩
  rw [exec_execute, hrun]

/-- `create_stack` does not see that the preprocessing failed. -/
theorem createStack_truthful_iff (hcreated : ∀ node ∈ env.resources, node.changeType = .created) :
    Truthful .createComplete (createStack env providers depth stack) ↔
      ¬PreprocessingFails env providers depth (createStart stack) := by
  have hcreates : Creates (createStart stack) _
      (exec (process env providers depth) (createStart stack)).2 :=
    creates_process hcreated _
  have hreports : Reports (createStart stack) _
      (exec (process env providers depth) (createStart stack)).2 :=
    reports_process _
  rcases execute_of_nil _ _ _ _ (hcreates.1 rfl) with ⟨stack', hrun⟩
  rcases hvisit : exec (process env providers depth) (createStart stack) with ⟨r, t⟩
  rw [hvisit] at hcreates hreports hrun
  rcases hreports with ⟨new, hnew, hfailed⟩
  have hstart : AllCreated (createStart stack) := by
    intro name resource h
    cases h
  have hresources := hcreates.2 hstart
  have htrue : TrueTo env providers depth (createStart stack)
      (createStack env providers depth stack) := by
    unfold createStack
    constructor
    all_goals simp only [hrun]
  have hstatus : (createStack env providers depth stack).stack.status = .createComplete ↔
      AllCreated t := by
    rw [← allCreated_iff]
    simp only [createStack, hrun]
    split
    · next h => simp only [h]
    · next h => simp only [h, reduceCtorEq, Bool.false_eq_true]
  have haction : ActionFails env providers depth (createStart stack) ↔ ∃ p ∈ t.performed,
      p.Failed := by
    unfold ActionFails
    rw [hrun]
  have hvisitFails : VisitFails env providers depth (createStart stack) ↔
      truthyMessage (visitMessage r) = true := by
    unfold VisitFails
    rw [hvisit]
  have hpre : PreprocessingFails env providers depth (createStart stack) ↔
      ∃ e, r = .error (.error e) ∧ truthyMessage (Exn.error e).failureMessage = true := by
    unfold PreprocessingFails
    rw [hvisit]
  rw [truthful_iff htrue, hstatus, haction, hvisitFails, hpre]
  have hint := not_interrupted_of_ok hrun
  simp only [hint, not_false_eq_true, true_and]
  -- What failed is seen in the records; only what the preprocessing raised is not.
  have hnone : (∀ id reason, r ≠ .error (.triggerRollback id reason)) →
      ¬∃ p ∈ t.performed, p.Failed := by
    rintro hr ⟨p, hp, hf⟩
    rw [hnew] at hp
    rcases hfailed p hp hf with ⟨id, hid⟩
    cases r with
    | ok => cases hid
    | error =>
      cases hid
      exact hr id _ rfl
  cases r with
  | ok =>
    have hno := hnone nofun
    simp only [hno, not_false_eq_true, and_true]
    refine ⟨fun _ => ?_, fun _ => ⟨fun _ => nofun, fun _ => hresources⟩⟩
    rintro ⟨e, he, -⟩
    cases he
  | error e =>
    cases e with
    | error =>
      have hno := hnone nofun
      simp only [hno, not_false_eq_true, and_true, visitMessage, Except.error.injEq,
        Exn.error.injEq, exists_eq_left']
      exact ⟨fun h => h.mp hresources, fun h => ⟨fun _ => h, fun _ => hresources⟩⟩
    | triggerRollback =>
      rcases hresources with ⟨⟨name, resource, hget, hresource⟩, hperformed⟩
      refine ⟨fun _ => ?_, fun _ => ⟨fun hall => ?_, fun h => absurd hperformed h.2⟩⟩
      · rintro ⟨e, he, -⟩
        cases he
      · rw [hall _ _ hget] at hresource
        cases hresource

/-- When the final status of the stack is right. `create_stack` starts without a template,
    so that all its resources are new. -/
theorem status_truthful_iff : ((∀ node ∈ env.resources, node.changeType = .created) →
      (Truthful .createComplete (createStack env providers depth stack) ↔
        ¬PreprocessingFails env providers depth (createStart stack))) ∧
    (Truthful .updateComplete (updateStack env providers depth stack beforeCache) ↔
      (Interrupted env providers depth (updateStart stack beforeCache) ∨
        (¬VisitFails env providers depth (updateStart stack beforeCache) ∧
          ¬ActionFails env providers depth (updateStart stack beforeCache)))) ∧
    (Truthful changeSetType.complete
        (executeChangeSet env providers changeSetType depth stack beforeCache) ↔
      (Interrupted env providers depth (changeSetStart stack beforeCache changeSetType) ∨
        VisitFails env providers depth (changeSetStart stack beforeCache changeSetType) ∨
        ¬ActionFails env providers depth (changeSetStart stack beforeCache changeSetType))) ∧
    (Truthful .deleteComplete (deleteStack env providers depth stack) ↔
      (Interrupted env providers depth (deleteStart stack) ∨
        (¬VisitFails env providers depth (deleteStart stack) ∧
          ¬ActionFails env providers depth (deleteStart stack)))) :=
  ⟨createStack_truthful_iff _ _ _ _,
    updateStack_truthful_iff _ _ _ _ _,
    executeChangeSet_truthful_iff _ _ _ _ _ _,
    deleteStack_truthful_iff _ _ _ _⟩

end Results

theorem not_preprocessingFails_of_ok {s : State}
    (h : ((exec (process env providers depth) s).1.toBool) = true) :
    ¬PreprocessingFails env providers depth s := by
  rintro ⟨e, he, -⟩
  rw [he] at h
  cases h

/-- A stack with a bucket, created by providers that can do everything. -/
theorem status_truthful_of_newBucket :
    (∀ node ∈ (plainTemplates [plainNode "Bucket" "AWS::S3::Bucket" .created]).resources,
      node.changeType = .created) ∧
    Truthful .createComplete (createStack
      (plainTemplates [plainNode "Bucket" "AWS::S3::Bucket" .created])
      (providersBut fun _ _ => false) 1 (deployedStack [])) := by
  have hcreated : ∀ node ∈ (plainTemplates
      [plainNode "Bucket" "AWS::S3::Bucket" .created]).resources, node.changeType = .created := by
    intro node hnode
    rw [List.mem_singleton.mp hnode]
    rfl
  refine ⟨hcreated, ((status_truthful_iff _ _ 1 _ .empty .create).1 hcreated).mpr ?_⟩
  exact not_preprocessingFails_of_ok (by decide +kernel)

/-- A bucket that cannot be deleted is gone for `delete_stack`. -/
theorem deletion_failed_but_complete :
    ¬Truthful .deleteComplete (deleteStack
      (plainTemplates [plainNode "Bucket" "AWS::S3::Bucket" .removed])
      (providersBut fun action _ => action == .remove) 1
      (deployedStack [("Bucket", createdRecord "AWS::S3::Bucket" "bucket-1")])) := by
  intro h
  have hnone := (h.mp (by decide +kernel)).2
  have hfailed : (deleteStack (plainTemplates [plainNode "Bucket" "AWS::S3::Bucket" .removed])
      (providersBut fun action _ => action == .remove) 1
      (deployedStack [("Bucket", createdRecord "AWS::S3::Bucket" "bucket-1")])).performed.any
        (fun p => p.event.status == .failed) = true := by decide +kernel
  rcases List.any_eq_true.mp hfailed with ⟨p, hp, hf⟩
  exact hnone p hp (beq_iff_eq.mp hf)

end LocalEmu.CloudFormation
