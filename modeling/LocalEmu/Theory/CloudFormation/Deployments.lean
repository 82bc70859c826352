import LocalEmu.Theory.CloudFormation.Visits

/-!
# What the Deployment of a Resource Does

A resource is deployed once its values are known. This keeps the record it had, puts its
removal off, or asks the provider for one action. An action that ends well or badly makes a
record of the resource; one that ends in any other way raises before there is a record. A
record of a failure ends the visit of the templates with a rollback.
-/

namespace LocalEmu.CloudFormation

open List

open Iam (Json)
open LocalEmu.Action

variable {env : Environment} {providers : Providers}

/-! ### Events -/

/-- Nothing but events: the records are the same, and so is the status of the stack, or it
    is that of a failure. -/
structure OnlyEvents (stack stack' : Stack) : Prop where
  records : stack'.resolvedResources = stack.resolvedResources
  status : stack'.status = stack.status ∨ ∃ action, stack'.status = .ofFailed action

theorem OnlyEvents.refl (stack : Stack) : OnlyEvents stack stack := ⟨rfl, .inl rfl⟩

theorem OnlyEvents.trans {stack1 stack2 stack3 : Stack} (h1 : OnlyEvents stack1 stack2)
    (h2 : OnlyEvents stack2 stack3) : OnlyEvents stack1 stack3 := by
  refine ⟨h2.records.trans h1.records, ?_⟩
  rcases h2.status with h | h
  · rw [h]
    exact h1.status
  · exact .inr h

theorem onlyEvents_setResourceStatus {stack stack' : Stack} {name : String}
    {status : ResourceStatus} (h : stack.setResourceStatus name status = .ok stack') :
    OnlyEvents stack stack' := by
  unfold Stack.setResourceStatus at h
  split at h
  · split at h
    · cases h
      exact ⟨rfl, .inl rfl⟩
    · cases h
  · cases h
    exact ⟨rfl, .inl rfl⟩

theorem setResourceStatus_ok (stack : Stack) (name : String) {status : ResourceStatus}
    (h : status ≠ .complete .remove) :
    ∃ stack', stack.setResourceStatus name status = .ok stack' := by
  unfold Stack.setResourceStatus
  simp only [if_neg h]
  exact ⟨_, rfl⟩

/-- Events change nothing but statuses, and do not raise unless a resource was removed or
    the event has no status. -/
theorem processEvent_spec (action : ChangeAction) (name : String) (status : OperationStatus)
    (customStatus : Option ResourceStatus) (s : State) :
    ∃ r stack, exec (processEvent action name status customStatus) s =
        (r, { s with stack := stack }) ∧
      OnlyEvents s.stack stack ∧
      (∀ e, r = .error e → ∃ d, e = .error d) ∧
      ((action ≠ .remove ∨ status ≠ .success) → status ≠ .pending → customStatus = none →
        r = .ok ()) := by
  unfold processEvent
  cases hstatus : eventStatus action status with
  | error d =>
    refine ⟨.error (.error d), s.stack, ?_, .refl _, ?_, fun _ hpending _ => ?_⟩
    · rfl
    · intro e he
      cases he
      exact ⟨d, rfl⟩
    · cases status with
      | pending => exact absurd rfl hpending
      | inProgress | success | failed => cases hstatus
  | ok resourceStatus =>
    cases hstack : s.stack.setResourceStatus name (customStatus.getD resourceStatus) with
    | error d =>
      refine ⟨.error (.error d), s.stack, ?_, .refl _, ?_, fun hremove _ hcustom => ?_⟩
      · rw [check_ok, pure_bind, exec_get_bind, hstack]
        rfl
      · intro e he
        cases he
        exact ⟨d, rfl⟩
      · have hne : customStatus.getD resourceStatus ≠ .complete .remove := by
          intro hc
          rw [hcustom] at hc
          cases status with
          | pending => cases hstatus
          | inProgress | failed => cases hstatus; cases hc
          | success =>
            cases hstatus
            cases hc
            rcases hremove with h | h
            · exact h rfl
            · exact h rfl
        rcases setResourceStatus_ok _ _ hne with ⟨stack', hok⟩
        rw [hok] at hstack
        cases hstack
    | ok stack =>
      refine ⟨.ok (), if status = .failed then stack.setStackStatus (.ofFailed action) else stack,
        ?_, ?_, (fun _ he => nomatch he), fun _ _ _ => rfl⟩
      · rw [check_ok, pure_bind, exec_get_bind, hstack, check_ok]
        rfl
      · have honly := onlyEvents_setResourceStatus hstack
        split
        · exact ⟨honly.records, .inr ⟨action, rfl⟩⟩
        · exact honly

/-- A preprocessing that failed. -/
theorem failResource_spec (node : NodeResource) (e : Exn) (s : State) :
    ∃ stack, exec (failResource node e) s = (.error e, { s with stack := stack }) ∧
      OnlyEvents s.stack stack := by
  rcases processEvent_spec _ _ .failed _ s with ⟨r, stack, hrun, hstack, -, hok⟩
  rw [hok (.inr (by simp)) (by simp) rfl] at hrun
  refine ⟨stack, ?_, hstack⟩
  unfold failResource
  rw [exec_bind_of_ok _ _ _ _ _ hrun]
  rfl

/-! ### Actions -/

/-- The record that is made after an action. -/
def Records (call : Call) (event : ProgressEvent) (resource : ResolvedResource) : Prop :=
  (event.status = .success ∧ resource.resourceStatus = some (.complete call.action)) ∨
    (event.status = .failed ∧ resource.resourceStatus = some (.failed call.action) ∧
      resource.resourceStatusReason = event.message)

theorem records_of_resolved {call : Call} {event : ProgressEvent} {id : Option String}
    {resource : ResolvedResource} (hcall : call.action ≠ .remove)
    (h : resolvedResourceOf call event id = .ok resource) : Records call event resource := by
  unfold resolvedResourceOf at h
  split at h
  · next hstatus =>
    rw [if_neg hcall] at h
    cases h
    exact .inl ⟨hstatus, rfl⟩
  · next hstatus =>
    cases h
    exact .inr ⟨hstatus, rfl, rfl⟩
  · cases h

theorem unhandled_of_resolved {call : Call} {event : ProgressEvent} {id : Option String}
    {e : Error} (h : resolvedResourceOf call event id = .error e) :
    event.status ≠ .success ∧ event.status ≠ .failed := by
  unfold resolvedResourceOf at h
  split at h
  · split at h
    · cases h
    · cases h
  · cases h
  · next h1 h2 => exact ⟨h1, h2⟩

theorem exec_executeResourceAction (providers : Providers) (call : Call) (s : State) :
    ∃ event id, exec (executeResourceAction providers call false) s =
      match resolvedResourceOf call event id with
      | .ok resource => (.ok event, { s with
          performed := s.performed ++ [⟨call, event⟩]
          resources := s.resources.set call.logicalResourceId resource })
      | .error e =>
        (.error (.error e), { s with performed := s.performed ++ [⟨call, event⟩] }) := by
  rcases hevent : eventOf providers call (providers.deploy s.performed call) with ⟨event, id⟩
  refine ⟨event, id, ?_⟩
  unfold executeResourceAction
  rw [exec_get_bind]
  simp only [hevent, exec_modify_bind, Bool.false_and, Bool.false_eq_true, ↓reduceIte]
  cases resolvedResourceOf call event id with
  | ok | error => rfl

/-- How an action that is no removal ends. -/
theorem executeAndProcess_cases (providers : Providers) (call : Call)
    (eventAction : ChangeAction) (s : State)
    (hcall : call.action ≠ .remove) (hevent : eventAction ≠ .remove) :
    ∃ event, (∃ resource stack, Records call event resource ∧
        OnlyEvents s.stack stack ∧
        exec (executeAndProcess providers call eventAction false) s = (.ok (), { s with
          performed := s.performed ++ [⟨call, event⟩]
          resources := s.resources.set call.logicalResourceId resource
          stack := stack })) ∨
      (∃ e, (event.status ≠ .success ∧ event.status ≠ .failed) ∧
        exec (executeAndProcess providers call eventAction false) s =
          (.error (.error e), { s with performed := s.performed ++ [⟨call, event⟩] })) := by
  rcases exec_executeResourceAction _ _ s with ⟨event, id, hrun⟩
  refine ⟨event, ?_⟩
  cases hresolved : resolvedResourceOf call event id with
  | error e =>
    rw [hresolved] at hrun
    refine .inr ⟨e, unhandled_of_resolved hresolved, ?_⟩
    unfold executeAndProcess
    rw [exec_bind_of_error _ _ _ _ _ hrun]
  | ok resource =>
    rw [hresolved] at hrun
    have hrecords := records_of_resolved hcall hresolved
    have hpending : event.status ≠ .pending := by
      intro hp
      rcases hrecords with h | h
      · rw [hp] at h; cases h.1
      · rw [hp] at h; cases h.1
    rcases processEvent_spec _ _ _ _
      { s with
        performed := s.performed ++ [⟨call, event⟩]
        resources := s.resources.set call.logicalResourceId resource } with
      ⟨r, stack, hprocess, hstack, -, hok⟩
    rw [hok (.inl hevent) hpending rfl] at hprocess
    refine .inl ⟨resource, stack, hrecords, hstack, ?_⟩
    unfold executeAndProcess
    rw [exec_bind_of_ok _ _ _ _ _ hrun]
    exact hprocess

/-! ### Resources -/

def Deferred.name : Deferred → String
  | cleanup name _ _ _ => name
  | typeMigration name _ _ => name
  | removal name _ _ _ => name

/-- If a deferred action is for a resource that is gone from the template, and not for one
    that is replaced. -/
def Deferred.isRemoval : Deferred → Bool
  | removal _ _ _ _ => true
  | _ => false

/-- If a policy keeps a deferred action from removing anything. -/
def Deferred.retained : Deferred → Bool
  | cleanup _ _ _ updateReplacePolicy => updateReplacePolicy == some "Retain"
  | typeMigration _ _ _ => false
  | removal _ _ _ deletionPolicy => deletionPolicy == some "Retain"

/-- The old resource is to be removed, as it has a new type, or as a new one of the same type
    was created in its place. -/
def Replaces (delta : Delta PreprocResource) (created : Prop) : Prop :=
  ∃ before after, delta.before = some before ∧ delta.after = some after ∧
    (before.resourceType ≠ after.resourceType ∨
      (created ∧ after.requiresReplacement = true ∧ after.updateReplacePolicy ≠ some "Retain"))

theorem replaces_both {before after : PreprocResource} {created : Prop} :
    Replaces ⟨some before, some after⟩ created ↔ before.resourceType ≠ after.resourceType ∨
      (created ∧ after.requiresReplacement = true ∧ after.updateReplacePolicy ≠ some "Retain") := by
  unfold Replaces
  simp only [Option.some.injEq, exists_and_left, exists_eq_left']

/-- The removal that is put off for a resource of before. -/
def removalOf (s : State) (name : String) (before : PreprocResource) : Deferred :=
  .removal name before.resourceType (mergeBeforeProperties s.stack name before)
    before.deletionPolicy

/-- What the delta of a resource makes happen. -/
inductive Applies (node : NodeResource) (delta : Delta PreprocResource) (s : State) :
    Except Exn Unit → State → Prop
  | nothing (hb : delta.before = none) (ha : delta.after = none) :
      Applies node delta s (.ok ()) s
  | kept (before after : PreprocResource) (hb : delta.before = some before)
      (ha : delta.after = some after) :
      Applies node delta s (.ok ()) { s with
        resources := s.resources.set node.name
          (s.stack.resolvedResources.getD node.name .empty) }
  | removed (before : PreprocResource) (hb : delta.before = some before)
      (ha : delta.after = none) :
      Applies node delta s (.ok ()) { s with
        deferredActions := s.deferredActions ++ [removalOf s node.name before] }
  | deployed (after : PreprocResource) (call : Call) (event : ProgressEvent)
      (resource : ResolvedResource) (stack : Stack) (deferred : List Deferred)
      (ha : delta.after = some after) (haction : call.action ≠ .remove)
      (hname : call.logicalResourceId = node.name) (hrecords : Records call event resource)
      (hstack : OnlyEvents s.stack stack)
      (hadd : delta.before = none → call.action = .add)
      (hdeferred : ∀ d ∈ deferred, d.name = node.name ∧ d.isRemoval = false ∧
        delta.before.isSome)
      (hreplaces : (∃ d ∈ deferred, d.retained = false) ↔ Replaces delta True) :
      Applies node delta s (.ok ()) { s with
        performed := s.performed ++ [⟨call, event⟩]
        resources := s.resources.set node.name resource
        stack := stack
        deferredActions := s.deferredActions ++ deferred }
  | broken (after : PreprocResource) (call : Call) (event : ProgressEvent) (stack : Stack)
      (deferred : List Deferred) (e : Error) (ha : delta.after = some after)
      (haction : call.action ≠ .remove) (hname : call.logicalResourceId = node.name)
      (hevent : event.status ≠ .success ∧ event.status ≠ .failed)
      (hstack : OnlyEvents s.stack stack)
      (hdeferred : ∀ d ∈ deferred, d.name = node.name ∧ d.isRemoval = false ∧
        delta.before.isSome)
      (hreplaces : (∃ d ∈ deferred, d.retained = false) ↔ Replaces delta False) :
      Applies node delta s (.error (.error e)) { s with
        performed := s.performed ++ [⟨call, event⟩]
        stack := stack
        deferredActions := s.deferredActions ++ deferred }

theorem processEvent_inProgress (action : ChangeAction) (name : String) (s : State) :
    ∃ stack, exec (processEvent action name .inProgress none) s =
        (.ok (), { s with stack := stack }) ∧ OnlyEvents s.stack stack := by
  rcases processEvent_spec _ _ .inProgress _ s with ⟨r, stack, hrun, hstack, -, hok⟩
  rw [hok (.inr (by simp)) (by simp) rfl] at hrun
  exact ⟨stack, hrun, hstack⟩

section Change

variable (providers) {node : NodeResource} {delta : Delta PreprocResource}

theorem action_applies (s : State) (stack : Stack) (deferred : List Deferred)
    (after : PreprocResource) (call : Call) (eventAction : ChangeAction)
    (ha : delta.after = some after) (haction : call.action ≠ .remove)
    (hevent : eventAction ≠ .remove) (hname : call.logicalResourceId = node.name)
    (hstack : OnlyEvents s.stack stack)
    (hadd : delta.before = none → call.action = .add)
    (hdeferred : ∀ d ∈ deferred, d.name = node.name ∧ d.isRemoval = false ∧
      delta.before.isSome)
    (hreplaces : ∀ created, (∃ d ∈ deferred, d.retained = false) ↔ Replaces delta created) :
    Applies node delta s
      (exec (executeAndProcess providers call eventAction false)
        { s with stack := stack, deferredActions := s.deferredActions ++ deferred }).1
      (exec (executeAndProcess providers call eventAction false)
        { s with stack := stack, deferredActions := s.deferredActions ++ deferred }).2 := by
  rcases executeAndProcess_cases _ _ _
    { s with stack := stack, deferredActions := s.deferredActions ++ deferred } haction hevent with
    ⟨event, ⟨resource, stack', hrecords, hstack', hrun⟩ | ⟨e, hfailed, hrun⟩⟩
  · rw [hrun, hname]
    exact Applies.deployed after call event resource stack' deferred ha haction hname hrecords
      (hstack.trans hstack') hadd hdeferred (hreplaces True)
  · rw [hrun]
    exact Applies.broken after call event stack deferred e ha haction hname hfailed hstack
      hdeferred (hreplaces False)

theorem plain_applies (s : State) (stack : Stack) (after : PreprocResource) (call : Call)
    (eventAction : ChangeAction) (ha : delta.after = some after) (haction : call.action ≠ .remove)
    (hevent : eventAction ≠ .remove) (hname : call.logicalResourceId = node.name)
    (hstack : OnlyEvents s.stack stack)
    (hadd : delta.before = none → call.action = .add)
    (hstays : ∀ created, ¬Replaces delta created) :
    Applies node delta s
      (exec (executeAndProcess providers call eventAction false) { s with stack := stack }).1
      (exec (executeAndProcess providers call eventAction false) { s with stack := stack }).2 := by
  have h := action_applies providers s _ [] _ _ _ ha haction hevent hname
    hstack hadd (fun d hd => absurd hd not_mem_nil) fun created =>
      iff_of_false (fun ⟨_, hd, _⟩ => not_mem_nil hd) (hstays created)
  rw [append_nil] at h
  exact h

variable {before after : PreprocResource}

theorem replacement_applies (s : State) (stack : Stack)
    (hstack : OnlyEvents s.stack stack) (deferred : Deferred)
    (hname : deferred.name = node.name) (hremoval : deferred.isRemoval = false) (call : Call)
    (haction : call.action = .add) (hcall : call.logicalResourceId = node.name)
    (htype : before.resourceType = after.resourceType) (hreplace : after.requiresReplacement = true)
    (hretained : deferred.retained = (after.updateReplacePolicy == some "Retain")) :
    Applies node ⟨some before, some after⟩ s
      (exec (do executeAndProcess providers call .modify false; deferAction deferred)
        { s with stack := stack }).1
      (exec (do executeAndProcess providers call .modify false; deferAction deferred)
        { s with stack := stack }).2 := by
  have hne : call.action ≠ .remove := by
    rw [haction]
    simp
  rcases executeAndProcess_cases _ _ .modify { s with stack := stack } hne
    (by simp) with
    ⟨event, ⟨resource, stack', hrecords, hstack', hrun⟩ | ⟨e, hfailed, hrun⟩⟩
  · rw [exec_bind_of_ok _ _ _ _ _ hrun, hcall]
    refine Applies.deployed after call event resource stack' [deferred] rfl hne hcall hrecords
      (hstack.trans hstack') (fun hb => nomatch hb) (fun d hd => ?_) ?_
    · rw [List.mem_singleton.mp hd]
      exact ⟨hname, hremoval, rfl⟩
    · simp only [replaces_both, mem_singleton, exists_eq_left, hretained, htype, hreplace, ne_eq,
        not_true_eq_false, false_or, true_and, beq_eq_false_iff_ne]
  · rw [exec_bind_of_error _ _ _ _ _ hrun]
    have h : Applies node ⟨some before, some after⟩ s _ _ :=
      Applies.broken after call event stack [] e rfl hne hcall hfailed hstack
        (fun d hd => absurd hd not_mem_nil) (iff_of_false (fun ⟨_, hd, _⟩ => not_mem_nil hd) ?_)
    · rw [append_nil] at h
      exact h
    · simp only [replaces_both, htype, ne_eq, not_true_eq_false, false_and, or_self,
        not_false_eq_true]

theorem executeResourceChange_applies (s : State)
    (hdiffers : delta.before ≠ none ∨ delta.after ≠ none) :
    Applies node delta s (exec (executeResourceChange providers node.name delta) s).1
      (exec (executeResourceChange providers node.name delta) s).2 := by
  unfold executeResourceChange
  rw [exec_get_bind]
  rcases delta with ⟨_ | before, _ | after⟩
  · simp only [ne_eq, not_true_eq_false, or_self] at hdiffers
  · rcases processEvent_inProgress .add _ s with ⟨stack, hrun, hstack⟩
    rw [exec_bind_of_ok _ _ _ _ _ hrun]
    exact plain_applies _ s _ _ _ .add rfl
      (by simp)
      (by simp) rfl hstack (fun _ => rfl) fun _ ⟨_, _, hb, _⟩ => nomatch hb
  · exact Applies.removed before rfl rfl
  · simp only []
    split
    · next htype =>
      rcases processEvent_inProgress .modify _ s with ⟨stack, hrun, hstack⟩
      rw [exec_bind_of_ok _ _ _ _ _ hrun]
      split
      · next hreplace =>
        exact replacement_applies _ s _ hstack _ rfl rfl _ rfl rfl htype hreplace rfl
      · next hreplace =>
        refine plain_applies _ s _ _ _ .modify rfl
          (by simp)
          (by simp) rfl hstack
          (fun hb => nomatch hb) fun _ h => ?_
        rcases replaces_both.mp h with h | h
        · exact h htype
        · exact hreplace h.2.1
    · next htype =>
      -- The removal of the old type is put off before the new one is there.
      refine action_applies providers s _
        [.typeMigration node.name before.resourceType
          (mergeBeforeProperties s.stack node.name before)] _
        ⟨.add, node.name, after.resourceType, none, after.properties⟩ .modify rfl
        (by simp)
        (by simp) rfl (.refl _) (fun _ => rfl) ?_ fun _ =>
          iff_of_true ⟨_, mem_singleton_self _, rfl⟩ (replaces_both.mpr (.inl htype))
      intro d hd
      rw [List.mem_singleton.mp hd]
      exact ⟨rfl, rfl, rfl⟩

/-- What the delta of a resource makes happen. -/
theorem applyDelta_applies (hpre : Preprocessed env node delta) (s : State) :
    Applies node delta s (exec (applyDelta env providers node.name delta) s).1
      (exec (applyDelta env providers node.name delta) s).2 := by
  unfold applyDelta
  split
  · next hdiffers =>
    refine executeResourceChange_applies _ s ?_
    rcases delta with ⟨_ | before, _ | after⟩
    · cases hdiffers
    · exact .inr (by simp)
    · exact .inl (by simp)
    · exact .inl (by simp)
  · next hsame =>
    rcases delta with ⟨_ | before, _ | after⟩
    · exact Applies.nothing rfl rfl
    · exact absurd rfl hsame
    · exact absurd rfl hsame
    · have hid := (hpre.before_eq _ rfl).1
      have h : Applies node ⟨some before, some after⟩ s _ _ := Applies.kept before after rfl rfl
      rw [← hid] at h
      exact h

end Change

/-! ### Deployments -/

/-- The record of a resource is that of a failure. -/
def FailedRecord (s : State) (name : String) : Prop :=
  (s.resources.getD name .empty).resourceStatus = some (.failed .add) ∨
    (s.resources.getD name .empty).resourceStatus = some (.failed .modify)

/-- The deployment of a resource. What its delta made happen was broken off, or the resource
    was marked as visited, or its record is incomplete, or it is the record of a failure. -/
inductive Deploys (node : NodeResource) (delta : Delta PreprocResource) (s : State) :
    Except Exn (Delta PreprocResource) → State → Prop
  | broken (e : Exn) (t : State) (h : Applies node delta s (.error e) t) :
      Deploys node delta s (.error e) t
  | marked (t : State) (marked : Delta PreprocResource) (h : Applies node delta s (.ok ()) t)
      (hb : marked.before = delta.before) (ha : marked.after.isSome = delta.after.isSome)
      (hrecord : delta.after.isSome → ¬FailedRecord t node.name) :
      Deploys node delta s (.ok marked) { t with visited := t.visited.set node.name marked }
  | incomplete (t : State) (e : Error) (h : Applies node delta s (.ok ()) t)
      (ha : delta.after.isSome) (hrecord : ¬FailedRecord t node.name) :
      Deploys node delta s (.error (.error e)) t
  | rolledBack (t : State) (h : Applies node delta s (.ok ()) t) (ha : delta.after.isSome)
      (hrecord : FailedRecord t node.name) :
      Deploys node delta s (.error (.triggerRollback node.name
        (t.resources.getD node.name .empty).resourceStatusReason)) t

theorem exec_annotate (after : PreprocResource) (s : State) :
    (∃ annotated, exec (annotate after) s = (.ok annotated, s) ∧
        ¬FailedRecord s after.logicalId) ∨
      (∃ e, exec (annotate after) s = (.error (.error e), s) ∧
        ¬FailedRecord s after.logicalId) ∨
      (exec (annotate after) s = (.error (.triggerRollback after.logicalId
          (s.resources.getD after.logicalId .empty).resourceStatusReason), s) ∧
        FailedRecord s after.logicalId) := by
  unfold annotate FailedRecord
  rw [exec_get_bind]
  cases hstatus : (s.resources.getD after.logicalId .empty).resourceStatus with
  | none =>
    simp only [hstatus]
    refine .inr (.inl ⟨.other "'ResourceStatus'", rfl, ?_⟩)
    simp
  | some status =>
    simp only [hstatus, Option.some.injEq]
    by_cases hfailed : status = .failed .add ∨ status = .failed .modify
    · rw [if_pos hfailed]
      exact .inr (.inr ⟨rfl, hfailed⟩)
    · rw [if_neg hfailed]
      cases hid : resourcePhysicalResourceIdFrom after.logicalId s.resources with
      | ok => exact .inl ⟨_, rfl, hfailed⟩
      | error e => exact .inr (.inl ⟨e, rfl, hfailed⟩)

/-- The deployment of a resource. -/
theorem deployAndMark_deploys (providers : Providers) {node : NodeResource}
    {delta : Delta PreprocResource} (hpre : Preprocessed env node delta) (s : State) :
    Deploys node delta s (exec (deployAndMark env providers node delta) s).1
      (exec (deployAndMark env providers node delta) s).2 := by
  have happlies := applyDelta_applies providers hpre s
  unfold deployAndMark deployResource
  rw [bind_assoc]
  rcases happly : exec (applyDelta env providers node.name delta) s with ⟨e | u, t⟩
  · rw [happly] at happlies
    rw [exec_bind_of_error _ _ _ _ _ happly]
    exact Deploys.broken e t happlies
  · rw [happly] at happlies
    rw [exec_bind_of_ok _ _ _ _ _ happly]
    cases hafter : delta.after with
    | none =>
      refine Deploys.marked t delta happlies rfl rfl fun h => ?_
      rw [hafter] at h
      cases h
    | some after =>
      have hsome : delta.after.isSome := by rw [hafter]; rfl
      have hid := (hpre.after_eq _ hafter).1
      simp
      rcases exec_annotate _ t with ⟨annotated, hrun, hrecord⟩ | ⟨e, hrun, hrecord⟩ |
        ⟨hrun, hrecord⟩
      · rw [exec_bind_of_ok _ _ _ _ _ hrun]
        rw [hid] at hrecord
        refine Deploys.marked t ⟨delta.before, some annotated⟩ happlies rfl ?_ fun _ => hrecord
        rw [hafter]
        rfl
      · rw [exec_bind_of_error _ _ _ _ _ hrun]
        rw [hid] at hrecord
        exact Deploys.incomplete t e happlies hsome hrecord
      · rw [exec_bind_of_error _ _ _ _ _ hrun, hid]
        rw [hid] at hrecord
        exact Deploys.rolledBack t happlies hsome hrecord

/-! ### Deferred actions -/

/-- What a deferred action does: it is skipped, or it asks the provider for one removal. -/
inductive Performs (d : Deferred) (s : State) : Except Exn Unit → State → Prop
  | skipped (stack : Stack) (hretained : d.retained = true) (hstack : OnlyEvents s.stack stack)
      (hevent : stack.events = (d.name, .deleteSkipped) :: s.stack.events) :
      Performs d s (.ok ()) { s with stack := stack }
  | removed (call : Call) (event : ProgressEvent) (stack : Stack)
      (resources : Dict String ResolvedResource) (r : Except Exn Unit)
      (hretained : d.retained = false) (haction : call.action = .remove)
      (hname : call.logicalResourceId = d.name) (hstack : OnlyEvents s.stack stack)
      (hresources : ∀ name, (s.resources.get? name).isSome → (resources.get? name).isSome)
      (hother : ∀ name, name ≠ d.name → resources.get? name = s.resources.get? name) :
      Performs d s r { s with
        performed := s.performed ++ [⟨call, event⟩]
        resources := resources
        stack := stack }

theorem isSome_get?_set {d : Dict String ResolvedResource} {name key : String}
    {resource : ResolvedResource} (h : (d.get? name).isSome) :
    ((d.set key resource).get? name).isSome := by
  rw [Dict.get?_set]
  split
  · rfl
  · exact h

theorem removal_performs (providers : Providers) {d : Deferred} (s : State) (stack0 : Stack)
    (hstack0 : OnlyEvents s.stack stack0) (call : Call) (eventAction : ChangeAction)
    (partOfReplacement : Bool) (hretained : d.retained = false) (haction : call.action = .remove)
    (hname : call.logicalResourceId = d.name) :
    Performs d s
      (exec (executeAndProcess providers call eventAction partOfReplacement)
        { s with stack := stack0 }).1
      (exec (executeAndProcess providers call eventAction partOfReplacement)
        { s with stack := stack0 }).2 := by
  rcases hevent : eventOf providers call (providers.deploy s.performed call) with ⟨event, id⟩
  have hkeep : ∀ name, name ≠ d.name → ∀ resource,
      (s.resources.set call.logicalResourceId resource).get? name = s.resources.get? name := by
    intro name hne resource
    rw [Dict.get?_set, if_neg]
    rw [hname]
    exact hne
  have hfinish : ∀ resources, (∀ name, (s.resources.get? name).isSome →
      (resources.get? name).isSome) →
      (∀ name, name ≠ d.name → resources.get? name = s.resources.get? name) →
      Performs d s
        (exec (processEvent eventAction call.logicalResourceId event.status none) { s with
          stack := stack0
          performed := s.performed ++ [⟨call, event⟩]
          resources := resources }).1
        (exec (processEvent eventAction call.logicalResourceId event.status none) { s with
          stack := stack0
          performed := s.performed ++ [⟨call, event⟩]
          resources := resources }).2 := by
    intro resources hresources hother
    rcases processEvent_spec _ _ _ _ { s with
        stack := stack0
        performed := s.performed ++ [⟨call, event⟩]
        resources := resources } with ⟨r, stack, hrun, hstack, -, -⟩
    rw [hrun]
    exact Performs.removed call event stack resources r hretained haction hname
      (hstack0.trans hstack) hresources hother
  unfold executeAndProcess executeResourceAction
  rw [bind_assoc, exec_get_bind]
  simp only [hevent, haction, decide_true, Bool.and_true, bind_assoc, exec_modify_bind]
  cases partOfReplacement with
  | true => exact hfinish _ (fun _ h => h) fun _ _ => rfl
  | false =>
    cases resolvedResourceOf call event id with
    | error e =>
      exact Performs.removed call event stack0 s.resources (.error (.error e)) hretained haction
        hname hstack0 (fun _ h => h) fun _ _ => rfl
    | ok =>
      exact hfinish _ (fun _ h => isSome_get?_set h) (fun name hne => hkeep _ hne _)

theorem performDeletion_performs (providers : Providers) {d : Deferred} (s : State)
    (resourceType : Maybe String) (beforeProperties : Maybe Json) (policy : Maybe String)
    (partOfReplacement : Bool) (hretained : d.retained = (policy == some "Retain")) :
    Performs d s
      (exec (performDeletion providers d.name resourceType beforeProperties policy
        partOfReplacement) s).1
      (exec (performDeletion providers d.name resourceType beforeProperties policy
        partOfReplacement) s).2 := by
  unfold performDeletion
  split
  · next hpolicy =>
    rcases processEvent_inProgress .remove _ s with ⟨stack0, hrun, hstack0⟩
    rw [exec_bind_of_ok _ _ _ _ _ hrun]
    refine removal_performs _ s _ hstack0 _ .remove _ ?_ rfl rfl
    rw [hretained, beq_eq_false_iff_ne]
    exact hpolicy
  · next hpolicy =>
    refine Performs.skipped _ ?_ ⟨rfl, .inl rfl⟩ rfl
    rw [hretained, beq_iff_eq]
    exact not_not.mp hpolicy

/-- What a deferred action does. -/
theorem action_performs (providers : Providers) (d : Deferred) (s : State) :
    Performs d s (exec (d.action providers) s).1 (exec (d.action providers) s).2 := by
  cases d with
  | cleanup | removal => exact performDeletion_performs _ s _ _ _ _ rfl
  | typeMigration =>
    exact removal_performs _ s _ (.refl _) _ .modify _ rfl rfl rfl

/-- What the deferred actions do, one after the other: one removal for each that no policy
    retains, in order. -/
structure PerformsAll (ds : List Deferred) (s t : State) : Prop where
  performed : ∃ new, t.performed = s.performed ++ new ∧
    new.map (·.call.logicalResourceId) = (ds.filter (!·.retained)).map Deferred.name ∧
    ∀ p ∈ new, p.call.action = .remove
  recorded : ∀ name, (s.resources.get? name).isSome → (t.resources.get? name).isSome
  other : ∀ name, (∀ d ∈ ds, d.retained = false → d.name ≠ name) →
    t.resources.get? name = s.resources.get? name
  only : OnlyEvents s.stack t.stack

theorem PerformsAll.cons {d : Deferred} {ds : List Deferred} {s t u : State}
    (h1 : Performs d s (.ok ()) t) (h2 : PerformsAll ds t u) : PerformsAll (d :: ds) s u := by
  rcases h2.performed with ⟨new, hnew, hnames, hremove⟩
  generalize hr : (Except.ok () : Except Exn Unit) = r at h1
  cases h1 with
  | skipped stack hretained hstack =>
    refine ⟨⟨new, hnew, ?_, hremove⟩, h2.recorded, fun name hname => ?_, hstack.trans h2.only⟩
    · rw [hnames, filter_cons_of_neg]
      rw [hretained]
      exact Bool.false_ne_true
    · exact h2.other name fun d' hd' => hname d' (mem_cons_of_mem _ hd')
  | removed call event stack resources r hretained haction hname hstack hresources hother =>
    refine ⟨⟨⟨call, event⟩ :: new, ?_, ?_, ?_⟩, fun name h => h2.recorded _ (hresources _ h),
      fun name hne => ?_, hstack.trans h2.only⟩
    · rw [hnew, append_assoc, singleton_append]
    · rw [filter_cons_of_pos (by rw [hretained]; rfl), map_cons, map_cons, hnames,
        hname]
    · intro p hp
      rcases List.mem_cons.mp hp with h | h
      · rw [h]
        exact haction
      · exact hremove p h
    · rw [h2.other name fun d' hd' => hne d' (mem_cons_of_mem _ hd')]
      exact hother _ fun heq => hne d (mem_cons_self ..) hretained heq.symm

variable {Q : State → Option Exn → State → Prop}

/-- A relation that the deployments keep, and that does not depend on events, is kept by the
    visits. -/
theorem deployEffect_of_deploys (hQ : VisitEffect Q)
    (hevents : ∀ s o t stack, OnlyEvents t.stack stack → Q s o t → Q s o { t with stack := stack })
    (hdeploys : ∀ node ∈ env.resources, ∀ delta s r t, Preprocessed env node delta →
      Deploys node delta s r t → Q s (raised r) t)
    (houtput : ∀ s outputs, Q s none { s with outputs := outputs }) :
    DeployEffect env providers Q where
  toVisitEffect := hQ
  fail := by
    intro node _ s e t h
    rcases failResource_spec _ e t with ⟨stack, hrun, hstack⟩
    rw [hrun]
    exact hevents s _ t _ hstack h
  deploy := by
    intro depth node hnode s t delta _ hrun hst
    have hpre := preprocessed_of_exec hrun
    exact hQ.trans s t _ _ hst
      (hdeploys _ hnode _ t _ _ hpre (deployAndMark_deploys providers hpre t))
  output := houtput

/-! ### Plain templates -/

/-- Values as templates without functions need them. -/
def plainBuiltins : Builtins where
  equal
    | .obj [], .obj [] => true
    | .obj [(name1, .str value1)], .obj [(name2, .str value2)] => name1 == name2 && value1 == value2
    | _, _ => false
  str _ := ""
  malformed _ := .other "unhashable type"
  performReplacements s := .ok s
  apply _ value := .ok (some value)
  resolvePseudoParameter name := .ok (.str name)
  attributeOf resource attributeName :=
    match resource.properties with
    | some (.obj members) => .ok ((members.lookup attributeName).getD .null)
    | _ => .ok .null
  substitute template _ := .ok (.str template)

/-- Templates with these resources, and nothing else. -/
def plainTemplates (resources : List NodeResource) : Environment where
  builtins := plainBuiltins
  setOrder := ⟨fun ids => ids, fun _ _ => Iff.rfl⟩
  resources := resources
  outputs := []
  parameters _ := none
  conditions := .ok []
  replacesBefore := false

/-- A resource of one type without anything else to it. -/
def plainNode (name type : String) (changeType : ChangeType) : NodeResource where
  scope := "/Resources/" ++ name
  changeType := changeType
  name := name
  type_ := ⟨if changeType = .created then none else some type,
    if changeType = .removed then none else some type⟩
  properties := []
  propertiesScope := "/Resources/" ++ name ++ "/Properties"
  propertiesChangeType := .unchanged
  conditionReference := none
  dependsOn := none
  requiresReplacement := false
  deletionPolicy := ⟨none, none⟩
  updateReplacePolicy := ⟨none, none⟩

/-- The record of a resource that was created. -/
def createdRecord (type physicalResourceId : String) : ResolvedResource :=
  ⟨some type, some (.obj []), some physicalResourceId, some (.complete .add), none⟩

/-- Providers that can do all but the actions on some resources. -/
def providersBut (refuses : ChangeAction → String → Bool) : Providers where
  deploy _ call :=
    if refuses call.action call.logicalResourceId then
      .returned ⟨.failed, .obj [], some "Access Denied"⟩ none
    else .returned ⟨.success, .obj [], none⟩ (some (call.logicalResourceId ++ "-1"))
  ignoresUnsupported _ := false

/-- A stack with the records of its resources. -/
def deployedStack (resolvedResources : List (String × ResolvedResource)) : Stack where
  status := .createComplete
  resolvedResources := .ofEntries resolvedResources
  resourceStates := .empty
  events := []

end LocalEmu.CloudFormation
