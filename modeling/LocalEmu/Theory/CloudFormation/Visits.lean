import LocalEmu.Base.Effect
import LocalEmu.Core.CloudFormation.Provider

/-!
# What Visits Do

The visit of a change set goes through entities and resources in an order that the
references decide. All that it does to the state is to fill the caches, to deploy
resources, and to say of a resource that its preprocessing failed. A relation that these
steps keep, and that composes, holds between the start and the end of every visit.

The visit of a resource makes a delta that has a side exactly if the resource is there on
this side: the change type does not say otherwise, and neither does the condition.
-/

namespace LocalEmu.CloudFormation

open Iam (Json)
open LocalEmu.Action

variable {env : Environment} {providers : Providers} {cb : Callbacks}
variable {Q : State → Option Exn → State → Prop} {α : Type}

@[simp]
theorem check_ok (a : α) : (check (.ok a) : Visit α) = pure a := rfl

/-- A relation that the steps of the preprocessing keep. An exception other than
    `TriggerRollback` may take the place of any other one. -/
structure VisitEffect (Q : State → Option Exn → State → Prop) : Prop extends Composes Q where
  free : ∀ s t e, Q s none t → Q s (some (.error e)) t
  other : ∀ s t e e', Q s (some (.error e)) t → Q s (some (.error e')) t
  store : ∀ s scope delta, Q s none (s.store scope delta)

namespace VisitEffect

theorem of_raise (hQ : VisitEffect Q) (e : Error) : Does Q (raise e : Visit α) :=
  Does.of_throw _ fun s => hQ.free s s e (hQ.refl s)

theorem of_check (hQ : VisitEffect Q) (r : Except Error α) :
    Does Q (check r : Visit α) := by
  refine Does.of_ofExcept hQ.toComposes _ ?_
  intro e he s
  cases r with
  | ok => cases he
  | error d =>
    cases he
    exact hQ.free s s d (hQ.refl s)

theorem of_bind (hQ : VisitEffect Q) {α β : Type} {m : Visit α} {f : α → Visit β} (hm : Does Q m)
    (hf : ∀ a, Does Q (f a)) : Does Q (m >>= f) := Does.of_bind hQ.toComposes hm hf

theorem of_pure (hQ : VisitEffect Q) (a : α) : Does Q (pure a : Visit α) :=
  Does.of_pure hQ.toComposes a

theorem of_cached (hQ : VisitEffect Q) (scope : Scope) {m : Visit (Delta Json)} (hm : Does Q m) :
    Does Q (cached env scope m) := by
  refine Does.of_get fun s => ?_
  have hmiss : Does Q (do
      let delta ← m
      let delta ← check (maybePerformReplacements env delta)
      modify (·.store scope delta)
      return delta : Visit (Delta Json)) := by
    refine hQ.of_bind hm fun delta => hQ.of_bind (hQ.of_check _) fun delta => ?_
    refine hQ.of_bind (Does.of_modify _ fun s => hQ.store s _ _) fun _ => ?_
    exact hQ.of_pure _
  split
  · exact hQ.refl s
  · exact hmiss s

theorem of_applySide (hQ : VisitEffect Q) (cache : State → Dict Scope (Maybe Json))
    (scope : Scope) (argument : Maybe Json) {resolver : Json → Visit (Maybe Json)}
    (hr : ∀ value, Does Q (resolver value)) : Does Q (applySide cache scope argument resolver) := by
  refine Does.of_get fun s => ?_
  split
  · exact hQ.refl s
  · exact hQ.refl s
  · exact hr _ s

theorem of_cachedApply (hQ : VisitEffect Q) (scope : Scope) (arguments : Delta Json)
    {resolver : Bool → Json → Visit (Maybe Json)}
    (hr : ∀ selectBefore value, Does Q (resolver selectBefore value)) :
    Does Q (cachedApply scope arguments resolver) :=
  hQ.of_bind (hQ.of_applySide _ _ _ (hr true)) fun _ =>
    hQ.of_bind (hQ.of_applySide _ _ _ (hr false)) fun _ => hQ.of_pure _

end VisitEffect

/-! ### Entities -/

/-- The visits of the resources and of their properties keep a relation. -/
structure CallbacksDo (env : Environment) (Q : State → Option Exn → State → Prop)
    (cb : Callbacks) : Prop where
  resource : ∀ node ∈ env.resources, Does Q (cb.visitResource node)
  property : ∀ node ∈ env.resources, ∀ entity, Does Q (cb.visitProperty node entity)

section Entities

variable (hQ : VisitEffect Q) (hcb : CallbacksDo env Q cb)

include hQ hcb

variable (subParameters : List (String × Json)) (selectBefore : Bool) (name : String)

omit hQ hcb in
theorem getNodeResourceFor_bind (f : NodeResource × Delta PreprocResource → Visit α) :
    (getNodeResourceFor env cb name >>= f = raise (unresolvedDependencies name)) ∨
      ∃ node ∈ env.resources, node.name = name ∧ getNodeResourceFor env cb name >>= f =
        cb.visitResource node >>= fun delta => f (node, delta) := by
  unfold getNodeResourceFor
  split
  · next node hfind =>
    refine .inr ⟨node, List.mem_of_find?_eq_some hfind, ?_, ?_⟩
    · have hname := List.find?_some hfind
      simpa only [beq_iff_eq] using hname
    · rw [bind_assoc]
      simp only [pure_bind]
  · exact .inl rfl

theorem getNodeResourceFor_does {f : NodeResource × Delta PreprocResource → Visit α}
    (hf : ∀ node ∈ env.resources, ∀ delta, Does Q (f (node, delta))) :
    Does Q (getNodeResourceFor env cb name >>= f) := by
  rcases getNodeResourceFor_bind _ f with h | ⟨node, hnode, -, h⟩
  · rw [h]
    exact hQ.of_raise _
  · rw [h]
    exact hQ.of_bind (hcb.resource _ hnode) fun delta => hf _ hnode _

theorem resolveReference_does (logicalId : String) :
    Does Q (resolveReference env cb logicalId) := by
  unfold resolveReference
  split
  · exact hQ.of_bind (hQ.of_check _) fun _ => hQ.of_pure _
  · split
    · exact hQ.of_check _
    · exact getNodeResourceFor_does hQ hcb _ fun _ _ _ => hQ.of_pure _

theorem computeRef_does (value : Json) : Does Q (computeRef env cb selectBefore value) := by
  unfold computeRef
  split
  · exact hQ.of_pure _
  · exact hQ.of_bind (resolveReference_does hQ hcb _) fun _ => hQ.of_pure _
  · exact hQ.of_raise _

theorem resolveAttribute_does (value : Json) (selectBefore : Bool) :
    Does Q (resolveAttribute env cb value selectBefore) := by
  refine hQ.of_bind (hQ.of_check _) fun ⟨name, attributeName⟩ => ?_
  refine getNodeResourceFor_does hQ hcb _ fun node hnode _ => ?_
  refine hQ.of_bind (hQ.of_check _) fun _ => ?_
  refine Does.of_get fun s => ?_
  refine hQ.of_bind (hQ.of_check _) (fun found => ?_) s
  split
  · exact hQ.of_bind (hcb.property _ hnode _) fun _ => hQ.of_pure _
  · exact hQ.of_pure _

theorem templateVariableValue_does (s t : State) (r : Except Exn (Maybe Json))
    (h : exec (templateVariableValue env cb subParameters selectBefore name) s = (r, t)) :
    (∀ value, r = .ok (some value) → Q s none t) ∧ (∀ e, r = .error e → Q s (some e) t) ∧
      (r = .ok none → ∀ e, Q s (some (.error e)) t) := by
  have hpass : ∀ m : Visit (Maybe Json), Does Q m → exec (passRuntimeError m) s = (r, t) →
      (∀ value, r = .ok (some value) → Q s none t) ∧ (∀ e, r = .error e → Q s (some e) t) ∧
        (r = .ok none → ∀ e, Q s (some (.error e)) t) := by
    intro m hm hrun
    unfold passRuntimeError at hrun
    rw [exec_attempt] at hrun
    rcases hmrun : exec m s with ⟨rm, u⟩
    rw [hmrun] at hrun
    cases rm with
    | ok =>
      cases hrun
      have hs := hm.exec_ok hmrun
      exact ⟨fun _ _ => hs, (fun _ he => nomatch he), fun _ e => hQ.free s t e hs⟩
    | error d =>
      have hs := hm.exec_error hmrun
      cases d with
      | triggerRollback =>
        cases hrun
        exact ⟨(fun _ he => nomatch he), fun e he => by cases he; exact hs, (fun he => nomatch he)⟩
      | error d =>
        cases d with
        | runtimeError =>
          cases hrun
          exact ⟨(fun _ he => nomatch he), (fun _ he => nomatch he), fun _ e => hQ.other s t _ e hs⟩
        | other =>
          cases hrun
          exact ⟨(fun _ he => nomatch he), fun e he => by cases he; exact hs,
            (fun he => nomatch he)⟩
  have hplain : ∀ m : Visit (Maybe Json), Does Q m → exec m s = (r, t) →
      (∀ value, r = .ok (some value) → Q s none t) ∧ (∀ e, r = .error e → Q s (some e) t) ∧
        (r = .ok none → ∀ e, Q s (some (.error e)) t) := by
    intro m hm hrun
    refine ⟨fun value hr => ?_, fun e hr => ?_, fun hr e => ?_⟩
    · exact hm.exec_ok (hr ▸ hrun)
    · exact hm.exec_error (hr ▸ hrun)
    · exact hQ.free s t e (hm.exec_ok (hr ▸ hrun))
  unfold templateVariableValue at h
  split at h
  · exact hplain _ (hQ.of_bind (hQ.of_check _) fun _ => hQ.of_pure _) h
  · split at h
    · exact hplain _ (hQ.of_pure _) h
    · split at h
      · exact hpass _ (resolveAttribute_does hQ hcb _ _) h
      · exact hpass _ (hQ.of_bind (resolveReference_does hQ hcb _)
          fun _ => hQ.of_pure _) h

theorem templateVariableValues_does (names : List String) :
    Does Q (templateVariableValues env cb subParameters selectBefore names) := by
  induction names with
  | nil => exact hQ.of_pure _
  | cons name names ih =>
    intro s
    unfold templateVariableValues DoesAt
    rw [exec_bind]
    rcases hrun : exec (templateVariableValue env cb subParameters selectBefore name) s with ⟨r, t⟩
    have hvalue := templateVariableValue_does hQ hcb _ _ _ s t r hrun
    rcases r with e | value
    · exact hvalue.2.1 e rfl
    · cases value with
      | none => exact hvalue.2.2 rfl _
      | some =>
        refine hQ.trans s t _ _ (hvalue.1 _ rfl) ?_
        exact hQ.of_bind ih (fun _ => hQ.of_pure _) t

theorem computeSub_does (args : Json) : Does Q (computeSub env cb selectBefore args) := by
  refine hQ.of_bind (hQ.of_check _) fun ⟨stringTemplate, subParameters⟩ => ?_
  exact hQ.of_bind (templateVariableValues_does hQ hcb _ _ _) fun _ =>
    hQ.of_bind (hQ.of_check _) fun _ => hQ.of_pure _

theorem visitFunction_does (scope : Scope) (function : IntrinsicFunction)
    (arguments : Delta Json) : Does Q (visitFunction env cb scope function arguments) := by
  unfold visitFunction
  split
  · exact hQ.of_cachedApply _ _ (computeRef_does hQ hcb)
  · exact hQ.of_cachedApply _ _ fun selectBefore value =>
      resolveAttribute_does hQ hcb _ _
  · exact hQ.of_cachedApply _ _ (computeSub_does hQ hcb)
  · exact hQ.of_cachedApply _ _ fun _ _ => hQ.of_bind (hQ.of_check _) fun _ => hQ.of_pure _
  · exact hQ.of_bind (hQ.of_check _) fun _ => hQ.of_bind (hQ.of_check _) fun _ => hQ.of_pure _
  · exact hQ.of_raise _
  · exact hQ.of_bind (hQ.of_check _) fun _ => hQ.of_cachedApply _ _ fun _ _ => hQ.of_check _

omit hcb in
theorem visitIf_does (condition : Delta Json) (selectBefore : Bool)
    {first second : Visit (Delta Json)}
    (h1 : Does Q first) (h2 : Does Q second) :
    Does Q (visitIf env condition selectBefore first second) := by
  unfold visitIf
  refine hQ.of_bind (hQ.of_check _) fun branch => ?_
  split
  · exact hQ.of_pure _
  · refine hQ.of_bind ?_ fun _ => hQ.of_pure _
    split
    · exact h1
    · exact h2

end Entities

mutual

/-- The visits of entities. -/
theorem visitValue_does (hQ : VisitEffect Q) (hcb : CallbacksDo env Q cb) (entity : Entity) :
    Does Q (visitValue env cb entity) := by
  unfold visitValue
  split
  · exact hQ.of_cached _ (hQ.of_pure _)
  · next value divergence =>
    refine hQ.of_cached _ ?_
    refine hQ.of_bind (visitValue_does hQ hcb value) fun _ => ?_
    exact hQ.of_bind (visitValue_does hQ hcb divergence) fun _ => hQ.of_pure _
  · next bindings =>
    exact hQ.of_cached _ (hQ.of_bind (visitBindings_does hQ hcb bindings) fun _ => hQ.of_pure _)
  · next array =>
    exact hQ.of_cached _ (hQ.of_bind (visitItems_does hQ hcb array) fun _ => hQ.of_pure _)
  · next value => exact hQ.of_cached _ (visitValue_does hQ hcb value)
  · next condition first second =>
    refine hQ.of_cached _ (hQ.of_bind (visitValue_does hQ hcb condition) fun delta => ?_)
    have h1 := visitValue_does hQ hcb first
    have h2 := visitValue_does hQ hcb second
    exact hQ.of_bind (visitIf_does hQ delta true h1 h2) fun _ =>
      hQ.of_bind (visitIf_does hQ delta false h1 h2) fun _ => hQ.of_pure _
  · exact hQ.of_cached _ (hQ.of_raise _)
  · exact hQ.of_cached _ (hQ.of_raise _)
  · next arguments _ _ _ =>
    exact hQ.of_cached _ (hQ.of_bind (visitValue_does hQ hcb arguments) fun _ =>
      visitFunction_does hQ hcb _ _ _)
termination_by sizeOf entity

theorem visitBindings_does (hQ : VisitEffect Q) (hcb : CallbacksDo env Q cb)
    (bindings : List (String × Entity)) :
    Does Q (visitBindings env cb bindings) := by
  match bindings with
  | [] => exact hQ.of_pure _
  | (name, entity) :: bindings =>
    unfold visitBindings
    exact hQ.of_bind (visitValue_does hQ hcb entity) fun _ =>
      hQ.of_bind (visitBindings_does hQ hcb bindings) fun _ => hQ.of_pure _
termination_by sizeOf bindings

theorem visitItems_does (hQ : VisitEffect Q) (hcb : CallbacksDo env Q cb) (items : List Entity) :
    Does Q (visitItems env cb items) := by
  match items with
  | [] => exact hQ.of_pure _
  | entity :: items =>
    unfold visitItems
    exact hQ.of_bind (visitValue_does hQ hcb entity) fun _ =>
      hQ.of_bind (visitItems_does hQ hcb items) fun _ => hQ.of_pure _
termination_by sizeOf items

end

theorem visitProperties_does (hQ : VisitEffect Q) (hcb : CallbacksDo env Q cb)
    (node : NodeResource) : Does Q (visitProperties env cb node) := by
  refine hQ.of_cached _ (hQ.of_bind ?_ fun _ => hQ.of_pure _)
  exact visitBindings_does hQ hcb _

/-! ### Resources -/

/-- If a resource is there before: it was not created, and its condition was not false. -/
def NodeResource.presentBefore (env : Environment) (node : NodeResource) : Bool :=
  match conditionOf env node.conditionReference with
  | .ok condition => shouldProcess .created node.changeType condition.before
  | .error _ => false

/-- If a resource is there after: it was not removed, and its condition is not false. -/
def NodeResource.presentAfter (env : Environment) (node : NodeResource) : Bool :=
  match conditionOf env node.conditionReference with
  | .ok condition => shouldProcess .removed node.changeType condition.after
  | .error _ => false

/-- What a delta of a resource says about the resource. -/
structure Preprocessed (env : Environment) (node : NodeResource) (delta : Delta PreprocResource) :
    Prop where
  before_isSome : delta.before.isSome = node.presentBefore env
  after_isSome : delta.after.isSome = node.presentAfter env
  before_eq : ∀ resource, delta.before = some resource → resource.logicalId = node.name ∧
    resource.resourceType = node.type_.before ∧
    resource.deletionPolicy = node.deletionPolicy.before
  after_eq : ∀ resource, delta.after = some resource → resource.logicalId = node.name ∧
    resource.resourceType = node.type_.after ∧
    resource.requiresReplacement = node.requiresReplacement ∧
    resource.updateReplacePolicy = node.updateReplacePolicy.after

theorem deltaBefore_eq {node : NodeResource} {condition : Delta Bool} {properties : Delta Json}
    {s : State} {before : Maybe PreprocResource}
    (h : deltaBefore node condition properties s = .ok before) :
    before.isSome = shouldProcess .created node.changeType condition.before ∧
      ∀ resource, before = some resource → resource.logicalId = node.name ∧
        resource.resourceType = node.type_.before ∧
        resource.deletionPolicy = node.deletionPolicy.before := by
  unfold deltaBefore at h
  split at h
  · next hb =>
    rw [hb]
    cases hid : resourcePhysicalResourceIdFrom node.name s.stack.resolvedResources with
    | error =>
      rw [hid] at h
      cases h
    | ok =>
      rw [hid] at h
      cases h
      refine ⟨rfl, fun r hr => ?_⟩
      cases hr
      exact ⟨rfl, rfl, rfl⟩
  · next hb =>
    cases h
    exact ⟨(Bool.not_eq_true _ |>.mp hb).symm, (fun _ hr => nomatch hr)⟩

theorem deltaAfter_eq (node : NodeResource) (condition : Delta Bool) (properties : Delta Json)
    (s : State) :
    (deltaAfter node condition properties s).isSome =
        shouldProcess .removed node.changeType condition.after ∧
      ∀ resource, deltaAfter node condition properties s = some resource →
        resource.logicalId = node.name ∧ resource.resourceType = node.type_.after ∧
          resource.requiresReplacement = node.requiresReplacement ∧
          resource.updateReplacePolicy = node.updateReplacePolicy.after := by
  unfold deltaAfter
  split
  · next ha =>
    refine ⟨ha.symm, fun r hr => ?_⟩
    cases hr
    exact ⟨rfl, rfl, rfl, rfl⟩
  · next ha => exact ⟨(Bool.not_eq_true _ |>.mp ha).symm, (fun _ hr => nomatch hr)⟩

theorem exec_check_ok {r : Except Error α} {s t : State} {a : α}
    (h : exec (check r) s = (.ok a, t)) : r = .ok a ∧ t = s := by
  cases r with
  | ok =>
    cases h
    exact ⟨rfl, rfl⟩
  | error => cases h

/-- The preprocessing of a resource. -/
theorem preprocessed_of_exec {node : NodeResource} {s t : State} {delta : Delta PreprocResource}
    (h : exec (preprocNodeResource env cb node) s = (.ok delta, t)) :
    Preprocessed env node delta := by
  unfold preprocNodeResource at h
  split at h
  · rcases exec_bind_ok _ _ _ _ _ h with ⟨condition, s1, h1, h⟩
    rcases exec_bind_ok _ _ _ _ _ h with ⟨_, s2, _, h⟩
    rcases exec_bind_ok _ _ _ _ _ h with ⟨properties, s3, _, h⟩
    rw [exec_get_bind] at h
    rcases exec_bind_ok _ _ _ _ _ h with ⟨before, s4, hb, h⟩
    cases h
    have hcondition := (exec_check_ok h1).1
    have hbefore := deltaBefore_eq (exec_check_ok hb).1
    have hafter := deltaAfter_eq node condition properties s3
    refine ⟨?_, ?_, hbefore.2, hafter.2⟩
    · simp only [NodeResource.presentBefore, hcondition, hbefore.1]
    · simp only [NodeResource.presentAfter, hcondition, hafter.1]
  · cases h

/-- `visit_node_resource` after the preprocessing, and the entries of the caches. -/
def deployAndMark (env : Environment) (providers : Providers) (node : NodeResource)
    (delta : Delta PreprocResource) : Visit (Delta PreprocResource) := do
  let delta ← deployResource env providers node.name delta
  modify fun s => { s with visited := s.visited.set node.name delta }
  return delta

/-- A relation that the steps of a visit keep. For the step that deploys a resource it is
    known what the preprocessing did, and that the resource was not visited before. -/
structure DeployEffect (env : Environment) (providers : Providers)
    (Q : State → Option Exn → State → Prop) : Prop extends VisitEffect Q where
  fail : ∀ node ∈ env.resources, ∀ s e t, Q s (some e) t →
    Q s (raised (exec (failResource node e) t).1) (exec (failResource node e) t).2
  deploy : ∀ depth, ∀ node ∈ env.resources, ∀ s t delta, s.visited.get? node.name = none →
    exec (preprocNodeResource env (callbacks env providers depth) node) s = (.ok delta, t) →
    Q s none t → Q s (raised (exec (deployAndMark env providers node delta) t).1)
      (exec (deployAndMark env providers node delta) t).2
  output : ∀ s outputs, Q s none { s with outputs := outputs }

theorem visitAll_does (hQ : VisitEffect Q) (hcb : CallbacksDo env Q cb) (names : List String) :
    Does Q (visitAll env cb names) := by
  induction names with
  | nil => exact hQ.of_pure _
  | cons name names ih => exact getNodeResourceFor_does hQ hcb _ fun _ _ _ => ih

theorem preprocNodeResource_does (hQ : VisitEffect Q) (hcb : CallbacksDo env Q cb)
    (node : NodeResource) : Does Q (preprocNodeResource env cb node) := by
  unfold preprocNodeResource
  split
  · refine hQ.of_bind (hQ.of_check _) fun condition => hQ.of_bind ?_ fun _ =>
      hQ.of_bind ?_ fun properties => Does.of_get fun s =>
        hQ.of_bind (hQ.of_check _) (fun _ => hQ.of_pure _) s
    · unfold visitDependsOn
      split
      · exact visitAll_does hQ hcb _
      · exact hQ.of_pure _
    · unfold resourceProperties
      split
      · exact visitProperties_does hQ hcb _
      · exact hQ.of_pure _
  · exact hQ.of_raise _

/-- The visit of a resource that was not visited before: its preprocessing failed, or what
    the preprocessing made of it is deployed. -/
theorem exec_visitOnce (node : NodeResource) (s : State) (h : s.visited.get? node.name = none) :
    exec (visitOnce node (visitNodeResource env providers cb node)) s =
      match exec (preprocNodeResource env cb node) s with
      | (.ok delta, t) => exec (deployAndMark env providers node delta) t
      | (.error e, t) => exec (failResource node e) t := by
  have hfail : ∀ e t, ∃ d u, exec (failResource node e) t = (.error d, u) := by
    intro e t
    rcases hrun : exec (processEvent node.changeType.toChangeAction node.name .failed none) t with
      ⟨d | a, u⟩
    · exact ⟨d, u, exec_bind_of_error _ _ _ _ _ hrun⟩
    · exact ⟨e, u, exec_bind_of_ok _ _ _ _ _ hrun⟩
  unfold visitOnce
  rw [exec_get_bind]
  simp only [h]
  unfold visitNodeResource
  rw [bind_assoc, exec_bind, exec_attempt]
  rcases exec (preprocNodeResource env cb node) s with ⟨e | delta, t⟩
  · rcases hfail e t with ⟨d, u, hrun⟩
    simp only [hrun]
  · rfl

theorem callbacks_do (hQ : DeployEffect env providers Q) (depth : Nat) :
    CallbacksDo env Q (callbacks env providers depth) := by
  induction depth with
  | zero => exact ⟨fun _ _ => hQ.of_raise _, fun _ _ _ => hQ.of_raise _⟩
  | succ depth ih =>
    refine ⟨fun node hnode s => ?_, fun _ _ entity => visitValue_does hQ.toVisitEffect ih _⟩
    unfold DoesAt
    simp only [callbacks]
    cases hvisited : s.visited.get? node.name with
    | some =>
      unfold visitOnce
      rw [exec_get_bind]
      simp only [hvisited]
      exact hQ.refl s
    | none =>
      rw [exec_visitOnce _ s hvisited]
      have hpre := preprocNodeResource_does hQ.toVisitEffect ih node
      rcases hrun : exec (preprocNodeResource env (callbacks env providers depth) node) s with
        ⟨e | delta, t⟩
      · exact hQ.fail _ hnode s e t (hpre.exec_error hrun)
      · exact hQ.deploy _ _ hnode s t _ hvisited hrun (hpre.exec_ok hrun)

theorem visitNodeResources_does (hQ : VisitEffect Q) (hcb : CallbacksDo env Q cb)
    (nodes : List NodeResource) (hnodes : ∀ node ∈ nodes, node ∈ env.resources) :
    Does Q (visitNodeResources env cb nodes) := by
  induction nodes with
  | nil => exact hQ.of_pure _
  | cons node nodes ih =>
    have hrest := ih fun n hn => hnodes n (List.mem_cons_of_mem _ hn)
    refine hQ.of_bind (hQ.of_check _) fun condition => ?_
    split
    · exact hrest
    · exact hQ.of_bind (hcb.resource _ (hnodes node (List.mem_cons_self ..))) fun _ => hrest

theorem visitNodeOutputs_does (hQ : DeployEffect env providers Q) (hcb : CallbacksDo env Q cb)
    (nodes : List NodeOutput) : Does Q (visitNodeOutputs env cb nodes) := by
  have hV := hQ.toVisitEffect
  induction nodes with
  | nil => exact hV.of_pure _
  | cons node nodes ih =>
    refine hV.of_bind (hV.of_check _) fun condition => ?_
    split
    · exact ih
    · refine hV.of_bind ?_ fun _ => ih
      refine hV.of_bind (visitValue_does hV hcb _) fun value => ?_
      refine hV.of_bind (hV.of_check _) fun condition => ?_
      refine hV.of_bind ?_ fun exported => ?_
      · unfold visitExport
        split
        · exact visitValue_does hV hcb _
        · exact hV.of_pure _
      · split
        · exact hV.of_pure _
        · exact hV.of_bind (hV.of_check _) fun _ => Does.of_modify _ fun s => hQ.output s _

/-- The visits of resources, and of the templates. -/
theorem process_does (hQ : DeployEffect env providers Q) (depth : Nat) :
    Does Q (process env providers depth) := by
  have hV := hQ.toVisitEffect
  have hcb := callbacks_do hQ depth
  refine hV.of_bind (hV.of_check _) fun _ => ?_
  exact hV.of_bind (visitNodeResources_does hV hcb _ fun _ h => h) fun _ =>
    visitNodeOutputs_does hQ hcb _

end LocalEmu.CloudFormation
