import LocalEmu.Theory.CloudFormation.FinalStatus

/-!
# Failed Updates

An update that fails should destroy nothing: no resource that was there is removed, and every
one of them is still recorded in the end.

The visit of the templates removes nothing. It puts removals off, of resources that are
gone from the template, and of the old ones where a resource was replaced or has a new type.
What was put off is done also when the visit failed, and then a resource is removed unless a
policy retains it. The records of the stack become those that the visit made, so a
resource that the visit did not come to is forgotten.
-/

namespace LocalEmu.CloudFormation

open List

open Iam (Json)
open LocalEmu.Action

variable {env : Environment} {providers : Providers} {depth : Nat}

/-- A resource is there: its record has a physical id. What was removed, and what could not
    be created, has a record without one. -/
def Stack.Has (stack : Stack) (name : String) : Prop :=
  ∃ record, stack.resolvedResources.get? name = some record ∧ record.physicalResourceId.isSome

/-- The execution ends with a failure message. -/
def Finished.Fails (finished : Finished) : Prop :=
  ∃ message, finished.reported = .ok message ∧ truthyMessage message = true

/-- If the execution ends with a failure message, no resource that was there was removed, and
    all that were there are still recorded. -/
def Harmless (stack : Stack) (finished : Finished) : Prop :=
  finished.Fails →
    (∀ p ∈ finished.performed, p.call.action = .remove →
      ¬stack.Has p.call.logicalResourceId) ∧
    ∀ name, stack.Has name → (finished.stack.resolvedResources.get? name).isSome

/-! ### The resources that a visit comes to -/

/-- A resource that the visit came to, and how the action ended that was asked for it. None
    is asked if the resource stays as it was, or is gone from the template. -/
structure Came where
  node : NodeResource
  ended : Option OperationStatus

namespace Came

/-- The provider did what it was asked, or refused it. Anything else raises. -/
def Answered (c : Came) : Prop := c.ended = some .success ∨ c.ended = some .failed

/-- A removal is put off that no policy prevents: the resource is gone from the template, or
    is to have another type, or a new one was asked for in its place. -/
def Removes (env : Environment) (c : Came) : Prop :=
  c.node.presentBefore env = true ∧
    if c.node.presentAfter env then
      c.ended ≠ none ∧ (c.node.type_.before ≠ c.node.type_.after ∨
        (c.Answered ∧ c.node.requiresReplacement = true ∧
          c.node.updateReplacePolicy.after ≠ some "Retain"))
    else c.node.deletionPolicy.before ≠ some "Retain"

/-- The resource gets a record: it stays as it was, or its action was answered. -/
def Records (env : Environment) (c : Came) : Prop :=
  c.node.presentAfter env = true ∧ (c.ended = none ∨ c.Answered)

end Came

/-- Nothing but caches, outputs and the stack changed. -/
structure Unchanged (t u : State) : Prop where
  visited : u.visited = t.visited
  resources : u.resources = t.resources
  deferredActions : u.deferredActions = t.deferredActions
  performed : u.performed = t.performed

/-- The visit comes to resources, one after the other: each was not visited before, is
    preprocessed, and is then deployed. -/
inductive Comes (env : Environment) (providers : Providers) (s : State) : List Came → State → Prop
  | start : Comes env providers s [] s
  | quiet (came : List Came) (t u : State) (h : Comes env providers s came t)
      (hunchanged : Unchanged t u) : Comes env providers s came u
  | came (came : List Came) (t : State) (h : Comes env providers s came t) (depth : Nat)
      (node : NodeResource) (hnode : node ∈ env.resources) (s0 : State)
      (hnew : s0.visited.get? node.name = none) (delta : Delta PreprocResource)
      (hpre : exec (preprocNodeResource env (callbacks env providers depth) node) s0 =
        (.ok delta, t))
      (new : List Performed)
      (hperformed : (exec (deployAndMark env providers node delta) t).2.performed =
        t.performed ++ new) :
      Comes env providers s (came ++ [⟨node, new.head?.map (·.event.status)⟩])
        (exec (deployAndMark env providers node delta) t).2

theorem Comes.trans {s t u : State} {came1 came2 : List Came} (h1 : Comes env providers s came1 t)
    (h2 : Comes env providers t came2 u) : Comes env providers s (came1 ++ came2) u := by
  induction h2 with
  | start =>
    rw [append_nil]
    exact h1
  | quiet came t u _ hunchanged ih => exact Comes.quiet _ t u ih hunchanged
  | came came t _ depth node hnode s0 hnew delta hpre new hperformed ih =>
    rw [← append_assoc]
    exact Comes.came _ t ih depth node hnode s0 hnew delta hpre new hperformed

/-- What the visit leaves: removals that were put off, records, and no removal that was done. -/
structure Accounts (env : Environment) (s : State) (came : List Came) (t : State) : Prop where
  removals : ∀ name, (∃ d ∈ t.deferredActions, d.retained = false ∧ d.name = name) ↔
    (∃ d ∈ s.deferredActions, d.retained = false ∧ d.name = name) ∨
      ∃ c ∈ came, c.Removes env ∧ c.node.name = name
  records : ∀ name, (t.resources.get? name).isSome ↔
    (s.resources.get? name).isSome ∨ ∃ c ∈ came, c.Records env ∧ c.node.name = name
  performed : ∀ p ∈ t.performed, p.call.action = .remove → p ∈ s.performed

theorem Accounts.trans {s t u : State} {came1 came2 : List Came} (h1 : Accounts env s came1 t)
    (h2 : Accounts env t came2 u) : Accounts env s (came1 ++ came2) u where
  removals name := by
    simp only [h2.removals name, h1.removals name, mem_append, or_and_right, exists_or, or_assoc]
  records name := by
    simp only [h2.records name, h1.records name, mem_append, or_and_right, exists_or, or_assoc]
  performed p hp haction := h1.performed p (h2.performed p hp haction) haction

variable {s t : State}

section Deployment

variable {node : NodeResource} {delta : Delta PreprocResource}

end Deployment

end LocalEmu.CloudFormation
