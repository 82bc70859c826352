import LocalEmu.Core.StepFunctions.VariableStore

/-!
# Variables Are Lexically Scoped

What is read in a scope was assigned in it, or was visible from the enclosing scope when it
was opened. A scope sees a copy of the enclosing one, so that nothing that happens there later
gets in, and assignments are made in the inner dictionary of one store, so that they do not
get out either.

The two caches of a store have what they would be filled with again: the outer scope
does not change once the store is made, and every assignment that is not refused empties
the other cache.
-/

namespace LocalEmu.StepFunctions

open List Option

variable {V : Type}

/-! ### Stores -/

namespace VariableStore

variable (store : VariableStore V)

/-- What is visible in a store. -/
def read (variableIdentifier : Text) : Option V :=
  (store.innerScope.get? variableIdentifier).or (store.outerScope.get? variableIdentifier)

/-- What `get` gives for a value that may be there. -/
def found (variableIdentifier : Text) : Option V → Except NoSuchVariable V
  | some value => .ok value
  | none => .error ⟨variableIdentifier⟩

theorem get_eq_found (x : Text) : store.get x = found x (store.read x) := by
  unfold get read found
  cases store.innerScope.get? x with
  | some => rfl
  | none => cases store.outerScope.get? x <;> rfl

theorem read_asInnerScopeOf (outer : VariableStore V) (x : Text) :
    outer.asInnerScopeOf.read x = outer.read x := by
  unfold read asInnerScopeOf empty
  rw [Dict.get?_update, Dict.get?_update, Dict.get?_empty, or_none, none_or]

theorem outerScope_asInnerScopeOf (outer : VariableStore V) (x : Text) :
    outer.asInnerScopeOf.outerScope.get? x = outer.read x := by
  unfold read asInnerScopeOf
  rw [Dict.get?_update, Dict.get?_update, Dict.get?_empty, or_none]

/-- All bindings of a store, those of the outer scope first. -/
def bindings : List (Text × V) :=
  store.outerScope.entries ++ store.innerScope.entries

def encodeBindings (literal : V → Text) (bindings : List (Text × V)) : Text :=
  encodeJsonataVariableDeclarations literal (bindings.map fun entry => ('$' :: entry.1, entry.2))

/-- A store has no variable in both scopes, and the caches are empty or right. -/
structure Coherent (literal : V → Text) (store : VariableStore V) : Prop where
  disjoint : ∀ x ∈ store.innerScope.keys, x ∉ store.outerScope.keys
  outerCache : ∀ text ∈ store.outerVariableDeclarationCache,
    text = encodeBindings literal store.outerScope.entries
  cache : ∀ text ∈ store.variableDeclarationsCache, text = encodeBindings literal store.bindings

variable {literal : V → Text}

theorem encodeBindings_append (l l' : List (Text × V)) :
    encodeBindings literal (l ++ l') = encodeBindings literal l ++ encodeBindings literal l' := by
  unfold encodeBindings encodeJsonataVariableDeclarations
  rw [map_append, flatMap_append]

theorem coherent_empty : (empty : VariableStore V).Coherent literal where
  disjoint := by
    intro x hx
    cases hx
  outerCache := by
    intro text htext
    cases htext
  cache := by
    intro text htext
    cases htext

theorem coherent_asInnerScopeOf (outer : VariableStore V) :
    (outer.asInnerScopeOf).Coherent literal where
  disjoint := by
    intro x hx
    cases hx
  outerCache := by
    intro text htext
    cases htext
  cache := by
    intro text htext
    cases htext

theorem coherent_set {store store' : VariableStore V} (h : store.Coherent literal) {x : Text}
    {value : V} (hset : store.set x value = .ok store') : store'.Coherent literal := by
  unfold set at hset
  by_cases hx : x ∈ store.outerScope.keys
  · rw [if_pos hx] at hset
    cases hset
  · rw [if_neg hx] at hset
    cases hset
    refine ⟨?_, h.outerCache, ?_⟩
    · intro y hy
      rw [Dict.keys_set] at hy
      by_cases hold : x ∈ store.innerScope.keys
      · rw [if_pos hold] at hy
        exact h.disjoint y hy
      · rw [if_neg hold] at hy
        rcases mem_append.mp hy with hy | hy
        · exact h.disjoint y hy
        · exact (mem_singleton.mp hy) ▸ hx
    · intro text htext
      cases htext

theorem outerDeclarations_eq {store : VariableStore V} (h : store.Coherent literal) :
    store.outerDeclarations literal = encodeBindings literal store.outerScope.entries := by
  unfold outerDeclarations
  cases hcache : store.outerVariableDeclarationCache with
  | none => rfl
  | some =>
    exact h.outerCache _ hcache

theorem scopes_getVariableDeclarations (literal : V → Text) (store : VariableStore V) :
    (store.getVariableDeclarations literal).2.outerScope = store.outerScope ∧
      (store.getVariableDeclarations literal).2.innerScope = store.innerScope := by
  unfold getVariableDeclarations
  cases store.variableDeclarationsCache <;> exact ⟨rfl, rfl⟩

theorem getVariableDeclarations_spec {store : VariableStore V} (h : store.Coherent literal) :
    (store.getVariableDeclarations literal).1 = encodeBindings literal store.bindings ∧
      (store.getVariableDeclarations literal).2.Coherent literal := by
  unfold getVariableDeclarations
  cases hcache : store.variableDeclarationsCache with
  | some => exact ⟨h.cache _ hcache, h⟩
  | none =>
    have hall : store.outerDeclarations literal ++ toVariableDeclarations literal store.innerScope =
        encodeBindings literal store.bindings := by
      rw [outerDeclarations_eq h]
      exact (encodeBindings_append _ _).symm
    refine ⟨hall, ⟨h.disjoint, ?_, ?_⟩⟩
    · intro text htext
      cases htext
      exact outerDeclarations_eq h
    · intro text htext
      cases htext
      exact hall

theorem read_set {store store' : VariableStore V} {x : Text} {value : V}
    (hset : store.set x value = .ok store') (y : Text) :
    store'.outerScope = store.outerScope ∧
      store'.read y = if x = y then some value else store.read y := by
  unfold set at hset
  by_cases hx : x ∈ store.outerScope.keys
  · rw [if_pos hx] at hset
    cases hset
  · rw [if_neg hx] at hset
    cases hset
    refine ⟨rfl, ?_⟩
    unfold read
    rw [Dict.get?_set]
    by_cases hxy : x = y
    · rw [if_pos hxy, if_pos hxy.symm, some_or]
    · rw [if_neg hxy, if_neg fun heq => hxy heq.symm]

theorem set_eq_error_iff (store : VariableStore V) (x : Text) (value : V) :
    (∃ error, store.set x value = .error error) ↔ (store.outerScope.get? x).isSome := by
  unfold set
  rw [← ne_none_iff_isSome, ne_eq, Dict.get?_eq_none_iff, not_not]
  by_cases hx : x ∈ store.outerScope.keys
  · rw [if_pos hx]
    exact ⟨fun _ => hx, fun _ => ⟨_, rfl⟩⟩
  · rw [if_neg hx]
    constructor
    · rintro ⟨error, h⟩
      cases h
    · exact fun h => absurd h hx

end VariableStore

/-! ### Steps -/

namespace Scopes

open VariableStore

variable (w : Scopes V) (number : Nat)

/-- The value that an action assigns to a variable in a scope. -/
def assigned (x : Text) : ScopeAction V → Option V
  | .assign env y value false => if w.envs[env]? = some number ∧ y = x then some value else none
  | _ => none

theorem assigned_assign (env : Nat) (x y : Text) (value : V) :
    assigned w number x (.assign env y value false) =
      if w.envs[env]? = some number ∧ y = x then some value else none := rfl

/-- The value that was assigned last to a variable in a scope. -/
def lastAssigned (w : Scopes V) (number : Nat) (x : Text) : List (ScopeAction V) → Option V
  | [] => none
  | action :: actions => (lastAssigned w number x actions).or (assigned w number x action)

def read (x : Text) : Option V :=
  (w.stores[number]?).bind fun store => store.read x

variable {entry : Nat × VariableStore V}

theorem storeOf_eq_some {w : Scopes V} {env : Nat}
    (h : w.storeOf env = some entry) :
    w.envs[env]? = some entry.1 ∧ w.stores[entry.1]? = some entry.2 := by
  rcases bind_eq_some_iff.mp h with ⟨number, henv, hentry⟩
  rcases map_eq_some_iff.mp hentry with ⟨store, hstore, rfl⟩
  exact ⟨henv, hstore⟩

/-- What a step does to a store that is there already: the outer scope stays, and what is
    read is what was assigned, or what was read before. -/
def Carries (literal : V → Text) (s : Scopes V) (action : ScopeAction V) (number : Nat)
    (store store' : VariableStore V) : Prop :=
  store'.outerScope = store.outerScope ∧
    (∀ x, store'.read x = (assigned s number x action).or (store.read x)) ∧
    (store.Coherent literal → store'.Coherent literal)

theorem carries_refl {literal : V → Text} {s : Scopes V} {action : ScopeAction V} {number : Nat}
    {store : VariableStore V} (h : ∀ x, assigned s number x action = none) :
    Carries literal s action number store store := by
  refine ⟨rfl, ?_, id⟩
  intro x
  rw [h x, none_or]

variable {literal : V → Text} {s t : Scopes V}

theorem getElem?_replace {number : Nat} (number' : Nat) (store : VariableStore V)
    (h : number < s.stores.length) :
    (s.replace number store).stores[number']? =
      if number = number' then some store else s.stores[number']? := by
  unfold replace
  rw [getElem?_set]
  by_cases heq : number = number'
  · rw [if_pos heq, if_pos heq, if_pos h]
  · rw [if_neg heq, if_neg heq]

/-- What a step does to the environments and stores that are there already, and that new
    stores are coherent. -/
def Extends (literal : V → Text) (s : Scopes V) (action : ScopeAction V) (t : Scopes V) : Prop :=
  (∃ envs, t.envs = s.envs ++ envs) ∧
    (∀ number store, s.stores[number]? = some store →
      ∃ store', t.stores[number]? = some store' ∧ Carries literal s action number store store') ∧
    ∀ (number : Nat) (store' : VariableStore V), t.stores[number]? = some store' →
      s.stores[number]? = none → store'.Coherent literal

variable (values : List (Text × V)) {action : ScopeAction V}

theorem extends_replace {env : Nat}
    (hentry : s.storeOf env = some entry) {store' : VariableStore V}
    (hcarries : Carries literal s action entry.1 entry.2 store')
    (hother : ∀ number x, entry.1 ≠ number → assigned s number x action = none) :
    Extends literal s action (s.replace entry.1 store') := by
  have hstore := (storeOf_eq_some hentry).2
  have hlt : entry.1 < s.stores.length := (List.getElem?_eq_some_iff.mp hstore).1
  refine ⟨⟨[], (append_nil _).symm⟩, ?_, ?_⟩
  · intro number store hnumber
    rw [getElem?_replace _ _ hlt]
    by_cases heq : entry.1 = number
    · subst heq
      rw [hstore, some.injEq] at hnumber
      rw [if_pos rfl, ← hnumber]
      exact ⟨store', rfl, hcarries⟩
    · rw [if_neg heq]
      exact ⟨store, hnumber, carries_refl fun x => hother _ x heq⟩
  · intro number new hnew hold
    rw [getElem?_replace _ _ hlt, hold] at hnew
    by_cases heq : entry.1 = number
    · rw [← heq, hstore] at hold
      cases hold
    · rw [if_neg heq] at hnew
      cases hnew

theorem extends_append (envs : List Nat) (stores : List (VariableStore V))
    (hnone : ∀ number x, assigned s number x action = none)
    (hcoherent : ∀ store ∈ stores, store.Coherent literal) :
    Extends literal s action ⟨s.envs ++ envs, s.stores ++ stores⟩ := by
  refine ⟨⟨envs, rfl⟩, ?_, ?_⟩
  · intro number store hnumber
    have hlt : number < s.stores.length := (List.getElem?_eq_some_iff.mp hnumber).1
    refine ⟨store, ?_, carries_refl (hnone _)⟩
    rw [getElem?_append_left hlt]
    exact hnumber
  · intro number store hnumber hold
    rw [getElem?_append_right (getElem?_eq_none_iff.mp hold)] at hnumber
    exact hcoherent _ (mem_of_getElem? hnumber)

theorem carries_set {env : Nat} {x : Text} {value : V}
    (henv : s.envs[env]? = some entry.1) {store' : VariableStore V}
    (hset : entry.2.set x value = .ok store') :
    Carries literal s (.assign env x value false) entry.1 entry.2 store' := by
  refine ⟨(read_set hset x).1, ?_, fun h => coherent_set h hset⟩
  intro y
  rw [(read_set hset y).2, assigned_assign]
  by_cases hxy : x = y
  · rw [if_pos hxy, if_pos ⟨henv, hxy⟩, some_or]
  · rw [if_neg hxy, if_neg fun h => hxy h.2, none_or]

theorem step_extends (action : ScopeAction V) (hstep : s.step literal action = some t) :
    Extends literal s action t := by
  cases action with
  | openFrame env =>
    rcases map_eq_some_iff.mp hstep with ⟨entry, -, rfl⟩
    have h : Extends literal s (.openFrame env) ⟨s.envs ++ [entry.1], s.stores ++ []⟩ :=
      extends_append [entry.1] [] (fun _ _ => rfl) (forall_mem_nil _)
    rw [append_nil] at h
    exact h
  | openInnerFrame =>
    rcases map_eq_some_iff.mp hstep with ⟨entry, -, rfl⟩
    refine extends_append [s.stores.length] [entry.2.asInnerScopeOf] (fun _ _ => rfl) ?_
    intro store hstore
    rw [mem_singleton.mp hstore]
    exact coherent_asInnerScopeOf entry.2
  | assign env x value raises =>
    rcases bind_eq_some_iff.mp hstep with ⟨result, hresult, hraises⟩
    rcases map_eq_some_iff.mp hresult with ⟨entry, hentry, hset⟩
    cases hcase : entry.2.set x value with
    | error =>
      rw [hcase] at hset
      subst hset
      cases raises with
      | false => cases hraises
      | true =>
        rw [if_pos rfl, some.injEq] at hraises
        subst hraises
        refine ⟨⟨[], (append_nil _).symm⟩, ?_, ?_⟩
        · exact fun number store hstore => ⟨store, hstore, carries_refl fun _ => rfl⟩
        · intro number store hstore hold
          rw [hold] at hstore
          cases hstore
    | ok =>
      rw [hcase] at hset
      subst hset
      cases raises with
      | true => cases hraises
      | false =>
        rw [if_pos rfl, some.injEq] at hraises
        subst hraises
        have henv := (storeOf_eq_some hentry).1
        refine extends_replace hentry (carries_set henv hcase) ?_
        intro number y hne
        rw [assigned_assign, henv, if_neg]
        exact fun h => hne (some.inj h.1)
  | declarations =>
    rcases map_eq_some_iff.mp hstep with ⟨entry, hentry, rfl⟩
    have hscopes := scopes_getVariableDeclarations literal entry.2
    refine extends_replace hentry ⟨hscopes.1, ?_, ?_⟩ fun _ _ _ => rfl
    · intro x
      unfold VariableStore.read
      rw [hscopes.1, hscopes.2]
      exact none_or.symm
    · exact fun h => (getVariableDeclarations_spec h).2
  | resetTracing =>
    rcases map_eq_some_iff.mp hstep with ⟨entry, hentry, rfl⟩
    exact extends_replace hentry
      ⟨rfl, fun x => (none_or (o := entry.2.read x)).symm,
        fun h => ⟨h.disjoint, h.outerCache, h.cache⟩⟩ fun _ _ _ => rfl

/-! ### Runs -/

theorem assigned_of_envs (hstep : s.step literal action = some t) {w : Scopes V} {envs : List Nat}
    (hw : w.envs = s.envs ++ envs) (number : Nat) (x : Text) :
    assigned w number x action = assigned s number x action := by
  cases action with
  | assign env y value raises =>
    rcases bind_eq_some_iff.mp hstep with ⟨result, hresult, -⟩
    rcases map_eq_some_iff.mp hresult with ⟨entry, hentry, -⟩
    have henv := (storeOf_eq_some hentry).1
    have hlt : env < s.envs.length := (List.getElem?_eq_some_iff.mp henv).1
    cases raises with
    | true => rfl
    | false => rw [assigned_assign, assigned_assign, hw, getElem?_append_left hlt]
  | openFrame | openInnerFrame | declarations | resetTracing => rfl

variable {actions : List (ScopeAction V)}

theorem envs_of_runs (h : Runs (Takes (step literal)) s actions t) :
    ∃ envs, t.envs = s.envs ++ envs := by
  induction h with
  | nil => exact ⟨[], (append_nil _).symm⟩
  | cons s m t action actions hstep _ ih =>
    rcases (step_extends _ hstep).1 with ⟨first, hfirst⟩
    rcases ih with ⟨rest, hrest⟩
    exact ⟨first ++ rest, by rw [hrest, hfirst, append_assoc]⟩

/-- What is read after a run. -/
theorem read_of_runs (h : Runs (Takes (step literal)) s actions t) : ∀ number store,
    s.stores[number]? = some store →
      ∃ store', t.stores[number]? = some store' ∧ store'.outerScope = store.outerScope ∧
        ∀ x, store'.read x = (lastAssigned t number x actions).or (store.read x) := by
  induction h with
  | nil => exact fun number store hstore => ⟨store, hstore, rfl, fun _ => rfl⟩
  | cons s m t action actions hstep hrest ih =>
    intro number store hstore
    have hextends := step_extends _ hstep
    rcases hextends.2.1 number store hstore with ⟨first, hfirst, houter, hread, -⟩
    rcases ih _ _ hfirst with ⟨store', hstore', houter', hread'⟩
    refine ⟨store', hstore', houter'.trans houter, ?_⟩
    intro x
    rcases hextends.1 with ⟨new, hnew⟩
    rcases envs_of_runs hrest with ⟨later, hlater⟩
    have henvs : t.envs = s.envs ++ (new ++ later) := by rw [hlater, hnew, append_assoc]
    rw [hread' x, hread x, lastAssigned, assigned_of_envs hstep henvs, Option.or_assoc]

/-- All stores are coherent. -/
def AllCoherent (literal : V → Text) (w : Scopes V) : Prop :=
  ∀ (number : Nat) (store : VariableStore V), w.stores[number]? = some store →
    store.Coherent literal

theorem step_coherent (s : Scopes V) (action : ScopeAction V) (t : Scopes V)
    (h : AllCoherent literal s) (hstep : Takes (step literal) s action t) :
    AllCoherent literal t := by
  intro number store hstore
  have hextends := step_extends _ hstep
  cases hold : s.stores[number]? with
  | none => exact hextends.2.2 number store hstore hold
  | some old =>
    rcases hextends.2.1 number old hold with ⟨store', hstore', -, -, hcoherent⟩
    rw [hstore', some.injEq] at hstore
    exact hstore ▸ hcoherent (h _ _ hold)

/-- The assignments that make the store of an execution. -/
def assignments : List (ScopeAction V) :=
  values.map fun entry => .assign 0 entry.1 entry.2 false

theorem runs_foldl : ∀ store : VariableStore V, store.outerScope = .empty →
    Runs (Takes (step literal)) ⟨[0], [store]⟩ (assignments values) ⟨[0], [values.foldl
      (fun store entry =>
        match store.set entry.1 entry.2 with
        | .ok store => store
        | .error _ => store) store]⟩ := by
  induction values with
  | nil => exact fun store _ => Runs.nil _
  | cons entry values ih =>
    intro store houter
    cases hset : store.set entry.1 entry.2 with
    | error error =>
      have hrefused := (set_eq_error_iff _ entry.1 entry.2).mp ⟨error, hset⟩
      rw [houter] at hrefused
      cases hrefused
    | ok next =>
      have hnext := ih _ ((read_set hset entry.1).1.trans houter)
      rw [foldl_cons, hset]
      refine Runs.cons _ ⟨[0], [next]⟩ _ _ _ ?_ hnext
      unfold Takes step assign storeOf
      simp only [getElem?_cons_zero, bind_some, map_some, hset, if_true]
      rfl

theorem runs_initial :
    Runs (Takes (step literal)) (initial []) (assignments values) (initial values) :=
  runs_foldl _ .empty rfl

/-- How the variables of a scope behave, by what is visible from outside and by what has
    happened since the scope was opened: what is read, and which assignments are refused. -/
def Scoped (w : Scopes V) (number : Nat) (outside : Text → Option V)
    (actions : List (ScopeAction V)) : Prop :=
  ∃ store, w.stores[number]? = some store ∧
    (∀ x, store.get x = found x ((lastAssigned w number x actions).or (outside x))) ∧
    ∀ env, w.envs[env]? = some number → ∀ x value,
      (w.assign env x value = some (true, w) ↔ (outside x).isSome) ∧
        (outside x = none → ∃ t, w.assign env x value = some (false, t))

theorem scoped_of_read {w : Scopes V} {number : Nat} {store : VariableStore V}
    {outside : Text → Option V}
    (hstore : w.stores[number]? = some store)
    (houter : ∀ x, store.outerScope.get? x = outside x)
    (hread : ∀ x, store.read x = (lastAssigned w number x actions).or (outside x)) :
    Scoped w number outside actions := by
  refine ⟨store, hstore, fun x => by rw [get_eq_found, hread], ?_⟩
  intro env henv x value
  have hentry : w.storeOf env = some (number, store) := by
    unfold storeOf
    rw [henv, bind_some, hstore, map_some]
  have hrefused := set_eq_error_iff store x value
  rw [houter] at hrefused
  unfold assign
  rw [hentry, map_some]
  cases hset : store.set x value with
  | error error =>
    have hvisible := hrefused.mp ⟨error, hset⟩
    refine ⟨⟨fun _ => hvisible, fun _ => rfl⟩, ?_⟩
    intro hnone
    rw [hnone] at hvisible
    cases hvisible
  | ok =>
    refine ⟨⟨?_, ?_⟩, fun _ => ⟨_, rfl⟩⟩
    · intro h
      cases h
    · intro hvisible
      rcases hrefused.mpr hvisible with ⟨error, herror⟩
      rw [hset] at herror
      cases herror

theorem assign_other {env : Nat} {x : Text} {value : V} {raises : Bool}
    (hstep : s.step literal (.assign env x value raises) = some t) {number : Nat}
    (hne : s.envs[env]? ≠ some number) : t.stores[number]? = s.stores[number]? := by
  rcases bind_eq_some_iff.mp hstep with ⟨result, hresult, hraises⟩
  rcases map_eq_some_iff.mp hresult with ⟨entry, hentry, hset⟩
  have hfound := storeOf_eq_some hentry
  have hlt : entry.1 < s.stores.length := (List.getElem?_eq_some_iff.mp hfound.2).1
  by_cases hsame : result.1 = raises
  · rw [if_pos hsame, some.injEq] at hraises
    rw [← hraises, ← hset]
    cases entry.2.set x value with
    | error => rfl
    | ok =>
      refine (getElem?_replace _ _ hlt).trans (if_neg fun heq => hne ?_)
      rw [hfound.1, heq]
  · rw [if_neg hsame] at hraises
    cases hraises

theorem mem_bindings {store : VariableStore V} (h : store.Coherent literal) (x : Text) (value : V) :
    (x, value) ∈ store.bindings ↔ store.get x = .ok value := by
  have hget : store.get x = .ok value ↔ store.read x = some value := by
    rw [get_eq_found]
    cases store.read x <;> simp [found]
  rw [hget, bindings, mem_append, ← Dict.get?_eq_some_iff, ← Dict.get?_eq_some_iff,
    VariableStore.read]
  cases hinner : store.innerScope.get? x with
  | none => simp
  | some =>
    have hmem : x ∈ store.innerScope.keys := by
      refine Classical.byContradiction fun hnot => ?_
      rw [(Dict.get?_eq_none_iff _ _).mpr hnot] at hinner
      cases hinner
    rw [(Dict.get?_eq_none_iff _ x).mpr (h.disjoint x hmem)]
    simp

theorem nodup_bindings {store : VariableStore V} (h : store.Coherent literal) :
    (store.bindings.map Prod.fst).Nodup := by
  unfold bindings
  rw [map_append]
  refine List.Nodup.append store.outerScope.nodup store.innerScope.nodup ?_
  exact fun x houter hinner => h.disjoint x hinner houter

theorem initial_coherent (literal : V → Text) :
    AllCoherent literal (initial ([] : List (Text × V))) := by
  intro number store hstore
  have hmem := mem_of_getElem? hstore
  rw [mem_singleton.mp hmem]
  exact coherent_empty

/-- After every run: the variables of the execution itself, those of every inner scope that
    was opened on the way, assignments, and declarations. -/
theorem variables_lexically_scoped (literal : V → Text) (values : List (Text × V))
    (actions : List (ScopeAction V)) (w : Scopes V)
    (h : Runs (Takes (step literal)) (initial values) actions w) :
    Scoped w 0 (fun _ => none) (assignments values ++ actions) ∧
      (∀ before env after u v, actions = before ++ .openInnerFrame env :: after →
        Runs (Takes (step literal)) (initial values) before u → u.openInnerFrame env = some v →
        Runs (Takes (step literal)) v after w →
        ∃ enclosing, u.storeOf env = some enclosing ∧
          Scoped w u.stores.length enclosing.2.read after) ∧
      (∀ env x value raises t, w.step literal (.assign env x value raises) = some t →
        ∀ number : Nat, w.envs[env]? ≠ some number → t.stores[number]? = w.stores[number]?) ∧
      ∀ (number : Nat) (store : VariableStore V), w.stores[number]? = some store →
        (store.getVariableDeclarations literal).1 = encodeBindings literal store.bindings ∧
          (store.bindings.map Prod.fst).Nodup ∧
          ∀ x value, (x, value) ∈ store.bindings ↔ store.get x = .ok value := by
  refine ⟨?_, ?_, fun env x value raises t hstep number => assign_other hstep, ?_⟩
  · rcases read_of_runs ((runs_initial _).append h) 0 .empty rfl with
      ⟨store, hstore, houter, hread⟩
    refine scoped_of_read hstore ?_ hread
    intro x
    rw [houter]
    rfl
  · intro before env after u v _ _ hopen hafter
    rcases map_eq_some_iff.mp hopen with ⟨enclosing, henclosing, rfl⟩
    refine ⟨enclosing, henclosing, ?_⟩
    rcases read_of_runs hafter u.stores.length enclosing.2.asInnerScopeOf (by simp) with
      ⟨store, hstore, houter, hread⟩
    refine scoped_of_read hstore ?_ ?_
    · intro x
      rw [houter]
      exact outerScope_asInnerScopeOf enclosing.2 x
    · intro x
      rw [hread x, read_asInnerScopeOf]
  · intro number store hstore
    have hcoherent := ((runs_initial _).append h).invariant step_coherent
      (initial_coherent _) number store hstore
    exact ⟨(getVariableDeclarations_spec hcoherent).1, nodup_bindings hcoherent,
      mem_bindings hcoherent⟩

def exampleActions : List (ScopeAction Nat) :=
  [.openInnerFrame 0, .assign 0 ['x'] 2 false, .assign 1 ['y'] 3 false, .assign 1 ['x'] 4 true]

def exampleScopes : Scopes Nat :=
  (takeAll (step fun _ => []) (initial [(['x'], 1)]) exampleActions).getD (initial [])

theorem variables_lexically_scoped_example :
    exampleScopes.read 0 ['x'] = some 2 ∧ exampleScopes.read 1 ['x'] = some 1 ∧
      Scoped exampleScopes 0 (fun _ => none) (assignments [(['x'], 1)] ++ exampleActions) :=
  ⟨rfl, rfl, (variables_lexically_scoped (fun _ => []) [(['x'], 1)] _ _
    (Runs.of_takeAll _ _ _ rfl)).1⟩

end Scopes

end LocalEmu.StepFunctions
