import Mathlib.Algebra.BigOperators.Ring.Finset
import LocalEmu.Core.Lambda.CountingService

/-!
# Leases Are Accounted For

Callers enter and leave the counting service in any order, and between two
sections of one of them all others may run. The counters are right at every
moment, because each section changes the counter of a scope by exactly what it
does to the lease of its caller. The limits follow: a lease is given in the
section that reads the counters, and what it reads there are the leases that are
live.
-/

namespace LocalEmu.Lambda

open List Option

/-! ### Sections -/

/-- The counter of a scope, for the leases of a kind. -/
def CountingService.count (s : CountingService) (kind : InitializationType) (scope : String) :
    Int :=
  match kind with
  | .provisionedConcurrency => s.provisionedTracker.count scope
  | _ => s.onDemandTracker.count scope

variable (tracker : ConcurrencyTracker)

theorem ConcurrencyTracker.count_increment (scope scope' : String) :
    (tracker.increment scope).count scope' =
      tracker.count scope' + (decide (scope = scope')).toNat := by
  rw [increment, count, Dict.getD_set]
  by_cases h : scope = scope'
  · subst h
    simp [count]
  · simp [h, Ne.symm h, count]

theorem ConcurrencyTracker.count_decrement (scope scope' : String) :
    (tracker.decrement scope).count scope' + (decide (scope = scope')).toNat =
      tracker.count scope' := by
  rw [decrement, count, Dict.getD_set]
  by_cases h : scope = scope'
  · subst h
    simp [count]
  · simp [h, Ne.symm h, count]

namespace Caller

/-- The scope in which a lease of a kind is counted. -/
def scope (c : Caller) : InitializationType → String
  | .provisionedConcurrency => c.qualifiedArn
  | _ => c.unqualifiedArn

/-- A caller has a live lease. -/
def holds (kind : InitializationType) (c : Caller) : Bool :=
  decide (c.control = .leased) && decide (c.leaseType = some kind)

/-- A caller has a lease type only from the moment a lease is given to it. -/
structure Ok (c : Caller) : Prop where
  leased : c.control = .leased →
    c.leaseType = some .onDemand ∨ c.leaseType = some .provisionedConcurrency
  typed : c.leaseType ≠ none → c.control = .leased ∨ c.control = .left

theorem enter_ok (invocation : Invocation) : (enter invocation).Ok where
  leased := by simp [enter]
  typed := by simp [enter]

theorem checkProvisioned_cases (tracker : ConcurrencyTracker) (c : Caller) :
    (∃ config : Nat, (c.invocation.function.bind fun fn =>
        fn.provisionedConcurrencyConfig c.invocation.functionVersion.id.qualifier) = some config ∧
      tracker.count c.qualifiedArn < config ∧
      checkProvisioned tracker c = (tracker.increment c.qualifiedArn,
        { c with control := .leased, leaseType := some .provisionedConcurrency })) ∨
    (∃ control, control ≠ .leased ∧
      checkProvisioned tracker c = (tracker, { c with control := control })) := by
  rw [checkProvisioned]
  rcases c.invocation.function.bind fun fn =>
    fn.provisionedConcurrencyConfig c.invocation.functionVersion.id.qualifier with _ | config
  · exact .inr ⟨.checkOnDemand, by simp, rfl⟩
  · rcases c.invocation.provisionedState with _ | status
    · exact .inr ⟨.raised .attributeError, by simp, rfl⟩
    · by_cases h : status = .ready ∧ 0 < (config : Int) - tracker.count c.qualifiedArn
      · exact .inl ⟨config, rfl, by omega, if_pos h⟩
      · exact .inr ⟨.checkOnDemand, by simp, if_neg h⟩

theorem checkOnDemand_cases (store : LambdaStore) (limit : Nat) (tracker : ConcurrencyTracker)
    (c : Caller) :
    (∃ available, availableConcurrency store limit tracker c = .ok available ∧ 0 < available ∧
      checkOnDemand store limit tracker c = (tracker.increment c.unqualifiedArn,
        { c with control := .leased, leaseType := some .onDemand })) ∨
    (∃ control, control ≠ .leased ∧
      checkOnDemand store limit tracker c = (tracker, { c with control := control })) := by
  rw [checkOnDemand]
  rcases availableConcurrency store limit tracker c with error | available
  · exact .inr ⟨.raised error, by simp, rfl⟩
  · by_cases h : 0 < available
    · exact .inl ⟨available, rfl, h, if_pos h⟩
    · exact .inr ⟨.raised rateExceeded, by simp, if_neg h⟩

variable {store : LambdaStore} {limit : Nat} {s s' : CountingService} {c c' : Caller} {i : Unit}

theorem next_cases (h : next store limit s c i = some (s', c')) :
    (∃ control, control ≠ .leased ∧ c.control ≠ .leased ∧ c.control ≠ .left ∧
      c' = { c with control := control } ∧
      s'.provisionedTracker = s.provisionedTracker ∧ s'.onDemandTracker = s.onDemandTracker) ∨
    (c.control ≠ .leased ∧
      c' = { c with control := .leased, leaseType := some .provisionedConcurrency } ∧
      s'.provisionedTracker = s.provisionedTracker.increment c.qualifiedArn ∧
      s'.onDemandTracker = s.onDemandTracker ∧
      ∃ config : Nat, (c.invocation.function.bind fun fn =>
          fn.provisionedConcurrencyConfig c.invocation.functionVersion.id.qualifier) =
            some config ∧ s.provisionedTracker.count c.qualifiedArn < config) ∨
    (c.control ≠ .leased ∧ c' = { c with control := .leased, leaseType := some .onDemand } ∧
      s'.provisionedTracker = s.provisionedTracker ∧
      s'.onDemandTracker = s.onDemandTracker.increment c.unqualifiedArn ∧
      ∃ available, availableConcurrency store limit s.onDemandTracker c = .ok available ∧
        0 < available) ∨
    (c.control = .leased ∧ c' = { c with control := .left } ∧ s' = release s c) := by
  cases hc : c.control with
  | lookUpOnDemand | lookUpProvisioned =>
    simp only [next, hc, some.injEq, Prod.mk.injEq] at h
    refine .inl ⟨_, ?_, by simp, by simp, h.2.symm, by rw [h.1], by rw [h.1]⟩
    split <;> simp
  | initOnDemand | initProvisioned =>
    simp only [next, hc, some.injEq, Prod.mk.injEq] at h
    exact .inl ⟨_, by simp, by simp, by simp, h.2.symm, by rw [← h.1]; rfl, by rw [← h.1]; rfl⟩
  | checkProvisioned =>
    simp only [next, hc, some.injEq, Prod.mk.injEq] at h
    rcases checkProvisioned_cases _ c with ⟨config, hconfig, hlt, heq⟩ | ⟨control, hcontrol, heq⟩
    · rw [heq] at h
      exact .inr (.inl ⟨by simp, h.2.symm, by rw [← h.1]; rfl, by rw [← h.1]; rfl, config,
        hconfig, hlt⟩)
    · rw [heq] at h
      exact .inl ⟨control, hcontrol, by simp, by simp, h.2.symm, by rw [← h.1]; rfl,
        by rw [← h.1]; rfl⟩
  | checkOnDemand =>
    simp only [next, hc, some.injEq, Prod.mk.injEq] at h
    rcases checkOnDemand_cases _ _ _ c with
      ⟨available, havailable, hpos, heq⟩ | ⟨control, hcontrol, heq⟩
    · rw [heq] at h
      exact .inr (.inr (.inl ⟨by simp, h.2.symm, by rw [← h.1]; rfl, by rw [← h.1]; rfl,
        available, havailable, hpos⟩))
    · rw [heq] at h
      exact .inl ⟨control, hcontrol, by simp, by simp, h.2.symm, by rw [← h.1]; rfl,
        by rw [← h.1]; rfl⟩
  | leased =>
    simp only [next, hc, some.injEq, Prod.mk.injEq] at h
    exact .inr (.inr (.inr ⟨rfl, h.2.symm, h.1.symm⟩))
  | left | raised => simp [next, hc] at h

theorem next_invocation (h : next store limit s c i = some (s', c')) :
    c'.invocation = c.invocation := by
  rcases next_cases h with ⟨_, _, _, _, rfl, _⟩ | ⟨_, rfl, _⟩ | ⟨_, rfl, _⟩ | ⟨_, rfl, _⟩
  · rfl
  · rfl
  · rfl
  · rfl

theorem next_ok (hc : c.Ok) (h : next store limit s c i = some (s', c')) : c'.Ok := by
  rcases next_cases h with ⟨control, hcontrol, hleased, hleft, rfl, _⟩ | ⟨_, rfl, _⟩ |
    ⟨_, rfl, _⟩ | ⟨_, rfl, _⟩
  · -- A caller that neither has a lease nor had one has no lease type.
    have hnone : c.leaseType = none := by
      by_contra htype
      rcases hc.typed htype with h | h
      · exact hleased h
      · exact hleft h
    exact ⟨fun h => absurd h hcontrol, fun h => absurd hnone h⟩
  · exact ⟨fun _ => .inr rfl, fun _ => .inl rfl⟩
  · exact ⟨fun _ => .inl rfl, fun _ => .inl rfl⟩
  · exact ⟨fun h => absurd h (by simp), fun _ => .inr rfl⟩

/-- The caller has a live lease of a kind that is counted in a scope. -/
def holdsIn (kind : InitializationType) (scope : String) (c : Caller) : Bool :=
  c.holds kind && decide (c.scope kind = scope)

variable {kind : InitializationType} {scope : String}

theorem holdsIn_of_leased (hleased : c.control = .leased)
    (htype : c.leaseType = some kind) : c.holdsIn kind scope = decide (c.scope kind = scope) := by
  simp only [holdsIn, holds, hleased, htype, decide_true, Bool.true_and]

theorem holdsIn_of_control (hleased : c.control ≠ .leased) : c.holdsIn kind scope = false := by
  simp only [holdsIn, holds, hleased, decide_false, Bool.false_and]

theorem holdsIn_of_type (htype : c.leaseType ≠ some kind) : c.holdsIn kind scope = false := by
  simp only [holdsIn, holds, htype, decide_false, Bool.and_false, Bool.false_and]

theorem count_of_trackers (hprovisioned : s'.provisionedTracker = s.provisionedTracker)
    (honDemand : s'.onDemandTracker = s.onDemandTracker) (kind : InitializationType)
    (scope : String) : s'.count kind scope = s.count kind scope := by
  cases kind with
  | onDemand | lambdaManagedInstances => exact congrArg (ConcurrencyTracker.count · scope) honDemand
  | provisionedConcurrency => exact congrArg (ConcurrencyTracker.count · scope) hprovisioned

/-- A section changes the counters with the lease. -/
theorem next_count (hc : c.Ok) (h : next store limit s c i = some (s', c'))
    (kind : InitializationType) (hkind : kind ≠ .lambdaManagedInstances) (scope : String) :
    s'.count kind scope + (c.holdsIn kind scope).toNat =
      s.count kind scope + (c'.holdsIn kind scope).toNat := by
  rcases next_cases h with ⟨control, hcontrol, hleased, -, rfl, hprovisioned, honDemand⟩ |
    ⟨hleased, rfl, hprovisioned, honDemand, -⟩ | ⟨hleased, rfl, hprovisioned, honDemand, -⟩ |
    ⟨hleased, rfl, rfl⟩
  · rw [count_of_trackers hprovisioned honDemand, holdsIn_of_control hleased,
      holdsIn_of_control hcontrol]
  · cases kind with
    | onDemand =>
      rw [holdsIn_of_control hleased, holdsIn_of_type (by simp)]
      exact congrArg (fun tracker => ConcurrencyTracker.count tracker scope + 0) honDemand
    | provisionedConcurrency =>
      have hcount := s.provisionedTracker.count_increment c.qualifiedArn scope
      rw [← hprovisioned] at hcount
      rw [holdsIn_of_control hleased, holdsIn_of_leased rfl rfl]
      exact (Int.add_zero _).trans hcount
    | lambdaManagedInstances => exact absurd rfl hkind
  · cases kind with
    | onDemand =>
      have hcount := s.onDemandTracker.count_increment c.unqualifiedArn scope
      rw [← honDemand] at hcount
      rw [holdsIn_of_control hleased]
      exact (Int.add_zero _).trans hcount
    | provisionedConcurrency =>
      rw [holdsIn_of_control hleased]
      exact congrArg (fun tracker => ConcurrencyTracker.count tracker scope + 0) hprovisioned
    | lambdaManagedInstances => exact absurd rfl hkind
  · -- The lease that ends is of one of the two kinds.
    rcases hc.leased hleased with htype | htype
    · cases kind with
      | onDemand =>
        rw [holdsIn_of_leased hleased htype, release, htype]
        exact (s.onDemandTracker.count_decrement c.unqualifiedArn scope).trans (Int.add_zero _).symm
      | provisionedConcurrency =>
        rw [holdsIn_of_type (by simp [htype]), release, htype]
        rfl
      | lambdaManagedInstances => exact absurd rfl hkind
    · cases kind with
      | onDemand =>
        rw [holdsIn_of_type (by simp [htype]), release, htype]
        rfl
      | provisionedConcurrency =>
        rw [holdsIn_of_leased hleased htype, release, htype]
        exact (s.provisionedTracker.count_decrement c.qualifiedArn scope).trans
          (Int.add_zero _).symm
      | lambdaManagedInstances => exact absurd rfl hkind

theorem next_takes_provisioned (h : next store limit s c i = some (s', c'))
    (hnew : c'.holds .provisionedConcurrency = true) :
    ∃ config : Nat, (c.invocation.function.bind fun fn =>
        fn.provisionedConcurrencyConfig c.invocation.functionVersion.id.qualifier) =
          some config ∧ s.count .provisionedConcurrency c.qualifiedArn < config := by
  rcases next_cases h with ⟨_, hcontrol, _, _, rfl, _⟩ | ⟨_, rfl, _, _, hconfig⟩ | ⟨_, rfl, _⟩ |
    ⟨_, rfl, _⟩
  · simp [holds, hcontrol] at hnew
  · exact hconfig
  · simp [holds] at hnew
  · simp [holds] at hnew

theorem next_takes_onDemand (h : next store limit s c i = some (s', c'))
    (hnew : c'.holds .onDemand = true) :
    ∃ available, availableConcurrency store limit s.onDemandTracker c = .ok available ∧
      0 < available := by
  rcases next_cases h with ⟨_, hcontrol, _, _, rfl, _⟩ | ⟨_, rfl, _⟩ | ⟨_, rfl, _, _, havailable⟩ |
    ⟨_, rfl, _⟩
  · simp [holds, hcontrol] at hnew
  · simp [holds] at hnew
  · exact havailable
  · simp [holds] at hnew

end Caller

/-! ### Live leases -/

namespace LambdaStore

/-- An invocation of a function of the account, by one of its versions. -/
def Invokes (store : LambdaStore) (invocation : Invocation) : Prop :=
  ∃ fn, store.functions.get? invocation.functionVersion.id.functionName = some fn ∧
    invocation.function = some fn ∧ invocation.functionVersion ∈ fn.versions.values

/-- The scope of the leases on demand of a function. -/
def arn (store : LambdaStore) (name : String) : String :=
  VersionIdentifier.unqualifiedArn ⟨name, "", store.region, store.account⟩

/-- The concurrency that is set aside for a function. -/
def committedTo (fn : Function) : Nat :=
  match fn.reservedConcurrentExecutions with
  | some reserved => reserved
  | none => fn.provisionedConcurrencySum

/-- The reserved concurrency and the provisioned concurrency that is not reserved. -/
def committed (store : LambdaStore) : Nat := (store.functions.values.map committedTo).sum

variable (store : LambdaStore)

theorem unqualifiedArn_of_version (name : String) (fn : Function)
    (hfn : store.functions.get? name = some fn) (version : FunctionVersion)
    (hversion : version ∈ fn.versions.values) : version.id.unqualifiedArn = store.arn name := by
  rcases store.identified name fn hfn version hversion with ⟨hname, hregion, haccount⟩
  simp only [arn, VersionIdentifier.unqualifiedArn, hname, hregion, haccount]

theorem unqualifiedArn_of_invokes (c : Caller) (h : store.Invokes c.invocation) :
    c.unqualifiedArn = store.arn c.invocation.functionVersion.id.functionName := by
  rcases h with ⟨fn, hfn, -, hversion⟩
  exact store.unqualifiedArn_of_version _ fn hfn _ hversion

end LambdaStore

namespace Leases

/-- The number of live leases of a kind whose callers have a property. -/
def live (p : Leases) (kind : InitializationType) (P : Caller → Bool) : Nat :=
  p.threads.countP fun c => c.holds kind && P c

/-- The caller invokes a function of this name. -/
def ofFunction (name : String) (c : Caller) : Bool :=
  decide (c.invocation.functionVersion.id.functionName = name)

def ofVersion (id : VersionIdentifier) (c : Caller) : Bool :=
  decide (c.invocation.functionVersion.id = id)

/-- The caller invokes a function without reserved concurrency. -/
def unreserved (c : Caller) : Bool :=
  (c.invocation.function.bind Function.reservedConcurrentExecutions).isNone

/-- The counters agree with the live leases, and the limits are kept. -/
structure Accounted (store : LambdaStore) (limit : Nat) (p : Leases) : Prop where
  onDemand : ∀ scope, p.shared.onDemandTracker.count scope =
    p.live .onDemand fun c => decide (c.unqualifiedArn = scope)
  provisioned : ∀ scope, p.shared.provisionedTracker.count scope =
    p.live .provisionedConcurrency fun c => decide (c.qualifiedArn = scope)
  /-- A function with reserved concurrency has at most the part of it on demand
      that is not provisioned. -/
  reserved : ∀ name fn r, store.functions.get? name = some fn →
    fn.reservedConcurrentExecutions = some r →
    p.live .onDemand (ofFunction name) ≤ r - fn.provisionedConcurrencySum
  /-- A version has at most as many provisioned leases as configured. -/
  versions : ∀ name fn version, store.functions.get? name = some fn →
    version ∈ fn.versions.values →
    p.live .provisionedConcurrency (ofVersion version.id) ≤
      (fn.provisionedConcurrencyConfig version.id.qualifier).getD 0
  total : store.committed + p.live .onDemand unreserved ≤ limit
  /-- A caller that raises holds no lease. -/
  raised : ∀ c ∈ p.threads, ∀ error, c.control = .raised error → c.leaseType = none

variable {store : LambdaStore} {limit : Nat} {p : Leases}

variable (kind : InitializationType)

variable (tracker : ConcurrencyTracker) (P : Caller → Bool)

theorem live_spawn (invocation : Invocation) :
    live ⟨p.shared, p.threads ++ [Caller.enter invocation]⟩ kind P = p.live kind P := by
  rw [live, Pool.count_spawn]
  rfl

theorem live_act (s' : CountingService) (n : Nat) (c c' : Caller) (hget : p.threads[n]? = some c) :
    live ⟨s', p.threads.set n c'⟩ kind P + (c.holds kind && P c).toNat =
      p.live kind P + (c'.holds kind && P c').toNat :=
  Pool.count_act (fun c : Caller => c.holds kind && P c) _ n c c' hget

theorem live_act_le {kind : InitializationType} {P : Caller → Bool} {s' : CountingService}
    {n bound : Nat} {c c' : Caller} (hget : p.threads[n]? = some c)
    (hle : p.live kind P ≤ bound)
    (hnew : c'.holds kind = true → P c' = true → p.live kind P < bound) :
    live ⟨s', p.threads.set n c'⟩ kind P ≤ bound := by
  have hact := live_act kind P s' n c c' hget
  by_cases h : (c'.holds kind && P c') = true
  · have hlt := hnew (Bool.and_eq_true_iff.mp h).1 (Bool.and_eq_true_iff.mp h).2
    rw [h, Bool.toNat_true] at hact
    omega
  · rw [Bool.not_eq_true] at h
    rw [h, Bool.toNat_false] at hact
    omega

theorem live_le_live (Q : Caller → Bool)
    (h : ∀ c ∈ p.threads, P c = true → Q c = true) : p.live kind P ≤ p.live kind Q := by
  refine countP_mono_left fun c hc hP => ?_
  rw [Bool.and_eq_true_iff] at hP ⊢
  exact ⟨hP.1, h c hc hP.2⟩

/-! ### The limit of the account -/

/-- The leases on demand of a function without reserved concurrency. -/
def usedOnDemand (store : LambdaStore) (tracker : ConcurrencyTracker) (fn : Function) : Int :=
  match fn.reservedConcurrentExecutions with
  | some _ => 0
  | none => tracker.count (store.arn fn.functionName)

theorem usedConcurrency_eq (fn : Function) (hfn : store.functions.get? fn.functionName = some fn)
    (used : Int)
    (h : Caller.usedConcurrency tracker fn = .ok used) :
    used = (LambdaStore.committedTo fn : Nat) + usedOnDemand store tracker fn := by
  rw [Caller.usedConcurrency] at h
  rw [LambdaStore.committedTo, usedOnDemand]
  rcases hreserved : fn.reservedConcurrentExecutions with _ | reserved
  · rw [hreserved] at h
    rcases hlatest : fn.latest with _ | version
    · rw [hlatest] at h
      cases h
    · rw [hlatest] at h
      have hversion : version ∈ fn.versions.values :=
        mem_map.mpr ⟨_, Dict.mem_of_lookup _ _ _ hlatest, rfl⟩
      rw [← store.unqualifiedArn_of_version _ fn hfn version hversion]
      exact (Except.ok.inj h).symm
  · rw [hreserved] at h
    exact ((Int.add_zero _).trans (Except.ok.inj h)).symm

theorem totalUsedConcurrency_eq (fns : List Function)
    (hfns : ∀ fn ∈ fns, store.functions.get? fn.functionName = some fn) (used : Int)
    (h : Caller.totalUsedConcurrency tracker fns = .ok used) :
    used = ((fns.map LambdaStore.committedTo).sum : Nat) +
      (fns.map (usedOnDemand store tracker)).sum := by
  induction fns generalizing used with
  | nil => exact (Except.ok.inj h).symm
  | cons fn rest ih =>
    rw [Caller.totalUsedConcurrency] at h
    rcases hused : Caller.usedConcurrency tracker fn with error | mine
    · rw [hused] at h
      cases h
    · rcases hothers : Caller.totalUsedConcurrency tracker rest with error | others
      · rw [hused, hothers] at h
        cases h
      · rw [hused, hothers] at h
        have hsum : mine + others = used := Except.ok.inj h
        have hrest := ih (fun f hf => hfns f (mem_cons_of_mem fn hf)) _ hothers
        have hmine := usedConcurrency_eq _ fn (hfns fn mem_cons_self) _ hused
        rw [map_cons, map_cons, sum_cons, sum_cons, ← hsum, hrest]
        push_cast
        omega

/-! ### Runs -/

/-- What every section preserves. -/
structure Sound (store : LambdaStore) (limit : Nat) (p : Leases) : Prop where
  callers : ∀ c ∈ p.threads, c.Ok ∧ store.Invokes c.invocation
  counts : ∀ kind, kind ≠ .lambdaManagedInstances → ∀ scope,
    p.shared.count kind scope = p.threads.countP (Caller.holdsIn kind scope)
  reserved : ∀ name fn r, store.functions.get? name = some fn →
    fn.reservedConcurrentExecutions = some r →
    p.live .onDemand (ofFunction name) ≤ r - fn.provisionedConcurrencySum
  versions : ∀ name fn version, store.functions.get? name = some fn →
    version ∈ fn.versions.values →
    p.live .provisionedConcurrency (ofVersion version.id) ≤
      (fn.provisionedConcurrencyConfig version.id.qualifier).getD 0
  total : store.committed + p.live .onDemand unreserved ≤ limit

theorem mem_values_iff (fn : Function) :
    fn ∈ store.functions.values ↔ store.functions.get? fn.functionName = some fn := by
  constructor
  · intro h
    rcases mem_map.mp h with ⟨⟨name, fn'⟩, hmem, rfl⟩
    have hget := (Dict.get?_eq_some_iff _ _ _).mpr hmem
    rw [store.named name fn' hget]
    exact hget
  · intro h
    exact mem_map.mpr ⟨_, (Dict.get?_eq_some_iff _ _ _).mp h, rfl⟩

theorem live_ofFunction_le (hp : p.Sound store limit) (name : String) :
    (p.live .onDemand (ofFunction name) : Int) ≤
      p.shared.onDemandTracker.count (store.arn name) := by
  have hcount : p.shared.onDemandTracker.count (store.arn name) = _ :=
    hp.counts .onDemand (by simp) _
  have hle := live_le_live (p := p) .onDemand (ofFunction name)
    (fun c => decide (c.scope .onDemand = store.arn name)) ?_
  · rw [hcount]
    exact Int.ofNat_le.mpr hle
  · intro c hc hname
    rw [decide_eq_true_eq, ← of_decide_eq_true hname]
    exact store.unqualifiedArn_of_invokes c (hp.callers c hc).2

theorem live_ofVersion_le (hp : p.Sound store limit) (id : VersionIdentifier) :
    (p.live .provisionedConcurrency (ofVersion id) : Int) ≤
      p.shared.provisionedTracker.count id.qualifiedArn := by
  have hcount : p.shared.provisionedTracker.count id.qualifiedArn = _ :=
    hp.counts .provisionedConcurrency (by simp) _
  have hle := live_le_live (p := p) .provisionedConcurrency (ofVersion id)
    (fun c => decide (c.scope .provisionedConcurrency = id.qualifiedArn)) ?_
  · rw [hcount]
    exact Int.ofNat_le.mpr hle
  · intro c _ hid
    rw [decide_eq_true_eq, ← of_decide_eq_true hid]
    rfl

theorem live_unreserved_le (hp : p.Sound store limit) :
    (p.live .onDemand unreserved : Int) ≤
      (store.functions.values.map (usedOnDemand store p.shared.onDemandTracker)).sum := by
  -- A lease is counted under the function that its caller invokes.
  have hle := countP_le_sum p.threads store.functions.values
    (fun c => c.holds .onDemand && unreserved c)
    (fun fn c => fn.reservedConcurrentExecutions.isNone &&
      c.holdsIn .onDemand (store.arn fn.functionName)) ?_
  · refine (Int.ofNat_le.mpr hle).trans (le_of_eq ?_)
    rw [Nat.cast_list_sum, List.map_map]
    refine congrArg sum (map_congr_left fun fn _ => ?_)
    rw [Function.comp_apply, usedOnDemand]
    rcases fn.reservedConcurrentExecutions with _ | reserved
    · exact (hp.counts .onDemand (by simp) _).symm
    · exact congrArg Nat.cast (countP_eq_zero.mpr fun c _ => by simp)
  · intro c hc h
    rw [Bool.and_eq_true_iff] at h
    have hinvokes := (hp.callers c hc).2
    rcases hinvokes with ⟨fn, hfn, hfunction, hversion⟩
    have hname := store.named _ fn hfn
    refine ⟨fn, (mem_values_iff fn).mpr (hname ▸ hfn), ?_⟩
    rw [unreserved, hfunction] at h
    rw [Bool.and_eq_true_iff, Caller.holdsIn, Bool.and_eq_true_iff, decide_eq_true_eq, hname]
    exact ⟨h.2, h.1, store.unqualifiedArn_of_invokes c (hp.callers c hc).2⟩

theorem total_of_takes (hp : p.Sound store limit) {c : Caller} (hunreserved : unreserved c = true)
    {available : Int}
    (havailable : Caller.availableConcurrency store limit p.shared.onDemandTracker c =
      .ok available) (hpos : 0 < available) :
    p.live .onDemand unreserved < limit - store.committed := by
  rw [Caller.availableConcurrency, isNone_iff_eq_none.mp hunreserved] at havailable
  rcases htotal : Caller.totalUsedConcurrency p.shared.onDemandTracker store.functions.values with
    error | used
  · rw [htotal] at havailable
    cases havailable
  · rw [htotal] at havailable
    have heq : (limit : Int) - used = available := Except.ok.inj havailable
    have hvalues : ∀ fn ∈ store.functions.values,
        store.functions.get? fn.functionName = some fn := fun fn hfn => (mem_values_iff fn).mp hfn
    have hused := totalUsedConcurrency_eq _ _ hvalues _ htotal
    have hle := live_unreserved_le hp
    rw [← LambdaStore.committed] at hused
    omega

theorem step_sound (p : Leases) (label : Pool.Label Caller Unit) (q : Leases)
    (hlabel : ∀ c, label = .spawn c → ∃ invocation, store.Invokes invocation ∧
      c = Caller.enter invocation) (hp : p.Sound store limit)
    (hstep : Takes (Leases.step store limit) p label q) : q.Sound store limit := by
  rcases Pool.step_cases hstep with ⟨c, hspawn, rfl⟩ | ⟨n, i, c, s', c', -, hget, hnext, rfl⟩
  · rcases hlabel c hspawn with ⟨invocation, hinvokes, rfl⟩
    refine ⟨?_, ?_, ?_, ?_, ?_⟩
    · intro c hc
      rcases mem_append.mp hc with hc | hc
      · exact hp.callers c hc
      · rw [mem_singleton.mp hc]
        exact ⟨Caller.enter_ok _, hinvokes⟩
    · intro kind hkind scope
      rw [Pool.count_spawn]
      exact hp.counts _ hkind _
    · intro name fn r hfn hr
      rw [live_spawn]
      exact hp.reserved _ fn r hfn hr
    · intro name fn version hfn hversion
      rw [live_spawn]
      exact hp.versions _ fn _ hfn hversion
    · rw [live_spawn]
      exact hp.total
  · have hmem := mem_of_getElem? hget
    rcases hp.callers c hmem with ⟨hok, hinvokes⟩
    have hinvocation := Caller.next_invocation hnext
    refine ⟨?_, ?_, ?_, ?_, ?_⟩
    · intro d hd
      rcases Pool.mem_set hd with rfl | hd
      · exact ⟨Caller.next_ok hok hnext, hinvocation ▸ hinvokes⟩
      · exact hp.callers d hd
    · intro kind hkind scope
      have hcount := Caller.next_count hok hnext _ hkind scope
      have hact := Pool.count_act (Caller.holdsIn kind scope) _ n c c' hget
      rw [hp.counts _ hkind] at hcount
      change s'.count kind scope = ((p.threads.set n c').countP (Caller.holdsIn kind scope) : Nat)
      omega
    · intro name fn r hfn hr
      refine live_act_le hget (hp.reserved _ fn r hfn hr) fun hholds hname => ?_
      rcases Caller.next_takes_onDemand hnext hholds with ⟨available, havailable, hpos⟩
      rw [ofFunction, hinvocation] at hname
      have harn := store.unqualifiedArn_of_invokes c hinvokes
      rcases hinvokes with ⟨fn', hfn', hfunction, -⟩
      rw [of_decide_eq_true hname] at hfn' harn
      have hsame : fn' = fn := some.inj (hfn'.symm.trans hfn)
      rw [Caller.availableConcurrency, hfunction, hsame, bind_some, hr, harn] at havailable
      have heq := Except.ok.inj havailable
      have hle := live_ofFunction_le hp name
      simp only [map_some, getD_some] at heq
      omega
    · intro name fn version hfn hversion
      refine live_act_le hget (hp.versions _ fn _ hfn hversion) fun hholds hid => ?_
      rcases Caller.next_takes_provisioned hnext hholds with ⟨config, hconfig, hlt⟩
      rw [ofVersion, hinvocation] at hid
      have hid := of_decide_eq_true hid
      rcases hinvokes with ⟨fn', hfn', hfunction, -⟩
      rw [hid, (store.identified name fn hfn version hversion).1] at hfn'
      have hsame : fn' = fn := some.inj (hfn'.symm.trans hfn)
      rw [hfunction, hsame, bind_some, hid] at hconfig
      have hle := live_ofVersion_le hp version.id
      rw [hconfig]
      rw [Caller.qualifiedArn, hid] at hlt
      exact Int.ofNat_lt.mp (lt_of_le_of_lt hle hlt)
    · have hle : live ⟨s', p.threads.set n c'⟩ .onDemand unreserved ≤ limit - store.committed := by
        refine live_act_le hget (by have := hp.total; omega) fun hholds hunreserved => ?_
        rcases Caller.next_takes_onDemand hnext hholds with ⟨available, havailable, hpos⟩
        rw [unreserved, hinvocation] at hunreserved
        exact total_of_takes hp hunreserved havailable hpos
      have htotal := hp.total
      omega

/-- From the first call on, whatever callers of functions of the account enter
    and leave and however their sections are interleaved, the counters agree
    with the live leases and the limits are kept. -/
theorem leases_accounted (store : LambdaStore) (limit : Nat) (hlimit : store.committed ≤ limit)
    (labels : List (Pool.Label Caller Unit)) (p : Leases)
    (hrun : Runs (Takes (Leases.step store limit)) initial labels p)
    (hcalls : ∀ c, .spawn c ∈ labels → ∃ invocation, store.Invokes invocation ∧
      c = Caller.enter invocation) : p.Accounted store limit := by
  have hsound : p.Sound store limit := by
    refine hrun.invariant_of (P := Sound store limit) (C := fun label => ∀ c, label = .spawn c →
      ∃ invocation, store.Invokes invocation ∧ c = Caller.enter invocation)
      (fun p label q hlabel hp hstep => step_sound p _ q hlabel hp hstep)
      (fun label hmem c hc => hcalls c (hc ▸ hmem)) ?_
    refine ⟨fun c hc => absurd hc not_mem_nil, fun kind _ scope => ?_, ?_, ?_, ?_⟩
    · cases kind <;> rfl
    · exact fun _ _ _ _ _ => Nat.zero_le _
    · exact fun _ _ _ _ _ => Nat.zero_le _
    · exact hlimit
  refine ⟨fun scope => hsound.counts .onDemand (by simp) _,
    fun scope => hsound.counts .provisionedConcurrency (by simp) _, hsound.reserved,
    hsound.versions, hsound.total, fun c hc error herror => ?_⟩
  by_contra htype
  rcases (hsound.callers c hc).1.typed htype with h | h
  · simp [herror] at h
  · simp [herror] at h

def exampleFunction : Function where
  functionName := "resize"
  aliases := Dict.empty
  versions := ⟨[("$LATEST", ⟨⟨"resize", "$LATEST", "us-east-1", "000000000000"⟩⟩)], by decide⟩
  reservedConcurrentExecutions := some 1
  provisionedConcurrencyConfigs := Dict.empty

def exampleStore : LambdaStore where
  account := "000000000000"
  region := "us-east-1"
  functions := ⟨[("resize", exampleFunction)], by decide⟩
  named := by
    intro name fn h
    have hmem := (Dict.get?_eq_some_iff _ _ _).mp h
    rcases List.mem_singleton.mp hmem with h
    cases h
    rfl
  identified := by
    intro name fn h version hversion
    have hmem := (Dict.get?_eq_some_iff _ _ _).mp h
    rcases List.mem_singleton.mp hmem with h
    cases h
    rcases List.mem_singleton.mp hversion with rfl
    exact ⟨rfl, rfl, rfl⟩

def exampleInvocation : Invocation :=
  ⟨some exampleFunction, ⟨⟨"resize", "$LATEST", "us-east-1", "000000000000"⟩⟩, none⟩

def exampleCalls : List (Pool.Label Caller Unit) :=
  [.spawn (.enter exampleInvocation), .spawn (.enter exampleInvocation), .act 0 (), .act 1 (),
    .act 0 (), .act 1 (), .act 0 (), .act 0 (), .act 0 (), .act 1 (), .act 0 (), .act 1 (),
    .act 1 ()]

theorem leases_accounted_of_exampleCalls : ∃ p,
    Runs (Takes (Leases.step exampleStore 1000)) initial exampleCalls p ∧
      p.threads.map Caller.control = [.leased, .raised rateExceeded] ∧
      p.Accounted exampleStore 1000 := by
  have hrun := Runs.of_takeAll (f := Leases.step exampleStore 1000) exampleCalls initial _ rfl
  refine ⟨_, hrun, by decide, leases_accounted _ 1000 (by decide) _ _ hrun ?_⟩
  intro c hc
  have hc : c = Caller.enter exampleInvocation := by simpa [exampleCalls] using hc
  exact ⟨exampleInvocation, ⟨exampleFunction, rfl, rfl, mem_singleton.mpr rfl⟩, hc⟩

end Leases

end LocalEmu.Lambda
