import LocalEmu.Theory.Lambda.Leases

/-!
# Provisioned Concurrency Behind An Alias

The provisioned concurrency of a version is configured under the version itself
or under one of the aliases that point to it. The counting service looks under
the version and then under the first alias that points to it, whichever that is:
it stops there also if the configuration is under another alias. So a caller
gets the lease that is free exactly if the configuration is found first.
-/

namespace LocalEmu.Lambda

open List Option

namespace Function

variable (fn : Function)

/-- The aliases that point to a version, in the order of the dictionary. -/
def aliasesOf (v : String) : List VersionAlias :=
  fn.aliases.values.filter fun versionAlias => versionAlias.functionVersion = v

/-- The names under which the provisioned concurrency of a version may be configured. -/
def namesOf (v : String) : List String :=
  v :: (fn.aliasesOf v).map VersionAlias.name

/-- The version has exactly one configuration. It is under the name `q`. -/
structure ConfiguredOnce (fn : Function) (v q : String) (n : Nat) : Prop where
  named : q ∈ fn.namesOf v
  config : fn.provisionedConcurrencyConfigs.get? q = some n
  only : ∀ name ∈ fn.namesOf v, name ≠ q → fn.provisionedConcurrencyConfigs.get? name = none

/-- The name is the version, or its first alias has it. -/
def FoundFirst (v q : String) : Prop :=
  q = v ∨ (fn.aliasesOf v).head?.map VersionAlias.name = some q

theorem find?_aliases (v : String) :
    (fn.aliases.values.find? fun versionAlias => versionAlias.functionVersion = v) =
      (fn.aliasesOf v).head? := by
  rw [aliasesOf, head?_filter]

/-- What the search finds. -/
theorem provisionedConcurrencyConfig_of_once {fn : Function} {v q : String} {n : Nat}
    (h : fn.ConfiguredOnce v q n) :
    (fn.FoundFirst v q → fn.provisionedConcurrencyConfig v = some n) ∧
      (¬ fn.FoundFirst v q → fn.provisionedConcurrencyConfig v = none) := by
  rw [provisionedConcurrencyConfig, find?_aliases]
  by_cases hv : q = v
  · refine ⟨fun _ => ?_, fun hfound => absurd (.inl hv) hfound⟩
    rw [← hv, h.config]
  · -- There is nothing under the version, so that the first alias decides.
    have hnone : fn.provisionedConcurrencyConfigs.get? v = none :=
      h.only v mem_cons_self fun heq => hv heq.symm
    rw [hnone]
    cases hhead : (fn.aliasesOf v).head? with
    | none =>
      refine ⟨fun hfound => ?_, fun _ => rfl⟩
      rcases hfound with heq | heq
      · exact absurd heq hv
      · rw [hhead] at heq
        cases heq
    | some first =>
      have hfirst : first.name ∈ fn.namesOf v :=
        mem_cons_of_mem v (mem_map_of_mem (mem_of_head? hhead))
      have hiff : fn.FoundFirst v q ↔ first.name = q := by
        rw [FoundFirst, hhead]
        simp [hv]
      refine ⟨fun hfound => ?_, fun hfound => ?_⟩
      · have hget := h.config
        rw [← hiff.mp hfound] at hget
        exact hget
      · exact h.only _ hfirst fun heq => hfound (hiff.mpr heq)

end Function

namespace Leases

variable {store : LambdaStore} {limit : Nat}

/-- The live provisioned leases of a version. -/
def provisionedOf (p : Leases) (id : VersionIdentifier) : Nat :=
  p.threads.countP (Caller.holdsIn .provisionedConcurrency id.qualifiedArn)

/-- The counter of a version is right at every moment. -/
theorem counts_provisioned {labels : List (Pool.Label Caller Unit)} {p : Leases}
    (hrun : Runs (Takes (Leases.step store limit)) initial labels p)
    (hcalls : ∀ c, .spawn c ∈ labels → ∃ invocation, c = Caller.enter invocation)
    (id : VersionIdentifier) :
    p.shared.provisionedTracker.count id.qualifiedArn = (p.provisionedOf id : Int) := by
  have hinv : (∀ c ∈ p.threads, c.Ok) ∧
      p.shared.count .provisionedConcurrency id.qualifiedArn = p.provisionedOf id := by
    refine hrun.invariant_of
      (P := fun p : Leases => (∀ c ∈ p.threads, c.Ok) ∧
        p.shared.count .provisionedConcurrency id.qualifiedArn = p.provisionedOf id)
      (C := fun label => ∀ c, label = .spawn c → ∃ invocation, c = Caller.enter invocation)
      ?_ (fun label hmem c hc => hcalls c (hc ▸ hmem))
      ⟨fun c hc => absurd hc not_mem_nil, rfl⟩
    intro p label q hlabel hp hstep
    rcases Pool.step_cases hstep with ⟨c, hspawn, rfl⟩ | ⟨k, i, c, s', c', -, hget, hnext, rfl⟩
    · rcases hlabel c hspawn with ⟨invocation, rfl⟩
      refine ⟨fun c hc => ?_, ?_⟩
      · rcases mem_append.mp hc with hc | hc
        · exact hp.1 c hc
        · rw [mem_singleton.mp hc]
          exact Caller.enter_ok _
      · rw [provisionedOf, Pool.count_spawn]
        exact hp.2
    · have hok := hp.1 c (mem_of_getElem? hget)
      refine ⟨fun d hd => ?_, ?_⟩
      · rcases Pool.mem_set hd with rfl | hd
        · exact Caller.next_ok hok hnext
        · exact hp.1 d hd
      · have hcount := Caller.next_count hok hnext .provisionedConcurrency (by simp)
          id.qualifiedArn
        have hact := Pool.count_act
          (Caller.holdsIn .provisionedConcurrency id.qualifiedArn) _ k c c' hget
        rw [hp.2] at hcount
        rw [provisionedOf] at hcount ⊢
        dsimp only
        omega
  exact hinv.2

/-- In every run, whatever the functions and however the callers are interleaved: a caller of a
    version with one configuration, which is ready, is in the section that looks for provisioned
    concurrency, and fewer leases of the version are live than configured. It gets one exactly if
    the configuration is found first; otherwise it goes on without. -/
theorem provisioned_iff (store : LambdaStore) (limit : Nat)
    (labels : List (Pool.Label Caller Unit)) (p : Leases)
    (hrun : Runs (Takes (Leases.step store limit)) initial labels p)
    (hcalls : ∀ c, .spawn c ∈ labels → ∃ invocation, c = Caller.enter invocation)
    (fn : Function) (version : FunctionVersion) (q : String) (n : Nat)
    (honce : fn.ConfiguredOnce version.id.qualifier q n) (k : Nat) (c : Caller)
    (hget : p.threads[k]? = some c)
    (hinvocation : c.invocation = ⟨some fn, version, some .ready⟩)
    (hcontrol : c.control = .checkProvisioned) (hfree : p.provisionedOf version.id < n) :
    ∃ p' c', Takes (Leases.step store limit) p (.act k ()) p' ∧ p'.threads[k]? = some c' ∧
      (c'.control = .leased ∧ c'.leaseType = some .provisionedConcurrency ↔
        fn.FoundFirst version.id.qualifier q) ∧
      (c'.control = .checkOnDemand ↔ ¬ fn.FoundFirst version.id.qualifier q) := by
  have hlt : k < p.threads.length := (List.getElem?_eq_some_iff.mp hget).1
  have harn : c.qualifiedArn = version.id.qualifiedArn := by rw [Caller.qualifiedArn, hinvocation]
  have hcount := counts_provisioned hrun hcalls version.id
  have hsearch := Function.provisionedConcurrencyConfig_of_once honce
  have hstep : Takes (Leases.step store limit) p (.act k ())
      ⟨{ p.shared with provisioned := some (c.checkProvisioned p.shared.provisionedTracker).1 },
        p.threads.set k (c.checkProvisioned p.shared.provisionedTracker).2⟩ := by
    simp only [Takes, Pool.step, hget, bind_some, Caller.next, hcontrol, map_some]
  refine ⟨_, (c.checkProvisioned p.shared.provisionedTracker).2, hstep, getElem?_set_self hlt, ?_⟩
  by_cases hfound : fn.FoundFirst version.id.qualifier q
  · have hpos : 0 < (n : Int) - p.shared.provisionedTracker.count c.qualifiedArn := by
      rw [harn]
      omega
    rw [Caller.checkProvisioned]
    simp only [hinvocation, bind_some, hsearch.1 hfound, hpos, and_self, if_true]
    simp [hfound]
  · rw [Caller.checkProvisioned]
    simp only [hinvocation, bind_some, hsearch.2 hfound]
    simp [hfound]

variable (configured : String)

/-- A version with two aliases, of which the given one is configured for one execution. -/
def aliasedFunction : Function where
  functionName := "resize"
  aliases := ⟨[("blue", ⟨"1", "blue"⟩), ("green", ⟨"1", "green"⟩)], by decide⟩
  versions := ⟨[("1", ⟨⟨"resize", "1", "us-east-1", "000000000000"⟩⟩)], by decide⟩
  reservedConcurrentExecutions := none
  provisionedConcurrencyConfigs := ⟨[(configured, 1)], by simp⟩

def aliasedInvocation : Invocation :=
  ⟨some (aliasedFunction configured), ⟨⟨"resize", "1", "us-east-1", "000000000000"⟩⟩, some .ready⟩

/-- A caller invokes it and comes to the section. -/
def aliasedCall : List (Pool.Label Caller Unit) :=
  [.spawn (.enter (aliasedInvocation configured)), .act 0 (), .act 0 (), .act 0 (), .act 0 ()]

theorem configuredOnce_aliased (h : configured = "blue" ∨ configured = "green") :
    (aliasedFunction configured).ConfiguredOnce "1" configured 1 := by
  rcases h with rfl | rfl
  · exact ⟨by decide, by decide, by decide⟩
  · exact ⟨by decide, by decide, by decide⟩

theorem provisioned_of_first_alias : ∃ p p' c',
    Runs (Takes (Leases.step exampleStore 1000)) initial (aliasedCall "blue") p ∧
      Takes (Leases.step exampleStore 1000) p (.act 0 ()) p' ∧ p'.threads[0]? = some c' ∧
      c'.control = .leased ∧ c'.leaseType = some .provisionedConcurrency := by
  have hrun := Runs.of_takeAll (f := Leases.step exampleStore 1000) (aliasedCall "blue") initial _
    rfl
  rcases provisioned_iff _ 1000 _ _ hrun
    (fun c hc => ⟨aliasedInvocation "blue", by simpa [aliasedCall] using hc⟩)
    _ ⟨⟨"resize", "1", "us-east-1", "000000000000"⟩⟩ "blue" 1
    (configuredOnce_aliased "blue" (.inl rfl)) 0 _ rfl rfl rfl (by decide) with
    ⟨p', c', hstep, hget, hiff, -⟩
  exact ⟨_, p', c', hrun, hstep, hget, hiff.mpr (.inr (by decide))⟩

/-- The second alias is configured, no lease is live, and the caller gets none. -/
theorem second_alias_ignored : ∃ p p' c',
    Runs (Takes (Leases.step exampleStore 1000)) initial (aliasedCall "green") p ∧
      (aliasedFunction "green").ConfiguredOnce "1" "green" 1 ∧
      p.provisionedOf ⟨"resize", "1", "us-east-1", "000000000000"⟩ = 0 ∧
      Takes (Leases.step exampleStore 1000) p (.act 0 ()) p' ∧ p'.threads[0]? = some c' ∧
      c'.control = .checkOnDemand ∧ c'.leaseType = none :=
  ⟨_, _, _, Runs.of_takeAll (f := Leases.step exampleStore 1000) _ _ _ rfl,
    configuredOnce_aliased "green" (.inr rfl), by decide, rfl, rfl, by decide, by decide⟩

end Leases

end LocalEmu.Lambda
