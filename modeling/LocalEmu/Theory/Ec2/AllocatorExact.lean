import LocalEmu.Theory.Ec2.AllocatorReload

/-!
# The Allocator's Bookkeeping is Exact

Sequences of operations on an empty allocator, where the networks of the
registered subnets do not overlap and have room for sixteen addresses. An
operation either leaves the allocator as it is, or replaces one pool as
`Change` says, or reloads it; so the tables agree after every sequence.

`Exactness` collects what this means for callers: where an address can be
allocated, what the index and `lookup` say, what `reserve` returns and when it
gives up, that an operation that raises has done nothing, and that a reloaded
allocator can not be told apart from the one that was saved.

The reserved addresses are those of the AWS network and the first host of the
Docker network. Where the two differ, the ends of the Docker network are not among
them, and a search goes up to the last address.
-/

namespace LocalEmu.Ec2

open LocalEmu.Action

/-- The operations of the allocator, and a reload from its own snapshot. -/
inductive AllocatorOperation
  | registerSubnet (vpcId subnetId : String) (awsNet dockerNet : IPv4Network) (az : String)
  | unregisterSubnet (vpcId subnetId : String)
  | forceUnregisterSubnet (vpcId subnetId : String)
  | reserve (vpcId subnetId ownerKey : String) (requested : Option IPv4Address)
  | release (addr : IPv4Address)
  | claim (vpcId subnetId : String) (addr : IPv4Address) (ownerKey : String)
  | lookup (addr : IPv4Address)
  | reload

/-- What an operation returns. -/
inductive AllocatorReply
  | done
  | count (n : Nat)
  | address (ip : IPv4Address)
  | found (entry : Option (String × String × String))

namespace SubnetAllocator

/-- An operation as an action. -/
def perform : AllocatorOperation → AllocatorAction AllocatorReply
  | .registerSubnet vpcId subnetId awsNet dockerNet az => do
      registerSubnet vpcId subnetId awsNet dockerNet az
      pure .done
  | .unregisterSubnet vpcId subnetId => do
      unregisterSubnet vpcId subnetId
      pure .done
  | .forceUnregisterSubnet vpcId subnetId => do
      let n ← forceUnregisterSubnet vpcId subnetId
      pure (.count n)
  | .reserve vpcId subnetId ownerKey requested => do
      let ip ← reserve vpcId subnetId ownerKey requested
      pure (.address ip)
  | .release addr => do
      release addr
      pure .done
  | .claim vpcId subnetId addr ownerKey => do
      claim vpcId subnetId addr ownerKey
      pure .done
  | .lookup addr => do
      let s ← get
      pure (.found (s.lookup addr))
  | .reload => do
      let s ← get
      fromDict (toDict s)
      pure .done

/-- The state after an operation, and its reply. -/
def act (s : SubnetAllocator) (op : AllocatorOperation) :
    SubnetAllocator × Except AllocatorError AllocatorReply :=
  ((exec (perform op) s).2, (exec (perform op) s).1)

/-- A new subnet has a network of sixteen addresses or more, apart from the
    networks that are registered. -/
def Admissible (s : SubnetAllocator) : AllocatorOperation → Prop
  | .registerSubnet vpcId subnetId _ dockerNet _ =>
    s.pools.get? (vpcId, subnetId) = none →
      dockerNet.prefixlen ≤ 28 ∧
        ∀ key pool, s.pools.get? key = some pool → pool.dockerCidr.Disjoint dockerNet
  | _ => True

/-! ### What an operation does -/

/-- An operation leaves the state as it is, or it succeeds and changes one pool
    or nothing that can be looked up. -/
def Effect {α : Type} (s : SubnetAllocator) (r : Except AllocatorError α × SubnetAllocator) :
    Prop :=
  r.2 = s ∨ ∃ a, r.1 = .ok a ∧ (Same s r.2 ∨ ∃ key new, Change s r.2 key new)

theorem Effect.unchanged {α : Type} {s : SubnetAllocator} {r : Except AllocatorError α} :
    Effect s (r, s) := .inl rfl

theorem Effect.changed {α : Type} {s s' : SubnetAllocator} {a : α} {key : PoolKey}
    {new : Option SubnetPool} (h : Change s s' key new) : Effect s (.ok a, s') :=
  .inr ⟨a, rfl, .inr ⟨key, new, h⟩⟩

theorem Effect.map {α β : Type} {s : SubnetAllocator} (m : AllocatorAction α) (f : α → β)
    (h : Effect s (exec m s)) :
    Effect s (exec (m >>= fun a => pure (f a)) s) := by
  rcases hm : exec m s with ⟨e | a, t⟩
  · rw [hm] at h
    rw [Action.exec_bind_of_error m _ s t e hm]
    rcases h with h | ⟨a, ha, _⟩
    · exact .inl h
    · cases ha
  · rw [hm] at h
    rw [Action.exec_bind_of_ok m _ s t a hm]
    rcases h with h | ⟨_, _, h⟩
    · exact .inl h
    · exact .inr ⟨f a, rfl, h⟩

theorem get?_forgetWhere (index : Dict IPv4Address PoolKey) (key : PoolKey) (ip : IPv4Address) :
    ((index.entries.filter fun e => decide (e.2 = key)).foldl
      (fun d e => d.erase e.1) index).get? ip =
      if index.get? ip = some key then none else index.get? ip := by
  rw [← List.foldl_map (f := Prod.fst) (g := fun d ip => Dict.erase d ip), Dict.get?_foldl_erase]
  refine if_congr ?_ rfl rfl
  rw [Dict.get?_eq_some_iff]
  simp [List.mem_filter]

section Effects

variable {s : SubnetAllocator} (hs : Exact s) (vpcId subnetId : String)

theorem unregisterSubnet_effect :
    Effect s (exec (unregisterSubnet vpcId subnetId) s) := by
  rw [unregisterSubnet, exec_get_bind]
  rcases hget : s.pools.get? (vpcId, subnetId) with _ | pool
  · exact Effect.unchanged
  · simp only
    split
    · exact Effect.unchanged
    · exact Effect.changed (Change.of_removed (vpcId, subnetId) rfl
        fun ip => get?_forgetWhere _ (vpcId, subnetId) ip)

theorem exec_setHint (key : PoolKey) (hint : IPv4Address) (s : SubnetAllocator)
    (pool : SubnetPool) (h : s.pools.get? key = some pool) :
    exec (setHint key hint) s =
      (.ok ⟨⟩, { s with pools := s.pools.set key { pool with nextHint := some hint } }) := by
  rw [setHint, exec_get_bind, h]
  rfl

include hs

theorem registerSubnet_effect (awsNet dockerNet : IPv4Network) (az : String)
    (hok : Admissible s (.registerSubnet vpcId subnetId awsNet dockerNet az)) :
    Effect s (exec (registerSubnet vpcId subnetId awsNet dockerNet az)
      s) := by
  rw [registerSubnet, exec_get_bind]
  rcases hget : s.pools.get? (vpcId, subnetId) with _ | existing
  · rcases hok hget with ⟨hsize, hapart⟩
    rcases hreserved : computeReserved awsNet dockerNet with e | reserved
    · exact Effect.unchanged
    · exact Effect.changed (Change.of_added hs (vpcId, subnetId) _ hget rfl hsize hapart rfl
        rfl rfl)
  · simp only
    split
    · exact Effect.unchanged
    · exact Effect.unchanged

theorem forceUnregisterSubnet_effect :
    Effect s (exec (forceUnregisterSubnet vpcId subnetId) s) := by
  rw [forceUnregisterSubnet, exec_get_bind]
  rcases hget : s.pools.get? (vpcId, subnetId) with _ | pool
  · exact Effect.unchanged
  · refine Effect.changed (Change.of_removed (vpcId, subnetId) rfl fun ip => ?_)
    refine (Dict.get?_foldl_erase _ _ _).trans (if_congr ?_ rfl rfl)
    -- The addresses of the pool are those the index has for it.
    rw [mem_keys_allocated, hs.index_iff_holds, hget]
    simp [Holds]

/-- What a reservation does: it raises, and then an exhausted pool has no free
    host, or it allocates a free address of the network. -/
theorem reserve_cases (ownerKey : String) (requested : Option IPv4Address) :
    (∃ e, exec (reserve vpcId subnetId ownerKey requested) s =
      (.error e, s) ∧ ∀ message, requested = none → e = .insufficientFreeAddressesInSubnet message →
        ∀ pool, s.pools.get? (vpcId, subnetId) = some pool →
          ∀ ip ∈ pool.dockerCidr.hosts, isFree pool ip = false) ∨
    ∃ pool ip hint s', exec (reserve vpcId subnetId ownerKey requested) s =
      (.ok ip, s') ∧ s.pools.get? (vpcId, subnetId) = some pool ∧ isFree pool ip = true ∧
      pool.dockerCidr.contains ip = true ∧
      (∀ k, s'.pools.get? k = if k = (vpcId, subnetId) then
        some { pool with allocated := pool.allocated.set ip ownerKey, nextHint := hint }
        else s.pools.get? k) ∧
      s'.ipIndex = s.ipIndex.set ip (vpcId, subnetId) := by
  rw [reserve, exec_get_bind]
  rcases hget : s.pools.get? (vpcId, subnetId) with _ | pool
  · exact .inl ⟨_, rfl, fun _ _ h => absurd h (by simp [notRegistered])⟩
  have hsize := hs.sized _ _ hget
  rcases requested with _ | ip
  · rcases orNextHost_ok _ hsize _ with ⟨start, hstart⟩
    rw [Action.exec_ofExcept_bind_ok _ _ _ s hstart]
    rcases hfind : firstFreeAfter pool start with e | ip
    · -- Only the last address of all raises here, and not this exception.
      refine .inl ⟨e, rfl, fun message _ he => absurd he ?_⟩
      exact firstFreeAfter_error _ hsize _ e hfind _
    · rw [Action.exec_ofExcept_bind_ok _ ip _ s rfl]
      rcases ip with _ | ip
      · refine .inl ⟨_, rfl, fun message _ _ pool' hpool' ip hip => ?_⟩
        rw [← Option.some.inj hpool'] at hip ⊢
        exact firstFreeAfter_none _ hsize _ hfind ip hip
      · rcases firstFreeAfter_some _ hsize _ ip hfind with ⟨hfree, hin⟩
        rcases orNextHost_ok _ hsize _ with ⟨next, hnext⟩
        rw [Action.exec_bind_of_ok (allocate (vpcId, subnetId) pool ip ownerKey) _ s _ ⟨⟩ rfl,
          exec_ofExcept_bind_ok _ _ _ _ hnext,
          exec_bind_of_ok _ _ _ _ ⟨⟩ (exec_setHint _ _ _ _ (by
            rw [Dict.get?_set, if_pos rfl]))]
        refine .inr ⟨pool, ip, some next, _, rfl, rfl, hfree, hin, fun k => ?_, rfl⟩
        rw [Dict.get?_set, Dict.get?_set]
        by_cases hk : k = (vpcId, subnetId)
        · rw [if_pos hk, if_pos hk]
        · rw [if_neg hk, if_neg hk, if_neg hk]
  · simp only
    by_cases hin : pool.dockerCidr.contains ip = true
    · rw [if_neg (not_not_intro hin)]
      by_cases hres : ip ∈ pool.reserved
      · rw [if_pos hres]
        exact .inl ⟨_, rfl, fun _ h => absurd h (by simp)⟩
      · rw [if_neg hres]
        rcases hheld : pool.allocated.get? ip with _ | owner
        · refine .inr ⟨pool, ip, pool.nextHint, _, rfl, rfl, ?_, hin, fun k => ?_, rfl⟩
          · simp [isFree, hres, hheld]
          · exact Dict.get?_set _ _ _ _
        · exact .inl ⟨_, rfl, fun _ h => absurd h (by simp)⟩
    · rw [if_pos hin]
      exact .inl ⟨_, rfl, fun _ h => absurd h (by simp)⟩

theorem reserve_effect (ownerKey : String) (requested : Option IPv4Address) :
    Effect s (exec (reserve vpcId subnetId ownerKey requested) s) := by
  rcases reserve_cases hs _ _ _ _ with
    ⟨e, hexec, _⟩ | ⟨pool, ip, hint, s', hexec, hget, _, hin, hpools, hindex⟩
  · rw [hexec]
    exact Effect.unchanged
  · rw [hexec]
    exact Effect.changed (Change.of_allocated hs (vpcId, subnetId) _ hget ip _ hint hin
      hpools hindex)

theorem release_effect (addr : IPv4Address) : Effect s (exec (release addr) s) := by
  rw [release, exec_get_bind]
  rcases hindex : s.ipIndex.get? addr with _ | key
  · exact Effect.unchanged
  · rcases (hs.indexed _ _).mp hindex with ⟨owner, pool, hget, _⟩
    simp only [hget]
    exact Effect.changed (Change.of_released hs _ _ hget _ rfl rfl hindex)

theorem claim_effect (addr : IPv4Address) (ownerKey : String) :
    Effect s (exec (claim vpcId subnetId addr ownerKey) s) := by
  rw [claim, exec_get_bind]
  rcases hget : s.pools.get? (vpcId, subnetId) with _ | pool
  · exact Effect.unchanged
  by_cases hin : pool.dockerCidr.contains addr = true
  · have hchange : Change s ⟨s.pools.set (vpcId, subnetId)
        { pool with allocated := pool.allocated.set addr ownerKey },
        s.ipIndex.set addr (vpcId, subnetId)⟩ (vpcId, subnetId) _ :=
      Change.of_allocated hs (vpcId, subnetId) _ hget _ _ _ hin
        (fun k => Dict.get?_set _ _ _ _) rfl
    simp only [hin, not_true_eq_false, if_false]
    rcases pool.allocated.get? addr with _ | existing
    · exact Effect.changed hchange
    · simp only
      split
      · exact Effect.unchanged
      · exact Effect.changed hchange
  · simp only [hin, Bool.false_eq_true, not_false_eq_true, if_true]
    exact Effect.unchanged

/-- What an operation does. -/
theorem act_effect (op : AllocatorOperation) (hok : Admissible s op) :
    Effect s ((act s op).2, (act s op).1) := by
  cases op with
  | registerSubnet vpcId subnetId awsNet dockerNet az =>
    exact Effect.map _ _ (registerSubnet_effect hs _ _ _ _ az hok)
  | unregisterSubnet =>
    exact Effect.map _ _ (unregisterSubnet_effect _ _)
  | forceUnregisterSubnet =>
    exact Effect.map _ _ (forceUnregisterSubnet_effect hs _ _)
  | reserve =>
    exact Effect.map _ _ (reserve_effect hs _ _ _ _)
  | release => exact Effect.map _ _ (release_effect hs _)
  | claim =>
    exact Effect.map _ _ (claim_effect hs _ _ _ _)
  | lookup => exact Effect.unchanged
  | reload =>
    rcases fromDict_toDict s hs s with ⟨t, hexec, hsame⟩
    have hact : exec (perform .reload) s = (.ok .done, t) := by
      rw [perform, exec_get_bind, exec_bind_of_ok _ _ s t ⟨⟩ hexec]
      rfl
    rw [act, hact]
    exact .inr ⟨.done, rfl, .inl hsame.symm⟩

end Effects

theorem act_exact (s : SubnetAllocator) (op : AllocatorOperation) (hs : Exact s)
    (hok : Admissible s op) : Exact (act s op).1 := by
  rcases act_effect hs op hok with heq | ⟨_, _, hsame | ⟨_, _, hchange⟩⟩
  · have hstate : (act s op).1 = s := heq
    rw [hstate]
    exact hs
  · exact hsame.exact hs
  · exact hchange.exact hs

variable (ops : List AllocatorOperation)

/-- The tables agree after every sequence. -/
theorem run_exact (s : SubnetAllocator) (hs : Exact s)
    (hops : Driven Admissible act s ops) : Exact (drive act s ops).1 := by
  induction ops generalizing s with
  | nil => exact hs
  | cons op ops ih => exact ih (act s op).1 (act_exact s op hs hops.1) hops.2

/-! ### Operations on allocators with the same lookups -/

/-- The action can not tell allocators with the same lookups apart. -/
def Respects {α : Type} (m : AllocatorAction α) : Prop := Agree Same m m

variable (key : PoolKey)

theorem agree_setPool (pool : SubnetPool) : Respects (setPool key pool) :=
  Agree.of_modify _ _ fun _ _ h => ⟨by simp only [h.pools], h.index⟩

theorem agree_registerSubnet (vpcId subnetId : String) (awsNet dockerNet : IPv4Network)
    (az : String) :
    Respects (registerSubnet vpcId subnetId awsNet dockerNet az) := by
  refine Agree.of_get _ _ fun s t h => ?_
  rw [h.pools]
  rcases t.pools.get? (vpcId, subnetId) with _ | existing
  · exact Agree.of_bind _ _ _ _ (Agree.of_ofExcept _) fun _ => agree_setPool _ _
  · simp only
    split
    · exact Agree.of_throw _
    · exact Agree.of_pure _

theorem agree_erasePool :
    Respects (modify fun s => { s with pools := s.pools.erase key } : AllocatorAction PUnit) :=
  Agree.of_modify _ _ fun _ _ h => ⟨by simp only [h.pools], h.index⟩

theorem agree_unregisterSubnet (vpcId subnetId : String) :
    Respects (unregisterSubnet vpcId subnetId) := by
  refine Agree.of_get _ _ fun s t h => ?_
  rw [h.pools]
  rcases t.pools.get? (vpcId, subnetId) with _ | pool
  · exact Agree.of_pure _
  · simp only
    split
    · exact Agree.of_throw _
    · refine Agree.of_bind _ _ _ _ (agree_erasePool _) fun _ => ?_
      refine Agree.of_modify _ _ fun s t h => ⟨h.pools, fun ip => ?_⟩
      refine (get?_forgetWhere _ _ ip).trans ((?_ : _ = _).trans (get?_forgetWhere _ _ ip).symm)
      rw [h.index]

theorem agree_forceUnregisterSubnet (vpcId subnetId : String) :
    Respects (forceUnregisterSubnet vpcId subnetId) := by
  refine Agree.of_get _ _ fun s t h => ?_
  rw [h.pools]
  rcases t.pools.get? (vpcId, subnetId) with _ | pool
  · exact Agree.of_pure _
  · refine Agree.of_bind _ _ _ _ (agree_erasePool _) fun _ => ?_
    refine Agree.of_bind _ _ _ _ ?_ fun _ => Agree.of_pure _
    refine Agree.of_modify _ _ fun s t h => ⟨h.pools, fun ip => ?_⟩
    rw [Dict.get?_foldl_erase, Dict.get?_foldl_erase, h.index]

theorem agree_allocate (pool : SubnetPool) (ip : IPv4Address) (ownerKey : String) :
    Respects (allocate key pool ip ownerKey) := by
  refine Agree.of_bind _ _ _ _ (agree_setPool _ _) fun _ => ?_
  refine Agree.of_modify _ _ fun s t h => ⟨h.pools, fun a => ?_⟩
  rw [Dict.get?_set, Dict.get?_set, h.index]

theorem agree_setHint (hint : IPv4Address) : Respects (setHint key hint) := by
  refine Agree.of_get _ _ fun s t h => ?_
  rw [h.pools]
  rcases t.pools.get? key with _ | pool
  · exact Agree.of_pure _
  · exact agree_setPool _ _

theorem agree_reserve (vpcId subnetId ownerKey : String) (requested : Option IPv4Address) :
    Respects (reserve vpcId subnetId ownerKey requested) := by
  refine Agree.of_get _ _ fun s t h => ?_
  rw [h.pools]
  rcases t.pools.get? (vpcId, subnetId) with _ | pool
  · exact Agree.of_throw _
  rcases requested with _ | ip
  · refine Agree.of_bind _ _ _ _ (Agree.of_ofExcept _) fun _ => ?_
    refine Agree.of_bind _ _ _ _ (Agree.of_ofExcept _) fun found => ?_
    rcases found with _ | ip
    · exact Agree.of_throw _
    · refine Agree.of_bind _ _ _ _ (agree_allocate _ _ _ _) fun _ => ?_
      refine Agree.of_bind _ _ _ _ (Agree.of_ofExcept _) fun _ => ?_
      exact Agree.of_bind _ _ _ _ (agree_setHint _ _) fun _ => Agree.of_pure _
  · simp only
    split
    · exact Agree.of_throw _
    · split
      · exact Agree.of_throw _
      · rcases pool.allocated.get? ip with _ | owner
        · exact Agree.of_bind _ _ _ _ (agree_allocate _ _ _ _) fun _ =>
            Agree.of_pure _
        · exact Agree.of_throw _

theorem agree_release (addr : IPv4Address) : Respects (release addr) := by
  refine Agree.of_get _ _ fun s t h => ?_
  rw [h.pools, h.index]
  rcases t.ipIndex.get? addr with _ | key
  · exact Agree.of_pure _
  · refine Agree.of_bind _ _ _ _ ?_ fun _ => ?_
    · refine Agree.of_modify _ _ fun s t h => ⟨h.pools, fun a => ?_⟩
      rw [Dict.get?_erase, Dict.get?_erase, h.index]
    · rcases t.pools.get? key with _ | pool
      · exact Agree.of_pure _
      · exact agree_setPool _ _

theorem agree_claim (vpcId subnetId : String) (addr : IPv4Address) (ownerKey : String) :
    Respects (claim vpcId subnetId addr ownerKey) := by
  refine Agree.of_get _ _ fun s t h => ?_
  rw [h.pools]
  rcases t.pools.get? (vpcId, subnetId) with _ | pool
  · exact Agree.of_throw _
  simp only
  split
  · exact Agree.of_pure _
  · rcases pool.allocated.get? addr with _ | existing
    · exact agree_allocate _ _ _ _
    · simp only
      split
      · exact Agree.of_throw _
      · exact agree_allocate _ _ _ _

theorem Same.lookup {s t : SubnetAllocator} (h : Same s t) (addr : IPv4Address) :
    s.lookup addr = t.lookup addr := by
  simp only [SubnetAllocator.lookup, h.pools, h.index]

theorem agree_loadPools (entries : List PoolJson) : Respects (loadPools entries) := by
  induction entries with
  | nil => exact Agree.of_pure _
  | cons entry entries ih =>
    refine Agree.of_bind _ _ _ _ (Agree.of_ofExcept _) fun pool => ?_
    refine Agree.of_bind _ _ _ _ ?_ fun _ => ih
    refine Agree.of_bind _ _ _ _ (agree_setPool _ _) fun _ => ?_
    refine Agree.of_modify _ _ fun s t h => ⟨h.pools, fun ip => ?_⟩
    rw [Dict.get?_foldl_set, Dict.get?_foldl_set, h.index]

theorem agree_fromDict (data : AllocatorJson) : Respects (fromDict data) := by
  rw [fromDict]
  split
  · refine Agree.of_bind _ _ _ _ ?_ fun _ => agree_loadPools _
    exact fun _ _ _ => ⟨rfl, Same.refl _⟩
  · exact Agree.of_pure _

theorem agree_perform (op : AllocatorOperation) : Respects (perform op) := by
  cases op with
  | registerSubnet =>
    exact Agree.of_bind _ _ _ _ (agree_registerSubnet _ _ _ _ _) fun _ =>
      Agree.of_pure _
  | unregisterSubnet =>
    exact Agree.of_bind _ _ _ _ (agree_unregisterSubnet _ _) fun _ =>
      Agree.of_pure _
  | forceUnregisterSubnet =>
    exact Agree.of_bind _ _ _ _ (agree_forceUnregisterSubnet _ _) fun _ =>
      Agree.of_pure _
  | reserve =>
    exact Agree.of_bind _ _ _ _ (agree_reserve _ _ _ _) fun _ => Agree.of_pure _
  | release =>
    exact Agree.of_bind _ _ _ _ (agree_release _) fun _ => Agree.of_pure _
  | claim =>
    exact Agree.of_bind _ _ _ _ (agree_claim _ _ _ _) fun _ => Agree.of_pure _
  | lookup =>
    refine Agree.of_get _ _ fun s t h => ?_
    rw [h.lookup]
    exact Agree.of_pure _
  | reload =>
    refine Agree.of_get _ _ fun s t h => ?_
    have hdict : toDict s = toDict t := by simp only [toDict, h.pools]
    rw [hdict]
    exact Agree.of_bind _ _ _ _ (agree_fromDict _) fun _ => Agree.of_pure _

theorem drive_same (s t : SubnetAllocator) (h : Same s t) :
    (drive act s ops).2 = (drive act t ops).2 := by
  induction ops generalizing s t with
  | nil => rfl
  | cons op ops ih =>
    rcases agree_perform op s t h with ⟨hreply, hnext⟩
    exact congrArg₂ _ hreply (ih _ _ hnext)

/-! ### What callers get -/

theorem lookup_iff (s : SubnetAllocator) (hs : Exact s) (ip : IPv4Address)
    (vpcId subnetId owner : String) :
    s.lookup ip = some (vpcId, subnetId, owner) ↔ s.AllocatedIn ip (vpcId, subnetId) owner := by
  constructor
  · intro h
    rw [lookup] at h
    rcases hindex : s.ipIndex.get? ip with _ | key
    · rw [hindex] at h
      cases h
    · rcases (hs.indexed ip _).mp hindex with ⟨o, pool, hpool, ho⟩
      simp only [hindex, hpool, ho, Option.some.injEq, Prod.mk.injEq] at h
      rcases h with ⟨hvpc, hsubnet, howner⟩
      have hkey := hs.keyed _ _ hpool
      rw [hvpc, hsubnet] at hkey
      rw [← howner, ← hkey]
      exact ⟨pool, hpool, ho⟩
  · rintro ⟨pool, hpool, ho⟩
    have hindex := (hs.indexed ip (vpcId, subnetId)).mpr ⟨owner, pool, hpool, ho⟩
    have hkey := hs.keyed _ _ hpool
    rw [Prod.mk.injEq] at hkey
    simp only [lookup, hindex, hpool, ho, ← hkey.1, ← hkey.2]

/-- What holds of an allocator for its callers. -/
structure Exactness (s : SubnetAllocator) : Prop where
  /-- An address is allocated once. -/
  once : ∀ ip key key' owner owner', s.AllocatedIn ip key owner → s.AllocatedIn ip key' owner' →
    key = key' ∧ owner = owner'
  /-- It lies in the network of its pool. -/
  inside : ∀ ip key owner, s.AllocatedIn ip key owner →
    ∃ pool, s.pools.get? key = some pool ∧ pool.dockerCidr.contains ip = true
  /-- The index maps the allocated addresses to their pools. -/
  indexed : ∀ ip key, s.ipIndex.get? ip = some key ↔ ∃ owner, s.AllocatedIn ip key owner
  /-- `lookup` returns the owner of an allocated address. -/
  found : ∀ ip vpcId subnetId owner,
    (act s (.lookup ip)).2 = .ok (.found (some (vpcId, subnetId, owner))) ↔
      s.AllocatedIn ip (vpcId, subnetId) owner
  /-- `lookup` returns nothing for any other address. -/
  missing : ∀ ip, (act s (.lookup ip)).2 = .ok (.found none) ↔
    ∀ key owner, ¬ s.AllocatedIn ip key owner
  /-- `reserve` returns no allocated address. -/
  fresh : ∀ vpcId subnetId ownerKey requested ip,
    (act s (.reserve vpcId subnetId ownerKey requested)).2 = .ok (.address ip) →
      ∀ key owner, ¬ s.AllocatedIn ip key owner
  /-- The address that it returns is then allocated. -/
  reserved : ∀ vpcId subnetId ownerKey requested ip,
    (act s (.reserve vpcId subnetId ownerKey requested)).2 = .ok (.address ip) →
      (act s (.reserve vpcId subnetId ownerKey requested)).1.AllocatedIn ip (vpcId, subnetId)
        ownerKey
  /-- So is an address of the network that `claim` accepts. -/
  claimed : ∀ vpcId subnetId addr ownerKey pool, s.pools.get? (vpcId, subnetId) = some pool →
    pool.dockerCidr.contains addr = true →
      (act s (.claim vpcId subnetId addr ownerKey)).2 = .ok .done →
        (act s (.claim vpcId subnetId addr ownerKey)).1.AllocatedIn addr (vpcId, subnetId) ownerKey
  /-- `reserve` gives up when every host is reserved or allocated. -/
  exhausted : ∀ vpcId subnetId ownerKey message,
    (act s (.reserve vpcId subnetId ownerKey none)).2 =
      .error (.insufficientFreeAddressesInSubnet message) →
      ∀ pool, s.pools.get? (vpcId, subnetId) = some pool → ∀ ip ∈ pool.dockerCidr.hosts,
        ip ∈ pool.reserved ∨ ∃ owner, pool.allocated.get? ip = some owner
  /-- An operation that raises changes nothing. -/
  raising : ∀ op e, Admissible s op → (act s op).2 = .error e → (act s op).1 = s
  /-- A snapshot can be loaded into any allocator, which then has the same tables
      and gives the same replies. -/
  reloads : ∀ other, ∃ t, exec (fromDict (toDict s)) other = (.ok ⟨⟩, t) ∧
    t.pools = s.pools ∧ (∀ ip, t.ipIndex.get? ip = s.ipIndex.get? ip) ∧
    ∀ ops, (drive act t ops).2 = (drive act s ops).2

theorem act_reserve (s : SubnetAllocator) (vpcId subnetId ownerKey : String)
    (requested : Option IPv4Address) :
    act s (.reserve vpcId subnetId ownerKey requested) =
      ((exec (reserve vpcId subnetId ownerKey requested) s).2,
        (exec (reserve vpcId subnetId ownerKey requested) s).1.map AllocatorReply.address) := by
  rw [act, perform, exec_bind]
  rcases exec (reserve vpcId subnetId ownerKey requested) s with ⟨e | ip, t⟩
  · rfl
  · rfl

theorem Exact.exactness {s : SubnetAllocator} (hs : Exact s) : Exactness s where
  once := hs.allocated_once
  inside := by
    rintro ip key owner ⟨pool, hpool, howner⟩
    exact ⟨pool, hpool, hs.inside _ _ ip _ hpool howner⟩
  indexed := hs.indexed
  found := by
    intro ip vpcId subnetId owner
    rw [← lookup_iff s hs]
    exact ⟨fun h => AllocatorReply.found.inj (Except.ok.inj h), fun h => congrArg _ (congrArg _ h)⟩
  missing := by
    intro ip
    have hiff : s.lookup ip = none ↔ ∀ key owner, ¬ s.AllocatedIn ip key owner := by
      rw [← not_iff_not, ← ne_eq, Option.ne_none_iff_exists']
      simp only [not_forall, not_not]
      constructor
      · rintro ⟨⟨vpcId, subnetId, owner⟩, h⟩
        exact ⟨_, _, (lookup_iff s hs ip _ _ _).mp h⟩
      · rintro ⟨⟨vpcId, subnetId⟩, owner, h⟩
        exact ⟨_, (lookup_iff s hs ip _ _ _).mpr h⟩
    rw [← hiff]
    exact ⟨fun h => AllocatorReply.found.inj (Except.ok.inj h), fun h => congrArg _ (congrArg _ h)⟩
  fresh := by
    intro vpcId subnetId ownerKey requested ip h key owner
    rw [act_reserve] at h
    rcases reserve_cases hs _ _ _ _ with
      ⟨e, hexec, _⟩ | ⟨pool, ip', _, _, hexec, hget, hfree, hin, _, _⟩
    · rw [hexec] at h
      cases h
    · rw [hexec] at h
      simp only [Except.map, Except.ok.injEq, AllocatorReply.address.injEq] at h
      subst h
      rintro ⟨other, hother, howner⟩
      by_cases hkey : key = (vpcId, subnetId)
      · rw [hkey, hget, Option.some.injEq] at hother
        rw [isFree, hother, howner] at hfree
        exact absurd hfree (by simp)
      · exact hs.apart _ _ _ _ hkey hother hget _
          ⟨hs.inside _ _ _ _ hother howner, hin⟩
  reserved := by
    intro vpcId subnetId ownerKey requested ip h
    rw [act_reserve] at h ⊢
    rcases reserve_cases hs _ _ _ _ with
      ⟨e, hexec, _⟩ | ⟨pool, ip', hint, s', hexec, _, _, _, hpools, _⟩
    · rw [hexec] at h
      cases h
    · rw [hexec] at h ⊢
      cases h
      exact ⟨_, (hpools _).trans (if_pos rfl), (Dict.get?_set _ _ _ _).trans (if_pos rfl)⟩
  claimed := by
    intro vpcId subnetId addr ownerKey pool hpool hin h
    rw [act, perform, exec_bind, claim, exec_get_bind, hpool] at h ⊢
    simp only [hin, not_true_eq_false, if_false] at h ⊢
    have hallocated : AllocatedIn (exec (allocate (vpcId, subnetId) pool addr ownerKey) s).2
        addr (vpcId, subnetId) ownerKey :=
      ⟨_, (Dict.get?_set _ _ _ _).trans (if_pos rfl), (Dict.get?_set _ _ _ _).trans (if_pos rfl)⟩
    rcases hheld : pool.allocated.get? addr with _ | existing
    · exact hallocated
    · rw [hheld] at h
      simp only at h ⊢
      by_cases hsame : existing = ownerKey
      · rw [if_neg (not_not_intro hsame)]
        exact hallocated
      · rw [if_pos hsame] at h
        cases h
  exhausted := by
    intro vpcId subnetId ownerKey message h pool hget ip hip
    rw [act_reserve] at h
    rcases reserve_cases hs _ _ _ _ with ⟨e, hexec, hnone⟩ | ⟨_, _, _, _, hexec, _⟩
    · rw [hexec] at h
      have hfree := hnone _ rfl (Except.error.inj h) _ hget ip hip
      by_cases hres : ip ∈ pool.reserved
      · exact .inl hres
      · refine .inr (Option.ne_none_iff_exists'.mp fun hnone => ?_)
        simp [isFree, hres, hnone] at hfree
    · rw [hexec] at h
      cases h
  raising := by
    intro op e hok herror
    rcases act_effect hs op hok with hstate | ⟨a, ha, _⟩
    · exact hstate
    · rw [herror] at ha
      cases ha
  reloads := by
    intro other
    rcases fromDict_toDict s hs _ with ⟨t, hexec, hsame⟩
    exact ⟨t, hexec, hsame.pools, hsame.index, fun ops => drive_same _ t s hsame⟩

/-- After every sequence of operations from the empty allocator, the bookkeeping is exact. -/
theorem bookkeeping_exact
    (hops : Driven Admissible act empty ops) : Exactness (drive act empty ops).1 :=
  (run_exact _ _ empty_exact hops).exactness

def exampleNet : IPv4Network := ⟨⟨10 * 2 ^ 24, by decide⟩, 28, by decide, by decide⟩

def exampleOps : List AllocatorOperation :=
  [.registerSubnet "vpc-1" "subnet-1" exampleNet exampleNet "us-east-1a",
    .reserve "vpc-1" "subnet-1" "eni-1" none,
    .reload,
    .release ⟨10 * 2 ^ 24 + 4, by decide⟩,
    .claim "vpc-1" "subnet-1" ⟨10 * 2 ^ 24 + 5, by decide⟩ "eni-2"]

theorem bookkeeping_exact_after_exampleOps :
    Driven Admissible act empty exampleOps ∧ Exactness (drive act empty exampleOps).1 := by
  have hops : Driven Admissible act empty exampleOps := by
    refine ⟨fun _ => ⟨by decide, fun key pool h => ?_⟩, trivial, trivial, trivial, trivial, trivial⟩
    cases h
  exact ⟨hops, bookkeeping_exact _ hops⟩

/-! ### Usable addresses -/

section Usable

open List

variable (aws docker : IPv4Network) (pool : SubnetPool)

/-- A host of the Docker network other than the first, and none of the five addresses
    that AWS reserves. -/
def Usable (ip : IPv4Address) : Prop :=
  ip ≠ docker.networkAddress ∧ ip ≠ docker.broadcastAddress ∧
    ip.val ≠ docker.networkAddress.val + 1 ∧ ip ≠ aws.broadcastAddress ∧
    (ip.val < aws.networkAddress.val ∨ aws.networkAddress.val + 3 < ip.val)

def IsEnd (ip : IPv4Address) : Prop := ip = docker.networkAddress ∨ ip = docker.broadcastAddress

variable {docker} in
theorem IsEnd.contains {ip : IPv4Address} (h : IsEnd docker ip) : docker.contains ip = true := by
  have hpos := docker.numAddresses_pos
  rw [IPv4Network.contains_iff]
  rcases h with rfl | rfl
  · omega
  · simp only [IPv4Network.broadcastAddress]
    omega

/-- Where the search begins: at the cursor, if it is in the network, or else at the first
    host. -/
def searchStart : Nat :=
  match pool.nextHint.filter pool.dockerCidr.contains with
  | some hint => hint.val
  | none => pool.dockerCidr.networkAddress.val + 1

/-- An end of the network that is free is not asked for, and it is not the first free
    address from the cursor on if an address is to be picked. -/
def Avoids (s : SubnetAllocator) : AllocatorOperation → Prop
  | .reserve vpcId subnetId _ requested =>
    ∀ pool, s.pools.get? (vpcId, subnetId) = some pool →
      ∀ ip, IsEnd pool.dockerCidr ip → isFree pool ip = true →
        match requested with
        | some address => address ≠ ip
        | none => searchStart pool ≤ ip.val →
            ∃ a : IPv4Address, searchStart pool ≤ a.val ∧ a.val < ip.val ∧ isFree pool a = true
  | _ => True

def IsCall : AllocatorOperation → Prop
  | .reserve .. | .release _ => True
  | _ => False

/-- An address that a call returns is usable. -/
def ReturnsUsable (s : SubnetAllocator) (op : AllocatorOperation) : Prop :=
  ∀ ip, (act s op).2 = .ok (.address ip) → Usable aws docker ip

/-! ### The search for an address -/

/-- What a search returns. -/
theorem sweep_eq_some_iff (n : Nat) (candidate ip : IPv4Address) :
    sweep pool n candidate = .ok (some ip) ↔
      isFree pool ip = true ∧ candidate.val ≤ ip.val ∧ ip.val < candidate.val + n ∧
        ∀ a : IPv4Address, candidate.val ≤ a.val → a.val < ip.val → isFree pool a = false := by
  induction n generalizing candidate with
  | zero =>
    simp only [sweep, Except.ok.injEq, reduceCtorEq, false_iff]
    omega
  | succ n ih =>
    rw [sweep]
    by_cases hfree : isFree pool candidate = true
    · rw [if_pos hfree, Except.ok.injEq, Option.some.injEq]
      constructor
      · rintro rfl
        exact ⟨hfree, Nat.le_refl _, by omega, fun a hle hlt => by omega⟩
      · rintro ⟨_, hle, _, hfirst⟩
        by_contra hne
        have hlt : candidate.val < ip.val := by
          have hval : candidate.val ≠ ip.val := fun h => hne (Fin.ext h)
          omega
        simp [hfirst _ _ hlt] at hfree
    · rw [if_neg hfree]
      -- The candidate is not free, so the first free address is a later one.
      have hne : isFree pool ip = true → ip.val ≠ candidate.val :=
        fun h heq => hfree (Fin.ext heq ▸ h)
      rcases hnext : IPv4Address.succ? candidate with _ | next
      · simp only [reduceCtorEq, false_iff]
        rintro ⟨hip, hle, -⟩
        have hlast : IPv4Address.succ? candidate = some ⟨candidate.val + 1, by
            have := hne hip
            omega⟩ := (IPv4Address.succ?_eq_some _ _).mpr rfl
        exact absurd (hnext.symm.trans hlast) (by simp)
      · rw [IPv4Address.succ?_eq_some] at hnext
        simp only [ih _]
        constructor
        · rintro ⟨hip, hle, hlt, hfirst⟩
          refine ⟨hip, by omega, by omega, fun a hle hlt => ?_⟩
          by_cases ha : a.val = candidate.val
          · rw [Fin.ext ha]
            exact Bool.eq_false_iff.mpr hfree
          · exact hfirst a (by omega) hlt
        · rintro ⟨hip, hle, hlt, hfirst⟩
          have := hne hip
          exact ⟨hip, by omega, by omega, fun a hle hlt => hfirst a (by omega) hlt⟩

variable {pool} in
/-- A search returns an end of the network if this is the first free address from the cursor
    on. -/
theorem pick_iff (hsize : pool.dockerCidr.prefixlen ≤ 28) (ip : IPv4Address)
    (hend : IsEnd pool.dockerCidr ip) :
    (∃ start, orNextHost pool.dockerCidr pool.nextHint = .ok start ∧
      firstFreeAfter pool start = .ok (some ip)) ↔
    isFree pool ip = true ∧ searchStart pool ≤ ip.val ∧
      ∀ a : IPv4Address, searchStart pool ≤ a.val → a.val < ip.val → isFree pool a = false := by
  rcases orNextHost_ok pool.dockerCidr hsize pool.nextHint with ⟨start, hstart⟩
  rcases firstFreeAfter_cases pool hsize start with ⟨origin, first, hin, hfirst, horigin, hcases⟩
  have hsearch : origin.val = searchStart pool := by
    rw [searchStart, horigin]
    cases hhint : pool.nextHint with
    | none =>
      rcases nextHost_eq pool.dockerCidr hsize with ⟨host, hhost, hval⟩
      rw [hhint, orNextHost, hhost] at hstart
      cases hstart
      rw [if_pos (contains_nextHost pool.dockerCidr hsize start hval), hval]
      rfl
    | some =>
      rw [hhint] at hstart
      cases hstart
      rw [Option.filter_some]
      by_cases hc : pool.dockerCidr.contains start = true
      · rw [if_pos hc, if_pos hc]
      · rw [if_neg hc, if_neg hc, hfirst]
  rw [IPv4Network.contains_iff] at hin
  have hbound : pool.dockerCidr.broadcastAddress.val =
      pool.dockerCidr.networkAddress.val + pool.dockerCidr.numAddresses - 1 := rfl
  have hpos := pool.dockerCidr.numAddresses_pos
  have hip : ip.val = pool.dockerCidr.networkAddress.val ∨
      ip.val = pool.dockerCidr.broadcastAddress.val := by
    rcases hend with rfl | rfl
    · exact .inl rfl
    · exact .inr rfl
  simp only [hstart, Except.ok.injEq, exists_eq_left', ← hsearch]
  rcases hcases with ⟨hnone, hwrap⟩ | ⟨-, hforward⟩
  · -- The second part of the search ends below the cursor.
    rw [hwrap, sweep_eq_some_iff]
    constructor
    · rintro ⟨-, hle, hlt, -⟩
      omega
    · rintro ⟨hfree, hle, -⟩
      have := sweep_none pool _ origin hnone ip hle (by omega)
      simp [this] at hfree
  · rw [hforward, sweep_eq_some_iff]
    constructor
    · rintro ⟨hfree, hle, -, hfirst⟩
      exact ⟨hfree, hle, hfirst⟩
    · rintro ⟨hfree, hle, hfirst⟩
      exact ⟨hfree, hle, by omega, hfirst⟩

/-! ### The address of a call -/

variable {aws docker}

theorem of_not_reserved (haws : aws.prefixlen ≤ 28) (hdocker : docker.prefixlen ≤ 28)
    (reserved : Finset IPv4Address) (h : computeReserved aws docker = .ok reserved)
    (ip : IPv4Address) (hip : ip ∉ reserved) :
    ip.val ≠ docker.networkAddress.val + 1 ∧ ip ≠ aws.broadcastAddress ∧
      (ip.val < aws.networkAddress.val ∨ aws.networkAddress.val + 3 < ip.val) := by
  have hroom (net : IPv4Network) (h : net.prefixlen ≤ 28) : 2 ^ 4 ≤ net.numAddresses :=
    Nat.pow_le_pow_right (by omega) (by omega)
  have hhosts : ∀ a : IPv4Address, aws.networkAddress.val < a.val →
      a.val ≤ aws.networkAddress.val + 3 → a ∈ aws.hosts.take 3 := by
    intro a hlt hle
    obtain ⟨n, hn⟩ : ∃ n, aws.numAddresses - 2 = 3 + n := by
      have := hroom _ haws
      exact ⟨aws.numAddresses - 5, by omega⟩
    rw [IPv4Network.hosts, if_pos (by omega), IPv4Network.addressesFrom, hn, range_add,
      filterMap_append, take_append, mem_append,
      take_of_length_le ((length_filterMap_le _ _).trans_eq length_range)]
    refine .inl (mem_filterMap.mpr ⟨a.val - (aws.networkAddress.val + 1), ?_, ?_⟩)
    · rw [mem_range]
      omega
    · rw [IPv4Address.ofNat?_eq_some]
      omega
  rcases nextHost_eq _ hdocker with ⟨gateway, hgateway, hval⟩
  have hsize := hroom _ haws
  have hsize' := hroom _ hdocker
  rw [computeReserved, if_pos (by omega), if_pos (by omega), hgateway] at h
  cases h
  simp only [Finset.mem_insert, Finset.mem_union, Finset.mem_singleton, mem_toFinset, not_or] at hip
  rcases hip with ⟨hne, ⟨hnetwork, hbroadcast⟩, htake⟩
  refine ⟨fun heq => hne (Fin.ext (heq.trans hval.symm)), hbroadcast, ?_⟩
  by_contra hin
  have hne : ip.val ≠ aws.networkAddress.val := fun h => hnetwork (Fin.ext h)
  exact htake (hhosts ip (by omega) (by omega))

variable {pool} in
theorem reply_reserve {s : SubnetAllocator} (vpcId subnetId ownerKey : String)
    (requested : Option IPv4Address) (hget : s.pools.get? (vpcId, subnetId) = some pool)
    (hsize : pool.dockerCidr.prefixlen ≤ 28) (ip : IPv4Address) :
    (act s (.reserve vpcId subnetId ownerKey requested)).2 = .ok (.address ip) ↔
      match requested with
      | some address => address = ip ∧ pool.dockerCidr.contains ip = true ∧ isFree pool ip = true
      | none => ∃ start, orNextHost pool.dockerCidr pool.nextHint = .ok start ∧
          firstFreeAfter pool start = .ok (some ip) := by
  have hreply : (act s (.reserve vpcId subnetId ownerKey requested)).2 = .ok (.address ip) ↔
      (exec (reserve vpcId subnetId ownerKey requested) s).1 = .ok ip := by
    rw [act, perform, exec_bind]
    rcases exec (reserve vpcId subnetId ownerKey requested) s with ⟨e | a, t⟩
    · simp
    · simp
  rw [hreply, reserve, exec_get_bind, hget]
  cases requested with
  | some address =>
    simp only
    by_cases hin : pool.dockerCidr.contains address = true
    · rw [if_neg (not_not_intro hin)]
      by_cases hres : address ∈ pool.reserved
      · rw [if_pos hres]
        simp only [Action.exec_throw, reduceCtorEq, false_iff]
        rintro ⟨rfl, -, hfree⟩
        simp [isFree, hres] at hfree
      · rw [if_neg hres]
        cases hheld : pool.allocated.get? address with
        | some =>
          simp only [Action.exec_throw, reduceCtorEq, false_iff]
          rintro ⟨rfl, -, hfree⟩
          simp [isFree, hheld] at hfree
        | none =>
          rw [Action.exec_bind_of_ok
            (allocate (vpcId, subnetId) pool address ownerKey) _ s _ ⟨⟩ rfl]
          have hfree : isFree pool address = true := by simp [isFree, hres, hheld]
          constructor
          · intro h
            cases h
            exact ⟨rfl, hin, hfree⟩
          · rintro ⟨rfl, -, -⟩
            rfl
    · rw [if_pos hin]
      simp only [Action.exec_throw, reduceCtorEq, false_iff]
      rintro ⟨rfl, h, -⟩
      exact hin h
  | none =>
    rcases orNextHost_ok pool.dockerCidr hsize pool.nextHint with ⟨start, hstart⟩
    simp only [hstart, Except.ok.injEq, exists_eq_left']
    rw [Action.exec_ofExcept_bind_ok _ start _ s rfl]
    rcases hfind : firstFreeAfter pool start with e | found
    · rw [Action.exec_ofExcept_bind_error _ e _ s rfl]
      simp
    · rw [Action.exec_ofExcept_bind_ok _ found _ s rfl]
      cases found with
      | none => simp
      | some found =>
        rcases orNextHost_ok pool.dockerCidr hsize (IPv4Address.succ? found) with ⟨next, hnext⟩
        simp only
        rw [Action.exec_bind_of_ok (allocate (vpcId, subnetId) pool found ownerKey) _ s _ ⟨⟩ rfl,
          exec_ofExcept_bind_ok _ next _ _ hnext,
          exec_bind_of_ok _ _ _ _ ⟨⟩ (exec_setHint _ _ _ _ (by
            rw [Dict.get?_set, if_pos rfl]))]
        simp

/-! ### Runs of calls -/

variable (aws docker) in
/-- Every pool has these networks, and the addresses that are reserved for them. -/
structure Registered (s : SubnetAllocator) : Prop where
  exact : Exact s
  pool : ∀ key pool, s.pools.get? key = some pool → pool.dockerCidr = docker ∧
    computeReserved aws docker = .ok pool.reserved

theorem Registered.step {s : SubnetAllocator} (hs : Registered aws docker s)
    (op : AllocatorOperation) (hop : IsCall op) : Registered aws docker (act s op).1 := by
  cases op with
  | release addr =>
    refine ⟨act_exact s _ hs.exact trivial, fun key pool hpool => ?_⟩
    rw [act, perform, release, exec_bind, exec_get_bind] at hpool
    cases hindex : s.ipIndex.get? addr with
    | none =>
      rw [hindex] at hpool
      exact hs.pool _ _ hpool
    | some owner =>
      rcases (hs.exact.indexed _ _).mp hindex with ⟨_, old, hold, -⟩
      simp only [hindex, hold, exec_modify_bind] at hpool
      have hpool : (s.pools.set owner { old with allocated := old.allocated.erase addr }).get?
          key = some pool := hpool
      rw [Dict.get?_set] at hpool
      split at hpool
      · cases hpool
        exact hs.pool _ old hold
      · exact hs.pool _ _ hpool
  | reserve =>
    refine ⟨act_exact s _ hs.exact trivial, fun key pool hpool => ?_⟩
    rw [act, perform, exec_bind] at hpool
    rcases reserve_cases hs.exact _ _ _ _ with
      ⟨e, hexec, -⟩ | ⟨old, ip, hint, s', hexec, hold, -, -, hpools, -⟩
    · rw [hexec] at hpool
      exact hs.pool _ _ hpool
    · rw [hexec] at hpool
      have hpool : s'.pools.get? key = some pool := hpool
      rw [hpools] at hpool
      split at hpool
      · cases hpool
        exact hs.pool _ old hold
      · exact hs.pool _ _ hpool
  | registerSubnet | unregisterSubnet | forceUnregisterSubnet | claim | lookup | reload =>
    exact hop.elim

theorem returnsUsable_iff (haws : aws.prefixlen ≤ 28) {s : SubnetAllocator}
    (hs : Registered aws docker s) (op : AllocatorOperation) (hop : IsCall op) :
    ReturnsUsable aws docker s op ↔ Avoids s op := by
  cases op with
  | release addr =>
    refine iff_of_true (fun ip h => ?_) trivial
    rw [act, perform, exec_bind] at h
    rcases hexec : exec (release addr) s with ⟨e | _, t⟩
    · rw [hexec] at h
      cases h
    · rw [hexec] at h
      cases h
  | reserve vpcId subnetId ownerKey requested =>
    cases hget : s.pools.get? (vpcId, subnetId) with
    | none =>
      refine iff_of_true (fun ip h => ?_) fun pool hpool => ?_
      · rw [act, perform, exec_bind, reserve, exec_get_bind, hget] at h
        cases h
      · rw [hget] at hpool
        cases hpool
    | some pool =>
      have hsize := hs.exact.sized _ _ hget
      have hreply := reply_reserve _ _ ownerKey requested hget hsize
      obtain ⟨rfl, hreserved⟩ := hs.pool _ _ hget
      constructor
      · -- An end that the call comes to would be returned.
        intro h pool' hpool' ip hend hfree
        cases hget.symm.trans hpool'
        have hbad : ¬Usable aws pool.dockerCidr ip := fun h => hend.elim h.1 h.2.1
        cases requested with
        | some =>
          intro heq
          exact hbad (h ip ((hreply ip).mpr ⟨heq, hend.contains, hfree⟩))
        | none =>
          intro hle
          by_contra hno
          refine hbad (h ip ((hreply ip).mpr ((pick_iff hsize ip hend).mpr
            ⟨hfree, hle, fun a hle hlt => ?_⟩)))
          by_contra ha
          exact hno ⟨a, hle, hlt, Bool.eq_true_of_not_eq_false ha⟩
      · intro h ip hip
        have hip := (hreply ip).mp hip
        have hfree : isFree pool ip = true := by
          cases requested with
          | some => exact hip.2.2
          | none =>
            rcases hip with ⟨start, -, hfind⟩
            exact (firstFreeAfter_some _ hsize _ ip hfind).1
        have hend : ¬IsEnd pool.dockerCidr ip := by
          intro hend
          have h := h _ hget ip hend hfree
          cases requested with
          | some => exact h hip.1
          | none =>
            rcases (pick_iff hsize ip hend).mp hip with ⟨-, hle, hfirst⟩
            rcases h hle with ⟨a, ha, hlt, hafree⟩
            simp [hfirst a ha hlt] at hafree
        have hres : ip ∉ pool.reserved := by
          intro hres
          simp [isFree, hres] at hfree
        exact ⟨fun h => hend (.inl h), fun h => hend (.inr h),
          of_not_reserved haws hsize _ hreserved ip hres⟩
  | registerSubnet | unregisterSubnet | forceUnregisterSubnet | claim | lookup | reload =>
    exact hop.elim

theorem registerSubnet_registered (hdocker : docker.prefixlen ≤ 28)
    (vpcId subnetId az : String) : Registered aws docker
      (act empty (.registerSubnet vpcId subnetId aws docker az)).1 := by
  refine ⟨act_exact _ _ empty_exact fun _ => ⟨hdocker, fun key pool h => ?_⟩,
    fun key pool hpool => ?_⟩
  · cases h
  · rw [act, perform, exec_bind, registerSubnet, exec_get_bind] at hpool
    cases hreserved : computeReserved aws docker with
    | error e =>
      simp [empty, Dict.get?_empty, hreserved, exec_ofExcept_bind_error _ e _ _ rfl]
        at hpool
    | ok reserved =>
      simp only [empty, Dict.get?_empty, hreserved,
        exec_ofExcept_bind_ok _ _ _ _ rfl] at hpool
      have hpool : (Dict.empty.set (vpcId, subnetId) (SubnetPool.mk vpcId subnetId aws docker az
          reserved Dict.empty (docker.hosts.find? fun host => host ∉ reserved))).get? key =
          some pool := hpool
      rw [Dict.get?_set] at hpool
      split at hpool
      · cases hpool
        exact ⟨rfl, rfl⟩
      · cases hpool

/-- After a registration, every address that is returned is usable if and only if no call
    asks for an end of the Docker network that is free, or comes to one first when it
    picks. -/
theorem usable_iff_avoids (haws : aws.prefixlen ≤ 28) (hdocker : docker.prefixlen ≤ 28)
    (vpcId subnetId az : String) (ops : List AllocatorOperation) (hops : ∀ op ∈ ops, IsCall op) :
    Driven (ReturnsUsable aws docker) act
        (act empty (.registerSubnet vpcId subnetId aws docker az)).1 ops ↔
      Driven Avoids act (act empty (.registerSubnet vpcId subnetId aws docker az)).1 ops := by
  have hstart := @registerSubnet_registered aws docker hdocker vpcId subnetId az
  generalize (act empty (.registerSubnet vpcId subnetId aws docker az)).1 = s at hstart
  induction ops generalizing s with
  | nil => exact Iff.rfl
  | cons op ops ih =>
    have hop := hops op mem_cons_self
    exact and_congr (returnsUsable_iff haws hstart op hop)
      (ih (fun op h => hops op (mem_cons_of_mem _ h)) _ (hstart.step op hop))

theorem driven_avoids_of_eq (net : IPv4Network) (hsize : net.prefixlen ≤ 28)
    (s : SubnetAllocator) (hs : Registered net net s) (ops : List AllocatorOperation)
    (hops : ∀ op ∈ ops, IsCall op) : Driven Avoids act s ops := by
  induction ops generalizing s with
  | nil => trivial
  | cons op ops ih =>
    have hop := hops op mem_cons_self
    refine ⟨?_, ih _ (hs.step op hop) fun op h => hops op (mem_cons_of_mem _ h)⟩
    cases op with
    | reserve =>
      intro pool hpool ip hend hfree
      obtain ⟨hnet, hreserved⟩ := hs.pool _ _ hpool
      have hres : ip ∉ pool.reserved := by
        intro hres
        simp [isFree, hres] at hfree
      have hip := of_not_reserved hsize hsize _ hreserved ip hres
      rw [hnet] at hend
      rcases hend with rfl | rfl
      · omega
      · exact absurd rfl hip.2.1
    | release => trivial
    | registerSubnet | unregisterSubnet | forceUnregisterSubnet | claim | lookup | reload =>
      exact hop.elim

def exampleCalls : List AllocatorOperation :=
  [.reserve "vpc-1" "subnet-1" "eni-1" none,
    .reserve "vpc-1" "subnet-1" "eni-2" (some exampleNet.networkAddress),
    .release ⟨10 * 2 ^ 24 + 4, by decide⟩]

theorem usable_of_exampleCalls : Driven (ReturnsUsable exampleNet exampleNet) act
    (act empty (.registerSubnet "vpc-1" "subnet-1" exampleNet exampleNet "us-east-1a")).1
    exampleCalls :=
  (usable_iff_avoids (by decide) (by decide) "vpc-1" "subnet-1" "us-east-1a" _
    (by simp [exampleCalls, IsCall])).mpr
    (driven_avoids_of_eq _ (by decide) _ (registerSubnet_registered (by decide) _ _ _)
      _ (by simp [exampleCalls, IsCall]))

end Usable

end SubnetAllocator

end LocalEmu.Ec2
