import LocalEmu.Base.Run
import LocalEmu.Core.Ec2.SubnetAllocator

/-!
# What the Allocator's Operations Do

Every operation replaces at most one pool, and brings the index of addresses
into line with the addresses of that pool. `Change` says this once, for all
operations; whether the tables agree afterwards then follows from `Change`
alone.

The rest of the module is the search for a free address. Its two sweeps cover
the network from the cursor to the broadcast address and from the first host to
the cursor, so that an empty result means that no host is free, wherever the
cursor stands.
-/

namespace LocalEmu.Ec2.SubnetAllocator

open Option

/-- An address is allocated to an owner in a pool. -/
def AllocatedIn (s : SubnetAllocator) (ip : IPv4Address) (key : PoolKey) (owner : String) : Prop :=
  ∃ pool, s.pools.get? key = some pool ∧ pool.allocated.get? ip = some owner

/-- The tables agree, and the networks of the pools are as they should be. -/
structure Exact (s : SubnetAllocator) : Prop where
  keyed : ∀ key pool, s.pools.get? key = some pool → key = (pool.vpcId, pool.subnetId)
  sized : ∀ key pool, s.pools.get? key = some pool → pool.dockerCidr.prefixlen ≤ 28
  apart : ∀ key key' pool pool', key ≠ key' → s.pools.get? key = some pool →
    s.pools.get? key' = some pool' → pool.dockerCidr.Disjoint pool'.dockerCidr
  inside : ∀ key pool ip owner, s.pools.get? key = some pool →
    pool.allocated.get? ip = some owner → pool.dockerCidr.contains ip = true
  indexed : ∀ ip key, s.ipIndex.get? ip = some key ↔ ∃ owner, s.AllocatedIn ip key owner

theorem empty_exact : Exact empty where
  keyed := fun _ _ h => absurd h (by simp [empty, Dict.get?_empty])
  sized := fun _ _ h => absurd h (by simp [empty, Dict.get?_empty])
  apart := fun _ _ _ _ _ h => absurd h (by simp [empty, Dict.get?_empty])
  inside := fun _ _ _ _ h => absurd h (by simp [empty, Dict.get?_empty])
  indexed := fun _ _ => by simp [empty, Dict.get?_empty, AllocatedIn]

theorem Exact.allocated_once {s : SubnetAllocator} (hs : Exact s) (ip : IPv4Address)
    (key key' : PoolKey) (owner owner' : String) (h : s.AllocatedIn ip key owner)
    (h' : s.AllocatedIn ip key' owner') : key = key' ∧ owner = owner' := by
  have hkey : key = key' := by
    have hi := (hs.indexed ip _).mpr ⟨owner, h⟩
    have hi' := (hs.indexed ip _).mpr ⟨owner', h'⟩
    rw [hi, some.injEq] at hi'
    exact hi'
  subst hkey
  rcases h with ⟨pool, hpool, howner⟩
  rcases h' with ⟨pool', hpool', howner'⟩
  rw [hpool, some.injEq] at hpool'
  subst hpool'
  rw [howner, some.injEq] at howner'
  exact ⟨rfl, howner'⟩

/-! ### One changed pool -/

/-- An address is allocated in a pool, if there is one. -/
def Holds (pool : Option SubnetPool) (ip : IPv4Address) : Prop :=
  ∃ p owner, pool = some p ∧ p.allocated.get? ip = some owner

/-- The pool under a key is replaced, and the index says of the key what the new pool says. -/
structure Change (s s' : SubnetAllocator) (key : PoolKey) (new : Option SubnetPool) : Prop where
  pools : ∀ k, s'.pools.get? k = if k = key then new else s.pools.get? k
  own : ∀ ip, s'.ipIndex.get? ip = some key ↔ Holds new ip
  others : ∀ ip k, k ≠ key → (s'.ipIndex.get? ip = some k ↔ s.ipIndex.get? ip = some k)
  keyed : ∀ pool, new = some pool → key = (pool.vpcId, pool.subnetId)
  sized : ∀ pool, new = some pool → pool.dockerCidr.prefixlen ≤ 28
  apart : ∀ pool k other, new = some pool → k ≠ key → s.pools.get? k = some other →
    pool.dockerCidr.Disjoint other.dockerCidr
  inside : ∀ pool ip owner, new = some pool → pool.allocated.get? ip = some owner →
    pool.dockerCidr.contains ip = true

section Change

variable {s s' : SubnetAllocator} {key : PoolKey} {new : Option SubnetPool}

theorem Change.pool_cases (hc : Change s s' key new) (k : PoolKey) (pool : SubnetPool)
    (h : s'.pools.get? k = some pool) :
    (k = key ∧ new = some pool) ∨ (k ≠ key ∧ s.pools.get? k = some pool) := by
  rw [hc.pools] at h
  by_cases hk : k = key
  · rw [if_pos hk] at h
    exact .inl ⟨hk, h⟩
  · rw [if_neg hk] at h
    exact .inr ⟨hk, h⟩

/-- Operations keep the tables in agreement. -/
theorem Change.exact (hc : Change s s' key new) (hs : Exact s) : Exact s' where
  keyed := by
    intro k pool hk
    rcases hc.pool_cases k _ hk with ⟨rfl, hnew⟩ | ⟨_, hold⟩
    · exact hc.keyed _ hnew
    · exact hs.keyed k _ hold
  sized := by
    intro k pool hk
    rcases hc.pool_cases k _ hk with ⟨_, hnew⟩ | ⟨_, hold⟩
    · exact hc.sized _ hnew
    · exact hs.sized k _ hold
  apart := by
    intro k k' pool pool' hne hk hk'
    rcases hc.pool_cases k _ hk with ⟨rfl, hnew⟩ | ⟨hkne, hold⟩
    · rcases hc.pool_cases k' _ hk' with ⟨rfl, _⟩ | ⟨hkne', hold'⟩
      · exact absurd rfl hne
      · exact hc.apart _ k' _ hnew hkne' hold'
    · rcases hc.pool_cases k' _ hk' with ⟨rfl, hnew'⟩ | ⟨_, hold'⟩
      · exact fun a ha => hc.apart _ k _ hnew' hkne hold a ⟨ha.2, ha.1⟩
      · exact hs.apart k k' _ _ hne hold hold'
  inside := by
    intro k pool ip owner hk hip
    rcases hc.pool_cases k _ hk with ⟨_, hnew⟩ | ⟨_, hold⟩
    · exact hc.inside _ ip _ hnew hip
    · exact hs.inside k _ ip _ hold hip
  indexed := by
    intro ip k
    by_cases hk : k = key
    · rw [hk, hc.own]
      constructor
      · rintro ⟨p, owner, hnew, hip⟩
        exact ⟨owner, p, by rw [hc.pools, if_pos rfl, hnew], hip⟩
      · rintro ⟨owner, p, hp, hip⟩
        rw [hc.pools, if_pos rfl] at hp
        exact ⟨p, owner, hp, hip⟩
    · rw [hc.others ip k hk, hs.indexed]
      simp only [AllocatedIn, hc.pools, if_neg hk]

end Change

theorem Exact.index_iff_holds {s : SubnetAllocator} (hs : Exact s) (ip : IPv4Address)
    (key : PoolKey) : s.ipIndex.get? ip = some key ↔ Holds (s.pools.get? key) ip := by
  rw [hs.indexed]
  constructor
  · rintro ⟨owner, p, hp, hip⟩
    exact ⟨p, owner, hp, hip⟩
  · rintro ⟨p, owner, hp, hip⟩
    exact ⟨owner, p, hp, hip⟩

section Updates

variable {s s' : SubnetAllocator} (hs : Exact s) (key : PoolKey)

theorem Change.of_removed (hpools : s'.pools = s.pools.erase key)
    (hindex : ∀ ip, s'.ipIndex.get? ip =
      if s.ipIndex.get? ip = some key then none else s.ipIndex.get? ip) :
    Change s s' key none where
  pools := fun k => by rw [hpools, Dict.get?_erase]
  own := by
    intro ip
    rw [hindex]
    by_cases hip : s.ipIndex.get? ip = some key
    · simp [hip, Holds]
    · simp [hip, Holds]
  others := by
    intro ip k hk
    rw [hindex]
    by_cases hip : s.ipIndex.get? ip = some key
    · simp [hip, Ne.symm hk]
    · rw [if_neg hip]
  keyed := fun _ h => absurd h (by simp)
  sized := fun _ h => absurd h (by simp)
  apart := fun _ _ _ h => absurd h (by simp)
  inside := fun _ _ _ h => absurd h (by simp)

include hs

theorem Change.of_added (pool : SubnetPool) (hnew : s.pools.get? key = none)
    (hkey : key = (pool.vpcId, pool.subnetId)) (hsize : pool.dockerCidr.prefixlen ≤ 28)
    (hapart : ∀ k other, s.pools.get? k = some other → other.dockerCidr.Disjoint pool.dockerCidr)
    (hempty : pool.allocated = Dict.empty)
    (hpools : s'.pools = s.pools.set key pool) (hindex : s'.ipIndex = s.ipIndex) :
    Change s s' key (some pool) where
  pools := fun k => by rw [hpools, Dict.get?_set]
  own := by
    intro ip
    rw [hindex, hs.index_iff_holds, hnew]
    simp [Holds, hempty, Dict.get?_empty]
  others := fun ip k _ => by rw [hindex]
  keyed := fun _ h => some.inj h ▸ hkey
  sized := fun _ h => some.inj h ▸ hsize
  apart := fun _ k other h _ hk a ha => hapart k other hk a ⟨ha.2, some.inj h ▸ ha.1⟩
  inside := by
    intro p ip owner h hip
    rw [← some.inj h, hempty, Dict.get?_empty] at hip
    exact absurd hip (by simp)

variable (pool : SubnetPool) (hpool : s.pools.get? key = some pool) (ip : IPv4Address)

include hpool

theorem Change.of_allocated (owner : String) (hint : Option IPv4Address)
    (hin : pool.dockerCidr.contains ip = true)
    (hpools : ∀ k, s'.pools.get? k = if k = key then
      some { pool with allocated := pool.allocated.set ip owner, nextHint := hint }
      else s.pools.get? k)
    (hindex : s'.ipIndex = s.ipIndex.set ip key) :
    Change s s' key
      (some { pool with allocated := pool.allocated.set ip owner, nextHint := hint }) where
  pools := hpools
  own := by
    intro a
    rw [hindex, Dict.get?_set]
    by_cases ha : a = ip
    · simp [ha, Holds, Dict.get?_set]
    · rw [if_neg ha, hs.index_iff_holds, hpool]
      simp [Holds, Dict.get?_set, ha]
  others := by
    intro a k hk
    rw [hindex, Dict.get?_set]
    by_cases ha : a = ip
    · rw [if_pos ha, some.injEq, ha]
      constructor
      · exact fun hc => absurd hc.symm hk
      · intro hc
        exfalso
        rcases (hs.indexed ip k).mp hc with ⟨o, p, hp, hip⟩
        exact hs.apart k _ p _ hk hp hpool ip ⟨hs.inside k p ip o hp hip, hin⟩
    · rw [if_neg ha]
  keyed := fun _ h => some.inj h ▸ hs.keyed key pool hpool
  sized := fun _ h => some.inj h ▸ hs.sized key pool hpool
  apart := by
    intro p k other h hk hother
    rw [← some.inj h]
    exact hs.apart _ k pool _ (Ne.symm hk) hpool hother
  inside := by
    intro p a o h ha
    rw [← some.inj h] at ha ⊢
    rcases Dict.get?_set_eq_some _ _ _ ha with ⟨rfl, -⟩ | ⟨-, ha⟩
    · exact hin
    · exact hs.inside _ pool a o hpool ha

theorem Change.of_released
    (hpools : s'.pools = s.pools.set key { pool with allocated := pool.allocated.erase ip })
    (hindex : s'.ipIndex = s.ipIndex.erase ip) (hold : s.ipIndex.get? ip = some key) :
    Change s s' key (some { pool with allocated := pool.allocated.erase ip }) where
  pools := fun k => by rw [hpools, Dict.get?_set]
  own := by
    intro a
    rw [hindex, Dict.get?_erase]
    by_cases ha : a = ip
    · simp [ha, Holds, Dict.get?_erase]
    · rw [if_neg ha, hs.index_iff_holds, hpool]
      simp [Holds, Dict.get?_erase, ha]
  others := by
    intro a k hk
    rw [hindex, Dict.get?_erase]
    by_cases ha : a = ip
    · simp [ha, hold, Ne.symm hk]
    · rw [if_neg ha]
  keyed := fun _ h => some.inj h ▸ hs.keyed key pool hpool
  sized := fun _ h => some.inj h ▸ hs.sized key pool hpool
  apart := by
    intro p k other h hk hother
    rw [← some.inj h]
    exact hs.apart _ k pool _ (Ne.symm hk) hpool hother
  inside := by
    intro p a o h ha
    rw [← some.inj h] at ha ⊢
    rw [Dict.get?_erase] at ha
    by_cases hip : a = ip
    · rw [if_pos hip] at ha
      exact absurd ha (by simp)
    · rw [if_neg hip] at ha
      exact hs.inside _ pool a o hpool ha

end Updates

/-! ### The search -/

theorem sweep_some (pool : SubnetPool) (n : Nat) (candidate ip : IPv4Address)
    (h : sweep pool n candidate = .ok (some ip)) :
    isFree pool ip = true ∧ candidate.val ≤ ip.val ∧ ip.val < candidate.val + n := by
  induction n generalizing candidate with
  | zero => exact absurd h (by simp [sweep])
  | succ n ih =>
    rw [sweep] at h
    by_cases hfree : isFree pool candidate = true
    · rw [if_pos hfree] at h
      cases h
      exact ⟨hfree, Nat.le_refl _, by omega⟩
    · rw [if_neg hfree] at h
      rcases hnext : IPv4Address.succ? candidate with _ | next
      · rw [hnext] at h
        exact absurd h (by simp)
      · rw [hnext] at h
        rw [IPv4Address.succ?_eq_some] at hnext
        have hrest := ih _ h
        exact ⟨hrest.1, by omega, by omega⟩

theorem sweep_none (pool : SubnetPool) (n : Nat) (candidate : IPv4Address)
    (h : sweep pool n candidate = .ok none) (ip : IPv4Address) (hle : candidate.val ≤ ip.val)
    (hlt : ip.val < candidate.val + n) : isFree pool ip = false := by
  induction n generalizing candidate with
  | zero => omega
  | succ n ih =>
    rw [sweep] at h
    by_cases hfree : isFree pool candidate = true
    · rw [if_pos hfree] at h
      exact absurd h (by simp)
    · rw [if_neg hfree] at h
      by_cases heq : ip = candidate
      · rw [heq]
        exact Bool.eq_false_iff.mpr hfree
      · have hne : ip.val ≠ candidate.val := fun hc => heq (Fin.ext hc)
        rcases hnext : IPv4Address.succ? candidate with _ | next
        · rw [hnext] at h
          exact absurd h (by simp)
        · rw [hnext] at h
          rw [IPv4Address.succ?_eq_some] at hnext
          exact ih _ h (by omega) (by omega)

theorem sweep_error (pool : SubnetPool) (n : Nat) (candidate : IPv4Address) (e : AllocatorError)
    (h : sweep pool n candidate = .error e) : ∃ text, e = .addressValueError text := by
  induction n generalizing candidate with
  | zero => exact absurd h (by simp [sweep])
  | succ n ih =>
    rw [sweep] at h
    split at h
    · exact absurd h (by simp)
    · rcases hnext : IPv4Address.succ? candidate with _ | next
      · rw [hnext] at h
        exact ⟨_, (Except.error.inj h).symm⟩
      · rw [hnext] at h
        exact ih _ h

theorem nextHost_eq (net : IPv4Network) (h : net.prefixlen ≤ 28) :
    ∃ host, nextHost net = .ok host ∧ host.val = net.networkAddress.val + 1 := by
  rcases net.head?_hosts (by omega) with ⟨host, hhead, hval⟩
  refine ⟨host, ?_, hval⟩
  rw [nextHost, hhead]
  exact if_neg (by omega)

theorem orNextHost_ok (net : IPv4Network) (h : net.prefixlen ≤ 28) (a : Option IPv4Address) :
    ∃ host, orNextHost net a = .ok host := by
  rcases a with _ | a
  · rcases nextHost_eq _ h with ⟨host, hhost, _⟩
    exact ⟨host, hhost⟩
  · exact ⟨a, rfl⟩

theorem contains_nextHost (net : IPv4Network) (h : net.prefixlen ≤ 28) (host : IPv4Address)
    (hval : host.val = net.networkAddress.val + 1) : net.contains host = true := by
  have hsize : 2 ^ 4 ≤ net.numAddresses := Nat.pow_le_pow_right (by omega) (by omega)
  rw [IPv4Network.contains_iff]
  omega

/-- The search, taken apart: a sweep from an address of the network to its end,
    and if that finds nothing, a sweep from the first host to that address. -/
theorem firstFreeAfter_cases (pool : SubnetPool) (h : pool.dockerCidr.prefixlen ≤ 28)
    (start : IPv4Address) :
    ∃ origin first : IPv4Address, pool.dockerCidr.contains origin = true ∧
      first.val = pool.dockerCidr.networkAddress.val + 1 ∧
      origin = (if pool.dockerCidr.contains start = true then start else first) ∧
      ((sweep pool (pool.dockerCidr.broadcastAddress.val + 1 - origin.val) origin = .ok none ∧
        firstFreeAfter pool start = sweep pool (origin.val - first.val) first) ∨
      (firstFreeAfter pool start ≠ .ok none ∧ firstFreeAfter pool start =
        sweep pool (pool.dockerCidr.broadcastAddress.val + 1 - origin.val) origin)) := by
  rcases nextHost_eq _ h with ⟨first, hfirst, hval⟩
  have hin := contains_nextHost _ h _ hval
  -- A start outside the network is replaced by the first host.
  obtain ⟨origin, hcontains, heq, horigin⟩ : ∃ origin : IPv4Address,
      pool.dockerCidr.contains origin = true ∧
        origin = (if pool.dockerCidr.contains start = true then start else first) ∧
        firstFreeAfter pool start = firstFreeAfter pool origin := by
    by_cases hs : pool.dockerCidr.contains start = true
    · exact ⟨start, hs, (if_pos hs).symm, rfl⟩
    · exact ⟨first, hin, (if_neg hs).symm,
        by simp [firstFreeAfter, hs, hin, hfirst, bind, Except.bind]⟩
  refine ⟨origin, first, hcontains, hval, heq, ?_⟩
  rw [horigin]
  simp only [firstFreeAfter, hcontains, if_true, hfirst, bind, Except.bind]
  rcases sweep pool (pool.dockerCidr.broadcastAddress.val + 1 - origin.val) origin with e | r
  · exact .inr ⟨by simp, rfl⟩
  · rcases r with _ | ip
    · exact .inl ⟨rfl, rfl⟩
    · exact .inr ⟨by simp [pure, Except.pure], rfl⟩

/-- What the search returns. -/
theorem firstFreeAfter_some (pool : SubnetPool) (h : pool.dockerCidr.prefixlen ≤ 28)
    (start ip : IPv4Address) (hr : firstFreeAfter pool start = .ok (some ip)) :
    isFree pool ip = true ∧ pool.dockerCidr.contains ip = true := by
  rcases firstFreeAfter_cases _ h _ with ⟨origin, first, hin, hfirst, -, hcases⟩
  have hpos := pool.dockerCidr.numAddresses_pos
  have hbound : pool.dockerCidr.broadcastAddress.val =
      pool.dockerCidr.networkAddress.val + pool.dockerCidr.numAddresses - 1 := rfl
  rw [IPv4Network.contains_iff] at hin ⊢
  rcases hcases with ⟨_, hwrap⟩ | ⟨_, hforward⟩
  · rw [hwrap] at hr
    rcases sweep_some _ _ _ ip hr with ⟨hfree, hle, hlt⟩
    exact ⟨hfree, by omega, by omega⟩
  · rw [hforward] at hr
    rcases sweep_some _ _ _ ip hr with ⟨hfree, hle, hlt⟩
    exact ⟨hfree, by omega, by omega⟩

theorem firstFreeAfter_none (pool : SubnetPool) (h : pool.dockerCidr.prefixlen ≤ 28)
    (start : IPv4Address) (hr : firstFreeAfter pool start = .ok none) (ip : IPv4Address)
    (hip : ip ∈ pool.dockerCidr.hosts) : isFree pool ip = false := by
  rcases firstFreeAfter_cases _ h _ with ⟨origin, first, _, hfirst, -, hcases⟩
  rw [IPv4Network.mem_hosts _ (by omega)] at hip
  rcases hcases with ⟨hsweep, hwrap⟩ | ⟨hne, _⟩
  · rw [hwrap] at hr
    by_cases hle : origin.val ≤ ip.val
    · exact sweep_none _ _ _ hsweep ip hle (by omega)
    · exact sweep_none _ _ _ hr ip (by omega) (by omega)
  · exact absurd hr hne

theorem firstFreeAfter_error (pool : SubnetPool) (h : pool.dockerCidr.prefixlen ≤ 28)
    (start : IPv4Address) (e : AllocatorError) (hr : firstFreeAfter pool start = .error e)
    (message : String) : e ≠ .insufficientFreeAddressesInSubnet message := by
  obtain ⟨n, origin, hsweep⟩ : ∃ n origin, sweep pool n origin = .error e := by
    rcases firstFreeAfter_cases _ h _ with ⟨_, _, _, _, _, ⟨_, hwrap⟩ | ⟨_, hforward⟩⟩
    · exact ⟨_, _, hwrap ▸ hr⟩
    · exact ⟨_, _, hforward ▸ hr⟩
  rcases sweep_error _ n _ e hsweep with ⟨text, rfl⟩
  simp

end LocalEmu.Ec2.SubnetAllocator
