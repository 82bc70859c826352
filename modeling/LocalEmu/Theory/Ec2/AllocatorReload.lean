import LocalEmu.Theory.Ec2.AllocatorChange

/-!
# Reloading the Allocator

A snapshot holds the pools as texts, and no index: loading rebuilds the index
from the addresses of the pools. Reading the texts back yields every pool as it
was, so that a reload keeps the table of pools as it is, with its order, and an
index with the same lookups.

`Same` relates two such allocators. No operation tells them apart, because
where the order of the index would show, in the loops that forget addresses,
the lookups afterwards do not depend on it.
-/

namespace LocalEmu.Ec2.SubnetAllocator

open List Option

/-- The same pools, and an index with the same lookups. -/
structure Same (s t : SubnetAllocator) : Prop where
  pools : s.pools = t.pools
  index : ∀ ip, s.ipIndex.get? ip = t.ipIndex.get? ip

variable (s : SubnetAllocator)

theorem Same.refl : Same s s := ⟨rfl, fun _ => rfl⟩

theorem Same.symm {s t : SubnetAllocator} (h : Same s t) : Same t s :=
  ⟨h.pools.symm, fun ip => (h.index ip).symm⟩

theorem Same.exact {s t : SubnetAllocator} (h : Same s t) (hs : Exact s) : Exact t where
  keyed := h.pools ▸ hs.keyed
  sized := h.pools ▸ hs.sized
  apart := h.pools ▸ hs.apart
  inside := h.pools ▸ hs.inside
  indexed := by
    intro ip key
    rw [← h.index, hs.indexed]
    simp only [AllocatedIn, h.pools]

/-! ### Pools as texts -/

theorem parseAddress_text (a : IPv4Address) : parseAddress (IPv4Address.text a) = .ok a := by
  rw [parseAddress, IPv4Address.ofText_text]

theorem parseNetwork_text (net : IPv4Network) : parseNetwork net.text = .ok net := by
  rw [parseNetwork, IPv4Network.ofText_text]

theorem mapM_parseAddress (as : List IPv4Address) :
    (as.map IPv4Address.text).mapM parseAddress = .ok as := by
  induction as with
  | nil => rfl
  | cons a as ih =>
    rw [map_cons, mapM_cons, parseAddress_text, ih]
    rfl

theorem mapM_parseEntry (es : List (IPv4Address × String)) :
    ((es.map fun e => (IPv4Address.text e.1, e.2)).mapM fun e => do
      let ip ← parseAddress e.1
      pure (ip, e.2)) = (.ok es : Except AllocatorError _) := by
  induction es with
  | nil => rfl
  | cons e es ih =>
    rw [map_cons, mapM_cons, ih]
    simp only [parseAddress_text, bind, Except.bind, pure, Except.pure]

theorem exists_map_text (texts : List String) (h : ∀ x ∈ texts, ∃ a, IPv4Address.text a = x) :
    ∃ as : List IPv4Address, as.map IPv4Address.text = texts := by
  induction texts with
  | nil => exact ⟨[], rfl⟩
  | cons x texts ih =>
    rcases h x mem_cons_self with ⟨a, ha⟩
    rcases ih fun y hy => h y (mem_cons_of_mem x hy) with ⟨as, has⟩
    exact ⟨a :: as, by rw [map_cons, ha, has]⟩

theorem mapM_parseAddress_sort (reserved : Finset IPv4Address) :
    ∃ as, ((reserved.image IPv4Address.text).sort).mapM parseAddress = .ok as ∧
      as.toFinset = reserved := by
  have hspelled : ∀ x ∈ (reserved.image IPv4Address.text).sort, ∃ a, IPv4Address.text a = x := by
    intro x hx
    rw [Finset.mem_sort, Finset.mem_image] at hx
    rcases hx with ⟨a, _, ha⟩
    exact ⟨a, ha⟩
  rcases exists_map_text _ hspelled with ⟨as, has⟩
  refine ⟨as, by rw [← has, mapM_parseAddress], ?_⟩
  ext a
  calc a ∈ as.toFinset ↔ IPv4Address.text a ∈ as.map IPv4Address.text := by
        rw [List.mem_toFinset, List.mem_map_of_injective IPv4Address.text_injective]
    _ ↔ IPv4Address.text a ∈ reserved.image IPv4Address.text := by rw [has, Finset.mem_sort]
    _ ↔ a ∈ reserved := IPv4Address.text_injective.mem_finset_image

theorem text_ne_empty (a : IPv4Address) : IPv4Address.text a ≠ "" := by
  intro h
  have hparse := IPv4Address.ofText_text a
  rw [h] at hparse
  cases hparse

variable (ps : List SubnetPool) (pool : SubnetPool)

/-- Reading a pool back. -/
theorem poolOfJson_poolToJson : poolOfJson (poolToJson pool) = .ok pool := by
  rcases mapM_parseAddress_sort pool.reserved with ⟨as, hparse, hreserved⟩
  have hentries : (Dict.ofEntries
      (pool.allocated.entries.map fun e => (IPv4Address.text e.1, e.2))).entries =
      pool.allocated.entries.map fun e => (IPv4Address.text e.1, e.2) := by
    refine Dict.entries_ofEntries _ ?_
    rw [List.map_map]
    have hfst : Prod.fst ∘ (fun e : IPv4Address × String => (IPv4Address.text e.1, e.2)) =
        IPv4Address.text ∘ Prod.fst := rfl
    rw [hfst, ← List.map_map]
    exact pool.allocated.nodup.map IPv4Address.text_injective
  simp only [poolOfJson, poolToJson, getD_some, parseNetwork_text, hparse, hentries,
    mapM_parseEntry]
  simp only [bind, Except.bind, hreserved, Dict.ofEntries_entries]
  rcases hhint : pool.nextHint with _ | hint
  · simp
    cases pool
    cases hhint
    rfl
  · simp only [map_some, text_ne_empty, if_false, parseAddress_text, Functor.map,
      Except.map, pure, Except.pure]
    cases pool
    cases hhint
    rfl

/-! ### Loading -/

def stored : SubnetAllocator where
  pools := s.pools.set (pool.vpcId, pool.subnetId) pool
  ipIndex := pool.allocated.keys.foldl (fun d ip => d.set ip (pool.vpcId, pool.subnetId)) s.ipIndex

theorem exec_loadPools (s : SubnetAllocator) :
    Action.exec (loadPools (ps.map poolToJson)) s = (.ok ⟨⟩, ps.foldl stored s) := by
  induction ps generalizing s with
  | nil => rfl
  | cons pool ps ih =>
    rw [map_cons, loadPools, Action.exec_bind_of_ok _ _ s s _
      (by rw [Action.exec_ofExcept, poolOfJson_poolToJson]),
      Action.exec_bind_of_ok _ _ s (stored s pool) ⟨⟩ rfl, ih, foldl_cons]

theorem pools_foldl_stored (s : SubnetAllocator) : (ps.foldl stored s).pools =
      (ps.map fun p => ((p.vpcId, p.subnetId), p)).foldl (fun d e => d.set e.1 e.2) s.pools := by
  induction ps generalizing s with
  | nil => rfl
  | cons pool ps ih =>
    rw [foldl_cons, ih, map_cons]
    rfl

theorem get?_foldl_stored (s : SubnetAllocator) (ip : IPv4Address) (key : PoolKey)
    (honly : ∀ p ∈ ps, ip ∈ p.allocated.keys → (p.vpcId, p.subnetId) = key) :
    (ps.foldl stored s).ipIndex.get? ip =
      if ∃ p ∈ ps, ip ∈ p.allocated.keys then some key else s.ipIndex.get? ip := by
  induction ps generalizing s with
  | nil => simp
  | cons pool ps ih =>
    have hpool := honly _ mem_cons_self
    rw [foldl_cons, ih _ fun p hp => honly p (mem_cons_of_mem pool hp)]
    by_cases hrest : ∃ p ∈ ps, ip ∈ p.allocated.keys
    · rcases hrest with ⟨p, hp, hip⟩
      rw [if_pos ⟨p, hp, hip⟩, if_pos ⟨p, mem_cons_of_mem pool hp, hip⟩]
    · rw [if_neg hrest, stored, Dict.get?_foldl_set]
      by_cases hip : ip ∈ pool.allocated.keys
      · rw [if_pos hip, if_pos ⟨pool, mem_cons_self, hip⟩, hpool hip]
      · rw [if_neg hip, if_neg]
        rintro ⟨p, hp, hpip⟩
        rcases mem_cons.mp hp with rfl | hp
        · exact hip hpip
        · exact hrest ⟨p, hp, hpip⟩

theorem mem_keys_allocated (ip : IPv4Address) :
    ip ∈ pool.allocated.keys ↔ ∃ owner, pool.allocated.get? ip = some owner := by
  rw [← ne_none_iff_exists', ne_eq, Dict.get?_eq_none_iff, not_not]

theorem foldl_stored_same (hs : Exact s) : Same (s.pools.values.foldl stored empty) s where
  pools := by
    have hentries : s.pools.values.map (fun p => ((p.vpcId, p.subnetId), p)) =
        s.pools.entries := by
      conv_rhs => rw [← map_id s.pools.entries]
      rw [Dict.values, List.map_map]
      refine map_congr_left fun e he => ?_
      have hkey := hs.keyed e.1 e.2 ((Dict.get?_eq_some_iff _ _ _).mpr he)
      rw [Function.comp_apply, ← hkey]
      rfl
    rw [pools_foldl_stored, hentries]
    exact Dict.ofEntries_entries _
  index := by
    intro ip
    have hvalue : ∀ p ∈ s.pools.values, ∃ key, s.pools.get? key = some p := by
      intro p hp
      rcases mem_map.mp hp with ⟨e, he, rfl⟩
      exact ⟨e.1, (Dict.get?_eq_some_iff _ _ _).mpr he⟩
    rcases hindex : s.ipIndex.get? ip with _ | key
    · -- No pool holds the address.
      have hnone : ∀ p ∈ s.pools.values, ip ∉ p.allocated.keys := by
        intro p hp hip
        rcases hvalue p hp with ⟨key, hkey⟩
        rcases (mem_keys_allocated p ip).mp hip with ⟨owner, howner⟩
        rw [(hs.indexed ip _).mpr ⟨owner, p, hkey, howner⟩] at hindex
        cases hindex
      rw [get?_foldl_stored _ _ ip ("", "") fun p hp hip => absurd hip (hnone p hp), if_neg]
      · rfl
      · rintro ⟨p, hp, hip⟩
        exact hnone p hp hip
    · rcases (hs.indexed ip _).mp hindex with ⟨owner, pool, hpool, howner⟩
      rw [get?_foldl_stored _ _ ip, if_pos]
      · refine ⟨pool, ?_, (mem_keys_allocated _ ip).mpr ⟨owner, howner⟩⟩
        exact mem_map.mpr ⟨(key, pool), (Dict.get?_eq_some_iff _ _ _).mp hpool, rfl⟩
      · intro p hp hip
        rcases hvalue p hp with ⟨key', hkey'⟩
        rcases (mem_keys_allocated p ip).mp hip with ⟨owner', howner'⟩
        rw [← hs.keyed _ p hkey']
        exact (hs.allocated_once ip _ _ _ _ ⟨p, hkey', howner'⟩
          ⟨pool, hpool, howner⟩).1

/-- Reloading an allocator. -/
theorem fromDict_toDict (hs : Exact s) (other : SubnetAllocator) :
    ∃ t, Action.exec (fromDict (toDict s)) other = (.ok ⟨⟩, t) ∧ Same t s := by
  refine ⟨_, ?_, foldl_stored_same s hs⟩
  exact exec_loadPools _ _

end LocalEmu.Ec2.SubnetAllocator
