import LocalEmu.Core.Ec2.VpcNetwork

/-!
# The Network of a Bridge

Docker refuses a network that overlaps one it has. The bridge of a VPC is then moved to a slice
of a fallback tier, the first one that keeps clear of the networks there are and of those that
are reserved. Slices are aligned, so a network of their length in a tier is one of them: where
no slice is free, no network of this length is.
-/

namespace LocalEmu

open List Option

namespace IPv4Network

variable (net other : IPv4Network)

/-- What does not overlap is disjoint. -/
theorem overlaps_eq_false_iff : net.overlaps other = false ↔ net.Disjoint other := by
  have hpos := net.numAddresses_pos
  have hpos' := other.numAddresses_pos
  rw [← Bool.not_eq_true, overlaps]
  simp only [Bool.or_eq_true, contains_iff, broadcastAddress, Disjoint]
  constructor
  · intro h a ha
    omega
  · intro h
    -- If they meet at all, one of them has the base of the other.
    have hnet := h net.networkAddress
    have hother := h other.networkAddress
    omega

/-- The subnets are the networks of their length inside the network. -/
theorem mem_subnets (newPrefix : Nat) (h : newPrefix ≤ 32) (hle : net.prefixlen ≤ newPrefix) :
    other ∈ net.subnets newPrefix h ↔
      other.prefixlen = newPrefix ∧ other.subnetOf net = true := by
  have hsize : net.numAddresses = 2 ^ (newPrefix - net.prefixlen) * 2 ^ (32 - newPrefix) := by
    rw [numAddresses, ← Nat.pow_add]
    congr 1
    omega
  -- The base of the network is a multiple of the size of a subnet.
  obtain ⟨q, hq⟩ : 2 ^ (32 - newPrefix) ∣ net.networkAddress.val :=
    (Nat.pow_dvd_pow 2 (by omega)).trans (Nat.dvd_of_mod_eq_zero net.aligned)
  have hpos := Nat.two_pow_pos (32 - newPrefix)
  have hpos' := net.numAddresses_pos
  rw [hsize] at hpos'
  rw [subnets, if_neg (Nat.not_lt.mpr hle), mem_filterMap]
  simp only [mem_range, map_eq_some_iff, IPv4Address.ofNat?_eq_some, subnetOf,
    decide_eq_true_eq, Fin.le_def, broadcastAddress, hsize]
  constructor
  · rintro ⟨k, hk, a, ha, rfl⟩
    have hmod : a.val % 2 ^ (32 - newPrefix) = 0 := by
      rw [ha, hq, Nat.add_mul_mod_self_right, Nat.mul_mod_right]
    have hmul := Nat.mul_le_mul_right (2 ^ (32 - newPrefix)) (Nat.succ_le_of_lt hk)
    rw [Nat.succ_mul] at hmul
    refine ⟨rfl, ?_⟩
    simp only [ofAddress, hmod, numAddresses]
    omega
  · rintro ⟨hlen, hstart, hlast⟩
    obtain ⟨r, hr⟩ := Nat.dvd_of_mod_eq_zero other.aligned
    rw [numAddresses] at hlast
    rw [hlen] at hr hlast
    change other.networkAddress.val = _ at hr
    rw [hq, hr] at hstart hlast
    -- In units of a subnet the other network begins at `r`, and this one at `q`.
    have hqr := Nat.le_of_mul_le_mul_left hstart hpos
    have hlast : 2 ^ (32 - newPrefix) * (r + 1) ≤
        2 ^ (32 - newPrefix) * (q + 2 ^ (newPrefix - net.prefixlen)) := by
      rw [Nat.mul_add, Nat.mul_add, Nat.mul_comm _ (2 ^ (newPrefix - net.prefixlen))]
      omega
    have hlt := Nat.le_of_mul_le_mul_left hlast hpos
    refine ⟨r - q, by omega, other.networkAddress, ?_,
      ofAddress_networkAddress _ _ h hlen.symm⟩
    rw [hr, hq, Nat.mul_comm (r - q), ← Nat.mul_add, Nat.add_sub_cancel' hqr]

end IPv4Network

namespace Ec2

/-- A slice of a tier that keeps clear of what is reserved there. -/
def SubnetTier.Slice (tier : SubnetTier) (net : IPv4Network) : Prop :=
  net.prefixlen = tier.slicePrefixLen ∧ net.subnetOf tier.pool = true ∧
    ∀ other ∈ tier.reserved, net.Disjoint other

variable (usedNetworks : List IPv4Network)

/-- The network keeps clear of all networks that there are. -/
def Free (net : IPv4Network) : Prop := ∀ used ∈ usedNetworks, net.Disjoint used

theorem candidate_iff (tier : SubnetTier) (net : IPv4Network) :
    (net ∈ tier.pool.subnets tier.slicePrefixLen tier.slicePrefixLen_le ∧
      (!tier.reserved.any net.overlaps && !usedNetworks.any net.overlaps) = true) ↔
      tier.Slice net ∧ Free usedNetworks net := by
  simp only [IPv4Network.mem_subnets _ _ _ _ tier.prefixlen_le, SubnetTier.Slice, Free,
    Bool.and_eq_true, Bool.not_eq_true', List.any_eq_false, Bool.not_eq_true,
    IPv4Network.overlaps_eq_false_iff, and_assoc]

theorem pickFreeSubnet_eq_some {subnet : String}
    (h : pickFreeSubnet (some usedNetworks) = some subnet) :
    ∃ net : IPv4Network, subnet = net.text ∧ Free usedNetworks net ∧
      ∃ tier ∈ fallbackSubnetTiers, tier.Slice net := by
  obtain ⟨tier, htier, hfound⟩ := exists_of_findSome?_eq_some h
  obtain ⟨net, hfind, rfl⟩ := map_eq_some_iff.mp hfound
  have hkept := find?_some hfind
  have hslice := (candidate_iff _ _ _).mp ⟨mem_of_find?_eq_some hfind, hkept⟩
  exact ⟨net, rfl, hslice.2, tier, htier, hslice.1⟩

theorem pickFreeSubnet_eq_none (h : pickFreeSubnet (some usedNetworks) = none)
    {tier : SubnetTier} (htier : tier ∈ fallbackSubnetTiers) {net : IPv4Network}
    (hslice : tier.Slice net) : ¬Free usedNetworks net := by
  intro hfree
  have hin := (candidate_iff usedNetworks _ _).mpr ⟨hslice, hfree⟩
  exact find?_eq_none.mp (map_eq_none_iff.mp (findSome?_eq_none_iff.mp h tier htier)) net
    hin.1 hin.2

/-- A bridge keeps clear of all networks that there are. It has the network that is asked for if
    this one does, and a slice of a tier otherwise; there is no bridge only if no slice does. -/
theorem createDockerBridge_spec (createNetwork : String → Option String) (cidrBlock : String)
    (hdocker : ∀ subnet, (createNetwork subnet).isSome = true ↔
      ∃ net, IPv4Network.ofText subnet = some net ∧ Free usedNetworks net) :
    (∀ networkId subnet,
      createDockerBridge createNetwork (some usedNetworks) cidrBlock = some (networkId, subnet) →
        ∃ net, IPv4Network.ofText subnet = some net ∧ Free usedNetworks net ∧
          (subnet = cidrBlock ∨ ∃ tier ∈ fallbackSubnetTiers, tier.Slice net)) ∧
    (∀ net, IPv4Network.ofText cidrBlock = some net → Free usedNetworks net →
      ∃ networkId, createDockerBridge createNetwork (some usedNetworks) cidrBlock =
        some (networkId, cidrBlock)) ∧
    (createDockerBridge createNetwork (some usedNetworks) cidrBlock = none ↔
      ∀ net, (IPv4Network.ofText cidrBlock = some net ∨
        ∃ tier ∈ fallbackSubnetTiers, tier.Slice net) → ¬Free usedNetworks net) := by
  have hempty : createNetwork "" = none := not_isSome_iff_eq_none.mp fun hsome => by
    obtain ⟨net, hnet, -⟩ := (hdocker "").mp hsome
    have hnone : IPv4Network.ofText "" = none := by decide
    cases hnone.symm.trans hnet
  -- An empty text is not sent to Docker, which would refuse it.
  have hfirst : (if cidrBlock = "" then none else
      (createNetwork cidrBlock).map (·, cidrBlock)) =
        (createNetwork cidrBlock).map (·, cidrBlock) :=
    ite_eq_right_iff.mpr fun h => by rw [h, hempty, map_none]
  simp only [createDockerBridge, hfirst]
  cases hid : createNetwork cidrBlock with
  | some networkId =>
    obtain ⟨net, hnet, hfree⟩ := (hdocker cidrBlock).mp (by rw [hid, isSome_some])
    refine ⟨fun _ _ h => ?_, fun _ _ _ => ⟨networkId, rfl⟩,
      iff_of_false nofun fun hall => hall net (.inl hnet) hfree⟩
    cases h
    exact ⟨net, hnet, hfree, .inl rfl⟩
  | none =>
    -- What Docker refuses is not free.
    have hrefused (net) (hnet : IPv4Network.ofText cidrBlock = some net) :
        ¬Free usedNetworks net := by
      intro hfree
      have hsome := (hdocker cidrBlock).mpr ⟨net, hnet, hfree⟩
      rw [hid] at hsome
      cases hsome
    cases hpick : pickFreeSubnet (some usedNetworks) with
    | some subnet =>
      obtain ⟨net, rfl, hfree, hslice⟩ := pickFreeSubnet_eq_some _ hpick
      have htext := IPv4Network.ofText_text net
      obtain ⟨networkId, hmoved⟩ :=
        isSome_iff_exists.mp ((hdocker net.text).mpr ⟨net, htext, hfree⟩)
      simp only [map_none, bind_some, hmoved, map_some]
      refine ⟨fun _ _ h => ?_, fun net hnet hfree => absurd hfree (hrefused net hnet),
        iff_of_false nofun fun hall => hall net (.inr hslice) hfree⟩
      cases h
      exact ⟨net, htext, hfree, .inr hslice⟩
    | none =>
      refine ⟨nofun, fun net hnet hfree => absurd hfree (hrefused net hnet), iff_of_true rfl ?_⟩
      rintro net (hnet | ⟨tier, htier, hslice⟩)
      · exact hrefused net hnet
      · exact pickFreeSubnet_eq_none _ hpick htier hslice

/-- What Docker does while the only network it has is the given one. -/
def onlyNetwork (used : IPv4Network) (subnet : String) : Option String :=
  (IPv4Network.ofText subnet).bind fun net => if net.overlaps used then none else some "network"

theorem isSome_onlyNetwork (used : IPv4Network) (subnet : String) :
    (onlyNetwork used subnet).isSome = true ↔
      ∃ net, IPv4Network.ofText subnet = some net ∧ Free [used] net := by
  simp only [Free, forall_mem_singleton, ← IPv4Network.overlaps_eq_false_iff, onlyNetwork]
  cases IPv4Network.ofText subnet with
  | none => simp
  | some net => cases h : net.overlaps used <;> simp [h]

theorem createDockerBridge_spec_onlyNetwork :
    let used := IPv4Network.ofAddress 0 32 (by decide)
    ∃ networkId, createDockerBridge (onlyNetwork used) (some [used]) "10.0.0.0/16" =
      some (networkId, "10.0.0.0/16") := by
  intro used
  refine (createDockerBridge_spec [used] (onlyNetwork used) "10.0.0.0/16"
    (isSome_onlyNetwork used)).2.1 (.ofAddress (Fin.ofNat _ (10 * 2 ^ 24)) 16 (by decide))
      (by decide +kernel) ?_
  rw [Free, forall_mem_singleton, ← IPv4Network.overlaps_eq_false_iff]
  decide +kernel

end Ec2

end LocalEmu
