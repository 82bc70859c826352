import LocalEmu.Core.Ec2.VpcNetwork

/-!
# Subnets on the Bridge

A network that fits into the bridge has at most its size. Its own size then divides the
base of the bridge and the offset, so that masking the shifted address changes nothing.
-/

namespace LocalEmu

namespace IPv4Network

variable {net other : IPv4Network}

theorem subnetOf_iff : net.subnetOf other = true ↔
      other.networkAddress.val ≤ net.networkAddress.val ∧
        net.networkAddress.val + net.numAddresses ≤
          other.networkAddress.val + other.numAddresses := by
  have hpos' := other.numAddresses_pos
  rw [subnetOf, decide_eq_true_iff, Fin.le_def, Fin.le_def]
  simp only [broadcastAddress]
  omega

theorem dvd_networkAddress (h : net.numAddresses ≤ other.numAddresses) :
    net.numAddresses ∣ other.networkAddress.val := by
  have hexp : 32 - net.prefixlen ≤ 32 - other.prefixlen :=
    (Nat.pow_le_pow_iff_right (by omega)).mp h
  exact (Nat.pow_dvd_pow 2 hexp).trans (Nat.dvd_of_mod_eq_zero other.aligned)

end IPv4Network

namespace Ec2

variable {vpcAws vpcDocker subnetAws : IPv4Network}

/-- The network lies in the bridge as the subnet lies in the VPC. -/
structure Translates (vpcAws vpcDocker subnetAws result : IPv4Network) : Prop where
  prefixlen : result.prefixlen = subnetAws.prefixlen
  inside : result.subnetOf vpcDocker = true
  offset : result.networkAddress.val + vpcAws.networkAddress.val =
    vpcDocker.networkAddress.val + subnetAws.networkAddress.val

/-- The shifted subnet ends in the bridge. -/
def Fits (vpcAws vpcDocker subnetAws : IPv4Network) : Prop :=
  subnetAws.networkAddress.val - vpcAws.networkAddress.val + subnetAws.numAddresses ≤
    vpcDocker.numAddresses

/-- The result, if there is one, is the network at the same offset, and there is one if and
    only if it fits. -/
theorem translateNetwork_iff (hin : subnetAws.subnetOf vpcAws = true) (v d sub : String) :
    (∀ text, translateNetwork v d sub vpcAws vpcDocker subnetAws = .ok text →
      ∃ result, IPv4Network.ofText text = some result ∧
        Translates vpcAws vpcDocker subnetAws result) ∧
    ((∃ e, translateNetwork v d sub vpcAws vpcDocker subnetAws = .error e) ↔
      ¬Fits vpcAws vpcDocker subnetAws) := by
  rw [IPv4Network.subnetOf_iff] at hin
  have hend := vpcDocker.networkAddress_add_le
  have hpos := subnetAws.numAddresses_pos
  have hoffset : ((subnetAws.networkAddress.val : Int) - vpcAws.networkAddress.val).toNat =
      subnetAws.networkAddress.val - vpcAws.networkAddress.val := by omega
  simp only [translateNetwork, hoffset]
  rw [if_neg (by omega)]
  cases hbase : IPv4Address.ofNat? (vpcDocker.networkAddress.val +
      (subnetAws.networkAddress.val - vpcAws.networkAddress.val)) with
  | none =>
    -- the shifted subnet begins behind the last address
    have hover : ¬Fits vpcAws vpcDocker subnetAws := by
      intro hfits
      rw [Fits] at hfits
      rw [IPv4Address.ofNat?, dif_pos (by omega)] at hbase
      cases hbase
    simp [hover]
  | some base =>
    rw [IPv4Address.ofNat?_eq_some] at hbase
    have hsize : (IPv4Network.ofAddress base subnetAws.prefixlen
      subnetAws.prefixlen_le).numAddresses = subnetAws.numAddresses := rfl
    have hmask : (IPv4Network.ofAddress base subnetAws.prefixlen
        subnetAws.prefixlen_le).networkAddress.val =
        base.val - base.val % subnetAws.numAddresses := rfl
    -- nothing is masked where the subnet is not larger than the bridge
    have haligned : subnetAws.numAddresses ≤ vpcDocker.numAddresses →
        base.val % subnetAws.numAddresses = 0 := by
      intro hle
      refine Nat.mod_eq_zero_of_dvd ?_
      rw [hbase]
      refine Nat.dvd_add (IPv4Network.dvd_networkAddress hle) (Nat.dvd_sub ?_ ?_)
      · exact Nat.dvd_of_mod_eq_zero subnetAws.aligned
      · exact IPv4Network.dvd_networkAddress (by omega)
    have hmod : base.val % subnetAws.numAddresses ≤ base.val := Nat.mod_le _ _
    have hfits : (IPv4Network.ofAddress base subnetAws.prefixlen
        subnetAws.prefixlen_le).subnetOf vpcDocker = true ↔
        Fits vpcAws vpcDocker subnetAws := by
      rw [IPv4Network.subnetOf_iff, Fits]
      constructor
      · intro h
        omega
      · intro h
        omega
    by_cases h : (IPv4Network.ofAddress base subnetAws.prefixlen
        subnetAws.prefixlen_le).subnetOf vpcDocker = true
    · have hfits := hfits.mp h
      have := haligned (by rw [Fits] at hfits; omega)
      simp only [h, if_true, Except.ok.injEq, reduceCtorEq, exists_false, hfits,
        not_true_eq_false, and_true, forall_eq']
      exact ⟨_, IPv4Network.ofText_text _, rfl, h, by omega⟩
    · simp [h, hfits.not.mp h]

theorem Translates.contains {result : IPv4Network}
    (h : Translates vpcAws vpcDocker subnetAws result) (a b : IPv4Address)
    (ha : result.contains a = true)
    (hb : b.val + vpcDocker.networkAddress.val = a.val + vpcAws.networkAddress.val) :
    subnetAws.contains b = true := by
  have hsize : result.numAddresses = subnetAws.numAddresses := by
    rw [IPv4Network.numAddresses, h.prefixlen]
    rfl
  have hoffset := h.offset
  rw [IPv4Network.contains_iff] at ha ⊢
  omega

theorem Translates.disjoint {subnet result result' : IPv4Network}
    (h : Translates vpcAws vpcDocker subnetAws result)
    (h' : Translates vpcAws vpcDocker subnet result')
    (hdisjoint : subnetAws.Disjoint subnet) : result.Disjoint result' := by
  rintro a ⟨ha, ha'⟩
  have hsize : result.numAddresses = subnetAws.numAddresses := by
    rw [IPv4Network.numAddresses, h.prefixlen]
    rfl
  have hoffset := h.offset
  have hend := subnetAws.networkAddress_add_le
  have ha₀ := result.contains_iff a |>.mp ha
  -- the address of the VPC at the same offset
  obtain ⟨b, hb⟩ : ∃ b : IPv4Address,
      b.val + vpcDocker.networkAddress.val = a.val + vpcAws.networkAddress.val := by
    exact ⟨⟨a.val + vpcAws.networkAddress.val - vpcDocker.networkAddress.val, by omega⟩,
      by simp only; omega⟩
  exact hdisjoint b ⟨h.contains a b ha hb, h'.contains a b ha' hb⟩

/-- The text of a subnet of the VPC becomes that of the network of the same size at the same offset
    in the bridge, unless the shifted subnet does not fit. Subnets that are apart stay apart. -/
theorem translation_preserves_layout (v d sub : String)
    (vpcAws vpcDocker subnetAws : IPv4Network) (hv : IPv4Network.ofText v = some vpcAws)
    (hd : IPv4Network.ofText d = some vpcDocker) (hsub : IPv4Network.ofText sub = some subnetAws)
    (hin : subnetAws.subnetOf vpcAws = true) :
    (∀ text, translateSubnetAwsToDockerCidr v d sub = .ok text →
      ∃ result, IPv4Network.ofText text = some result ∧
        Translates vpcAws vpcDocker subnetAws result ∧
        ∀ sub' subnet text' result', IPv4Network.ofText sub' = some subnet →
          subnet.subnetOf vpcAws = true → subnetAws.Disjoint subnet →
          translateSubnetAwsToDockerCidr v d sub' = .ok text' →
          IPv4Network.ofText text' = some result' → result.Disjoint result') ∧
    ((∃ e, translateSubnetAwsToDockerCidr v d sub = .error e) ↔
      ¬Fits vpcAws vpcDocker subnetAws) := by
  have hspec : ∀ sub subnet, IPv4Network.ofText sub = some subnet →
      subnet.subnetOf vpcAws = true →
      (∀ text, translateSubnetAwsToDockerCidr v d sub = .ok text →
        ∃ result, IPv4Network.ofText text = some result ∧
          Translates vpcAws vpcDocker subnet result) ∧
      ((∃ e, translateSubnetAwsToDockerCidr v d sub = .error e) ↔
        ¬Fits vpcAws vpcDocker subnet) := by
    intro sub subnet hsub hin
    rw [translateSubnetAwsToDockerCidr]
    by_cases heq : v = d
    · -- the bridge is the network of the VPC, and the text is returned as it is
      cases heq
      cases hv.symm.trans hd
      have hfits : Fits vpcAws vpcAws subnet := by
        rw [IPv4Network.subnetOf_iff] at hin
        rw [Fits]
        omega
      rw [if_pos rfl]
      refine ⟨fun text h => ?_, by simp [hfits]⟩
      cases h
      exact ⟨subnet, hsub, rfl, hin, by omega⟩
    · have hparse : ∀ text net, IPv4Network.ofText text = some net → parseCidr text = .ok net := by
        intro text net h
        rw [parseCidr, h]
      rw [if_neg heq, hparse v _ hv, hparse d _ hd, hparse _ _ hsub]
      exact translateNetwork_iff hin v d _
  refine ⟨fun text h => ?_, (hspec _ _ hsub hin).2⟩
  rcases (hspec _ _ hsub hin).1 text h with ⟨result, hresult, htranslates⟩
  refine ⟨result, hresult, htranslates, ?_⟩
  intro sub' subnet text' result' hsub' hin' hdisjoint h' hresult'
  rcases (hspec _ _ hsub' hin').1 text' h' with ⟨other, hother, htranslates'⟩
  cases hother.symm.trans hresult'
  exact htranslates.disjoint htranslates' hdisjoint

def exampleVpc : IPv4Network :=
  ⟨⟨10 * 2 ^ 24 + 86 * 2 ^ 16, by decide⟩, 16, Nat.le_add_right 16 16, by decide⟩

def exampleVpcBridge : IPv4Network :=
  ⟨⟨2 ^ 24 * 10, by decide⟩, 16, Nat.le_add_right 16 16, by decide⟩

def exampleSubnet : IPv4Network :=
  ⟨⟨10 * 2 ^ 24 + 86 * 2 ^ 16 + 2 ^ 8, by decide⟩, 24, by decide, by decide⟩

theorem translation_of_exampleSubnet :
    ∃ result, IPv4Network.ofText "10.0.1.0/24" = some result ∧
      Translates exampleVpc exampleVpcBridge exampleSubnet result := by
  rcases (translation_preserves_layout "10.86.0.0/16" "10.0.0.0/16" "10.86.1.0/24"
    exampleVpc exampleVpcBridge exampleSubnet (by decide +kernel) (by decide +kernel)
    (by decide +kernel) (by decide +kernel)).1 "10.0.1.0/24" (by decide +kernel) with
    ⟨result, hresult, h, -⟩
  exact ⟨result, hresult, h⟩

end Ec2

end LocalEmu
