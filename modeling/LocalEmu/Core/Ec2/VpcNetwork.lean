import LocalEmu.Base.Ipv4

/-!
# The Network of a VPC

The bridge of a VPC may lie elsewhere than the network of the VPC. A subnet is then moved by
the distance between the two.
-/

namespace LocalEmu

/-- `network.subnet_of(other)`. -/
def IPv4Network.subnetOf (net other : IPv4Network) : Bool :=
  decide (other.networkAddress ≤ net.networkAddress ∧
    net.broadcastAddress ≤ other.broadcastAddress)

/-- `network.overlaps(other)`. -/
def IPv4Network.overlaps (net other : IPv4Network) : Bool :=
  other.contains net.networkAddress || other.contains net.broadcastAddress ||
    net.contains other.networkAddress || net.contains other.broadcastAddress

/-- `network.subnets(new_prefix=…)`, with no subnets where it raises. -/
def IPv4Network.subnets (net : IPv4Network) (newPrefix : Nat) (h : newPrefix ≤ 32) :
    List IPv4Network :=
  if newPrefix < net.prefixlen then
    -- One address is a subnet of itself, whatever the length.
    if net.prefixlen = 32 then [net] else []
  else
    (List.range (2 ^ (newPrefix - net.prefixlen))).filterMap fun k =>
      (IPv4Address.ofNat? (net.networkAddress.val + k * 2 ^ (32 - newPrefix))).map
        fun a => .ofAddress a newPrefix h

namespace Ec2

/-- A `ValueError`, or that of a text that is no network. -/
inductive CidrError
  | valueError (message : String)
  | addressValueError (text : String)
  deriving DecidableEq

/-- `IPv4Network(text, strict=False)`. -/
def parseCidr (text : String) : Except CidrError IPv4Network :=
  match IPv4Network.ofText text with
  | some net => .ok net
  | none => .error (.addressValueError text)

/-- The translation of networks that have been parsed, with their texts. -/
def translateNetwork (vpcAwsCidr vpcDockerCidr subnetAwsCidr : String)
    (vpcAws vpcDocker subnetAws : IPv4Network) : Except CidrError String :=
  let awsOffset : Int := subnetAws.networkAddress.val - vpcAws.networkAddress.val
  if awsOffset < 0 then
    .error (.valueError ("subnet " ++ subnetAwsCidr ++ " is below VPC base " ++ vpcAwsCidr))
  else
    match IPv4Address.ofNat? (vpcDocker.networkAddress.val + awsOffset.toNat) with
    | none =>
      .error (.valueError ("subnet shift overflows IPv4 space: vpc_aws=" ++ vpcAwsCidr ++
        " vpc_docker=" ++ vpcDockerCidr ++ " subnet_aws=" ++ subnetAwsCidr))
    | some dockerBase =>
      let candidate := IPv4Network.ofAddress dockerBase subnetAws.prefixlen
        subnetAws.prefixlen_le
      if candidate.subnetOf vpcDocker then .ok candidate.text
      else
        .error (.valueError ("translated subnet " ++ candidate.text ++
          " does not fit in VPC docker bridge " ++ vpcDockerCidr))

/-- The network of a subnet on the bridge. -/
def translateSubnetAwsToDockerCidr (vpcAwsCidr vpcDockerCidr subnetAwsCidr : String) :
    Except CidrError String :=
  if vpcAwsCidr = vpcDockerCidr then .ok subnetAwsCidr
  else do
    let vpcAws ← parseCidr vpcAwsCidr
    let vpcDocker ← parseCidr vpcDockerCidr
    let subnetAws ← parseCidr subnetAwsCidr
    translateNetwork vpcAwsCidr vpcDockerCidr subnetAwsCidr vpcAws vpcDocker subnetAws

/-- An entry of `FALLBACK_SUBNET_TIERS`. -/
structure SubnetTier where
  pool : IPv4Network
  slicePrefixLen : Nat
  slicePrefixLen_le : slicePrefixLen ≤ 32
  prefixlen_le : pool.prefixlen ≤ slicePrefixLen
  reserved : List IPv4Network

/-- `FALLBACK_SUBNET_TIERS`. -/
def fallbackSubnetTiers : List SubnetTier :=
  let net (a b prefixlen : Nat) (h : prefixlen ≤ 32) : IPv4Network :=
    .ofAddress (Fin.ofNat _ (a * 2 ^ 24 + b * 2 ^ 16)) prefixlen h
  [⟨net 10 0 8 (by decide), 16, by decide, by decide, []⟩,
    ⟨net 172 16 12 (by decide), 16, by decide, by decide, [net 172 17 16 (by decide)]⟩,
    ⟨net 100 64 10 (by decide), 16, by decide, by decide, []⟩,
    ⟨net 192 168 16 (by decide), 20, by decide, by decide, []⟩]

/-- `_pick_free_subnet`, with what `_inspect_all_docker_subnets` returns, unless it raises. -/
def pickFreeSubnet (inspected : Option (List IPv4Network)) : Option String :=
  inspected.bind fun usedNetworks =>
    fallbackSubnetTiers.findSome? fun tier =>
      ((tier.pool.subnets tier.slicePrefixLen tier.slicePrefixLen_le).find? fun candidate =>
        !tier.reserved.any candidate.overlaps && !usedNetworks.any candidate.overlaps).map
          IPv4Network.text

/-- `_create_docker_bridge`: the id and the network of the bridge. -/
def createDockerBridge (createNetwork : String → Option String)
    (inspected : Option (List IPv4Network)) (cidrBlock : String) : Option (String × String) :=
  let create (subnet : String) := (createNetwork subnet).map fun networkId => (networkId, subnet)
  match if cidrBlock = "" then none else create cidrBlock with
  | some bridge => some bridge
  | none => (pickFreeSubnet inspected).bind create

end Ec2

end LocalEmu
