import Mathlib.Data.Finset.Sort
import Mathlib.Data.String.Basic
import LocalEmu.Base.Action
import LocalEmu.Base.Dict
import LocalEmu.Base.Ipv4

/-!
# The Subnet Allocator

The allocator hands out the addresses of subnets. Each subnet has a pool with a
table of its allocated addresses, and a second table maps every allocated
address back to its pool. A request without an address takes the first free one
from a cursor on, and wraps around at the end of the network.

The operations are actions: what one has done before it raises stays done.
Addresses and networks that arrive as text are parsed before anything else
happens, so the operations take addresses and networks.

## Main definitions

* `SubnetPool`, `SubnetAllocator`: A pool, and the two tables.
* `registerSubnet`, `unregisterSubnet`, `forceUnregisterSubnet`, `reserve`,
  `release`, `claim`, `lookup`: The operations.
* `toDict`, `fromDict`: The persisted form.
-/

namespace LocalEmu.Ec2

/-- The exceptions of the allocator. -/
inductive AllocatorError
  | insufficientFreeAddressesInSubnet (message : String)
  | invalidIpForSubnet (message : String)
  | ipAddressInUse (message : String)
  | ipClaimConflict (message : String)
  | subnetCidrConflict (message : String)
  | subnetInUse (message : String)
  | unknownSubnet (message : String)
  -- Exceptions of the standard library.
  | addressValueError (text : String)
  | typeError (message : String)

/-- The key of a pool: the VPC and the subnet. -/
abbrev PoolKey := String × String

structure SubnetPool where
  vpcId : String
  subnetId : String
  awsCidr : IPv4Network
  dockerCidr : IPv4Network
  az : String
  reserved : Finset IPv4Address
  allocated : Dict IPv4Address String
  nextHint : Option IPv4Address

structure SubnetAllocator where
  pools : Dict PoolKey SubnetPool
  ipIndex : Dict IPv4Address PoolKey

abbrev AllocatorAction (α : Type) := Action SubnetAllocator AllocatorError α

namespace SubnetAllocator

/-- An allocator without pools. -/
def empty : SubnetAllocator := ⟨Dict.empty, Dict.empty⟩

/-! ### Pools -/

/-- `next(network.hosts())`. The hosts of a single address are a list, which is no iterator. -/
def nextHost (net : IPv4Network) : Except AllocatorError IPv4Address :=
  match net.hosts.head? with
  | some host =>
    if net.prefixlen = 32 then .error (.typeError "'list' object is not an iterator")
    else .ok host
  | none => .error (.typeError "StopIteration")

/-- An address, or else the first host of a network. -/
def orNextHost (net : IPv4Network) : Option IPv4Address → Except AllocatorError IPv4Address
  | some a => .ok a
  | none => nextHost net

/-- The addresses a subnet never hands out. -/
def computeReserved (awsCidr dockerCidr : IPv4Network) :
    Except AllocatorError (Finset IPv4Address) := do
  let reserved :=
    if 5 ≤ awsCidr.numAddresses then
      {awsCidr.networkAddress, awsCidr.broadcastAddress} ∪ (awsCidr.hosts.take 3).toFinset
    else
      awsCidr.hosts.toFinset ∪ {awsCidr.networkAddress, awsCidr.broadcastAddress}
  if 2 ≤ dockerCidr.numAddresses then
    let dockerGateway ← nextHost dockerCidr
    return insert dockerGateway reserved
  else return reserved

variable (pool : SubnetPool)

def isFree (candidate : IPv4Address) : Bool :=
  decide (candidate ∉ pool.reserved) && (pool.allocated.get? candidate).isNone

/-- A loop that tests so many addresses from a candidate on. Stepping behind the
    last address raises. -/
def sweep (pool : SubnetPool) : Nat → IPv4Address → Except AllocatorError (Option IPv4Address)
  | 0, _ => .ok none
  | n + 1, candidate =>
    if isFree pool candidate then .ok (some candidate)
    else
      match IPv4Address.succ? candidate with
      | some next => sweep pool n next
      | none => .error (.addressValueError (toString (candidate.val + 1)))

/-- `_first_free_after`: from the start to the broadcast address, and then from
    the first host to the start. -/
def firstFreeAfter (start : IPv4Address) : Except AllocatorError (Option IPv4Address) := do
  let cidr := pool.dockerCidr
  let start ← if cidr.contains start then .ok start else nextHost cidr
  match ← sweep pool (cidr.broadcastAddress.val + 1 - start.val) start with
  | some candidate => return some candidate
  | none =>
    let first ← nextHost cidr
    sweep pool (start.val - first.val) first

/-! ### Subnets -/

/-- The message for a pool that does not exist. -/
def notRegistered (vpcId subnetId : String) : AllocatorError :=
  .unknownSubnet ("subnet " ++ subnetId ++ " in " ++ vpcId ++ " is not registered")

variable (key : PoolKey)

def setPool (pool : SubnetPool) : AllocatorAction PUnit :=
  modify fun s => { s with pools := s.pools.set key pool }

def registerSubnet (vpcId subnetId : String) (awsNet dockerNet : IPv4Network) (az : String) :
    AllocatorAction PUnit := do
  let s ← get
  match s.pools.get? (vpcId, subnetId) with
  | some existing =>
    if existing.awsCidr ≠ awsNet ∨ existing.dockerCidr ≠ dockerNet then
      throw (.subnetCidrConflict
        ("subnet " ++ subnetId ++ " re-registered with different CIDR: had (aws=" ++
          existing.awsCidr.text ++ ", docker=" ++ existing.dockerCidr.text ++ "), got (aws=" ++
          awsNet.text ++ ", docker=" ++ dockerNet.text ++ ")"))
    else pure ⟨⟩
  | none =>
    let reserved ← Action.ofExcept (computeReserved awsNet dockerNet)
    setPool (vpcId, subnetId)
      { vpcId := vpcId
        subnetId := subnetId
        awsCidr := awsNet
        dockerCidr := dockerNet
        az := az
        reserved := reserved
        allocated := Dict.empty
        nextHint := dockerNet.hosts.find? fun host => host ∉ reserved }

/-- Forget every address of the index that satisfies a condition. -/
def forgetWhere (condition : IPv4Address → PoolKey → Bool) : AllocatorAction PUnit :=
  modify fun s =>
    { s with
      ipIndex := (s.ipIndex.entries.filter fun e => condition e.1 e.2).foldl
        (fun d e => d.erase e.1) s.ipIndex }

def unregisterSubnet (vpcId subnetId : String) : AllocatorAction PUnit := do
  let s ← get
  match s.pools.get? (vpcId, subnetId) with
  | none => pure ⟨⟩
  | some pool =>
    if pool.allocated.entries ≠ [] then
      throw (.subnetInUse ("subnet " ++ subnetId ++ " has " ++
        toString pool.allocated.entries.length ++ " live allocations"))
    else
      modify fun s => { s with pools := s.pools.erase (vpcId, subnetId) }
      forgetWhere fun _ key => key = (vpcId, subnetId)

/-- `force_unregister_subnet`: the number of released addresses. -/
def forceUnregisterSubnet (vpcId subnetId : String) : AllocatorAction Nat := do
  let s ← get
  match s.pools.get? (vpcId, subnetId) with
  | none => pure 0
  | some pool =>
    modify fun s => { s with pools := s.pools.erase (vpcId, subnetId) }
    modify fun s => { s with
      ipIndex := pool.allocated.keys.foldl (fun d ip => d.erase ip) s.ipIndex }
    pure pool.allocated.keys.length

/-! ### Addresses -/

def allocate (pool : SubnetPool) (ip : IPv4Address) (ownerKey : String) :
    AllocatorAction PUnit := do
  setPool key { pool with allocated := pool.allocated.set ip ownerKey }
  modify fun s => { s with ipIndex := s.ipIndex.set ip key }

def setHint (hint : IPv4Address) : AllocatorAction PUnit := do
  let s ← get
  match s.pools.get? key with
  | none => pure ⟨⟩
  | some pool => setPool key { pool with nextHint := some hint }

def reserve (vpcId subnetId ownerKey : String) (requested : Option IPv4Address) :
    AllocatorAction IPv4Address := do
  let s ← get
  match s.pools.get? (vpcId, subnetId) with
  | none => throw (notRegistered vpcId subnetId)
  | some pool =>
    match requested with
    | some ip =>
      if ¬ pool.dockerCidr.contains ip then
        throw (.invalidIpForSubnet (IPv4Address.text ip ++ " is not in subnet " ++ subnetId ++
          "'s docker_cidr " ++ pool.dockerCidr.text))
      else if ip ∈ pool.reserved then
        throw (.invalidIpForSubnet
          (IPv4Address.text ip ++ " is reserved (AWS or Docker reservation)"))
      else
        match pool.allocated.get? ip with
        | some owner =>
          throw (.ipAddressInUse
            (IPv4Address.text ip ++ " is already allocated to " ++ owner))
        | none =>
          allocate (vpcId, subnetId) pool ip ownerKey
          pure ip
    | none =>
      let hint ← Action.ofExcept (orNextHost pool.dockerCidr pool.nextHint)
      match ← Action.ofExcept (firstFreeAfter pool hint) with
      | none =>
        throw (.insufficientFreeAddressesInSubnet ("subnet " ++ subnetId ++
          " pool exhausted (" ++ toString pool.allocated.entries.length ++ " allocated, " ++
          toString pool.reserved.card ++ " reserved, " ++
          toString pool.dockerCidr.numAddresses ++ " total)"))
      | some ip =>
        allocate (vpcId, subnetId) pool ip ownerKey
        let next ← Action.ofExcept (orNextHost pool.dockerCidr (IPv4Address.succ? ip))
        setHint (vpcId, subnetId) next
        pure ip

def release (addr : IPv4Address) : AllocatorAction PUnit := do
  let s ← get
  match s.ipIndex.get? addr with
  | none => pure ⟨⟩
  | some key =>
    modify fun s => { s with ipIndex := s.ipIndex.erase addr }
    match s.pools.get? key with
    | none => pure ⟨⟩
    | some pool => setPool key { pool with allocated := pool.allocated.erase addr }

def claim (vpcId subnetId : String) (addr : IPv4Address) (ownerKey : String) :
    AllocatorAction PUnit := do
  let s ← get
  match s.pools.get? (vpcId, subnetId) with
  | none => throw (notRegistered vpcId subnetId)
  | some pool =>
    if ¬ pool.dockerCidr.contains addr then pure ⟨⟩
    else
      match pool.allocated.get? addr with
      | some existing =>
        if existing ≠ ownerKey then
          throw (.ipClaimConflict (IPv4Address.text addr ++ " held by '" ++ existing ++
            "', cannot reclaim for '" ++ ownerKey ++ "'"))
        else allocate (vpcId, subnetId) pool addr ownerKey
      | none => allocate (vpcId, subnetId) pool addr ownerKey

/-- `lookup`: the VPC, the subnet and the owner of an address. -/
def lookup (s : SubnetAllocator) (addr : IPv4Address) : Option (String × String × String) :=
  match s.ipIndex.get? addr with
  | none => none
  | some key =>
    match s.pools.get? key with
    | none => none
    | some pool =>
      match pool.allocated.get? addr with
      | none => none
      | some owner => some (pool.vpcId, pool.subnetId, owner)

/-! ### Persistence -/

def schemaVersion : Int := 1

/-- A pool as it is persisted. Fields a snapshot may lack are optional. -/
structure PoolJson where
  vpcId : String
  subnetId : String
  awsCidr : String
  dockerCidr : String
  az : String
  reserved : Option (List String)
  allocated : Option (Dict String String)
  nextHint : Option String

/-- A snapshot of an allocator. -/
structure AllocatorJson where
  schemaVersion : Option Int
  pools : Option (List PoolJson)

def poolToJson : PoolJson where
  vpcId := pool.vpcId
  subnetId := pool.subnetId
  awsCidr := pool.awsCidr.text
  dockerCidr := pool.dockerCidr.text
  az := pool.az
  reserved := some (pool.reserved.image IPv4Address.text).sort
  allocated := some (Dict.ofEntries
    (pool.allocated.entries.map fun e => (IPv4Address.text e.1, e.2)))
  nextHint := pool.nextHint.map IPv4Address.text

def toDict (s : SubnetAllocator) : AllocatorJson where
  schemaVersion := some schemaVersion
  pools := some (s.pools.values.map poolToJson)

/-- `IPv4Address(text)`. -/
def parseAddress (text : String) : Except AllocatorError IPv4Address :=
  match IPv4Address.ofText text with
  | some a => .ok a
  | none => .error (.addressValueError text)

/-- `IPv4Network(text, strict=False)`. -/
def parseNetwork (text : String) : Except AllocatorError IPv4Network :=
  match IPv4Network.ofText text with
  | some net => .ok net
  | none => .error (.addressValueError text)

/-- A pool from its persisted form. An empty text is no cursor. -/
def poolOfJson (entry : PoolJson) : Except AllocatorError SubnetPool := do
  let aws ← parseNetwork entry.awsCidr
  let docker ← parseNetwork entry.dockerCidr
  let reserved ← (entry.reserved.getD []).mapM parseAddress
  let allocated ← (entry.allocated.getD Dict.empty).entries.mapM fun e => do
    let ip ← parseAddress e.1
    pure (ip, e.2)
  let nextHint ←
    match entry.nextHint with
    | none => pure none
    | some text => if text = "" then pure none else some <$> parseAddress text
  return {
    vpcId := entry.vpcId
    subnetId := entry.subnetId
    awsCidr := aws
    dockerCidr := docker
    az := entry.az
    reserved := reserved.toFinset
    allocated := Dict.ofEntries allocated
    nextHint := nextHint }

/-- Store a loaded pool and index its addresses. -/
def loadPool : AllocatorAction PUnit := do
  setPool (pool.vpcId, pool.subnetId) pool
  modify fun s => { s with
    ipIndex := pool.allocated.keys.foldl (fun d ip => d.set ip (pool.vpcId, pool.subnetId))
      s.ipIndex }

/-- Load pool after pool. -/
def loadPools : List PoolJson → AllocatorAction PUnit
  | [] => pure ⟨⟩
  | entry :: entries => do
      let pool ← Action.ofExcept (poolOfJson entry)
      loadPool pool
      loadPools entries

/-- `from_dict`. A snapshot of another version is ignored. -/
def fromDict (data : AllocatorJson) : AllocatorAction PUnit := do
  if data.schemaVersion = some schemaVersion then
    set empty
    loadPools (data.pools.getD [])
  else pure ⟨⟩

end SubnetAllocator

end LocalEmu.Ec2
