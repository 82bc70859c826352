import Mathlib.Data.Finset.Union
import LocalEmu.Base.Dict
import LocalEmu.Base.Ipv4

/-!
# The Address Index

The directory of network interfaces: the entries themselves, and three indexes
that repeat part of them by address, by instance and by security group. Every
operation changes an entry and the indexes it shows in.

An address that arrives as text is parsed before anything else happens, so the
operations take addresses. A Python set is a `Finset`.

## Main definitions

* `registerEni`, `attachEni`, `detachEni`, `deleteEni`, `addSecondaryIp`,
  `removeSecondaryIp`, `updateSgs`: The operations.
* `getEniForIp`, `getEnisForInstance`, `getPrimaryIpForInstance`, `getIpsForSg`: The lookups.
* `toDict`, `fromDict`: The persisted form.
-/

namespace LocalEmu.Ec2

/-- The exceptions of the index. -/
inductive IndexError
  | valueError (message : String)
  | keyError (message : String)
  | addressValueError (text : String)

def hexDigit (n : Nat) : Char := Nat.digitChar (n % 16)

/-- `derive_mac`: Docker's prefix and the four bytes of the address. -/
def deriveMac (ip : IPv4Address) : String :=
  "02:42:" ++ ":".intercalate
    ((IPv4Address.octets ip).map fun b => String.ofList [hexDigit (b / 16), hexDigit b])

/-- A network interface. -/
structure EniEntry where
  eniId : String
  vpcId : String
  subnetId : String
  primaryIp : IPv4Address
  mac : String
  secondaryIps : List IPv4Address := []
  sgIds : List String := []
  instanceId : Option String := none
  ifaceName : Option String := none
  sourceDestCheck : Bool := true
  deleteOnTermination : Bool := true
  deviceIndex : Option Int := none
  sharedIface : Bool := false

def EniEntry.allIps (entry : EniEntry) : List IPv4Address := entry.primaryIp :: entry.secondaryIps

/-- The entries and the three indexes. -/
structure AddressIndex where
  enis : Dict String EniEntry
  ipToEni : Dict IPv4Address String
  instanceToEnis : Dict String (List String)
  sgToEnis : Dict String (Finset String)

namespace AddressIndex

/-- An index without interfaces. -/
def empty : AddressIndex := ⟨Dict.empty, Dict.empty, Dict.empty, Dict.empty⟩

/-! ### Updates of one index -/

variable (index : AddressIndex) (eniId : String)

/-- Map every address of a list to an interface. -/
def indexIps (ips : List IPv4Address) (ipToEni : Dict IPv4Address String) :
    Dict IPv4Address String :=
  ips.foldl (fun d ip => d.set ip eniId) ipToEni

def forgetIps (ips : List IPv4Address) (ipToEni : Dict IPv4Address String) :
    Dict IPv4Address String :=
  ips.foldl (fun d ip => d.erase ip) ipToEni

variable (instanceId : String)

variable (instanceToEnis : Dict String (List String))

/-- `setdefault(instance_id, []).append(eni_id)`. -/
def appendToInstance : Dict String (List String) :=
  instanceToEnis.set instanceId (instanceToEnis.getD instanceId [] ++ [eniId])

def removeEniFromInstance : Dict String (List String) :=
  match instanceToEnis.get? instanceId with
  | none => instanceToEnis
  | some enis =>
    if enis.erase eniId = [] then instanceToEnis.erase instanceId
    else instanceToEnis.set instanceId (enis.erase eniId)

/-- Take the interface from the list of the instance it is attached to, if any. -/
def leaveInstance (attached : Option String)
    (instanceToEnis : Dict String (List String)) : Dict String (List String) :=
  match attached with
  | none => instanceToEnis
  | some previous => removeEniFromInstance eniId previous instanceToEnis

variable (sgs : List String) (sgToEnis : Dict String (Finset String))

/-- `setdefault(sg, set()).add(eni_id)`, for each group. -/
def joinGroups : Dict String (Finset String) :=
  sgs.foldl (fun d sg => d.set sg (insert eniId (d.getD sg ∅))) sgToEnis

/-- Discard the interface from the bucket of a group, and an empty bucket with it. -/
def leaveGroup (sg : String) : Dict String (Finset String) :=
  match sgToEnis.get? sg with
  | none => sgToEnis
  | some bucket =>
    if bucket.erase eniId = ∅ then sgToEnis.erase sg
    else sgToEnis.set sg (bucket.erase eniId)

/-- Discard the interface from the buckets of a list of groups. -/
def leaveGroups : Dict String (Finset String) :=
  sgs.foldl (leaveGroup eniId) sgToEnis

/-! ### Operations -/

/-- The arguments of `register_eni`. -/
structure Registration where
  eniId : String
  vpcId : String
  subnetId : String
  primaryIp : IPv4Address
  mac : Option String := none
  sgIds : List String := []
  instanceId : Option String := none
  ifaceName : Option String := none
  secondaryIps : List IPv4Address := []

variable (r : Registration)

def Registration.entry : EniEntry where
  eniId := r.eniId
  vpcId := r.vpcId
  subnetId := r.subnetId
  primaryIp := r.primaryIp
  mac := r.mac.getD (deriveMac r.primaryIp)
  secondaryIps := r.secondaryIps
  sgIds := r.sgIds
  instanceId := r.instanceId
  ifaceName := r.ifaceName

/-- Store an entry and let it into every index. -/
def insertEntry (entry : EniEntry) : AddressIndex where
  enis := index.enis.set entry.eniId entry
  ipToEni := indexIps entry.eniId entry.allIps index.ipToEni
  instanceToEnis :=
    match entry.instanceId with
    | none => index.instanceToEnis
    | some instanceId =>
      if instanceId = "" then index.instanceToEnis
      else appendToInstance entry.eniId instanceId index.instanceToEnis
  sgToEnis := joinGroups entry.eniId entry.sgIds index.sgToEnis

def registerEni : Except IndexError AddressIndex :=
  match index.enis.get? r.eniId with
  | some _ => .error (.valueError ("ENI " ++ r.eniId ++ " already registered"))
  | none => .ok (index.insertEntry r.entry)

def attachEni (ifaceName : String) : Except IndexError AddressIndex :=
  match index.enis.get? eniId with
  | none => .error (.keyError ("unknown ENI " ++ eniId))
  | some entry =>
    if entry.instanceId = some instanceId then
      .ok { index with enis := index.enis.set eniId { entry with ifaceName := some ifaceName } }
    else
      let instanceToEnis := leaveInstance eniId entry.instanceId index.instanceToEnis
      .ok { index with
        enis := index.enis.set eniId
          { entry with instanceId := some instanceId, ifaceName := some ifaceName }
        instanceToEnis := appendToInstance eniId instanceId instanceToEnis }

def detachEni : AddressIndex :=
  match index.enis.get? eniId with
  | none => index
  | some entry =>
    { index with
      enis := index.enis.set eniId { entry with instanceId := none, ifaceName := none }
      instanceToEnis := leaveInstance eniId entry.instanceId index.instanceToEnis }

/-- `delete_eni`: the index, and the removed entry. -/
def deleteEni : AddressIndex × Option EniEntry :=
  match index.enis.get? eniId with
  | none => (index, none)
  | some entry =>
    ({ enis := index.enis.erase eniId
       ipToEni := forgetIps entry.allIps index.ipToEni
       instanceToEnis := leaveInstance eniId entry.instanceId index.instanceToEnis
       sgToEnis := leaveGroups eniId entry.sgIds index.sgToEnis }, some entry)

variable (addr : IPv4Address)

def addSecondaryIp : Except IndexError AddressIndex :=
  match index.enis.get? eniId with
  | none => .error (.keyError ("unknown ENI " ++ eniId))
  | some entry =>
    if addr = entry.primaryIp ∨ addr ∈ entry.secondaryIps then .ok index
    else
      .ok { index with
        enis := index.enis.set eniId
          { entry with secondaryIps := entry.secondaryIps ++ [addr] }
        ipToEni := index.ipToEni.set addr eniId }

def removeSecondaryIp : AddressIndex :=
  match index.enis.get? eniId with
  | none => index
  | some entry =>
    if addr ∈ entry.secondaryIps then
      { index with
        enis := index.enis.set eniId
          { entry with secondaryIps := entry.secondaryIps.erase addr }
        ipToEni := index.ipToEni.erase addr }
    else index

/-- `update_sgs`. The two differences are of the sets of group ids. -/
def updateSgs (sgIds : List String) : Except IndexError AddressIndex :=
  match index.enis.get? eniId with
  | none => .error (.keyError ("unknown ENI " ++ eniId))
  | some entry =>
    let left := entry.sgIds.filter fun sg => sg ∉ sgIds
    let joined := sgIds.filter fun sg => sg ∉ entry.sgIds
    .ok { index with
      enis := index.enis.set eniId { entry with sgIds := sgIds }
      sgToEnis := joinGroups eniId joined (leaveGroups eniId left index.sgToEnis) }

/-- An assignment to a field of an entry the index has handed out. -/
def assign (f : EniEntry → EniEntry) : AddressIndex :=
  match index.enis.get? eniId with
  | none => index
  | some entry => { index with enis := index.enis.set eniId (f entry) }

/-! ### Lookups -/

def getEniForIp : Option EniEntry :=
  match index.ipToEni.get? addr with
  | none => none
  | some eniId => index.enis.get? eniId

def enisOf : List String :=
  index.instanceToEnis.getD instanceId []

def getEnisForInstance : List EniEntry :=
  (index.enisOf instanceId).filterMap index.enis.get?

def getPrimaryIpForInstance : Option IPv4Address :=
  match index.enisOf instanceId with
  | [] => none
  | eniId :: _ => (index.enis.get? eniId).map EniEntry.primaryIp

def bucketOf (sgId : String) : Finset String := index.sgToEnis.getD sgId ∅

def getIpsForSg (sgId : String) : Finset IPv4Address :=
  (index.bucketOf sgId).biUnion fun eniId =>
    match index.enis.get? eniId with
    | none => ∅
    | some entry => entry.allIps.toFinset

/-! ### Persistence -/

def schemaVersion : Int := 2

/-- An interface as it is persisted. Fields a snapshot may lack are optional,
    and a field that may be null is optional once more. -/
structure EniJson where
  eniId : String
  vpcId : String
  subnetId : String
  primaryIp : String
  mac : String
  secondaryIps : Option (List String)
  sgIds : Option (List String)
  instanceId : Option (Option String)
  ifaceName : Option (Option String)
  sourceDestCheck : Option Bool
  deleteOnTermination : Option Bool
  deviceIndex : Option (Option Int)

/-- A snapshot of an index. -/
structure IndexJson where
  schemaVersion : Option Int
  enis : Option (List EniJson)

def entryToJson (entry : EniEntry) : EniJson where
  eniId := entry.eniId
  vpcId := entry.vpcId
  subnetId := entry.subnetId
  primaryIp := IPv4Address.text entry.primaryIp
  mac := entry.mac
  secondaryIps := some (entry.secondaryIps.map IPv4Address.text)
  sgIds := some entry.sgIds
  instanceId := some entry.instanceId
  ifaceName := some entry.ifaceName
  sourceDestCheck := some entry.sourceDestCheck
  deleteOnTermination := some entry.deleteOnTermination
  deviceIndex := some entry.deviceIndex

def toDict : IndexJson where
  schemaVersion := some schemaVersion
  enis := some (index.enis.values.map entryToJson)

/-- `IPv4Address(text)`. -/
def parseAddress (text : String) : Except IndexError IPv4Address :=
  match IPv4Address.ofText text with
  | some a => .ok a
  | none => .error (.addressValueError text)

/-- An entry from its persisted form, with the defaults of the fields an older snapshot lacks. -/
def entryOfJson (data : EniJson) : Except IndexError EniEntry := do
  let primary ← parseAddress data.primaryIp
  let secondaries ← (data.secondaryIps.getD []).mapM parseAddress
  return {
    eniId := data.eniId
    vpcId := data.vpcId
    subnetId := data.subnetId
    primaryIp := primary
    mac := data.mac
    secondaryIps := secondaries
    sgIds := data.sgIds.getD []
    instanceId := data.instanceId.getD none
    ifaceName := data.ifaceName.getD none
    sourceDestCheck := data.sourceDestCheck.getD true
    deleteOnTermination := data.deleteOnTermination.getD true
    deviceIndex := data.deviceIndex.getD none }

/-- `from_dict`. A snapshot of another version is ignored. -/
def fromDict (data : IndexJson) : Except IndexError AddressIndex :=
  if data.schemaVersion = some 1 ∨ data.schemaVersion = some schemaVersion then
    (data.enis.getD []).foldlM (fun index entryData => do
      let entry ← entryOfJson entryData
      return index.insertEntry entry) empty
  else .ok index

end AddressIndex

end LocalEmu.Ec2
