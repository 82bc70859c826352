import LocalEmu.Base.Dict

/-!
# Route Tables and Subnets

A subnet has the route table it is associated with, or else the main one of its VPC. One
function looks for the table of a subnet, the other one lists the subnets of a table.

The subnets are in a dictionary for each availability zone.
-/

namespace LocalEmu.Ec2

/-- A subnet. -/
structure Subnet where
  id : String
  vpcId : String
  deriving DecidableEq

/-- A route table. The associations map their ids to subnets. -/
structure RouteTable where
  vpcId : String
  mainAssociationId : Option String
  associations : Dict String String

/-- What the backend has of an account and a region. -/
structure Ec2Backend where
  routeTables : Dict String RouteTable
  subnets : Dict String (Dict String Subnet)

namespace Ec2Backend

variable (backend : Ec2Backend) (subnetId : String)

def flatSubnets : List Subnet := backend.subnets.values.flatMap Dict.values

/-- The VPC of what `_get_subnet` finds. A zone that has the id for a name has no VPC. -/
def subnetVpc? : Option (Option String) :=
  match backend.subnets.get? subnetId with
  | some _ => some none
  | none => (backend.subnets.values.findSome? fun zone => zone.get? subnetId).map fun subnet =>
    some subnet.vpcId

/-- The loop of `_resolve_route_table_for_subnet`. -/
def resolveLoop (vpcId : Option String) :
    List (String × RouteTable) → Option String → Option String
  | [], main => main
  | (rtId, rt) :: rts, main =>
    if subnetId ∈ rt.associations.values then some rtId
    else resolveLoop vpcId rts
      (if some rt.vpcId = vpcId ∧ rt.mainAssociationId.isSome then some rtId else main)

/-- The table of a subnet. -/
def resolveRouteTableForSubnet : Option String :=
  (backend.subnetVpc? subnetId).bind fun vpcId =>
    resolveLoop subnetId vpcId backend.routeTables.entries none

/-- Some table is associated with the subnet. -/
def isExplicit : Bool :=
  backend.routeTables.values.any fun rt => decide (subnetId ∈ rt.associations.values)

def subnetsInheritingMainRouteTable (mainRt : RouteTable) : List String :=
  if mainRt.vpcId = "" then []
  else
    (backend.flatSubnets.filter fun sub => decide (sub.id ≠ "" ∧ sub.vpcId = mainRt.vpcId) &&
      !backend.isExplicit sub.id).map Subnet.id

/-- The loop over the associations of a table. -/
def addExplicit (out : List String) (subId : String) : List String :=
  if subId ≠ "" ∧ subId ∉ out then out ++ [subId] else out

/-- The subnets of a table. -/
def getSubnetsForRouteTable (routeTableId : String) : List String :=
  match backend.routeTables.get? routeTableId with
  | none => []
  | some rt =>
    let out := rt.associations.values.foldl addExplicit []
    if rt.mainAssociationId.isSome then out ++ backend.subnetsInheritingMainRouteTable rt
    else out

end Ec2Backend

end LocalEmu.Ec2
