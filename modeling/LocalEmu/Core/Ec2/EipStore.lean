import LocalEmu.Base.Dict

/-!
# Elastic IP Stores

A store has the associations of public addresses under their identifiers, and for
every address the identifier of one association, by which connections from outside
find it.
-/

namespace LocalEmu.Ec2

/-- `EipAssociation`, as far as the store looks at it. -/
structure EipAssociation where
  allocationId : String
  publicIp : String
  instanceId : String
  associationId : Option String
  deriving DecidableEq

/-- `assoc.association_id or assoc.allocation_id`. -/
def EipAssociation.id (assoc : EipAssociation) : String :=
  (assoc.associationId.filter (· ≠ "")).getD assoc.allocationId

/-- The associations and the identifiers of the addresses. -/
structure EipStore where
  associations : Dict String EipAssociation
  -- `_by_ip`.
  idByIp : Dict String String

/-- The calls that change the associations. -/
inductive EipCall
  | register (assoc : EipAssociation)
  | drop (associationId : String)

namespace EipStore

def registerAssociation (s : EipStore) (assoc : EipAssociation) : EipStore :=
  ⟨s.associations.set assoc.id assoc, s.idByIp.set assoc.publicIp assoc.id⟩

def dropAssociation (s : EipStore) (associationId : String) :
    EipStore × Option EipAssociation :=
  match s.associations.get? associationId with
  | none => (s, none)
  | some assoc =>
    (⟨s.associations.erase associationId, s.idByIp.erase assoc.publicIp⟩, some assoc)

def byIp (s : EipStore) (publicIp : String) : Option EipAssociation :=
  (s.idByIp.get? publicIp).bind s.associations.get?

def byAllocation (s : EipStore) (allocationId : String) : Option EipAssociation :=
  s.associations.values.find? fun assoc => assoc.allocationId = allocationId

def apply (s : EipStore) : EipCall → EipStore
  | .register assoc => s.registerAssociation assoc
  | .drop associationId => (s.dropAssociation associationId).1

/-- The store after some calls. -/
def after (calls : List EipCall) : EipStore := calls.foldl apply ⟨Dict.empty, Dict.empty⟩

end EipStore

end LocalEmu.Ec2
