import LocalEmu.Base.Base64
import LocalEmu.Core.Kms.Provider
import LocalEmu.Core.Utils.PaginatedList

/-!
# Grants

A grant is kept in the store of the account that owns its key, and the store maps the
token of the grant to its id. The token has the account and the region of the caller
who created the grant in it, and so has the ARN that the grant records.
-/

namespace LocalEmu.Kms

def validOperations : List String :=
  ["CreateKey", "Decrypt", "Encrypt", "GenerateDataKey", "GenerateDataKeyWithoutPlaintext",
    "ReEncryptFrom", "ReEncryptTo", "Sign", "Verify", "GetPublicKey", "CreateGrant", "RetireGrant",
    "DescribeKey", "GenerateDataKeyPair", "GenerateDataKeyPairWithoutPlaintext"]

structure CreateGrantRequest where
  ref : KeyRef
  granteePrincipal : Option String
  operations : Option (List String)
  name : Option String

/-- `_validate_grant_request`, with what it requires. -/
def validateGrantRequest (request : CreateGrantRequest) :
    Except KmsError (String × List String) :=
  match request.granteePrincipal, request.operations with
  | some granteePrincipal, some operations =>
    if operations.all fun operation => decide (operation ∈ validOperations) then
      return (granteePrincipal, operations)
    else throw (.validationError ("Value ['Operations'] at 'operations' failed to satisfy " ++
      "constraint: Member must satisfy constraint: [Member must satisfy enum value set: [" ++
      String.intercalate ", " (validOperations.map fun name => "'" ++ name ++ "'") ++ "]]"))
  | _, _ =>
    throw (.validationError "Grant ID, key ID and grantee principal must be specified")

/-- The token of a grant. -/
def grantToken (account region : String) (uid : Uuid) : Text :=
  Base64.encodeStandard
    (Text.utf8 (account.toList ++ ':' :: (region.toList ++ ':' :: uid.text)))

/-- The account and the region in a token. -/
def locateToken (token : Text) : Except KmsError (String × String) :=
  match Base64.decodeStandard token with
  | .error _ => throw .valueError
  | .ok bytes =>
    match Text.decode bytes with
    | none => throw .valueError
    | some decodedToken =>
      match decodedToken.splitOn ':' with
      | [account, region, _] => return (String.ofList account, String.ofList region)
      | _ => throw .valueError

variable (lib : Library) (stores : KmsStores) (context : RequestContext)

/-- `KmsGrant(create_grant_request, account_id, region_name)`. The key id of the request is an
    id by then, not an ARN. -/
def KmsGrant.new (keyId : Text) (granteePrincipal : String) (operations : List String)
    (name : Option String) (account region : String) (grantId uid : Uuid) : KmsGrant :=
  { grantId := grantId.text
    keyId := keyId
    keyArn := kmsKeyArn lib keyId account region
    name := name.getD ""
    granteePrincipal := granteePrincipal
    operations := operations
    token := grantToken account region uid }

variable (store : KmsStore)

/-- The search of `create_grant` for a grant of the same name. -/
def findGrant (name : Option String) (keyId : Text) : Option KmsGrant :=
  match name with
  | none => none
  | some name =>
    if name = "" then none
    else store.grants.values.find? fun grant => decide (grant.name = name ∧ grant.keyId = keyId)

def KmsStore.addGrant (grant : KmsGrant) : KmsStore :=
  { store with
    grants := store.grants.set grant.grantId grant
    grantTokens := store.grantTokens.set grant.token grant.grantId }

/-- The responses of the operations on grants. -/
inductive GrantResponse
  | createGrant (grantId grantToken : Text)
  | listGrants (grants : List KmsGrant) (nextMarker : Option Text)
  | none
  deriving DecidableEq

def createGrant (request : CreateGrantRequest) (grantId uid : Uuid) :
    Except KmsError (GrantResponse × KmsStores) := do
  let (account, region, key) ← locateKey lib stores context request.ref .default
  let (granteePrincipal, operations) ← validateGrantRequest request
  let store := stores account region
  match findGrant store request.name key.metadata.keyId with
  | some grant => return (.createGrant grant.grantId grant.token, stores)
  | none =>
    -- The grant is put in the store of the key, but made with the account of the caller.
    let grant := KmsGrant.new lib key.metadata.keyId granteePrincipal operations request.name
      context.account context.region grantId uid
    return (.createGrant grant.grantId grant.token,
      stores.setStore account region (store.addGrant grant))

/-- `matching_grants` of `list_grants`. -/
def matchingGrants (keyId : Text) (granteePrincipal : Option String) : List KmsGrant :=
  store.grants.values.filter fun grant =>
    decide (grant.keyArn.keyId = keyId) &&
      ((granteePrincipal.filter fun p => decide (p ≠ "")).all fun p =>
        decide (grant.granteePrincipal = p))

/-- `list_grants`. The key is looked up in the store of its account, and the grants in that of
    the caller. -/
def listGrants (ref : KeyRef) (grantId : Option Text) (granteePrincipal : Option String)
    (marker : Option Text) (limit : Option Nat) : Except KmsError GrantResponse := do
  let (account, region, _) ← parseKeyId context ref
  let key ← getKmsKey lib (stores account region) account region ref .anyKeyState
  let store := stores context.account context.region
  match grantId.filter fun id => decide (id ≠ []) with
  | some grantId =>
    match store.grants.get? grantId with
    | some grant => return .listGrants [grant] none
    | none => throw .invalidGrantId
  | none =>
    let page := PaginatedList.getPage (matchingGrants store key.metadata.keyId granteePrincipal)
      KmsGrant.grantId marker (limit.getD 50)
    return .listGrants page.1 page.2

def deleteGrant (grantId keyId : Text) : Except KmsError KmsStore :=
  match store.grants.get? grantId with
  | none => throw .keyError
  | some grant =>
    if keyId ≠ grant.keyArn.keyId then
      throw (.validationError ("Invalid KeyId=" ++ String.ofList keyId ++ " specified for grant " ++
        String.ofList grantId))
    else if (store.grantTokens.get? grant.token).isNone then throw .keyError
    else return { store with
      grants := store.grants.erase grantId, grantTokens := store.grantTokens.erase grant.token }

def revokeGrant (ref : KeyRef) (grantId : Text) : Except KmsError (GrantResponse × KmsStores) := do
  let (_, _, key) ← locateKey lib stores context ref .anyKeyState
  let store := stores context.account context.region
  if (store.grants.get? grantId).isNone then throw .invalidGrantId
  else do
    let store ← deleteGrant store grantId key.metadata.keyId
    return (.none, stores.setStore context.account context.region store)

/-- The end of `retire_grant`: the key id, and the deletion. -/
def endGrant (account region : String) (grantId : Text) (ref : Option KeyRef) :
    Except KmsError (GrantResponse × KmsStores) := do
  let store := stores account region
  match ref with
  | some ref => do
    let (_, _, key) ← locateKey lib stores context ref .anyKeyState
    let store ← deleteGrant store grantId key.metadata.keyId
    return (.none, stores.setStore account region store)
  | none =>
    match store.grants.get? grantId with
    | none => throw .keyError
    | some grant => do
      let store ← deleteGrant store grantId grant.keyArn.keyId
      return (.none, stores.setStore account region store)

/-- A key is not named by an empty text. -/
def named (ref : Option KeyRef) : Option KeyRef :=
  ref.filter fun
    | .id keyId => decide (keyId ≠ [])
    | .arn _ => true

def retireGrant (token : Option Text) (ref : Option KeyRef) (grantId : Option Text) :
    Except KmsError (GrantResponse × KmsStores) :=
  match token.filter fun token => decide (token ≠ []) with
  | some token => do
    let (account, region) ← locateToken token
    match (stores account region).grantTokens.get? token with
    | none => throw (.notFound ("Unable to find grant token " ++ String.ofList token))
    | some grantId => endGrant lib stores context account region grantId (named ref)
  | none =>
    match grantId.filter fun id => decide (id ≠ []), named ref with
    | some grantId, some ref =>
      endGrant lib stores context context.account context.region grantId (some ref)
    | _, _ => throw (.validation "Grant token OR (grant ID, key ID) must be specified")

/-- The requests of the operations on grants, with what they draw. -/
inductive GrantRequest
  | createGrant (request : CreateGrantRequest) (grantId uid : Uuid)
  | listGrants (ref : KeyRef) (grantId : Option Text) (granteePrincipal : Option String)
      (marker : Option Text) (limit : Option Nat)
  | revokeGrant (ref : KeyRef) (grantId : Text)
  | retireGrant (token : Option Text) (ref : Option KeyRef) (grantId : Option Text)

/-- The operation of a request. It changes nothing when it raises. -/
def GrantRequest.handle (request : GrantRequest) : Except KmsError GrantResponse × KmsStores :=
  let result := match request with
    | createGrant request grantId uid => Kms.createGrant lib stores context request grantId uid
    | listGrants ref grantId granteePrincipal marker limit =>
      (Kms.listGrants lib stores context ref grantId granteePrincipal marker limit).map (·, stores)
    | revokeGrant ref grantId => Kms.revokeGrant lib stores context ref grantId
    | retireGrant token ref grantId => Kms.retireGrant lib stores context token ref grantId
  match result with
  | .ok (response, changed) => (.ok response, changed)
  | .error e => (.error e, stores)

end LocalEmu.Kms
