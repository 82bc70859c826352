import LocalEmu.Core.Kms.Models

/-!
# The Operations on Keys

The provider looks a key up by its id or its ARN, refuses it in the states that an
operation does not allow, and changes it. There are four states, and the lookup knows
three of them: it lets a key pass that waits for its material.

An operation that raises has changed nothing, with one exception. The import of key
material writes the metadata of the key before it has checked everything.
-/

namespace LocalEmu.Kms

structure RequestContext where
  account : String
  region : String
  deriving DecidableEq

/-- What a request names a key with: its id, or its ARN. -/
inductive KeyRef
  | id (keyId : Text)
  | arn (arn : KeyArn)

def KeyRef.keyId : KeyRef → Text
  | id keyId => keyId
  | arn keyArn => keyArn.keyId

/-- The states in which an operation takes a key. -/
structure Allowed where
  enabled : Bool
  disabled : Bool
  pendingDeletion : Bool

/-- The default of `_get_kms_key`. -/
def Allowed.default : Allowed := ⟨true, false, false⟩

/-- With `disabled_key_allowed`. -/
def Allowed.orDisabled : Allowed := ⟨true, true, false⟩

/-- With `any_key_state_allowed`. -/
def Allowed.anyKeyState : Allowed := ⟨true, true, true⟩

variable (lib : Library)

/-! ### Lookup -/

/-- The end of `_get_key_id_from_any_id`, with the key. -/
def lookUpKey (store : KmsStore) (keyId : Text) (arn : KeyArn) : Except KmsError KmsKey :=
  if patternMatch patternUuid keyId || patternMatch multiRegionPattern keyId then
    match store.keys.get? keyId with
    | some key => return key
    | none => throw (.notFound ("Key '" ++ arn.text ++ "' does not exist"))
  else throw (.notFound ("Invalid keyId '" ++ String.ofList keyId ++ "'"))

/-- `_get_key_id_from_any_id`, for ids and ARNs of keys, with the key. -/
def getKeyFromAnyId (store : KmsStore) (account region : String) :
    KeyRef → Except KmsError KmsKey
  | .id keyId => lookUpKey store keyId (kmsKeyArn lib keyId account region)
  | .arn arn =>
    if arn.region = region then lookUpKey store arn.keyId arn
    else throw (.notFound ("Invalid arn " ++ arn.region))

/-- The checks of `_get_kms_key` on the state of a key. -/
def checkKeyState (key : KmsKey) (allowed : Allowed) : Except KmsError KmsKey :=
  match key.metadata.keyState with
  | .disabled =>
    if allowed.disabled then return key
    else throw (.disabled (key.metadata.arn.text ++ " is disabled."))
  | .pendingDeletion =>
    if allowed.pendingDeletion then return key
    else throw (.kmsInvalidState (key.metadata.arn.text ++ " is pending deletion."))
  | .enabled =>
    if allowed.enabled then return key
    else throw (.kmsInvalidState (key.metadata.arn.text ++
      " is enabled, but the operation doesn't support such a state"))
  -- A key that waits for material passes every check.
  | .pendingImport => return key

/-- The lookup with its check of the state. -/
def getKmsKey (store : KmsStore) (account region : String) (ref : KeyRef) (allowed : Allowed) :
    Except KmsError KmsKey := do
  let key ← getKeyFromAnyId lib store account region ref
  checkKeyState key allowed

def parseKeyId (context : RequestContext) : KeyRef → Except KmsError (String × String × Text)
  | .id keyId => return (context.account, context.region, keyId)
  | .arn arn =>
    if arn.region = context.region then return (arn.account, arn.region, arn.keyId)
    else throw (.notFound ("Invalid arn " ++ arn.region))

/-- `_parse_key_id` and `_get_kms_key`. -/
def locateKey (stores : KmsStores) (context : RequestContext) (ref : KeyRef) (allowed : Allowed) :
    Except KmsError (String × String × KmsKey) := do
  let (account, region, keyId) ← parseKeyId context ref
  let key ← getKmsKey lib (stores account region) account region (.id keyId) allowed
  return (account, region, key)

/-! ### Checks -/

def validateKeyStateNotPendingImport (key : KmsKey) : Except KmsError Unit :=
  if key.metadata.keyState = .pendingImport then
    throw (.kmsInvalidState (key.metadata.arn.text ++ " is pending import."))
  else return

def validateExternalKeyHasPendingMaterial (key : KmsKey) : Except KmsError Unit :=
  if key.metadata.origin = .external ∧ key.cryptoKey.pendingKeyMaterial = none then
    throw (.kmsInvalidState ("No available key material pending rotation for the key: " ++
      key.metadata.arn.text ++ "."))
  else return

def validateKeyForEncryptionDecryption (operation : String) (key : KmsKey) :
    Except KmsError Unit :=
  if key.metadata.keyUsage ≠ .encryptDecrypt then
    throw (.invalidKeyUsage (key.metadata.arn.text ++ " key usage is " ++
      key.metadata.keyUsage.name ++ " which is not valid for " ++ operation ++ "."))
  else return

def validatePlaintextLength (plaintext : Bytes) : Except KmsError Unit :=
  if 4096 < plaintext.length then
    throw (.validation ("1 validation error detected: Value at 'plaintext' failed to satisfy " ++
      "constraint: Member must have length less than or equal to 4096"))
  else return

def maxSizeBytes : KeySpec → Option EncryptionAlgorithmSpec → Nat
  | .rsa2048, some .rsaesOaepSha1 => 214
  | .rsa2048, some .rsaesOaepSha256 => 190
  | .rsa3072, some .rsaesOaepSha1 => 342
  | .rsa3072, some .rsaesOaepSha256 => 318
  | .rsa4096, some .rsaesOaepSha1 => 470
  | .rsa4096, some .rsaesOaepSha256 => 446
  | _, _ => 4096

def validatePlaintextKeyTypeBased (plaintext : Bytes) (key : KmsKey)
    (encryptionAlgorithm : Option EncryptionAlgorithmSpec) : Except KmsError Unit :=
  let maxSize := maxSizeBytes key.metadata.keySpec encryptionAlgorithm
  if maxSize < plaintext.length then
    throw (.validation ("Algorithm " ++ (encryptionAlgorithm.map (·.name)).getD "None" ++
      " and key spec " ++ key.metadata.keySpec.name ++ " cannot encrypt data larger than " ++
      toString maxSize ++ " bytes."))
  else return

/-! ### Changes of a key -/

namespace KmsKey

variable (key : KmsKey)

def setKeyState (keyState : KeyState) (enabled : Bool) : KmsKey :=
  { key with metadata := { key.metadata with keyState := keyState, enabled := enabled } }

/-- The change of `cancel_key_deletion`. -/
def cancelKeyDeletion : KmsKey :=
  { key with metadata := { key.metadata with keyState := .disabled, deletionDate := none } }

def setExpirationModel (expirationModel : Option ExpirationModelType) : KmsKey :=
  { key with metadata := { key.metadata with expirationModel := expirationModel } }

/-- Pending material becomes the current one if there is no id of a current one. -/
def promote (keyMaterialId : String) : KmsKey :=
  if key.metadata.currentKeyMaterialId = none then
    { key with
      metadata := { key.metadata with currentKeyMaterialId := some keyMaterialId }
      cryptoKey := { key.cryptoKey with
        keyMaterial := key.cryptoKey.pendingKeyMaterial, pendingKeyMaterial := none } }
  else key

/-- `import_key_material`, from the unwrapped material on. -/
def importKeyMaterial (keyMaterial : Bytes) (validTo : Option Nat)
    (expirationModel : Option ExpirationModelType) :
    Except KmsError (Option String) × KmsKey :=
  let model := expirationModel.getD .keyMaterialExpires
  -- The model is written before it is checked.
  let key := key.setExpirationModel (some model)
  if model = .keyMaterialExpires ∧ validTo = none then
    (.error (.validation
      "A validTo date must be set if the ExpirationModel is KEY_MATERIAL_EXPIRES"), key)
  else
    match given key.cryptoKey.pendingKeyMaterial with
    | some pending =>
      (.error (.kmsInvalidState ("New key material (id: " ++
        key.generateKeyMaterialId lib keyMaterial ++ ") cannot be imported into KMS key " ++
        key.metadata.arn.text ++ ", because another key material (id: " ++
        key.generateKeyMaterialId lib pending.bytes ++ ") is pending rotation.")), key)
    | none =>
      let key := key.setKeyState .enabled true
      match key.cryptoKey.loadKeyMaterial lib keyMaterial with
      | .error e => (.error e, key)
      | .ok cryptoKey =>
        let key := { key with cryptoKey := cryptoKey }
        if key.metadata.keySpec = .symmetricDefault then
          let keyMaterialId := key.generateKeyMaterialId lib keyMaterial
          (.ok (some keyMaterialId), key.promote keyMaterialId)
        else (.ok none, key)

/-- `delete_imported_key_material`. The id of the current material stays. -/
def deleteImportedKeyMaterial : KmsKey :=
  let key := { key with cryptoKey := { key.cryptoKey with keyMaterial := none } }
  (key.setKeyState .pendingImport false).setExpirationModel none

end KmsKey

def decryptWrappedKeyMaterial (importState : KeyImportState) (encryptedKeyMaterial : Bytes) :
    Except KmsError Bytes :=
  match importState.cryptoKey.privateKey with
  | none => throw .typeError
  | some privateKey =>
    match importState.wrappingAlgo with
    | .other name =>
      throw (.kmsInvalidState ("Unsupported padding, requested wrapping algorithm: '" ++ name ++
        "'"))
    | algorithm => lib.unwrap algorithm privateKey.bytes encryptedKeyMaterial

/-! ### Operations -/

/-- The responses, as far as the operations differ in them. -/
inductive Response
  | keyMetadata (metadata : KeyMetadata)
  | keyId (arn : KeyArn)
  | ciphertextBlob (arn : KeyArn) (blob : Bytes)
  | plaintext (arn : KeyArn) (plaintext : Bytes)
  | parametersForImport (arn : KeyArn) (importToken : Text)
  | keyMaterialId (arn : KeyArn) (keyMaterialId : Option String)
  | none
  deriving DecidableEq

/-- The requests of the operations on keys, with what they draw. -/
inductive KeyRequest
  | createKey (request : CreateKeyRequest) (draws : NewKey)
  | scheduleKeyDeletion (ref : KeyRef) (pendingWindowInDays : Option Int) (now : Nat)
  | cancelKeyDeletion (ref : KeyRef)
  | disableKey (ref : KeyRef)
  | enableKey (ref : KeyRef)
  | replicateKey (ref : KeyRef) (replicaRegion : String)
  | encrypt (ref : KeyRef) (plaintext : Bytes) (context : EncryptionContext)
      (encryptionAlgorithm : Option EncryptionAlgorithmSpec) (iv : Random blockSize)
  | decrypt (blob : Bytes) (context : EncryptionContext) (ref : Option KeyRef)
  | getParametersForImport (ref : KeyRef) (wrappingAlgorithm : AlgorithmSpec)
      (wrappingKeySpec : KeySpec) (importToken : Text) (entropy : Entropy)
  | importKeyMaterial (ref : KeyRef) (importToken : Text) (encryptedKeyMaterial : Bytes)
      (validTo : Option Nat) (expirationModel : Option ExpirationModelType)
  | deleteImportedKeyMaterial (ref : KeyRef)
  | rotateKeyOnDemand (ref : KeyRef) (entropy : Entropy)

variable (stores : KmsStores) (context : RequestContext)

def setKey (account region : String) (key : KmsKey) : KmsStores :=
  stores.setStore account region ((stores account region).setKey key)

variable (ref : KeyRef)

/-- A change of a key of the caller, after the lookup. -/
def changeKey (allowed : Allowed) (change : KmsKey → KmsKey)
    (response : KmsKey → Response) : Except KmsError (Response × KmsStores) := do
  let key ← getKmsKey lib (stores context.account context.region) context.account context.region
    ref allowed
  return (response (change key), setKey stores context.account context.region (change key))

def createKey (request : CreateKeyRequest) (draws : NewKey) :
    Except KmsError (Response × KmsStores) := do
  let key ← KmsKey.new lib request context.account context.region draws
  return (.keyMetadata key.metadata, setKey stores context.account context.region key)

def scheduleKeyDeletion (pendingWindowInDays : Option Int) (now : Nat) :
    Except KmsError (Response × KmsStores) :=
  let pendingWindow := pendingWindowInDays.getD 30
  if pendingWindow < 7 ∨ 30 < pendingWindow then
    throw (.validation ("PendingWindowInDays should be between 7 and 30, but it is " ++
      toString pendingWindow))
  else
    changeKey lib stores context ref .orDisabled
      (fun key => key.scheduleKeyDeletion pendingWindow.toNat now) fun key =>
        .keyMetadata key.metadata

def cancelKeyDeletion : Except KmsError (Response × KmsStores) :=
  changeKey lib stores context ref ⟨false, false, true⟩ KmsKey.cancelKeyDeletion fun key =>
    .keyId key.metadata.arn

def disableKey : Except KmsError (Response × KmsStores) :=
  changeKey lib stores context ref .orDisabled (fun key => key.setKeyState .disabled false)
    fun _ => .none

def enableKey : Except KmsError (Response × KmsStores) :=
  changeKey lib stores context ref .orDisabled (fun key => key.setKeyState .enabled true)
    fun _ => .none

def updatePrimaryKeyWithReplicaKeys (key : KmsKey) (replica : MultiRegionKey) : KmsKey :=
  { key with metadata := { key.metadata with
      multiRegionConfiguration := key.metadata.multiRegionConfiguration.map fun configuration =>
        { configuration with replicaKeys := configuration.replicaKeys ++ [replica] } } }

def replicateKey (replicaRegion : String) : Except KmsError (Response × KmsStores) := do
  let primaryKey ← getKmsKey lib (stores context.account context.region) context.account
    context.region ref .default
  match primaryKey.metadata.multiRegionConfiguration with
  | none => throw (.unsupportedOperation ("Unable to replicate a non-MultiRegion key " ++
      String.ofList primaryKey.metadata.keyId))
  | some configuration =>
    if configuration.multiRegionKeyType ≠ .primary then
      throw (.unsupportedOperation (primaryKey.metadata.arn.text ++
        " is not a multi-region primary key."))
    else if ((stores context.account replicaRegion).keys.get? primaryKey.metadata.keyId).isSome then
      throw (.alreadyExists
        ("Unable to replicate key " ++ String.ofList primaryKey.metadata.keyId ++
        " to region " ++ replicaRegion ++ ", as the key already exist there"))
    else
      let replicaKey := primaryKey.replicateMetadata lib context.account replicaRegion
      let replicated := setKey stores context.account replicaRegion replicaKey
      return (.keyMetadata { replicaKey.metadata with currentKeyMaterialId := none },
        setKey replicated context.account context.region
          (updatePrimaryKeyWithReplicaKeys primaryKey ⟨replicaKey.metadata.arn, replicaRegion⟩))

/-- `encrypt`. -/
def encryptWithKey (plaintext : Bytes) (encryptionContext : EncryptionContext)
    (encryptionAlgorithm : Option EncryptionAlgorithmSpec) (iv : Random blockSize) :
    Except KmsError Response := do
  let (_, _, key) ← locateKey lib stores context ref .default
  validatePlaintextLength plaintext
  validatePlaintextKeyTypeBased plaintext key encryptionAlgorithm
  validateKeyForEncryptionDecryption "Encrypt" key
  validateKeyStateNotPendingImport key
  let blob ← key.encrypt lib plaintext encryptionContext iv
  return .ciphertextBlob key.metadata.arn blob

variable (blob : Bytes)

/-- `decrypt`, from the lookup of the key on, without a recipient. -/
def decryptWithKey (ciphertext : Option Ciphertext) (encryptionContext : EncryptionContext)
    (key : KmsKey) : Except KmsError Response := do
  if ciphertext.any fun c => decide (key.metadata.keyId ≠ c.keyId) then
    throw (.incorrectKey
      "The key ID in the request does not identify a CMK that can perform this operation.")
  else do
    validateKeyForEncryptionDecryption "Decrypt" key
    validateKeyStateNotPendingImport key
    match ciphertext with
    | some ciphertext => do
      let plaintext ← key.decrypt lib ciphertext encryptionContext
      return .plaintext key.metadata.arn plaintext
    | none =>
      if key.cryptoKey.keySpec.isRsa then
        match key.cryptoKey.privateKey with
        | none => throw .typeError
        | some privateKey => do
          let plaintext ← lib.decryptRsa privateKey.bytes blob
          return .plaintext key.metadata.arn plaintext
      else throw (.invalidCiphertext "")

/-- `decrypt`. -/
def decryptBlob (encryptionContext : EncryptionContext) (ref : Option KeyRef) :
    Except KmsError Response :=
  match ref with
  | some ref => do
    let (_, _, key) ← locateKey lib stores context ref .default
    decryptWithKey lib blob (deserializeCiphertextBlob blob) encryptionContext key
  | none =>
    match deserializeCiphertextBlob blob with
    | none => throw (.invalidCiphertext ("LocalEmu is unable to deserialize the ciphertext " ++
        "blob. Perhaps the blob didn't come from LocalEmu"))
    | some ciphertext => do
      let (_, _, key) ← locateKey lib stores context (.id ciphertext.keyId) .default
      decryptWithKey lib blob (some ciphertext) encryptionContext key

/-- `response["Plaintext"]`. -/
def Response.getPlaintext : Response → Except KmsError Bytes
  | plaintext _ bytes => return bytes
  | _ => throw .keyError

/-- `response["CiphertextBlob"]`. -/
def Response.getCiphertextBlob : Response → Except KmsError Bytes
  | ciphertextBlob _ blob => return blob
  | _ => throw .keyError

structure ReEncryptResponse where
  ciphertextBlob : Bytes
  sourceKeyId : KeyArn
  keyId : KeyArn
  deriving DecidableEq

/-- The source key of `re_encrypt`, which the blob names if the request does not. -/
def sourceRef (source : Option KeyRef) : Except KmsError KeyRef :=
  match source with
  | some ref => return ref
  | none =>
    match deserializeCiphertextBlob blob with
    | some ciphertext => return .id ciphertext.keyId
    | none => throw (.invalidCiphertext ("LocalEmu is unable to deserialize the ciphertext " ++
        "blob. Perhaps the blob didn't come from LocalEmu"))

/-- `re_encrypt`. The inner calls get the ids without the accounts. -/
def reEncrypt (sourceContext : EncryptionContext) (source : Option KeyRef) (destination : KeyRef)
    (destinationContext : EncryptionContext) (iv : Random blockSize) :
    Except KmsError ReEncryptResponse := do
  let source ← sourceRef blob source
  let (_, _, sourceKey) ← locateKey lib stores context source .default
  let decrypted ← decryptBlob lib stores context blob sourceContext (some (.id source.keyId))
  let plaintext ← decrypted.getPlaintext
  let (_, _, destinationKey) ← locateKey lib stores context destination .default
  let encrypted ← encryptWithKey lib stores context (.id destination.keyId) plaintext
    destinationContext none iv
  let ciphertextBlob ← encrypted.getCiphertextBlob
  return ⟨ciphertextBlob, sourceKey.metadata.arn, destinationKey.metadata.arn⟩

def getParametersForImport (wrappingAlgorithm : AlgorithmSpec) (wrappingKeySpec : KeySpec)
    (importToken : Text) (entropy : Entropy) :
    Except KmsError (Response × KmsStores) := do
  let store := stores context.account context.region
  let key ← getKmsKey lib store context.account context.region ref .orDisabled
  if key.metadata.origin ≠ .external then
    throw (.unsupportedOperation (key.metadata.arn.text ++ " origin is " ++
      key.metadata.origin.name ++ " which is not valid for this operation."))
  else do
    let _ ← getKeyUsage none wrappingKeySpec
    let cryptoKey ← KmsCryptoKey.new lib wrappingKeySpec none entropy
    let importState : KeyImportState := ⟨key.metadata.keyId, wrappingAlgorithm, cryptoKey⟩
    return (.parametersForImport key.metadata.arn importToken,
      stores.setStore context.account context.region
        { store with imports := store.imports.set importToken importState })

/-- The start of `import_key_material`: the key and the unwrapped material. -/
def unwrapForImport (importToken : Text) (encryptedKeyMaterial : Bytes) :
    Except KmsError (KmsKey × Bytes) := do
  let store := stores context.account context.region
  match store.imports.get? importToken with
  | none => throw (.notFound ("Unable to find key import token '" ++ String.ofList importToken ++
      "'"))
  | some importState => do
    let key ← getKmsKey lib store context.account context.region ref .orDisabled
    let keyMaterial ← decryptWrappedKeyMaterial lib importState encryptedKeyMaterial
    return (key, keyMaterial)

def importKeyMaterial (importToken : Text) (encryptedKeyMaterial : Bytes) (validTo : Option Nat)
    (expirationModel : Option ExpirationModelType) :
    Except KmsError Response × KmsStores :=
  match unwrapForImport lib stores context ref importToken encryptedKeyMaterial with
  | .error e => (.error e, stores)
  | .ok (key, keyMaterial) =>
    let imported := key.importKeyMaterial lib keyMaterial validTo expirationModel
    (imported.1.map fun keyMaterialId => .keyMaterialId key.metadata.arn keyMaterialId,
      setKey stores context.account context.region imported.2)

def deleteImportedKeyMaterial : Except KmsError (Response × KmsStores) :=
  changeKey lib stores context ref .orDisabled KmsKey.deleteImportedKeyMaterial fun _ => .none

def rotateKeyOnDemand (entropy : Entropy) : Except KmsError (Response × KmsStores) := do
  let (account, region, key) ← locateKey lib stores context ref .default
  if key.metadata.keySpec ≠ .symmetricDefault then throw (.unsupportedOperation "")
  else do
    validateKeyStateNotPendingImport key
    validateExternalKeyHasPendingMaterial key
    let rotated ← key.rotateKeyOnDemand lib entropy
    return (.keyId key.metadata.arn, setKey stores account region rotated)

/-- An operation that changes nothing when it raises. -/
def orUnchanged (result : Except KmsError (Response × KmsStores)) :
    Except KmsError Response × KmsStores :=
  match result with
  | .ok (response, changed) => (.ok response, changed)
  | .error e => (.error e, stores)

def KeyRequest.handle : KeyRequest → Except KmsError Response × KmsStores
  | createKey request draws => orUnchanged stores (Kms.createKey lib stores context request draws)
  | scheduleKeyDeletion ref pendingWindowInDays now =>
    orUnchanged stores (Kms.scheduleKeyDeletion lib stores context ref pendingWindowInDays now)
  | cancelKeyDeletion ref => orUnchanged stores (Kms.cancelKeyDeletion lib stores context ref)
  | disableKey ref => orUnchanged stores (Kms.disableKey lib stores context ref)
  | enableKey ref => orUnchanged stores (Kms.enableKey lib stores context ref)
  | replicateKey ref replicaRegion =>
    orUnchanged stores (Kms.replicateKey lib stores context ref replicaRegion)
  | encrypt ref plaintext encryptionContext encryptionAlgorithm iv =>
    (encryptWithKey lib stores context ref plaintext encryptionContext encryptionAlgorithm iv,
      stores)
  | decrypt blob encryptionContext ref =>
    (decryptBlob lib stores context blob encryptionContext ref, stores)
  | getParametersForImport ref wrappingAlgorithm wrappingKeySpec importToken entropy =>
    orUnchanged stores (Kms.getParametersForImport lib stores context ref wrappingAlgorithm
      wrappingKeySpec importToken entropy)
  | importKeyMaterial ref importToken encryptedKeyMaterial validTo expirationModel =>
    Kms.importKeyMaterial lib stores context ref importToken encryptedKeyMaterial validTo
      expirationModel
  | deleteImportedKeyMaterial ref =>
    orUnchanged stores (Kms.deleteImportedKeyMaterial lib stores context ref)
  | rotateKeyOnDemand ref entropy =>
    orUnchanged stores (Kms.rotateKeyOnDemand lib stores context ref entropy)

end LocalEmu.Kms
