import Mathlib.Data.List.Sort
import LocalEmu.Base.Dict
import LocalEmu.Base.Text

/-!
# Keys

A key of the key management service, with the cryptographic key in it, and what is
encrypted with it. The cryptographic key has its current key material, and a rotation
puts that to the previous ones. Imported material waits as pending material for a
rotation, unless the key had none before.

The ciphers, and what reads or unwraps keys, are parameters. What Python draws at
random is in the argument that stands for the draw.

## Main definitions

* `KeyMetadata`, `KmsKey`: Keys with their metadata.
* `KmsKey.new`, `KmsKey.encrypt`, `KmsKey.decrypt`, `KmsKey.rotateKeyOnDemand`: The
  methods of a key.
-/

namespace LocalEmu.Kms

abbrev Bytes := List UInt8

/-! ### Enumerations -/

/-- `KeyState`, as far as it is set. -/
inductive KeyState
  | enabled
  | disabled
  | pendingDeletion
  | pendingImport
  deriving DecidableEq

inductive OriginType
  | awsKms
  | external
  | awsCloudhsm
  | externalKeyStore
  deriving DecidableEq

def OriginType.name : OriginType → String
  | awsKms => "AWS_KMS"
  | external => "EXTERNAL"
  | awsCloudhsm => "AWS_CLOUDHSM"
  | externalKeyStore => "EXTERNAL_KEY_STORE"

/-- `KeySpec`: what there is support for, and other texts. -/
inductive KeySpec
  | symmetricDefault
  | rsa2048
  | rsa3072
  | rsa4096
  | eccNistP256
  | eccNistP384
  | eccNistP521
  | eccSecgP256k1
  | hmac224
  | hmac256
  | hmac384
  | hmac512
  | other (name : String)
  deriving DecidableEq

namespace KeySpec

def name : KeySpec → String
  | symmetricDefault => "SYMMETRIC_DEFAULT"
  | rsa2048 => "RSA_2048"
  | rsa3072 => "RSA_3072"
  | rsa4096 => "RSA_4096"
  | eccNistP256 => "ECC_NIST_P256"
  | eccNistP384 => "ECC_NIST_P384"
  | eccNistP521 => "ECC_NIST_P521"
  | eccSecgP256k1 => "ECC_SECG_P256K1"
  | hmac224 => "HMAC_224"
  | hmac256 => "HMAC_256"
  | hmac384 => "HMAC_384"
  | hmac512 => "HMAC_512"
  | other name => name

/-- The keys of `HMAC_RANGE_KEY_LENGTHS`. -/
def isHmac : KeySpec → Bool
  | hmac224 | hmac256 | hmac384 | hmac512 => true
  | _ => false

/-- The keys of `RSA_CRYPTO_KEY_LENGTHS`. -/
def isRsa : KeySpec → Bool
  | rsa2048 | rsa3072 | rsa4096 => true
  | _ => false

/-- The keys of `ECC_CURVES`. -/
def isEcc : KeySpec → Bool
  | eccNistP256 | eccNistP384 | eccNistP521 | eccSecgP256k1 => true
  | _ => false

end KeySpec

inductive KeyUsageType
  | encryptDecrypt
  | signVerify
  | generateVerifyMac
  | keyAgreement
  deriving DecidableEq

def KeyUsageType.name : KeyUsageType → String
  | encryptDecrypt => "ENCRYPT_DECRYPT"
  | signVerify => "SIGN_VERIFY"
  | generateVerifyMac => "GENERATE_VERIFY_MAC"
  | keyAgreement => "KEY_AGREEMENT"

inductive ExpirationModelType
  | keyMaterialExpires
  | keyMaterialDoesNotExpire
  deriving DecidableEq

inductive EncryptionAlgorithmSpec
  | symmetricDefault
  | rsaesOaepSha1
  | rsaesOaepSha256

def EncryptionAlgorithmSpec.name : EncryptionAlgorithmSpec → String
  | symmetricDefault => "SYMMETRIC_DEFAULT"
  | rsaesOaepSha1 => "RSAES_OAEP_SHA_1"
  | rsaesOaepSha256 => "RSAES_OAEP_SHA_256"

/-- `AlgorithmSpec`: the wrapping algorithms there is support for, and others. -/
inductive AlgorithmSpec
  | rsaesPkcs1V15
  | rsaesOaepSha1
  | rsaesOaepSha256
  | rsaAesKeyWrapSha256
  | other (name : String)

/-- The exceptions of the operations, and those of Python and of the cryptographic library. -/
inductive KmsError
  | disabled (message : String)
  | kmsInvalidState (message : String)
  | notFound (message : String)
  | validation (message : String)
  | validationError (message : String)
  | unsupportedOperation (message : String)
  | limitExceeded (message : String)
  | invalidCiphertext (message : String)
  | incorrectKey (message : String)
  | invalidKeyUsage (message : String)
  | alreadyExists (message : String)
  | invalidGrantId
  | typeError
  | valueError
  | indexError
  | keyError
  deriving DecidableEq

/-! ### Identifiers -/

/-- The digits of `uuid.uuid4()`. -/
structure Uuid where
  hex : Text
  length : hex.length = 32
  isHex : ∀ c ∈ hex, c ∈ "0123456789abcdef".toList
  deriving DecidableEq

/-- `str(uuid)`. -/
def Uuid.text (uuid : Uuid) : Text :=
  uuid.hex.take 8 ++ '-' :: ((uuid.hex.drop 8).take 4 ++ '-' :: ((uuid.hex.drop 12).take 4 ++
    '-' :: ((uuid.hex.drop 16).take 4 ++ '-' :: uuid.hex.drop 20)))

/-- The class `[a-fA-F0-9]` of a pattern. -/
def isHexDigit (c : Char) : Bool := c ∈ "0123456789abcdefABCDEF".toList

/-- `PATTERN_UUID`, as one class of characters for each place. -/
def patternUuid : List (Char → Bool) :=
  List.replicate 8 isHexDigit ++ (· == '-') :: (List.replicate 4 isHexDigit ++ (· == '-') ::
    (List.replicate 4 isHexDigit ++ (· == '-') :: (List.replicate 4 isHexDigit ++ (· == '-') ::
      List.replicate 12 isHexDigit)))

def multiRegionPattern : List (Char → Bool) :=
  (· == 'm') :: (· == 'r') :: (· == 'k') :: (· == '-') :: List.replicate 32 isHexDigit

/-- Every place has a character of its class. -/
def fullMatch : List (Char → Bool) → Text → Bool
  | [], [] => true
  | p :: ps, c :: cs => p c && fullMatch ps cs
  | _, _ => false

/-- `pattern.match(text)` for such a pattern between `^` and `$`. Python matches `$` before a
    newline at the end as well. -/
def patternMatch (pattern : List (Char → Bool)) (text : Text) : Bool :=
  fullMatch pattern text || (decide (text.getLast? = some '\n') && fullMatch pattern text.dropLast)

/-- The ARN of a key. -/
structure KeyArn where
  partition : String
  region : String
  account : String
  keyId : Text
  deriving DecidableEq

def KeyArn.text (arn : KeyArn) : String :=
  "arn:" ++ arn.partition ++ ":kms:" ++ arn.region ++ ":" ++ arn.account ++ ":key/" ++
    String.ofList arn.keyId

/-! ### The library -/

/-- Key material. It is kept here whether it was imported; nothing reads this. -/
structure Material where
  bytes : Bytes
  imported : Bool
  deriving DecidableEq

/-- The cryptographic library, and the tables of partitions. -/
structure Library where
  -- AES in GCM mode: key, initialization vector, additional data and plaintext. It returns
  -- the ciphertext and the tag.
  sealGcm : Bytes → Bytes → Bytes → Bytes → Bytes × Bytes
  -- The same backwards, with the tag before the ciphertext. An `InvalidTag` is none.
  unsealGcm : Bytes → Bytes → Bytes → Bytes → Bytes → Option Bytes
  -- `load_der_private_key`, as the bytes it is serialized to. A `ValueError` is none.
  loadDerPrivateKey : Bytes → Option Bytes
  -- The decryption of wrapped material: algorithm, private key and encrypted material.
  unwrap : AlgorithmSpec → Bytes → Bytes → Except KmsError Bytes
  -- The decryption with a private RSA key.
  decryptRsa : Bytes → Bytes → Except KmsError Bytes
  -- `uuid.uuid5(namespace, name).hex`.
  uuid5 : Uuid → Bytes → String
  -- `get_partition(region)`.
  partition : String → String

variable (lib : Library)

/-- `kms_key_arn(key_id, account_id, region_name)`. -/
def kmsKeyArn (keyId : Text) (account region : String) : KeyArn :=
  ⟨lib.partition region, region, account, keyId⟩

/-- `BLOCK_SIZE`, `IV_LEN` and `TAG_LEN`. -/
def blockSize : Nat := 16

def keyIdLen : Nat := 36

/-- `SYMMETRIC_DEFAULT_MATERIAL_LENGTH`. -/
def materialLength : Nat := 32

def onDemandRotationLimit : Nat := 10

/-- What `os.urandom(n)` returns. -/
abbrev Random (n : Nat) := { bytes : Bytes // bytes.length = n }

/-! ### The cipher -/

/-- `pad(s)`. -/
def pad (s : Bytes) : Bytes :=
  s ++ List.replicate (blockSize - s.length % blockSize)
    (UInt8.ofNat (blockSize - s.length % blockSize))

/-- `unpad(s)`. -/
def unpad (s : Bytes) : Except KmsError Bytes :=
  match s.getLast? with
  | none => throw .indexError
  | some last => if last = 0 then return [] else return s.take (s.length - last.toNat)

/-- Whether `algorithms.AES` takes a key. For this mode it takes three lengths. -/
def IsAesKey (key : Bytes) : Prop := key.length = 16 ∨ key.length = 24 ∨ key.length = 32

instance (key : Bytes) : Decidable (IsAesKey key) :=
  inferInstanceAs (Decidable (_ ∨ _ ∨ _))

variable (request : CreateKeyRequest) (key : Option Material)

/-- `algorithms.AES(key)`, for a key that may be `None`. -/
def aes : Except KmsError Bytes :=
  match key with
  | none => throw .typeError
  | some material => if IsAesKey material.bytes then return material.bytes else throw .valueError

/-- `iv or b"0" * BLOCK_SIZE`. -/
def ivOr (iv : Bytes) : Bytes := if iv = [] then List.replicate blockSize 48 else iv

/-- `encrypt(key, message, iv, aad)`. -/
def encrypt (message iv aad : Bytes) : Except KmsError (Bytes × Bytes) := do
  let key ← aes key
  return lib.sealGcm key (ivOr iv) aad (pad message)

/-- `decrypt(key, encrypted, iv, tag, aad)`. An `InvalidTag` is none. -/
def decrypt (encrypted iv tag aad : Bytes) : Except KmsError (Option Bytes) := do
  let key ← aes key
  match lib.unsealGcm key (ivOr iv) aad tag encrypted with
  | none => return none
  | some decrypted => some <$> unpad decrypted

/-! ### Ciphertexts -/

/-- What an encryption makes, with its serialization. -/
structure Ciphertext where
  keyId : Text
  iv : Bytes
  ciphertext : Bytes
  tag : Bytes
  deriving DecidableEq

/-- The format `f"{n}s"` of `struct.pack`. -/
def pack (n : Nat) (s : Bytes) : Bytes := s.take n ++ List.replicate (n - s.length) 0

def serializeCiphertextBlob (c : Ciphertext) : Bytes :=
  pack keyIdLen c.keyId.utf8 ++ pack blockSize c.iv ++ pack blockSize c.tag ++ c.ciphertext

/-- `deserialize_ciphertext_blob`, with no value where it raises. -/
def deserializeCiphertextBlob (blob : Bytes) : Option Ciphertext :=
  if keyIdLen + blockSize + blockSize ≤ blob.length then
    (Text.decode (blob.take keyIdLen)).map fun keyId =>
      { keyId := keyId
        iv := (blob.drop keyIdLen).take blockSize
        tag := (blob.drop (keyIdLen + blockSize)).take blockSize
        ciphertext := blob.drop (keyIdLen + blockSize + blockSize) }
  else none

/-- `EncryptionContextType`. -/
abbrev EncryptionContext := Option (List (Text × Text))

/-- `_serialize_encryption_context`, without the keys of `IGNORED_CONTEXT_KEYS`. -/
def serializeEncryptionContext : EncryptionContext → Bytes
  | none => []
  | some context =>
    ((context.insertionSort fun a b => a.1 ≤ b.1).filter fun e =>
      e.1 ≠ "aws-crypto-public-key".toList).flatMap fun e => Text.utf8 e.1 ++ Text.utf8 e.2

/-! ### Cryptographic keys -/

/-- `KmsCryptoKey`. The private key stands for the pair of keys. -/
structure KmsCryptoKey where
  keySpec : KeySpec
  keyMaterial : Option Material
  pendingKeyMaterial : Option Material
  privateKey : Option Material
  deriving DecidableEq

/-- What a new cryptographic key draws: material, material for HMAC and a private key. -/
structure Entropy where
  material : Random materialLength
  hmacMaterial : Bytes
  privateKey : Bytes

/-- Material that is there and not empty. -/
def given (material : Option Material) : Option Material :=
  material.filter fun m => decide (m.bytes ≠ [])

namespace KmsCryptoKey

def assertValid : KeySpec → Except KmsError Unit
  | .other name =>
    if "RSA".toList.isPrefixOf name.toList || "ECC".toList.isPrefixOf name.toList ||
        "HMAC".toList.isPrefixOf name.toList then
      throw (.validation ("1 validation error detected: Value '" ++ name ++ "' at 'keySpec' " ++
        "failed to satisfy constraint: Member must satisfy enum value set: " ++
        "[RSA_2048, ECC_NIST_P384, ECC_NIST_P256, ECC_NIST_P521, HMAC_384, RSA_3072, " ++
        "ECC_SECG_P256K1, RSA_4096, SYMMETRIC_DEFAULT, HMAC_256, HMAC_224, HMAC_512]"))
    else throw (.unsupportedOperation ("KeySpec " ++ name ++ " is not supported"))
  | _ => return

/-- `KmsCryptoKey(key_spec, key_material)`. -/
def new (keySpec : KeySpec) (keyMaterial : Option Material) (entropy : Entropy) :
    Except KmsError KmsCryptoKey := do
  let material := (given keyMaterial).getD ⟨entropy.material.val, false⟩
  assertValid keySpec
  if keySpec = .symmetricDefault then
    return ⟨keySpec, some material, none, none⟩
  else if keySpec.isHmac then
    return ⟨keySpec, some ((given keyMaterial).getD ⟨entropy.hmacMaterial, false⟩), none, none⟩
  else
    match given keyMaterial with
    | none => return ⟨keySpec, some material, none, some ⟨entropy.privateKey, false⟩⟩
    | some loaded =>
      match lib.loadDerPrivateKey loaded.bytes with
      | some key => return ⟨keySpec, some material, none, some ⟨key, loaded.imported⟩⟩
      | none => throw .valueError

/-- `load_key_material`, for material that was imported. -/
def loadKeyMaterial (key : KmsCryptoKey) (material : Bytes) : Except KmsError KmsCryptoKey :=
  if key.keySpec = .symmetricDefault then
    return { key with pendingKeyMaterial := some ⟨material, true⟩ }
  else if key.keySpec.isHmac then
    return { key with keyMaterial := some ⟨material, true⟩ }
  else
    match lib.loadDerPrivateKey material with
    | some privateKey => return { key with privateKey := some ⟨privateKey, true⟩ }
    | none => throw .valueError

end KmsCryptoKey

/-! ### Metadata -/

structure MultiRegionKey where
  arn : KeyArn
  region : String
  deriving DecidableEq

inductive MultiRegionKeyType
  | primary
  | replica
  deriving DecidableEq

structure MultiRegionConfiguration where
  multiRegionKeyType : MultiRegionKeyType
  primaryKey : MultiRegionKey
  replicaKeys : List MultiRegionKey
  deriving DecidableEq

/-- `KeyMetadata`, as far as the operations here read or set it. There is a configuration if
    `MultiRegion` is set. -/
structure KeyMetadata where
  keyId : Text
  arn : KeyArn
  origin : OriginType
  keySpec : KeySpec
  keyUsage : KeyUsageType
  enabled : Bool
  keyState : KeyState
  deletionDate : Option Nat
  expirationModel : Option ExpirationModelType
  currentKeyMaterialId : Option String
  multiRegionConfiguration : Option MultiRegionConfiguration
  deriving DecidableEq

/-- `CreateKeyRequest`, with the key id and the material that two special tags give. -/
structure CreateKeyRequest where
  multiRegion : Bool
  origin : Option OriginType
  keySpec : Option KeySpec
  customerMasterKeySpec : Option KeySpec
  keyUsage : Option KeyUsageType
  customKeyId : Option Text
  customKeyMaterial : Option Bytes

def getKeyUsage (requestKeyUsage : Option KeyUsageType) (keySpec : KeySpec) :
    Except KmsError KeyUsageType :=
  if keySpec.isHmac then
    match requestKeyUsage with
    | none => throw (.validation
      ("You must specify a KeyUsage value for all KMS keys except for " ++
        "symmetric encryption keys."))
    | some .generateVerifyMac => return .generateVerifyMac
    | some usage => throw (.validation ("1 validation error detected: Value '" ++ usage.name ++
        "' at 'keyUsage' failed to satisfy constraint: Member must satisfy enum value set: " ++
        "[ENCRYPT_DECRYPT, SIGN_VERIFY, GENERATE_VERIFY_MAC]"))
  else if requestKeyUsage = some .keyAgreement then
    if keySpec.isEcc || keySpec = .other "SM2" then return .keyAgreement
    else throw (.validation ("KeyUsage KEY_AGREEMENT is not compatible with KeySpec " ++
      keySpec.name))
  else return requestKeyUsage.getD .encryptDecrypt

/-- What a new key draws. -/
structure NewKey where
  uuid : Uuid
  internalKeyId : Uuid
  entropy : Entropy

def newKeyId (uuid : Uuid) : Text :=
  match request.customKeyId.filter fun id => decide (id ≠ []) with
  | some id => id
  | none => if request.multiRegion then "mrk-".toList ++ uuid.hex else uuid.text

def newKeySpec : KeySpec :=
  (request.keySpec <|> request.customerMasterKeySpec).getD .symmetricDefault

def populateMetadata (account region : String) (uuid : Uuid) : Except KmsError KeyMetadata := do
  let keySpec := newKeySpec request
  let keyUsage ← getKeyUsage request.keyUsage keySpec
  let keyId := newKeyId request uuid
  let arn := kmsKeyArn lib keyId account region
  return {
    keyId := keyId
    arn := arn
    origin := request.origin.getD .awsKms
    keySpec := keySpec
    keyUsage := keyUsage
    enabled := decide (request.origin ≠ some .external)
    keyState := if request.origin ≠ some .external then .enabled else .pendingImport
    deletionDate := none
    expirationModel := none
    currentKeyMaterialId := none
    multiRegionConfiguration :=
      if request.multiRegion then some ⟨.primary, ⟨arn, region⟩, []⟩ else none }

/-! ### Keys -/

structure KmsKey where
  metadata : KeyMetadata
  cryptoKey : KmsCryptoKey
  previousKeys : List (Option Material)
  internalKeyId : Uuid
  deriving DecidableEq

namespace KmsKey

variable (key : KmsKey)

def generateKeyMaterialId (material : Bytes) : String :=
  lib.uuid5 key.internalKeyId material ++ lib.uuid5 key.internalKeyId material

/-- The id of the current key material is set. -/
def setCurrentKeyMaterialId : KmsKey :=
  { key with metadata := { key.metadata with
      currentKeyMaterialId := key.cryptoKey.keyMaterial.map fun material =>
        key.generateKeyMaterialId lib material.bytes } }

/-- `KmsKey(create_key_request, account_id, region, custom_key_material, custom_key_id)`. -/
def new (request : CreateKeyRequest) (account region : String) (draws : NewKey) :
    Except KmsError KmsKey := do
  let metadata ← populateMetadata lib request account region draws.uuid
  let material := request.customKeyMaterial.map fun bytes => ⟨bytes, false⟩
  let cryptoKey ← KmsCryptoKey.new lib metadata.keySpec material draws.entropy
  let key : KmsKey := ⟨metadata, cryptoKey, [], draws.internalKeyId⟩
  if (given material).isSome ∨ metadata.origin = .awsKms ∧ metadata.keySpec = .symmetricDefault then
    return key.setCurrentKeyMaterialId lib
  else return key

def encrypt (plaintext : Bytes) (context : EncryptionContext)
    (iv : Random blockSize) : Except KmsError Bytes := do
  let (ciphertext, tag) ← Kms.encrypt lib key.cryptoKey.keyMaterial plaintext iv.val
    (serializeEncryptionContext context)
  return serializeCiphertextBlob ⟨key.metadata.keyId, iv.val, ciphertext, tag⟩

/-- The loop of `decrypt` over the keys to try. -/
def tryKeys (c : Ciphertext) (aad : Bytes) : List (Option Material) → Except KmsError Bytes
  | [] => throw (.invalidCiphertext "")
  | key :: keys => do
    match ← Kms.decrypt lib key c.ciphertext c.iv c.tag aad with
    | some message => return message
    | none => tryKeys c aad keys

def keysToTry : List (Option Material) :=
  key.cryptoKey.keyMaterial :: key.previousKeys

def decrypt (c : Ciphertext) (context : EncryptionContext) : Except KmsError Bytes :=
  tryKeys lib c (serializeEncryptionContext context) key.keysToTry

def replicateMetadata (account replicaRegion : String) : KmsKey :=
  let arn := kmsKeyArn lib key.metadata.keyId account replicaRegion
  { key with metadata := { key.metadata with
      arn := arn
      multiRegionConfiguration := key.metadata.multiRegionConfiguration.map fun configuration =>
        { multiRegionKeyType := .replica
          primaryKey := ⟨key.metadata.arn, configuration.primaryKey.region⟩
          replicaKeys := configuration.replicaKeys ++ [⟨arn, replicaRegion⟩] } } }

def scheduleKeyDeletion (pendingWindowInDays now : Nat) : KmsKey :=
  { key with metadata := { key.metadata with
      enabled := false
      keyState := .pendingDeletion
      deletionDate := some (now + pendingWindowInDays * 86400) } }

def rotateKeyOnDemand (entropy : Entropy) : Except KmsError KmsKey :=
  if onDemandRotationLimit ≤ key.previousKeys.length then
    throw (.limitExceeded ("The on-demand rotations limit has been reached for the given " ++
      "keyId. No more on-demand rotations can be performed for this key: " ++
      key.metadata.arn.text))
  else do
    let cryptoKey ← KmsCryptoKey.new lib .symmetricDefault key.cryptoKey.pendingKeyMaterial entropy
    let rotated : KmsKey :=
      { key with
        previousKeys := key.previousKeys ++ [key.cryptoKey.keyMaterial]
        cryptoKey := cryptoKey }
    return rotated.setCurrentKeyMaterialId lib

end KmsKey

/-! ### Stores -/

/-- `KeyImportState`, with the cryptographic key of its key. -/
structure KeyImportState where
  keyId : Text
  wrappingAlgo : AlgorithmSpec
  cryptoKey : KmsCryptoKey

structure KmsGrant where
  grantId : Text
  keyId : Text
  keyArn : KeyArn
  name : String
  granteePrincipal : String
  operations : List String
  token : Text
  deriving DecidableEq

/-- `KmsStore`, without the aliases and the tags. A key is kept under its id. -/
structure KmsStore where
  keys : Dict Text KmsKey
  grants : Dict Text KmsGrant
  grantTokens : Dict Text Text
  imports : Dict Text KeyImportState
  named : ∀ keyId key, keys.get? keyId = some key → key.metadata.keyId = keyId

namespace KmsStore

def empty : KmsStore := ⟨.empty, .empty, .empty, .empty, fun _ _ h => by cases h⟩

def setKey (store : KmsStore) (key : KmsKey) : KmsStore :=
  { store with
    keys := store.keys.set key.metadata.keyId key
    named := by
      intro keyId key' h
      rcases Dict.get?_set_eq_some _ _ _ h with ⟨rfl, rfl⟩ | ⟨-, h⟩
      · rfl
      · exact store.named keyId key' h }

theorem get?_setKey (store : KmsStore) (key : KmsKey) (keyId : Text) :
    (store.setKey key).keys.get? keyId =
      if keyId = key.metadata.keyId then some key else store.keys.get? keyId :=
  Dict.get?_set _ _ _ _

end KmsStore

/-- `kms_stores`: the store of each account and region. -/
abbrev KmsStores := String → String → KmsStore

def KmsStores.setStore (stores : KmsStores) (account region : String) (store : KmsStore) :
    KmsStores := fun account' region' =>
  if account' = account ∧ region' = region then store else stores account' region'

end LocalEmu.Kms
