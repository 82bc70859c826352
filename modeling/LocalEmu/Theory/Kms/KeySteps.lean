import LocalEmu.Base.Action
import LocalEmu.Base.Run
import LocalEmu.Core.Kms.Provider

/-!
# What an Operation Does to a Key

A key has a place: the account and the region of its store, and its id. Most
operations look one key up and change it, two put a new key in a place. So what an
operation does is said for one place at a time, and every invariant of keys is a
case analysis over this.
-/

namespace LocalEmu.Kms

open LocalEmu.Action

/-- Where a key is. -/
structure Place where
  account : String
  region : String
  keyId : Text
  deriving DecidableEq

/-- The context of calls to the store of a place. -/
def Place.context (place : Place) : RequestContext := ⟨place.account, place.region⟩

/-- The key in a place. -/
def KmsStores.key? (stores : KmsStores) (place : Place) : Option KmsKey :=
  (stores place.account place.region).keys.get? place.keyId

/-- A reference by a caller names the key in a place of the caller's store. -/
def Names (context : RequestContext) (ref : KeyRef) (place : Place) : Prop :=
  context = place.context ∧ ref.keyId = place.keyId

/-- An operation takes a key in a state. A key that waits for material is always taken. -/
def Allowed.takes (allowed : Allowed) : KeyState → Bool
  | .enabled => allowed.enabled
  | .disabled => allowed.disabled
  | .pendingDeletion => allowed.pendingDeletion
  | .pendingImport => true

/-- What an operation does to what is in a place. -/
inductive KeyStep (lib : Library) (stores : KmsStores) (context : RequestContext) (place : Place) :
    KeyRequest → Except KmsError Response → Option KmsKey → Option KmsKey → Prop
  | same (request : KeyRequest) (result : Except KmsError Response) (old : Option KmsKey) :
      KeyStep lib stores context place request result old old
  | created (request : CreateKeyRequest) (draws : NewKey) (old : Option KmsKey) (key : KmsKey)
      (hplace : context = place.context) (hid : key.metadata.keyId = place.keyId)
      (hnew : KmsKey.new lib request place.account place.region draws = .ok key) :
      KeyStep lib stores context place (.createKey request draws) (.ok (.keyMetadata key.metadata))
        old (some key)
  | scheduled (ref : KeyRef) (window : Option Int) (now days : Nat) (key : KmsKey)
      (href : Names context ref place) (hstate : key.metadata.keyState ≠ .pendingDeletion) :
      KeyStep lib stores context place (.scheduleKeyDeletion ref window now)
        (.ok (.keyMetadata (key.scheduleKeyDeletion days now).metadata))
        (some key) (some (key.scheduleKeyDeletion days now))
  | cancelled (ref : KeyRef) (key : KmsKey) (href : Names context ref place)
      (hstate : key.metadata.keyState = .pendingDeletion ∨
        key.metadata.keyState = .pendingImport) :
      KeyStep lib stores context place (.cancelKeyDeletion ref) (.ok (.keyId key.metadata.arn))
        (some key) (some key.cancelKeyDeletion)
  | disabled (ref : KeyRef) (key : KmsKey) (href : Names context ref place)
      (hstate : key.metadata.keyState ≠ .pendingDeletion) :
      KeyStep lib stores context place (.disableKey ref) (.ok .none) (some key)
        (some (key.setKeyState .disabled false))
  | enabled (ref : KeyRef) (key : KmsKey) (href : Names context ref place)
      (hstate : key.metadata.keyState ≠ .pendingDeletion) :
      KeyStep lib stores context place (.enableKey ref) (.ok .none) (some key)
        (some (key.setKeyState .enabled true))
  | replica (ref : KeyRef) (source : Place) (key : KmsKey) (response : Response)
      (hsource : source = ⟨place.account, context.region, place.keyId⟩)
      (haccount : context.account = place.account) (href : ref.keyId = place.keyId)
      (hkey : stores.key? source = some key) :
      KeyStep lib stores context place (.replicateKey ref place.region) (.ok response) none
        (some (key.replicateMetadata lib place.account place.region))
  | replicated (ref : KeyRef) (replicaRegion : String) (replica : MultiRegionKey) (key : KmsKey)
      (response : Response) (href : Names context ref place)
      (hfree : stores.key? ⟨place.account, replicaRegion, place.keyId⟩ = none) :
      KeyStep lib stores context place (.replicateKey ref replicaRegion) (.ok response) (some key)
        (some (updatePrimaryKeyWithReplicaKeys key replica))
  | imported (ref : KeyRef) (importToken : Text) (encryptedKeyMaterial keyMaterial : Bytes)
      (validTo : Option Nat) (expirationModel : Option ExpirationModelType) (key : KmsKey)
      (href : Names context ref place) (hstate : key.metadata.keyState ≠ .pendingDeletion)
      (hunwrap : unwrapForImport lib stores context ref importToken encryptedKeyMaterial =
        .ok (key, keyMaterial)) :
      KeyStep lib stores context place
        (.importKeyMaterial ref importToken encryptedKeyMaterial validTo expirationModel)
        ((key.importKeyMaterial lib keyMaterial validTo expirationModel).1.map fun keyMaterialId =>
          .keyMaterialId key.metadata.arn keyMaterialId)
        (some key) (some (key.importKeyMaterial lib keyMaterial validTo expirationModel).2)
  | deleted (ref : KeyRef) (key : KmsKey) (href : Names context ref place)
      (hstate : key.metadata.keyState ≠ .pendingDeletion) :
      KeyStep lib stores context place (.deleteImportedKeyMaterial ref) (.ok .none) (some key)
        (some key.deleteImportedKeyMaterial)
  | rotated (ref : KeyRef) (entropy : Entropy) (key key' : KmsKey)
      (hparse : parseKeyId context ref = .ok (place.account, place.region, place.keyId))
      (hspec : key.metadata.keySpec = .symmetricDefault)
      (hstate : key.metadata.keyState = .enabled)
      (hpending : key.metadata.origin = .external → key.cryptoKey.pendingKeyMaterial ≠ none)
      (hrotate : key.rotateKeyOnDemand lib entropy = .ok key') :
      KeyStep lib stores context place (.rotateKeyOnDemand ref entropy)
        (.ok (.keyId key.metadata.arn)) (some key) (some key')

variable {lib : Library} {stores stores' : KmsStores} {context : RequestContext}

/-! ### Stores -/

theorem key?_setKey (account region : String) (key : KmsKey) (place : Place) :
    (setKey stores account region key).key? place =
      if place = ⟨account, region, key.metadata.keyId⟩ then some key else stores.key? place := by
  rcases place with ⟨account', region', keyId⟩
  simp only [KmsStores.key?, setKey, KmsStores.setStore, Place.mk.injEq]
  by_cases hstore : account' = account ∧ region' = region
  · rw [if_pos hstore, KmsStore.get?_setKey, hstore.1, hstore.2]
    by_cases hid : keyId = key.metadata.keyId
    · rw [if_pos hid, if_pos ⟨rfl, rfl, hid⟩]
    · rw [if_neg hid, if_neg fun h => hid h.2.2]
  · rw [if_neg hstore, if_neg fun h => hstore ⟨h.1, h.2.1⟩]

variable {key : KmsKey}

theorem KmsStores.keyId_of_key? {place : Place} (h : stores.key? place = some key) :
    key.metadata.keyId = place.keyId :=
  (stores place.account place.region).named _ _ h

/-! ### Lookup -/

theorem checkKeyState_ok {key key' : KmsKey} {allowed : Allowed}
    (h : checkKeyState key allowed = .ok key') :
    key' = key ∧ allowed.takes key.metadata.keyState = true := by
  unfold checkKeyState at h
  cases hstate : key.metadata.keyState with
  | enabled =>
    rw [hstate] at h
    by_cases hallowed : allowed.enabled
    · rw [if_pos hallowed] at h
      exact ⟨(Except.ok.inj h).symm, hallowed⟩
    · rw [if_neg hallowed] at h
      cases h
  | disabled =>
    rw [hstate] at h
    by_cases hallowed : allowed.disabled
    · rw [if_pos hallowed] at h
      exact ⟨(Except.ok.inj h).symm, hallowed⟩
    · rw [if_neg hallowed] at h
      cases h
  | pendingDeletion =>
    rw [hstate] at h
    by_cases hallowed : allowed.pendingDeletion
    · rw [if_pos hallowed] at h
      exact ⟨(Except.ok.inj h).symm, hallowed⟩
    · rw [if_neg hallowed] at h
      cases h
  | pendingImport =>
    rw [hstate] at h
    exact ⟨(Except.ok.inj h).symm, rfl⟩

theorem lookUpKey_ok {store : KmsStore} {keyId : Text} {arn : KeyArn}
    (h : lookUpKey store keyId arn = .ok key) : store.keys.get? keyId = some key := by
  unfold lookUpKey at h
  split at h
  · cases hget : store.keys.get? keyId with
    | none =>
      rw [hget] at h
      cases h
    | some =>
      rw [hget] at h
      rw [Except.ok.inj h]
  · cases h

variable {account region : String}

/-- What the lookup finds. -/
theorem getKmsKey_ok {store : KmsStore} {ref : KeyRef}
    {allowed : Allowed}
    (h : getKmsKey lib store account region ref allowed = .ok key) :
    store.keys.get? ref.keyId = some key ∧ allowed.takes key.metadata.keyState = true := by
  rcases ok_of_bind h with ⟨found, hfound, hcheck⟩
  rcases checkKeyState_ok hcheck with ⟨rfl, hallowed⟩
  refine ⟨?_, hallowed⟩
  cases ref with
  | id => exact lookUpKey_ok hfound
  | arn =>
    rw [getKeyFromAnyId] at hfound
    split at hfound
    · exact lookUpKey_ok hfound
    · cases hfound

theorem locateKey_ok {ref : KeyRef} {allowed : Allowed}
    (h : locateKey lib stores context ref allowed = .ok (account, region, key)) :
    parseKeyId context ref = .ok (account, region, key.metadata.keyId) ∧
      stores.key? ⟨account, region, key.metadata.keyId⟩ = some key ∧
      allowed.takes key.metadata.keyState = true := by
  rcases ok_of_bind h with ⟨⟨account', region', keyId⟩, hparse, h⟩
  rcases ok_of_bind h with ⟨key', hkey, h⟩
  cases h
  rcases getKmsKey_ok hkey with ⟨hget, hallowed⟩
  have hid : key.metadata.keyId = keyId := (stores account region).named _ _ hget
  rw [hid]
  exact ⟨hparse, hget, hallowed⟩

/-! ### Changes -/

variable {place : Place}

variable {ref : KeyRef} {request : CreateKeyRequest}
  {result : Except KmsError (Response × KmsStores)} {allowed : Allowed} {change : KmsKey → KmsKey}
  {response : KmsKey → Response}

variable {r : Response}

theorem keyStep_of_changeKey {request : KeyRequest}
    (h : changeKey lib stores context ref allowed change response = .ok (r, stores'))
    (hid : ∀ key, (change key).metadata.keyId = key.metadata.keyId)
    (hstep : ∀ key, Names context ref place → allowed.takes key.metadata.keyState = true →
      KeyStep lib stores context place request (.ok (response (change key))) (some key)
        (some (change key))) :
    KeyStep lib stores context place request (.ok r) (stores.key? place) (stores'.key? place) := by
  rcases ok_of_bind h with ⟨key, hkey, h⟩
  cases h
  rcases getKmsKey_ok hkey with ⟨hget, hallowed⟩
  have hname := (stores context.account context.region).named _ _ hget
  rw [key?_setKey, hid, hname]
  by_cases hplace : place = ⟨context.account, context.region, ref.keyId⟩
  · rw [if_pos hplace]
    subst hplace
    exact (show stores.key? ⟨_, _, _⟩ = some key from hget) ▸ hstep key ⟨rfl, rfl⟩ hallowed
  · rw [if_neg hplace]
    exact .same _ _ _

theorem takes_orDisabled {keyState : KeyState} (h : Allowed.orDisabled.takes keyState = true) :
    keyState ≠ .pendingDeletion := by
  rintro rfl
  cases h

variable {draws : NewKey}

theorem createKey_keyStep (h : createKey lib stores context request draws = .ok (r, stores')) :
    KeyStep lib stores context place (.createKey request draws) (.ok r) (stores.key? place)
      (stores'.key? place) := by
  rcases ok_of_bind h with ⟨key, hkey, h⟩
  cases h
  rw [key?_setKey]
  by_cases hplace : place = ⟨context.account, context.region, key.metadata.keyId⟩
  · rw [if_pos hplace]
    subst hplace
    exact .created request draws _ key rfl rfl hkey
  · rw [if_neg hplace]
    exact .same _ _ _

theorem scheduleKeyDeletion_keyStep {window : Option Int} {now : Nat}
    (h : scheduleKeyDeletion lib stores context ref window now = .ok (r, stores')) :
    KeyStep lib stores context place (.scheduleKeyDeletion ref window now) (.ok r)
      (stores.key? place) (stores'.key? place) := by
  unfold scheduleKeyDeletion at h
  dsimp only at h
  split at h
  · cases h
  · refine keyStep_of_changeKey h (fun _ => rfl) fun key hname hallowed => ?_
    exact .scheduled ref window now _ key hname (takes_orDisabled hallowed)

theorem takes_pendingDeletion {keyState : KeyState}
    (h : Allowed.takes ⟨false, false, true⟩ keyState = true) :
    keyState = .pendingDeletion ∨ keyState = .pendingImport := by
  cases keyState with
  | pendingDeletion => exact .inl rfl
  | pendingImport => exact .inr rfl
  | enabled | disabled => cases h

theorem replicateKey_keyStep {replicaRegion : String}
    (h : replicateKey lib stores context ref replicaRegion = .ok (r, stores')) :
    KeyStep lib stores context place (.replicateKey ref replicaRegion) (.ok r)
      (stores.key? place) (stores'.key? place) := by
  rcases ok_of_bind h with ⟨key, hkey, h⟩
  rcases getKmsKey_ok hkey with ⟨hget, _⟩
  have hid := (stores context.account context.region).named _ _ hget
  rcases hconfig : key.metadata.multiRegionConfiguration with _ | configuration
  · rw [hconfig] at h
    cases h
  rw [hconfig] at h
  dsimp only at h
  split at h
  · cases h
  split at h
  · cases h
  · next hfree =>
    cases h
    rw [Bool.not_eq_true, Option.isSome_eq_false_iff, Option.isNone_iff_eq_none, hid] at hfree
    rw [key?_setKey, key?_setKey]
    have hprimary : (updatePrimaryKeyWithReplicaKeys key
        ⟨(key.replicateMetadata lib context.account replicaRegion).metadata.arn,
          replicaRegion⟩).metadata.keyId = ref.keyId := hid
    have hreplica : (key.replicateMetadata lib context.account replicaRegion).metadata.keyId =
        ref.keyId := hid
    rw [hprimary, hreplica]
    by_cases hplace : place = ⟨context.account, context.region, ref.keyId⟩
    · rw [if_pos hplace]
      subst hplace
      have hold : stores.key? ⟨context.account, context.region, ref.keyId⟩ = some key := hget
      rw [hold]
      exact .replicated ref replicaRegion _ key _ ⟨rfl, rfl⟩ hfree
    · rw [if_neg hplace]
      by_cases htarget : place = ⟨context.account, replicaRegion, ref.keyId⟩
      · rw [if_pos htarget]
        subst htarget
        have hold : stores.key? ⟨context.account, replicaRegion, ref.keyId⟩ = none := hfree
        rw [hold]
        exact .replica ref _ key _ rfl rfl rfl hget
      · rw [if_neg htarget]
        exact .same _ _ _

theorem unwrapForImport_ok {importToken : Text} {encryptedKeyMaterial : Bytes}
    {keyMaterial : Bytes}
    (h : unwrapForImport lib stores context ref importToken encryptedKeyMaterial =
      .ok (key, keyMaterial)) :
    stores.key? ⟨context.account, context.region, ref.keyId⟩ = some key ∧
      key.metadata.keyState ≠ .pendingDeletion ∧
      ∃ importState,
        (stores context.account context.region).imports.get? importToken = some importState ∧
        decryptWrappedKeyMaterial lib importState encryptedKeyMaterial = .ok keyMaterial := by
  unfold unwrapForImport at h
  dsimp only at h
  rcases hstate : (stores context.account context.region).imports.get? importToken with
    _ | importState
  · rw [hstate] at h
    cases h
  · rw [hstate] at h
    rcases ok_of_bind h with ⟨found, hfound, h⟩
    rcases ok_of_bind h with ⟨material, hmaterial, h⟩
    cases h
    rcases getKmsKey_ok hfound with ⟨hget, hallowed⟩
    exact ⟨hget, takes_orDisabled hallowed, importState, rfl, hmaterial⟩

variable (key : KmsKey)

/-- The key that an import makes available, before its material is loaded. -/
def KmsKey.importing (expirationModel : Option ExpirationModelType) : KmsKey :=
  (key.setExpirationModel (some (expirationModel.getD .keyMaterialExpires))).setKeyState .enabled
    true

theorem KmsKey.importKeyMaterial_cases (lib : Library) (key : KmsKey) (keyMaterial : Bytes)
    (validTo : Option Nat) (expirationModel : Option ExpirationModelType) :
    (∃ e, ((expirationModel.getD .keyMaterialExpires = .keyMaterialExpires ∧ validTo = none) ∨
        (given key.cryptoKey.pendingKeyMaterial).isSome = true) ∧
      key.importKeyMaterial lib keyMaterial validTo expirationModel =
        (.error e, key.setExpirationModel (some (expirationModel.getD .keyMaterialExpires)))) ∨
    (∃ e, given key.cryptoKey.pendingKeyMaterial = none ∧
      ¬(expirationModel.getD .keyMaterialExpires = .keyMaterialExpires ∧ validTo = none) ∧
      key.cryptoKey.loadKeyMaterial lib keyMaterial = .error e ∧
      key.importKeyMaterial lib keyMaterial validTo expirationModel =
        (.error e, key.importing expirationModel)) ∨
    (∃ cryptoKey keyMaterialId, given key.cryptoKey.pendingKeyMaterial = none ∧
      key.cryptoKey.loadKeyMaterial lib keyMaterial = .ok cryptoKey ∧
      key.importKeyMaterial lib keyMaterial validTo expirationModel =
        if key.metadata.keySpec = .symmetricDefault then
          (.ok (some keyMaterialId),
            { key.importing expirationModel with cryptoKey := cryptoKey }.promote keyMaterialId)
        else (.ok none, { key.importing expirationModel with cryptoKey := cryptoKey })) := by
  unfold importKeyMaterial
  dsimp only
  by_cases hmodel : expirationModel.getD .keyMaterialExpires = .keyMaterialExpires ∧ validTo = none
  · rw [if_pos hmodel]
    exact .inl ⟨_, .inl hmodel, rfl⟩
  rw [if_neg hmodel]
  have hpending : (key.setExpirationModel
      (some (expirationModel.getD .keyMaterialExpires))).cryptoKey = key.cryptoKey := rfl
  rw [hpending]
  cases hgiven : given key.cryptoKey.pendingKeyMaterial with
  | some => exact .inl ⟨_, .inr rfl, rfl⟩
  | none =>
    right
    have hload : ((key.setExpirationModel
        (some (expirationModel.getD .keyMaterialExpires))).setKeyState .enabled true).cryptoKey =
          key.cryptoKey := rfl
    rw [hload]
    cases hloaded : key.cryptoKey.loadKeyMaterial lib keyMaterial with
    | error e => exact .inl ⟨e, rfl, hmodel, rfl, rfl⟩
    | ok cryptoKey => exact .inr ⟨cryptoKey, _, rfl, rfl, rfl⟩

theorem KmsKey.importKeyMaterial_names (keyMaterial : Bytes) (validTo : Option Nat)
    (expirationModel : Option ExpirationModelType) :
    (key.importKeyMaterial lib keyMaterial validTo expirationModel).2.metadata.keyId =
        key.metadata.keyId ∧
      (key.importKeyMaterial lib keyMaterial validTo expirationModel).2.metadata.arn =
        key.metadata.arn := by
  rcases key.importKeyMaterial_cases lib keyMaterial validTo expirationModel with
    ⟨e, _, h⟩ | ⟨e, _, _, _, h⟩ | ⟨cryptoKey, keyMaterialId, _, _, h⟩
  · rw [h]
    exact ⟨rfl, rfl⟩
  · rw [h]
    exact ⟨rfl, rfl⟩
  · rw [h]
    unfold promote
    repeat' split
    all_goals exact ⟨rfl, rfl⟩

theorem importKeyMaterial_keyStep {importToken : Text} {encryptedKeyMaterial : Bytes}
    {validTo : Option Nat}
    {expirationModel : Option ExpirationModelType} {result : Except KmsError Response}
    (h : importKeyMaterial lib stores context ref importToken encryptedKeyMaterial validTo
      expirationModel = (result, stores')) :
    KeyStep lib stores context place
      (.importKeyMaterial ref importToken encryptedKeyMaterial validTo expirationModel) result
      (stores.key? place) (stores'.key? place) := by
  unfold importKeyMaterial at h
  rcases hunwrap : unwrapForImport lib stores context ref importToken encryptedKeyMaterial with
    e | ⟨key, keyMaterial⟩
  · rw [hunwrap] at h
    cases h
    exact .same _ _ _
  · rw [hunwrap] at h
    cases h
    rcases unwrapForImport_ok hunwrap with ⟨hget, hstate, _⟩
    have hid := stores.keyId_of_key? hget
    rw [key?_setKey, (KmsKey.importKeyMaterial_names _ _ _ _).1, hid]
    by_cases hplace : place = ⟨context.account, context.region, ref.keyId⟩
    · rw [if_pos hplace]
      subst hplace
      rw [hget]
      exact .imported ref importToken encryptedKeyMaterial keyMaterial validTo expirationModel key
        ⟨rfl, rfl⟩ hstate hunwrap
    · rw [if_neg hplace]
      exact .same _ _ _

/-! ### New keys -/

theorem populateMetadata_ok {uuid : Uuid} {metadata : KeyMetadata}
    (h : populateMetadata lib request account region uuid = .ok metadata) :
    metadata.keyId = newKeyId request uuid ∧ metadata.keySpec = newKeySpec request ∧
      getKeyUsage request.keyUsage (newKeySpec request) = .ok metadata.keyUsage ∧
      metadata.origin = request.origin.getD .awsKms ∧
      metadata.enabled = decide (request.origin ≠ some .external) ∧
      metadata.keyState = (if request.origin ≠ some .external then .enabled else .pendingImport) ∧
      metadata.currentKeyMaterialId = none ∧
      metadata.arn = kmsKeyArn lib (newKeyId request uuid) account region := by
  rcases ok_of_bind h with ⟨keyUsage, hkeyUsage, h⟩
  cases h
  exact ⟨rfl, rfl, hkeyUsage, rfl, rfl, rfl, rfl, rfl⟩

theorem KmsKey.new_ok {key : KmsKey}
    (h : KmsKey.new lib request account region draws = .ok key) :
    ∃ metadata cryptoKey, populateMetadata lib request account region draws.uuid = .ok metadata ∧
      KmsCryptoKey.new lib metadata.keySpec
        (request.customKeyMaterial.map fun bytes => ⟨bytes, false⟩) draws.entropy =
          .ok cryptoKey ∧
      ((given (request.customKeyMaterial.map fun bytes => ⟨bytes, false⟩)).isSome = true ∨
          metadata.origin = .awsKms ∧ metadata.keySpec = .symmetricDefault →
        key = (⟨metadata, cryptoKey, [], draws.internalKeyId⟩ : KmsKey).setCurrentKeyMaterialId
          lib) ∧
      (¬((given (request.customKeyMaterial.map fun bytes => ⟨bytes, false⟩)).isSome = true ∨
          metadata.origin = .awsKms ∧ metadata.keySpec = .symmetricDefault) →
        key = ⟨metadata, cryptoKey, [], draws.internalKeyId⟩) := by
  rcases ok_of_bind h with ⟨metadata, hmetadata, h⟩
  rcases ok_of_bind h with ⟨cryptoKey, hcryptoKey, h⟩
  refine ⟨metadata, cryptoKey, hmetadata, hcryptoKey, fun hid => ?_, fun hid => ?_⟩
  · dsimp only at h
    rw [if_pos hid] at h
    exact (Except.ok.inj h).symm
  · dsimp only at h
    rw [if_neg hid] at h
    exact (Except.ok.inj h).symm

theorem KmsKey.new_metadata {key : KmsKey}
    (h : KmsKey.new lib request account region draws = .ok key) :
    ∃ metadata, populateMetadata lib request account region draws.uuid = .ok metadata ∧
      key.metadata = { metadata with
        currentKeyMaterialId := key.metadata.currentKeyMaterialId } := by
  rcases new_ok h with ⟨metadata, cryptoKey, hmetadata, -, hset, hunset⟩
  refine ⟨metadata, hmetadata, ?_⟩
  by_cases hid : (given (request.customKeyMaterial.map fun bytes => ⟨bytes, false⟩)).isSome = true ∨
      metadata.origin = .awsKms ∧ metadata.keySpec = .symmetricDefault
  · rw [hset hid]
    rfl
  · rw [hunset hid]

theorem KmsKey.new_keyId {key : KmsKey}
    (h : KmsKey.new lib request account region draws = .ok key) :
    key.metadata.keyId = newKeyId request draws.uuid := by
  rcases new_metadata h with ⟨metadata, hmetadata, heq⟩
  rw [heq, ← (populateMetadata_ok hmetadata).1]

theorem KmsKey.rotateKeyOnDemand_ok {key key' : KmsKey} {entropy : Entropy}
    (h : key.rotateKeyOnDemand lib entropy = .ok key') :
    key' = ({ key with
      previousKeys := key.previousKeys ++ [key.cryptoKey.keyMaterial]
      cryptoKey := ⟨.symmetricDefault, some ((given key.cryptoKey.pendingKeyMaterial).getD
        ⟨entropy.material.val, false⟩), none, none⟩ } : KmsKey).setCurrentKeyMaterialId lib := by
  unfold rotateKeyOnDemand at h
  split at h
  · cases h
  · exact (Except.ok.inj h).symm

theorem rotateKeyOnDemand_keyStep {entropy : Entropy} {r : Response}
    (h : rotateKeyOnDemand lib stores context ref entropy = .ok (r, stores')) :
    KeyStep lib stores context place (.rotateKeyOnDemand ref entropy) (.ok r)
      (stores.key? place) (stores'.key? place) := by
  rcases ok_of_bind h with ⟨⟨account, region, key⟩, hlocate, h⟩
  rcases locateKey_ok hlocate with ⟨hparse, hget, hallowed⟩
  dsimp only at h
  split at h
  · cases h
  rename_i hspec
  rcases ok_of_bind h with ⟨_, himport, h⟩
  rcases ok_of_bind h with ⟨_, hpending, h⟩
  rcases ok_of_bind h with ⟨rotated, hrotate, h⟩
  cases h
  have hid : rotated.metadata.keyId = key.metadata.keyId := by
    rw [KmsKey.rotateKeyOnDemand_ok hrotate]
    rfl
  rw [key?_setKey, hid]
  by_cases hplace : place = ⟨account, region, key.metadata.keyId⟩
  · rw [if_pos hplace]
    subst hplace
    rw [hget]
    refine .rotated ref entropy key rotated hparse (not_not.mp hspec) ?_ ?_ hrotate
    · cases hstate : key.metadata.keyState with
      | enabled => rfl
      | disabled | pendingDeletion =>
        rw [hstate] at hallowed
        cases hallowed
      | pendingImport =>
        rw [validateKeyStateNotPendingImport, if_pos hstate] at himport
        cases himport
    · intro horigin hnone
      rw [validateExternalKeyHasPendingMaterial, if_pos ⟨horigin, hnone⟩] at hpending
      cases hpending
  · rw [if_neg hplace]
    exact .same _ _ _

/-! ### Calls -/

/-- A call of an operation, with its result. -/
structure Call where
  context : RequestContext
  request : KeyRequest
  result : Except KmsError Response

/-- A call is performed. -/
def Performs (lib : Library) (stores : KmsStores) (call : Call) (stores' : KmsStores) : Prop :=
  call.request.handle lib stores call.context = (call.result, stores')

variable {call : Call} {result' : Except KmsError Response}

theorem of_orUnchanged (h : orUnchanged stores result = (result', stores')) :
    (∃ r, result = .ok (r, stores') ∧ result' = .ok r) ∨ stores' = stores := by
  cases result with
  | error =>
    cases h
    exact .inr rfl
  | ok out =>
    cases h
    exact .inl ⟨out.1, rfl, rfl⟩

theorem keyStep_of_orUnchanged {request : KeyRequest} {result' : Except KmsError Response}
    (h : orUnchanged stores result = (result', stores'))
    (hstep : ∀ r, result = .ok (r, stores') → KeyStep lib stores context place request (.ok r)
      (stores.key? place) (stores'.key? place)) :
    KeyStep lib stores context place request result' (stores.key? place) (stores'.key? place) := by
  rcases of_orUnchanged h with ⟨r, hok, rfl⟩ | rfl
  · exact hstep r hok
  · exact .same _ _ _

/-- What an operation does to the key in a place. -/
theorem keyStep_of_performs (h : Performs lib stores call stores') (place : Place) :
    KeyStep lib stores call.context place call.request call.result (stores.key? place)
      (stores'.key? place) := by
  rcases call with ⟨context, request, result⟩
  unfold Performs KeyRequest.handle at h
  dsimp only at h ⊢
  cases request with
  | createKey => exact keyStep_of_orUnchanged h fun r hr => createKey_keyStep hr
  | scheduleKeyDeletion =>
    exact keyStep_of_orUnchanged h fun r hr => scheduleKeyDeletion_keyStep hr
  | cancelKeyDeletion ref =>
    refine keyStep_of_orUnchanged h fun r hr =>
      keyStep_of_changeKey hr (fun _ => rfl) fun key hname hallowed => ?_
    exact .cancelled ref key hname (takes_pendingDeletion hallowed)
  | disableKey ref =>
    refine keyStep_of_orUnchanged h fun r hr =>
      keyStep_of_changeKey hr (fun _ => rfl) fun key hname hallowed => ?_
    exact .disabled ref key hname (takes_orDisabled hallowed)
  | enableKey ref =>
    refine keyStep_of_orUnchanged h fun r hr =>
      keyStep_of_changeKey hr (fun _ => rfl) fun key hname hallowed => ?_
    exact .enabled ref key hname (takes_orDisabled hallowed)
  | replicateKey =>
    exact keyStep_of_orUnchanged h fun r hr => replicateKey_keyStep hr
  | encrypt ref plaintext encryptionContext encryptionAlgorithm iv
  | decrypt =>
    cases h
    exact .same _ _ _
  | getParametersForImport =>
    refine keyStep_of_orUnchanged h fun r hr => ?_
    rcases ok_of_bind hr with ⟨key, _, hr⟩
    split at hr
    · cases hr
    rcases ok_of_bind hr with ⟨_, _, hr⟩
    rcases ok_of_bind hr with ⟨cryptoKey, _, hr⟩
    cases hr
    simp only [KmsStores.key?, KmsStores.setStore]
    split
    · next hstore => rw [hstore.1, hstore.2]; exact .same _ _ _
    · exact .same _ _ _
  | importKeyMaterial =>
    exact importKeyMaterial_keyStep h
  | deleteImportedKeyMaterial ref =>
    refine keyStep_of_orUnchanged h fun r hr =>
      keyStep_of_changeKey hr (fun _ => rfl) fun key hname hallowed => ?_
    exact .deleted ref key hname (takes_orDisabled hallowed)
  | rotateKeyOnDemand =>
    exact keyStep_of_orUnchanged h fun r hr => rotateKeyOnDemand_keyStep hr

/-! ### The rest of a store -/

/-- Nothing but keys has changed. -/
def KeysOnly (stores stores' : KmsStores) : Prop :=
  ∀ account region, (stores' account region).grants = (stores account region).grants ∧
    (stores' account region).grantTokens = (stores account region).grantTokens ∧
    (stores' account region).imports = (stores account region).imports

theorem keysOnly_setKey (account region : String) (key : KmsKey) :
    KeysOnly stores (setKey stores account region key) := by
  intro account' region'
  simp only [setKey, KmsStores.setStore]
  split
  · next hstore =>
    rw [hstore.1, hstore.2]
    exact ⟨rfl, rfl, rfl⟩
  · exact ⟨rfl, rfl, rfl⟩

theorem KeysOnly.trans {s t u : KmsStores} (hst : KeysOnly s t) (htu : KeysOnly t u) :
    KeysOnly s u := by
  intro account region
  rcases hst _ _ with ⟨hgrants, htokens, himports⟩
  rcases htu _ _ with ⟨hgrants', htokens', himports'⟩
  exact ⟨hgrants'.trans hgrants, htokens'.trans htokens, himports'.trans himports⟩

theorem keysOnly_changeKey {r : Response}
    (h : changeKey lib stores context ref allowed change response = .ok (r, stores')) :
    KeysOnly stores stores' := by
  rcases ok_of_bind h with ⟨key, _, h⟩
  cases h
  exact keysOnly_setKey _ _ _

theorem keysOnly_of_orUnchanged (h : orUnchanged stores result = (result', stores'))
    (hkeys : ∀ r, result = .ok (r, stores') → KeysOnly stores stores') :
    KeysOnly stores stores' := by
  rcases of_orUnchanged h with ⟨r, hok, _⟩ | rfl
  · exact hkeys r hok
  · exact fun _ _ => ⟨rfl, rfl, rfl⟩

/-- All operations but one change keys only. -/
theorem keysOnly_of_performs (h : Performs lib stores call stores') : KeysOnly stores stores' ∨
      ∃ ref algorithm spec token entropy r,
        call.request = .getParametersForImport ref algorithm spec token entropy ∧
        call.result = .ok r ∧
        getParametersForImport lib stores call.context ref algorithm spec token entropy =
          .ok (r, stores') := by
  rcases call with ⟨context, request, result⟩
  unfold Performs KeyRequest.handle at h
  dsimp only at h
  cases request with
  | createKey =>
    refine .inl (keysOnly_of_orUnchanged h fun r hr => ?_)
    rcases ok_of_bind hr with ⟨key, _, hr⟩
    cases hr
    exact keysOnly_setKey _ _ _
  | scheduleKeyDeletion =>
    refine .inl (keysOnly_of_orUnchanged h fun r hr => ?_)
    unfold scheduleKeyDeletion at hr
    dsimp only at hr
    split at hr
    · cases hr
    · exact keysOnly_changeKey hr
  | cancelKeyDeletion | disableKey | enableKey | deleteImportedKeyMaterial =>
    exact .inl (keysOnly_of_orUnchanged h fun r hr => keysOnly_changeKey hr)
  | replicateKey =>
    refine .inl (keysOnly_of_orUnchanged h fun r hr => ?_)
    rcases ok_of_bind hr with ⟨key, _, hr⟩
    split at hr
    · cases hr
    split at hr
    · cases hr
    split at hr
    · cases hr
    · cases hr
      exact (keysOnly_setKey _ _ _).trans (keysOnly_setKey _ _ _)
  | encrypt ref plaintext encryptionContext algorithm iv
  | decrypt =>
    cases h
    exact .inl fun _ _ => ⟨rfl, rfl, rfl⟩
  | getParametersForImport ref algorithm spec token entropy =>
    rcases of_orUnchanged h with ⟨r, hr, rfl⟩ | rfl
    · exact .inr ⟨ref, algorithm, spec, token, entropy, r, rfl, rfl, hr⟩
    · exact .inl fun _ _ => ⟨rfl, rfl, rfl⟩
  | importKeyMaterial =>
    left
    dsimp only at h
    unfold importKeyMaterial at h
    split at h
    · cases h
      exact fun _ _ => ⟨rfl, rfl, rfl⟩
    · cases h
      exact keysOnly_setKey _ _ _
  | rotateKeyOnDemand =>
    refine .inl (keysOnly_of_orUnchanged h fun r hr => ?_)
    rcases ok_of_bind hr with ⟨⟨account', region', key⟩, _, hr⟩
    dsimp only at hr
    split at hr
    · cases hr
    rcases ok_of_bind hr with ⟨_, _, hr⟩
    rcases ok_of_bind hr with ⟨_, _, hr⟩
    rcases ok_of_bind hr with ⟨rotated, _, hr⟩
    cases hr
    exact keysOnly_setKey _ _ _

theorem grants_of_performs (h : Performs lib stores call stores') (account region : String) :
    (stores' account region).grants = (stores account region).grants ∧
      (stores' account region).grantTokens = (stores account region).grantTokens := by
  rcases keysOnly_of_performs h with hkeys | ⟨ref, algorithm, spec, token, entropy, r, -, -, hr⟩
  · exact ⟨(hkeys _ _).1, (hkeys _ _).2.1⟩
  · rcases ok_of_bind hr with ⟨key, _, hr⟩
    split at hr
    · cases hr
    rcases ok_of_bind hr with ⟨_, _, hr⟩
    rcases ok_of_bind hr with ⟨cryptoKey, _, hr⟩
    cases hr
    simp only [KmsStores.setStore]
    split
    · next hstore =>
      rw [hstore.1, hstore.2]
      exact ⟨rfl, rfl⟩
    · exact ⟨rfl, rfl⟩

/-- The ARN of a key says where it is. -/
theorem keyStep_arn (hstep : Performs lib stores call stores') (place : Place)
    (hold : ∀ key, stores.key? place = some key →
      key.metadata.arn = kmsKeyArn lib place.keyId place.account place.region) :
    ∀ key, stores'.key? place = some key →
      key.metadata.arn = kmsKeyArn lib place.keyId place.account place.region := by
  have h := keyStep_of_performs hstep place
  generalize stores'.key? place = new at h
  generalize hprior : stores.key? place = old at h hold
  rintro key rfl
  rcases call with ⟨context, request, result⟩
  cases h with
  | same _ _ _ => exact hold _ rfl
  | created request draws _ _ hplace hid hcreate =>
    rcases KmsKey.new_metadata hcreate with ⟨metadata, hmetadata, heq⟩
    rw [heq, (populateMetadata_ok hmetadata).2.2.2.2.2.2.2, ← KmsKey.new_keyId hcreate, hid]
  | scheduled ref window now days key => exact hold key rfl
  | cancelled ref key => exact hold key rfl
  | disabled ref key => exact hold key rfl
  | enabled ref key => exact hold key rfl
  | replica ref source key _ hplace _ _ hsource =>
    have hid := stores.keyId_of_key? hsource
    subst hplace
    rw [KmsKey.replicateMetadata, hid]
  | replicated ref replicaRegion replica key => exact hold key rfl
  | imported ref importToken encryptedKeyMaterial keyMaterial validTo expirationModel key _ _ _ =>
    exact (KmsKey.importKeyMaterial_names _ _ _ _).2.trans (hold _ rfl)
  | deleted ref key => exact hold key rfl
  | rotated ref entropy key _ _ _ _ _ hrotate =>
    rw [KmsKey.rotateKeyOnDemand_ok hrotate]
    exact hold key rfl

/-! ### Runs of requests -/

/-- No account has anything. -/
def KmsStores.initial : KmsStores := fun _ _ => .empty

theorem key?_initial (place : Place) : KmsStores.initial.key? place = none := rfl

/-- A request is performed. -/
def perform (lib : Library) (stores : KmsStores) (input : RequestContext × KeyRequest) :
    KmsStores × Call :=
  let out := input.2.handle lib stores input.1
  (out.2, ⟨input.1, input.2, out.1⟩)

theorem runs_perform (lib : Library) (inputs : List (RequestContext × KeyRequest))
    (stores : KmsStores) :
    Runs (Performs lib) stores (drive (perform lib) stores inputs).2
      (drive (perform lib) stores inputs).1 := by
  have hdriven : Driven (fun _ _ => True) (perform lib) stores inputs := by
    induction inputs generalizing stores with
    | nil => trivial
    | cons input inputs ih => exact ⟨trivial, ih _⟩
  exact Runs.of_driven (fun _ _ _ => rfl) _ _ hdriven

theorem along_perform (lib : Library) (C : KmsStores → Call → Prop)
    (inputs : List (RequestContext × KeyRequest)) (stores : KmsStores)
    (h : Driven (fun s input => C s (perform lib s input).2) (perform lib) stores inputs) :
    Along (Performs lib) C stores (drive (perform lib) stores inputs).2 :=
  Runs.along_of_driven (f := perform lib) (fun _ _ _ hstep => (congrArg Prod.snd hstep).symm) _ _ h

/-! ### Examples -/

def exampleLibrary : Library where
  sealGcm key _ _ message :=
    ((UInt8.ofNat key.length :: key) ++ message, List.replicate blockSize 0)
  unsealGcm key _ _ _ ciphertext :=
    if (UInt8.ofNat key.length :: key).isPrefixOf ciphertext then
      some (ciphertext.drop (key.length + 1))
    else none
  loadDerPrivateKey _ := none
  unwrap _ _ material := .ok material
  decryptRsa _ _ := .error .valueError
  uuid5 _ _ := "0000"
  partition _ := "aws"

def exampleUuid : Uuid :=
  ⟨List.replicate 32 '7', by decide, fun _ hc => List.eq_of_mem_replicate hc ▸ by simp⟩

def exampleEntropy (byte : UInt8) : Entropy := ⟨⟨List.replicate 32 byte, rfl⟩, [], [byte]⟩

def exampleIv : Random blockSize := ⟨List.replicate 16 5, rfl⟩

def exampleContext : RequestContext := ⟨"000000000000", "us-east-1"⟩

def examplePlace : Place := ⟨"000000000000", "us-east-1", exampleUuid.text⟩

def exampleCreation : RequestContext × KeyRequest :=
  (exampleContext, .createKey ⟨false, some .external, none, none, none, none, none⟩
    ⟨exampleUuid, exampleUuid, exampleEntropy 1⟩)

def exampleImport (byte : UInt8) : List (RequestContext × KeyRequest) :=
  [(exampleContext, .getParametersForImport (.id examplePlace.keyId) .rsaesOaepSha256 .rsa2048
      "token".toList (exampleEntropy 2)),
    (exampleContext, .importKeyMaterial (.id examplePlace.keyId) "token".toList
      (List.replicate 32 byte) none (some .keyMaterialDoesNotExpire))]

def exampleRequests : List (RequestContext × KeyRequest) :=
  exampleCreation :: exampleImport 3 ++
    (exampleContext, .encrypt (.id examplePlace.keyId) [1, 2, 3] none none exampleIv) ::
      exampleImport 4 ++
    [(exampleContext, .rotateKeyOnDemand (.id examplePlace.keyId) (exampleEntropy 6)),
      (exampleContext, .scheduleKeyDeletion (.id examplePlace.keyId) none 0),
      (exampleContext, .cancelKeyDeletion (.id examplePlace.keyId)),
      (exampleContext, .enableKey (.id examplePlace.keyId))]

def exampleRun : KmsStores × List Call :=
  drive (perform exampleLibrary) KmsStores.initial exampleRequests

end LocalEmu.Kms
