import LocalEmu.Theory.Kms.Ciphertexts

/-!
# Ciphertexts Stay Decryptable

A symmetric key in some place, and all the calls of a run that concern it. As long as
the key is enabled only with material of its own, what it has encrypted with stays
among its materials: a rotation keeps the current material, and an import replaces
the current material only where there was none yet.

The code does not keep to this by itself. `EnableKey` makes a key available that waits for
its material, and an import after a deletion leaves its material pending behind a
material that is not there.
-/

namespace LocalEmu.Kms

open List Option
open LocalEmu.Action

variable {lib : Library} {stores stores' : KmsStores} {place : Place}

/-- A symmetric key whose materials are AES keys, and that has material of its own when it is
    enabled. -/
structure KmsKey.Sound (key : KmsKey) : Prop where
  spec : key.metadata.keySpec = .symmetricDefault
  cryptoSpec : key.cryptoKey.keySpec = .symmetricDefault
  usage : key.metadata.keyUsage = .encryptDecrypt
  current : ∀ m, key.cryptoKey.keyMaterial = some m → IsAesKey m.bytes
  previous : ∀ m ∈ key.previousKeys, IsUsable m
  own : key.metadata.keyState = .enabled →
    key.cryptoKey.keyMaterial ≠ none ∧ key.metadata.currentKeyMaterialId ≠ none

/-- What calls that concern the key in a place must respect. A key is created symmetric, for
    encryption, with one of two origins, under an id that is not taken and that matches a
    pattern as a whole. Custom material and material that becomes the current one is an AES
    key. A key is enabled only while it has material of its own, and no material is imported
    after that of the key was deleted. -/
def Careful (lib : Library) (place : Place) (stores : KmsStores) (call : Call) : Prop :=
  match call.request with
  | .createKey request draws =>
    call.context = place.context ∧ newKeyId request draws.uuid = place.keyId →
      stores.key? place = none ∧ newKeySpec request = .symmetricDefault ∧
      request.keyUsage ∈ [none, some .encryptDecrypt] ∧
      request.origin ∈ [none, some .awsKms, some .external] ∧
      (∀ id ∈ request.customKeyId, id ≠ [] → IsKeyId id) ∧
      ∀ material ∈ request.customKeyMaterial, material ≠ [] → IsAesKey material
  | .enableKey ref => Names call.context ref place → ∀ key ∈ stores.key? place,
      key.cryptoKey.keyMaterial ≠ none ∧ key.metadata.currentKeyMaterialId ≠ none
  | .importKeyMaterial ref importToken encryptedKeyMaterial _ _ =>
    Names call.context ref place →
      ∀ out ∈ (unwrapForImport lib stores call.context ref importToken
        encryptedKeyMaterial).toOption,
        (out.1.metadata.currentKeyMaterialId = none → IsAesKey out.2) ∧
        (out.1.metadata.currentKeyMaterialId ≠ none → out.1.cryptoKey.keyMaterial ≠ none)
  | .rotateKeyOnDemand ref _ =>
    (parseKeyId call.context ref).toOption = some (place.account, place.region, place.keyId) →
      ∀ key ∈ stores.key? place,
        ∀ material ∈ given key.cryptoKey.pendingKeyMaterial, IsAesKey material.bytes
  | .replicateKey ref replicaRegion =>
    ¬(call.context.account = place.account ∧ replicaRegion = place.region ∧
      ref.keyId = place.keyId)
  | _ => True

instance (context : RequestContext) (ref : KeyRef) (place : Place) :
    Decidable (Names context ref place) :=
  inferInstanceAs (Decidable (_ ∧ _))

instance (lib : Library) (place : Place) (stores : KmsStores) (call : Call) :
    Decidable (Careful lib place stores call) := by
  apply KeyRequest.casesOn (motive := fun request =>
    Decidable (Careful lib place stores ⟨call.context, request, call.result⟩)) call.request <;>
  intros <;> dsimp only [Careful] <;> infer_instance

/-- The call deletes the material of the key in a place. -/
def Call.Deletes (call : Call) (place : Place) : Prop :=
  ∃ ref, call.request = .deleteImportedKeyMaterial ref ∧ Names call.context ref place ∧
    call.result = .ok .none

/-- The call returned a blob for a plaintext and a context, encrypted with the key in a place. -/
def Call.Encrypted (call : Call) (place : Place) (plaintext : Bytes) (context : EncryptionContext)
    (blob : Bytes) : Prop :=
  ∃ ref algorithm iv arn, call.request = .encrypt ref plaintext context algorithm iv ∧
    parseKeyId call.context ref = .ok (place.account, place.region, place.keyId) ∧
    call.result = .ok (.ciphertextBlob arn blob)

/-! ### Steps -/

theorem isUsable_given {material : Option Material} (random : Random materialLength)
    (h : ∀ m ∈ given material, IsAesKey m.bytes) :
    IsAesKey ((given material).getD ⟨random.val, false⟩).bytes := by
  cases hgiven : given material with
  | none => exact .inr (.inr random.property)
  | some m => exact h m hgiven

theorem sound_new {request : CreateKeyRequest} {account region : String} {draws : NewKey}
    {key : KmsKey} (h : KmsKey.new lib request account region draws = .ok key)
    (hspec : newKeySpec request = .symmetricDefault)
    (husage : request.keyUsage ∈ [none, some .encryptDecrypt])
    (horigin : request.origin ∈ [none, some .awsKms, some .external])
    (hmaterial : ∀ material ∈ request.customKeyMaterial, material ≠ [] → IsAesKey material) :
    key.Sound := by
  rcases KmsKey.new_ok h with ⟨metadata, cryptoKey, hmetadata, hcryptoKey, hset, hunset⟩
  rcases populateMetadata_ok hmetadata with ⟨-, hkeySpec, hkeyUsage, horigin', -, hstate, -, -⟩
  rw [hspec] at hkeySpec hkeyUsage
  rw [hkeySpec] at hcryptoKey
  cases hcryptoKey
  have husage' : metadata.keyUsage = .encryptDecrypt := by
    simp only [mem_cons, not_mem_nil, or_false] at husage
    rcases husage with husage | husage
    · rw [husage] at hkeyUsage
      exact (Except.ok.inj hkeyUsage).symm
    · rw [husage] at hkeyUsage
      exact (Except.ok.inj hkeyUsage).symm
  have hgiven : ∀ m ∈ given (request.customKeyMaterial.map fun bytes => ⟨bytes, false⟩),
      IsAesKey m.bytes := by
    intro m hm
    rcases filter_eq_some_iff.mp hm with ⟨hm, hne⟩
    rcases map_eq_some_iff.mp hm with ⟨bytes, hbytes, rfl⟩
    exact hmaterial _ hbytes (of_decide_eq_true hne)
  have haes := isUsable_given draws.entropy.material hgiven
  by_cases hid : (given (request.customKeyMaterial.map fun bytes => ⟨bytes, false⟩)).isSome = true ∨
      metadata.origin = .awsKms ∧ metadata.keySpec = .symmetricDefault
  · rw [hset hid]
    refine ⟨hkeySpec, rfl, husage', ?_, ?_, fun _ => ⟨nofun, nofun⟩⟩
    · intro m hm
      rw [← some.inj hm]
      exact haes
    · exact fun m hm => absurd hm not_mem_nil
  · rw [hunset hid]
    refine ⟨hkeySpec, rfl, husage', ?_, ?_, fun henabled => ?_⟩
    · intro m hm
      rw [← some.inj hm]
      exact haes
    · exact fun m hm => absurd hm not_mem_nil
    · -- A key without an id of its material waits for an import.
      exfalso
      simp only [mem_cons, not_mem_nil, or_false] at horigin
      rcases horigin with horigin | horigin | horigin
      · exact hid (.inr ⟨by rw [horigin', horigin]; rfl, hkeySpec⟩)
      · exact hid (.inr ⟨by rw [horigin', horigin]; rfl, hkeySpec⟩)
      · dsimp only at henabled
        rw [hstate, horigin] at henabled
        cases henabled

variable {key : KmsKey}

/-- The three things an import can do to a sound key: write the expiration model, or make the
    material the current one if there was none, or leave it pending. -/
theorem import_sound {keyMaterial : Bytes} (validTo : Option Nat)
    (expirationModel : Option ExpirationModelType) (hkey : key.Sound)
    (haes : key.metadata.currentKeyMaterialId = none → IsAesKey keyMaterial)
    (hown : key.metadata.currentKeyMaterialId ≠ none → key.cryptoKey.keyMaterial ≠ none) :
    (key.importKeyMaterial lib keyMaterial validTo expirationModel).2.Sound ∧
      (key.metadata.currentKeyMaterialId ≠ none →
        (key.importKeyMaterial lib keyMaterial validTo expirationModel).2.keysToTry =
          key.keysToTry ∧
        (key.importKeyMaterial lib keyMaterial validTo
          expirationModel).2.metadata.currentKeyMaterialId
          ≠ none) := by
  have hloads : key.cryptoKey.loadKeyMaterial lib keyMaterial =
      .ok { key.cryptoKey with pendingKeyMaterial := some ⟨keyMaterial, true⟩ } := by
    unfold KmsCryptoKey.loadKeyMaterial
    rw [if_pos hkey.cryptoSpec]
    rfl
  rcases key.importKeyMaterial_cases lib keyMaterial validTo expirationModel with
    ⟨e, _, h⟩ | ⟨e, _, _, hload, _⟩ | ⟨cryptoKey, keyMaterialId, _, hload, h⟩
  · rw [h]
    exact ⟨⟨hkey.spec, hkey.cryptoSpec, hkey.usage, hkey.current, hkey.previous, hkey.own⟩,
      fun hid => ⟨rfl, hid⟩⟩
  · rw [hloads] at hload
    cases hload
  · rw [hloads] at hload
    cases hload
    rw [h, if_pos hkey.spec]
    unfold KmsKey.promote
    by_cases hid : key.metadata.currentKeyMaterialId = none
    · refine ⟨?_, fun hsome => absurd hid hsome⟩
      have hnone : (key.importing expirationModel).metadata.currentKeyMaterialId = none := hid
      rw [if_pos hnone]
      refine ⟨hkey.spec, hkey.cryptoSpec, hkey.usage, ?_, hkey.previous, fun _ => ⟨nofun, nofun⟩⟩
      intro m hm
      rw [← some.inj hm]
      exact haes hid
    · have hsome : (key.importing expirationModel).metadata.currentKeyMaterialId ≠ none := hid
      rw [if_neg hsome]
      exact ⟨⟨hkey.spec, hkey.cryptoSpec, hkey.usage, hkey.current, hkey.previous,
        fun _ => ⟨hown hid, hid⟩⟩, fun _ => ⟨rfl, hid⟩⟩

theorem rotate_sound {key' : KmsKey} {entropy : Entropy} (hkey : key.Sound)
    (henabled : key.metadata.keyState = .enabled)
    (hpending : ∀ m ∈ given key.cryptoKey.pendingKeyMaterial, IsAesKey m.bytes)
    (h : key.rotateKeyOnDemand lib entropy = .ok key') :
    key'.Sound ∧ (∀ m ∈ key.keysToTry, m ∈ key'.keysToTry) ∧
      key'.metadata.currentKeyMaterialId ≠ none := by
  have haes := isUsable_given entropy.material hpending
  rw [KmsKey.rotateKeyOnDemand_ok h]
  refine ⟨⟨hkey.spec, rfl, hkey.usage, ?_, ?_, fun _ => ⟨nofun, nofun⟩⟩, ?_, nofun⟩
  · intro m hm
    rw [← some.inj hm]
    exact haes
  · intro m hm
    rcases mem_append.mp hm with hm | hm
    · exact hkey.previous m hm
    · rw [mem_singleton.mp hm]
      cases hcurrent : key.cryptoKey.keyMaterial with
      | none => exact absurd hcurrent (hkey.own henabled).1
      | some material => exact ⟨material, rfl, hkey.current _ hcurrent⟩
  · intro m hm
    refine mem_cons_of_mem _ (mem_append.mpr ?_)
    rcases mem_cons.mp hm with rfl | hm
    · exact .inr mem_cons_self
    · exact .inl hm

/-- The key in a place is sound, and under an id that is found. -/
def Settled (place : Place) (stores : KmsStores) : Prop :=
  ∀ key ∈ stores.key? place, IsKeyId place.keyId ∧ key.Sound

/-- A careful call leaves the key in the place as it should be. -/
theorem keyStep_sound {call : Call} (hstep : Performs lib stores call stores')
    (hcareful : Careful lib place stores call) (hold : Settled place stores) :
    Settled place stores' := by
  have h := keyStep_of_performs hstep place
  rcases call with ⟨context, request, result⟩
  generalize hnew : stores'.key? place = new at h
  generalize hprior : stores.key? place = old at h
  unfold Settled at hold ⊢
  rw [hprior] at hold
  rw [hnew]
  rintro key ⟨⟩
  cases h with
  | same _ _ _ => exact hold _ rfl
  | created request draws _ _ hplace hid hcreate =>
    have hkeyId : newKeyId request draws.uuid = place.keyId :=
      (KmsKey.new_keyId hcreate).symm.trans hid
    rcases hcareful ⟨hplace, hkeyId⟩ with ⟨-, hspec, husage, horigin, hids, hmaterial⟩
    refine ⟨?_, sound_new hcreate hspec husage horigin hmaterial⟩
    rw [← hkeyId]
    exact isKeyId_newKeyId _ _ fun id hid hne => hids id hid hne
  | scheduled ref window now days key _ | cancelled ref key _ | disabled ref key _ =>
    rcases hold _ rfl with ⟨hid, hkey⟩
    exact ⟨hid, hkey.spec, hkey.cryptoSpec, hkey.usage, hkey.current, hkey.previous, nofun⟩
  | enabled ref key hname =>
    rcases hold _ rfl with ⟨hid, hkey⟩
    exact ⟨hid, hkey.spec, hkey.cryptoSpec, hkey.usage, hkey.current, hkey.previous,
      fun _ => hcareful hname key hprior⟩
  | replica ref source key _ _ haccount href => exact absurd ⟨haccount, rfl, href⟩ hcareful
  | replicated ref replicaRegion replica key _ _ _ =>
    rcases hold _ rfl with ⟨hid, hkey⟩
    exact ⟨hid, hkey.spec, hkey.cryptoSpec, hkey.usage, hkey.current, hkey.previous, hkey.own⟩
  | imported ref importToken encryptedKeyMaterial keyMaterial validTo expirationModel key hname
      hstate hunwrap =>
      rcases hold _ rfl with ⟨hid, hkey⟩
      rcases hcareful hname (key, keyMaterial) (by rw [hunwrap]; rfl) with ⟨haes, hown⟩
      exact ⟨hid, (import_sound _ _ hkey haes hown).1⟩
  | deleted ref key _ =>
    rcases hold _ rfl with ⟨hid, hkey⟩
    exact ⟨hid, hkey.spec, hkey.cryptoSpec, hkey.usage, nofun, hkey.previous, nofun⟩
  | rotated ref entropy key _ hparse hspec hstate _ hrotate =>
    rcases hold _ rfl with ⟨hid, hkey⟩
    have hpending := hcareful (congrArg Except.toOption hparse) key hprior
    exact ⟨hid, (rotate_sound hkey hstate hpending hrotate).1⟩

/-- What the key in a place can decrypt, it can still decrypt after a careful call that does not
    delete its material. -/
theorem keyStep_holds {call : Call} {key : KmsKey} {material : Bytes}
    (hstep : Performs lib stores call stores') (hcareful : Careful lib place stores call)
    (hdeletes : ¬call.Deletes place) (hkey : stores.key? place = some key) (hsound : key.Sound)
    (hid : key.metadata.currentKeyMaterialId ≠ none) (hholds : key.Holds material) :
    ∃ key', stores'.key? place = some key' ∧ key'.metadata.currentKeyMaterialId ≠ none ∧
      key'.Holds material := by
  have h := keyStep_of_performs hstep place
  rcases call with ⟨context, request, result⟩
  generalize hnew : stores'.key? place = new at h
  generalize hprior : stores.key? place = old at h hkey
  cases h with
  | same => exact ⟨key, hkey, hid, hholds⟩
  | created request draws _ _ hplace hcreated hcreate =>
    have hfresh := (hcareful ⟨hplace, (KmsKey.new_keyId hcreate).symm.trans hcreated⟩).1
    rw [hfresh] at hprior
    rw [← hprior] at hkey
    cases hkey
  | scheduled ref window now days _ _ hstate | cancelled ref _ _ hstate | disabled ref _ _
  | enabled ref _ | replicated ref replicaRegion replica _ _ _ _ =>
    cases hkey
    exact ⟨_, rfl, hid, hholds⟩
  | replica => cases hkey
  | imported ref importToken encryptedKeyMaterial keyMaterial validTo expirationModel _ hname
      hstate hunwrap =>
      cases hkey
      rcases hcareful hname (key, keyMaterial) (by rw [hunwrap]; rfl) with ⟨haes, hown⟩
      rcases (import_sound _ _ hsound haes hown).2 hid with ⟨htry, hid'⟩
      refine ⟨_, rfl, hid', ?_⟩
      unfold KmsKey.Holds
      rw [htry]
      exact hholds
  | deleted ref _ hname => exact absurd ⟨ref, rfl, hname, rfl⟩ hdeletes
  | rotated ref entropy _ _ hparse hspec hstate _ hrotate =>
    cases hkey
    have hpending := hcareful (congrArg Except.toOption hparse) _ hprior
    rcases rotate_sound hsound hstate hpending hrotate with ⟨-, htry, hid'⟩
    rcases hholds with ⟨m, hm, hbytes⟩
    exact ⟨_, rfl, hid', m, htry m hm, hbytes⟩

/-! ### Encryption and decryption -/

variable {context : RequestContext}

theorem locateKey_enabled {ref : KeyRef} {key : KmsKey}
    (hparse : parseKeyId context ref = .ok (place.account, place.region, place.keyId))
    (hid : IsKeyId place.keyId) (hkey : stores.key? place = some key)
    (henabled : key.metadata.keyState = .enabled) :
    locateKey lib stores context ref .default = .ok (place.account, place.region, key) := by
  have hfound : getKmsKey lib (stores place.account place.region) place.account place.region
      (.id place.keyId) .default = .ok key := by
    have hlookUp : getKeyFromAnyId lib (stores place.account place.region) place.account
        place.region (.id place.keyId) = .ok key := by
      have hget : (stores place.account place.region).keys.get? place.keyId = some key := hkey
      rw [getKeyFromAnyId, lookUpKey, if_pos (patternMatch_of_isKeyId hid), hget]
      rfl
    rw [getKmsKey, bind_of_ok _ hlookUp, checkKeyState, henabled]
    rfl
  unfold locateKey
  rw [Action.bind_of_ok _ hparse]
  dsimp only
  rw [Action.bind_of_ok _ hfound]
  rfl

theorem validateKeyForEncryptionDecryption_ok (operation : String)
    (h : key.metadata.keyUsage = .encryptDecrypt) :
    validateKeyForEncryptionDecryption operation key = .ok () := by
  rw [validateKeyForEncryptionDecryption, if_neg (not_not.mpr h)]
  rfl

theorem validateKeyForEncryptionDecryption_usage {operation : String}
    (h : validateKeyForEncryptionDecryption operation key = .ok ()) :
    key.metadata.keyUsage = .encryptDecrypt := by
  unfold validateKeyForEncryptionDecryption at h
  split at h
  · cases h
  · next husage => exact not_not.mp husage

theorem validateKeyStateNotPendingImport_ok
    (h : key.metadata.keyState = .enabled) : validateKeyStateNotPendingImport key = .ok () := by
  rw [validateKeyStateNotPendingImport, if_neg (by rw [h]; decide)]
  rfl

theorem encrypt_enabled {ref : KeyRef} {key : KmsKey}
    (hparse : parseKeyId context ref = .ok (place.account, place.region, place.keyId))
    (hid : IsKeyId place.keyId) (hkey : stores.key? place = some key) (hsound : key.Sound)
    (henabled : key.metadata.keyState = .enabled) (plaintext : Bytes)
    (hlength : plaintext.length ≤ 4096) (encryptionContext : EncryptionContext)
    (algorithm : Option EncryptionAlgorithmSpec) (iv : Random blockSize) :
    ∃ blob, encryptWithKey lib stores context ref plaintext encryptionContext algorithm iv =
      .ok (.ciphertextBlob key.metadata.arn blob) := by
  cases hmaterial : key.cryptoKey.keyMaterial with
  | none => exact absurd hmaterial (hsound.own henabled).1
  | some material =>
    rcases KmsKey.encrypt_ok _ hmaterial (hsound.current material hmaterial) _
      _ iv with ⟨blob, hblob, -⟩
    refine ⟨blob, ?_⟩
    have hsize : validatePlaintextLength plaintext = .ok () := by
      rw [validatePlaintextLength, if_neg (by omega)]
      rfl
    have htype : validatePlaintextKeyTypeBased plaintext key algorithm = .ok () := by
      unfold validatePlaintextKeyTypeBased
      rw [hsound.spec]
      have hmax : maxSizeBytes .symmetricDefault algorithm = 4096 := rfl
      rw [if_neg (by omega)]
      rfl
    unfold encryptWithKey
    rw [Action.bind_of_ok _ (locateKey_enabled hparse hid hkey henabled)]
    dsimp only
    rw [Action.bind_of_ok _ hsize, bind_of_ok _ htype,
      bind_of_ok _ (validateKeyForEncryptionDecryption_ok _ hsound.usage),
      bind_of_ok _ (validateKeyStateNotPendingImport_ok henabled),
      bind_of_ok _ hblob]
    rfl

theorem encrypted_spec {call : Call} {plaintext blob : Bytes} {context : EncryptionContext}
    (hstep : Performs lib stores call stores')
    (h : call.Encrypted place plaintext context blob) :
    stores' = stores ∧ ∃ key material, stores.key? place = some key ∧
      key.metadata.keyState = .enabled ∧ key.metadata.keyUsage = .encryptDecrypt ∧
      key.cryptoKey.keyMaterial = some material ∧ IsAesKey material.bytes ∧
      Encrypts lib place.keyId material.bytes plaintext context blob := by
  rcases call with ⟨callContext, request, result⟩
  rcases h with ⟨ref, algorithm, iv, arn, rfl, hparse, rfl⟩
  rcases Prod.mk.inj hstep with ⟨hencrypt, rfl⟩
  refine ⟨rfl, ?_⟩
  rcases ok_of_bind hencrypt with ⟨⟨account, region, key⟩, hlocate, hencrypt⟩
  rcases locateKey_ok hlocate with ⟨hparse', hkey, hallowed⟩
  rw [hparse, Except.ok.injEq, Prod.mk.injEq, Prod.mk.injEq] at hparse'
  rcases hparse' with ⟨rfl, rfl, hid⟩
  rcases ok_of_bind hencrypt with ⟨_, _, hencrypt⟩
  rcases ok_of_bind hencrypt with ⟨_, _, hencrypt⟩
  rcases ok_of_bind hencrypt with ⟨_, husage, hencrypt⟩
  rcases ok_of_bind hencrypt with ⟨_, himport, hencrypt⟩
  rcases ok_of_bind hencrypt with ⟨blob', hblob, hencrypt⟩
  cases hencrypt
  rcases KmsKey.encrypt_spec hblob with ⟨material, hmaterial, haes, hspec⟩
  rw [← hid] at hkey hspec
  refine ⟨key, material, hkey, ?_, validateKeyForEncryptionDecryption_usage husage, hmaterial,
    haes, hspec⟩
  cases hstate : key.metadata.keyState with
  | enabled => rfl
  | disabled | pendingDeletion =>
    rw [hstate] at hallowed
    cases hallowed
  | pendingImport =>
    rw [validateKeyStateNotPendingImport, if_pos hstate] at himport
    cases himport

/-- Who decrypts without naming a key calls the store of the key; a named key is found. -/
def Finds (context : RequestContext) (ref : Option KeyRef) (place : Place) : Prop :=
  match ref with
  | none => context = place.context
  | some ref => parseKeyId context ref = .ok (place.account, place.region, place.keyId)

theorem KmsKey.Sound.usable (h : key.Sound)
    (henabled : key.metadata.keyState = .enabled) : ∀ m ∈ key.keysToTry, IsUsable m := by
  intro m hm
  rcases mem_cons.mp hm with rfl | hm
  · cases hcurrent : key.cryptoKey.keyMaterial with
    | none => exact absurd hcurrent (h.own henabled).1
    | some material => exact ⟨material, rfl, h.current _ hcurrent⟩
  · exact h.previous m hm

theorem decrypt_enabled (hlib : lib.Authentic) {ref : Option KeyRef}
    {key : KmsKey} {material plaintext blob : Bytes} {encryptionContext : EncryptionContext}
    (hfinds : Finds context ref place) (hid : IsKeyId place.keyId)
    (hkey : stores.key? place = some key) (henabled : key.metadata.keyState = .enabled)
    (husage : key.metadata.keyUsage = .encryptDecrypt)
    (husable : ∀ m ∈ key.keysToTry, IsUsable m) (haes : IsAesKey material)
    (hblob : Encrypts lib place.keyId material plaintext encryptionContext blob)
    (hholds : key.Holds material) :
    decryptBlob lib stores context blob encryptionContext ref =
      .ok (.plaintext key.metadata.arn plaintext) := by
  rcases KmsKey.decrypt_of_holds hlib hid haes hblob husable hholds with
    ⟨c, hdeserialize, hcid, hdecrypt⟩
  have hwith : decryptWithKey lib blob (some c) encryptionContext key =
      .ok (.plaintext key.metadata.arn plaintext) := by
    have hsame : ¬((some c).any fun c => decide (key.metadata.keyId ≠ c.keyId)) = true := by
      simp [hcid, stores.keyId_of_key? hkey]
    rw [decryptWithKey, if_neg hsame,
      bind_of_ok _ (validateKeyForEncryptionDecryption_ok _ husage),
      bind_of_ok _ (validateKeyStateNotPendingImport_ok henabled),
      bind_of_ok _ hdecrypt]
    rfl
  unfold decryptBlob
  rw [hdeserialize]
  cases ref with
  | none =>
    have hparse : parseKeyId context (.id c.keyId) =
        .ok (place.account, place.region, place.keyId) := by
      rw [hcid, show context = place.context from hfinds]
      rfl
    dsimp only
    rw [Action.bind_of_ok _ (locateKey_enabled hparse hid hkey henabled)]
    exact hwith
  | some =>
    dsimp only
    rw [Action.bind_of_ok _ (locateKey_enabled hfinds hid hkey henabled)]
    exact hwith

/-! ### Runs -/

theorem settled_initial (place : Place) : Settled place KmsStores.initial := by
  intro key hkey
  cases hkey

/-- In a run of careful calls, the key in a place encrypts whenever it is enabled. It decrypts
    then whatever it has encrypted since its material was last deleted. -/
theorem ciphertexts_decryptable (lib : Library) (hlib : lib.Authentic) (place : Place)
    (calls : List Call) (stores : KmsStores)
    (hrun : Runs (Performs lib) KmsStores.initial calls stores)
    (hcareful : Along (Performs lib) (Careful lib place) KmsStores.initial calls) (key : KmsKey)
    (hkey : stores.key? place = some key) (henabled : key.metadata.keyState = .enabled) :
    (∀ context ref plaintext encryptionContext algorithm iv,
      parseKeyId context ref = .ok (place.account, place.region, place.keyId) →
      plaintext.length ≤ 4096 →
      ∃ blob, (KeyRequest.encrypt ref plaintext encryptionContext algorithm iv).handle lib stores
        context = (.ok (.ciphertextBlob key.metadata.arn blob), stores)) ∧
    (∀ before call after plaintext encryptionContext blob, calls = before ++ call :: after →
      call.Encrypted place plaintext encryptionContext blob → (∀ c ∈ after, ¬c.Deletes place) →
      ∀ context ref, Finds context ref place →
        (KeyRequest.decrypt blob encryptionContext ref).handle lib stores context =
          (.ok (.plaintext key.metadata.arn plaintext), stores)) := by
  have hsteps : ∀ s call t, Careful lib place s call → Settled place s →
      Performs lib s call t → Settled place t :=
    fun s call t hcall hs hstep => keyStep_sound hstep hcall hs
  have hstart := settled_initial place
  rcases Runs.invariant_along (P := Settled place) hsteps hrun hcareful hstart _ hkey with
    ⟨hid, hsound⟩
  constructor
  · intro context ref plaintext encryptionContext algorithm iv hparse hlength
    rcases encrypt_enabled hparse hid hkey hsound henabled _ hlength _ _ iv with ⟨blob, hblob⟩
    exact ⟨blob, by rw [KeyRequest.handle, hblob]⟩
  · intro before call after plaintext encryptionContext blob hcalls hencrypted hdeletes context ref
      hfinds
    subst hcalls
    rcases Runs.split _ _ hrun with ⟨s, hbefore, hrest⟩
    have hs := Runs.invariant_along (P := Settled place) hsteps hbefore
      (Runs.along_left hcareful) hstart
    have hcareful' := Runs.along_append hcareful hbefore
    cases hrest with
    | cons _ t _ _ _ hcall hafter =>
      rcases encrypted_spec hcall hencrypted with
        ⟨rfl, first, material, hfirst, hstate, -, hmaterial, haes, hblob⟩
      -- From here on the material stays among those of the key.
      have hkept : Settled place stores ∧
          ∃ key, stores.key? place = some key ∧ key.metadata.currentKeyMaterialId ≠ none ∧
            key.Holds material.bytes := by
        refine Runs.invariant_along (P := fun s => Settled place s ∧
            ∃ key, s.key? place = some key ∧ key.metadata.currentKeyMaterialId ≠ none ∧
              key.Holds material.bytes)
          (C := fun s call => Careful lib place s call ∧ ¬call.Deletes place) ?_ hafter ?_ ?_
        · rintro u c v ⟨hc, hnot⟩ ⟨hu, last, hlast, hcurrent, hholds⟩ hstep
          refine ⟨hsteps u c v hc hu hstep, ?_⟩
          exact keyStep_holds hstep hc hnot hlast (hu _ hlast).2 hcurrent hholds
        · intro b c a u hafter' hb
          refine ⟨Runs.along_tail hcareful' hcall b c a u hafter' hb, hdeletes c ?_⟩
          rw [hafter']
          exact mem_append.mpr (.inr mem_cons_self)
        · refine ⟨hs, first, hfirst, ((hs _ hfirst).2.own hstate).2, _, mem_cons_self, ?_⟩
          rw [hmaterial]
          rfl
      rcases hkept with ⟨-, last, hlast, -, hholds⟩
      rw [hkey] at hlast
      cases hlast
      rw [KeyRequest.handle, decrypt_enabled hlib hfinds hid hkey henabled hsound.usage
        (hsound.usable henabled) haes hblob hholds]

/-! ### Examples -/

def exampleBlob : Bytes :=
  serializeCiphertextBlob ⟨examplePlace.keyId, exampleIv.val,
    (32 :: List.replicate 32 3) ++ pad [1, 2, 3], List.replicate 16 0⟩

theorem ciphertexts_decryptable_of_exampleRequests :
    (exampleRun.2[3]?).map Call.result = some (.ok (.ciphertextBlob
      (kmsKeyArn exampleLibrary examplePlace.keyId "000000000000" "us-east-1") exampleBlob)) ∧
    (KeyRequest.decrypt exampleBlob none none).handle exampleLibrary exampleRun.1 exampleContext =
      (.ok (.plaintext (kmsKeyArn exampleLibrary examplePlace.keyId "000000000000" "us-east-1")
        [1, 2, 3]), exampleRun.1) := by
  have hencrypted : (exampleRun.2[3]?).map Call.result = some (.ok (.ciphertextBlob
      (kmsKeyArn exampleLibrary examplePlace.keyId "000000000000" "us-east-1") exampleBlob)) := by
    decide +kernel
  refine ⟨hencrypted, ?_⟩
  rcases map_eq_some_iff.mp hencrypted with ⟨call, hcall, hresult⟩
  rcases List.getElem?_eq_some_iff.mp hcall with ⟨hlt, hget⟩
  have hcalls : exampleRun.2 = exampleRun.2.take 3 ++ call :: exampleRun.2.drop 4 := by
    rw [← hget, ← drop_eq_getElem_cons hlt, take_append_drop]
  have hrequest : call.request =
      .encrypt (.id examplePlace.keyId) [1, 2, 3] none none exampleIv := by
    rw [← hget]
    rfl
  have hcontext : call.context = exampleContext := by
    rw [← hget]
    rfl
  have hkeeps : ((exampleRun.2.drop 4).all fun c =>
      match c.request with
      | .deleteImportedKeyMaterial _ => false
      | _ => true) = true := by rfl
  rcases isSome_iff_exists.mp (show (exampleRun.1.key? examplePlace).isSome = true by
    decide +kernel) with ⟨key, hkey⟩
  have hstate : (exampleRun.1.key? examplePlace).map (fun key => key.metadata.keyState) =
      some .enabled := by decide +kernel
  have harn : (exampleRun.1.key? examplePlace).map (fun key => key.metadata.arn) =
      some (kmsKeyArn exampleLibrary examplePlace.keyId "000000000000" "us-east-1") := by
    decide +kernel
  rw [hkey] at hstate harn
  rw [← some.inj harn]
  refine (ciphertexts_decryptable _ authentic_exampleLibrary _ exampleRun.2
    exampleRun.1 (runs_perform _ _ _) (along_perform _ _ _ _ (by decide +kernel)) _ hkey
    (some.inj hstate)).2 _ call _ [1, 2, 3] none exampleBlob hcalls ?_ ?_ exampleContext none
    rfl
  · exact ⟨_, _, _, _, hrequest, by rw [hcontext]; rfl, hresult⟩
  · rintro c hc ⟨ref, href, -, -⟩
    have hkeep := all_eq_true.mp hkeeps c hc
    rw [href] at hkeep
    cases hkeep

def exampleReimport : List (RequestContext × KeyRequest) :=
  exampleCreation :: exampleImport 3 ++
    (exampleContext, .deleteImportedKeyMaterial (.id examplePlace.keyId)) :: exampleImport 3

/-- After that the key is enabled, and does not encrypt. -/
theorem encrypt_fails_of_exampleReimport :
    let run := drive (perform exampleLibrary) KmsStores.initial exampleReimport
    Runs (Performs exampleLibrary) KmsStores.initial run.2 run.1 ∧
      (run.1.key? examplePlace).map (fun key => key.metadata.keyState) = some .enabled ∧
      ((KeyRequest.encrypt (.id examplePlace.keyId) [1] none none exampleIv).handle exampleLibrary
        run.1 exampleContext).1 = .error .typeError :=
  ⟨runs_perform _ _ _, by decide +kernel, by decide +kernel⟩

end LocalEmu.Kms
