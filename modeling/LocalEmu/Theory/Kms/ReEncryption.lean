import LocalEmu.Theory.Kms.Decryptability
import LocalEmu.Theory.Kms.EncryptionContexts

/-!
# ReEncrypt

A request that decrypts with one key and encrypts with another. Both keys are looked up where
they are named, but then the decryption and the encryption get their bare ids, and look them up
in the account of the caller. That is the same for the keys of the caller. A key of another
account is not found there.

A blob begins with the id of its key, in as many bytes as an id has. The patterns of ids let a
newline follow, and such an id does not fit.
-/

namespace LocalEmu.Kms

open LocalEmu.Action

open List

variable {lib : Library} {stores : KmsStores} {context : RequestContext}

/-! ### Ids with a newline -/

def EndsInNewline (keyId : Text) : Prop := keyId.getLast? = some '\n'

def Resolves (keyId : Text) : Prop :=
  (patternMatch patternUuid keyId || patternMatch multiRegionPattern keyId) = true

variable {ref : KeyRef} {allowed : Allowed} {keyId : Text}

theorem not_mem_newline (h : IsKeyId keyId) : '\n' ∉ keyId := by
  have hof (ps : List (Char → Bool)) (hps : (ps.all fun p => !p '\n') = true)
      (hmatch : fullMatch ps keyId = true) : '\n' ∉ keyId := by
    intro hmem
    rcases (fullMatch_spec ps _ hmatch).2 _ hmem with ⟨p, hp, hpc⟩
    have hnot := all_eq_true.mp hps p hp
    rw [hpc] at hnot
    cases hnot
  rcases h with h | h
  · exact hof _ (by decide +kernel) h
  · exact hof _ (by decide +kernel) h

theorem Resolves.cases (h : Resolves keyId) :
    IsKeyId keyId ∨ ∃ id, IsKeyId id ∧ keyId = id ++ ['\n'] := by
  have hof (ps : List (Char → Bool)) (hmatch : patternMatch ps keyId = true) :
      fullMatch ps keyId = true ∨
        ∃ id, fullMatch ps id = true ∧ keyId = id ++ ['\n'] := by
    rw [patternMatch, Bool.or_eq_true, Bool.and_eq_true, decide_eq_true_iff] at hmatch
    rcases hmatch with hfull | ⟨hlast, hfull⟩
    · exact .inl hfull
    · exact .inr ⟨_, hfull, (dropLast_append_getLast? _ hlast).symm⟩
  rcases Bool.or_eq_true_iff.mp h with h | h
  · rcases hof _ h with hfull | ⟨id, hfull, rfl⟩
    · exact .inl (.inl hfull)
    · exact .inr ⟨id, .inl hfull, rfl⟩
  · rcases hof _ h with hfull | ⟨id, hfull, rfl⟩
    · exact .inl (.inr hfull)
    · exact .inr ⟨id, .inr hfull, rfl⟩

theorem Resolves.isKeyId_iff (h : Resolves keyId) : IsKeyId keyId ↔ ¬EndsInNewline keyId := by
  constructor
  · intro hid hlast
    exact not_mem_newline hid (mem_of_getLast? hlast)
  · intro hlast
    rcases h.cases with hid | ⟨id, _, rfl⟩
    · exact hid
    · exact absurd (getLast?_concat) hlast

theorem serialize_newline {id : Text} (hid : IsKeyId id) (iv ciphertext tag : Bytes) :
    serializeCiphertextBlob ⟨id ++ ['\n'], iv, ciphertext, tag⟩ =
      serializeCiphertextBlob ⟨id, iv, ciphertext, tag⟩ := by
  have hlength := length_utf8_of_isKeyId hid
  have hpack : pack keyIdLen (id ++ ['\n']).utf8 = pack keyIdLen id.utf8 := by
    have happend : (id ++ ['\n']).utf8 = id.utf8 ++ [10] := by
      rw [Text.utf8, flatMap_append]
      rfl
    rw [pack_of_length hlength, pack, happend, take_left' hlength, length_append, hlength]
    exact append_nil _
  simp only [serializeCiphertextBlob, hpack]

/-- When the header of a ciphertext is read back. -/
theorem deserialize_serialize_iff {c : Ciphertext} (hid : Resolves c.keyId)
    (hiv : c.iv.length = blockSize) (htag : c.tag.length = blockSize) :
    deserializeCiphertextBlob (serializeCiphertextBlob c) = some c ↔ ¬EndsInNewline c.keyId := by
  rw [← hid.isKeyId_iff]
  constructor
  · intro h
    rcases hid.cases with hkey | ⟨id, hkey, hnewline⟩
    · exact hkey
    · rcases c with ⟨keyId, iv, ciphertext, tag⟩
      subst hnewline
      rw [serialize_newline hkey,
        deserialize_serialize ⟨id, iv, ciphertext, tag⟩ (length_utf8_of_isKeyId hkey) hiv htag] at h
      have hsame : id = id ++ ['\n'] := congrArg Ciphertext.keyId (Option.some.inj h)
      exact absurd (append_right_eq_self.mp hsame.symm) (cons_ne_nil _ _)
  · intro hkey
    exact deserialize_serialize c (length_utf8_of_isKeyId hkey) hiv htag

/-! ### Lookups -/

/-- A key is named by its id, or by an ARN of the caller's account. -/
def Own (context : RequestContext) : KeyRef → Prop
  | .id _ => True
  | .arn arn => arn.account = context.account

/-- The caller has no key of that id. -/
def Lacks (stores : KmsStores) (context : RequestContext) (ref : KeyRef) : Prop :=
  (stores context.account context.region).keys.get? ref.keyId = none

variable {encryptionContext : EncryptionContext} {response : Response} {key : KmsKey}

theorem getKmsKey_resolves {store : KmsStore} {account region : String} {keyId : Text}
    {allowed : Allowed}
    (h : getKmsKey lib store account region (.id keyId) allowed = .ok key) : Resolves keyId := by
  rcases ok_of_bind h with ⟨found, hfound, _⟩
  rw [getKeyFromAnyId, lookUpKey] at hfound
  split_ifs at hfound with hmatch
  exact hmatch

theorem locateKey_resolves {account region : String}
    (h : locateKey lib stores context ref allowed = .ok (account, region, key)) :
    key.metadata.keyId = ref.keyId ∧ Resolves ref.keyId := by
  rcases ok_of_bind h with ⟨⟨account', region', keyId⟩, hparse, h⟩
  rcases ok_of_bind h with ⟨key', hkey, h⟩
  cases h
  have hid : ref.keyId = keyId := by
    cases ref with
    | id =>
      cases hparse
      rfl
    | arn =>
      rw [parseKeyId] at hparse
      split_ifs at hparse
      cases hparse
      rfl
  rw [hid]
  exact ⟨(stores account region).named _ _ (getKmsKey_ok hkey).1, getKmsKey_resolves hkey⟩

theorem locateKey_id {found : String × String × KmsKey} (hown : Own context ref)
    (h : locateKey lib stores context ref allowed = .ok found) :
    locateKey lib stores context (.id ref.keyId) allowed = .ok found := by
  cases ref with
  | id => exact h
  | arn arn =>
    have haccount : arn.account = context.account := hown
    by_cases hregion : arn.region = context.region
    · rw [locateKey, parseKeyId, if_pos hregion, haccount, hregion] at h
      exact h
    · rw [locateKey, parseKeyId, if_neg hregion] at h
      cases h

theorem not_lacks {found : String × String × KmsKey}
    (h : locateKey lib stores context (.id ref.keyId) allowed = .ok found) :
    ¬Lacks stores context ref := by
  rcases found with ⟨account, region, key⟩
  rcases locateKey_ok h with ⟨hparse, hkey, -⟩
  rcases Prod.mk.inj (Except.ok.inj hparse) with ⟨rfl, hrest⟩
  rcases Prod.mk.inj hrest with ⟨rfl, hid⟩
  rw [← hid] at hkey
  intro hlacks
  have hsome : (stores context.account context.region).keys.get? ref.keyId = some key := hkey
  rw [hlacks] at hsome
  cases hsome

/-! ### The calls -/

/-- `decrypt` looks a key up, and decrypts with it. -/
theorem decryptBlob_ok_iff {blob : Bytes} {source : Option KeyRef} :
    decryptBlob lib stores context blob encryptionContext source = .ok response ↔
      ∃ ref account region key, sourceRef blob source = .ok ref ∧
        locateKey lib stores context ref .default = .ok (account, region, key) ∧
        decryptWithKey lib blob (deserializeCiphertextBlob blob) encryptionContext key =
          .ok response := by
  have hlocated (ref : KeyRef) (ciphertext : Option Ciphertext) :
      (locateKey lib stores context ref .default >>= fun located =>
        decryptWithKey lib blob ciphertext encryptionContext located.2.2) = .ok response ↔
      ∃ account region key, locateKey lib stores context ref .default =
          .ok (account, region, key) ∧
        decryptWithKey lib blob ciphertext encryptionContext key = .ok response := by
    constructor
    · intro h
      rcases ok_of_bind h with ⟨⟨account, region, key⟩, hkey, h⟩
      exact ⟨account, region, key, hkey, h⟩
    · rintro ⟨account, region, key, hkey, h⟩
      rw [Action.bind_of_ok _ hkey]
      exact h
  unfold decryptBlob
  cases source with
  | some ref =>
    refine (hlocated _ _).trans ⟨fun h => ⟨ref, ?_⟩, ?_⟩
    · rcases h with ⟨account, region, key, h⟩
      exact ⟨account, region, key, rfl, h⟩
    · rintro ⟨ref', account, region, key, href, h⟩
      cases href
      exact ⟨account, region, key, h⟩
  | none =>
    cases hblob : deserializeCiphertextBlob blob with
    | none =>
      constructor
      · intro h
        cases h
      · rintro ⟨ref, account, region, key, href, -⟩
        rw [sourceRef, hblob] at href
        cases href
    | some ciphertext =>
      refine (hlocated _ _).trans ⟨fun h => ⟨.id ciphertext.keyId, ?_⟩, ?_⟩
      · rcases h with ⟨account, region, key, h⟩
        exact ⟨account, region, key, by rw [sourceRef, hblob]; rfl, h⟩
      · rintro ⟨ref', account, region, key, href, h⟩
        rw [sourceRef, hblob] at href
        cases href
        exact ⟨account, region, key, h⟩

/-- `encrypt`, from the lookup of the key on. -/
def encryptBy (lib : Library) (key : KmsKey) (plaintext : Bytes)
    (encryptionContext : EncryptionContext) (algorithm : Option EncryptionAlgorithmSpec)
    (iv : Random blockSize) : Except KmsError Response := do
  validatePlaintextLength plaintext
  validatePlaintextKeyTypeBased plaintext key algorithm
  validateKeyForEncryptionDecryption "Encrypt" key
  validateKeyStateNotPendingImport key
  let blob ← key.encrypt lib plaintext encryptionContext iv
  return .ciphertextBlob key.metadata.arn blob

variable {iv : Random blockSize}

theorem encryptWithKey_ok_iff {plaintext : Bytes} {algorithm : Option EncryptionAlgorithmSpec}
    :
    encryptWithKey lib stores context ref plaintext encryptionContext algorithm iv =
        .ok response ↔
      ∃ account region key,
        locateKey lib stores context ref .default = .ok (account, region, key) ∧
        encryptBy lib key plaintext encryptionContext algorithm iv = .ok response := by
  constructor
  · intro h
    rcases ok_of_bind h with ⟨⟨account, region, key⟩, hkey, h⟩
    exact ⟨account, region, key, hkey, h⟩
  · rintro ⟨account, region, key, hkey, h⟩
    rw [encryptWithKey, bind_of_ok _ hkey]
    exact h

theorem encryptBy_ok {plaintext : Bytes} {algorithm : Option EncryptionAlgorithmSpec}
    (h : encryptBy lib key plaintext encryptionContext algorithm iv = .ok response) :
    ∃ blob, response = .ciphertextBlob key.metadata.arn blob ∧
      key.encrypt lib plaintext encryptionContext iv = .ok blob ∧
      key.metadata.keyUsage = .encryptDecrypt ∧
      validateKeyStateNotPendingImport key = .ok () := by
  rcases ok_of_bind h with ⟨_, _, h⟩
  rcases ok_of_bind h with ⟨_, _, h⟩
  rcases ok_of_bind h with ⟨_, husage, h⟩
  rcases ok_of_bind h with ⟨_, himport, h⟩
  rcases ok_of_bind h with ⟨blob, hblob, h⟩
  cases h
  exact ⟨blob, rfl, hblob, validateKeyForEncryptionDecryption_usage husage, himport⟩

/-- `re_encrypt` looks both keys up, and its inner calls look their ids up. -/
theorem reEncrypt_ok_iff {blob : Bytes} {c₁ c₂ : EncryptionContext} {source : Option KeyRef}
    {destination : KeyRef} {response : ReEncryptResponse} :
    reEncrypt lib stores context blob c₁ source destination c₂ iv = .ok response ↔
      ∃ ref a r key arn plaintext a' r' key' arn' blob',
        sourceRef blob source = .ok ref ∧
        locateKey lib stores context ref .default = .ok (a, r, key) ∧
        decryptBlob lib stores context blob c₁ (some (.id ref.keyId)) =
          .ok (.plaintext arn plaintext) ∧
        locateKey lib stores context destination .default = .ok (a', r', key') ∧
        encryptWithKey lib stores context (.id destination.keyId) plaintext c₂ none iv =
          .ok (.ciphertextBlob arn' blob') ∧
        response = ⟨blob', key.metadata.arn, key'.metadata.arn⟩ := by
  constructor
  · intro h
    rcases ok_of_bind h with ⟨ref, href, h⟩
    rcases ok_of_bind h with ⟨⟨a, r, key⟩, hkey, h⟩
    rcases ok_of_bind h with ⟨decrypted, hdecrypt, h⟩
    rcases ok_of_bind h with ⟨plaintext, hplaintext, h⟩
    rcases ok_of_bind h with ⟨⟨a', r', key'⟩, hkey', h⟩
    rcases ok_of_bind h with ⟨encrypted, hencrypt, h⟩
    rcases ok_of_bind h with ⟨blob', hblob', h⟩
    cases h
    cases decrypted <;> cases hplaintext
    cases encrypted <;> cases hblob'
    exact ⟨ref, a, r, key, _, plaintext, a', r', key', _, blob', href, hkey, hdecrypt, hkey',
      hencrypt, rfl⟩
  · rintro ⟨ref, a, r, key, arn, plaintext, a', r', key', arn', blob', href, hkey, hdecrypt,
      hkey', hencrypt, rfl⟩
    rw [reEncrypt, bind_of_ok _ href, bind_of_ok _ hkey]
    dsimp only
    have hplaintext : (Response.plaintext arn plaintext).getPlaintext = .ok plaintext := rfl
    rw [Action.bind_of_ok _ hdecrypt, bind_of_ok _ hplaintext, bind_of_ok _ hkey']
    rw [Action.bind_of_ok _ hencrypt]
    rfl

/-! ### Composition -/

section Composition

variable (lib stores context) (blob : Bytes) (c₁ : EncryptionContext) (source : Option KeyRef)
  (destination : KeyRef) (c₂ : EncryptionContext) (iv : Random blockSize)

/-- `decrypt` succeeds, and so does `encrypt` with what it returns. -/
def BothSucceed : Prop :=
  ∃ arn plaintext response,
    decryptBlob lib stores context blob c₁ source = .ok (.plaintext arn plaintext) ∧
    encryptWithKey lib stores context destination plaintext c₂ none iv = .ok response

/-- `re_encrypt` succeeds if `decrypt` and `encrypt` do, and what it returns is the encryption of
    the plaintext. -/
structure Composes : Prop where
  succeeds_iff :
    (∃ response, reEncrypt lib stores context blob c₁ source destination c₂ iv = .ok response) ↔
      BothSucceed lib stores context blob c₁ source destination c₂ iv
  decrypts : ∀ response arn plaintext,
    reEncrypt lib stores context blob c₁ source destination c₂ iv = .ok response →
    decryptBlob lib stores context blob c₁ source = .ok (.plaintext arn plaintext) →
    ∃ arn', decryptBlob lib stores context response.ciphertextBlob c₂ (some destination) =
      .ok (.plaintext arn' plaintext)

/-- The source key is not named, or it is one of the caller's. -/
def OwnSource (context : RequestContext) (source : Option KeyRef) : Prop :=
  ∀ ref, source = some ref → Own context ref

end Composition

variable {blob : Bytes} {c₁ c₂ : EncryptionContext} {source : Option KeyRef}
  {destination : KeyRef} {iv : Random blockSize}

theorem OwnSource.own {ref : KeyRef} (h : OwnSource context source)
    (href : sourceRef blob source = .ok ref) : Own context ref := by
  cases source with
  | some =>
    cases href
    exact h _ rfl
  | none =>
    cases hblob : deserializeCiphertextBlob blob with
    | none =>
      rw [sourceRef, hblob] at href
      cases href
    | some =>
      rw [sourceRef, hblob] at href
      cases href
      trivial

theorem reEncrypt_own (hsource : OwnSource context source) (hdestination : Own context destination)
    (blob' : Bytes) :
    (∃ arn plaintext arn',
      decryptBlob lib stores context blob c₁ source = .ok (.plaintext arn plaintext) ∧
      encryptWithKey lib stores context destination plaintext c₂ none iv =
        .ok (.ciphertextBlob arn' blob')) ↔
      ∃ arn arn', reEncrypt lib stores context blob c₁ source destination c₂ iv =
        .ok ⟨blob', arn, arn'⟩ := by
  constructor
  · rintro ⟨arn, plaintext, arn', hdecrypt, hencrypt⟩
    rcases decryptBlob_ok_iff.mp hdecrypt with ⟨ref, a, r, key, href, hkey, hwith⟩
    rcases encryptWithKey_ok_iff.mp hencrypt with ⟨a', r', key', hkey', hby⟩
    refine ⟨_, _, reEncrypt_ok_iff.mpr ⟨ref, a, r, key, arn, plaintext, a', r', key', arn', _, href,
      hkey, ?_, hkey', ?_, rfl⟩⟩
    · exact decryptBlob_ok_iff.mpr
        ⟨_, a, r, key, rfl, locateKey_id (hsource.own href) hkey, hwith⟩
    · exact encryptWithKey_ok_iff.mpr ⟨a', r', key', locateKey_id hdestination hkey', hby⟩
  · rintro ⟨arn, arn', h⟩
    rcases reEncrypt_ok_iff.mp h with ⟨ref, a, r, key, arn₁, plaintext, a', r', key', arn₂, made,
      href, hkey, hdecrypt, hkey', hencrypt, hresponse⟩
    obtain rfl : blob' = made := congrArg ReEncryptResponse.ciphertextBlob hresponse
    rcases decryptBlob_ok_iff.mp hdecrypt with ⟨_, _, _, found, hid, hfound, hwith⟩
    rcases encryptWithKey_ok_iff.mp hencrypt with ⟨_, _, found', hfound', hby⟩
    cases hid
    rw [locateKey_id (hsource.own href) hkey] at hfound
    rw [locateKey_id hdestination hkey'] at hfound'
    cases hfound
    cases hfound'
    exact ⟨arn₁, plaintext, arn₂, decryptBlob_ok_iff.mpr ⟨ref, a, r, key, href, hkey, hwith⟩,
      encryptWithKey_ok_iff.mpr ⟨a', r', key', hkey', hby⟩⟩

theorem reEncrypt_ok_iff_own (hsource : OwnSource context source)
    (hdestination : Own context destination) :
    (∃ response, reEncrypt lib stores context blob c₁ source destination c₂ iv = .ok response) ↔
      BothSucceed lib stores context blob c₁ source destination c₂ iv := by
  constructor
  · rintro ⟨⟨blob', arn, arn'⟩, h⟩
    rcases (reEncrypt_own hsource hdestination _).mpr ⟨arn, arn', h⟩ with
      ⟨_, plaintext, _, hdecrypt, hencrypt⟩
    exact ⟨_, plaintext, _, hdecrypt, hencrypt⟩
  · rintro ⟨arn, plaintext, response, hdecrypt, hencrypt⟩
    rcases encryptWithKey_ok_iff.mp hencrypt with ⟨_, _, key, _, hby⟩
    rcases encryptBy_ok hby with ⟨blob', rfl, -⟩
    rcases (reEncrypt_own hsource hdestination _).mp
      ⟨arn, plaintext, _, hdecrypt, hencrypt⟩ with ⟨_, _, h⟩
    exact ⟨_, h⟩

theorem own_of_reEncrypt {response : ReEncryptResponse}
    (hsource : ∀ ref, source = some ref → Own context ref ∨ Lacks stores context ref)
    (hdestination : Own context destination ∨ Lacks stores context destination)
    (h : reEncrypt lib stores context blob c₁ source destination c₂ iv = .ok response) :
    OwnSource context source ∧ Own context destination := by
  rcases reEncrypt_ok_iff.mp h with ⟨ref, _, _, _, _, _, _, _, _, _, _, href, _, hdecrypt, _,
    hencrypt, _⟩
  rcases decryptBlob_ok_iff.mp hdecrypt with ⟨_, _, _, _, hid, hfound, _⟩
  rcases encryptWithKey_ok_iff.mp hencrypt with ⟨_, _, _, hfound', _⟩
  cases hid
  constructor
  · rintro named rfl
    cases href
    exact (hsource _ rfl).resolve_right (not_lacks hfound)
  · exact hdestination.resolve_right (not_lacks hfound')

theorem decrypt_encrypted (hlib : lib.Authentic) {plaintext blob' : Bytes} {arn : KeyArn}
    (h : encryptWithKey lib stores context destination plaintext c₂ none iv =
      .ok (.ciphertextBlob arn blob')) :
    (¬EndsInNewline destination.keyId → ∃ arn',
      decryptBlob lib stores context blob' c₂ (some destination) =
        .ok (.plaintext arn' plaintext)) ∧
    (EndsInNewline destination.keyId → ∀ response,
      decryptBlob lib stores context blob' c₂ (some destination) ≠ .ok response) := by
  rcases encryptWithKey_ok_iff.mp h with ⟨a, r, key, hkey, hby⟩
  rcases encryptBy_ok hby with ⟨_, hresponse, hblob, husage, himport⟩
  cases hresponse
  rcases locateKey_resolves hkey with ⟨hid, hresolves⟩
  rcases KmsKey.encrypt_spec hblob with ⟨material, hmaterial, haes, iv, hspec⟩
  have htag := hlib.tag _ iv.val (serializeEncryptionContext c₂) (pad plaintext) haes
  generalize lib.sealGcm material.bytes iv.val (serializeEncryptionContext c₂) (pad plaintext) =
    sealed at hspec htag
  dsimp only at hspec
  constructor
  · intro hnewline
    have hkeyId : IsKeyId key.metadata.keyId := by
      rw [hid]
      exact hresolves.isKeyId_iff.mpr hnewline
    have hread := deserialize_serialize ⟨key.metadata.keyId, iv.val, sealed.1, sealed.2⟩
      (length_utf8_of_isKeyId hkeyId) iv.property htag
    rw [← hspec] at hread
    refine ⟨key.metadata.arn, decryptBlob_ok_iff.mpr ⟨destination, a, r, key, rfl, hkey, ?_⟩⟩
    rw [hread, decryptWithKey, if_neg (by simp),
      bind_of_ok _ (validateKeyForEncryptionDecryption_ok _ husage),
      bind_of_ok _ himport,
      bind_of_ok _ (KmsKey.decrypt_of_encrypt hlib hblob hread rfl)]
    rfl
  · intro hnewline response hdecrypt
    -- The id in the blob is another one, since it has no newline.
    rcases hresolves.cases with hkeyId | ⟨id, hkeyId, hnewlineId⟩
    · exact hresolves.isKeyId_iff.mp hkeyId hnewline
    · rcases decryptBlob_ok_iff.mp hdecrypt with ⟨ref, _, _, found, href, hfound, hwith⟩
      cases href
      rw [hkey] at hfound
      cases hfound
      rw [hid, hnewlineId, serialize_newline hkeyId] at hspec
      rw [hspec, deserialize_serialize ⟨id, iv.val, sealed.1, sealed.2⟩
        (length_utf8_of_isKeyId hkeyId) iv.property htag, decryptWithKey] at hwith
      have hne : key.metadata.keyId ≠ id := by
        rw [hid, hnewlineId]
        exact fun h => cons_ne_nil _ _ (append_right_eq_self.mp h)
      rw [if_pos (by simp [hne])] at hwith
      cases hwith

/-- With keys of the caller, and an id that has no newline at its end, a request does what
    `decrypt` and `encrypt` do. If the caller has no key with the id of a key of another account,
    it does so only then, or if one of the two fails. The header of a ciphertext is read back if
    the id has no newline at its end. -/
theorem reEncrypt_composes (hlib : lib.Authentic) (stores : KmsStores) (context : RequestContext)
    (blob : Bytes) (c₁ : EncryptionContext) (source : Option KeyRef) (destination : KeyRef)
    (c₂ : EncryptionContext) (iv : Random blockSize) :
    (OwnSource context source → Own context destination → ¬EndsInNewline destination.keyId →
      Composes lib stores context blob c₁ source destination c₂ iv) ∧
    ((∀ ref, source = some ref → Own context ref ∨ Lacks stores context ref) →
      Own context destination ∨ Lacks stores context destination →
      (Composes lib stores context blob c₁ source destination c₂ iv ↔
        (BothSucceed lib stores context blob c₁ source destination c₂ iv →
          OwnSource context source ∧ Own context destination ∧
            ¬EndsInNewline destination.keyId))) ∧
    ∀ ref account region key, locateKey lib stores context ref .default =
        .ok (account, region, key) → ∀ c : Ciphertext, c.keyId = key.metadata.keyId →
      c.iv.length = blockSize → c.tag.length = blockSize →
      (deserializeCiphertextBlob (serializeCiphertextBlob c) = some c ↔
        ¬EndsInNewline key.metadata.keyId) := by
  have hcomposes (hsource : OwnSource context source) (hdestination : Own context destination)
      (hnewline : ¬EndsInNewline destination.keyId) :
      Composes lib stores context blob c₁ source destination c₂ iv := by
    refine ⟨reEncrypt_ok_iff_own hsource hdestination, ?_⟩
    rintro ⟨blob', _, _⟩ arn plaintext h hdecrypt
    rcases (reEncrypt_own hsource hdestination _).mpr ⟨_, _, h⟩ with ⟨_, _, _, hdecrypt', hencrypt⟩
    rw [hdecrypt] at hdecrypt'
    cases hdecrypt'
    exact (decrypt_encrypted hlib hencrypt).1 hnewline
  refine ⟨hcomposes, fun hsource hdestination => ⟨fun h hboth => ?_, fun h => ?_⟩, ?_⟩
  · rcases h.succeeds_iff.mpr hboth with ⟨⟨blob', arn, arn'⟩, hre⟩
    rcases own_of_reEncrypt hsource hdestination hre with ⟨hown, hown'⟩
    refine ⟨hown, hown', fun hnewline => ?_⟩
    rcases (reEncrypt_own hown hown' _).mpr ⟨_, _, hre⟩ with ⟨_, _, _, hdecrypt, hencrypt⟩
    rcases h.decrypts _ _ _ hre hdecrypt with ⟨_, hresult⟩
    exact (decrypt_encrypted hlib hencrypt).2 hnewline _ hresult
  · by_cases hboth : BothSucceed lib stores context blob c₁ source destination c₂ iv
    · rcases h hboth with ⟨hown, hown', hnewline⟩
      exact hcomposes hown hown' hnewline
    · -- Then the request fails as well, since it would have used the caller's keys.
      have hfails (response : ReEncryptResponse) :
          reEncrypt lib stores context blob c₁ source destination c₂ iv ≠ .ok response := by
        intro hre
        rcases own_of_reEncrypt hsource hdestination hre with ⟨hown, hown'⟩
        exact hboth ((reEncrypt_ok_iff_own hown hown').mp ⟨response, hre⟩)
      refine ⟨iff_of_false ?_ hboth, fun response _ _ hre => absurd hre (hfails _)⟩
      rintro ⟨response, hre⟩
      exact hfails _ hre
  · intro ref account region key hkey c hc hiv htag
    rcases locateKey_resolves hkey with ⟨hid, hresolves⟩
    rw [← hc]
    rw [← hid, ← hc] at hresolves
    exact deserialize_serialize_iff hresolves hiv htag

def foreignStores : KmsStores := setKey KmsStores.initial "111111111111" "us-east-1" exampleKey

def foreignArn : KeyArn := ⟨"aws", "us-east-1", "111111111111", exampleUuid.text⟩

def foreignBlob : Bytes :=
  let sealed := exampleLibrary.sealGcm (List.replicate 32 1) exampleIv.val [] (pad [1, 2, 3])
  serializeCiphertextBlob ⟨exampleUuid.text, exampleIv.val, sealed.1, sealed.2⟩

/-- The blob is re-encrypted by the account of the key. -/
theorem reEncrypt_composes_of_owner :
    let context : RequestContext := ⟨"111111111111", "us-east-1"⟩
    Composes exampleLibrary foreignStores context foreignBlob none none (.arn foreignArn) none
      exampleIv :=
  (reEncrypt_composes authentic_exampleLibrary _ ⟨"111111111111", "us-east-1"⟩
    _ _ _ _ _ _).1 (fun _ h => by cases h) rfl
    (by unfold EndsInNewline; decide)

/-- It is not by another account, which can decrypt and encrypt with the key. -/
theorem reEncrypt_with_foreign_key :
    decryptBlob exampleLibrary foreignStores exampleContext foreignBlob none
        (some (.arn foreignArn)) = .ok (.plaintext exampleKey.metadata.arn [1, 2, 3]) ∧
      encryptWithKey exampleLibrary foreignStores exampleContext (.arn foreignArn) [1, 2, 3] none
        none exampleIv = .ok (.ciphertextBlob exampleKey.metadata.arn foreignBlob) ∧
      reEncrypt exampleLibrary foreignStores exampleContext foreignBlob none
        (some (.arn foreignArn)) (.arn foreignArn) none exampleIv =
        .error (.notFound ("Key '" ++
          (kmsKeyArn exampleLibrary exampleUuid.text "000000000000" "us-east-1").text ++
          "' does not exist")) := by
  decide +kernel

end LocalEmu.Kms
