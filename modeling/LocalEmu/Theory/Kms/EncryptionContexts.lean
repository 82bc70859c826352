import LocalEmu.Theory.Kms.Ciphertexts

/-!
# Encryption Contexts

What a ciphertext remembers of the context it was encrypted with. The cipher authenticates
the serialization of the context, and the serialization has the keys and the values one
after another in the order of the keys, with nothing between them. So the order of the
insertions does not matter, and neither does the reserved key. But one text can be cut at
different places, and the contexts it is then cut into are the same to the cipher.
-/

namespace LocalEmu.Kms

open List

/-! ### Contexts as maps -/

variable (context : EncryptionContext)

/-- The entries of a context, which may be `None`. -/
def EncryptionContext.entries : List (Text × Text) :=
  context.getD []

/-- A dictionary has a key once. -/
def EncryptionContext.IsDict : Prop :=
  (context.entries.map Prod.fst).Nodup

/-- The key of `IGNORED_CONTEXT_KEYS`. -/
def reservedKey : Text := "aws-crypto-public-key".toList

/-- The contexts are the same without the reserved key. -/
def SameContext (c d : EncryptionContext) : Prop :=
  ∀ e : Text × Text, e.1 ≠ reservedKey → (e ∈ c.entries ↔ e ∈ d.entries)

/-- The entries of a context without the reserved one, in the order of their keys. -/
structure Arranges (es : List (Text × Text)) (context : EncryptionContext) : Prop where
  sorted : es.Pairwise fun a b => a.1 < b.1
  mem_iff : ∀ e, e ∈ es ↔ e ∈ context.entries ∧ e.1 ≠ reservedKey

/-- Keys and values one after another. -/
def written (es : List (Text × Text)) : Text := es.flatMap fun e => e.1 ++ e.2

/-- Two contexts that differ, but not when they are written. -/
def Collide (c d : EncryptionContext) : Prop :=
  ∃ es fs, Arranges es c ∧ Arranges fs d ∧ es ≠ fs ∧ written es = written fs

theorem sameContext_iff {c d : EncryptionContext} {es fs : List (Text × Text)}
    (hes : Arranges es c) (hfs : Arranges fs d) : SameContext c d ↔ es = fs := by
  constructor
  · intro hsame
    have hmem : ∀ e, e ∈ es ↔ e ∈ fs := by
      intro e
      rw [hes.mem_iff, hfs.mem_iff]
      by_cases hreserved : e.1 = reservedKey
      · simp [hreserved]
      · rw [hsame e hreserved]
    have hnodup (l : List (Text × Text)) (hl : l.Pairwise fun a b => a.1 < b.1) : l.Nodup :=
      hl.imp fun hlt heq => absurd (congrArg Prod.fst heq) (ne_of_lt hlt)
    have hperm : es.Perm fs :=
      (perm_ext_iff_of_nodup (hnodup es hes.sorted) (hnodup fs hfs.sorted)).mpr hmem
    refine hperm.eq_of_pairwise (fun a b _ _ hab hba => ?_) hes.sorted hfs.sorted
    exact absurd hab (lt_asymm hba)
  · rintro rfl e hreserved
    have hiff : e ∈ c.entries ∧ e.1 ≠ reservedKey ↔ e ∈ d.entries ∧ e.1 ≠ reservedKey := by
      rw [← hes.mem_iff, ← hfs.mem_iff]
    exact ⟨fun h => (hiff.mp ⟨h, hreserved⟩).1, fun h => (hiff.mpr ⟨h, hreserved⟩).1⟩

theorem utf8_written (es : List (Text × Text)) :
    (written es).utf8 = es.flatMap fun e => Text.utf8 e.1 ++ Text.utf8 e.2 := by
  induction es with
  | nil => rfl
  | cons e es ih =>
    have hcons : written (e :: es) = e.1 ++ e.2 ++ written es := rfl
    rw [hcons, flatMap_cons, ← ih, Text.utf8, flatMap_append, flatMap_append]
    rfl

theorem exists_arranges (hdict : context.IsDict) :
    ∃ es, Arranges es context ∧ serializeEncryptionContext context = (written es).utf8 := by
  let sorted := context.entries.insertionSort fun a b => a.1 ≤ b.1
  have hperm : sorted.Perm context.entries := perm_insertionSort _ _
  refine ⟨sorted.filter fun e => e.1 ≠ reservedKey, ⟨?_, fun e => ?_⟩, ?_⟩
  · -- The keys do not fall, and no two of them are the same.
    have hle : sorted.Pairwise fun a b => a.1 ≤ b.1 := pairwise_insertionSort _ _
    have hne : sorted.Pairwise fun a b => a.1 ≠ b.1 :=
      pairwise_map.mp ((hperm.map _).nodup_iff.mpr hdict)
    have hlt : sorted.Pairwise fun a b => a.1 < b.1 :=
      (hle.and hne).imp fun h => lt_of_le_of_ne h.1 h.2
    exact hlt.filter _
  · rw [mem_filter, hperm.mem_iff, decide_eq_true_iff]
  · rw [utf8_written]
    cases context with
    | none | some => rfl

/-- When two contexts have one serialization. -/
theorem serializeEncryptionContext_eq_iff (c d : EncryptionContext) (hc : c.IsDict)
    (hd : d.IsDict) :
    serializeEncryptionContext c = serializeEncryptionContext d ↔
      SameContext c d ∨ Collide c d := by
  rcases exists_arranges c hc with ⟨es, hes, hes'⟩
  rcases exists_arranges d hd with ⟨fs, hfs, hfs'⟩
  rw [hes', hfs']
  constructor
  · intro heq
    have htext : written es = written fs := utf8EncodeChar_prefixCode.flatMap_inj _ _ heq
    by_cases hsame : es = fs
    · exact .inl ((sameContext_iff hes hfs).mpr hsame)
    · exact .inr ⟨es, fs, hes, hfs, hsame, htext⟩
  · rintro (hsame | ⟨es', fs', hes₂, hfs₂, -, htext⟩)
    · rw [(sameContext_iff hes hfs).mp hsame]
    · have hself (c : EncryptionContext) : SameContext c c := fun _ _ => Iff.rfl
      rw [(sameContext_iff hes hes₂).mp (hself c), (sameContext_iff hfs hfs₂).mp (hself d), htext]

theorem not_collide_iff (c d : EncryptionContext) (hc : c.IsDict) (hd : d.IsDict) :
    ¬Collide c d ↔
      (serializeEncryptionContext c = serializeEncryptionContext d ↔ SameContext c d) := by
  rw [serializeEncryptionContext_eq_iff c d hc hd]
  constructor
  · intro hcollide
    exact or_iff_left hcollide
  · rintro hiff ⟨es, fs, hes, hfs, hne, htext⟩
    exact hne ((sameContext_iff hes hfs).mp (hiff.mp (.inr ⟨es, fs, hes, hfs, hne, htext⟩)))

/-! ### Decryption -/

/-- The cipher authenticates the additional data. -/
structure Library.Binds (lib : Library) : Prop extends lib.Authentic where
  data : ∀ key key' iv aad aad' message, IsAesKey key → IsAesKey key' → aad' ≠ aad →
    lib.unsealGcm key' iv aad' (lib.sealGcm key iv aad message).2
      (lib.sealGcm key iv aad message).1 = none

variable {lib : Library}

theorem length_pack (n : Nat) (s : Bytes) : (pack n s).length = n := by
  rw [pack, length_append, length_take, length_replicate]
  omega

theorem deserialize_fields {c d : Ciphertext} (hiv : c.iv.length = blockSize)
    (htag : c.tag.length = blockSize)
    (h : deserializeCiphertextBlob (serializeCiphertextBlob c) = some d) :
    d.iv = c.iv ∧ d.tag = c.tag ∧ d.ciphertext = c.ciphertext := by
  have hid := length_pack keyIdLen c.keyId.utf8
  rw [serializeCiphertextBlob, pack_of_length hiv, pack_of_length htag] at h
  rw [deserializeCiphertextBlob] at h
  split_ifs at h
  rcases Option.map_eq_some_iff.mp h with ⟨_, _, rfl⟩
  simp only [append_assoc, ← drop_drop, drop_left' hid, drop_left' hiv,
    drop_left' htag, take_left' hiv, take_left' htag, and_self]

variable {iv : Random blockSize}

theorem tryKeys_of_ne (hlib : lib.Binds) {material plaintext aad aad' : Bytes} {c : Ciphertext}
    (haes : IsAesKey material) (hne : aad' ≠ aad) (hiv : c.iv = iv.val)
    (htag : c.tag = (lib.sealGcm material iv.val aad (pad plaintext)).2)
    (htext : c.ciphertext = (lib.sealGcm material iv.val aad (pad plaintext)).1)
    (keys : List (Option Material)) (p : Bytes) :
    KmsKey.tryKeys lib c aad' keys ≠ .ok p := by
  induction keys with
  | nil => intro h; cases h
  | cons key keys ih =>
    rw [KmsKey.tryKeys, Kms.decrypt, hiv, htag, htext, ivOr_random]
    cases key with
    | none => intro h; cases h
    | some tried =>
      by_cases htried : IsAesKey tried.bytes
      · rw [aes_usable htried, Action.bind_of_ok _ rfl,
          hlib.data _ _ _ _ _ _ haes htried hne]
        exact ih
      · rw [aes, if_neg htried]
        intro h
        cases h

namespace KmsKey

theorem decrypt_of_encrypt (hlib : lib.Authentic) {key : KmsKey} {plaintext blob : Bytes}
    {c₁ c₂ : EncryptionContext} {c : Ciphertext}
    (hblob : key.encrypt lib plaintext c₁ iv = .ok blob)
    (hc : deserializeCiphertextBlob blob = some c)
    (heq : serializeEncryptionContext c₁ = serializeEncryptionContext c₂) :
    key.decrypt lib c c₂ = .ok plaintext := by
  rcases encrypt_spec hblob with ⟨material, hmaterial, haes, iv, rfl⟩
  rcases deserialize_fields iv.property (hlib.tag _ _ _ _ haes) hc with ⟨hiv, htag, htext⟩
  rw [KmsKey.decrypt, ← heq, keysToTry, hmaterial, tryKeys, Kms.decrypt, aes_usable haes, hiv,
    htag, htext, ivOr_random, Action.bind_of_ok _ rfl, hlib.opens _ _ _ _ haes]
  dsimp only
  rw [unpad_pad]
  rfl

/-- A key decrypts with the contexts that have the serialization of the first. -/
theorem decrypt_iff_serialize (hlib : lib.Binds) {key : KmsKey} {plaintext blob : Bytes}
    {c₁ : EncryptionContext} {c : Ciphertext}
    (hblob : key.encrypt lib plaintext c₁ iv = .ok blob)
    (hc : deserializeCiphertextBlob blob = some c) (c₂ : EncryptionContext) :
    (∃ p, key.decrypt lib c c₂ = .ok p) ↔
      serializeEncryptionContext c₁ = serializeEncryptionContext c₂ := by
  constructor
  · rintro ⟨p, hp⟩
    rcases encrypt_spec hblob with ⟨material, hmaterial, haes, iv, rfl⟩
    rcases deserialize_fields iv.property (hlib.tag _ _ _ _ haes) hc with ⟨hiv, htag, htext⟩
    by_contra hne
    exact tryKeys_of_ne hlib haes (Ne.symm hne) hiv htag htext _ p hp
  · intro heq
    exact ⟨plaintext, decrypt_of_encrypt hlib.toAuthentic hblob hc heq⟩

end KmsKey

/-- The contexts that decrypt are those that are the same, unless two of them collide. -/
theorem decrypt_iff_sameContext (hlib : lib.Binds) (key : KmsKey) (plaintext : Bytes)
    (c₁ c₂ : EncryptionContext) (h₁ : c₁.IsDict) (h₂ : c₂.IsDict) (iv : Random blockSize)
    (blob : Bytes) (c : Ciphertext) (hblob : key.encrypt lib plaintext c₁ iv = .ok blob)
    (hc : deserializeCiphertextBlob blob = some c) :
    ((∃ p, key.decrypt lib c c₂ = .ok p) ↔ SameContext c₁ c₂) ↔ ¬Collide c₁ c₂ := by
  rw [KmsKey.decrypt_iff_serialize hlib hblob hc, not_collide_iff _ _ h₁ h₂]

/-! ### Examples -/

/-- The bytes with a mark before each of them and another one at the end. -/
def marked (bytes : Bytes) : Bytes := bytes.flatMap (fun b => [1, b]) ++ [0]

/-- A library whose ciphertexts begin with their key and the additional data. -/
def markingLibrary : Library where
  sealGcm key _ aad message :=
    ((UInt8.ofNat key.length :: key) ++ marked aad ++ message, List.replicate blockSize 0)
  unsealGcm key _ aad _ ciphertext :=
    if ((UInt8.ofNat key.length :: key) ++ marked aad).isPrefixOf ciphertext then
      some (ciphertext.drop ((UInt8.ofNat key.length :: key) ++ marked aad).length)
    else none
  loadDerPrivateKey _ := none
  unwrap _ _ material := .ok material
  decryptRsa _ _ := .error .valueError
  uuid5 _ _ := "0000"
  partition _ := "aws"

theorem marked_inj (a b x y : Bytes) (h : marked a ++ x = marked b ++ y) : a = b := by
  induction a generalizing b with
  | nil =>
    cases b with
    | nil => rfl
    | cons => cases h
  | cons c a ih =>
    cases b with
    | nil => cases h
    | cons d b =>
      have htail : c = d ∧ marked a ++ x = marked b ++ y := by simpa [marked] using h
      rw [htail.1, ih b htail.2]

theorem binds_markingLibrary : markingLibrary.Binds := by
  -- Ciphertexts begin with the key and the data, and with no others.
  have hbegins (key key' aad aad' message : Bytes) (haes : IsAesKey key) (haes' : IsAesKey key')
      (h : ((UInt8.ofNat key'.length :: key') ++ marked aad').isPrefixOf
        ((UInt8.ofNat key.length :: key) ++ marked aad ++ message) = true) :
      key' = key ∧ aad' = aad := by
    rcases isPrefixOf_iff_prefix.mp h with ⟨rest, hrest⟩
    rw [append_assoc, append_assoc] at hrest
    rcases headed_inj haes' haes hrest with ⟨hkey, hdata⟩
    exact ⟨hkey, marked_inj _ _ _ _ hdata⟩
  constructor
  · constructor
    · exact fun _ _ _ _ _ => rfl
    · intro key iv aad message _
      have hstart : ((UInt8.ofNat key.length :: key) ++ marked aad).isPrefixOf
          ((UInt8.ofNat key.length :: key) ++ marked aad ++ message) = true :=
        isPrefixOf_iff_prefix.mpr (prefix_append _ _)
      simp only [markingLibrary, if_pos hstart, drop_left]
    · exact fun key key' iv aad message haes haes' hne =>
        if_neg fun h => hne (hbegins _ _ _ _ _ haes haes' h).1
  · exact fun key key' iv aad aad' message haes haes' hne =>
      if_neg fun h => hne (hbegins _ _ _ _ _ haes haes' h).2

def exampleKey : KmsKey where
  metadata :=
    { keyId := exampleUuid.text
      arn := kmsKeyArn markingLibrary exampleUuid.text "000000000000" "us-east-1"
      origin := .awsKms
      keySpec := .symmetricDefault
      keyUsage := .encryptDecrypt
      enabled := true
      keyState := .enabled
      deletionDate := none
      expirationModel := none
      currentKeyMaterialId := none
      multiRegionConfiguration := none }
  cryptoKey := ⟨.symmetricDefault, some ⟨List.replicate 32 1, false⟩, none, none⟩
  previousKeys := []
  internalKeyId := exampleUuid

def contextOf (name value : String) : EncryptionContext := some [(name.toList, value.toList)]

def exampleCiphertext : Ciphertext :=
  let sealed := markingLibrary.sealGcm (List.replicate 32 1) exampleIv.val
    (serializeEncryptionContext (contextOf "a" "bc")) (pad [1, 2, 3])
  ⟨exampleUuid.text, exampleIv.val, sealed.1, sealed.2⟩

/-- With a value that is one letter longer the context is another one. -/
theorem decrypt_iff_sameContext_of_longer :
    ((∃ p, exampleKey.decrypt markingLibrary exampleCiphertext (contextOf "a" "bcd") = .ok p) ↔
      SameContext (contextOf "a" "bc") (contextOf "a" "bcd")) ↔
      ¬Collide (contextOf "a" "bc") (contextOf "a" "bcd") :=
  decrypt_iff_sameContext binds_markingLibrary _ [1, 2, 3] (contextOf "a" "bc")
    (contextOf "a" "bcd") (List.nodup_singleton _) (List.nodup_singleton _) exampleIv
    (serializeCiphertextBlob exampleCiphertext) _ (by decide +kernel)
    (by decide +kernel)

/-- With a letter moved from the value to the key the context is taken for the same. -/
theorem decrypt_with_moved_letter :
    exampleKey.encrypt markingLibrary [1, 2, 3] (contextOf "a" "bc") exampleIv =
        .ok (serializeCiphertextBlob exampleCiphertext) ∧
      deserializeCiphertextBlob (serializeCiphertextBlob exampleCiphertext) =
        some exampleCiphertext ∧
      exampleKey.decrypt markingLibrary exampleCiphertext (contextOf "ab" "c") = .ok [1, 2, 3] ∧
      ¬SameContext (contextOf "a" "bc") (contextOf "ab" "c") := by
  refine ⟨by decide +kernel, by decide +kernel, by decide +kernel, fun hsame => ?_⟩
  have hmem := (hsame ("a".toList, "bc".toList) (by decide)).mp (List.mem_singleton_self _)
  have heq := mem_singleton.mp hmem
  exact absurd (congrArg Prod.fst heq) (by decide)

end LocalEmu.Kms
