import LocalEmu.Theory.Kms.KeySteps

/-!
# Ciphertexts Carry Their Key

What the serialization of a ciphertext gives back, and when a key decrypts it. The
serialization has 36 bytes for the id of the key, which is what the ids have that
are drawn. A key tries its materials one after another, so it decrypts what one of
them encrypted if all of them are AES keys.
-/

namespace LocalEmu.Kms

open List Option

/-! ### Ids -/

/-- The id matches one of the patterns, without a newline at its end. -/
def IsKeyId (keyId : Text) : Prop :=
  fullMatch patternUuid keyId = true ∨ fullMatch multiRegionPattern keyId = true

instance (keyId : Text) : Decidable (IsKeyId keyId) := inferInstanceAs (Decidable (_ ∨ _))

theorem fullMatch_append (ps qs : List (Char → Bool)) (s t : Text) (hs : fullMatch ps s = true)
    (ht : fullMatch qs t = true) : fullMatch (ps ++ qs) (s ++ t) = true := by
  induction ps generalizing s with
  | nil =>
    cases s with
    | nil => exact ht
    | cons => cases hs
  | cons p ps ih =>
    cases s with
    | nil => cases hs
    | cons c s =>
      rw [fullMatch, Bool.and_eq_true] at hs
      rw [cons_append, cons_append, fullMatch, hs.1]
      exact ih s hs.2

theorem fullMatch_replicate (n : Nat) (p : Char → Bool) (s : Text) (hlength : s.length = n)
    (hs : ∀ c ∈ s, p c = true) : fullMatch (List.replicate n p) s = true := by
  induction s generalizing n with
  | nil =>
    subst hlength
    rfl
  | cons c s ih =>
    subst hlength
    rw [length_cons, replicate_succ, fullMatch, hs c mem_cons_self]
    exact ih _ rfl fun d hd => hs d (mem_cons_of_mem c hd)

theorem fullMatch_spec (ps : List (Char → Bool)) (s : Text) (h : fullMatch ps s = true) :
    s.length = ps.length ∧ ∀ c ∈ s, ∃ p ∈ ps, p c = true := by
  induction ps generalizing s with
  | nil =>
    cases s with
    | nil => exact ⟨rfl, fun c hc => absurd hc not_mem_nil⟩
    | cons => cases h
  | cons p ps ih =>
    cases s with
    | nil => cases h
    | cons c s =>
      rw [fullMatch, Bool.and_eq_true] at h
      rcases ih s h.2 with ⟨hlength, hall⟩
      refine ⟨by rw [length_cons, length_cons, hlength], fun d hd => ?_⟩
      rcases mem_cons.mp hd with rfl | hd
      · exact ⟨p, mem_cons_self, h.1⟩
      · rcases hall d hd with ⟨q, hq, hqd⟩
        exact ⟨q, mem_cons_of_mem p hq, hqd⟩

theorem isHexDigit_of_hex (uuid : Uuid) (c : Char) (h : c ∈ uuid.hex) : isHexDigit c = true := by
  have hall : "0123456789abcdef".toList.all isHexDigit = true := by decide +kernel
  exact all_eq_true.mp hall c (uuid.isHex c h)

/-- Drawn ids match. -/
theorem isKeyId_newKeyId (request : CreateKeyRequest) (uuid : Uuid)
    (h : ∀ id, request.customKeyId = some id → id ≠ [] → IsKeyId id) :
    IsKeyId (newKeyId request uuid) := by
  unfold newKeyId
  cases hid : request.customKeyId.filter fun id => decide (id ≠ []) with
  | some id =>
    rcases filter_eq_some_iff.mp hid with ⟨hcustom, hne⟩
    exact h id hcustom (of_decide_eq_true hne)
  | none =>
    have hlength := uuid.length
    have hhex := isHexDigit_of_hex uuid
    by_cases hmulti : request.multiRegion
    · rw [if_pos hmulti]
      refine .inr (fullMatch_append [(· == 'm'), (· == 'r'), (· == 'k'), (· == '-')] _ _ _ rfl ?_)
      exact fullMatch_replicate 32 _ _ hlength hhex
    · rw [if_neg hmulti]
      have hpart (s : Text) (n : Nat) (hs : s.length = n) (hsub : ∀ c ∈ s, c ∈ uuid.hex) :
          fullMatch (replicate n isHexDigit) s = true :=
        fullMatch_replicate n _ s hs fun c hc => hhex c (hsub c hc)
      have hdash (ps : List (Char → Bool)) (s : Text) (hs : fullMatch ps s = true) :
          fullMatch ((· == '-') :: ps) ('-' :: s) = true := hs
      refine .inl (fullMatch_append _ _ _ _ (hpart _ _ (by simp [hlength]) ?_) (hdash _ _ ?_))
      · exact fun c hc => mem_of_mem_take hc
      refine fullMatch_append _ _ _ _ (hpart _ _ (by simp [hlength]) ?_) (hdash _ _ ?_)
      · exact fun c hc => mem_of_mem_drop (mem_of_mem_take hc)
      refine fullMatch_append _ _ _ _ (hpart _ _ (by simp [hlength]) ?_) (hdash _ _ ?_)
      · exact fun c hc => mem_of_mem_drop (mem_of_mem_take hc)
      refine fullMatch_append _ _ _ _ (hpart _ _ (by simp [hlength]) ?_) (hdash _ _ ?_)
      · exact fun c hc => mem_of_mem_drop (mem_of_mem_take hc)
      · exact hpart _ _ (by simp [hlength]) fun c hc => mem_of_mem_drop hc

theorem patternMatch_of_isKeyId {keyId : Text} (h : IsKeyId keyId) :
    (patternMatch patternUuid keyId || patternMatch multiRegionPattern keyId) = true := by
  rw [patternMatch, patternMatch]
  rcases h with h | h
  · rw [h, Bool.true_or, Bool.true_or]
  · rw [h, Bool.true_or, Bool.or_true]

theorem length_utf8_of_isKeyId {keyId : Text} (h : IsKeyId keyId) :
    keyId.utf8.length = keyIdLen := by
  have hascii (p : Char → Bool) (hp : p ∈ patternUuid ∨ p ∈ multiRegionPattern) (c : Char)
      (hc : p c = true) : c.toNat < 128 := by
    have hdigit : isHexDigit c = true → c.toNat < 128 := by
      intro hdigit
      have hall : ("0123456789abcdefABCDEF".toList.all fun d => decide (d.toNat < 128)) = true := by
        decide +kernel
      exact of_decide_eq_true (all_eq_true.mp hall c (of_decide_eq_true hdigit))
    have hchar (d : Char) (hd : d.toNat < 128) (h : (c == d) = true) : c.toNat < 128 := by
      rw [eq_of_beq h]
      exact hd
    simp only [patternUuid, multiRegionPattern, mem_append, mem_cons, mem_replicate] at hp
    rcases hp with ((⟨-, rfl⟩ | rfl | ⟨-, rfl⟩ | rfl | ⟨-, rfl⟩ | rfl | ⟨-, rfl⟩ | rfl | ⟨-, rfl⟩) |
      (rfl | rfl | rfl | rfl | ⟨-, rfl⟩))
    all_goals first
      | exact hdigit hc
      | exact hchar _ (by decide) hc
  have hof (ps : List (Char → Bool)) (hps : ∀ p ∈ ps, p ∈ patternUuid ∨ p ∈ multiRegionPattern)
      (hlength : ps.length = keyIdLen) (h : fullMatch ps keyId = true) :
      keyId.utf8.length = keyIdLen := by
    rcases fullMatch_spec ps _ h with ⟨hsame, hall⟩
    rw [Text.length_utf8_of_ascii, hsame, hlength]
    intro c hc
    rcases hall c hc with ⟨p, hp, hpc⟩
    exact hascii p (hps p hp) c hpc
  rcases h with h | h
  · exact hof _ (fun p hp => .inl hp) rfl h
  · exact hof _ (fun p hp => .inr hp) rfl h

/-! ### Serialization -/

theorem pack_of_length {n : Nat} {s : Bytes} (h : s.length = n) : pack n s = s := by
  rw [pack, h, Nat.sub_self, replicate_zero, append_nil, ← h, take_length]

/-- The serialization of ciphertexts. -/
theorem deserialize_serialize (c : Ciphertext) (hid : c.keyId.utf8.length = keyIdLen)
    (hiv : c.iv.length = blockSize) (htag : c.tag.length = blockSize) :
    deserializeCiphertextBlob (serializeCiphertextBlob c) = some c := by
  rw [serializeCiphertextBlob, pack_of_length hid, pack_of_length hiv, pack_of_length htag]
  have hlength : keyIdLen + blockSize + blockSize ≤
      (c.keyId.utf8 ++ c.iv ++ c.tag ++ c.ciphertext).length := by
    simp only [length_append, hid, hiv, htag]
    exact Nat.le_add_right _ _
  rw [deserializeCiphertextBlob, if_pos hlength]
  simp only [append_assoc]
  simp only [← drop_drop, drop_left' hid, drop_left' hiv, drop_left' htag,
    take_left' hid, take_left' hiv, take_left' htag, Text.decode_utf8,
    map_some]

/-! ### The cipher -/

/-- The padding. -/
theorem unpad_pad (s : Bytes) : unpad (pad s) = .ok s := by
  have hlt : s.length % blockSize < blockSize := Nat.mod_lt _ (by decide)
  have hblock : blockSize = 16 := rfl
  obtain ⟨n, hn⟩ : ∃ n, blockSize - s.length % blockSize = n + 1 :=
    ⟨blockSize - s.length % blockSize - 1, by omega⟩
  rw [pad, hn]
  have hlast : (s ++ replicate (n + 1) (UInt8.ofNat (n + 1))).getLast? =
      some (UInt8.ofNat (n + 1)) := by
    rw [replicate_succ', ← append_assoc, getLast?_concat]
  have hnat : (UInt8.ofNat (n + 1)).toNat = n + 1 := by
    rw [UInt8.toNat_ofNat', Nat.mod_eq_of_lt (by omega)]
  have hne : UInt8.ofNat (n + 1) ≠ 0 := by
    intro h
    rw [h] at hnat
    cases hnat
  rw [unpad, hlast]
  dsimp only
  rw [if_neg hne, hnat, length_append, length_replicate, Nat.add_sub_cancel, take_left]
  rfl

/-- The cipher gives back what was encrypted, and fails with any other key. -/
structure Library.Authentic (lib : Library) : Prop where
  tag : ∀ key iv aad message, IsAesKey key → (lib.sealGcm key iv aad message).2.length = blockSize
  opens : ∀ key iv aad message, IsAesKey key →
    lib.unsealGcm key iv aad (lib.sealGcm key iv aad message).2
      (lib.sealGcm key iv aad message).1 = some message
  other : ∀ key key' iv aad message, IsAesKey key → IsAesKey key' → key' ≠ key →
    lib.unsealGcm key' iv aad (lib.sealGcm key iv aad message).2
      (lib.sealGcm key iv aad message).1 = none

variable {lib : Library}

/-- A key is an AES key, if it is there. -/
def IsUsable (key : Option Material) : Prop :=
  ∃ material, key = some material ∧ IsAesKey material.bytes

/-- A blob is the encryption of a plaintext with some material. -/
def Encrypts (lib : Library) (keyId : Text) (material plaintext : Bytes)
    (context : EncryptionContext) (blob : Bytes) : Prop :=
  ∃ iv : Random blockSize,
    let sealed := lib.sealGcm material iv.val (serializeEncryptionContext context) (pad plaintext)
    blob = serializeCiphertextBlob ⟨keyId, iv.val, sealed.1, sealed.2⟩

theorem ivOr_random (iv : Random blockSize) : ivOr iv.val = iv.val := by
  have hne : iv.val ≠ [] := fun h => absurd (congrArg length h) (by rw [iv.property]; decide)
  rw [ivOr, if_neg hne]

theorem aes_usable {material : Material} (h : IsAesKey material.bytes) :
    aes (some material) = .ok material.bytes := if_pos h

namespace KmsKey

/-- A key can decrypt with some material. -/
def Holds (key : KmsKey) (material : Bytes) : Prop :=
  ∃ m ∈ key.keysToTry, m.map Material.bytes = some material

/-- A key with an AES key encrypts. -/
theorem encrypt_ok (lib : Library) {key : KmsKey} {material : Material}
    (hmaterial : key.cryptoKey.keyMaterial = some material) (haes : IsAesKey material.bytes)
    (plaintext : Bytes) (context : EncryptionContext) (iv : Random blockSize) :
    ∃ blob, key.encrypt lib plaintext context iv = .ok blob ∧
      Encrypts lib key.metadata.keyId material.bytes plaintext context blob := by
  refine ⟨_, ?_, iv, rfl⟩
  rw [KmsKey.encrypt, Kms.encrypt, hmaterial, aes_usable haes, ivOr_random]
  rfl

theorem encrypt_spec {key : KmsKey} {plaintext : Bytes} {context : EncryptionContext}
    {iv : Random blockSize} {blob : Bytes}
    (h : key.encrypt lib plaintext context iv = .ok blob) :
    ∃ material, key.cryptoKey.keyMaterial = some material ∧ IsAesKey material.bytes ∧
      Encrypts lib key.metadata.keyId material.bytes plaintext context blob := by
  cases hmaterial : key.cryptoKey.keyMaterial with
  | none =>
    rw [KmsKey.encrypt, hmaterial] at h
    cases h
  | some material =>
    by_cases haes : IsAesKey material.bytes
    · rcases encrypt_ok _ hmaterial haes _ _ iv with ⟨blob', hblob, hspec⟩
      rw [h] at hblob
      rw [← Except.ok.inj hblob] at hspec
      exact ⟨material, rfl, haes, hspec⟩
    · rw [KmsKey.encrypt, Kms.encrypt, hmaterial, aes, if_neg haes] at h
      cases h

theorem tryKeys_ok (hlib : lib.Authentic) (keyId : Text) (material plaintext aad : Bytes)
    (iv : Random blockSize) (haes : IsAesKey material) (keys : List (Option Material))
    (husable : ∀ key ∈ keys, IsUsable key)
    (hmem : ∃ key ∈ keys, key.map Material.bytes = some material) :
    tryKeys lib ⟨keyId, iv.val, (lib.sealGcm material iv.val aad (pad plaintext)).1,
      (lib.sealGcm material iv.val aad (pad plaintext)).2⟩ aad keys = .ok plaintext := by
  induction keys with
  | nil =>
    rcases hmem with ⟨_, hmem, _⟩
    exact absurd hmem not_mem_nil
  | cons key keys ih =>
    rcases husable _ mem_cons_self with ⟨tried, rfl, htried⟩
    rw [tryKeys, Kms.decrypt, aes_usable htried, ivOr_random]
    by_cases hsame : tried.bytes = material
    · rw [Action.bind_of_ok _ rfl, hsame, hlib.opens _ _ _ _ haes]
      dsimp only
      rw [unpad_pad]
      rfl
    · rw [Action.bind_of_ok _ rfl, hlib.other _ _ _ _ _ haes htried hsame]
      refine ih (fun key hkey => husable key (mem_cons_of_mem _ hkey)) ?_
      rcases hmem with ⟨key, hkey, hbytes⟩
      rcases mem_cons.mp hkey with rfl | hkey
      · exact absurd (some.inj hbytes) hsame
      · exact ⟨key, hkey, hbytes⟩

/-- A key decrypts what one of its materials encrypted. -/
theorem decrypt_of_holds (hlib : lib.Authentic) {key : KmsKey} {keyId : Text}
    {material plaintext : Bytes} {context : EncryptionContext} {blob : Bytes}
    (hid : IsKeyId keyId) (haes : IsAesKey material)
    (hblob : Encrypts lib keyId material plaintext context blob)
    (husable : ∀ m ∈ key.keysToTry, IsUsable m) (hholds : key.Holds material) :
    ∃ c, deserializeCiphertextBlob blob = some c ∧ c.keyId = keyId ∧
      key.decrypt lib c context = .ok plaintext := by
  rcases hblob with ⟨iv, rfl⟩
  refine ⟨_, deserialize_serialize _ (length_utf8_of_isKeyId hid) iv.property
    (hlib.tag _ _ _ _ haes), rfl, ?_⟩
  exact tryKeys_ok hlib _ _ _ _ iv haes _ husable hholds

end KmsKey

/-- A key with its length in front ends where the text behind it begins. -/
theorem headed_inj {key key' rest rest' : Bytes} (haes : IsAesKey key) (haes' : IsAesKey key')
    (h : UInt8.ofNat key.length :: (key ++ rest) = UInt8.ofNat key'.length :: (key' ++ rest')) :
    key = key' ∧ rest = rest' := by
  rw [cons.injEq] at h
  have hlength : key.length = key'.length := by
    have hnat := congrArg UInt8.toNat h.1
    have hlt : key.length < 256 ∧ key'.length < 256 := by
      unfold IsAesKey at haes haes'
      omega
    rwa [UInt8.toNat_ofNat', UInt8.toNat_ofNat', Nat.mod_eq_of_lt hlt.1,
      Nat.mod_eq_of_lt hlt.2] at hnat
  exact append_inj h.2 hlength

theorem authentic_exampleLibrary : exampleLibrary.Authentic where
  tag _ _ _ _ _ := rfl
  opens key iv aad message _ := by
    have hprefix : (UInt8.ofNat key.length :: key).isPrefixOf
        ((UInt8.ofNat key.length :: key) ++ message) = true :=
      isPrefixOf_iff_prefix.mpr (prefix_append _ _)
    have hdrop : ((UInt8.ofNat key.length :: key) ++ message).drop (key.length + 1) = message :=
      drop_left' rfl
    simp only [exampleLibrary, if_pos hprefix, hdrop]
  other key key' iv aad message haes haes' hne := by
    refine if_neg fun hprefix => hne ?_
    rcases isPrefixOf_iff_prefix.mp hprefix with ⟨rest, hrest⟩
    exact (headed_inj haes' haes hrest).1

end LocalEmu.Kms
