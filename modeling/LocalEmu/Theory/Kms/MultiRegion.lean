import LocalEmu.Theory.Kms.Decryptability

/-!
# Keys in Several Regions

A key that is copied to other regions, with all its materials. A copy is made once. What
happens to the primary key afterwards does not reach the copies: a rotation gives the
primary key material that they do not have, and a further replica is entered in the
configuration of the primary key only.

So a blob is decrypted everywhere if the material that it is encrypted with is everywhere
at that time, and the configurations agree as long as there is one replica.
-/

namespace LocalEmu.Kms

open List

/-- A primary key in some region, before it is replicated. Its materials are AES keys. -/
structure MultiRegion (primary : Place) (stores : KmsStores) (key : KmsKey) : Prop where
  found : stores.key? primary = some key
  configuration : key.metadata.multiRegionConfiguration =
    some ⟨.primary, ⟨key.metadata.arn, primary.region⟩, []⟩
  usable : ∀ m ∈ key.keysToTry, IsUsable m
  pending : ∀ m ∈ given key.cryptoKey.pendingKeyMaterial, IsAesKey m.bytes
  keyId : IsKeyId primary.keyId

def Place.inRegion (primary : Place) (region : String) : Place :=
  ⟨primary.account, region, primary.keyId⟩

/-- The regions that the primary key lists. -/
def members (stores : KmsStores) (primary : Place) : List String :=
  primary.region :: ((stores.key? primary).bind fun key =>
    key.metadata.multiRegionConfiguration).elim [] fun configuration =>
      configuration.replicaKeys.map MultiRegionKey.region

/-- Replications and rotations of the primary key, and encryptions with a copy. -/
def Concerns (primary : Place) (call : Call) : Prop :=
  match call.request with
  | .replicateKey ref _ => Names call.context ref primary
  | .encrypt ref _ _ _ _ => ∃ region,
      parseKeyId call.context ref = .ok (primary.account, region, primary.keyId)
  | .rotateKeyOnDemand ref _ =>
    parseKeyId call.context ref = .ok (primary.account, primary.region, primary.keyId)
  | _ => False

instance (key : KmsKey) (material : Bytes) : Decidable (key.Holds material) :=
  inferInstanceAs (Decidable (∃ m ∈ _, _))

/-- The region of the key, and those that calls replicated it to. -/
def Replicated (primary : Place) (calls : List Call) (region : String) : Prop :=
  region = primary.region ∨
    ∃ call ∈ calls, ∃ ref r, call.request = .replicateKey ref region ∧ call.result = .ok r

/-- A copy encrypts only while all copies have its current material. -/
def Shared (primary : Place) (stores : KmsStores) (call : Call) : Prop :=
  match call.request with
  | .encrypt ref _ _ _ _ =>
    ∀ p ∈ (parseKeyId call.context ref).toOption, p.2.1 ∈ members stores primary →
      ∀ key ∈ stores.key? (primary.inRegion p.2.1), ∀ m ∈ key.cryptoKey.keyMaterial,
        ∀ region ∈ members stores primary, ∀ copy ∈ stores.key? (primary.inRegion region),
          copy.Holds m.bytes
  | _ => True

/-- A key is replicated once, if the copy is not there already. -/
def Single (primary : Place) (stores : KmsStores) (call : Call) : Prop :=
  match call.request with
  | .replicateKey _ replicaRegion => members stores primary = [primary.region] ∨
      (stores.key? (primary.inRegion replicaRegion)).isSome = true
  | _ => True

instance (primary : Place) (stores : KmsStores) (call : Call) :
    Decidable (Shared primary stores call) := by
  unfold Shared
  split <;> infer_instance

instance (primary : Place) (stores : KmsStores) (call : Call) :
    Decidable (Single primary stores call) := by
  unfold Single
  split <;> infer_instance

variable {lib : Library} {stores stores' : KmsStores} {primary : Place}

/-! ### Calls -/

/-- A replication copies the key to a region without it, and lists the region. -/
abbrev Copied (lib : Library) (stores stores' : KmsStores) (primary : Place)
    (replicaRegion : String) (key : KmsKey) (configuration : MultiRegionConfiguration) : Prop :=
  stores.key? primary = some key ∧ key.metadata.multiRegionConfiguration = some configuration ∧
    stores.key? (primary.inRegion replicaRegion) = none ∧
    ∀ place, stores'.key? place =
      if place = primary then some (updatePrimaryKeyWithReplicaKeys key
        ⟨kmsKeyArn lib primary.keyId primary.account replicaRegion, replicaRegion⟩)
      else if place = primary.inRegion replicaRegion then
        some (key.replicateMetadata lib primary.account replicaRegion)
      else stores.key? place

/-- What the calls do. -/
theorem replicateKey_ok {context : RequestContext} {ref : KeyRef} {replicaRegion : String}
    {r : Response} (hname : Names context ref primary)
    (h : replicateKey lib stores context ref replicaRegion = .ok (r, stores')) :
    ∃ key configuration, Copied lib stores stores' primary replicaRegion key configuration := by
  rcases hname with ⟨rfl, href⟩
  rcases Action.ok_of_bind h with ⟨key, hkey, h⟩
  rcases getKmsKey_ok hkey with ⟨hget, _⟩
  rw [href] at hget
  have hkey : stores.key? primary = some key := hget
  have hid := stores.keyId_of_key? hkey
  split at h
  · cases h
  next configuration hconfiguration =>
  refine ⟨key, configuration, hkey, hconfiguration, ?_⟩
  split at h
  · cases h
  split at h
  · cases h
  · next hfree =>
    cases h
    rw [Bool.not_eq_true, Option.isSome_eq_false_iff, Option.isNone_iff_eq_none, hid] at hfree
    refine ⟨hfree, fun place => ?_⟩
    have hcopy : (key.replicateMetadata lib primary.context.account replicaRegion).metadata.arn =
        kmsKeyArn lib primary.keyId primary.account replicaRegion := by
      rw [KmsKey.replicateMetadata, hid]
      rfl
    have hprimaryId (replica : MultiRegionKey) :
        (updatePrimaryKeyWithReplicaKeys key replica).metadata.keyId = primary.keyId := hid
    have hcopyId :
        (key.replicateMetadata lib primary.context.account replicaRegion).metadata.keyId =
          primary.keyId := hid
    rw [key?_setKey, key?_setKey, hprimaryId, hcopyId, hcopy]
    rfl

/-- What the calls do to the copies. -/
theorem concerned_step {call : Call} (hstep : Performs lib stores call stores')
    (hconcerns : Concerns primary call) :
    ((∀ place, stores'.key? place = stores.key? place) ∧
      ∀ ref region r, call.request = .replicateKey ref region → call.result ≠ .ok r) ∨
    (∃ ref replicaRegion key configuration r, call.request = .replicateKey ref replicaRegion ∧
      call.result = .ok r ∧
      Copied lib stores stores' primary replicaRegion key configuration) ∨
    (∃ ref key key' entropy, call.request = .rotateKeyOnDemand ref entropy ∧
      stores.key? primary = some key ∧ key.rotateKeyOnDemand lib entropy = .ok key' ∧
      ∀ place, stores'.key? place = if place = primary then some key' else stores.key? place) := by
  rcases call with ⟨context, request, result⟩
  unfold Performs KeyRequest.handle at hstep
  dsimp only at hstep
  cases request with
  | replicateKey ref replicaRegion =>
    dsimp only at hstep
    cases hreplicate : replicateKey lib stores context ref replicaRegion with
    | error =>
      rw [hreplicate] at hstep
      cases hstep
      exact .inl ⟨fun _ => rfl, fun _ _ _ _ h => by cases h⟩
    | ok out =>
      rw [hreplicate] at hstep
      cases hstep
      rcases replicateKey_ok hconcerns hreplicate with
        ⟨key, configuration, hkey, hconfiguration, hfree, hall⟩
      exact .inr (.inl ⟨ref, replicaRegion, key, configuration, out.1, rfl, rfl, hkey,
        hconfiguration, hfree, hall⟩)
  | encrypt =>
    cases hstep
    exact .inl ⟨fun _ => rfl, fun _ _ _ h => by cases h⟩
  | rotateKeyOnDemand ref entropy =>
    rcases of_orUnchanged hstep with ⟨r, hok, rfl⟩ | rfl
    · rcases Action.ok_of_bind hok with ⟨⟨account, region, key⟩, hlocate, hok⟩
      rcases locateKey_ok hlocate with ⟨hparse, hkey, _⟩
      have hparse' : parseKeyId context ref =
          .ok (primary.account, primary.region, primary.keyId) := hconcerns
      rw [hparse', Except.ok.injEq, Prod.mk.injEq, Prod.mk.injEq] at hparse
      rcases hparse with ⟨rfl, rfl, hid⟩
      rw [← hid] at hkey
      dsimp only at hok
      split at hok
      · cases hok
      rcases Action.ok_of_bind hok with ⟨_, _, hok⟩
      rcases Action.ok_of_bind hok with ⟨_, _, hok⟩
      rcases Action.ok_of_bind hok with ⟨key', hrotate, hok⟩
      cases hok
      refine .inr (.inr ⟨ref, key, key', entropy, rfl, hkey, hrotate, fun place => ?_⟩)
      have hid' : key'.metadata.keyId = primary.keyId := by
        rw [KmsKey.rotateKeyOnDemand_ok hrotate]
        exact hid.symm
      rw [key?_setKey, hid']
    · exact .inl ⟨fun _ => rfl, fun _ _ _ h => by cases h⟩
  | createKey request draws | scheduleKeyDeletion ref window now | cancelKeyDeletion ref
  | disableKey ref | enableKey ref | decrypt blob encryptionContext ref
  | getParametersForImport ref algorithm spec token entropy
  | importKeyMaterial ref token encryptedKeyMaterial validTo model
  | deleteImportedKeyMaterial => exact hconcerns.elim

/-! ### Members -/

theorem members_of_configuration {key : KmsKey} {configuration : MultiRegionConfiguration}
    (hkey : stores.key? primary = some key)
    (hconfiguration : key.metadata.multiRegionConfiguration = some configuration) :
    members stores primary =
      primary.region :: configuration.replicaKeys.map MultiRegionKey.region := by
  rw [members, hkey, Option.bind_some, hconfiguration]
  rfl

theorem inRegion_eq_iff (region region' : String) :
    primary.inRegion region = primary.inRegion region' ↔ region = region' := by
  constructor
  · exact fun h => congrArg Place.region h
  · exact fun h => congrArg primary.inRegion h

theorem inRegion_eq_primary_iff (region : String) :
    primary.inRegion region = primary ↔ region = primary.region :=
  @inRegion_eq_iff primary region primary.region

theorem members_step {call : Call} (hstep : Performs lib stores call stores')
    (hconcerns : Concerns primary call) (region : String) :
    region ∈ members stores' primary ↔ region ∈ members stores primary ∨
      ∃ ref r, call.request = .replicateKey ref region ∧ call.result = .ok r := by
  rcases concerned_step hstep hconcerns with ⟨hsame, hnot⟩ |
      ⟨ref, replicaRegion, key, configuration, r, hrequest, hresult, hkey,
        hconfiguration, -, hall⟩ |
      ⟨ref, key, key', entropy, hrequest, hkey, hrotate, hall⟩
  · unfold members
    rw [hsame]
    refine (or_iff_left ?_).symm
    rintro ⟨ref, r, hrequest, hresult⟩
    exact hnot ref region r hrequest hresult
  · have hprimary := hall primary
    rw [if_pos rfl] at hprimary
    have hconfiguration' : (updatePrimaryKeyWithReplicaKeys key
        ⟨kmsKeyArn lib primary.keyId primary.account replicaRegion,
          replicaRegion⟩).metadata.multiRegionConfiguration = some { configuration with
            replicaKeys := configuration.replicaKeys ++
              [⟨kmsKeyArn lib primary.keyId primary.account replicaRegion, replicaRegion⟩] } := by
      simp only [updatePrimaryKeyWithReplicaKeys, hconfiguration, Option.map_some]
    rw [members_of_configuration hprimary hconfiguration',
      members_of_configuration hkey hconfiguration, map_append, ← cons_append,
      mem_append, hrequest, hresult]
    refine or_congr_right ?_
    constructor
    · intro hregion
      exact ⟨ref, r, by rw [List.mem_singleton.mp hregion], rfl⟩
    · rintro ⟨_, _, hsame, -⟩
      injection hsame with _ hregion
      rw [hregion]
      exact mem_singleton_self _
  · have hprimary := hall primary
    rw [if_pos rfl] at hprimary
    have hsame : members stores' primary = members stores primary := by
      rw [members, members, hprimary, hkey, KmsKey.rotateKeyOnDemand_ok hrotate]
      rfl
    rw [hsame, hrequest]
    refine (or_iff_left ?_).symm
    rintro ⟨_, _, h, -⟩
    cases h

theorem mem_members {start : KmsStores} {key : KmsKey} {calls : List Call}
    (hkey : MultiRegion primary start key) (hrun : Runs (Performs lib) start calls stores)
    (hconcerns : ∀ call ∈ calls, Concerns primary call) (region : String) :
    region ∈ members stores primary ↔ Replicated primary calls region := by
  have hstart : ∀ region, region ∈ members start primary ↔ Replicated primary [] region := by
    intro region
    rw [members_of_configuration hkey.found hkey.configuration]
    simp [Replicated]
  have hlisted := Runs.history (P := fun calls stores => (∀ call ∈ calls, Concerns primary call) →
      ∀ region, region ∈ members stores primary ↔ Replicated primary calls region) ?_ hrun []
    (fun _ => hstart)
  · exact hlisted hconcerns _
  · intro calls s call t ih hstep hconcerns region
    rw [members_step hstep (hconcerns _ (List.mem_append.mpr (.inr mem_cons_self))),
      ih (fun c hc => hconcerns c (List.mem_append.mpr (.inl hc)))]
    unfold Replicated
    rw [or_assoc]
    refine or_congr_right ?_
    constructor
    · rintro (⟨c, hc, hcall⟩ | hcall)
      · exact ⟨c, List.mem_append.mpr (.inl hc), hcall⟩
      · exact ⟨call, List.mem_append.mpr (.inr mem_cons_self), hcall⟩
    · rintro ⟨c, hc, hcall⟩
      rcases List.mem_append.mp hc with hc | hc
      · exact .inl ⟨c, hc, hcall⟩
      · rw [List.mem_singleton.mp hc] at hcall
        exact .inr hcall

/-! ### What all copies have -/

/-- All copies are there and have a property. -/
def Everywhere (primary : Place) (P : KmsKey → Prop) (stores : KmsStores) : Prop :=
  ∀ region ∈ members stores primary,
    ∃ copy, stores.key? (primary.inRegion region) = some copy ∧ P copy

/-- A property that copies get from their original, and keep. -/
structure Inherited (lib : Library) (P : KmsKey → Prop) : Prop where
  listed : ∀ key replica, P key → P (updatePrimaryKeyWithReplicaKeys key replica)
  copied : ∀ key account region, P key → P (key.replicateMetadata lib account region)
  rotated : ∀ key key' entropy, P key → key.rotateKeyOnDemand lib entropy = .ok key' → P key'

theorem primary_mem (stores : KmsStores) : primary.region ∈ members stores primary :=
  mem_cons_self

/-- What all copies have, a new copy has as well. -/
theorem everywhere_step {P : KmsKey → Prop} (hinherited : Inherited lib P) {call : Call}
    (hstep : Performs lib stores call stores') (hconcerns : Concerns primary call)
    (h : Everywhere primary P stores) : Everywhere primary P stores' := by
  intro region hregion
  rw [members_step hstep hconcerns] at hregion
  rcases h primary.region (primary_mem stores) with ⟨original, horiginal, hP⟩
  have horiginal : stores.key? primary = some original := horiginal
  rcases concerned_step hstep hconcerns with ⟨hsame, hnot⟩ |
      ⟨ref, replicaRegion, key, configuration, r, hrequest, hresult, hkey,
        hconfiguration, -, hall⟩ |
      ⟨ref, key, key', entropy, hrequest, hkey, hrotate, hall⟩
  · rcases hregion with hregion | ⟨ref, r, hrequest, hresult⟩
    · rw [hsame]
      exact h _ hregion
    · exact absurd hresult (hnot ref region r hrequest)
  · rw [horiginal] at hkey
    cases hkey
    rw [hall]
    by_cases hprimary : primary.inRegion region = primary
    · rw [if_pos hprimary]
      exact ⟨_, rfl, hinherited.listed _ _ hP⟩
    rw [if_neg hprimary]
    by_cases hreplica : primary.inRegion region = primary.inRegion replicaRegion
    · rw [if_pos hreplica]
      exact ⟨_, rfl, hinherited.copied _ _ _ hP⟩
    rw [if_neg hreplica]
    rcases hregion with hregion | ⟨_, _, hsame, -⟩
    · exact h _ hregion
    · rw [hrequest] at hsame
      injection hsame with _ hsame
      exact absurd (congrArg primary.inRegion hsame.symm) hreplica
  · rw [horiginal] at hkey
    cases hkey
    rw [hall]
    by_cases hprimary : primary.inRegion region = primary
    · rw [if_pos hprimary]
      exact ⟨_, rfl, hinherited.rotated _ _ _ hP hrotate⟩
    rw [if_neg hprimary]
    rcases hregion with hregion | ⟨_, _, hsame, -⟩
    · exact h _ hregion
    · rw [hrequest] at hsame
      cases hsame

theorem everywhere_run {P : KmsKey → Prop} (hinherited : Inherited lib P) {calls : List Call}
    (hrun : Runs (Performs lib) stores calls stores')
    (hconcerns : ∀ call ∈ calls, Concerns primary call) (h : Everywhere primary P stores) :
    Everywhere primary P stores' :=
  Runs.invariant_of (P := Everywhere primary P) (C := Concerns primary)
    (fun _ _ _ hcall hs hstep => everywhere_step hinherited hstep hcall hs) hrun hconcerns h

/-- A key has the state and the usage of another one, and its materials are AES keys. -/
structure KmsKey.Copies (copy key : KmsKey) : Prop where
  keyState : copy.metadata.keyState = key.metadata.keyState
  keyUsage : copy.metadata.keyUsage = key.metadata.keyUsage
  usable : ∀ m ∈ copy.keysToTry, IsUsable m
  pending : ∀ m ∈ given copy.cryptoKey.pendingKeyMaterial, IsAesKey m.bytes

theorem inherited_copies (lib : Library) (key : KmsKey) :
    Inherited lib fun copy => copy.Copies key where
  listed _ _ h := ⟨h.keyState, h.keyUsage, h.usable, h.pending⟩
  copied _ _ _ h := ⟨h.keyState, h.keyUsage, h.usable, h.pending⟩
  rotated copy copy' entropy h hrotate := by
    have haes := isUsable_given entropy.material h.pending
    rw [KmsKey.rotateKeyOnDemand_ok hrotate]
    refine ⟨h.keyState, h.keyUsage, ?_, nofun⟩
    intro m hm
    rcases List.mem_cons.mp hm with rfl | hm
    · exact ⟨_, rfl, haes⟩
    · rcases List.mem_append.mp hm with hm | hm
      · exact h.usable m (mem_cons_of_mem _ hm)
      · rw [List.mem_singleton.mp hm]
        exact h.usable _ mem_cons_self

theorem inherited_holds (lib : Library) (material : Bytes) :
    Inherited lib fun copy => copy.Holds material where
  listed _ _ h := h
  copied _ _ _ h := h
  rotated copy copy' entropy h hrotate := by
    rcases h with ⟨m, hm, hbytes⟩
    rw [KmsKey.rotateKeyOnDemand_ok hrotate]
    refine ⟨m, mem_cons_of_mem _ (List.mem_append.mpr ?_), hbytes⟩
    rcases List.mem_cons.mp hm with rfl | hm
    · exact .inr mem_cons_self
    · exact .inl hm

/-! ### Configurations -/

/-- All copies name the same primary key and the same replicas. -/
def Agree (primary : Place) (arn : KeyArn) (stores : KmsStores) : Prop :=
  ∃ key replicas, stores.key? primary = some key ∧ key.metadata.arn = arn ∧
    ∀ region ∈ members stores primary, ∃ copy type,
      stores.key? (primary.inRegion region) = some copy ∧
        copy.metadata.multiRegionConfiguration = some ⟨type, ⟨arn, primary.region⟩, replicas⟩

/-- The configurations agree while there is one replica. -/
theorem agree_step {arn : KeyArn} {call : Call} (hstep : Performs lib stores call stores')
    (hconcerns : Concerns primary call) (hsingle : Single primary stores call)
    (h : Agree primary arn stores) : Agree primary arn stores' := by
  rcases h with ⟨original, replicas, horiginal, harn, hagree⟩
  rcases hagree primary.region (primary_mem stores) with ⟨_, type, hsame, hown⟩
  rw [show stores.key? (primary.inRegion primary.region) = some original from horiginal] at hsame
  cases hsame
  rcases concerned_step hstep hconcerns with ⟨hsame, hnot⟩ |
      ⟨ref, replicaRegion, key, configuration, r, hrequest, hresult, hkey, -, hfree, hall⟩ |
      ⟨ref, key, key', entropy, hrequest, hkey, hrotate, hall⟩
  · refine ⟨original, replicas, by rw [hsame, horiginal], harn, fun region hregion => ?_⟩
    rw [members_step hstep hconcerns] at hregion
    rcases hregion with hregion | ⟨ref, r, hrequest, hresult⟩
    · rw [hsame]
      exact hagree _ hregion
    · exact absurd hresult (hnot ref region r hrequest)
  · rw [horiginal] at hkey
    cases hkey
    unfold Single at hsingle
    rw [hrequest] at hsingle
    dsimp only at hsingle
    rw [hfree] at hsingle
    have halone := hsingle.resolve_right nofun
    have hnone : replicas = [] := by
      rw [members_of_configuration horiginal hown, List.cons.injEq] at halone
      exact List.map_eq_nil_iff.mp halone.2
    subst hnone
    have hprimary := hall primary
    rw [if_pos rfl] at hprimary
    refine ⟨_, [⟨kmsKeyArn lib primary.keyId primary.account replicaRegion, replicaRegion⟩],
      hprimary, harn, fun region hregion => ?_⟩
    rw [members_step hstep hconcerns, halone] at hregion
    rw [hall]
    by_cases hregion' : primary.inRegion region = primary
    · rw [if_pos hregion']
      refine ⟨_, type, rfl, ?_⟩
      simp only [updatePrimaryKeyWithReplicaKeys, hown, Option.map_some, nil_append]
    rw [if_neg hregion']
    have hreplica : region = replicaRegion := by
      rcases hregion with hregion | ⟨_, _, hsame, -⟩
      · exact absurd ((inRegion_eq_primary_iff _).mpr (List.mem_singleton.mp hregion)) hregion'
      · rw [hrequest] at hsame
        injection hsame with _ hsame
        exact hsame.symm
    rw [if_pos (congrArg primary.inRegion hreplica)]
    refine ⟨_, .replica, rfl, ?_⟩
    simp only [KmsKey.replicateMetadata, hown, Option.map_some, nil_append, harn,
      stores.keyId_of_key? horiginal]
  · rw [horiginal] at hkey
    cases hkey
    have hprimary := hall primary
    rw [if_pos rfl] at hprimary
    have hmetadata := KmsKey.rotateKeyOnDemand_ok hrotate
    refine ⟨key', replicas, hprimary, by rw [hmetadata]; exact harn, fun region hregion => ?_⟩
    rw [members_step hstep hconcerns] at hregion
    rw [hall]
    by_cases hregion' : primary.inRegion region = primary
    · rw [if_pos hregion']
      exact ⟨key', type, rfl, by rw [hmetadata]; exact hown⟩
    rw [if_neg hregion']
    rcases hregion with hregion | ⟨_, _, hsame, -⟩
    · exact hagree _ hregion
    · rw [hrequest] at hsame
      cases hsame

/-! ### Runs -/

/-- A primary key is replicated and rotated, and the copies encrypt. What a copy encrypted is
    decrypted in every region that the key is replicated to, if at that time all copies had
    the material. The configurations agree, if the key is replicated once. -/
theorem replicas_interchangeable (lib : Library) (hlib : lib.Authentic) (primary : Place)
    (start stores : KmsStores) (key : KmsKey) (hkey : MultiRegion primary start key)
    (calls : List Call) (hrun : Runs (Performs lib) start calls stores)
    (hconcerns : ∀ call ∈ calls, Concerns primary call) :
    (Along (Performs lib) (Shared primary) start calls →
      ∀ before call after region plaintext encryptionContext blob,
        calls = before ++ call :: after → Replicated primary before region →
        call.Encrypted (primary.inRegion region) plaintext encryptionContext blob →
        ∀ region', Replicated primary calls region' →
          ∃ copy, stores.key? (primary.inRegion region') = some copy ∧
            ∀ context ref, Finds context ref (primary.inRegion region') →
              (KeyRequest.decrypt blob encryptionContext ref).handle lib stores context =
                (.ok (.plaintext copy.metadata.arn plaintext), stores)) ∧
    (Along (Performs lib) (Single primary) start calls →
      ∃ replicas, ∀ region, Replicated primary calls region → ∃ copy type,
        stores.key? (primary.inRegion region) = some copy ∧
          copy.metadata.multiRegionConfiguration =
            some ⟨type, ⟨key.metadata.arn, primary.region⟩, replicas⟩) := by
  have hstart : members start primary = [primary.region] :=
    members_of_configuration hkey.found hkey.configuration
  constructor
  · intro hshared before call after region plaintext encryptionContext blob hcalls hreplicated
      hencrypted region' hreplicated'
    have hlisted := (mem_members hkey hrun hconcerns _).mpr hreplicated'
    subst hcalls
    rcases Runs.split _ _ hrun with ⟨s, hbefore, hrest⟩
    have hconcerns' : ∀ c ∈ before, Concerns primary c := fun c hc =>
      hconcerns c (List.mem_append.mpr (.inl hc))
    have hregion := (mem_members hkey hbefore hconcerns' _).mpr hreplicated
    have hcopies : Everywhere primary (fun copy => copy.Copies key) s := by
      refine everywhere_run (inherited_copies _ _) hbefore hconcerns' ?_
      intro region hregion
      rw [hstart, mem_singleton] at hregion
      subst hregion
      exact ⟨key, hkey.found, rfl, rfl, hkey.usable, hkey.pending⟩
    have hcall := Runs.along_head (Runs.along_append hshared hbefore)
    cases hrest with
    | cons _ t _ _ _ hstep hafter =>
      rcases encrypted_spec hstep hencrypted with
        ⟨rfl, first, material, hfirst, hstate, husage, hmaterial, haes, hblob⟩
      -- All copies have the material, and all later copies get it.
      have hholds : Everywhere primary (fun copy => copy.Holds material.bytes) t := by
        intro region'' hregion''
        rcases hcopies _ hregion'' with ⟨copy, hcopy, -⟩
        refine ⟨copy, hcopy, ?_⟩
        rcases hencrypted with ⟨ref, algorithm, iv, arn, hrequest, hparse, -⟩
        unfold Shared at hcall
        rw [hrequest] at hcall
        exact hcall (primary.account, region, primary.keyId) (by rw [hparse]; rfl) hregion _
          hfirst _ hmaterial _ hregion'' _ hcopy
      have hconcerns'' : ∀ c ∈ after, Concerns primary c := fun c hc =>
        hconcerns c (List.mem_append.mpr (.inr (mem_cons_of_mem _ hc)))
      have hcopies' := everywhere_run (inherited_copies _ _) hafter hconcerns'' hcopies
      have hholds' := everywhere_run (inherited_holds _ _) hafter hconcerns'' hholds
      rcases hcopies _ hregion with ⟨_, hsame, hfirstCopies⟩
      rw [hfirst] at hsame
      cases hsame
      rcases hcopies' _ hlisted with ⟨copy, hcopy, hlast⟩
      rcases hholds' _ hlisted with ⟨_, hsame, hlastHolds⟩
      rw [hcopy] at hsame
      cases hsame
      refine ⟨copy, hcopy, fun context ref hfinds => ?_⟩
      have henabled : copy.metadata.keyState = .enabled := by
        rw [hlast.keyState, ← hfirstCopies.keyState, hstate]
      have husage' : copy.metadata.keyUsage = .encryptDecrypt := by
        rw [hlast.keyUsage, ← hfirstCopies.keyUsage, husage]
      rw [KeyRequest.handle, decrypt_enabled hlib hfinds hkey.keyId hcopy henabled husage'
        hlast.usable haes hblob hlastHolds]
  · intro hsingle
    have hagree : Agree primary key.metadata.arn stores := by
      refine Runs.invariant_along (C := fun s call => Concerns primary call ∧ Single primary s call)
        (fun s c t hc hs hst => agree_step hst hc.1 hc.2 hs) hrun ?_ ?_
      · intro before c after t hcalls hbefore
        refine ⟨hconcerns c ?_, hsingle _ c _ t hcalls hbefore⟩
        rw [hcalls]
        exact List.mem_append.mpr (.inr mem_cons_self)
      · refine ⟨key, [], hkey.found, rfl, fun region hregion => ?_⟩
        rw [hstart, mem_singleton] at hregion
        subst hregion
        exact ⟨key, .primary, hkey.found, hkey.configuration⟩
    rcases hagree with ⟨-, replicas, -, -, hagree⟩
    exact ⟨replicas, fun region hregion =>
      hagree _ ((mem_members hkey hrun hconcerns _).mpr hregion)⟩

/-! ### Examples -/

def examplePrimary : Place :=
  ⟨"000000000000", "us-east-1", "mrk-".toList ++ exampleUuid.hex⟩

def exampleStart : KmsStores :=
  (drive (perform exampleLibrary) KmsStores.initial
    [(exampleContext, .createKey ⟨true, none, none, none, none, none, none⟩
      ⟨exampleUuid, exampleUuid, exampleEntropy 1⟩)]).1

def exampleReplication (region : String) : RequestContext × KeyRequest :=
  (exampleContext, .replicateKey (.id examplePrimary.keyId) region)

def exampleRotation : RequestContext × KeyRequest :=
  (exampleContext, .rotateKeyOnDemand (.id examplePrimary.keyId) (exampleEntropy 6))

def exampleEncryption (region : String) : RequestContext × KeyRequest :=
  (⟨"000000000000", region⟩, .encrypt (.id examplePrimary.keyId) [1, 2, 3] none none exampleIv)

def exampleMultiRegionBlob (byte : UInt8) : Bytes :=
  serializeCiphertextBlob ⟨examplePrimary.keyId, exampleIv.val,
    (32 :: replicate 32 byte) ++ pad [1, 2, 3], replicate 16 0⟩

def exampleMultiRegionRun : KmsStores × List Call :=
  drive (perform exampleLibrary) exampleStart
    [exampleReplication "eu-west-1", exampleEncryption "eu-west-1", exampleRotation]

def exampleDrift : KmsStores × List Call :=
  drive (perform exampleLibrary) exampleStart
    [exampleReplication "eu-west-1", exampleRotation, exampleEncryption "us-east-1",
      exampleReplication "us-west-2"]

def exampleMultiRegionKey : KmsKey where
  metadata :=
    { keyId := examplePrimary.keyId
      arn := kmsKeyArn exampleLibrary examplePrimary.keyId "000000000000" "us-east-1"
      origin := .awsKms
      keySpec := .symmetricDefault
      keyUsage := .encryptDecrypt
      enabled := true
      keyState := .enabled
      deletionDate := none
      expirationModel := none
      currentKeyMaterialId := some "00000000"
      multiRegionConfiguration := some ⟨.primary,
        ⟨kmsKeyArn exampleLibrary examplePrimary.keyId "000000000000" "us-east-1", "us-east-1"⟩,
        []⟩ }
  cryptoKey := ⟨.symmetricDefault, some ⟨replicate 32 1, false⟩, none, none⟩
  previousKeys := []
  internalKeyId := exampleUuid

theorem multiRegion_exampleStart :
    MultiRegion examplePrimary exampleStart exampleMultiRegionKey where
  found := by decide +kernel
  configuration := rfl
  usable m hm := by
    rw [List.mem_singleton.mp hm]
    exact ⟨_, rfl, .inr (.inr rfl)⟩
  pending := nofun
  keyId := by decide +kernel

theorem replicas_interchangeable_of_exampleMultiRegionRun :
    (exampleMultiRegionRun.2[1]?).map Call.result = some (.ok (.ciphertextBlob
      (kmsKeyArn exampleLibrary examplePrimary.keyId "000000000000" "eu-west-1")
      (exampleMultiRegionBlob 1))) ∧
    (∃ copy, exampleMultiRegionRun.1.key? examplePrimary = some copy ∧
      (KeyRequest.decrypt (exampleMultiRegionBlob 1) none none).handle exampleLibrary
        exampleMultiRegionRun.1 exampleContext =
          (.ok (.plaintext copy.metadata.arn [1, 2, 3]), exampleMultiRegionRun.1)) ∧
    ∃ replicas copy type,
      exampleMultiRegionRun.1.key? (examplePrimary.inRegion "eu-west-1") = some copy ∧
        copy.metadata.multiRegionConfiguration =
          some ⟨type, ⟨exampleMultiRegionKey.metadata.arn, "us-east-1"⟩, replicas⟩ := by
  have hencrypted : (exampleMultiRegionRun.2[1]?).map Call.result = some (.ok (.ciphertextBlob
      (kmsKeyArn exampleLibrary examplePrimary.keyId "000000000000" "eu-west-1")
      (exampleMultiRegionBlob 1))) := by decide +kernel
  have hreplicated : (exampleMultiRegionRun.2[0]?).map Call.result = some (.ok (.keyMetadata
      { (exampleMultiRegionKey.replicateMetadata exampleLibrary "000000000000"
        "eu-west-1").metadata with currentKeyMaterialId := none })) := by decide +kernel
  have hcalls : exampleMultiRegionRun.2 =
      [⟨exampleContext, (exampleReplication "eu-west-1").2, _⟩,
        ⟨⟨"000000000000", "eu-west-1"⟩, (exampleEncryption "eu-west-1").2, _⟩,
        ⟨exampleContext, exampleRotation.2, _⟩] := rfl
  rcases replicas_interchangeable _ authentic_exampleLibrary _ _
    exampleMultiRegionRun.1 _ multiRegion_exampleStart exampleMultiRegionRun.2
    (runs_perform _ _ _) (by
      intro call hcall
      rcases List.mem_cons.mp hcall with rfl | hcall
      · exact ⟨rfl, rfl⟩
      rcases List.mem_cons.mp hcall with rfl | hcall
      · exact ⟨"eu-west-1", rfl⟩
      rw [List.mem_singleton.mp hcall]
      rfl) with ⟨hdecrypts, hagree⟩
  have heu (calls : List Call) : Replicated examplePrimary
      (⟨exampleContext, (exampleReplication "eu-west-1").2, _⟩ :: calls) "eu-west-1" :=
    .inr ⟨_, mem_cons_self, _, _, rfl, Option.some.inj hreplicated⟩
  refine ⟨by rw [hcalls]; exact hencrypted, ?_, ?_⟩
  · rcases hdecrypts (along_perform _ _ _ _ (by decide +kernel)) [_] _ _ "eu-west-1" [1, 2, 3] _
      _ hcalls (heu []) ⟨_, _, _, _, rfl, rfl, Option.some.inj hencrypted⟩
      _ (.inl rfl) with ⟨copy, hcopy, hdecrypt⟩
    exact ⟨copy, hcopy, hdecrypt _ _ rfl⟩
  · rcases hagree (along_perform _ _ _ _ (by decide +kernel)) with ⟨replicas, hall⟩
    rcases hall "eu-west-1" (by rw [hcalls]; exact heu _) with ⟨copy, type, hcopy, hconfiguration⟩
    exact ⟨replicas, copy, type, hcopy, hconfiguration⟩

/-- A replica that was made before a rotation does not decrypt what the primary key encrypts
    then, and does not know of a further replica. -/
theorem replicas_drift_of_exampleDrift :
    Runs (Performs exampleLibrary) exampleStart exampleDrift.2 exampleDrift.1 ∧
    (exampleDrift.2[2]?).map Call.result = some (.ok (.ciphertextBlob
      (kmsKeyArn exampleLibrary examplePrimary.keyId "000000000000" "us-east-1")
      (exampleMultiRegionBlob 6))) ∧
    ((KeyRequest.decrypt (exampleMultiRegionBlob 6) none none).handle exampleLibrary
      exampleDrift.1 ⟨"000000000000", "eu-west-1"⟩).1 = .error (.invalidCiphertext "") ∧
    (["us-east-1", "eu-west-1", "us-west-2"].map fun region =>
      (exampleDrift.1.key? (examplePrimary.inRegion region)).bind fun copy =>
        copy.metadata.multiRegionConfiguration.map fun configuration =>
          configuration.replicaKeys.map MultiRegionKey.region) =
      [some ["eu-west-1", "us-west-2"], some ["eu-west-1"], some ["eu-west-1", "us-west-2"]] := by
  refine ⟨runs_perform _ _ _, by decide +kernel, ?_, by decide +kernel⟩
  rw [KeyRequest.handle, decryptBlob, exampleMultiRegionBlob,
    deserialize_serialize _ (by decide +kernel) rfl rfl]
  decide +kernel

end LocalEmu.Kms
