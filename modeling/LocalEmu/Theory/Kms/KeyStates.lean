import LocalEmu.Theory.Kms.KeySteps

/-!
# The States of Keys

Every key of every account through all operations. A key is flagged as enabled exactly
when its state says so. The rest depends on the calls: `EnableKey` does not ask for the
material of an external key, an import does not ask for whom its token was issued, and
it writes to the metadata before it has checked everything.
-/

namespace LocalEmu.Kms

open List Option

variable {lib : Library} {stores stores' : KmsStores} {place : Place}

/-! ### Keys -/

/-- Some material in the key was imported. -/
def KmsKey.HoldsImported (key : KmsKey) : Prop :=
  ∃ m ∈ [key.cryptoKey.keyMaterial, key.cryptoKey.pendingKeyMaterial, key.cryptoKey.privateKey],
    m.map Material.imported = some true

instance (key : KmsKey) : Decidable key.HoldsImported :=
  inferInstanceAs (Decidable (∃ m ∈ _, _))

/-- The flag agrees with the state, pending material was imported, and an external key is
    enabled only with imported material. -/
structure KmsKey.Regular (key : KmsKey) : Prop where
  flag : key.metadata.enabled = true ↔ key.metadata.keyState = .enabled
  spec : key.cryptoKey.keySpec = key.metadata.keySpec
  pending : ∀ m, key.cryptoKey.pendingKeyMaterial = some m → m.imported = true
  held : key.metadata.origin = .external → key.metadata.keyState = .enabled → key.HoldsImported

def AllRegular (stores : KmsStores) : Prop :=
  ∀ place key, stores.key? place = some key → key.Regular

/-- What the operations do not check themselves. A key is created under an id that is not
    taken, an external key is enabled or rotated only with imported material that is not empty,
    and a token is used for the key that it was issued for. An import that fails its checks
    gives the expiration model that the key has, and one whose material cannot be loaded gives
    it to a key that is already enabled. -/
def Proper (lib : Library) (stores : KmsStores) (call : Call) : Prop :=
  match call.request with
  | .createKey request draws =>
    stores.key? ⟨call.context.account, call.context.region, newKeyId request draws.uuid⟩ = none
  | .enableKey ref =>
    ∀ key ∈ stores.key? ⟨call.context.account, call.context.region, ref.keyId⟩,
      key.metadata.origin = .external → key.HoldsImported
  | .rotateKeyOnDemand ref _ =>
    ∀ p ∈ (parseKeyId call.context ref).toOption, ∀ key ∈ stores.key? ⟨p.1, p.2.1, p.2.2⟩,
      key.metadata.origin = .external →
        ∀ m ∈ key.cryptoKey.pendingKeyMaterial, m.bytes ≠ []
  | .importKeyMaterial ref importToken encryptedKeyMaterial validTo expirationModel =>
    (∀ importState ∈
        (stores call.context.account call.context.region).imports.get? importToken,
      importState.keyId = ref.keyId) ∧
    ∀ out ∈ (unwrapForImport lib stores call.context ref importToken encryptedKeyMaterial).toOption,
      let model := expirationModel.getD .keyMaterialExpires
      let fails := (model = .keyMaterialExpires ∧ validTo = none) ∨
        (given out.1.cryptoKey.pendingKeyMaterial).isSome = true
      (fails → out.1.metadata.expirationModel = some model) ∧
      (out.1.metadata.keySpec ≠ .symmetricDefault → out.1.metadata.keySpec.isHmac = false →
        lib.loadDerPrivateKey out.2 = none → ¬fails →
        out.1.metadata.expirationModel = some model ∧ out.1.metadata.keyState = .enabled)
  | _ => True

instance (lib : Library) (stores : KmsStores) (call : Call) :
    Decidable (Proper lib stores call) := by
  apply KeyRequest.casesOn (motive := fun request =>
    Decidable (Proper lib stores ⟨call.context, request, call.result⟩)) call.request <;>
  intros <;> dsimp only [Proper] <;> infer_instance

/-! ### Steps -/

theorem newCryptoKey_spec {keySpec : KeySpec} {material : Option Material} {entropy : Entropy}
    {key : KmsCryptoKey} (h : KmsCryptoKey.new lib keySpec material entropy = .ok key) :
    key.keySpec = keySpec ∧ key.pendingKeyMaterial = none := by
  rcases Action.ok_of_bind h with ⟨_, _, h⟩
  split at h
  · cases h
    exact ⟨rfl, rfl⟩
  · split at h
    · cases h
      exact ⟨rfl, rfl⟩
    · split at h
      · cases h
        exact ⟨rfl, rfl⟩
      · split at h
        · cases h
          exact ⟨rfl, rfl⟩
        · cases h

theorem KmsKey.Regular.unavailable {key key' : KmsKey} (h : key.Regular)
    (hflag : key'.metadata.enabled = false) (hstate : key'.metadata.keyState ≠ .enabled)
    (hspec : key'.cryptoKey.keySpec = key'.metadata.keySpec)
    (hpending : key'.cryptoKey.pendingKeyMaterial = key.cryptoKey.pendingKeyMaterial) :
    key'.Regular where
  flag := by
    rw [hflag]
    exact iff_of_false Bool.false_ne_true hstate
  spec := hspec
  pending m hm := h.pending m (hpending.symm.trans hm)
  held _ henabled := absurd henabled hstate

theorem regular_new {request : CreateKeyRequest} {account region : String} {draws : NewKey}
    {key : KmsKey} (h : KmsKey.new lib request account region draws = .ok key) : key.Regular := by
  rcases KmsKey.new_metadata h with ⟨metadata, hmetadata, heq⟩
  rcases populateMetadata_ok hmetadata with ⟨-, -, -, horigin, hflag, hstate, -, -⟩
  have hcrypto : key.cryptoKey.keySpec = metadata.keySpec ∧
      key.cryptoKey.pendingKeyMaterial = none := by
    rcases KmsKey.new_ok h with ⟨metadata', cryptoKey, hmetadata', hcryptoKey, hset, hunset⟩
    rw [hmetadata] at hmetadata'
    cases hmetadata'
    have hkey : key.cryptoKey = cryptoKey := by
      by_cases hid : (given (request.customKeyMaterial.map fun bytes => ⟨bytes, false⟩)).isSome =
          true ∨ metadata.origin = .awsKms ∧ metadata.keySpec = .symmetricDefault
      · rw [hset hid]
        rfl
      · rw [hunset hid]
    rw [hkey]
    exact newCryptoKey_spec hcryptoKey
  have henabled : key.metadata.enabled = metadata.enabled := by rw [heq]
  have hkeyState : key.metadata.keyState = metadata.keyState := by rw [heq]
  refine ⟨?_, ?_, ?_, ?_⟩
  · rw [henabled, hkeyState, hflag, hstate]
    by_cases hexternal : request.origin = some .external
    · simp [hexternal]
    · simp [hexternal]
  · rw [hcrypto.1, heq]
  · intro m hm
    rw [hcrypto.2] at hm
    cases hm
  · intro hexternal hstate'
    have hrequest : request.origin = some .external := by
      rw [heq, horigin] at hexternal
      cases hreq : request.origin with
      | none =>
        rw [hreq] at hexternal
        cases hexternal
      | some =>
        rw [hreq] at hexternal
        rw [← hexternal]
        rfl
    rw [hkeyState, hstate, hrequest, if_neg (not_not.mpr rfl)] at hstate'
    cases hstate'

theorem loadKeyMaterial_ok {key key' : KmsCryptoKey} {material : Bytes}
    (h : key.loadKeyMaterial lib material = .ok key') :
    key'.keySpec = key.keySpec ∧
      ((key.keySpec = .symmetricDefault ∧ key'.pendingKeyMaterial = some ⟨material, true⟩) ∨
        (key.keySpec ≠ .symmetricDefault ∧ key'.pendingKeyMaterial = key.pendingKeyMaterial ∧
          ∃ m ∈ [key'.keyMaterial, key'.pendingKeyMaterial, key'.privateKey],
            m.map Material.imported = some true)) := by
  unfold KmsCryptoKey.loadKeyMaterial at h
  split at h
  · next hspec =>
    cases h
    exact ⟨rfl, .inl ⟨hspec, rfl⟩⟩
  · next hspec =>
    split at h
    · cases h
      exact ⟨rfl, .inr ⟨hspec, rfl, _, mem_cons_self, rfl⟩⟩
    · split at h
      · cases h
        exact ⟨rfl, .inr ⟨hspec, rfl, _, mem_cons_of_mem _ (mem_cons_of_mem _ mem_cons_self), rfl⟩⟩
      · cases h

theorem import_regular {key : KmsKey} {keyMaterial : Bytes} {validTo : Option Nat}
    {expirationModel : Option ExpirationModelType} (hkey : key.Regular)
    (hload : ∀ e, given key.cryptoKey.pendingKeyMaterial = none →
      ¬(expirationModel.getD .keyMaterialExpires = .keyMaterialExpires ∧ validTo = none) →
      key.cryptoKey.loadKeyMaterial lib keyMaterial = .error e →
      key.metadata.keyState = .enabled) :
    (key.importKeyMaterial lib keyMaterial validTo expirationModel).2.Regular ∧
      (key.importKeyMaterial lib keyMaterial validTo expirationModel).2.metadata.origin =
        key.metadata.origin := by
  rcases key.importKeyMaterial_cases lib keyMaterial validTo expirationModel with
    ⟨e, _, h⟩ | ⟨e, hgiven, hmodel, hfailed, h⟩ | ⟨cryptoKey, keyMaterialId, hgiven, hloaded, h⟩
  · rw [h]
    exact ⟨⟨hkey.flag, hkey.spec, hkey.pending, hkey.held⟩, rfl⟩
  · rw [h]
    have hstate := hload e hgiven hmodel hfailed
    exact ⟨⟨iff_of_true rfl rfl, hkey.spec, hkey.pending,
      fun horigin _ => hkey.held horigin hstate⟩, rfl⟩
  · rcases loadKeyMaterial_ok hloaded with ⟨hspec, hcase⟩
    rw [h]
    rcases hcase with ⟨hsymmetric, hpending⟩ | ⟨hsymmetric, hpending, hheld⟩
    · rw [hkey.spec] at hsymmetric
      rw [if_pos hsymmetric]
      unfold KmsKey.promote
      split
      · refine ⟨⟨iff_of_true rfl rfl, hspec.trans hkey.spec, nofun, fun _ _ => ?_⟩, rfl⟩
        exact ⟨_, mem_cons_self, by rw [hpending]; rfl⟩
      · refine ⟨⟨iff_of_true rfl rfl, hspec.trans hkey.spec, ?_, fun _ _ => ?_⟩, rfl⟩
        · intro m hm
          rw [← some.inj (hpending.symm.trans hm)]
        · exact ⟨_, mem_cons_of_mem _ mem_cons_self, by rw [hpending]; rfl⟩
    · rw [hkey.spec] at hsymmetric
      rw [if_neg hsymmetric]
      refine ⟨⟨iff_of_true rfl rfl, hspec.trans hkey.spec, ?_, fun _ _ => hheld⟩, rfl⟩
      intro m hm
      exact hkey.pending m (hpending.symm.trans hm)

variable {context : RequestContext} {ref : KeyRef} {importToken : Text}
  {encryptedKeyMaterial : Bytes}

variable {expirationModel : Option ExpirationModelType} {validTo : Option Nat} {key : KmsKey}

theorem enabled_of_proper {keyMaterial : Bytes} {result : Except KmsError Response} {e : KmsError}
    (hproper : Proper lib stores ⟨context,
      .importKeyMaterial ref importToken encryptedKeyMaterial validTo expirationModel, result⟩)
    (hunwrap : unwrapForImport lib stores context ref importToken encryptedKeyMaterial =
      .ok (key, keyMaterial))
    (hkey : key.Regular) (hgiven : given key.cryptoKey.pendingKeyMaterial = none)
    (hmodel : ¬(expirationModel.getD .keyMaterialExpires = .keyMaterialExpires ∧ validTo = none))
    (hload : key.cryptoKey.loadKeyMaterial lib keyMaterial = .error e) :
    key.metadata.expirationModel = some (expirationModel.getD .keyMaterialExpires) ∧
      key.metadata.keyState = .enabled := by
  have hout := hproper.2 (key, keyMaterial) (congrArg Except.toOption hunwrap)
  unfold KmsCryptoKey.loadKeyMaterial at hload
  rw [hkey.spec] at hload
  split at hload
  · cases hload
  · next hsymmetric =>
    split at hload
    · cases hload
    · next hhmac =>
      cases hder : lib.loadDerPrivateKey keyMaterial with
      | some =>
        rw [hder] at hload
        cases hload
      | none =>
        refine hout.2 hsymmetric (Bool.eq_false_of_not_eq_true hhmac) hder ?_
        rintro (hfails | hpending)
        · exact hmodel hfails
        · dsimp only at hpending
          rw [hgiven] at hpending
          cases hpending

theorem rotate_regular {key' : KmsKey} {entropy : Entropy} (hkey : key.Regular)
    (hspec : key.metadata.keySpec = .symmetricDefault)
    (hpending : key.metadata.origin = .external →
      ∃ m, key.cryptoKey.pendingKeyMaterial = some m ∧ m.bytes ≠ [])
    (h : key.rotateKeyOnDemand lib entropy = .ok key') :
    key'.Regular ∧ key'.metadata.origin = key.metadata.origin := by
  rw [KmsKey.rotateKeyOnDemand_ok h]
  refine ⟨⟨hkey.flag, hspec.symm, nofun, fun horigin _ => ?_⟩, rfl⟩
  rcases hpending horigin with ⟨m, hm, hne⟩
  have hgiven : given key.cryptoKey.pendingKeyMaterial = some m := by
    rw [hm]
    exact if_pos (decide_eq_true hne)
  refine ⟨_, mem_cons_self, ?_⟩
  simp only [KmsKey.setCurrentKeyMaterialId, hgiven, getD_some, map_some, hkey.pending m hm]

/-- A proper call leaves every key regular, and does not take its place or change its origin. -/
theorem keyStep_regular {call : Call} (hstep : Performs lib stores call stores')
    (hproper : Proper lib stores call) (hall : AllRegular stores) (place : Place) :
    (∀ key, stores'.key? place = some key → key.Regular) ∧
      ∀ key, stores.key? place = some key →
        ∃ key', stores'.key? place = some key' ∧ key'.metadata.origin = key.metadata.origin := by
  have h := keyStep_of_performs hstep place
  have hold := hall place
  rcases call with ⟨context, request, result⟩
  dsimp only at h
  generalize stores'.key? place = new at h
  generalize hprior : stores.key? place = old at h hold
  cases h with
  | same => exact ⟨hold, fun key hkey => ⟨key, hkey, rfl⟩⟩
  | created request draws _ key hplace hid hcreate =>
    refine ⟨fun key' hkey' => ?_, fun key' hkey' => ?_⟩
    · rw [← some.inj hkey']
      exact regular_new hcreate
    · exfalso
      have hfresh : stores.key? place = none := by
        have hname : (⟨context.account, context.region, newKeyId request draws.uuid⟩ : Place) =
            place := by
          rw [hplace, ← KmsKey.new_keyId hcreate, hid]
          rfl
        rw [← hname]
        exact hproper
      rw [hprior, hkey'] at hfresh
      cases hfresh
  | scheduled ref window now days key _ _ | disabled ref key _ _ | deleted ref key _ _ =>
    have hkey := hold _ rfl
    refine ⟨?_, fun key' hkey' => ⟨_, rfl, by rw [← some.inj hkey']; rfl⟩⟩
    rintro _ ⟨⟩
    exact hkey.unavailable rfl KeyState.noConfusion hkey.spec rfl
  | cancelled ref key _ hstate =>
    have hkey := hold _ rfl
    refine ⟨?_, fun key' hkey' => ⟨_, rfl, by rw [← some.inj hkey']; rfl⟩⟩
    rintro _ ⟨⟩
    refine hkey.unavailable (Bool.eq_false_of_not_eq_true fun henabled => ?_)
      KeyState.noConfusion hkey.spec rfl
    have henabled' := hkey.flag.mp henabled
    rcases hstate with hstate | hstate
    · rw [hstate] at henabled'
      cases henabled'
    · rw [hstate] at henabled'
      cases henabled'
  | enabled ref key hname _ =>
    have hkey := hold _ rfl
    refine ⟨?_, fun key' hkey' => ⟨_, rfl, by rw [← some.inj hkey']; rfl⟩⟩
    rintro _ ⟨⟩
    refine ⟨iff_of_true rfl rfl, hkey.spec, hkey.pending, fun horigin _ => ?_⟩
    refine hproper key ?_ horigin
    rw [hname.1, hname.2]
    exact hprior
  | replica ref source key _ _ _ _ hsource =>
    have hkey := hall _ _ hsource
    refine ⟨?_, fun key' hkey' => absurd hkey' (some_ne_none _).symm⟩
    rintro _ ⟨⟩
    exact ⟨hkey.flag, hkey.spec, hkey.pending, hkey.held⟩
  | replicated ref replicaRegion replica key _ _ _ =>
    have hkey := hold _ rfl
    refine ⟨?_, fun key' hkey' => ⟨_, rfl, by rw [← some.inj hkey']; rfl⟩⟩
    rintro _ ⟨⟩
    exact ⟨hkey.flag, hkey.spec, hkey.pending, hkey.held⟩
  | imported ref importToken encryptedKeyMaterial keyMaterial validTo expirationModel key hname
      hstate hunwrap =>
      rcases import_regular (hold _ rfl) fun _ hgiven hmodel hload => (enabled_of_proper hproper
        hunwrap (hold _ rfl) hgiven hmodel hload).2 with ⟨hregular, horigin⟩
      refine ⟨?_, fun key' hkey' => ⟨_, rfl, by rw [← some.inj hkey']; exact horigin⟩⟩
      rintro _ ⟨⟩
      exact hregular
  | rotated ref entropy key key' hparse hspec _ hpending hrotate =>
    have hheld : key.metadata.origin = .external →
        ∃ m, key.cryptoKey.pendingKeyMaterial = some m ∧ m.bytes ≠ [] := by
      intro horigin
      cases hm : key.cryptoKey.pendingKeyMaterial with
      | none => exact absurd hm (hpending horigin)
      | some m =>
        exact ⟨m, rfl, hproper (place.account, place.region, place.keyId)
          (congrArg Except.toOption hparse) key hprior horigin m hm⟩
    rcases rotate_regular (hold _ rfl) hspec hheld hrotate with ⟨hregular, horigin⟩
    refine ⟨?_, fun key' hkey' => ⟨_, rfl, by rw [← some.inj hkey']; exact horigin⟩⟩
    rintro _ ⟨⟩
    exact hregular

/-! ### Import tokens -/

/-- The call issued a token for the import of material to the key in a place. -/
def Call.Issues (call : Call) (place : Place) (importToken : Text) : Prop :=
  ∃ ref algorithm spec entropy arn,
    call.request = .getParametersForImport ref algorithm spec importToken entropy ∧
    Names call.context ref place ∧ call.result = .ok (.parametersForImport arn importToken)

def KmsStores.import? (stores : KmsStores) (account region : String) (importToken : Text) :
    Option KeyImportState :=
  (stores account region).imports.get? importToken

theorem getParametersForImport_import? {algorithm : AlgorithmSpec} {spec : KeySpec} {token : Text}
    {entropy : Entropy} {r : Response}
    (h : getParametersForImport lib stores context ref algorithm spec token entropy =
      .ok (r, stores')) (account region : String) (importToken : Text)
    (importState : KeyImportState)
    (hstate : stores'.import? account region importToken = some importState) :
    stores.import? account region importToken = some importState ∨
      (token = importToken ∧ Names context ref ⟨account, region, importState.keyId⟩ ∧
        (∃ arn, r = .parametersForImport arn importToken) ∧
        ∃ key, stores.key? ⟨account, region, importState.keyId⟩ = some key ∧
          key.metadata.origin = .external) := by
  rcases Action.ok_of_bind h with ⟨key, hkey, h⟩
  rcases getKmsKey_ok hkey with ⟨hget, _⟩
  have hid := (stores context.account context.region).named _ _ hget
  split at h
  · cases h
  next horigin =>
  rcases Action.ok_of_bind h with ⟨_, _, h⟩
  rcases Action.ok_of_bind h with ⟨cryptoKey, _, h⟩
  cases h
  simp only [KmsStores.import?, KmsStores.setStore] at hstate
  split at hstate
  · next hstore =>
    rcases hstore with ⟨rfl, rfl⟩
    rcases Dict.get?_set_eq_some _ _ _ hstate with ⟨rfl, rfl⟩ | ⟨-, hstate⟩
    · rw [hid]
      exact .inr ⟨rfl, ⟨rfl, rfl⟩, ⟨_, rfl⟩, key, hget, not_not.mp horigin⟩
    · exact .inl hstate
  · exact .inl hstate

/-- Where import tokens come from. -/
theorem imports_of_performs {call : Call} (hstep : Performs lib stores call stores')
    (account region : String) (importToken : Text) (importState : KeyImportState)
    (hstate : stores'.import? account region importToken = some importState) :
    stores.import? account region importToken = some importState ∨
      (call.Issues ⟨account, region, importState.keyId⟩ importToken ∧
        ∃ key, stores.key? ⟨account, region, importState.keyId⟩ = some key ∧
          key.metadata.origin = .external) := by
  rcases keysOnly_of_performs hstep with
    hkeys | ⟨ref, algorithm, spec, token, entropy, r, hrequest, hresult, hr⟩
  · left
    rw [KmsStores.import?, ← (hkeys _ _).2.2]
    exact hstate
  · rcases getParametersForImport_import? hr _ _ _ _ hstate with
      hbefore | ⟨rfl, hnames, ⟨arn, rfl⟩, hkey⟩
    · exact .inl hbefore
    · exact .inr ⟨⟨ref, algorithm, spec, entropy, arn, hrequest, hnames, hresult⟩, hkey⟩

theorem issued_of_imports {calls : List Call}
    (hrun : Runs (Performs lib) KmsStores.initial calls stores) (account region : String)
    (importToken : Text) (importState : KeyImportState)
    (hstate : stores.import? account region importToken = some importState) :
    ∃ call ∈ calls, call.Issues ⟨account, region, importState.keyId⟩ importToken := by
  have hall : ∀ account region importToken importState,
      stores.import? account region importToken = some importState →
      ∃ call ∈ calls, call.Issues ⟨account, region, importState.keyId⟩ importToken := by
    refine Runs.history (P := fun calls stores => ∀ account region importToken importState,
      stores.import? account region importToken = some importState →
      ∃ call ∈ calls, call.Issues ⟨account, region, importState.keyId⟩ importToken)
      ?_ hrun [] ?_
    · intro is s call t hs hstep account region importToken importState hstate
      rcases imports_of_performs hstep _ _ _ _ hstate with hbefore | ⟨hissues, -⟩
      · rcases hs _ _ _ _ hbefore with ⟨issue, hmem, hissue⟩
        exact ⟨issue, mem_append.mpr (.inl hmem), hissue⟩
      · exact ⟨call, mem_append.mpr (.inr mem_cons_self), hissues⟩
    · intro account region importToken importState hstate
      cases hstate
  exact hall _ _ _ _ hstate

def TokensExternal (stores : KmsStores) : Prop :=
  ∀ account region importToken importState,
    stores.import? account region importToken = some importState →
    ∃ key, stores.key? ⟨account, region, importState.keyId⟩ = some key ∧
      key.metadata.origin = .external

theorem proper_step {call : Call} (hstep : Performs lib stores call stores')
    (hproper : Proper lib stores call) (hs : AllRegular stores ∧ TokensExternal stores) :
    AllRegular stores' ∧ TokensExternal stores' := by
  refine ⟨fun place => (keyStep_regular hstep hproper hs.1 _).1, ?_⟩
  intro account region importToken importState hstate
  have hkey : ∃ key, stores.key? ⟨account, region, importState.keyId⟩ = some key ∧
      key.metadata.origin = .external := by
    rcases imports_of_performs hstep _ _ _ _ hstate with hbefore | ⟨-, hkey⟩
    · exact hs.2 _ _ _ _ hbefore
    · exact hkey
  rcases hkey with ⟨key, hkey, horigin⟩
  rcases (keyStep_regular hstep hproper hs.1 _).2 key hkey with ⟨key', hkey', hsame⟩
  exact ⟨key', hkey', hsame.trans horigin⟩

/-! ### Imports -/

theorem setExpirationModel_self {model : Option ExpirationModelType}
    (h : key.metadata.expirationModel = model) : key.setExpirationModel model = key := by
  rw [KmsKey.setExpirationModel, ← h]

/-- An import that raises leaves the key as it was. -/
theorem import_unchanged {e : KmsError} (hstep : Performs lib stores ⟨context,
      .importKeyMaterial ref importToken encryptedKeyMaterial validTo expirationModel, .error e⟩
      stores')
    (hproper : Proper lib stores ⟨context,
      .importKeyMaterial ref importToken encryptedKeyMaterial validTo expirationModel, .error e⟩)
    (hall : AllRegular stores) (place : Place) : stores'.key? place = stores.key? place := by
  unfold Performs KeyRequest.handle importKeyMaterial at hstep
  dsimp only at hstep
  split at hstep
  · cases hstep
    rfl
  · next key keyMaterial hunwrap =>
    rcases unwrapForImport_ok hunwrap with ⟨hget, -, -⟩
    have hkey := hall _ _ hget
    rcases Prod.mk.inj hstep with ⟨hresult, rfl⟩
    have hsame : (key.importKeyMaterial lib keyMaterial validTo expirationModel).2 = key := by
      have hout := hproper.2 (key, keyMaterial) (congrArg Except.toOption hunwrap)
      rcases key.importKeyMaterial_cases lib keyMaterial validTo expirationModel with
        ⟨e, hfails, h⟩ | ⟨e, hgiven, hmodel, hfailed, h⟩ | ⟨cryptoKey, keyMaterialId, _, _, h⟩
      · rw [h]
        exact setExpirationModel_self (hout.1 hfails)
      · rw [h]
        rcases enabled_of_proper hproper hunwrap hkey hgiven hmodel hfailed with ⟨hexpires, hstate⟩
        have hflag := hkey.flag.mpr hstate
        dsimp only [KmsKey.importing]
        rw [setExpirationModel_self hexpires, KmsKey.setKeyState, ← hstate, ← hflag]
      · rw [h] at hresult
        split at hresult
        · cases hresult
        · cases hresult
    rw [hsame, key?_setKey]
    split
    · next hplace =>
      rw [hplace, stores.keyId_of_key? hget, hget]
    · rfl

/-! ### Runs -/

/-- In a run of proper calls, the states of all keys are right at every moment. An import succeeds
    only for an external key with a token issued for it, and changes nothing if it raises. -/
theorem key_states (lib : Library) (calls : List Call) (stores : KmsStores)
    (hrun : Runs (Performs lib) KmsStores.initial calls stores)
    (hproper : Along (Performs lib) (Proper lib) KmsStores.initial calls) :
    (∀ place key, stores.key? place = some key →
      (key.metadata.enabled = true ↔ key.metadata.keyState = .enabled) ∧
      (key.metadata.origin = .external → key.metadata.keyState = .enabled →
        key.HoldsImported)) ∧
    ∀ before call after s t, calls = before ++ call :: after →
      Runs (Performs lib) KmsStores.initial before s → Performs lib s call t →
      ∀ ref importToken encryptedKeyMaterial validTo expirationModel,
        call.request =
          .importKeyMaterial ref importToken encryptedKeyMaterial validTo expirationModel →
        (∀ r, call.result = .ok r →
          (∃ issue ∈ before, issue.Issues ⟨call.context.account, call.context.region, ref.keyId⟩
            importToken) ∧
          ∃ key, s.key? ⟨call.context.account, call.context.region, ref.keyId⟩ = some key ∧
            key.metadata.origin = .external) ∧
        (∀ e, call.result = .error e → ∀ place, t.key? place = s.key? place) := by
  have hsteps : ∀ s call t, Proper lib s call → AllRegular s ∧ TokensExternal s →
      Performs lib s call t → AllRegular t ∧ TokensExternal t :=
    fun s call t hcall hs hstep => proper_step hstep hcall hs
  have hstart : AllRegular KmsStores.initial ∧ TokensExternal KmsStores.initial := by
    refine ⟨fun place key hkey => ?_, fun account region importToken importState hstate => ?_⟩
    · rw [key?_initial] at hkey
      cases hkey
    · cases hstate
  constructor
  · intro place key hkey
    have hregular := (Runs.invariant_along (P := fun s => AllRegular s ∧ TokensExternal s) hsteps
      hrun hproper hstart).1 place key hkey
    exact ⟨hregular.flag, hregular.held⟩
  · intro before call after s t hcalls hbefore hstep ref importToken encryptedKeyMaterial validTo
      expirationModel hrequest
    subst hcalls
    have hs := Runs.invariant_along (P := fun s => AllRegular s ∧ TokensExternal s) hsteps hbefore
      (Runs.along_left hproper) hstart
    have hcall := hproper _ _ _ s rfl hbefore
    rcases call with ⟨context, request, result⟩
    subst hrequest
    constructor
    · rintro r hr
      subst hr
      unfold Performs KeyRequest.handle importKeyMaterial at hstep
      dsimp only at hstep
      split at hstep
      · cases hstep
      · next key keyMaterial hunwrap =>
        rcases unwrapForImport_ok hunwrap with ⟨hget, -, importState, himport, -⟩
        have hid := hcall.1 _ himport
        have hissued := issued_of_imports hbefore _ _ _ _ himport
        have hexternal := hs.2 _ _ _ _ himport
        rw [hid] at hissued hexternal
        exact ⟨hissued, hexternal⟩
    · rintro e he
      subst he
      exact import_unchanged hstep hcall hs.1

theorem key_states_of_exampleRequests :
    ∃ key, exampleRun.1.key? examplePlace = some key ∧ key.metadata.origin = .external ∧
      key.metadata.enabled = true ∧ key.HoldsImported := by
  have hstates := (key_states _ exampleRun.2 exampleRun.1 (runs_perform _ _ _)
    (along_perform _ _ _ _ (by decide +kernel))).1 examplePlace
  rcases isSome_iff_exists.mp (show (exampleRun.1.key? examplePlace).isSome = true by
    decide +kernel) with ⟨key, hkey⟩
  have hmetadata : (exampleRun.1.key? examplePlace).map
      (fun key => (key.metadata.origin, key.metadata.keyState)) = some (.external, .enabled) := by
    decide +kernel
  rw [hkey, map_some, some.injEq, Prod.mk.injEq] at hmetadata
  rcases hstates _ hkey with ⟨hflag, hheld⟩
  exact ⟨key, hkey, hmetadata.1, hflag.mpr hmetadata.2, hheld hmetadata.1 hmetadata.2⟩

/-- A key that waits for its material is enabled without any. -/
theorem enabled_without_material :
    let run := drive (perform exampleLibrary) KmsStores.initial
      [exampleCreation, (exampleContext, .enableKey (.id examplePlace.keyId))]
    Runs (Performs exampleLibrary) KmsStores.initial run.2 run.1 ∧
      (run.1.key? examplePlace).map (fun key =>
        (key.metadata.origin, key.metadata.keyState, decide key.HoldsImported)) =
          some (.external, .enabled, false) :=
  ⟨runs_perform _ _ _, by decide +kernel⟩

end LocalEmu.Kms
