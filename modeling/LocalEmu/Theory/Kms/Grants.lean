import LocalEmu.Core.Kms.Grants
import LocalEmu.Theory.Kms.Ciphertexts
import LocalEmu.Theory.Utils.PaginatedList

/-!
# Grants Are Found and Ended

The grants of all accounts in any sequence of calls. The grants of a store and its
tokens belong together whoever calls. That a token leads to its grant, and that a
grant records the ARN of its key, holds as long as grants are created by the account
that owns the key: the token and the ARN are made with the account of the caller, and
the grant is put in the store of the key.
-/

namespace LocalEmu.Kms

open List Option
open LocalEmu.Action

variable {lib : Library} {stores stores' : KmsStores}

/-! ### Tokens -/

theorem ne_colon {s : Text} (hs : ':' ∉ s) (c : Char) (hc : c ∈ s) : (c == ':') = false := by
  refine beq_false_of_ne fun heq => hs ?_
  rw [← heq]
  exact hc

theorem splitOn_colon (s t : Text) (hs : ':' ∉ s) :
    (s ++ ':' :: t).splitOn ':' = s :: t.splitOn ':' :=
  splitOnP_append_cons_of_forall_mem (ne_colon hs) ':' (beq_self_eq_true _) t

theorem colon_not_mem_uuid (uuid : Uuid) : ':' ∉ uuid.text := by
  have hhex : ':' ∉ uuid.hex := fun h => absurd (uuid.isHex ':' h) (by decide)
  have hdash : ':' ≠ '-' := by decide
  simp only [Uuid.text, mem_append, mem_cons, hdash, false_or, not_or]
  exact ⟨fun h => hhex (mem_of_mem_take h),
    fun h => hhex (mem_of_mem_drop (mem_of_mem_take h)),
    fun h => hhex (mem_of_mem_drop (mem_of_mem_take h)),
    fun h => hhex (mem_of_mem_drop (mem_of_mem_take h)),
    fun h => hhex (mem_of_mem_drop h)⟩

/-- The store that a token names. -/
theorem locateToken_grantToken (account region : String) (uid : Uuid)
    (haccount : ':' ∉ account.toList) (hregion : ':' ∉ region.toList) :
    locateToken (grantToken account region uid) = .ok (account, region) := by
  have hlast : uid.text.splitOn ':' = [uid.text] :=
    splitOnP_eq_singleton (ne_colon (colon_not_mem_uuid uid))
  rw [locateToken, grantToken, Base64.decodeStandard_encodeStandard]
  dsimp only
  rw [Text.decode_utf8]
  dsimp only
  rw [splitOn_colon _ _ haccount, splitOn_colon _ _ hregion, hlast]
  simp
  rfl

theorem grantToken_ne_nil (account region : String) (uid : Uuid) :
    grantToken account region uid ≠ [] := by
  intro h
  have hdecode := Base64.decodeStandard_encodeStandard
    (Text.utf8 (account.toList ++ ':' :: (region.toList ++ ':' :: uid.text)))
  rw [grantToken] at h
  rw [h] at hdecode
  have htext := Text.decode_utf8 (account.toList ++ ':' :: (region.toList ++ ':' :: uid.text))
  rw [← Except.ok.inj hdecode] at htext
  have hempty : Text.decode [] = some [] := Text.decode_utf8 []
  rw [hempty] at htext
  exact absurd htext.symm (by simp)

/-! ### Stores -/

/-- What holds of the grants in a store, and of the keys they are for. -/
structure Linked (lib : Library) (stores : KmsStores) (account region : String) : Prop where
  ids : ∀ id grant, (stores account region).grants.get? id = some grant → grant.grantId = id
  tokens : ∀ id grant, (stores account region).grants.get? id = some grant →
    (stores account region).grantTokens.get? grant.token = some id
  grants : ∀ token id, (stores account region).grantTokens.get? token = some id →
    ∃ grant, (stores account region).grants.get? id = some grant ∧ grant.token = token
  owned : ∀ id grant, (stores account region).grants.get? id = some grant →
    ':' ∉ account.toList ∧ ':' ∉ region.toList ∧ ∃ uid, grant.token = grantToken account region uid
  keys : ∀ id grant, (stores account region).grants.get? id = some grant →
    ∃ key, stores.key? ⟨account, region, grant.keyId⟩ = some key ∧
      grant.keyArn = key.metadata.arn ∧ grant.keyArn.keyId = grant.keyId ∧
      (patternMatch patternUuid grant.keyId || patternMatch multiRegionPattern grant.keyId) = true

/-- A call of an operation on grants, with its result. -/
structure GrantCall where
  context : RequestContext
  request : GrantRequest
  result : Except KmsError GrantResponse

def PerformsGrant (lib : Library) (stores : KmsStores) (call : GrantCall) (stores' : KmsStores) :
    Prop :=
  call.request.handle lib stores call.context = (call.result, stores')

/-- The call revoked or retired the grant of some id and token in a store. -/
def GrantCall.Ends (call : GrantCall) (account region : String) (id token : Text) : Prop :=
  call.result = .ok .none ∧
    match call.request with
    | .revokeGrant _ grantId => call.context = ⟨account, region⟩ ∧ grantId = id
    | .retireGrant token' _ grantId =>
      token' = some token ∨
        (token' ∈ [none, some []] ∧ call.context = ⟨account, region⟩ ∧ grantId = some id)
    | _ => False

/-- A new grant is created by the account that owns the key. What is drawn is new, and the names
    of accounts and regions have no colon. Nothing is asked of a call that raises, or that finds
    a grant of the same name. -/
def ByOwner (lib : Library) (stores : KmsStores) (call : GrantCall) : Prop :=
  match call.request with
  | .createGrant request grantId uid =>
    ∀ p ∈ (locateKey lib stores call.context request.ref .default).toOption,
      (validateGrantRequest request).isOk = true →
      findGrant (stores p.1 p.2.1) request.name p.2.2.metadata.keyId = none →
      call.context.account = p.1 ∧
      ':' ∉ call.context.account.toList ∧ ':' ∉ call.context.region.toList ∧
      (stores p.1 p.2.1).grants.get? grantId.text = none ∧
      (stores p.1 p.2.1).grantTokens.get?
        (grantToken call.context.account call.context.region uid) = none
  | _ => True

instance (stores : KmsStores) (call : GrantCall) : Decidable (ByOwner lib stores call) := by
  unfold ByOwner
  split <;> infer_instance

/-- A store without a grant and its token. -/
def KmsStore.dropGrant (store : KmsStore) (grant : KmsGrant) (grantId : Text) : KmsStore :=
  { store with
    grants := store.grants.erase grantId, grantTokens := store.grantTokens.erase grant.token }

/-! ### Steps -/

theorem deleteGrant_ok {store store' : KmsStore} {grantId keyId : Text}
    (h : deleteGrant store grantId keyId = .ok store') :
    ∃ grant, store.grants.get? grantId = some grant ∧ keyId = grant.keyArn.keyId ∧
      store' = store.dropGrant grant grantId := by
  unfold deleteGrant at h
  split at h
  · cases h
  · next grant hgrant =>
    split at h
    · cases h
    · next hkey =>
      split at h
      · cases h
      · cases h
        exact ⟨grant, hgrant, not_not.mp hkey, rfl⟩

variable {context : RequestContext}

variable {call : GrantCall} {account region : String}

theorem endGrant_ok {grantId : Text} {ref : Option KeyRef} {response : GrantResponse}
    (h : endGrant lib stores context account region grantId ref = .ok (response, stores')) :
    ∃ grant, (stores account region).grants.get? grantId = some grant ∧ response = .none ∧
      stores' = stores.setStore account region
        ((stores account region).dropGrant grant grantId) := by
  unfold endGrant at h
  dsimp only at h
  split at h
  · rcases ok_of_bind h with ⟨⟨_, _, key⟩, _, h⟩
    rcases ok_of_bind h with ⟨store, hstore, h⟩
    cases h
    rcases deleteGrant_ok hstore with ⟨grant, hgrant, -, rfl⟩
    exact ⟨grant, hgrant, rfl, rfl⟩
  · split at h
    · cases h
    · rcases ok_of_bind h with ⟨store, hstore, h⟩
      cases h
      rcases deleteGrant_ok hstore with ⟨grant, hgrant, -, rfl⟩
      exact ⟨grant, hgrant, rfl, rfl⟩

/-- A call changes nothing, or it adds a grant to the store of its key, or it ends one. -/
theorem grant_step (hstep : PerformsGrant lib stores call stores')
    (hlinked : ∀ account region, Linked lib stores account region) :
    stores' = stores ∨
    (∃ request grantId uid account region key granteePrincipal operations,
      call.request = .createGrant request grantId uid ∧
      locateKey lib stores call.context request.ref .default = .ok (account, region, key) ∧
      (validateGrantRequest request).isOk = true ∧
      findGrant (stores account region) request.name key.metadata.keyId = none ∧
      stores' = stores.setStore account region ((stores account region).addGrant
        (KmsGrant.new lib key.metadata.keyId granteePrincipal operations request.name
          call.context.account call.context.region grantId uid))) ∨
    (∃ account region id grant, (stores account region).grants.get? id = some grant ∧
      stores' = stores.setStore account region ((stores account region).dropGrant grant id) ∧
      call.Ends account region id grant.token) := by
  rcases call with ⟨context, request, result⟩
  unfold PerformsGrant GrantRequest.handle at hstep
  dsimp only at hstep
  cases request with
  | createGrant request grantId uid =>
    split at hstep
    · next response changed hok =>
      cases hstep
      rcases ok_of_bind hok with ⟨⟨account, region, key⟩, hlocate, hok⟩
      rcases ok_of_bind hok with ⟨⟨granteePrincipal, operations⟩, hvalid, hok⟩
      dsimp only at hok
      split at hok
      · cases hok
        exact .inl rfl
      · -- A grant with the name is not there, so that a new one is added.
        next hfind =>
        cases hok
        exact .inr (.inl ⟨request, grantId, uid, account, region, key, granteePrincipal,
          operations, rfl, hlocate, by rw [hvalid]; rfl, hfind, rfl⟩)
    · cases hstep
      exact .inl rfl
  | listGrants ref grantId granteePrincipal marker limit =>
    dsimp only at hstep
    left
    split at hstep
    · next response changed hok =>
      cases hstep
      cases hlist : listGrants lib stores context ref grantId granteePrincipal marker limit with
      | error =>
        rw [hlist] at hok
        cases hok
      | ok =>
        rw [hlist] at hok
        cases hok
        rfl
    · cases hstep
      rfl
  | revokeGrant ref grantId =>
    split at hstep
    · next response changed hok =>
      cases hstep
      rcases ok_of_bind hok with ⟨⟨_, _, key⟩, _, hok⟩
      dsimp only at hok
      split at hok
      · cases hok
      · rcases ok_of_bind hok with ⟨store, hstore, hok⟩
        cases hok
        rcases deleteGrant_ok hstore with ⟨grant, hgrant, -, rfl⟩
        exact .inr (.inr ⟨_, _, grantId, grant, hgrant, rfl, rfl, rfl, rfl⟩)
    · cases hstep
      exact .inl rfl
  | retireGrant token =>
    dsimp only at hstep
    split at hstep
    · next response changed hok =>
      cases hstep
      unfold retireGrant at hok
      split at hok
      · -- The token says in which store the grant is.
        next token' htoken =>
        rcases filter_eq_some_iff.mp htoken with ⟨rfl, -⟩
        rcases ok_of_bind hok with ⟨⟨account, region⟩, _, hok⟩
        dsimp only at hok
        split at hok
        · cases hok
        · next found hfound =>
          rcases endGrant_ok hok with ⟨grant, hgrant, rfl, rfl⟩
          -- The token belongs to the grant that it leads to.
          rcases (hlinked _ _).grants _ _ hfound with ⟨grant', hgrant', htoken'⟩
          rw [hgrant] at hgrant'
          cases hgrant'
          exact .inr (.inr ⟨account, region, found, grant, hgrant, rfl, rfl,
            .inl (by rw [htoken'])⟩)
      · next htoken =>
        split at hok
        · -- Without a token the grant is in the store of the caller.
          next id _ hid _ =>
          rcases filter_eq_some_iff.mp hid with ⟨rfl, -⟩
          rcases endGrant_ok hok with ⟨grant, hgrant, rfl, rfl⟩
          refine .inr (.inr ⟨_, _, id, grant, hgrant, rfl, rfl, .inr ⟨?_, rfl, rfl⟩⟩)
          cases token with
          | none => exact mem_cons_self
          | some =>
            rw [filter_eq_none_iff] at htoken
            have hnil := htoken _ rfl
            simp only [decide_eq_true_eq, not_not] at hnil
            rw [hnil]
            exact mem_cons_of_mem _ mem_cons_self
        · cases hok
    · cases hstep
      exact .inl rfl

def Located (lib : Library) (stores : KmsStores) : Prop :=
  ∀ place key, stores.key? place = some key →
    key.metadata.arn = kmsKeyArn lib place.keyId place.account place.region

theorem setStore_same (account region : String) (store : KmsStore) :
    stores.setStore account region store account region = store :=
  if_pos ⟨rfl, rfl⟩

theorem setStore_other {account' region' : String} (store : KmsStore)
    (h : ¬(account' = account ∧ region' = region)) :
    stores.setStore account region store account' region' = stores account' region' :=
  if_neg h

theorem key?_setStore {store : KmsStore} (h : store.keys = (stores account region).keys)
    (place : Place) :
    (stores.setStore account region store).key? place = stores.key? place := by
  unfold KmsStores.key?
  by_cases hplace : place.account = account ∧ place.region = region
  · rw [hplace.1, hplace.2, setStore_same, h]
  · rw [setStore_other _ hplace]

theorem Linked.congr (h : Linked lib stores account region)
    (hstore : stores' account region = stores account region)
    (hkeys : ∀ place, stores'.key? place = stores.key? place) :
    Linked lib stores' account region where
  ids := by
    rw [hstore]
    exact h.ids
  tokens := by
    rw [hstore]
    exact h.tokens
  grants := by
    rw [hstore]
    exact h.grants
  owned := by
    rw [hstore]
    exact h.owned
  keys := by
    rw [hstore]
    intro id grant hgrant
    rw [hkeys]
    exact h.keys id _ hgrant

variable {grant : KmsGrant}

theorem Linked.add (h : Linked lib stores account region)
    (hid : (stores account region).grants.get? grant.grantId = none)
    (htoken : (stores account region).grantTokens.get? grant.token = none)
    (howned : ':' ∉ account.toList ∧ ':' ∉ region.toList ∧
      ∃ uid, grant.token = grantToken account region uid)
    (hkey : ∃ key, stores.key? ⟨account, region, grant.keyId⟩ = some key ∧
      grant.keyArn = key.metadata.arn ∧ grant.keyArn.keyId = grant.keyId ∧
      (patternMatch patternUuid grant.keyId || patternMatch multiRegionPattern grant.keyId) =
        true) :
    Linked lib (stores.setStore account region ((stores account region).addGrant grant)) account
      region := by
  have hset (id : Text) : ((stores.setStore account region
      ((stores account region).addGrant grant)) account region).grants.get? id =
        if id = grant.grantId then some grant else (stores account region).grants.get? id := by
    rw [setStore_same]
    exact Dict.get?_set _ _ _ _
  have hsetToken (token : Text) : ((stores.setStore account region
      ((stores account region).addGrant grant)) account region).grantTokens.get? token =
        if token = grant.token then some grant.grantId
        else (stores account region).grantTokens.get? token := by
    rw [setStore_same]
    exact Dict.get?_set _ _ _ _
  have hcases (id : Text) (grant' : KmsGrant) (hget : ((stores.setStore account region
      ((stores account region).addGrant grant)) account region).grants.get? id = some grant') :
      (id = grant.grantId ∧ grant' = grant) ∨
        (id ≠ grant.grantId ∧ (stores account region).grants.get? id = some grant') := by
    rw [hset] at hget
    by_cases hsame : id = grant.grantId
    · rw [if_pos hsame, some.injEq] at hget
      exact .inl ⟨hsame, hget.symm⟩
    · rw [if_neg hsame] at hget
      exact .inr ⟨hsame, hget⟩
  refine ⟨?_, ?_, ?_, ?_, ?_⟩
  · intro id grant' hget
    rcases hcases id _ hget with ⟨rfl, rfl⟩ | ⟨-, hold⟩
    · rfl
    · exact h.ids id _ hold
  · intro id grant' hget
    rw [hsetToken]
    rcases hcases id _ hget with ⟨rfl, rfl⟩ | ⟨-, hold⟩
    · rw [if_pos rfl]
    · have hlink := h.tokens id _ hold
      have hne : grant'.token ≠ grant.token := by
        intro hsame
        rw [hsame, htoken] at hlink
        cases hlink
      rw [if_neg hne, hlink]
  · intro token id hget
    rw [hsetToken] at hget
    by_cases hsame : token = grant.token
    · rw [if_pos hsame, some.injEq] at hget
      exact ⟨grant, by rw [hset, if_pos hget.symm], hsame.symm⟩
    · rw [if_neg hsame] at hget
      rcases h.grants _ id hget with ⟨grant', hgrant', htoken'⟩
      have hne : id ≠ grant.grantId := by
        rintro rfl
        rw [hid] at hgrant'
        cases hgrant'
      exact ⟨grant', by rw [hset, if_neg hne, hgrant'], htoken'⟩
  · intro id grant' hget
    rcases hcases id _ hget with ⟨rfl, rfl⟩ | ⟨-, hold⟩
    · exact howned
    · exact h.owned id _ hold
  · intro id grant' hget
    have hkeys : ((stores account region).addGrant grant).keys = (stores account region).keys := rfl
    rw [key?_setStore hkeys]
    rcases hcases id _ hget with ⟨rfl, rfl⟩ | ⟨-, hold⟩
    · exact hkey
    · exact h.keys id _ hold

theorem Linked.drop {grantId : Text} (h : Linked lib stores account region)
    (hgrant : (stores account region).grants.get? grantId = some grant) :
    Linked lib (stores.setStore account region ((stores account region).dropGrant grant grantId))
      account region := by
  have herase (id : Text) : ((stores.setStore account region
      ((stores account region).dropGrant grant grantId)) account region).grants.get? id =
        if id = grantId then none else (stores account region).grants.get? id := by
    rw [setStore_same]
    exact Dict.get?_erase _ _ _
  have heraseToken (token : Text) : ((stores.setStore account region
      ((stores account region).dropGrant grant grantId)) account region).grantTokens.get? token =
        if token = grant.token then none
        else (stores account region).grantTokens.get? token := by
    rw [setStore_same]
    exact Dict.get?_erase _ _ _
  have hcases (id : Text) (grant' : KmsGrant) (hget : ((stores.setStore account region
      ((stores account region).dropGrant grant grantId)) account region).grants.get? id =
        some grant') :
      id ≠ grantId ∧ (stores account region).grants.get? id = some grant' := by
    rw [herase] at hget
    by_cases hsame : id = grantId
    · rw [if_pos hsame] at hget
      cases hget
    · rw [if_neg hsame] at hget
      exact ⟨hsame, hget⟩
  refine ⟨fun id grant' hget => h.ids id _ (hcases id _ hget).2, ?_, ?_,
    fun id grant' hget => h.owned id _ (hcases id _ hget).2, ?_⟩
  · intro id grant' hget
    rcases hcases id _ hget with ⟨hne, hold⟩
    have hlink := h.tokens id _ hold
    rw [heraseToken]
    have hne' : grant'.token ≠ grant.token := by
      intro hsame
      rw [hsame, h.tokens _ _ hgrant, some.injEq] at hlink
      exact hne hlink.symm
    rw [if_neg hne', hlink]
  · intro token id hget
    rw [heraseToken] at hget
    by_cases hsame : token = grant.token
    · rw [if_pos hsame] at hget
      cases hget
    · rw [if_neg hsame] at hget
      rcases h.grants _ id hget with ⟨grant', hgrant', htoken'⟩
      have hne : id ≠ grantId := by
        rintro rfl
        rw [hgrant, some.injEq] at hgrant'
        exact hsame (by rw [hgrant', htoken'])
      exact ⟨grant', by rw [herase, if_neg hne, hgrant'], htoken'⟩
  · intro id grant' hget
    have hkeys : ((stores account region).dropGrant grant grantId).keys =
        (stores account region).keys := rfl
    rw [key?_setStore hkeys]
    exact h.keys id _ (hcases id _ hget).2

theorem patternMatch_of_locateKey {ref : KeyRef} {allowed : Allowed} {key : KmsKey}
    (h : locateKey lib stores context ref allowed = .ok (account, region, key)) :
    (patternMatch patternUuid key.metadata.keyId ||
      patternMatch multiRegionPattern key.metadata.keyId) = true := by
  rcases ok_of_bind h with ⟨⟨account', region', keyId⟩, _, h⟩
  rcases ok_of_bind h with ⟨key', hkey, h⟩
  cases h
  rcases getKmsKey_ok hkey with ⟨hget, _⟩
  rw [(stores account region).named _ _ hget]
  rcases ok_of_bind hkey with ⟨found, hfound, _⟩
  rw [getKeyFromAnyId, lookUpKey] at hfound
  by_cases hpattern : (patternMatch patternUuid keyId || patternMatch multiRegionPattern keyId) =
      true
  · exact hpattern
  · rw [if_neg hpattern] at hfound
    cases hfound

theorem region_of_parseKeyId {ref : KeyRef} {keyId : Text}
    (h : parseKeyId context ref = .ok (account, region, keyId)) :
    region = context.region := by
  cases ref with
  | id =>
    cases h
    rfl
  | arn =>
    rw [parseKeyId] at h
    split at h
    · next hregion =>
      cases h
      exact hregion
    · cases h

/-- What holds before a call by the owner holds after it. -/
theorem linked_step (hstep : PerformsGrant lib stores call stores')
    (howner : ByOwner lib stores call)
    (h : Located lib stores ∧ ∀ account region, Linked lib stores account region) :
    Located lib stores' ∧ ∀ account region, Linked lib stores' account region := by
  rcases h with ⟨hlocated, hlinked⟩
  rcases grant_step hstep hlinked with rfl |
    ⟨request, grantId, uid, account, region, key, granteePrincipal, operations, hrequest, hlocate,
      hvalid, hfind, rfl⟩ | ⟨account, region, id, grant, hgrant, rfl, -⟩
  · exact ⟨hlocated, hlinked⟩
  · rcases locateKey_ok hlocate with ⟨hparse, hkey, _⟩
    have hregion := region_of_parseKeyId hparse
    rcases call with ⟨context, request', result⟩
    dsimp only at hrequest
    subst hrequest
    rcases howner (account, region, key) (congrArg _ hlocate) hvalid hfind with
      ⟨haccount, hcolon, hcolon', hid, htoken⟩
    subst haccount
    subst hregion
    have hkeys (grant : KmsGrant) :
        ((stores context.account context.region).addGrant grant).keys =
          (stores context.account context.region).keys := rfl
    refine ⟨fun place key' hkey' => ?_, fun account' region' => ?_⟩
    · rw [key?_setStore (hkeys _)] at hkey'
      exact hlocated _ _ hkey'
    · by_cases hstore : account' = context.account ∧ region' = context.region
      · rw [hstore.1, hstore.2]
        refine (hlinked _ _).add hid htoken ⟨hcolon, hcolon', uid, rfl⟩ ⟨key, hkey, ?_, rfl, ?_⟩
        · exact (hlocated _ _ hkey).symm
        · exact patternMatch_of_locateKey hlocate
      · exact (hlinked _ _).congr (setStore_other _ hstore)
          (key?_setStore (hkeys _))
  · have hkeys : ((stores account region).dropGrant grant id).keys =
        (stores account region).keys := rfl
    refine ⟨fun place key' hkey' => ?_, fun account' region' => ?_⟩
    · rw [key?_setStore hkeys] at hkey'
      exact hlocated _ _ hkey'
    · by_cases hstore : account' = account ∧ region' = region
      · rw [hstore.1, hstore.2]
        exact (hlinked _ _).drop hgrant
      · exact (hlinked _ _).congr (setStore_other _ hstore) (key?_setStore hkeys)

variable {place : Place} {id : Text}

/-- A grant stays until a call ends it. -/
theorem grant_kept (hstep : PerformsGrant lib stores call stores')
    (howner : ByOwner lib stores call)
    (hlinked : ∀ account region, Linked lib stores account region)
    (hgrant : (stores account region).grants.get? id = some grant)
    (hends : ¬call.Ends account region id grant.token) :
    (stores' account region).grants.get? id = some grant := by
  rcases grant_step hstep hlinked with rfl |
    ⟨request, grantId, uid, account', region', key, granteePrincipal, operations, hrequest,
      hlocate, hvalid, hfind, rfl⟩ | ⟨account', region', id', grant', hgrant', rfl, hended⟩
  · exact hgrant
  · by_cases hstore : account = account' ∧ region = region'
    · rcases hstore with ⟨rfl, rfl⟩
      rcases call with ⟨context, request', result⟩
      subst hrequest
      have hfresh := (howner (account, region, key) (congrArg _ hlocate) hvalid hfind).2.2.2.1
      have hne : id ≠ grantId.text := by
        rintro rfl
        rw [hfresh] at hgrant
        cases hgrant
      rw [setStore_same]
      exact (Dict.get?_set _ _ _ _).trans ((if_neg hne).trans hgrant)
    · rw [setStore_other _ hstore]
      exact hgrant
  · by_cases hstore : account = account' ∧ region = region'
    · rcases hstore with ⟨rfl, rfl⟩
      have hne : id ≠ id' := by
        rintro rfl
        rw [hgrant, some.injEq] at hgrant'
        subst hgrant'
        exact hends hended
      rw [setStore_same]
      exact (Dict.get?_erase _ _ _).trans ((if_neg hne).trans hgrant)
    · rw [setStore_other _ hstore]
      exact hgrant

/-! ### Creation -/

theorem get?_of_mem_values (h : Linked lib stores account region)
    (hgrant : grant ∈ (stores account region).grants.values) :
    (stores account region).grants.get? grant.grantId = some grant := by
  rcases mem_map.mp hgrant with ⟨entry, hentry, rfl⟩
  have hget := ((stores account region).grants.get?_eq_some_iff entry.1 entry.2).mpr hentry
  rw [h.ids _ _ hget]
  exact hget

-- What was returned for a key is there, whether it was there before or not.
theorem created_spec {request : CreateGrantRequest} {grantId uid : Uuid} {token : Text}
    (hstep : PerformsGrant lib stores call stores')
    (hlinked : ∀ account region, Linked lib stores account region)
    (hrequest : call.request = .createGrant request grantId uid)
    (hparse : parseKeyId call.context request.ref =
      .ok (place.account, place.region, place.keyId))
    (hresult : call.result = .ok (.createGrant id token)) :
    ∃ grant, (stores' place.account place.region).grants.get? id = some grant ∧
      grant.token = token ∧ grant.keyId = place.keyId := by
  rcases call with ⟨context, request', result⟩
  subst hrequest
  subst hresult
  unfold PerformsGrant GrantRequest.handle at hstep
  dsimp only at hstep
  split at hstep
  · next response changed hok =>
    cases hstep
    rcases ok_of_bind hok with ⟨⟨account, region, key⟩, hlocate, hok⟩
    rcases locateKey_ok hlocate with ⟨hparse', _, _⟩
    rw [hparse, Except.ok.injEq, Prod.mk.injEq, Prod.mk.injEq] at hparse'
    rcases hparse' with ⟨rfl, rfl, hkeyId⟩
    rcases ok_of_bind hok with ⟨⟨granteePrincipal, operations⟩, _, hok⟩
    dsimp only at hok
    split at hok
    · next grant hfind =>
      cases hok
      unfold findGrant at hfind
      split at hfind
      · cases hfind
      · split at hfind
        · cases hfind
        · have hmem := mem_of_find?_eq_some hfind
          have hname := find?_some hfind
          rw [decide_eq_true_eq] at hname
          exact ⟨grant, get?_of_mem_values (hlinked _ _) hmem, rfl, hname.2.trans hkeyId.symm⟩
    · cases hok
      refine ⟨_, ?_, rfl, hkeyId.symm⟩
      rw [setStore_same]
      exact (Dict.get?_set _ _ _ _).trans (if_pos rfl)
  · cases hstep

/-! ### Listing -/

def nextMarker : Except KmsError GrantResponse → Option Text
  | .ok (.listGrants _ marker) => marker
  | _ => none

/-- The owner of a key sees the grant of some id on one of the pages for the key. -/
def Listed (lib : Library) (stores : KmsStores) (place : Place) (id : Text) : Prop :=
  ∀ context ref limit, context.account = place.account →
    parseKeyId context ref = .ok (place.account, place.region, place.keyId) → limit ≠ some 0 →
    ∃ marker grants next,
      PaginatedList.Follows (fun marker => nextMarker
        ((GrantRequest.listGrants ref none none marker limit).handle lib stores context).1)
        marker ∧
      (GrantRequest.listGrants ref none none marker limit).handle lib stores context =
        (.ok (.listGrants grants next), stores) ∧
      ∃ grant ∈ grants, grant.grantId = id

theorem getKmsKey_anyKeyState {ref : KeyRef} {key : KmsKey} (hparse : parseKeyId context ref =
      .ok (place.account, place.region, place.keyId))
    (hpattern : (patternMatch patternUuid place.keyId ||
      patternMatch multiRegionPattern place.keyId) = true)
    (hkey : stores.key? place = some key) :
    getKmsKey lib (stores place.account place.region) place.account place.region ref .anyKeyState =
      .ok key := by
  rcases place with ⟨account, region, keyId⟩
  have hget : (stores account region).keys.get? keyId = some key := hkey
  have hlookUp (arn : KeyArn) :
      lookUpKey (stores account region) keyId arn = .ok key := by
    rw [lookUpKey, if_pos hpattern, hget]
    rfl
  have hfound : getKeyFromAnyId lib (stores account region) account region ref = .ok key := by
    cases ref with
    | id _ =>
      cases hparse
      exact hlookUp _
    | arn =>
      rw [parseKeyId] at hparse
      split at hparse
      · cases hparse
        rw [getKeyFromAnyId, if_pos rfl]
        exact hlookUp _
      · cases hparse
  rw [getKmsKey, bind_of_ok _ hfound, checkKeyState]
  cases key.metadata.keyState with
  | enabled | disabled | pendingDeletion | pendingImport => rfl

theorem nodup_matchingGrants (h : Linked lib stores account region) (keyId : Text)
    (granteePrincipal : Option String) :
    ((matchingGrants (stores account region) keyId granteePrincipal).map
      KmsGrant.grantId).Nodup := by
  have hkeys : (stores account region).grants.values.map KmsGrant.grantId =
      (stores account region).grants.keys := by
    rw [Dict.values, List.map_map]
    refine map_congr_left fun entry hentry => ?_
    exact h.ids _ _ (((stores account region).grants.get?_eq_some_iff entry.1 entry.2).mpr hentry)
  refine List.Nodup.sublist (filter_sublist.map _) ?_
  rw [hkeys]
  exact (stores account region).grants.nodup

theorem listed_of_get? (h : Linked lib stores place.account place.region)
    (hgrant : (stores place.account place.region).grants.get? id = some grant)
    (hkeyId : grant.keyId = place.keyId) : Listed lib stores place id := by
  intro context ref limit haccount hparse hlimit
  rcases h.keys id _ hgrant with ⟨key, hkey, harn, harnId, hpattern⟩
  rw [hkeyId] at hkey hpattern harnId
  have hregion := region_of_parseKeyId hparse
  have hcontext : context = ⟨place.account, place.region⟩ := by rw [← haccount, hregion]
  have hid : key.metadata.keyId = place.keyId := stores.keyId_of_key? hkey
  have hlist (marker : Option Text) :
      (GrantRequest.listGrants ref none none marker limit).handle lib stores context =
        (.ok (.listGrants
          (PaginatedList.getPage
            (matchingGrants (stores place.account place.region) place.keyId none)
            KmsGrant.grantId marker (limit.getD 50)).1
          (PaginatedList.getPage
            (matchingGrants (stores place.account place.region) place.keyId none)
            KmsGrant.grantId marker (limit.getD 50)).2), stores) := by
    have hresult : listGrants lib stores context ref none none marker limit =
        .ok (.listGrants
          (PaginatedList.getPage
            (matchingGrants (stores place.account place.region) place.keyId none)
            KmsGrant.grantId marker (limit.getD 50)).1
          (PaginatedList.getPage
            (matchingGrants (stores place.account place.region) place.keyId none)
            KmsGrant.grantId marker (limit.getD 50)).2) := by
      unfold listGrants
      rw [Action.bind_of_ok _ hparse]
      dsimp only
      rw [Action.bind_of_ok _ (getKmsKey_anyKeyState hparse hpattern hkey), hid, hcontext]
      rfl
    rw [GrantRequest.handle, hresult]
    rfl
  have hmem : grant ∈ matchingGrants (stores place.account place.region) place.keyId none := by
    refine mem_filter.mpr ⟨mem_map.mpr ⟨(id, grant), ?_, rfl⟩, ?_⟩
    · exact ((stores place.account place.region).grants.get?_eq_some_iff id grant).mp hgrant
    · rw [harnId, decide_eq_true rfl]
      rfl
  have hpositive : 0 < limit.getD 50 := by
    cases limit with
    | none => exact Nat.succ_pos 49
    | some n => exact Nat.pos_of_ne_zero fun (hzero : n = 0) => hlimit (congrArg _ hzero)
  rcases PaginatedList.exists_page (nodup_matchingGrants h _ _) _
    hpositive _ hmem with ⟨marker, hfollows, hpage⟩
  refine ⟨marker, _, _, ?_, hlist _, grant, hpage, h.ids id _ hgrant⟩
  simp only [hlist]
  exact hfollows

/-! ### Retirement -/

/-- Whoever retires a token ends the grant of some id in the store of a place, and no other one. -/
def Retires (lib : Library) (stores : KmsStores) (place : Place) (id token : Text) : Prop :=
  ∀ context, ∃ stores',
    (GrantRequest.retireGrant (some token) none none).handle lib stores context =
      (.ok .none, stores') ∧
    ∀ account region id', (stores' account region).grants.get? id' =
      if account = place.account ∧ region = place.region ∧ id' = id then none
      else (stores account region).grants.get? id'

theorem retires_of_get? (h : Linked lib stores place.account place.region)
    (hgrant : (stores place.account place.region).grants.get? id = some grant) :
    Retires lib stores place id grant.token := by
  set dropped := (stores place.account place.region).dropGrant grant id
  intro context
  rcases h.owned id _ hgrant with ⟨haccount, hregion, uid, htoken⟩
  have hlink := h.tokens id _ hgrant
  refine ⟨stores.setStore place.account place.region dropped, ?_, fun account region id' => ?_⟩
  · have hdelete : deleteGrant (stores place.account place.region) id grant.keyArn.keyId =
        .ok dropped := by
      rw [deleteGrant, hgrant]
      dsimp only
      rw [if_neg (not_not.mpr rfl), hlink]
      rfl
    have hend : endGrant lib stores context place.account place.region id none =
        .ok (.none, stores.setStore place.account place.region
          dropped) := by
      unfold endGrant
      dsimp only
      rw [hgrant]
      dsimp only
      rw [Action.bind_of_ok _ hdelete]
      rfl
    have hretire : retireGrant lib stores context (some grant.token) none none =
        .ok (.none, stores.setStore place.account place.region
          dropped) := by
      have hlocate : locateToken grant.token = .ok (place.account, place.region) := by
        rw [htoken]
        exact locateToken_grantToken _ _ _ haccount hregion
      have hne : decide (grant.token ≠ []) = true := by
        rw [htoken]
        exact decide_eq_true (grantToken_ne_nil _ _ _)
      unfold retireGrant
      rw [filter_some, if_pos hne]
      dsimp only
      rw [Action.bind_of_ok _ hlocate]
      rw [hlink]
      exact hend
    rw [GrantRequest.handle, hretire]
  · by_cases hstore : account = place.account ∧ region = place.region
    · rcases hstore with ⟨rfl, rfl⟩
      rw [setStore_same]
      refine (Dict.get?_erase _ _ _).trans ?_
      by_cases hid : id' = id
      · rw [if_pos hid, if_pos ⟨rfl, rfl, hid⟩]
      · rw [if_neg hid, if_neg fun hsame => hid hsame.2.2]
    · rw [setStore_other _ hstore, if_neg fun hsame => hstore ⟨hsame.1, hsame.2.1⟩]

/-! ### Runs -/

theorem linked_of_runs {calls : List Call}
    (hrun : Runs (Performs lib) KmsStores.initial calls stores) :
    Located lib stores ∧ ∀ account region, Linked lib stores account region := by
  have hall : Located lib stores ∧ ∀ account region,
      (stores account region).grants = .empty ∧ (stores account region).grantTokens = .empty := by
    refine Runs.invariant (P := fun stores => Located lib stores ∧ ∀ account region,
      (stores account region).grants = .empty ∧ (stores account region).grantTokens = .empty)
      ?_ hrun ⟨?_, fun _ _ => ⟨rfl, rfl⟩⟩
    · rintro s call t ⟨hlocated, hempty⟩ hstep
      refine ⟨fun place => keyStep_arn hstep _ (hlocated _), fun account region => ?_⟩
      rcases grants_of_performs hstep _ _ with ⟨hgrants, htokens⟩
      exact ⟨hgrants.trans (hempty _ _).1, htokens.trans (hempty _ _).2⟩
    · intro place key hkey
      cases hkey
  refine ⟨hall.1, fun account region => ?_⟩
  have hnone (id : Text) : (stores account region).grants.get? id = none := by
    rw [(hall.2 _ _).1]
    rfl
  refine ⟨?_, ?_, ?_, ?_, ?_⟩
  · intro id grant hget
    rw [hnone] at hget
    cases hget
  · intro id grant hget
    rw [hnone] at hget
    cases hget
  · intro token id hget
    rw [(hall.2 _ _).2] at hget
    cases hget
  · intro id grant hget
    rw [hnone] at hget
    cases hget
  · intro id grant hget
    rw [hnone] at hget
    cases hget

/-- In a run of calls in which owners create the grants, the grants and the tokens of every store
    belong together, and every grant records the ARN of its key. What was created is listed until
    it is ended, and its token ends it and nothing else. -/
theorem grants_found_and_ended (lib : Library) (keyCalls : List Call) (start : KmsStores)
    (hstart : Runs (Performs lib) KmsStores.initial keyCalls start) (calls : List GrantCall)
    (stores : KmsStores) (hrun : Runs (PerformsGrant lib) start calls stores)
    (howner : Along (PerformsGrant lib) (ByOwner lib) start calls) :
    (∀ account region,
      (∀ id grant, (stores account region).grants.get? id = some grant →
        (stores account region).grantTokens.get? grant.token = some id ∧
        ∃ key, stores.key? ⟨account, region, grant.keyId⟩ = some key ∧
          grant.keyArn = key.metadata.arn) ∧
      (∀ token id, (stores account region).grantTokens.get? token = some id →
        ∃ grant, (stores account region).grants.get? id = some grant ∧ grant.token = token)) ∧
    ∀ before call after request grantId uid id token place,
      calls = before ++ call :: after → call.request = .createGrant request grantId uid →
      parseKeyId call.context request.ref =
        .ok (Place.account place, Place.region place, Place.keyId place) →
      call.result = .ok (.createGrant id token) →
      (∀ c ∈ after, ¬c.Ends place.account place.region id token) →
      Listed lib stores place id ∧ Retires lib stores place id token := by
  have hsteps : ∀ s call t, ByOwner lib s call →
      (Located lib s ∧ ∀ account region, Linked lib s account region) →
      PerformsGrant lib s call t →
      Located lib t ∧ ∀ account region, Linked lib t account region :=
    fun s call t hcall hs hstep => linked_step hstep hcall hs
  have hfirst := linked_of_runs hstart
  have hlast := Runs.invariant_along
    (P := fun s => Located lib s ∧ ∀ account region, Linked lib s account region) hsteps hrun howner
    hfirst
  constructor
  · intro account region
    have hlinked := hlast.2 account region
    refine ⟨fun id grant hgrant => ⟨hlinked.tokens id _ hgrant, ?_⟩, hlinked.grants⟩
    rcases hlinked.keys id _ hgrant with ⟨key, hkey, harn, -, -⟩
    exact ⟨key, hkey, harn⟩
  · intro before call after request grantId uid id token place hcalls hrequest hparse hresult hends
    subst hcalls
    rcases Runs.split _ _ hrun with ⟨s, hbefore, hrest⟩
    have hs := Runs.invariant_along
      (P := fun s => Located lib s ∧ ∀ account region, Linked lib s account region) hsteps hbefore
      (Runs.along_left howner) hfirst
    have howner' := Runs.along_append howner hbefore
    cases hrest with
    | cons _ t _ _ _ hcall hafter =>
      have ht := linked_step hcall (Runs.along_head howner') hs
      rcases created_spec hcall hs.2 hrequest hparse hresult with ⟨grant, hgrant, htoken, hkeyId⟩
      have hkept : (Located lib stores ∧ ∀ account region, Linked lib stores account region) ∧
          (stores place.account place.region).grants.get? id = some grant := by
        refine Runs.invariant_along
          (P := fun s => (Located lib s ∧ ∀ account region, Linked lib s account region) ∧
            (s place.account place.region).grants.get? id = some grant)
          (C := fun s call => ByOwner lib s call ∧ ¬call.Ends place.account place.region id token)
          ?_ hafter ?_ ⟨ht, hgrant⟩
        · rintro u c v ⟨hc, hnot⟩ ⟨hu, hget⟩ hstep
          rw [← htoken] at hnot
          exact ⟨hsteps u c v hc hu hstep, grant_kept hstep hc hu.2 hget hnot⟩
        · intro b c a u hafter' hb
          refine ⟨Runs.along_tail howner' hcall b c a u hafter' hb, hends c ?_⟩
          rw [hafter']
          exact mem_append.mpr (.inr mem_cons_self)
      rw [← htoken]
      exact ⟨listed_of_get? (hkept.1.2 _ _) hkept.2 hkeyId, retires_of_get? (hkept.1.2 _ _) hkept.2⟩

/-! ### Examples -/

def performGrant (lib : Library) (stores : KmsStores) (input : RequestContext × GrantRequest) :
    KmsStores × GrantCall :=
  let out := input.2.handle lib stores input.1
  (out.2, ⟨input.1, input.2, out.1⟩)

def exampleKeyRun : KmsStores × List Call :=
  drive (perform exampleLibrary) KmsStores.initial
    [(exampleContext, .createKey ⟨false, none, none, none, none, none, none⟩
      ⟨exampleUuid, exampleUuid, exampleEntropy 1⟩)]

def exampleGrant : GrantRequest :=
  .createGrant ⟨.arn (kmsKeyArn exampleLibrary examplePlace.keyId "000000000000" "us-east-1"),
    some "arn:aws:iam::111111111111:root", some ["Decrypt"], none⟩ exampleUuid exampleUuid

def exampleToken : Text := grantToken "000000000000" "us-east-1" exampleUuid

theorem grants_found_and_ended_of_exampleGrant :
    let calls := (drive (performGrant exampleLibrary) exampleKeyRun.1
      [(exampleContext, exampleGrant)])
    calls.2.map GrantCall.result = [.ok (.createGrant exampleUuid.text exampleToken)] ∧
      Listed exampleLibrary calls.1 examplePlace exampleUuid.text ∧
      Retires exampleLibrary calls.1 examplePlace exampleUuid.text exampleToken := by
  have hcreated : (exampleGrant.handle exampleLibrary exampleKeyRun.1 exampleContext).1 =
      .ok (.createGrant exampleUuid.text exampleToken) := by decide +kernel
  refine ⟨congrArg (fun result => [result]) hcreated, ?_⟩
  have hrun : Runs (PerformsGrant exampleLibrary) exampleKeyRun.1
      [⟨exampleContext, exampleGrant, .ok (.createGrant exampleUuid.text exampleToken)⟩]
      (exampleGrant.handle exampleLibrary exampleKeyRun.1 exampleContext).2 := by
    refine .cons _ _ _ _ _ ?_ (.nil _)
    unfold PerformsGrant
    rw [← hcreated]
  refine (grants_found_and_ended _ _ _ (runs_perform _ _ _) _ _ hrun ?_).2 [] _ []
    _ _ _ _ _ examplePlace rfl rfl rfl rfl fun c hc => absurd hc not_mem_nil
  refine Runs.along_cons_iff.mpr ⟨by decide +kernel, fun t _ before call after u hcalls _ => ?_⟩
  exact absurd hcalls (by simp)

/-- Another account creates a grant on the key. Its token leads to the store of that account. -/
theorem retire_fails_of_foreign_grant :
    let context : RequestContext := ⟨"111111111111", "us-east-1"⟩
    let token := grantToken "111111111111" "us-east-1" exampleUuid
    let created := exampleGrant.handle exampleLibrary exampleKeyRun.1 context
    Runs (Performs exampleLibrary) KmsStores.initial exampleKeyRun.2 exampleKeyRun.1 ∧
      created.1 = .ok (.createGrant exampleUuid.text token) ∧
      ((GrantRequest.retireGrant (some token) none none).handle exampleLibrary created.2
        context).1 =
        .error (.notFound ("Unable to find grant token " ++ String.ofList token)) := by
  refine ⟨runs_perform _ _ _, by decide +kernel, ?_⟩
  have hne : decide (grantToken "111111111111" "us-east-1" exampleUuid ≠ []) = true :=
    decide_eq_true (grantToken_ne_nil _ _ _)
  have hlocate : locateToken (grantToken "111111111111" "us-east-1" exampleUuid) =
      .ok ("111111111111", "us-east-1") :=
    locateToken_grantToken _ _ _ (by decide) (by decide)
  rw [GrantRequest.handle]
  unfold retireGrant
  rw [filter_some, if_pos hne]
  dsimp only
  rw [Action.bind_of_ok _ hlocate]
  rfl

end LocalEmu.Kms
