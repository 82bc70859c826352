import LocalEmu.Core.S3.Lifecycle

/-!
# What a Lifecycle Scan Leaves Behind

The scan removes the record of an expired object with `objects.pop(key)`. In a
bucket without versioning this is the record. In a versioned bucket it is the
version under no version id, which no bucket has, so the record stays while the
file and the tags go. No step looks at the object lock.

A whole scan is the removal of the versions that are due, up to the first date
out of range (`expire_eq_foldl`); what it does to each of the three stores can
then be read off one by one. `LosesNothing` is what should hold afterwards, and
`Harmless` the condition on the state before the scan that decides it.
-/

namespace LocalEmu.S3

open List Option

/-! ### A scan as removals -/

/-- The state without an expired version. -/
def withoutVersion (bucket : String) (st : LifecycleState) (version : S3Version LockedObject) :
    LifecycleState where
  objects := st.objects.pop version.key
  files := st.files.erase (fileOf bucket version)
  tags := st.tags.erase (tagsOf bucket version)

/-- The versions that are due, up to the first one whose date can not be computed. -/
def dueVersions (fromIsoFormat : String → Option Int) (rules : List LifecycleRule) (now : Int) :
    List (S3Version LockedObject) → List (S3Version LockedObject)
  | [] => []
  | version :: versions =>
    match isDue fromIsoFormat rules now version with
    | .error _ => []
    | .ok true => version :: dueVersions fromIsoFormat rules now versions
    | .ok false => dueVersions fromIsoFormat rules now versions

section Scan

variable (fromIsoFormat : String → Option Int) (bucket : String) (rules : List LifecycleRule)
  (now : Int)

theorem exec_expireObjects (versions : List (S3Version LockedObject)) (expiredCount : Nat)
    (st : LifecycleState) :
    (Action.exec (expireObjects fromIsoFormat bucket rules now versions expiredCount) st).2 =
      (dueVersions fromIsoFormat rules now versions).foldl (withoutVersion bucket) st := by
  induction versions generalizing expiredCount st with
  | nil => rfl
  | cons version versions ih =>
    rw [expireObjects, dueVersions]
    rcases isDue fromIsoFormat rules now version with e | due
    · rfl
    · rw [Action.exec_ofExcept_bind_ok _ _ _ st rfl]
      cases due with
      | true => exact ih _ _
      | false => exact ih _ st

/-- A scan is a sequence of removals. -/
theorem expire_eq_foldl (st : LifecycleState) :
    (Action.exec (expireBucketObjects fromIsoFormat bucket rules now) st).2 =
      (dueVersions fromIsoFormat rules now st.objects.values).foldl (withoutVersion bucket) st :=
  exec_expireObjects _ _ _ _ _ 0 st

end Scan

/-! ### The three stores after a scan -/

section Stores

variable (bucket : String) (due : List (S3Version LockedObject)) (st : LifecycleState)

/-- A store that loses one entry with each version. -/
theorem get?_foldl {κ ν : Type} [DecidableEq κ] (field : LifecycleState → Dict κ ν)
    (keyOf : S3Version LockedObject → κ)
    (h : ∀ st v, field (withoutVersion bucket st v) = (field st).erase (keyOf v)) (key : κ) :
    (field (due.foldl (withoutVersion bucket) st)).get? key =
      if ∃ v ∈ due, keyOf v = key then none else (field st).get? key := by
  have hfield : field (due.foldl (withoutVersion bucket) st) =
      (due.map keyOf).foldl (fun d key => d.erase key) (field st) := by
    induction due generalizing st with
    | nil => rfl
    | cons v due ih =>
      rw [foldl_cons, ih, map_cons, foldl_cons, h]
  rw [hfield, Dict.get?_foldl_erase]
  exact if_congr mem_map rfl rfl

theorem unversioned_foldl (objects : KeyStore LockedObject)
    (h : st.objects = .unversioned objects) :
    ∃ objects', (due.foldl (withoutVersion bucket) st).objects = .unversioned objects' ∧
      ∀ key, objects'.get? key =
        if key ∈ due.map S3Version.key then none else objects.get? key := by
  induction due generalizing st objects with
  | nil => exact ⟨objects, h, fun key => by rw [map_nil, if_neg not_mem_nil]⟩
  | cons v due ih =>
    have hpop : (withoutVersion bucket st v).objects = .unversioned (Dict.erase objects v.key) := by
      rw [withoutVersion, h]
      rfl
    rcases ih _ _ hpop with ⟨objects', hobjects, hget⟩
    refine ⟨objects', hobjects, fun key => ?_⟩
    rw [hget, Dict.get?_erase, map_cons]
    by_cases hmem : key ∈ due.map S3Version.key
    · rw [if_pos hmem, if_pos (mem_cons_of_mem _ hmem)]
    · by_cases hkey : key = v.key
      · rw [if_neg hmem, if_pos hkey, if_pos (by simp [hkey])]
      · rw [if_neg hmem, if_neg hkey, if_neg (by simp [hkey, hmem])]

end Stores

/-! ### Versioned buckets -/

/-- Two versions with the same object, key and version id. -/
def SameVersion (v v' : S3Version LockedObject) : Prop :=
  v'.key = v.key ∧ v'.versionId = v.versionId ∧ v'.object = v.object

/-- Two dictionaries of versions with the same versions, but for the flag. -/
def SameVersions (d d' : Option (S3Version LockedObject)) : Prop :=
  (∀ v, d = some v → ∃ v', d' = some v' ∧ SameVersion v v') ∧ (d = none → d' = none)

theorem SameVersions.refl (d : Option (S3Version LockedObject)) : SameVersions d d :=
  ⟨fun v hv => ⟨v, hv, rfl, rfl, rfl⟩, fun h => h⟩

theorem SameVersions.trans {a b c : Option (S3Version LockedObject)} (h : SameVersions a b)
    (h' : SameVersions b c) : SameVersions a c := by
  refine ⟨fun v hv => ?_, fun hnone => h'.2 (h.2 hnone)⟩
  rcases h.1 v hv with ⟨v1, hv1, h1⟩
  rcases h'.1 v1 hv1 with ⟨v2, hv2, h2⟩
  exact ⟨v2, hv2, h2.1.trans h1.1, h2.2.1.trans h1.2.1, h2.2.2.trans h1.2.2⟩

theorem markLast_same (versions : Dict (Option String) (S3Version LockedObject)) (flag : Bool)
    (id : Option String) :
    SameVersions (versions.get? id) ((VersionedKeyStore.markLast versions flag).get? id) := by
  rw [VersionedKeyStore.markLast]
  rcases hlast : versions.last? with _ | ⟨lastId, last⟩
  · exact SameVersions.refl _
  · have hget : versions.get? lastId = some last :=
      (Dict.get?_eq_some_iff _ _ _).mpr (mem_of_getLast? hlast)
    rw [Dict.get?_set]
    by_cases hid : id = lastId
    · rw [if_pos hid, hid, hget]
      refine ⟨fun v hv => ⟨_, rfl, ?_⟩, fun hc => absurd hc (by simp)⟩
      rw [← some.inj hv]
      exact ⟨rfl, rfl, rfl⟩
    · rw [if_neg hid]
      exact SameVersions.refl _

/-- Every version is stored under its own key and version id. The version ids of
    a versioned bucket are texts without a slash. -/
def WellKeyed : ObjectStore LockedObject → Prop
  | .unversioned objects => ∀ key v, objects.get? key = some v → v.key = key ∧ v.versionId = none
  | .versioned objects => ∀ key id v, (ObjectStore.versioned objects).lookup key id = some v →
      v.key = key ∧ v.versionId = id ∧ ∃ text, id = some text ∧ text ≠ "" ∧ '/' ∉ text.toList

def SameLookups (store store' : ObjectStore LockedObject) : Prop :=
  ∀ key id, SameVersions (store.lookup key id) (store'.lookup key id)

theorem pop_none_same (objects : VersionedKeyStore LockedObject) (key : String)
    (h : ∀ versions, objects.get? key = some versions → versions.get? none = none) :
    SameLookups (.versioned objects) (.versioned (VersionedKeyStore.pop objects key none).1) := by
  intro key' id
  rw [VersionedKeyStore.pop]
  rcases hget : objects.get? key with _ | versions
  · exact SameVersions.refl _
  have herase : ∀ id, (versions.erase none).get? id = versions.get? id := by
    intro id
    rw [Dict.get?_erase]
    by_cases hid : id = none
    · rw [if_pos hid, hid, h _ hget]
    · rw [if_neg hid]
  simp only
  split
  · exact SameVersions.refl _
  · split
    · -- A store of versions that are all gone was empty before.
      next hne hempty =>
      exfalso
      refine hne (isEmpty_iff.mpr (eq_nil_iff_forall_not_mem.mpr fun e he => ?_))
      have hmem : (versions.erase none).get? e.1 = some e.2 := by
        rw [herase]
        exact (Dict.get?_eq_some_iff _ _ _).mpr he
      rw [Dict.get?_eq_some_iff, isEmpty_iff.mp hempty] at hmem
      exact not_mem_nil hmem
    · simp only [ObjectStore.lookup]
      rw [Dict.get?_set]
      by_cases hkey : key' = key
      · rw [if_pos hkey, hkey, hget, bind_some, ← herase id]
        exact markLast_same _ _ _
      · rw [if_neg hkey]
        exact SameVersions.refl _

theorem SameVersions.of_some {d d' : Option (S3Version LockedObject)} (h : SameVersions d d')
    (v' : S3Version LockedObject) (hv' : d' = some v') : ∃ v, d = some v ∧ SameVersion v v' := by
  rcases d with _ | v
  · rw [h.2 rfl] at hv'
    cases hv'
  · rcases h.1 v rfl with ⟨w, hw, hsame⟩
    rw [hv', some.injEq] at hw
    exact ⟨v, rfl, hw ▸ hsame⟩

theorem versioned_foldl (bucket : String) (due : List (S3Version LockedObject))
    (st : LifecycleState) (objects : VersionedKeyStore LockedObject)
    (h : st.objects = .versioned objects) (hkeyed : WellKeyed (.versioned objects)) :
    SameLookups (.versioned objects) (due.foldl (withoutVersion bucket) st).objects := by
  induction due generalizing st objects with
  | nil =>
    rw [foldl_nil, h]
    exact fun key id => SameVersions.refl _
  | cons v due ih =>
    have hnone : ∀ versions, objects.get? v.key = some versions → versions.get? none = none := by
      intro versions hversions
      rcases hid : versions.get? none with _ | w
      · rfl
      · rcases hkeyed _ _ w (by rw [ObjectStore.lookup, hversions]; exact hid) with
          ⟨_, _, text, htext, _⟩
        cases htext
    have hsame := pop_none_same _ _ hnone
    have hkeyed' : WellKeyed (.versioned (VersionedKeyStore.pop objects v.key none).1) := by
      intro key id w' hw'
      rcases (hsame _ id).of_some w' hw' with ⟨w, hw, hk, hi, _⟩
      rcases hkeyed _ id w hw with ⟨h1, h2, h3⟩
      exact ⟨hk.trans h1, hi.trans h2, h3⟩
    have hpop : (withoutVersion bucket st v).objects =
        .versioned (VersionedKeyStore.pop objects v.key none).1 := by
      rw [withoutVersion, h]
      rfl
    have hrest := ih _ _ hpop hkeyed'
    exact fun key id => (hsame _ id).trans (hrest _ id)

/-! ### What should hold -/

/-- After a scan, what can be found has the bytes it had, what lost its bytes can
    not be found, and what is locked has lost nothing. -/
structure LosesNothing (bucket : String) (now : Int) (st st' : LifecycleState) : Prop where
  bytes : ∀ key id v, st'.objects.lookup key id = some v → v.object.isSome = true →
    st'.files.get? (fileOf bucket v) = st.files.get? (fileOf bucket v)
  records : ∀ key id v, st.objects.lookup key id = some v → v.object.isSome = true →
    st.files.get? (fileOf bucket v) ≠ none → st'.files.get? (fileOf bucket v) = none →
      st'.objects.lookup key id = none
  locked : ∀ key id v s3Object, st.objects.lookup key id = some v → v.object = some s3Object →
    isLocked s3Object false now = true →
      (∃ v', st'.objects.lookup key id = some v' ∧ SameVersion v v') ∧
      st'.files.get? (fileOf bucket v) = st.files.get? (fileOf bucket v) ∧
      st'.tags.get? (tagsOf bucket v) = st.tags.get? (tagsOf bucket v)

def lockedVersion (now : Int) (v : S3Version LockedObject) : Bool :=
  match v.object with
  | some s3Object => isLocked s3Object false now
  | none => false

theorem lockedVersion_eq (now : Int) (v : S3Version LockedObject) (s3Object : LockedObject)
    (h : v.object = some s3Object) : lockedVersion now v = isLocked s3Object false now := by
  rw [lockedVersion, h]

/-- A removal that does no harm: of an object without a lock from a bucket
    without versioning, or of nothing at all. -/
def Harmless (bucket : String) (now : Int) (st : LifecycleState) (v : S3Version LockedObject) :
    Prop :=
  match st.objects with
  | .unversioned _ => lockedVersion now v = false
  | .versioned _ => st.files.get? (fileOf bucket v) = none ∧
      (lockedVersion now v = true → st.tags.get? (tagsOf bucket v) = none)

/-! ### Addresses -/

theorem append_slash_inj (as bs cs ds : List Char) (h : as ++ '/' :: bs = cs ++ '/' :: ds)
    (hb : '/' ∉ bs) (hd : '/' ∉ ds) : as = cs ∧ bs = ds := by
  induction as generalizing cs with
  | nil =>
    cases cs with
    | nil => exact ⟨rfl, (cons.inj h).2⟩
    | cons c cs =>
      exact absurd ((cons.inj h).2 ▸ mem_append_right cs mem_cons_self) hb
  | cons a as ih =>
    cases cs with
    | nil =>
      exact absurd ((cons.inj h).2 ▸ mem_append_right as mem_cons_self) hd
    | cons c cs =>
      rcases ih cs (cons.inj h).2 with ⟨has, hbs⟩
      exact ⟨by rw [(cons.inj h).1, has], hbs⟩

theorem getUniqueKeyId_inj (bucket key key' : String) (id id' : Option String)
    (h : getUniqueKeyId bucket key id = getUniqueKeyId bucket key' id')
    (hid : '/' ∉ ((truthy id).getD "null").toList)
    (hid' : '/' ∉ ((truthy id').getD "null").toList) :
    key = key' ∧ (truthy id).getD "null" = (truthy id').getD "null" := by
  have hlist := congrArg String.toList h
  have hslash : "/".toList = ['/'] := rfl
  simp only [getUniqueKeyId, String.toList_append, hslash, append_assoc,
    singleton_append, append_cancel_left_eq] at hlist
  rcases append_slash_inj _ _ _ _ hlist hid hid' with ⟨hkeys, hids⟩
  exact ⟨String.toList_inj.mp (cons.inj hkeys).2, String.toList_inj.mp hids⟩

/-- A version is found under its key and version id. -/
def Found (store : ObjectStore LockedObject) (v : S3Version LockedObject) : Prop :=
  store.lookup v.key v.versionId = some v

/-- The version id in the addresses of a version. -/
def idText (v : S3Version LockedObject) : String := (truthy v.versionId).getD "null"

section Found

variable {store : ObjectStore LockedObject} (hkeyed : WellKeyed store)

include hkeyed

theorem found_of_lookup (key : String) (id : Option String) (v : S3Version LockedObject)
    (h : store.lookup key id = some v) : v.key = key ∧ Found store v := by
  cases store with
  | unversioned =>
    have hkey := (hkeyed _ v h).1
    exact ⟨hkey, by rw [Found, hkey]; exact h⟩
  | versioned =>
    rcases hkeyed _ id v h with ⟨hkey, hid, _⟩
    exact ⟨hkey, by rw [Found, hkey, hid]; exact h⟩

variable (v : S3Version LockedObject)

theorem found_of_mem_values (h : v ∈ store.values) : Found store v := by
  cases store with
  | unversioned =>
    rcases mem_map.mp h with ⟨e, he, rfl⟩
    exact (found_of_lookup hkeyed e.1 none e.2 ((Dict.get?_eq_some_iff _ _ _).mpr he)).2
  | versioned =>
    rcases mem_filterMap.mp h with ⟨e, he, hv⟩
    rcases hlast : e.2.last? with _ | ⟨id, w⟩
    · rw [hlast] at hv
      cases hv
    · rw [hlast] at hv
      have hw : w = v := by
        by_cases hsome : w.object.isSome = true
        · simpa [hsome] using hv
        · simp [hsome] at hv
      refine (found_of_lookup hkeyed e.1 id v ?_).2
      rw [ObjectStore.lookup, (Dict.get?_eq_some_iff _ _ _).mpr he, ← hw]
      exact (Dict.get?_eq_some_iff _ _ _).mpr (mem_of_getLast? hlast)

theorem slash_not_mem_idText (hv : Found store v) : '/' ∉ (idText v).toList := by
  cases store with
  | unversioned =>
    rw [idText, (hkeyed _ v hv).2]
    decide
  | versioned =>
    rcases hkeyed _ _ v hv with ⟨_, _, text, hid, hne, hslash⟩
    rw [idText, hid, truthy, filter_some_pos (by simpa using hne)]
    exact hslash

theorem Found.eq_of_idText (w : S3Version LockedObject) (hv : Found store v) (hw : Found store w)
    (hkey : v.key = w.key) (hid : idText v = idText w) : v = w := by
  cases store with
  | unversioned =>
    rw [Found, ObjectStore.lookup, hkey] at hv
    rw [Found, ObjectStore.lookup, hv] at hw
    exact some.inj hw
  | versioned =>
    rcases hkeyed _ _ v hv with ⟨_, _, text, htext, hne, _⟩
    rcases hkeyed _ _ w hw with ⟨_, _, text', htext', hne', _⟩
    rw [idText, idText, htext, htext', truthy, truthy,
      filter_some_pos (by simpa using hne), filter_some_pos (by simpa using hne'),
      getD_some, getD_some] at hid
    have hids : v.versionId = w.versionId := by rw [htext, htext', hid]
    rw [Found, hkey, hids] at hv
    rw [Found, hv] at hw
    exact some.inj hw

theorem Found.eq_of_tagsOf (bucket : String) (v w : S3Version LockedObject) (hv : Found store v)
    (hw : Found store w) (h : tagsOf bucket v = tagsOf bucket w) : v = w := by
  rcases getUniqueKeyId_inj _ _ _ _ _ h (slash_not_mem_idText hkeyed v hv)
    (slash_not_mem_idText hkeyed w hw) with ⟨hkey, hid⟩
  exact hv.eq_of_idText hkeyed v w hw hkey hid

end Found

/-! ### When a scan loses nothing -/

theorem mem_dueVersions (fromIsoFormat : String → Option Int) (rules : List LifecycleRule)
    (now : Int) (versions : List (S3Version LockedObject)) (v : S3Version LockedObject)
    (h : v ∈ dueVersions fromIsoFormat rules now versions) :
    v ∈ versions ∧ v.object.isSome = true := by
  induction versions with
  | nil => exact absurd h not_mem_nil
  | cons version versions ih =>
    rw [dueVersions] at h
    rcases hdue : isDue fromIsoFormat rules now version with e | due
    · rw [hdue] at h
      exact absurd h not_mem_nil
    · rw [hdue] at h
      cases due with
      | true =>
        rcases mem_cons.mp h with rfl | h
        · refine ⟨mem_cons_self, ?_⟩
          rcases hobj : v.object with _ | s3Object
          · rw [isDue, hobj] at hdue
            cases hdue
          · rfl
        · exact ⟨mem_cons_of_mem _ (ih h).1, (ih h).2⟩
      | false => exact ⟨mem_cons_of_mem _ (ih h).1, (ih h).2⟩

theorem SameVersion.fileOf_eq {v v' : S3Version LockedObject} (h : SameVersion v v')
    (bucket : String) : fileOf bucket v' = fileOf bucket v := by
  rw [fileOf, fileOf, h.1, h.2.1]

section Removals

variable (bucket : String) (now : Int) (st : LifecycleState)
  (due : List (S3Version LockedObject)) (hfound : ∀ v ∈ due, Found st.objects v)
  (hobject : ∀ v ∈ due, v.object.isSome = true) (hkeyed : WellKeyed st.objects)

include hfound hkeyed

variable (w : S3Version LockedObject)

theorem files_foldl_found (hw : Found st.objects w) :
    (due.foldl (withoutVersion bucket) st).files.get? (fileOf bucket w) =
      if w ∈ due then none else st.files.get? (fileOf bucket w) := by
  rw [get?_foldl _ _ _ LifecycleState.files (fileOf bucket) fun _ _ => rfl]
  refine if_congr ⟨?_, fun h => ⟨w, h, rfl⟩⟩ rfl rfl
  rintro ⟨v, hv, heq⟩
  rw [← (hfound v hv).eq_of_idText hkeyed v w hw (congrArg Slot.key heq)
    (congrArg Slot.versionId heq)]
  exact hv

theorem tags_foldl_found (hw : Found st.objects w) :
    (due.foldl (withoutVersion bucket) st).tags.get? (tagsOf bucket w) =
      if w ∈ due then none else st.tags.get? (tagsOf bucket w) := by
  rw [get?_foldl _ _ _ LifecycleState.tags (tagsOf bucket) fun _ _ => rfl]
  refine if_congr ⟨?_, fun h => ⟨w, h, rfl⟩⟩ rfl rfl
  rintro ⟨v, hv, heq⟩
  rw [← (hfound v hv).eq_of_tagsOf hkeyed bucket v w hw heq]
  exact hv

theorem mem_due_of_files (hw : Found st.objects w)
    (hbefore : st.files.get? (fileOf bucket w) ≠ none)
    (hafter : (due.foldl (withoutVersion bucket) st).files.get? (fileOf bucket w) = none) :
    w ∈ due := by
  by_contra hc
  rw [files_foldl_found _ st _ hfound hkeyed w hw, if_neg hc] at hafter
  exact hbefore hafter

theorem losesNothing_unversioned (objects : KeyStore LockedObject)
    (hst : st.objects = .unversioned objects) :
    LosesNothing bucket now st (due.foldl (withoutVersion bucket) st) ↔
      ∀ v ∈ due, lockedVersion now v = false := by
  rcases unversioned_foldl _ _ st _ hst with ⟨objects', hobjects, hget⟩
  have hlookup : ∀ key id, (due.foldl (withoutVersion bucket) st).objects.lookup key id =
      if key ∈ due.map S3Version.key then none else st.objects.lookup key id := by
    intro key id
    rw [hobjects, hst, ObjectStore.lookup, hget]
    rfl
  constructor
  · intro h v hv
    rcases hobj : v.object with _ | s3Object
    · rw [lockedVersion, hobj]
    · by_contra hlocked
      rw [lockedVersion_eq _ v _ hobj, Bool.not_eq_false] at hlocked
      rcases (h.locked _ _ v _ (hfound v hv) hobj hlocked).1 with ⟨v', hv', _⟩
      rw [hlookup, if_pos (mem_map_of_mem hv)] at hv'
      cases hv'
  · intro h
    refine ⟨?_, ?_, ?_⟩
    · intro key id v hv _
      rw [hlookup] at hv
      by_cases hkey : key ∈ due.map S3Version.key
      · rw [if_pos hkey] at hv
        cases hv
      · rw [if_neg hkey] at hv
        rcases found_of_lookup hkeyed _ id v hv with ⟨hvkey, hw⟩
        have hnot : v ∉ due := fun hv => hkey (hvkey ▸ mem_map_of_mem hv)
        rw [files_foldl_found _ st _ hfound hkeyed v hw, if_neg hnot]
    · intro key id v hv _ hbefore hafter
      rcases found_of_lookup hkeyed _ id v hv with ⟨hvkey, hw⟩
      have hmem := mem_due_of_files _ st _ hfound hkeyed v hw hbefore hafter
      rw [hlookup, if_pos (hvkey ▸ mem_map_of_mem hmem)]
    · intro key id v s3Object hv hobj hlocked
      rcases found_of_lookup hkeyed _ id v hv with ⟨hvkey, hw⟩
      have hnot : v ∉ due := by
        intro hmem
        have hfalse := h v hmem
        rw [lockedVersion_eq _ v _ hobj, hlocked] at hfalse
        cases hfalse
      have hkey : key ∉ due.map S3Version.key := by
        intro hmem
        rcases mem_map.mp hmem with ⟨w, hwdue, hwkey⟩
        have hwfound := hfound w hwdue
        rw [Found, hst, ObjectStore.lookup, hwkey] at hwfound
        rw [hst, ObjectStore.lookup, hwfound] at hv
        exact hnot (some.inj hv ▸ hwdue)
      refine ⟨⟨v, by rw [hlookup, if_neg hkey, hv], rfl, rfl, rfl⟩, ?_, ?_⟩
      · rw [files_foldl_found _ st _ hfound hkeyed v hw, if_neg hnot]
      · rw [tags_foldl_found _ st _ hfound hkeyed v hw, if_neg hnot]

include hobject

theorem losesNothing_versioned (objects : VersionedKeyStore LockedObject)
    (hst : st.objects = .versioned objects) :
    LosesNothing bucket now st (due.foldl (withoutVersion bucket) st) ↔
      ∀ v ∈ due, st.files.get? (fileOf bucket v) = none ∧
        (lockedVersion now v = true → st.tags.get? (tagsOf bucket v) = none) := by
  have hsame : SameLookups st.objects (due.foldl (withoutVersion bucket) st).objects := by
    rw [hst]
    exact versioned_foldl _ _ st _ hst (hst ▸ hkeyed)
  constructor
  · intro h v hv
    rcases (hsame _ _).1 v (hfound v hv) with ⟨v', hv', hversion⟩
    have hfile := files_foldl_found bucket st _ hfound hkeyed v (hfound v hv)
    rw [if_pos hv] at hfile
    constructor
    · have hbytes := h.bytes _ _ v' hv' (by rw [hversion.2.2]; exact hobject v hv)
      rw [hversion.fileOf_eq, hfile] at hbytes
      exact hbytes.symm
    · intro hlocked
      rcases hobj : v.object with _ | s3Object
      · rw [lockedVersion, hobj] at hlocked
        cases hlocked
      · rw [lockedVersion_eq _ v _ hobj] at hlocked
        have htags := (h.locked _ _ v _ (hfound v hv) hobj hlocked).2.2
        rw [tags_foldl_found _ st _ hfound hkeyed v (hfound v hv), if_pos hv] at htags
        exact htags.symm
  · intro h
    refine ⟨?_, ?_, ?_⟩
    · intro key id v' hv' _
      rcases (hsame _ id).of_some v' hv' with ⟨v, hv, hversion⟩
      have hw := (found_of_lookup hkeyed _ id v hv).2
      rw [hversion.fileOf_eq, files_foldl_found _ st _ hfound hkeyed v hw]
      by_cases hmem : v ∈ due
      · rw [if_pos hmem, (h v hmem).1]
      · rw [if_neg hmem]
    · intro key id v hv _ hbefore hafter
      have hw := (found_of_lookup hkeyed _ id v hv).2
      have hmem := mem_due_of_files _ st _ hfound hkeyed v hw hbefore hafter
      exact absurd (h v hmem).1 hbefore
    · intro key id v s3Object hv hobj hlocked
      have hw := (found_of_lookup hkeyed _ id v hv).2
      refine ⟨(hsame _ id).1 v hv, ?_, ?_⟩
      · rw [files_foldl_found _ st _ hfound hkeyed v hw]
        by_cases hmem : v ∈ due
        · rw [if_pos hmem, (h v hmem).1]
        · rw [if_neg hmem]
      · rw [tags_foldl_found _ st _ hfound hkeyed v hw]
        by_cases hmem : v ∈ due
        · have hversion : lockedVersion now v = true := by
            rw [lockedVersion_eq _ v _ hobj, hlocked]
          rw [if_pos hmem, (h v hmem).2 hversion]
        · rw [if_neg hmem]

end Removals

/-- A scan loses nothing exactly when every removal does no harm: in a bucket
    without versioning, when nothing that is due is locked; in a versioned one,
    when nothing that is due has bytes or, if it is locked, tags. -/
theorem lifecycle_expiry_iff (fromIsoFormat : String → Option Int) (bucket : String)
    (rules : List LifecycleRule) (now : Int) (st : LifecycleState)
    (hkeyed : WellKeyed st.objects) :
    LosesNothing bucket now st
        (Action.exec (expireBucketObjects fromIsoFormat bucket rules now) st).2 ↔
      ∀ v ∈ dueVersions fromIsoFormat rules now st.objects.values,
        Harmless bucket now st v := by
  have hmem := mem_dueVersions fromIsoFormat rules now st.objects.values
  have hfound : ∀ v ∈ dueVersions fromIsoFormat rules now st.objects.values,
      Found st.objects v := fun v hv => found_of_mem_values hkeyed v (hmem v hv).1
  rw [expire_eq_foldl]
  rcases hst : st.objects with objects | objects
  · rw [← hst, losesNothing_unversioned _ _ st _ hfound hkeyed _ hst]
    simp only [Harmless, hst]
  · rw [← hst, losesNothing_versioned _ _ st _ hfound (fun v hv => (hmem v hv).2) hkeyed
      _ hst]
    simp only [Harmless, hst]

/-! ### Examples -/

/-- A rule that expires everything after a day. -/
def afterOneDay : LifecycleRule where
  expiration := some { days := some 1 }

/-- An old object of a bucket without versioning. -/
def oldObject : LifecycleState where
  objects := .unversioned (Dict.empty.set "log" ⟨"log", none, true, some { lastModified := 0 }⟩)
  files := Dict.empty.set ⟨"bucket", "log", "null"⟩ [1, 2, 3]
  tags := Dict.empty

theorem lifecycle_expiry_of_oldObject :
    WellKeyed oldObject.objects ∧
      LosesNothing "bucket" (10 * dayLength) oldObject
        (Action.exec (expireBucketObjects (fun _ => none) "bucket" [afterOneDay] (10 * dayLength))
          oldObject).2 := by
  have hkeyed : WellKeyed oldObject.objects := by
    intro key v hv
    rcases Dict.get?_set_eq_some _ _ _ hv with ⟨rfl, hv⟩ | ⟨-, hv⟩
    · cases hv
      exact ⟨rfl, rfl⟩
    · cases hv
  refine ⟨hkeyed, (lifecycle_expiry_iff _ _ _ _ _ hkeyed).mpr fun v hv => ?_⟩
  have hdue : dueVersions (fun _ => none) [afterOneDay] (10 * dayLength) oldObject.objects.values =
      [⟨"log", none, true, some { lastModified := 0 }⟩] := by decide
  rw [hdue, mem_singleton] at hv
  rw [hv]
  rfl

/-- The same object as a locked version of a versioned bucket. -/
def oldVersion : LifecycleState where
  objects := .versioned (Dict.empty.set "log" (Dict.empty.set (some "v1")
    ⟨"log", some "v1", true, some { lastModified := 0, lockLegalStatus := some "ON" }⟩))
  files := Dict.empty.set ⟨"bucket", "log", "v1"⟩ [1, 2, 3]
  tags := Dict.empty

/-- A scan takes the bytes of a version and leaves its record. -/
theorem lifecycle_expiry_loses_bytes :
    ¬ LosesNothing "bucket" (10 * dayLength) oldVersion
      (Action.exec (expireBucketObjects (fun _ => none) "bucket" [afterOneDay] (10 * dayLength))
        oldVersion).2 := by
  intro h
  have hbytes := h.bytes "log" (some "v1")
    ⟨"log", some "v1", true, some { lastModified := 0, lockLegalStatus := some "ON" }⟩
    (by decide) rfl
  cases hbytes

end LocalEmu.S3
