import LocalEmu.Base.Paging
import LocalEmu.Core.S3.Listing

/-!
# Pages of Objects

One page of a listing of objects. The loop over the sorted objects passes over
those that are skipped or do not match, and of the others it takes the first
entries: a page is a prefix of the entries, and its token is the key of the
object that opens the next one.

The roll-ups of keys come first. In the order of the keys, the keys of a
roll-up are together, so a roll-up is one entry of any part of the listing that
starts or ends between entries.
-/

namespace LocalEmu.S3

open List Option

open Paging

/-! ### Roll-ups -/

section RollUps

variable (keyPrefix delimiter : Text)

theorem rollUp_eq_some (key r : Text) (h : rollUp keyPrefix delimiter key = some r) :
    ∃ pre, Text.before delimiter (key.drop keyPrefix.length) = some pre ∧ delimiter ≠ [] ∧
      r = keyPrefix ++ pre ++ delimiter := by
  rw [rollUp] at h
  split at h
  · cases h
  · next hne =>
      obtain ⟨pre, hpre, rfl⟩ := map_eq_some_iff.mp h
      exact ⟨pre, hpre, hne, rfl⟩

theorem rollUp_isPrefix (key r : Text) (hkey : keyPrefix <+: key)
    (h : rollUp keyPrefix delimiter key = some r) : r <+: key := by
  obtain ⟨pre, hpre, _, rfl⟩ := rollUp_eq_some _ _ _ r h
  obtain ⟨rest, rfl⟩ := hkey
  rw [drop_left] at hpre
  rw [append_assoc]
  exact (prefix_append_right_inj _).mpr (Text.before_eq_some _ _ _ hpre)

theorem rollUp_of_isPrefix (key key' r : Text) (h : rollUp keyPrefix delimiter key = some r)
    (hkey : r <+: key') : rollUp keyPrefix delimiter key' = some r := by
  obtain ⟨pre, hpre, hne, rfl⟩ := rollUp_eq_some _ _ _ r h
  obtain ⟨rest, rfl⟩ := hkey
  have hstart : pre ++ delimiter <+:
      (keyPrefix ++ pre ++ delimiter ++ rest).drop keyPrefix.length := by
    rw [append_assoc, append_assoc, drop_left, ← append_assoc]
    exact prefix_append _ _
  rw [rollUp, if_neg hne, Text.before_of_isPrefix _ _ _ _ hpre hstart]
  rfl

theorem rollUp_eq_none_iff (key : Text) :
    rollUp keyPrefix delimiter key = none ↔
      delimiter = [] ∨ ¬delimiter <:+: key.drop keyPrefix.length := by
  rw [rollUp]
  split
  · next hnil => exact iff_of_true rfl (.inl hnil)
  · next hne => rw [map_eq_none_iff, Text.before_eq_none_iff, or_iff_right hne]

/-- The keys of a roll-up are together. -/
theorem together_of_sorted {α : Type} (key : α → Text) (l : List α)
    (hsorted : l.Pairwise fun a b => key a ≤ key b) (hkeys : ∀ a ∈ l, keyPrefix <+: key a) :
    Together (fun a => rollUp keyPrefix delimiter (key a)) l := by
  rintro x a y b z rfl r ha hb c hc
  rw [pairwise_append] at hsorted
  have hmiddle := pairwise_cons.mp hsorted.2.1
  have hac : key a ≤ key c := hmiddle.1 c (mem_append_left _ hc)
  have hcb : key c ≤ key b := (pairwise_append.mp hmiddle.2).2.2 c hc b mem_cons_self
  have hstart : r <+: key c := by
    refine Text.isPrefix_of_between r _ _ _ ?_ ?_ hac hcb
    · exact rollUp_isPrefix _ _ _ _ (hkeys a (by simp)) ha
    · exact rollUp_isPrefix _ _ _ _ (hkeys b (by simp)) hb
  exact rollUp_of_isPrefix _ _ _ _ r ha hstart

end RollUps

/-! ### The loop -/

namespace ObjectsQuery

variable (q : ObjectsQuery)

variable (s3Object : ListedObject)

/-- The roll-up of an object, as the loop sees it. -/
def label : Option Text :=
  rollUp q.keyPrefix q.delimiter (shown q.encodingType s3Object.key)

/-- An object that the loop does not pass over. -/
def keeps : Bool :=
  !q.skips (shown q.encodingType s3Object.key) &&
    q.keyPrefix.isPrefixOf (shown q.encodingType s3Object.key)

variable (page : ObjectsPage)

def filled (here : List ListedObject) : ObjectsPage where
  commonPrefixes := page.commonPrefixes ++ here.filterMap q.label
  s3Objects :=
    page.s3Objects ++ (here.filter fun s3Object => (q.label s3Object).isNone).map q.objectData
  count := page.count + here.length

theorem filled_nil (h : page.nextContinuationToken = none)
    (h' : page.isTruncated = false) : q.filled page [] = page := by
  cases page
  simp_all [filled]

theorem filled_cons (s3Object : ListedObject) (here : List ListedObject) :
    q.filled page (s3Object :: here) = q.filled (q.addEntry s3Object page) here := by
  unfold filled addEntry
  rcases hlabel : q.label s3Object with _ | r
  · have hraw := hlabel
    rw [label] at hraw
    simp [hraw, hlabel]
    omega
  · have hraw := hlabel
    rw [label] at hraw
    simp [hraw, hlabel]
    omega

theorem isListed_eq : q.isListed s3Object page = true ↔
      ∃ r, q.label s3Object = some r ∧ r ∈ page.commonPrefixes := by
  unfold isListed
  rcases hlabel : q.label s3Object with _ | r
  · have hraw := hlabel
    rw [label] at hraw
    simp [hraw]
  · have hraw := hlabel
    rw [label] at hraw
    simp [hraw]

/-- The page that the loop leaves: the first of the entries, and the key of the one after them. -/
def paged (m : Nat) (page : ObjectsPage) (entries : List ListedObject) : ObjectsPage where
  commonPrefixes := (q.filled page (entries.take (m - page.count))).commonPrefixes
  s3Objects := (q.filled page (entries.take (m - page.count))).s3Objects
  count := (q.filled page (entries.take (m - page.count))).count
  isTruncated := entries[m - page.count]?.isSome
  nextContinuationToken := entries[m - page.count]?.map fun s3Object =>
    encodeContinuationToken s3Object.key

theorem paged_cons (m : Nat) (page : ObjectsPage) (s3Object : ListedObject)
    (entries : List ListedObject) (h : page.count < m) :
    q.paged m page (s3Object :: entries) = q.paged m (q.addEntry s3Object page) entries := by
  have hcount : (q.addEntry s3Object page).count = page.count + 1 := by
    unfold addEntry
    split <;> rfl
  obtain ⟨k, hk⟩ : ∃ k, m - page.count = k + 1 := ⟨m - page.count - 1, by omega⟩
  have hk' : m - (page.count + 1) = k := by omega
  unfold paged
  rw [hcount, hk, hk', take_succ_cons, getElem?_cons_succ, filled_cons]

/-- What the loop over the objects collects. -/
theorem collect_objects (m : Nat) (hm : q.maxKeys = m) (s3Objects : List ListedObject)
    (page : ObjectsPage) (hnext : page.nextContinuationToken = none)
    (htruncated : page.isTruncated = false) :
    q.collect s3Objects page =
      q.paged m page (heads q.label page.commonPrefixes (s3Objects.filter q.keeps)) := by
  induction s3Objects generalizing page with
  | nil =>
    have hnil := q.filled_nil page hnext htruncated
    unfold collect paged
    rw [filter_nil, heads, take_nil]
    cases page
    simp_all
  | cons s3Object s3Objects ih =>
    rw [collect]
    -- An object that is skipped or does not match is filtered out.
    split
    · next hskip =>
        rw [filter_cons_of_neg (by simp [keeps, hskip]), ih _ hnext htruncated]
    · next hskip =>
        split
        · next hmatch =>
            rw [filter_cons_of_neg (by simp [keeps, hmatch]), ih _ hnext htruncated]
        · next hmatch =>
            have hkeep : q.keeps s3Object = true := by simpa [keeps, hskip] using hmatch
            rw [filter_cons_of_pos hkeep]
            split
            · next hlisted =>
                obtain ⟨r, hr, hseen⟩ := (q.isListed_eq s3Object page).mp hlisted
                rw [heads_cons_seen _ _ _ r hr hseen, ih _ hnext htruncated]
            · next hlisted =>
                -- Any other object opens an entry.
                have hadd : heads q.label page.commonPrefixes
                    (s3Object :: s3Objects.filter q.keeps) =
                    s3Object :: heads q.label (q.addEntry s3Object page).commonPrefixes
                      (s3Objects.filter q.keeps) := by
                  rcases hlabel : q.label s3Object with _ | r
                  · have hraw := hlabel
                    rw [label] at hraw
                    rw [heads_cons_none _ _ _ hlabel, addEntry, hraw]
                  · have hnew : r ∉ page.commonPrefixes := fun hseen =>
                      hlisted ((q.isListed_eq s3Object page).mpr ⟨r, hlabel, hseen⟩)
                    have hraw := hlabel
                    rw [label] at hraw
                    rw [heads_cons_new _ _ _ r hlabel hnew, addEntry, hraw]
                    congr 1
                    refine heads_congr _ _ _ fun b _ s _ => ?_
                    rw [mem_append, mem_cons, mem_singleton, or_comm]
                rw [hadd]
                split
                · next hfull =>
                    have hzero : m - page.count = 0 := by omega
                    have hnil := q.filled_nil page hnext htruncated
                    unfold paged
                    rw [hzero, take_zero, hnil]
                    rfl
                · next hroom =>
                    rw [paged_cons q m _ _ _ (by omega)]
                    refine ih _ ?_ ?_
                    · unfold addEntry
                      split <;> exact hnext
                    · unfold addEntry
                      split <;> exact htruncated

end ObjectsQuery

/-! ### Stores -/

/-- Every version is stored under its own key and id. -/
def ListedStore.Filed : ListedStore → Prop
  | .unversioned objects => ∀ e ∈ objects.entries, e.2.key = e.1 ∧ e.2.versionId = none
  | .versioned objects => ∀ e ∈ objects.entries, ∀ f ∈ e.2.entries,
      f.2.key = e.1 ∧ f.2.versionId = f.1

theorem currentObject_key (key : Text) (versions : Dict (Option Text) ListedVersion)
    (hfiled : ∀ f ∈ versions.entries, f.2.key = key) (s3Object : ListedObject)
    (h : ListedStore.currentObject versions = some s3Object) : s3Object.key = key := by
  rw [ListedStore.currentObject] at h
  split at h
  · next f hlast =>
      have hmem := mem_of_getLast? hlast
      rw [← some.inj h]
      exact hfiled _ hmem
  · cases h

theorem filterMap_sublist_map {α β : Type} (f : α → Option β) (g : α → β) (l : List α)
    (h : ∀ a ∈ l, ∀ b, f a = some b → b = g a) : (l.filterMap f).Sublist (l.map g) := by
  induction l with
  | nil => exact List.Sublist.refl _
  | cons a l ih =>
    have htail := ih fun b hb => h b (mem_cons_of_mem a hb)
    rcases ha : f a with _ | b
    · rw [filterMap_cons_none ha]
      exact htail.cons _
    · rw [filterMap_cons_some ha, h a mem_cons_self b ha]
      exact htail.cons_cons _

variable (objects : ListedStore)

theorem nodup_keys_values (h : objects.Filed) : (objects.values.map ListedObject.key).Nodup := by
  cases objects with
  | unversioned objects =>
    have hkeys : objects.values.map ListedObject.key = objects.entries.map Prod.fst := by
      rw [Dict.values, List.map_map]
      exact map_congr_left fun e he => (h e he).1
    rw [ListedStore.values, hkeys]
    exact objects.nodup
  | versioned objects =>
    rw [ListedStore.values, Dict.values, filterMap_map, map_filterMap]
    -- The keys of the current objects are some of the keys of the store.
    refine objects.nodup.sublist (filterMap_sublist_map _ _ _ fun e he key hkey => ?_)
    obtain ⟨s3Object, hcurrent, rfl⟩ := map_eq_some_iff.mp hkey
    exact currentObject_key e.1 e.2 (fun f hf => (h e he f hf).1) _ hcurrent

/-! ### Sorting -/

theorem sortedObjects_perm : (sortedObjects objects).Perm objects.values :=
  perm_insertionSort _ _

theorem sortedObjects_pairwise (h : objects.Filed) :
    (sortedObjects objects).Pairwise fun a b => a.key < b.key := by
  have hsorted : (sortedObjects objects).Pairwise fun a b => a.key ≤ b.key := by
    exact pairwise_insertionSort _ _
  have hnodup : ((sortedObjects objects).map ListedObject.key).Nodup :=
    ((sortedObjects_perm _).map _).nodup_iff.mpr (nodup_keys_values _ h)
  have hne : (sortedObjects objects).Pairwise fun a b => a.key ≠ b.key := pairwise_map.mp hnodup
  exact (hsorted.and hne).imp fun hab => lt_of_le_of_ne hab.1 hab.2

/-! ### Clients -/

/-- `encoding_type`, with or without quoting. -/
def encoding (url : Bool) : Option Text := if url then some encodingUrl else none

section Client

variable (bucket : ListedBucket) (url fetchOwner : Bool) (keyPrefix delimiter : Option Text)
  (m : Nat)

def pageOfObjects (token : Option Text) : ListObjectsRequest where
  delimiter := delimiter
  encodingType := encoding url
  maxKeys := some m
  keyPrefix := keyPrefix
  continuationToken := token
  fetchOwner := fetchOwner

/-- The objects under the prefix, in the order of their keys. -/
def matchingObjects : List ListedObject :=
  (sortedObjects bucket.objects).filter fun s3Object =>
    (keyPrefix.getD []).isPrefixOf s3Object.key

def objectRollUp (s3Object : ListedObject) : Option Text :=
  rollUp (keyPrefix.getD []) (delimiter.getD []) s3Object.key

/-! ### Keys as they are shown -/

theorem shown_injective (encodingType : Option Text) : Function.Injective (shown encodingType) := by
  intro s t h
  unfold shown at h
  split at h
  · exact Text.quote_inj s t h
  · exact h

theorem shown_isPrefix_iff (encodingType : Option Text) (s t : Text) :
    shown encodingType s <+: shown encodingType t ↔ s <+: t := by
  unfold shown
  split
  · exact Text.quote_isPrefix_iff s t
  · rfl

/-- The roll-up of an object, as the loop sees it. -/
def shownRollUp (s3Object : ListedObject) : Option Text :=
  rollUp (shown (encoding url) (keyPrefix.getD [])) (shown (encoding url) (delimiter.getD []))
    (shown (encoding url) s3Object.key)

variable (start : Option Text)

/-- The objects of a page that starts at a key. -/
def objectsFrom : List ListedObject :=
  (matchingObjects bucket keyPrefix).filter fun s3Object =>
    !start.any fun key => decide (shown (encoding url) s3Object.key < shown (encoding url) key)

/-- The objects that open an entry of a page that starts at a key. -/
def entriesFrom : List ListedObject :=
  heads (shownRollUp url keyPrefix delimiter) [] (objectsFrom bucket url keyPrefix start)

/-- A page shows the entries of some objects. -/
def ShowsObjects (page : ListObjectsV2Output) (entries : List ListedObject) : Prop :=
  page.contents.length + page.commonPrefixes.length ≤ m ∧
    page.contents.map ObjectEntry.key =
      (entries.filter fun s3Object => (shownRollUp url keyPrefix delimiter s3Object).isNone).map
        (fun s3Object => shown (encoding url) s3Object.key) ∧
    page.commonPrefixes.Perm (entries.filterMap (shownRollUp url keyPrefix delimiter))

/-- Pages that show the entries of some objects together. -/
def ShowObjects (pages : List ListObjectsV2Output) (entries : List ListedObject) : Prop :=
  (∀ page ∈ pages, page.contents.length + page.commonPrefixes.length ≤ m) ∧
    (pages.flatMap fun page => page.contents.map ObjectEntry.key) =
      (entries.filter fun s3Object => (shownRollUp url keyPrefix delimiter s3Object).isNone).map
        (fun s3Object => shown (encoding url) s3Object.key) ∧
    (pages.flatMap ListObjectsV2Output.commonPrefixes).Perm
      (entries.filterMap (shownRollUp url keyPrefix delimiter))

theorem showObjects_count :
    PageCount (ShowsObjects url keyPrefix delimiter m) (ShowObjects url keyPrefix delimiter m) where
  single page entries h := by
    obtain ⟨hbound, hcontents, hprefixes⟩ := h
    refine ⟨?_, ?_, ?_⟩
    · intro page' hpage'
      rw [mem_singleton.mp hpage']
      exact hbound
    · rw [flatMap_singleton, hcontents]
    · rw [flatMap_singleton]
      exact hprefixes
  cons page pages entries entries' h := by
    obtain ⟨hbound, hcontents, hprefixes⟩ := h
    unfold ShowObjects
    rw [forall_mem_cons, flatMap_cons, flatMap_cons, filter_append,
      map_append, filterMap_append, hcontents, append_cancel_left_eq,
      and_iff_right hbound]
    rw [perm_append_iff _ _ _ _ hprefixes]

/-! ### One page -/

/-- The query of the page that starts at a key. -/
def objectsQuery : ObjectsQuery where
  encodingType := encoding url
  keyPrefix := shown (encoding url) (keyPrefix.getD [])
  delimiter := shown (encoding url) (delimiter.getD [])
  maxKeys := pageSize (some m)
  continuation := start.map (shown (encoding url))
  startAfter := shown (encoding url) []
  owner := if fetchOwner then some bucket.owner else none

theorem validateEncodingType_encoding : validateEncodingType (encoding url) = .ok ⟨⟩ := by
  cases url <;> rfl

theorem filter_keeps : (sortedObjects bucket.objects).filter
        (objectsQuery bucket url fetchOwner keyPrefix delimiter m start).keeps =
      objectsFrom bucket url keyPrefix start := by
  have hnil : shown (encoding url) [] = [] := by cases url <;> rfl
  unfold objectsFrom matchingObjects
  rw [List.filter_filter]
  refine filter_congr fun s3Object _ => ?_
  have hstarts : (shown (encoding url) (keyPrefix.getD [])).isPrefixOf
      (shown (encoding url) s3Object.key) = (keyPrefix.getD []).isPrefixOf s3Object.key := by
    rw [Bool.eq_iff_iff, isPrefixOf_iff_prefix, isPrefixOf_iff_prefix, shown_isPrefix_iff]
  unfold ObjectsQuery.keeps ObjectsQuery.skips objectsQuery
  cases start with
  | none => simp [hstarts, hnil]
  | some => simp [hstarts]

theorem listObjectsV2_ok (request : ListObjectsRequest) (decoded : Text)
    (htoken : request.continuationToken ≠ some [])
    (hvalid : validateEncodingType request.encodingType = .ok ⟨⟩)
    (hdecode : decodeContinuationToken request.continuationToken = .ok decoded) :
    listObjectsV2 bucket request = .ok (objectsResponse bucket request
      (request.query bucket decoded)
      ((request.query bucket decoded).collect (sortedObjects bucket.objects) {})) := by
  rw [listObjectsV2, if_neg htoken, hvalid, hdecode]
  rfl

/-- The first of the entries from a key on, and the token of the next one. -/
structure PageFrom (page : ListObjectsV2Output) (start : Option Text) : Prop where
  shows : ShowsObjects url keyPrefix delimiter m page
    ((entriesFrom bucket url keyPrefix delimiter start).take m)
  next : page.nextContinuationToken =
    nonEmpty ((entriesFrom bucket url keyPrefix delimiter start)[m]?.map fun s3Object =>
      encodeContinuationToken s3Object.key)

theorem listObjectsV2_page (hm : 0 < m) (token start : Option Text) (htoken : token ≠ some [])
    (hstart : start.isSome = token.isSome)
    (hdecode : decodeContinuationToken token = .ok (start.getD [])) :
    ∃ page, listObjectsV2 bucket (pageOfObjects url fetchOwner keyPrefix delimiter m token) =
        .ok page ∧
      PageFrom bucket url keyPrefix delimiter m page start := by
  have hsize : pageSize (some (m : Int)) = m := by
    rw [pageSize, if_neg (by simp; omega)]
    rfl
  have hquery : (pageOfObjects url fetchOwner keyPrefix delimiter m token).query bucket
      (start.getD []) = objectsQuery bucket url fetchOwner keyPrefix delimiter m start := by
    cases token with
    | none =>
      cases start with
      | none => rfl
      | some => cases hstart
    | some =>
      cases start with
      | none => cases hstart
      | some => rfl
  have hcollect := (objectsQuery bucket url fetchOwner keyPrefix delimiter m start).collect_objects
    m hsize (sortedObjects bucket.objects) {} rfl rfl
  rw [filter_keeps] at hcollect
  have hcall := listObjectsV2_ok bucket
    (pageOfObjects url fetchOwner keyPrefix delimiter m token) _ htoken
    (validateEncodingType_encoding _) hdecode
  rw [hquery, hcollect] at hcall
  refine ⟨_, hcall, ⟨?_, ?_, ?_⟩, rfl⟩
  · have hlength := length_filter_add_filterMap (shownRollUp url keyPrefix delimiter)
      ((entriesFrom bucket url keyPrefix delimiter start).take m)
    rw [length_take] at hlength
    change ([] ++ map _ _).length + (insertionSort _ ([] ++ _)).length ≤ m
    rw [nil_append, length_map, length_insertionSort]
    exact le_trans (le_of_eq hlength) (Nat.min_le_left _ _)
  · change map _ ([] ++ map _ _) = _
    rw [List.nil_append, List.map_map]
    rfl
  · exact perm_insertionSort _ _

/-! ### Tokens -/

variable (key : Text)

theorem encodeContinuationToken_eq_nil_iff : encodeContinuationToken key = [] ↔ key = [] := by
  constructor
  · intro h
    cases key with
    | nil => rfl
    | cons c =>
      refine absurd h (Base64.encode_ne_nil _ ?_)
      exact fun hnil => utf8EncodeChar_prefixCode.ne_nil c (append_eq_nil_iff.mp hnil).1
  · rintro rfl
    rfl

theorem decodeContinuationToken_encode (h : key.isAscii = true) :
    decodeContinuationToken (some (encodeContinuationToken key)) = .ok key := by
  rw [decodeContinuationToken, encodeContinuationToken, Base64.decode_encode]
  simp only [Text.decodeAscii_utf8, h, if_true]

theorem decodeContinuationToken_of_not_ascii (h : key.isAscii = false) :
    ∃ error, decodeContinuationToken (some (encodeContinuationToken key)) = .error error := by
  rw [decodeContinuationToken, encodeContinuationToken, Base64.decode_encode]
  simp only [Text.decodeAscii_utf8, h, Bool.false_eq_true, if_false]
  exact ⟨_, rfl⟩

theorem listObjectsV2_undecodable (request : ListObjectsRequest) (error : ListError)
    (htoken : request.continuationToken ≠ some [])
    (hdecode : decodeContinuationToken request.continuationToken = .error error) :
    ∃ error', listObjectsV2 bucket request = .error error' := by
  rw [listObjectsV2, if_neg htoken, hdecode]
  rcases validateEncodingType request.encodingType with e | _
  · exact ⟨e, rfl⟩
  · exact ⟨error, rfl⟩

/-- The calls of a client. -/
def objectsCall (token : Option Text) : Except ListError ListObjectsV2Output :=
  listObjectsV2 bucket (pageOfObjects url fetchOwner keyPrefix delimiter m token)

def objectsNext (page : ListObjectsV2Output) : Option (Option Text) :=
  page.nextContinuationToken.map some

/-- The pages that a client gets. -/
def ObjectsWalk : Option Text → List ListObjectsV2Output → Prop :=
  Walk (objectsCall bucket url fetchOwner keyPrefix delimiter m) objectsNext

/-- The page at a token. -/
theorem objectsCall_start (hm : 0 < m) (start : Option Text) (hne : start ≠ some [])
    (hascii : ∀ key, start = some key → key.isAscii = true) :
    ∃ page, objectsCall bucket url fetchOwner keyPrefix delimiter m
        (start.map encodeContinuationToken) = .ok page ∧
      PageFrom bucket url keyPrefix delimiter m page start := by
  refine listObjectsV2_page _ _ _ _ _ m hm _ _ ?_ ?_ ?_
  · intro h
    obtain ⟨key, rfl, hkey⟩ := map_eq_some_iff.mp h
    exact hne (congrArg some ((encodeContinuationToken_eq_nil_iff key).mp hkey))
  · rw [isSome_map]
  · cases start with
    | none => rfl
    | some => exact decodeContinuationToken_encode _ (hascii _ rfl)

theorem objectsCall_not_ascii (hascii : key.isAscii = false) :
    ∃ error, objectsCall bucket url fetchOwner keyPrefix delimiter m
      (some (encodeContinuationToken key)) = .error error := by
  obtain ⟨error, herror⟩ := decodeContinuationToken_of_not_ascii _ hascii
  refine listObjectsV2_undecodable _ _ _ (fun h => ?_) herror
  rw [(encodeContinuationToken_eq_nil_iff _).mp (some.inj h)] at hascii
  cases hascii

theorem objectsCall_ok (hm : 0 < m) (start : Option Text) (hne : start ≠ some [])
    (page : ListObjectsV2Output)
    (hcall : objectsCall bucket url fetchOwner keyPrefix delimiter m
      (start.map encodeContinuationToken) = .ok page) :
    PageFrom bucket url keyPrefix delimiter m page start := by
  have hascii : ∀ key, start = some key → key.isAscii = true := by
    rintro key rfl
    by_contra hascii
    obtain ⟨error, herror⟩ := objectsCall_not_ascii _ _ _ _ _ m _ (Bool.not_eq_true _ ▸ hascii)
    exact absurd (herror.symm.trans hcall) (by simp)
  obtain ⟨page', hcall', hshows, hnext⟩ := objectsCall_start _ _ _ _ _ m hm _ hne hascii
  obtain rfl := Except.ok.inj (hcall'.symm.trans hcall)
  exact ⟨hshows, hnext⟩

end Client

end LocalEmu.S3
