import LocalEmu.Theory.S3.ObjectPages

/-!
# Pages of Versions

One page of a listing of versions. The loop passes over the versions up to the
markers, and of the others it takes entries until the page is full. It then ends
after the last entry, unless the version that opened it has the version id of
the last of all versions: in that case the loop goes on.
-/

namespace LocalEmu.S3

open List

open Paging

namespace VersionsQuery

variable (q : VersionsQuery)

variable (version : ListedVersion)

def label : Option Text :=
  rollUp q.keyPrefix q.delimiter (shown q.encodingType version.key)

/-- The versions that the check of the markers lets through, up to an exception. -/
def passed : List ListedVersion → Bool → List ListedVersion
  | [], _ => []
  | version :: versions, found =>
    match q.skips version found with
    | .error _ => []
    | .ok (true, found) => passed versions found
    | .ok (false, found) => version :: passed versions found

/-- The roll-up of a version is one that the key marker has. -/
def isBehind : Bool :=
  (q.label version).any fun r => q.keyMarker.any fun keyMarker => r.isPrefixOf keyMarker

/-- A version that opens an entry, or belongs to one that this page has. -/
def keeps : Bool :=
  q.keyPrefix.isPrefixOf (shown q.encodingType version.key) && !q.isBehind version

/-- The page that the loop makes of some entries. -/
def fill (page : VersionsPage) : List ListedVersion → VersionsPage
  | [] => page
  | version :: entries =>
    if q.maxKeys ≤ (q.addEntry version page).count ∧ q.lastVersionId ≠ version.versionId then
      q.truncate version (q.addEntry version page)
    else fill (q.addEntry version page) entries

variable (page : VersionsPage)

theorem isListed_eq : q.isListed version page = true ↔
      (∃ r, q.label version = some r ∧ r ∈ page.commonPrefixes) ∨ q.isBehind version = true := by
  unfold isListed isBehind
  rcases hlabel : q.label version with _ | r
  · have hraw := hlabel
    rw [label] at hraw
    simp [hraw]
  · have hraw := hlabel
    rw [label] at hraw
    simp [hraw]

theorem addEntry_commonPrefixes : (q.addEntry version page).commonPrefixes =
      page.commonPrefixes ++ (q.label version).toList := by
  unfold addEntry label
  rcases rollUp q.keyPrefix q.delimiter (shown q.encodingType version.key) with _ | r
  · cases version <;> simp
  · rfl

theorem heads_addEntry (l : List ListedVersion)
    (hnew : ¬∃ r, q.label version = some r ∧ r ∈ page.commonPrefixes) :
    heads q.label page.commonPrefixes (version :: l) =
      version :: heads q.label (q.addEntry version page).commonPrefixes l := by
  rw [addEntry_commonPrefixes]
  rcases hlabel : q.label version with _ | r
  · rw [heads_cons_none _ _ _ hlabel, Option.toList_none, append_nil]
  · rw [heads_cons_new _ _ _ r hlabel fun h => hnew ⟨r, hlabel, h⟩]
    congr 1
    refine heads_congr _ _ _ fun b _ s _ => ?_
    rw [Option.toList_some, mem_append, mem_cons, mem_singleton, or_comm]

/-- What the loop over the versions collects. -/
theorem collect_versions (versions : List ListedVersion) (found : Bool) (page : VersionsPage)
    (hok : ∀ version ∈ versions, ∀ found, ∃ r, q.skips version found = .ok r) :
    q.collect versions found page =
      .ok (q.fill page (heads q.label page.commonPrefixes
        ((q.passed versions found).filter q.keeps))) := by
  induction versions generalizing found page with
  | nil => rfl
  | cons version versions ih =>
    have hrest := fun found page => ih found page fun v hv => hok v (mem_cons_of_mem _ hv)
    obtain ⟨⟨skip, found'⟩, hskip⟩ := hok _ mem_cons_self _
    rw [collect, passed, hskip]
    cases skip with
    | true => exact hrest _ _
    | false =>
      simp only
      split
      · next hmatch =>
          rw [filter_cons_of_neg (by simp [keeps, hmatch]), hrest]
      · next hmatch =>
          rw [not_not] at hmatch
          split
          · next hlisted =>
              rcases (q.isListed_eq version page).mp hlisted with ⟨r, hr, hseen⟩ | hbehind
              · -- The entry is on the page already.
                rw [hrest]
                by_cases hkeep : q.keeps version = true
                · rw [filter_cons_of_pos hkeep, heads_cons_seen _ _ _ r hr hseen]
                · rw [filter_cons_of_neg hkeep]
              · rw [filter_cons_of_neg (by simp [keeps, hbehind]), hrest]
          · next hlisted =>
              have hnot := mt (q.isListed_eq version page).mpr hlisted
              rw [not_or] at hnot
              have hkeep : q.keeps version = true := by simp [keeps, hmatch, hnot.2]
              rw [filter_cons_of_pos hkeep, heads_addEntry q _ _ _ hnot.1, fill]
              split
              · rfl
              · exact hrest _ _

/-! ### How a page ends -/

/-- The entry of a version in the list of versions. -/
def versionOf : Option VersionEntry :=
  match q.label version, version with
  | none, .object s3Object => some (q.objectVersion s3Object)
  | _, _ => none

/-- The entry of a version in the list of delete markers. -/
def markerOf : Option MarkerEntry :=
  match q.label version, version with
  | none, .marker marker => some (q.deleteMarker marker)
  | _, _ => none

def filled (here : List ListedVersion) : VersionsPage where
  commonPrefixes := page.commonPrefixes ++ here.filterMap q.label
  objectVersions := page.objectVersions ++ here.filterMap q.versionOf
  deleteMarkers := page.deleteMarkers ++ here.filterMap q.markerOf
  count := page.count + here.length
  isTruncated := page.isTruncated
  nextKeyMarker := page.nextKeyMarker
  nextVersionIdMarker := page.nextVersionIdMarker

theorem filled_nil : q.filled page [] = page := by
  simp [filled]

theorem filled_cons (version : ListedVersion) (here : List ListedVersion) :
    q.filled page (version :: here) = q.filled (q.addEntry version page) here := by
  have hcount : page.count + (here.length + 1) = page.count + 1 + here.length := by omega
  unfold filled addEntry
  rcases hlabel : q.label version with _ | r
  · have hraw := hlabel
    rw [label] at hraw
    cases version with
    | object | marker => simp [hraw, hlabel, versionOf, markerOf, hcount]
  · have hraw := hlabel
    rw [label] at hraw
    simp [hraw, hlabel, versionOf, markerOf, hcount]

theorem addEntry_count : (q.addEntry version page).count = page.count + 1 := by
  unfold addEntry
  split
  · rfl
  · cases version <;> rfl

theorem truncate_count : (q.truncate version page).count = page.count := by
  unfold truncate
  split <;> rfl

variable (entries : List ListedVersion)

theorem count_le_fill (page : VersionsPage) : page.count ≤ (q.fill page entries).count := by
  induction entries generalizing page with
  | nil => exact le_rfl
  | cons version entries ih =>
    have hadd := q.addEntry_count version page
    rw [fill]
    split
    · rw [truncate_count]
      omega
    · have hrest := ih (q.addEntry version page)
      omega

/-- How a page ends: there are no more entries, or it ends after the entry that
    fills it, or that entry is the last one, or the page gets too long. -/
theorem fill_cases (m : Nat) (hm : q.maxKeys = m) (entries : List ListedVersion)
    (page : VersionsPage) (hroom : page.count < m) :
    (entries.length < m - page.count ∧ q.fill page entries = q.filled page entries) ∨
      ∃ version, entries[m - page.count - 1]? = some version ∧
        ((q.lastVersionId ≠ version.versionId ∧ q.fill page entries =
            q.truncate version (q.filled page (entries.take (m - page.count)))) ∨
          (q.lastVersionId = version.versionId ∧ entries.length = m - page.count ∧
            q.fill page entries = q.filled page entries) ∨
          (q.lastVersionId = version.versionId ∧ m - page.count < entries.length ∧
            m < (q.fill page entries).count)) := by
  induction entries generalizing page with
  | nil =>
    refine .inl ⟨by rw [length_nil]; omega, ?_⟩
    rw [filled_nil]
    rfl
  | cons version entries ih =>
    have hadd := q.addEntry_count version page
    rw [fill, filled_cons]
    by_cases hfull : page.count + 1 < m
    · -- There is room for another entry after this one.
      have hnext := ih (q.addEntry version page) (by omega)
      rw [hadd] at hnext
      obtain ⟨k, hk⟩ : ∃ k, m - page.count = k + 2 := ⟨m - page.count - 2, by omega⟩
      have hk' : m - (page.count + 1) = k + 1 := by omega
      rw [hk'] at hnext
      have hlt : k + 2 < entries.length + 1 ↔ k + 1 < entries.length := by omega
      rw [hk, if_neg (by omega), take_succ_cons, filled_cons]
      simpa [hlt] using hnext
    · have hone : m - page.count = 1 := by omega
      rw [hone]
      refine .inr ⟨version, rfl, ?_⟩
      by_cases hlast : q.lastVersionId = version.versionId
      · rw [if_neg (by simp [hlast])]
        refine .inr ?_
        cases entries with
        | nil => exact .inl ⟨hlast, rfl, by rw [filled_nil]; rfl⟩
        | cons version' entries =>
          refine .inr ⟨hlast, by simp, ?_⟩
          have hadd' := q.addEntry_count version' (q.addEntry version page)
          rw [fill]
          split
          · rw [truncate_count]
            omega
          · have hrest := q.count_le_fill entries
              (q.addEntry version' (q.addEntry version page))
            omega
      · rw [if_pos ⟨by omega, hlast⟩]
        refine .inl ⟨hlast, ?_⟩
        rw [take_succ_cons, take_zero, filled_cons, filled_nil]

/-! ### What a page has -/

theorem length_entries (here : List ListedVersion) :
    (here.filterMap q.versionOf).length + (here.filterMap q.markerOf).length +
      (here.filterMap q.label).length = here.length := by
  induction here with
  | nil => rfl
  | cons version =>
    rw [filterMap_cons, filterMap_cons, filterMap_cons]
    rcases hlabel : q.label version with _ | r
    · cases version with
      | object | marker =>
        simp only [versionOf, markerOf, hlabel, length_cons]
        omega
    · simp only [versionOf, markerOf, hlabel, length_cons]
      omega

/-- The count of a page is the number of its entries. -/
def Counted : Prop :=
  page.count =
    page.objectVersions.length + page.deleteMarkers.length + page.commonPrefixes.length

theorem counted_addEntry (h : Counted page) : Counted (q.addEntry version page) := by
  unfold Counted at h ⊢
  unfold addEntry
  split
  · simp
    omega
  · cases version with
    | object | marker =>
      simp
      omega

theorem counted_fill (page : VersionsPage) (h : Counted page) : Counted (q.fill page entries) := by
  induction entries generalizing page with
  | nil => exact h
  | cons version entries ih =>
    have hadd := q.counted_addEntry version page h
    rw [fill]
    split
    · unfold truncate
      split <;> exact hadd
    · exact ih _ hadd

theorem subset_fill (page : VersionsPage) :
    page.objectVersions ⊆ (q.fill page entries).objectVersions ∧
      page.deleteMarkers ⊆ (q.fill page entries).deleteMarkers := by
  induction entries generalizing page with
  | nil => exact ⟨List.Subset.refl _, List.Subset.refl _⟩
  | cons version entries ih =>
    have hadd : page.objectVersions ⊆ (q.addEntry version page).objectVersions ∧
        page.deleteMarkers ⊆ (q.addEntry version page).deleteMarkers := by
      unfold addEntry
      split
      · exact ⟨List.Subset.refl _, List.Subset.refl _⟩
      · cases version with
        | object => exact ⟨subset_append_left _ _, List.Subset.refl _⟩
        | marker => exact ⟨List.Subset.refl _, subset_append_left _ _⟩
    rw [fill]
    split
    · unfold truncate
      split <;> exact hadd
    · have hrest := ih (q.addEntry version page)
      exact ⟨List.Subset.trans hadd.1 hrest.1, List.Subset.trans hadd.2 hrest.2⟩

theorem first_mem_fill (version : ListedVersion) (entries : List ListedVersion)
    (page : VersionsPage) :
    (∀ e, q.versionOf version = some e →
        e ∈ (q.fill page (version :: entries)).objectVersions) ∧
      ∀ e, q.markerOf version = some e →
        e ∈ (q.fill page (version :: entries)).deleteMarkers := by
  have hadd : (∀ e, q.versionOf version = some e →
        e ∈ (q.addEntry version page).objectVersions) ∧
      ∀ e, q.markerOf version = some e → e ∈ (q.addEntry version page).deleteMarkers := by
    have hfilled := q.filled_cons page version []
    rw [filled_nil] at hfilled
    rw [← hfilled]
    constructor
    · intro e he
      exact mem_append_right _ (mem_filterMap.mpr ⟨version, mem_cons_self, he⟩)
    · intro e he
      exact mem_append_right _ (mem_filterMap.mpr ⟨version, mem_cons_self, he⟩)
  rw [fill]
  split
  · unfold truncate
    split <;> exact hadd
  · have hsub := q.subset_fill entries (q.addEntry version page)
    exact ⟨fun e he => hsub.1 (hadd.1 e he), fun e he => hsub.2 (hadd.2 e he)⟩

end VersionsQuery

/-! ### Stores -/

/-- A version id: `null`, or one that was generated. -/
def IsVersionId (id : Text) : Prop :=
  id = nullVersionId ∨
    ∃ sequence token, token.length = 18 ∧ id = generateSafeVersionId sequence token

/-- No key is empty, and every version of a versioned bucket has a version id. -/
def ListedStore.Named : ListedStore → Prop
  | .unversioned objects => ∀ e ∈ objects.entries, e.1 ≠ []
  | .versioned objects => ∀ e ∈ objects.entries, e.1 ≠ [] ∧
      ∀ f ∈ e.2.entries, ∃ id, f.1 = some id ∧ IsVersionId id

theorem generateSafeVersionId_eq (sequence : Nat) (token : List UInt8) (h : token.length = 18) :
    generateSafeVersionId sequence token = Base64.encode (bigEndian sequence 6 ++ token) := by
  have hlength : (bigEndian sequence 6 ++ token).length = 24 := by simp [bigEndian, h]
  rw [generateSafeVersionId, rdropWhile_eq_self_iff]
  intro hne hpad
  have hlast := getLast_mem hne
  rw [of_decide_eq_true hpad] at hlast
  exact Base64.pad_not_mem_encode _ (by rw [hlength]; decide) hlast

theorem IsVersionId.decode {id : Text} (h : IsVersionId id) :
    id ≠ [] ∧ ∃ bytes, Base64.decode id = .ok bytes := by
  rcases h with rfl | ⟨sequence, token, htoken, rfl⟩
  · exact ⟨by decide, [0x9e, 0xe9, 0x65], by decide⟩
  · rw [generateSafeVersionId_eq _ _ htoken]
    refine ⟨Base64.encode_ne_nil _ fun hnil => ?_, _, Base64.decode_encode _⟩
    rw [(append_eq_nil_iff.mp hnil).2] at htoken
    cases htoken

/-- What a listing relies on: the versions are sorted by key, no version occurs twice, either no
    version has an id or all ids can be decoded, and no key is empty. -/
structure Listable (versions : List ListedVersion) : Prop where
  sorted : versions.Pairwise fun a b => a.key ≤ b.key
  distinct : versions.Pairwise fun a b => a.key = b.key → a.versionId ≠ b.versionId
  ids : (∀ version ∈ versions, version.versionId = none) ∨
    ∀ version ∈ versions, ∃ id, version.versionId = some id ∧ id ≠ [] ∧
      ∃ bytes, Base64.decode id = .ok bytes
  keys : ∀ version ∈ versions, version.key ≠ []

theorem Listable.filter {versions : List ListedVersion} (h : Listable versions)
    (p : ListedVersion → Bool) : Listable (versions.filter p) where
  sorted := h.sorted.filter p
  distinct := h.distinct.filter p
  ids := h.ids.imp (fun hids version hv => hids version (mem_filter.mp hv).1)
    fun hids version hv => hids version (mem_filter.mp hv).1
  keys version hv := h.keys version (mem_filter.mp hv).1

variable (objects : ListedStore)

theorem sortedVersions_perm : (sortedVersions objects).Perm objects.valuesWithVersions :=
  perm_insertionSort _ _

theorem sortedVersions_pairwise : (sortedVersions objects).Pairwise fun a b =>
      a.key < b.key ∨ a.key = b.key ∧ b.lastModified ≤ a.lastModified := by
  have htrans : IsTrans ListedVersion fun a b =>
      a.key < b.key ∨ a.key = b.key ∧ b.lastModified ≤ a.lastModified := by
    refine ⟨fun a b c hab hbc => ?_⟩
    rcases hab with hab | ⟨hab, hab'⟩ <;> rcases hbc with hbc | ⟨hbc, hbc'⟩
    · exact .inl (lt_trans hab hbc)
    · exact .inl (hbc ▸ hab)
    · exact .inl (hab ▸ hbc)
    · exact .inr ⟨hab.trans hbc, le_trans hbc' hab'⟩
  have htotal : Std.Total fun a b : ListedVersion =>
      a.key < b.key ∨ a.key = b.key ∧ b.lastModified ≤ a.lastModified := by
    refine ⟨fun a b => ?_⟩
    rcases lt_trichotomy a.key b.key with h | h | h
    · exact .inl (.inl h)
    · rcases le_total b.lastModified a.lastModified with hle | hle
      · exact .inl (.inr ⟨h, hle⟩)
      · exact .inr (.inr ⟨h.symm, hle⟩)
    · exact .inr (.inl h)
  exact pairwise_insertionSort _ _

theorem pairwise_distinct_values (h : objects.Filed) :
    objects.valuesWithVersions.Pairwise fun a b => a.key = b.key → a.versionId ≠ b.versionId := by
  suffices hnodup : (objects.valuesWithVersions.map fun v => (v.key, v.versionId)).Nodup from
    (pairwise_map.mp hnodup).imp fun hne hkey hid => hne (Prod.ext hkey hid)
  cases objects with
  | unversioned objects =>
    have hkeys : ((ListedStore.unversioned objects).valuesWithVersions.map fun v =>
        (v.key, v.versionId)) = objects.entries.map fun e => (e.1, none) := by
      rw [ListedStore.valuesWithVersions, Dict.values, map_map, map_map]
      exact map_congr_left fun e he => Prod.ext (h e he).1 (h e he).2
    rw [hkeys]
    refine List.Nodup.of_map Prod.fst ?_
    rw [map_map]
    exact objects.nodup
  | versioned objects =>
    have hkeys : ((ListedStore.versioned objects).valuesWithVersions.map fun v =>
        (v.key, v.versionId)) =
        objects.entries.flatMap fun e => e.2.entries.map fun f => (e.1, f.1) := by
      rw [ListedStore.valuesWithVersions, Dict.values, flatMap_map, map_flatMap]
      refine flatMap_congr fun e he => ?_
      rw [Dict.values, map_map]
      exact map_congr_left fun f hf => Prod.ext (h e he f hf).1 (h e he f hf).2
    rw [hkeys, nodup_flatMap]
    refine ⟨fun e _ => ?_, ?_⟩
    · refine List.Nodup.of_map Prod.snd ?_
      rw [map_map]
      exact e.2.nodup
    · refine (pairwise_map.mp objects.nodup).imp fun {e e'} hne => ?_
      intro x hx hx'
      obtain ⟨f, _, rfl⟩ := mem_map.mp hx
      obtain ⟨f', _, heq⟩ := mem_map.mp hx'
      exact hne (Prod.ext_iff.mp heq).1.symm

theorem listable_sortedVersions (hfiled : objects.Filed)
    (hnamed : objects.Named) : Listable (sortedVersions objects) := by
  have hmem : ∀ v, v ∈ sortedVersions objects ↔ v ∈ objects.valuesWithVersions := fun v =>
    (sortedVersions_perm _).mem_iff
  refine ⟨?_, ?_, ?_, ?_⟩
  · exact (sortedVersions_pairwise _).imp fun h => h.elim le_of_lt fun h => le_of_eq h.1
  · refine ((sortedVersions_perm _).pairwise_iff ?_).mpr
      (pairwise_distinct_values _ hfiled)
    exact fun h hkey hid => h hkey.symm hid.symm
  · cases objects with
    | unversioned =>
      refine .inl fun v hv => ?_
      rw [hmem, ListedStore.valuesWithVersions, Dict.values, map_map] at hv
      obtain ⟨e, he, rfl⟩ := mem_map.mp hv
      exact (hfiled e he).2
    | versioned =>
      refine .inr fun v hv => ?_
      rw [hmem, ListedStore.valuesWithVersions, Dict.values, flatMap_map] at hv
      obtain ⟨e, he, hv⟩ := mem_flatMap.mp hv
      obtain ⟨f, hf, rfl⟩ := mem_map.mp hv
      obtain ⟨id, hid, hvalid⟩ := (hnamed e he).2 f hf
      exact ⟨id, (hfiled e he f hf).2.trans hid, hvalid.decode⟩
  · intro v hv
    rw [hmem] at hv
    cases objects with
    | unversioned =>
      rw [ListedStore.valuesWithVersions, Dict.values, map_map] at hv
      obtain ⟨e, he, rfl⟩ := mem_map.mp hv
      change e.2.key ≠ []
      rw [(hfiled e he).1]
      exact hnamed e he
    | versioned =>
      rw [ListedStore.valuesWithVersions, Dict.values, flatMap_map] at hv
      obtain ⟨e, he, hv⟩ := mem_flatMap.mp hv
      obtain ⟨f, hf, rfl⟩ := mem_map.mp hv
      rw [(hfiled e he f hf).1]
      exact (hnamed e he).1

/-! ### Clients -/

section Client

variable (bucket : ListedBucket) (keyPrefix delimiter : Option Text) (m : Nat)

variable (marker : Option Text × Option Text)

/-- The request of a client for the page after some markers. -/
def pageOfVersions : ListVersionsRequest where
  delimiter := delimiter
  keyMarker := marker.1
  maxKeys := some m
  keyPrefix := keyPrefix
  versionIdMarker := marker.2

/-- The calls of a client. -/
def versionsCall : Except ListError ListObjectVersionsOutput :=
  listObjectVersions bucket (pageOfVersions keyPrefix delimiter m marker)

variable (page : ListObjectVersionsOutput)

def versionsNext : Option (Option Text × Option Text) :=
  page.nextKeyMarker.map fun keyMarker => (some keyMarker, page.nextVersionIdMarker)

/-- The pages that a client gets. -/
def VersionsWalk : Option Text × Option Text → List ListObjectVersionsOutput → Prop :=
  Walk (versionsCall bucket keyPrefix delimiter m) versionsNext

/-- The query of the page after some markers. -/
def versionsQuery : VersionsQuery :=
  (pageOfVersions keyPrefix delimiter m marker).query bucket

def versionRollUp (version : ListedVersion) : Option Text :=
  rollUp (keyPrefix.getD []) (delimiter.getD []) version.key

def matchingVersions : List ListedVersion :=
  (sortedVersions bucket.objects).filter fun version =>
    (keyPrefix.getD []).isPrefixOf version.key

/-- The entry of a version in the list of versions. -/
def versionEntry : ListedVersion → Option VersionEntry :=
  (versionsQuery bucket keyPrefix delimiter m (none, none)).versionOf

/-- The entry of a version in the list of delete markers. -/
def markerEntry : ListedVersion → Option MarkerEntry :=
  (versionsQuery bucket keyPrefix delimiter m (none, none)).markerOf

def pageLength : Nat :=
  page.versions.length + page.deleteMarkers.length + page.commonPrefixes.length

/-- A page shows the entries of some versions. -/
def ShowsVersions (entries : List ListedVersion) : Prop :=
  pageLength page ≤ m ∧
    page.versions = entries.filterMap (versionEntry bucket keyPrefix delimiter m) ∧
    page.deleteMarkers = entries.filterMap (markerEntry bucket keyPrefix delimiter m) ∧
    page.commonPrefixes.Perm (entries.filterMap (versionRollUp keyPrefix delimiter))

/-- Pages that show the entries of some versions together. -/
def ShowVersions (pages : List ListObjectVersionsOutput) (entries : List ListedVersion) : Prop :=
  (∀ page ∈ pages, pageLength page ≤ m) ∧
    pages.flatMap ListObjectVersionsOutput.versions =
      entries.filterMap (versionEntry bucket keyPrefix delimiter m) ∧
    pages.flatMap ListObjectVersionsOutput.deleteMarkers =
      entries.filterMap (markerEntry bucket keyPrefix delimiter m) ∧
    (pages.flatMap ListObjectVersionsOutput.commonPrefixes).Perm
      (entries.filterMap (versionRollUp keyPrefix delimiter))

theorem showVersions_count :
    PageCount (ShowsVersions bucket keyPrefix delimiter m)
      (ShowVersions bucket keyPrefix delimiter m) where
  single page entries h := by
    obtain ⟨hbound, hversions, hmarkers, hprefixes⟩ := h
    refine ⟨?_, ?_, ?_, ?_⟩
    · intro page' hpage'
      rw [mem_singleton.mp hpage']
      exact hbound
    · rw [flatMap_singleton, hversions]
    · rw [flatMap_singleton, hmarkers]
    · rw [flatMap_singleton]
      exact hprefixes
  cons page pages entries entries' h := by
    obtain ⟨hbound, hversions, hmarkers, hprefixes⟩ := h
    unfold ShowVersions
    rw [forall_mem_cons, flatMap_cons, flatMap_cons, flatMap_cons,
      filterMap_append, filterMap_append, filterMap_append, hversions, hmarkers,
      append_cancel_left_eq, append_cancel_left_eq, and_iff_right hbound,
      perm_append_iff _ _ _ _ hprefixes]

/-- The entries that the loop finds after some markers. -/
def entriesAfter : List ListedVersion :=
  heads (versionRollUp keyPrefix delimiter) []
    (((versionsQuery bucket keyPrefix delimiter m marker).passed (sortedVersions bucket.objects)
      false).filter (versionsQuery bucket keyPrefix delimiter m marker).keeps)

/-- A marker that a request can have: an id only together with a key. -/
def Markers : Prop :=
  (nonEmpty marker.2).isSome → (nonEmpty marker.1).isSome

variable (request : ListVersionsRequest)

theorem versionsCall_eq (hmarker : Markers marker)
    (hok : ∀ version ∈ sortedVersions bucket.objects, ∀ found, ∃ r,
      (versionsQuery bucket keyPrefix delimiter m marker).skips version found = .ok r) :
    versionsCall bucket keyPrefix delimiter m marker =
      .ok (versionsResponse bucket (pageOfVersions keyPrefix delimiter m marker)
        (versionsQuery bucket keyPrefix delimiter m marker)
        ((versionsQuery bucket keyPrefix delimiter m marker).fill {}
          (entriesAfter bucket keyPrefix delimiter m marker))) := by
  have hmarkers : ¬((nonEmpty marker.2).isSome ∧ nonEmpty marker.1 = none) := by
    rintro ⟨hid, hkey⟩
    have hsome := hmarker hid
    rw [hkey] at hsome
    cases hsome
  rw [versionsCall, listObjectVersions]
  refine (if_neg hmarkers).trans ?_
  change ((versionsQuery bucket keyPrefix delimiter m marker).collect _ _ _ >>= _) = _
  rw [VersionsQuery.collect_versions _ _ _ _ hok]
  rfl

theorem showsVersions_filled (marker : Option Text × Option Text) (page : VersionsPage)
    (here : List ListedVersion) (hlength : here.length ≤ m)
    (hversions : page.objectVersions = here.filterMap (versionEntry bucket keyPrefix delimiter m))
    (hmarkers : page.deleteMarkers = here.filterMap (markerEntry bucket keyPrefix delimiter m))
    (hprefixes : page.commonPrefixes = here.filterMap (versionRollUp keyPrefix delimiter)) :
    ShowsVersions bucket keyPrefix delimiter m (versionsResponse bucket request
      (versionsQuery bucket keyPrefix delimiter m marker) page) here := by
  have hall := (versionsQuery bucket keyPrefix delimiter m (none, none)).length_entries here
  refine ⟨?_, hversions, hmarkers, ?_⟩
  · unfold pageLength versionsResponse
    rw [length_insertionSort, hversions, hmarkers, hprefixes]
    exact le_trans (le_of_eq hall) hlength
  · rw [← hprefixes]
    exact perm_insertionSort _ _

end Client

end LocalEmu.S3
