import LocalEmu.Theory.S3.VersionPages

/-!
# Listing Versions

What a client gets that lists the versions of a bucket page by page.

A page that ends after an entry gives the key and the version id that opened
it, or its roll-up. The next page goes on after a roll-up in any case. After a
version it goes on in the right place exactly if no version of the same key that
comes before it has an id that compares as older: such a version is taken for
one that comes after the marker, and is listed again. The id `null` compares as
newer than every generated one, so this is the rule where a `null` version ends
a page and a newer version of its key was listed before it.
-/

namespace LocalEmu.S3

open List Option

open Paging

/-! ### The check of the markers -/

namespace VersionsQuery

variable (q : VersionsQuery)

theorem passed_none (hmarker : q.keyMarker = none) (versions : List ListedVersion)
    (found : Bool) : q.passed versions found = versions := by
  induction versions generalizing found with
  | nil => rfl
  | cons version versions ih =>
    have hskip : q.skips version found = .ok (false, found) := by rw [skips, hmarker]
    rw [passed, hskip]
    exact congrArg _ (ih _)

theorem passed_eq_filter (versions : List ListedVersion) (found : Bool)
    (keep : ListedVersion → Bool)
    (h : ∀ version ∈ versions, q.skips version found = .ok (!keep version, found)) :
    q.passed versions found = versions.filter keep := by
  induction versions with
  | nil => rfl
  | cons version versions ih =>
    have htail := ih fun v hv => h v (mem_cons_of_mem _ hv)
    rw [passed, h _ mem_cons_self]
    cases hkeep : keep version with
    | true => rw [filter_cons_of_pos hkeep, ← htail]; rfl
    | false => rw [filter_cons_of_neg (by simp [hkeep]), ← htail]; rfl

theorem passed_filter (keep : ListedVersion → Bool) (versions : List ListedVersion) (found : Bool)
    (hok : ∀ version ∈ versions, ∀ found, ∃ r, q.skips version found = .ok r)
    (h : ∀ version ∈ versions, keep version = false → ∀ found, ∃ skip,
      q.skips version found = .ok (skip, found)) :
    (q.passed versions found).filter keep = q.passed (versions.filter keep) found := by
  induction versions generalizing found with
  | nil => rfl
  | cons version versions ih =>
    have htail := fun found => ih found (fun v hv => hok v (mem_cons_of_mem _ hv))
      fun v hv => h v (mem_cons_of_mem _ hv)
    cases hkeep : keep version with
    | true =>
      obtain ⟨⟨skip, found'⟩, hskip⟩ := hok _ mem_cons_self _
      rw [filter_cons_of_pos hkeep, passed, passed, hskip]
      cases skip with
      | true => exact htail _
      | false =>
        rw [filter_cons_of_pos hkeep, htail]
    | false =>
      obtain ⟨skip, hskip⟩ := h _ mem_cons_self hkeep _
      rw [filter_cons_of_neg (by simp [hkeep]), passed, hskip]
      cases skip with
      | true => exact htail _
      | false =>
        rw [filter_cons_of_neg (by simp [hkeep]), htail]

theorem passed_append (x l : List ListedVersion) (found : Bool)
    (h : ∀ version ∈ x, q.skips version found = .ok (true, found)) :
    q.passed (x ++ l) found = q.passed l found := by
  induction x with
  | nil => rfl
  | cons version x ih =>
    rw [cons_append, passed, h _ mem_cons_self]
    exact ih fun v hv => h v (mem_cons_of_mem _ hv)

section Marker

variable (key : Text) (hkey : q.keyMarker = some key) (hurl : q.encodingType = none)

include hkey hurl

variable (version : ListedVersion) (found : Bool)

theorem skips_lt (h : version.key < key) : q.skips version found = .ok (true, found) := by
  simp [skips, hkey, hurl, shown, h]

theorem skips_gt (h : key < version.key) : q.skips version found = .ok (false, found) := by
  simp [skips, hkey, hurl, shown, lt_asymm h, ne_of_gt h]

theorem skips_key (h : version.key = key)
    (hid : q.versionIdMarker = none) : q.skips version found = .ok (true, found) := by
  simp [skips, hkey, hurl, shown, h, hid]

theorem skips_marker (id : Text) (h : version.key = key) (hid : q.versionIdMarker = some id)
    (hversion : version.versionId = some id) :
    q.skips version found = .ok (true, true) := by
  simp [skips, hkey, hurl, shown, h, hid, hversion]

theorem skips_older (id : Text) (h : version.key = key) (hid : q.versionIdMarker = some id)
    (hversion : version.versionId ≠ some id) (older : Bool)
    (holder : isVersionOlderThanOther version.versionId id = .ok older) :
    q.skips version found = .ok (if older then (false, true) else (!found, found)) := by
  cases older with
  | true | false => simp [skips, hkey, hurl, shown, h, hid, hversion, holder]

theorem skips_ok (hids : ∀ id, q.versionIdMarker = some id → ∃ older,
      isVersionOlderThanOther version.versionId id = .ok older) :
    ∃ r, q.skips version found = .ok r := by
  rcases lt_trichotomy version.key _ with h | h | h
  · exact ⟨_, q.skips_lt key hkey hurl version found h⟩
  · rcases hid : q.versionIdMarker with _ | id
    · exact ⟨_, q.skips_key key hkey hurl version found h hid⟩
    · by_cases hversion : version.versionId = some id
      · exact ⟨_, q.skips_marker key hkey hurl version found id h hid hversion⟩
      · obtain ⟨older, holder⟩ := hids id hid
        exact ⟨_, q.skips_older key hkey hurl version found id h hid hversion older holder⟩
  · exact ⟨_, q.skips_gt key hkey hurl version found h⟩

theorem skips_of_ne (h : version.key ≠ key ∨ q.versionIdMarker = none) :
    ∃ skip, q.skips version found = .ok (skip, found) := by
  rcases lt_trichotomy version.key _ with hlt | heq | hgt
  · exact ⟨_, q.skips_lt key hkey hurl version found hlt⟩
  · exact ⟨_, q.skips_key key hkey hurl version found heq (h.resolve_left (not_not_intro heq))⟩
  · exact ⟨_, q.skips_gt key hkey hurl version found hgt⟩

theorem passed_older (id : Text) (hid : q.versionIdMarker = some id) (x l : List ListedVersion)
    (hx : ∀ version ∈ x, version.key ≤ key ∧ (version.key = key → version.versionId ≠ some id ∧
      ∃ older, isVersionOlderThanOther version.versionId id = .ok older))
    (newer : ListedVersion) (hnewer : newer ∈ x) (hnewerkey : newer.key = key)
    (holder : isVersionOlderThanOther newer.versionId id = .ok true) :
    ∃ first ∈ x, first.key = key ∧ ∃ rest, q.passed (x ++ l) false = first :: rest := by
  induction x with
  | nil => exact absurd hnewer not_mem_nil
  | cons version x ih =>
    have htail : (∀ v ∈ x, v.key ≤ key ∧ (v.key = key → v.versionId ≠ some id ∧
        ∃ older, isVersionOlderThanOther v.versionId id = .ok older)) :=
      fun v hv => hx v (mem_cons_of_mem _ hv)
    -- If this version is skipped, the one that compares as older comes later.
    have hlater : q.skips version false = .ok (true, false) → newer ∈ x →
        ∃ first ∈ version :: x, first.key = key ∧
          ∃ rest, q.passed (version :: x ++ l) false = first :: rest := by
      intro hskip hmem
      obtain ⟨first, hfirst, hkey', rest, hrest⟩ := ih htail hmem
      refine ⟨first, mem_cons_of_mem _ hfirst, hkey', rest, ?_⟩
      rw [cons_append, passed, hskip]
      exact hrest
    obtain ⟨hle, hids⟩ := hx _ mem_cons_self
    rcases lt_or_eq_of_le hle with hlt | heq
    · refine hlater (q.skips_lt key hkey hurl version false hlt) ?_
      rcases mem_cons.mp hnewer with rfl | hmem
      · exact absurd hnewerkey (ne_of_lt hlt)
      · exact hmem
    · obtain ⟨hne, older, hold⟩ := hids heq
      have hskips := q.skips_older key hkey hurl version false id heq hid hne older hold
      cases older with
      | true =>
        refine ⟨version, mem_cons_self, heq, q.passed (x ++ l) true, ?_⟩
        rw [cons_append, passed, hskips]
        rfl
      | false =>
        refine hlater hskips ?_
        rcases mem_cons.mp hnewer with rfl | hmem
        · exact absurd (hold.symm.trans holder) (by simp)
        · exact hmem

end Marker

end VersionsQuery

theorem nonEmpty_some (text : Text) (h : text ≠ []) : nonEmpty (some text) = some text := by
  simp [nonEmpty, h]

section Client

variable (bucket : ListedBucket) (keyPrefix delimiter : Option Text) (m : Nat)

/-- The versions that open an entry. -/
def versionEntries : List ListedVersion :=
  heads (versionRollUp keyPrefix delimiter) [] (matchingVersions bucket keyPrefix)

/-- The markers of a page that ends after the entry of a version. -/
def markerAfter (version : ListedVersion) : Option Text × Option Text :=
  match versionRollUp keyPrefix delimiter version with
  | some r => (some r, none)
  | none => (some version.key, version.versionId)

/-- The markers that stand for the place after some entries. -/
def markerAt (n : Nat) : Option Text × Option Text :=
  if n = 0 then (none, none)
  else
    match (versionEntries bucket keyPrefix delimiter)[n - 1]? with
    | some version => markerAfter keyPrefix delimiter version
    | none => (none, none)

/-- The pages list every version, every delete marker and every roll-up once,
    and none is too long. -/
structure ListsVersions (pages : List ListObjectVersionsOutput) : Prop where
  bounded : ∀ page ∈ pages, pageLength page ≤ m
  versions : pages.flatMap ListObjectVersionsOutput.versions =
    ((matchingVersions bucket keyPrefix).filter fun version =>
      delimiter.getD [] = [] ∨
        ¬delimiter.getD [] <:+: version.key.drop (keyPrefix.getD []).length).filterMap
      fun
        | .object s3Object =>
          some ((versionsQuery bucket keyPrefix delimiter m (none, none)).objectVersion s3Object)
        | .marker _ => none
  deleteMarkers : pages.flatMap ListObjectVersionsOutput.deleteMarkers =
    ((matchingVersions bucket keyPrefix).filter fun version =>
      delimiter.getD [] = [] ∨
        ¬delimiter.getD [] <:+: version.key.drop (keyPrefix.getD []).length).filterMap
      fun
        | .object _ => none
        | .marker marker =>
          some ((versionsQuery bucket keyPrefix delimiter m (none, none)).deleteMarker marker)
  nodup : (pages.flatMap ListObjectVersionsOutput.commonPrefixes).Nodup
  commonPrefixes : ∀ r, r ∈ pages.flatMap ListObjectVersionsOutput.commonPrefixes ↔
    ∃ version ∈ matchingVersions bucket keyPrefix,
      versionRollUp keyPrefix delimiter version = some r

/-- The version id of the last of all versions. -/
def lastVersionId : Option Text :=
  (sortedVersions bucket.objects).getLast?.bind ListedVersion.versionId

/-- The next page can go on after the entry of a version: no version of the same
    key that comes before it has an id that compares as older. -/
def Resumes (version : ListedVersion) : Prop :=
  versionRollUp keyPrefix delimiter version = none → ∀ id, version.versionId = some id →
    ∀ newer, [newer, version].Sublist (sortedVersions bucket.objects) →
      newer.key = version.key → isVersionOlderThanOther newer.versionId id ≠ .ok true

/-! ### Where a page goes on -/

section Places

variable (hlist : Listable (sortedVersions bucket.objects))

theorem matchingVersions_isPrefix (version : ListedVersion)
    (h : version ∈ matchingVersions bucket keyPrefix) : keyPrefix.getD [] <+: version.key :=
  isPrefixOf_iff_prefix.mp (mem_filter.mp h).2

theorem keeps_eq (marker : Option Text × Option Text) (version : ListedVersion) :
    (versionsQuery bucket keyPrefix delimiter m marker).keeps version =
      ((keyPrefix.getD []).isPrefixOf version.key &&
        !(versionsQuery bucket keyPrefix delimiter m marker).isBehind version) := rfl

theorem entriesAfter_none :
    entriesAfter bucket keyPrefix delimiter m (none, none) =
      versionEntries bucket keyPrefix delimiter := by
  rw [entriesAfter, VersionsQuery.passed_none _ rfl]
  congr 1
  refine filter_congr fun version _ => ?_
  have hbehind : (versionsQuery bucket keyPrefix delimiter m (none, none)).isBehind version =
      false := by
    unfold VersionsQuery.isBehind
    cases (versionsQuery bucket keyPrefix delimiter m (none, none)).label version <;> rfl
  rw [keeps_eq, hbehind, Bool.not_false, Bool.and_true]

include hlist

theorem matchingVersions_listable : Listable (matchingVersions bucket keyPrefix) :=
  hlist.filter _

theorem matchingVersions_together :
    Together (versionRollUp keyPrefix delimiter) (matchingVersions bucket keyPrefix) :=
  together_of_sorted _ _ _ _
    (matchingVersions_listable _ _ hlist).sorted
    fun version h => matchingVersions_isPrefix _ _ version h

theorem exists_parts (n : Nat) (version : ListedVersion)
    (h : (versionEntries bucket keyPrefix delimiter)[n]? = some version) :
    ∃ x y, matchingVersions bucket keyPrefix = x ++ version :: y ∧
      (∀ a ∈ x, ∀ b ∈ version :: y, ∀ r, versionRollUp keyPrefix delimiter a = some r →
        versionRollUp keyPrefix delimiter b ≠ some r) ∧
      (versionEntries bucket keyPrefix delimiter).drop (n + 1) =
        heads (versionRollUp keyPrefix delimiter)
          (versionRollUp keyPrefix delimiter version).toList y := by
  obtain ⟨x, y, hsplit, hapart, _, hdrop⟩ :=
    heads_split _ (matchingVersions_together _ _ _ hlist) n _ h
  refine ⟨x, y, hsplit, hapart, ?_⟩
  change heads _ _ _ = (versionEntries bucket keyPrefix delimiter).drop n at hdrop
  rw [← drop_drop, ← hdrop]
  rcases hr : versionRollUp keyPrefix delimiter version with _ | r
  · rw [heads_cons_none _ _ _ hr]
    rfl
  · rw [heads_cons_new _ _ _ r hr not_mem_nil]
    rfl

theorem older_ok (id : Text) (version : ListedVersion)
    (hversion : version ∈ sortedVersions bucket.objects) (hid : version.versionId = some id)
    (v : ListedVersion) (hv : v ∈ sortedVersions bucket.objects) :
    ∃ older, isVersionOlderThanOther v.versionId id = .ok older := by
  rcases hlist.ids with hnone | hsome
  · exact absurd (hid.symm.trans (hnone _ hversion)) (by simp)
  · obtain ⟨_, hid', _, bytes, hbytes⟩ := hsome v hv
    obtain ⟨id'', hid'', _, others, hothers⟩ := hsome _ hversion
    rw [some.inj (hid''.symm.trans hid)] at hothers
    exact ⟨decide (bytes < others), by simp only [hid', isVersionOlderThanOther, hbytes, hothers]⟩

theorem nonEmpty_versionId (version : ListedVersion)
    (hversion : version ∈ sortedVersions bucket.objects) :
    nonEmpty version.versionId = version.versionId := by
  rcases hlist.ids with hnone | hsome
  · rw [hnone _ hversion]
    rfl
  · obtain ⟨id, hid, hne, _⟩ := hsome _ hversion
    rw [hid, nonEmpty_some id hne]

theorem entriesAfter_rollUp (n : Nat) (version : ListedVersion) (r : Text)
    (h : (versionEntries bucket keyPrefix delimiter)[n]? = some version)
    (hr : versionRollUp keyPrefix delimiter version = some r) :
    entriesAfter bucket keyPrefix delimiter m (some r, none) =
      (versionEntries bucket keyPrefix delimiter).drop (n + 1) := by
  set q := versionsQuery bucket keyPrefix delimiter m (some r, none) with hq
  obtain ⟨x, y, hsplit, hapart, hdrop⟩ := exists_parts _ _ _ hlist n _ h
  have hmem : ∀ a, a ∈ x ∨ a ∈ version :: y → a ∈ matchingVersions bucket keyPrefix := by
    intro a ha
    rw [hsplit]
    exact List.mem_append.mpr ha
  have hstart : r <+: version.key := rollUp_isPrefix _ _ _ _
    (matchingVersions_isPrefix _ _ _ (hmem version (.inr List.mem_cons_self))) hr
  have hrne : r ≠ [] := by
    obtain ⟨pre, _, hne, rfl⟩ := rollUp_eq_some _ _ _ _ hr
    simp [hne]
  -- The check of the markers only looks at the key.
  have hkey : q.keyMarker = some r := nonEmpty_some r hrne
  have hskips : ∀ v ∈ sortedVersions bucket.objects,
      q.skips v false = .ok (!decide (r < v.key), false) := by
    intro v _
    rcases lt_trichotomy _ r with hlt | heq | hgt
    · rw [VersionsQuery.skips_lt _ r hkey rfl v _ hlt, decide_eq_false (lt_asymm hlt)]
      rfl
    · rw [VersionsQuery.skips_key _ r hkey rfl v _ heq rfl, heq,
        decide_eq_false (lt_irrefl r)]
      rfl
    · rw [VersionsQuery.skips_gt _ r hkey rfl v _ hgt, decide_eq_true hgt]
      rfl
  rw [entriesAfter, VersionsQuery.passed_eq_filter _ _ _ _ hskips, hdrop, hr, List.filter_filter]
  have hfilter :
      (sortedVersions bucket.objects).filter (fun v => q.keeps v && decide (r < v.key)) =
      (matchingVersions bucket keyPrefix).filter fun v => decide (r < v.key) && !q.isBehind v := by
    unfold matchingVersions
    rw [List.filter_filter]
    refine List.filter_congr fun v _ => ?_
    rw [hq, keeps_eq]
    cases (keyPrefix.getD []).isPrefixOf v.key <;> cases decide (r < v.key) <;> simp
  have hsorted := (matchingVersions_listable _ keyPrefix hlist).sorted
  rw [hsplit, List.pairwise_append] at hsorted
  have hfrom : ∀ v, r <+: v.key → versionRollUp keyPrefix delimiter v = some r := fun v hv =>
    rollUp_of_isPrefix _ _ _ _ r hr hv
  have hbehind : ∀ v, q.isBehind v = true ↔ versionRollUp keyPrefix delimiter v = some r := by
    intro v
    have hdef : q.isBehind v = (versionRollUp keyPrefix delimiter v).any fun s =>
        q.keyMarker.any fun k => s.isPrefixOf k := rfl
    rw [hdef, hkey]
    rcases hs : versionRollUp keyPrefix delimiter v with _ | s
    · simp
    · rw [Option.any_some, Option.any_some, isPrefixOf_iff_prefix, Option.some.injEq]
      constructor
      · intro hsr
        -- The version of the marker has this roll-up as well.
        have hsame := rollUp_of_isPrefix _ _ _ _ s hs (hsr.trans hstart)
        exact Option.some.inj (hsame.symm.trans hr)
      · rintro rfl
        exact List.prefix_rfl
  rw [hfilter, hsplit, List.filter_append]
  -- What comes before the roll-up is skipped.
  have hbefore : x.filter (fun v => decide (r < v.key) && !q.isBehind v) = [] := by
    rw [List.filter_eq_nil_iff]
    intro a ha hkept
    have hlt : r < a.key := of_decide_eq_true (Bool.and_eq_true_iff.mp hkept).1
    have hle : a.key ≤ version.key := hsorted.2.2 a ha version List.mem_cons_self
    have hpre := Text.isPrefix_of_between r r _ _ List.prefix_rfl hstart (le_of_lt hlt) hle
    exact hapart a ha _ List.mem_cons_self r (hfrom a hpre) hr
  rw [hbefore, List.filter_cons_of_neg (by simp [(hbehind _).mpr hr]), Option.toList_some,
    ← heads_filter [r] y (fun v => decide (r < v.key) && !q.isBehind v)]
  · refine heads_congr _ _ _ fun b hb s hs => ?_
    have hnot := (Bool.and_eq_true_iff.mp (List.mem_filter.mp hb).2).2
    rw [Bool.not_eq_true', Bool.eq_false_iff, Ne, hbehind b, hs, Option.some.injEq] at hnot
    simp [hnot]
  · -- What comes after it and is skipped belongs to it.
    intro b hb hskip
    refine ⟨r, List.mem_singleton_self r, ?_⟩
    rcases Bool.and_eq_false_iff.mp hskip with hle | hbeh
    · have hle : b.key ≤ r := not_lt.mp (of_decide_eq_false hle)
      have hge : version.key ≤ b.key := (List.pairwise_cons.mp hsorted.2.1).1 b hb
      have heq : b.key = r := le_antisymm hle ((Text.le_of_isPrefix r _ hstart).trans hge)
      exact hfrom b (heq ▸ List.prefix_rfl)
    · exact (hbehind b).mp (by simpa using hbeh)

theorem entriesAfter_matching (version : ListedVersion)
    (hversion : version ∈ matchingVersions bucket keyPrefix)
    (hr : versionRollUp keyPrefix delimiter version = none) :
    entriesAfter bucket keyPrefix delimiter m (some version.key, version.versionId) =
      heads (versionRollUp keyPrefix delimiter) [] ((versionsQuery bucket keyPrefix delimiter m
        (some version.key, version.versionId)).passed (matchingVersions bucket keyPrefix)
        false) := by
  set q := versionsQuery bucket keyPrefix delimiter m (some version.key, version.versionId)
  have hmem := (mem_filter.mp hversion).1
  have hkey : q.keyMarker = some version.key := nonEmpty_some _ (hlist.keys _ hmem)
  have hid : q.versionIdMarker = version.versionId := nonEmpty_versionId _ hlist _ hmem
  have hpassed := VersionsQuery.passed_filter _ (fun v => (keyPrefix.getD []).isPrefixOf v.key)
    _ false
    (fun v hv found => VersionsQuery.skips_ok _ _ hkey rfl v _ fun id hid' =>
      older_ok _ hlist id _ hmem (hid.symm.trans hid') v hv)
    fun v _ hno found => VersionsQuery.skips_of_ne _ _ hkey rfl v _
      (.inl fun heq => by
        rw [heq, (mem_filter.mp hversion).2] at hno
        cases hno)
  -- No roll-up starts the key of the marker, since it has none.
  have hbehind : ∀ v, q.isBehind v = false := by
    intro v
    have hdef : q.isBehind v = (versionRollUp keyPrefix delimiter v).any fun s =>
        q.keyMarker.any fun k => s.isPrefixOf k := rfl
    rw [hdef, hkey]
    rcases hs : versionRollUp keyPrefix delimiter v with _ | s
    · rfl
    · rw [any_some, any_some, Bool.eq_false_iff, Ne, isPrefixOf_iff_prefix]
      intro hstart
      have hsame := rollUp_of_isPrefix _ _ _ _ s hs hstart
      exact absurd (hr.symm.trans hsame) (by simp)
  unfold entriesAfter matchingVersions
  rw [← hpassed]
  congr 1
  refine filter_congr fun v _ => ?_
  rw [keeps_eq, hbehind v, Bool.not_false, Bool.and_true]

theorem entriesAfter_version (n : Nat) (version : ListedVersion)
    (h : (versionEntries bucket keyPrefix delimiter)[n]? = some version)
    (hr : versionRollUp keyPrefix delimiter version = none)
    (hresumes : Resumes bucket keyPrefix delimiter version) :
    entriesAfter bucket keyPrefix delimiter m (some version.key, version.versionId) =
      (versionEntries bucket keyPrefix delimiter).drop (n + 1) := by
  set q := versionsQuery bucket keyPrefix delimiter m (some version.key, version.versionId)
  obtain ⟨x, y, hsplit, hapart, hdrop⟩ := exists_parts _ _ _ hlist n _ h
  have hversion : version ∈ matchingVersions bucket keyPrefix := by
    rw [hsplit]
    exact mem_append_right x mem_cons_self
  have hmem := (mem_filter.mp hversion).1
  have hkey : q.keyMarker = some version.key := nonEmpty_some _ (hlist.keys _ hmem)
  have hid : q.versionIdMarker = version.versionId := nonEmpty_versionId _ hlist _ hmem
  have hmatching := matchingVersions_listable _ keyPrefix hlist
  have hsorted := hmatching.sorted
  have hdistinct := hmatching.distinct
  rw [hsplit, pairwise_append] at hsorted hdistinct
  rw [entriesAfter_matching _ _ _ m hlist _ hversion hr, hdrop, hr]
  congr 1
  rw [hsplit]
  have hall : ∀ v ∈ x ++ version :: y, v ∈ sortedVersions bucket.objects := by
    intro v hv
    rw [← hsplit] at hv
    exact (mem_filter.mp hv).1
  have hafter := pairwise_cons.mp hsorted.2.1
  have hdistinct' := pairwise_cons.mp hdistinct.2.1
  rcases hversionId : version.versionId with _ | id
  · -- Without ids there is one version of a key, and the key decides.
    have hnone : ∀ v ∈ sortedVersions bucket.objects, v.versionId = none := by
      refine hlist.ids.resolve_right fun hsome => ?_
      obtain ⟨id, hid', _⟩ := hsome _ hmem
      exact absurd (hversionId.symm.trans hid') (by simp)
    rw [← hversionId]
    have hnil : q.versionIdMarker = none := hid.trans hversionId
    rw [VersionsQuery.passed_eq_filter _ _ _ fun v => decide (version.key < v.key)]
    · have hx : x.filter (fun v => decide (version.key < v.key)) = [] := by
        rw [filter_eq_nil_iff]
        intro a ha hlt
        exact absurd (of_decide_eq_true hlt) (not_lt.mpr (hsorted.2.2 a ha version mem_cons_self))
      have hy : y.filter (fun v => decide (version.key < v.key)) = y := by
        rw [filter_eq_self]
        intro b hb
        refine decide_eq_true (lt_of_le_of_ne (hafter.1 b hb) fun heq => ?_)
        have hbmem := hall b (mem_append_right x (mem_cons_of_mem version hb))
        exact hdistinct'.1 b hb heq (hversionId.trans (hnone b hbmem).symm)
      rw [filter_append, hx, nil_append, filter_cons_of_neg (by simp), hy]
    · intro v hv
      rcases lt_trichotomy v.key _ with hlt | heq | hgt
      · rw [VersionsQuery.skips_lt _ _ hkey rfl v _ hlt, decide_eq_false (lt_asymm hlt)]
        rfl
      · rw [VersionsQuery.skips_key _ _ hkey rfl v _ heq hnil, heq,
          decide_eq_false (lt_irrefl _)]
        rfl
      · rw [VersionsQuery.skips_gt _ _ hkey rfl v _ hgt, decide_eq_true hgt]
        rfl
  · rw [← hversionId]
    have hmarker : q.versionIdMarker = some id := hid.trans hversionId
    rw [VersionsQuery.passed_append]
    · -- The marker itself is skipped, and everything after it passes.
      rw [VersionsQuery.passed, VersionsQuery.skips_marker _ _ hkey rfl _ _ id rfl
        hmarker hversionId]
      simp only
      rw [VersionsQuery.passed_eq_filter _ _ _ fun _ => true]
      · exact filter_eq_self.mpr fun _ _ => rfl
      · intro b hb
        have hbmem := hall b (mem_append_right x (mem_cons_of_mem version hb))
        rcases lt_or_eq_of_le (hafter.1 b hb) with hlt | heq
        · exact VersionsQuery.skips_gt _ _ hkey rfl b _ hlt
        · have hne : b.versionId ≠ some id := fun hb' =>
            hdistinct'.1 b hb heq (hversionId.trans hb'.symm)
          obtain ⟨older, holder⟩ := older_ok _ hlist id _ hmem hversionId b hbmem
          rw [VersionsQuery.skips_older _ _ hkey rfl b _ id heq.symm hmarker hne _ holder]
          cases older <;> rfl
    · -- Everything before it is skipped.
      intro a ha
      have hamem := hall a (mem_append_left _ ha)
      rcases lt_or_eq_of_le (hsorted.2.2 a ha version mem_cons_self) with hlt | heq
      · exact VersionsQuery.skips_lt _ _ hkey rfl a _ hlt
      · have hne : a.versionId ≠ some id := fun ha' =>
          hdistinct.2.2 a ha version mem_cons_self heq (ha'.trans hversionId.symm)
        obtain ⟨older, holder⟩ := older_ok _ hlist id _ hmem hversionId a hamem
        have hbefore : [a, version].Sublist (sortedVersions bucket.objects) := by
          refine List.Sublist.trans ?_ (filter_sublist (p := fun v =>
            (keyPrefix.getD []).isPrefixOf v.key))
          change [a, version].Sublist (matchingVersions bucket keyPrefix)
          rw [hsplit]
          exact (singleton_sublist.mpr ha).append (singleton_sublist.mpr mem_cons_self)
        have hnot := hresumes hr id hversionId a hbefore heq
        rw [VersionsQuery.skips_older _ _ hkey rfl a _ id heq hmarker hne _ holder]
        cases older with
        | true => exact absurd holder hnot
        | false => rfl

/-! ### The page at a place -/

omit hlist in
theorem mem_of_entry (n : Nat) (version : ListedVersion)
    (h : (versionEntries bucket keyPrefix delimiter)[n]? = some version) :
    version ∈ matchingVersions bucket keyPrefix :=
  (heads_sublist _ _ _).subset (mem_of_getElem? h)

theorem versionsCall_at (n : Nat) (hn : n ≤ (versionEntries bucket keyPrefix delimiter).length) :
    versionsCall bucket keyPrefix delimiter m (markerAt bucket keyPrefix delimiter n) =
      .ok (versionsResponse bucket
        (pageOfVersions keyPrefix delimiter m (markerAt bucket keyPrefix delimiter n))
        (versionsQuery bucket keyPrefix delimiter m (markerAt bucket keyPrefix delimiter n))
        ((versionsQuery bucket keyPrefix delimiter m
          (markerAt bucket keyPrefix delimiter n)).fill {}
          (entriesAfter bucket keyPrefix delimiter m
            (markerAt bucket keyPrefix delimiter n)))) := by
  unfold markerAt
  split
  · refine versionsCall_eq _ _ _ m _ (fun h => by cases h) fun v _ found => ?_
    exact ⟨(false, found), rfl⟩
  · next hne =>
      split
      · next version hversion =>
          have hmem := (mem_filter.mp (mem_of_entry _ _ _ _ _ hversion)).1
          unfold markerAfter
          split
          · next r hr =>
              have hrne : r ≠ [] := by
                obtain ⟨pre, _, hne, rfl⟩ := rollUp_eq_some _ _ _ _ hr
                simp [hne]
              refine versionsCall_eq _ _ _ m _ (fun h => by cases h) fun v _ found => ?_
              obtain ⟨skip, hskip⟩ := VersionsQuery.skips_of_ne
                (versionsQuery bucket keyPrefix delimiter m (some r, none)) r (nonEmpty_some r hrne)
                rfl v _ (.inr rfl)
              exact ⟨_, hskip⟩
          · next hr =>
              have hkey := nonEmpty_some _ (hlist.keys _ hmem)
              have hid := nonEmpty_versionId _ hlist _ hmem
              refine versionsCall_eq _ _ _ m _ (fun _ => ?_) fun v hv found => ?_
              · rw [hkey]
                rfl
              · exact VersionsQuery.skips_ok _ _ hkey rfl v _ fun id hid' =>
                  older_ok _ hlist id _ hmem (hid.symm.trans hid') v hv
      · next hnone =>
          rw [getElem?_eq_none_iff] at hnone
          omega

/-- A page that can go on after an entry does so. -/
theorem entriesAfter_eq (n : Nat)
    (hresumes : 0 < n → ∀ version,
      (versionEntries bucket keyPrefix delimiter)[n - 1]? = some version →
        Resumes bucket keyPrefix delimiter version)
    (hn : n ≤ (versionEntries bucket keyPrefix delimiter).length) :
    entriesAfter bucket keyPrefix delimiter m (markerAt bucket keyPrefix delimiter n) =
      (versionEntries bucket keyPrefix delimiter).drop n := by
  cases n with
  | zero =>
    exact entriesAfter_none _ _ _ m
  | succ n =>
    obtain ⟨version, hversion⟩ : ∃ version,
        (versionEntries bucket keyPrefix delimiter)[n]? = some version :=
      ⟨_, getElem?_eq_getElem (by omega)⟩
    have hmarker : markerAt bucket keyPrefix delimiter (n + 1) =
        markerAfter keyPrefix delimiter version := by
      rw [markerAt, if_neg (by omega), Nat.add_sub_cancel, hversion]
    rw [hmarker, markerAfter]
    split
    · next r hr =>
        exact entriesAfter_rollUp _ _ _ m hlist n _ r hversion hr
    · next hr =>
        exact entriesAfter_version _ _ _ m hlist n _ hversion hr
          (hresumes (Nat.succ_pos n) _ hversion)

theorem versionsNext_truncate (request : ListVersionsRequest)
    (marker : Option Text × Option Text) (version : ListedVersion)
    (hversion : version ∈ matchingVersions bucket keyPrefix) (page : VersionsPage)
    (hpage : page.nextVersionIdMarker = none) :
    versionsNext (versionsResponse bucket request
      (versionsQuery bucket keyPrefix delimiter m marker)
      ((versionsQuery bucket keyPrefix delimiter m marker).truncate version page)) =
      some (markerAfter keyPrefix delimiter version) := by
  have hmem := (mem_filter.mp hversion).1
  have hlabel : rollUp (versionsQuery bucket keyPrefix delimiter m marker).keyPrefix
      (versionsQuery bucket keyPrefix delimiter m marker).delimiter
      (shown (versionsQuery bucket keyPrefix delimiter m marker).encodingType version.key) =
      versionRollUp keyPrefix delimiter version := rfl
  unfold versionsNext versionsResponse VersionsQuery.truncate markerAfter
  rw [hlabel]
  rcases hr : versionRollUp keyPrefix delimiter version with _ | r
  · simp only
    rw [nonEmpty_some _ (hlist.keys _ hmem), nonEmpty_versionId _ hlist _ hmem]
    rfl
  · have hrne : r ≠ [] := by
      obtain ⟨pre, _, hne, rfl⟩ := rollUp_eq_some _ _ _ _ hr
      simp [hne]
    rw [nonEmpty_some r hrne, hpage]
    rfl

theorem versions_page_at (hm : 0 < m) (n : Nat)
    (hn : n ≤ (versionEntries bucket keyPrefix delimiter).length)
    (hresumes : 0 < n → ∀ version,
      (versionEntries bucket keyPrefix delimiter)[n - 1]? = some version →
        Resumes bucket keyPrefix delimiter version) :
    ∃ page, versionsCall bucket keyPrefix delimiter m (markerAt bucket keyPrefix delimiter n) =
        .ok page ∧
      ((ShowsVersions bucket keyPrefix delimiter m page
            (((versionEntries bucket keyPrefix delimiter).drop n).take m) ∧
          ((∃ version, (versionEntries bucket keyPrefix delimiter)[n + m - 1]? = some version ∧
              lastVersionId bucket ≠ version.versionId ∧
              versionsNext page = some (markerAt bucket keyPrefix delimiter (n + m))) ∨
            ((∀ version, (versionEntries bucket keyPrefix delimiter)[n + m - 1]? = some version →
                lastVersionId bucket = version.versionId) ∧
              (versionEntries bucket keyPrefix delimiter).length ≤ n + m ∧
              versionsNext page = none))) ∨
        ((∃ version, (versionEntries bucket keyPrefix delimiter)[n + m - 1]? = some version ∧
            lastVersionId bucket = version.versionId) ∧
          n + m < (versionEntries bucket keyPrefix delimiter).length ∧ m < pageLength page)) := by
  set q := versionsQuery bucket keyPrefix delimiter m (markerAt bucket keyPrefix delimiter n)
  have hsize : pageSize (some (m : Int)) = m := by
    rw [pageSize, if_neg (by simp; omega)]
    rfl
  have hcall := versionsCall_at _ _ _ m hlist n hn
  rw [entriesAfter_eq _ _ _ m hlist n hresumes hn] at hcall
  refine ⟨_, hcall, ?_⟩
  have hindex : ((versionEntries bucket keyPrefix delimiter).drop n)[m - 1]? =
      (versionEntries bucket keyPrefix delimiter)[n + m - 1]? := by
    rw [getElem?_drop, Nat.add_sub_assoc hm]
  have hshows : ∀ (here : List ListedVersion), here.length ≤ m →
      ShowsVersions bucket keyPrefix delimiter m (versionsResponse bucket
        (pageOfVersions keyPrefix delimiter m (markerAt bucket keyPrefix delimiter n))
        q
        (q.filled
          {} here)) here := fun here hle =>
    showsVersions_filled _ _ _ m _ _ _ here hle rfl rfl rfl
  rcases q.fill_cases m hsize
      ((versionEntries bucket keyPrefix delimiter).drop n) {} hm with
    ⟨hshort, hfill⟩ | ⟨version, hversion, ⟨hlast, hfill⟩ | ⟨hlast, hlength, hfill⟩ |
      ⟨hlast, hlength, hfill⟩⟩
  · -- The entries that are left do not fill the page.
    rw [Nat.sub_zero, length_drop] at hshort
    refine .inl ⟨?_, .inr ⟨fun version hversion => ?_, by omega, ?_⟩⟩
    · rw [hfill, take_of_length_le (by rw [length_drop]; omega)]
      exact hshows _ (by rw [length_drop]; omega)
    · have hlt := (List.getElem?_eq_some_iff.mp hversion).1
      omega
    · rw [hfill]
      rfl
  · -- The page ends after the entry that fills it.
    rw [Nat.sub_zero] at hversion hfill
    rw [hindex] at hversion
    have hmem := mem_of_entry _ _ _ _ _ hversion
    refine .inl ⟨?_, .inl ⟨version, hversion, hlast, ?_⟩⟩
    · rw [hfill]
      refine showsVersions_filled _ _ _ m _ _ _ _ (length_take_le _ _) ?_ ?_ ?_
      · unfold VersionsQuery.truncate
        split <;> rfl
      · unfold VersionsQuery.truncate
        split <;> rfl
      · unfold VersionsQuery.truncate
        split <;> rfl
    · rw [hfill, versionsNext_truncate _ _ _ m hlist _ _ _ hmem _ rfl,
        markerAt, if_neg (by omega), hversion]
  · -- The entry that fills the page is the last one.
    rw [Nat.sub_zero] at hversion hlength
    rw [hindex] at hversion
    refine .inl ⟨?_, .inr ⟨fun version' hversion' => ?_, ?_, ?_⟩⟩
    · rw [hfill, take_of_length_le (le_of_eq hlength)]
      exact hshows _ (le_of_eq hlength)
    · rw [← some.inj (hversion.symm.trans hversion')]
      exact hlast
    · rw [length_drop] at hlength
      omega
    · rw [hfill]
      rfl
  · -- The page goes on although it is full.
    rw [Nat.sub_zero] at hversion hlength
    rw [hindex] at hversion
    rw [length_drop] at hlength
    refine .inr ⟨⟨version, hversion, hlast⟩, by omega, ?_⟩
    have hcounted := q.counted_fill ((versionEntries bucket keyPrefix delimiter).drop n) {} rfl
    unfold pageLength versionsResponse
    simp only
    rw [length_insertionSort, ← hcounted]
    exact hfill

/-! ### Pages that list a version again -/

omit hlist in
theorem versionEntry_eq_some (version : ListedVersion) (e : VersionEntry)
    (h : versionEntry bucket keyPrefix delimiter m version = some e) :
    e.key = version.key ∧ e.versionId = (nonEmpty version.versionId).getD nullVersionId := by
  unfold versionEntry VersionsQuery.versionOf at h
  split at h
  · next s3Object _ =>
      rw [← some.inj h]
      exact ⟨rfl, rfl⟩
  · cases h

omit hlist in
theorem markerEntry_eq_some (version : ListedVersion) (e : MarkerEntry)
    (h : markerEntry bucket keyPrefix delimiter m version = some e) :
    e.key = version.key ∧ e.versionId = version.versionId := by
  unfold markerEntry VersionsQuery.markerOf at h
  split at h
  · next marker _ =>
      rw [← some.inj h]
      exact ⟨rfl, rfl⟩
  · cases h

omit hlist in
theorem exists_entry (version : ListedVersion)
    (h : versionRollUp keyPrefix delimiter version = none) :
    (∃ e, versionEntry bucket keyPrefix delimiter m version = some e) ∨
      ∃ e, markerEntry bucket keyPrefix delimiter m version = some e := by
  have hlabel : (versionsQuery bucket keyPrefix delimiter m (none, none)).label version = none := h
  cases version with
  | object s3Object =>
    refine .inl ⟨(versionsQuery bucket keyPrefix delimiter m (none, none)).objectVersion s3Object,
      ?_⟩
    unfold versionEntry VersionsQuery.versionOf
    rw [hlabel]
  | marker marker =>
    refine .inr ⟨(versionsQuery bucket keyPrefix delimiter m (none, none)).deleteMarker marker, ?_⟩
    unfold markerEntry VersionsQuery.markerOf
    rw [hlabel]

theorem sameId_of_entry (v w : ListedVersion) (hv : v ∈ sortedVersions bucket.objects)
    (hw : w ∈ sortedVersions bucket.objects)
    (hids : (nonEmpty v.versionId).getD nullVersionId = (nonEmpty w.versionId).getD nullVersionId) :
    v.versionId = w.versionId := by
  rcases hlist.ids with hnone | hsome
  · rw [hnone v hv, hnone w hw]
  · obtain ⟨id, hid, hne, _⟩ := hsome v hv
    obtain ⟨id', hid', hne', _⟩ := hsome w hw
    rw [hid, hid', nonEmpty_some id hne, nonEmpty_some _ hne'] at hids
    rw [hid, hid']
    exact congrArg _ hids

/-- A version that comes before the one of the marker and compares as older is
    the first entry of the page, or another one before the marker is. -/
theorem exists_first_again (n : Nat) (version : ListedVersion) (x y : List ListedVersion)
    (hversion : (versionEntries bucket keyPrefix delimiter)[n]? = some version)
    (hsplit : matchingVersions bucket keyPrefix = x ++ version :: y)
    (hresumes : ¬Resumes bucket keyPrefix delimiter version) :
    ∃ first ∈ x, versionRollUp keyPrefix delimiter first = none ∧ ∃ l,
      entriesAfter bucket keyPrefix delimiter m (markerAfter keyPrefix delimiter version) =
        first :: l := by
  unfold Resumes at hresumes
  push Not at hresumes
  obtain ⟨hr, id, hid, newer, hsub, hnewerkey, holder⟩ := hresumes
  have hmem := mem_of_entry _ _ _ n _ hversion
  have hmatching := matchingVersions_listable _ keyPrefix hlist
  have hsorted := hmatching.sorted
  have hdistinct := hmatching.distinct
  rw [hsplit, pairwise_append] at hsorted hdistinct
  have hall : ∀ v ∈ x, v ∈ sortedVersions bucket.objects := by
    intro v hv
    have hv' : v ∈ matchingVersions bucket keyPrefix := by
      rw [hsplit]
      exact mem_append_left _ hv
    exact (mem_filter.mp hv').1
  -- The version that compares as older is among those before the marker.
  have hnewer : newer ∈ x := by
    have hsub' : [newer, version].Sublist (matchingVersions bucket keyPrefix) := by
      have hfilter := hsub.filter fun v => (keyPrefix.getD []).isPrefixOf v.key
      have hkey : (keyPrefix.getD []).isPrefixOf version.key = true := (mem_filter.mp hmem).2
      have hboth : [newer, version].filter (fun v => (keyPrefix.getD []).isPrefixOf v.key) =
          [newer, version] := by simp [hnewerkey, isPrefixOf_iff_prefix.mp hkey]
      rwa [hboth] at hfilter
    have hnotmem : version ∉ y := fun hy =>
      (pairwise_cons.mp hdistinct.2.1).1 version hy rfl rfl
    rw [hsplit, sublist_append_iff] at hsub'
    obtain ⟨l, l', heq, hl, hl'⟩ := hsub'
    match l, heq with
    | [], heq =>
      rw [nil_append] at heq
      rw [← heq] at hl'
      have hy : [version].Sublist y := by
        cases hl' with
        | cons _ h => exact (sublist_cons_self _ [version]).trans h
        | cons_cons _ h => exact h
      exact absurd (singleton_sublist.mp hy) hnotmem
    | v :: l, heq =>
      rw [(cons.inj heq).1]
      exact hl.subset mem_cons_self
  have hkey : (versionsQuery bucket keyPrefix delimiter m
      (some version.key, version.versionId)).keyMarker = some version.key :=
    nonEmpty_some _ (hmatching.keys _ hmem)
  have hmarker : (versionsQuery bucket keyPrefix delimiter m
      (some version.key, version.versionId)).versionIdMarker = some id :=
    (nonEmpty_versionId _ hlist _ (mem_filter.mp hmem).1).trans hid
  obtain ⟨first, hfirst, hfirstkey, rest, hpassed⟩ := VersionsQuery.passed_older _ _ hkey
    rfl id hmarker x _ (fun v hv => ⟨hsorted.2.2 v hv version mem_cons_self,
      fun heq => ⟨fun hv' => hdistinct.2.2 v hv version mem_cons_self heq
        (hv'.trans hid.symm), older_ok _ hlist id _ (mem_filter.mp hmem).1 hid v
          (hall v hv)⟩⟩) _ hnewer hnewerkey holder
  obtain ⟨l, hheads⟩ := exists_heads_cons (versionRollUp keyPrefix delimiter) _ _
  have hrfirst : versionRollUp keyPrefix delimiter first = none := by
    rw [versionRollUp, hfirstkey]
    exact hr
  refine ⟨first, hfirst, hrfirst, l, ?_⟩
  rw [markerAfter, hr]
  rw [entriesAfter_matching _ _ _ m hlist _ hmem hr, hsplit, hpassed]
  exact hheads

omit hlist in
theorem exists_first_page (marker : Option Text × Option Text)
    (pages : List ListObjectVersionsOutput)
    (hwalk : VersionsWalk bucket keyPrefix delimiter m marker pages) :
    ∃ page ∈ pages, versionsCall bucket keyPrefix delimiter m marker = .ok page := by
  cases hwalk with
  | last hcall _ => exact ⟨_, mem_cons_self, hcall⟩
  | more hcall _ _ => exact ⟨_, mem_cons_self, hcall⟩

theorem not_complete_of_not_resumes (n : Nat) (version : ListedVersion)
    (hversion : (versionEntries bucket keyPrefix delimiter)[n]? = some version)
    (hresumes : ¬Resumes bucket keyPrefix delimiter version)
    (pages : List ListObjectVersionsOutput)
    (hwalk : VersionsWalk bucket keyPrefix delimiter m
      (markerAt bucket keyPrefix delimiter (n + 1)) pages) :
    ¬ShowVersions bucket keyPrefix delimiter m pages
      ((versionEntries bucket keyPrefix delimiter).drop (n + 1)) := by
  intro hshow
  obtain ⟨x, y, hsplit, hapart, hdrop⟩ := exists_parts _ _ _ hlist n _ hversion
  obtain ⟨first, hfirst, hr, l, hentries⟩ :=
    exists_first_again _ _ _ m hlist n _ x y hversion hsplit hresumes
  have hmarker : markerAt bucket keyPrefix delimiter (n + 1) =
      markerAfter keyPrefix delimiter version := by
    rw [markerAt, if_neg (by omega), Nat.add_sub_cancel, hversion]
  obtain ⟨page, hpage, hcall⟩ := exists_first_page _ _ _ m _ _ hwalk
  rw [versionsCall_at _ _ _ m hlist _
    (List.getElem?_eq_some_iff.mp hversion).1, hmarker, hentries] at hcall
  obtain rfl := Except.ok.inj hcall
  have hmatching := matchingVersions_listable _ keyPrefix hlist
  have hdistinct := hmatching.distinct
  rw [hsplit, pairwise_append] at hdistinct
  have hall : ∀ v, v ∈ x ∨ v ∈ version :: y → v ∈ sortedVersions bucket.objects := by
    intro v hv
    have hv' : v ∈ matchingVersions bucket keyPrefix := by
      rw [hsplit]
      exact mem_append.mpr hv
    exact (mem_filter.mp hv').1
  have hafter : ∀ w ∈ (versionEntries bucket keyPrefix delimiter).drop (n + 1),
      w ∈ version :: y := by
    intro w hw
    rw [hdrop] at hw
    exact mem_cons_of_mem _ ((heads_sublist _ _ _).subset hw)
  have hmem := (versionsQuery bucket keyPrefix delimiter m
    (markerAfter keyPrefix delimiter version)).first_mem_fill first l {}
  -- Its entry would be that of a version after the marker.
  rcases exists_entry _ _ _ m _ hr with ⟨e, he⟩ | ⟨e, he⟩
  · have hlisted : e ∈ pages.flatMap ListObjectVersionsOutput.versions :=
      mem_flatMap.mpr ⟨_, hpage, hmem.1 e he⟩
    rw [hshow.2.1] at hlisted
    obtain ⟨w, hw, hwe⟩ := mem_filterMap.mp hlisted
    obtain ⟨hkey, hid⟩ := versionEntry_eq_some _ _ _ m _ e he
    obtain ⟨hkey', hid'⟩ := versionEntry_eq_some _ _ _ m w e hwe
    exact hdistinct.2.2 first hfirst w (hafter w hw) (hkey.symm.trans hkey')
      (sameId_of_entry _ hlist _ w (hall _ (.inl hfirst))
        (hall w (.inr (hafter w hw))) (hid.symm.trans hid'))
  · have hlisted : e ∈ pages.flatMap ListObjectVersionsOutput.deleteMarkers :=
      mem_flatMap.mpr ⟨_, hpage, hmem.2 e he⟩
    rw [hshow.2.2.1] at hlisted
    obtain ⟨w, hw, hwe⟩ := mem_filterMap.mp hlisted
    obtain ⟨hkey, hid⟩ := markerEntry_eq_some _ _ _ m _ e he
    obtain ⟨hkey', hid'⟩ := markerEntry_eq_some _ _ _ m w e hwe
    exact hdistinct.2.2 first hfirst w (hafter w hw) (hkey.symm.trans hkey') (hid.symm.trans hid')

/-! ### Complete listings -/

omit hlist in
theorem filterMap_entries {β : Type} (entry : ListedVersion → Option β)
    (plain : ListedVersion → Option β)
    (hentry : ∀ version, entry version =
      if versionRollUp keyPrefix delimiter version = none then plain version else none) :
    ((matchingVersions bucket keyPrefix).filter fun version =>
      delimiter.getD [] = [] ∨
        ¬delimiter.getD [] <:+: version.key.drop (keyPrefix.getD []).length).filterMap plain =
      (versionEntries bucket keyPrefix delimiter).filterMap entry := by
  have hfilter : ∀ l : List ListedVersion, l.filterMap entry =
      (l.filter fun version => (versionRollUp keyPrefix delimiter version).isNone).filterMap
        plain := by
    intro l
    rw [filterMap_filter]
    refine filterMap_congr fun version _ => ?_
    rw [hentry version]
    exact if_congr isNone_iff_eq_none.symm rfl rfl
  rw [hfilter, versionEntries, filter_heads]
  congr 1
  refine filter_congr fun version _ => ?_
  rw [Bool.eq_iff_iff, decide_eq_true_iff, isNone_iff_eq_none, versionRollUp, rollUp_eq_none_iff]

omit hlist in
theorem listsVersions_iff (pages : List ListObjectVersionsOutput) :
    ListsVersions bucket keyPrefix delimiter m pages ↔
      ShowVersions bucket keyPrefix delimiter m pages
        (versionEntries bucket keyPrefix delimiter) := by
  have hlabel : ∀ version, (versionsQuery bucket keyPrefix delimiter m (none, none)).label version =
      versionRollUp keyPrefix delimiter version := fun _ => rfl
  have hversions := filterMap_entries bucket keyPrefix delimiter
    (versionEntry bucket keyPrefix delimiter m)
    (fun
      | .object s3Object =>
        some ((versionsQuery bucket keyPrefix delimiter m (none, none)).objectVersion s3Object)
      | .marker _ => none) (by
    intro version
    unfold versionEntry VersionsQuery.versionOf
    rw [hlabel]
    rcases versionRollUp keyPrefix delimiter version with _ | r
    · cases version <;> rfl
    · cases version <;> rfl)
  have hmarkers := filterMap_entries bucket keyPrefix delimiter
    (markerEntry bucket keyPrefix delimiter m)
    (fun
      | .object _ => none
      | .marker marker =>
        some ((versionsQuery bucket keyPrefix delimiter m (none, none)).deleteMarker marker)) (by
    intro version
    unfold markerEntry VersionsQuery.markerOf
    rw [hlabel]
    rcases versionRollUp keyPrefix delimiter version with _ | r
    · cases version <;> rfl
    · cases version <;> rfl)
  have hnodup : ((versionEntries bucket keyPrefix delimiter).filterMap
      (versionRollUp keyPrefix delimiter)).Nodup := nodup_labels_heads _ _
  have hprefixes : ∀ r, r ∈ (versionEntries bucket keyPrefix delimiter).filterMap
      (versionRollUp keyPrefix delimiter) ↔ ∃ version ∈ matchingVersions bucket keyPrefix,
        versionRollUp keyPrefix delimiter version = some r := by
    intro r
    rw [versionEntries, mem_labels_heads, and_iff_right not_mem_nil, mem_filterMap]
  constructor
  · intro h
    refine ⟨h.bounded, h.versions.trans hversions, h.deleteMarkers.trans hmarkers, ?_⟩
    exact (perm_ext_iff_of_nodup h.nodup hnodup).mpr fun r =>
      (h.commonPrefixes r).trans (hprefixes r).symm
  · rintro ⟨hbounded, hv, hd, hperm⟩
    exact ⟨hbounded, hv.trans hversions.symm, hd.trans hmarkers.symm, hperm.nodup_iff.mpr hnodup,
      fun r => hperm.mem_iff.trans (hprefixes r)⟩

/-- What has to hold of the place after some entries: the page before it ended
    there, and the listing can go on. -/
def GoodPlace (n : Nat) : Prop :=
  (0 < n → ∀ version, (versionEntries bucket keyPrefix delimiter)[n - 1]? = some version →
      Resumes bucket keyPrefix delimiter version) ∧
    (n + m < (versionEntries bucket keyPrefix delimiter).length → ∀ version,
      (versionEntries bucket keyPrefix delimiter)[n + m - 1]? = some version →
        lastVersionId bucket ≠ version.versionId)

/-- The page at a place ends before the listing does. -/
def HasMore (n : Nat) : Prop :=
  n + m ≤ (versionEntries bucket keyPrefix delimiter).length ∧
    ∀ version, (versionEntries bucket keyPrefix delimiter)[n + m - 1]? = some version →
      lastVersionId bucket ≠ version.versionId

theorem showVersions_iff (hm : 0 < m) :
    (∃ pages, VersionsWalk bucket keyPrefix delimiter m (none, none) pages ∧
        ShowVersions bucket keyPrefix delimiter m pages
          (versionEntries bucket keyPrefix delimiter)) ↔
      ∀ j, (∀ i < j, HasMore bucket keyPrefix delimiter m (i * m)) →
        GoodPlace bucket keyPrefix delimiter m (j * m) := by
  have hiff := exists_complete_iff (versionsCall bucket keyPrefix delimiter m) versionsNext
    (showVersions_count bucket keyPrefix delimiter m)
    _ m hm (markerAt bucket keyPrefix delimiter)
    (fun n => n ≤ (versionEntries bucket keyPrefix delimiter).length)
    (GoodPlace bucket keyPrefix delimiter m) (HasMore bucket keyPrefix delimiter m)
    (fun n hn => hn) ?_ ?_ 0 (Nat.zero_le _)
  · simp only [drop_zero, Nat.zero_add] at hiff
    exact hiff
  · intro n hn hgood
    obtain ⟨page, hcall, ⟨hshows, hnext⟩ | ⟨⟨version, hversion, hlast⟩, hlt, _⟩⟩ :=
      versions_page_at _ _ _ m hlist hm n hn hgood.1
    · refine ⟨page, hcall, hshows, ?_⟩
      rcases hnext with ⟨version, hversion, hlast, hnext⟩ | ⟨hlast, hle, hnext⟩
      · have hlt := (List.getElem?_eq_some_iff.mp hversion).1
        refine .inl ⟨hnext, ⟨by omega, fun version' hversion' => ?_⟩, by omega⟩
        rw [← Option.some.inj (hversion.symm.trans hversion')]
        exact hlast
      · refine .inr ⟨hnext, fun hmore => ?_, hle⟩
        obtain ⟨version, hversion⟩ : ∃ version,
            (versionEntries bucket keyPrefix delimiter)[n + m - 1]? = some version :=
          ⟨_, getElem?_eq_getElem (by have := hmore.1; omega)⟩
        exact hmore.2 _ hversion (hlast _ hversion)
    · exact absurd hlast (hgood.2 hlt version hversion)
  · intro n hn hbad pages hwalk hshow
    by_cases hresumes : 0 < n → ∀ version,
        (versionEntries bucket keyPrefix delimiter)[n - 1]? = some version →
          Resumes bucket keyPrefix delimiter version
    · -- The page is too long.
      obtain ⟨page, hpage, hcall⟩ := exists_first_page _ _ _ m _ _ hwalk
      obtain ⟨page', hcall', ⟨_, hnext⟩ | ⟨_, _, hlong⟩⟩ :=
        versions_page_at _ _ _ m hlist hm n hn hresumes
      · refine hbad ⟨hresumes, fun hlt version hversion => ?_⟩
        rcases hnext with ⟨version', hversion', hlast, _⟩ | ⟨_, hle, _⟩
        · rw [← some.inj (hversion'.symm.trans hversion)]
          exact hlast
        · omega
      · obtain rfl := Except.ok.inj (hcall'.symm.trans hcall)
        have hbound := hshow.1 _ hpage
        omega
    · push Not at hresumes
      obtain ⟨hpos, version, hversion, hnot⟩ := hresumes
      obtain ⟨k, rfl⟩ : ∃ k, n = k + 1 := ⟨n - 1, by omega⟩
      exact not_complete_of_not_resumes _ _ _ m hlist k _ hversion hnot _ hwalk hshow

end Places

end Client

/-- A client that lists the versions of a bucket page by page gets all versions,
    delete markers and roll-ups once each, on pages that are not too long, if and
    only if the version that fills a page has the id of the last of all versions
    only where it opens the last entry, and otherwise, if it is not rolled up,
    no version of its key that comes before it has an id that compares as older. -/
theorem list_versions_complete_iff (bucket : ListedBucket) (hfiled : bucket.objects.Filed)
    (hnamed : bucket.objects.Named) (keyPrefix delimiter : Option Text) (m : Nat) (hm : 1 ≤ m) :
    (∃ pages, VersionsWalk bucket keyPrefix delimiter m (none, none) pages ∧
        ListsVersions bucket keyPrefix delimiter m pages) ↔
      ∀ j, 1 ≤ j → ∀ version,
        (versionEntries bucket keyPrefix delimiter)[j * m - 1]? = some version →
          (lastVersionId bucket = version.versionId →
              j * m = (versionEntries bucket keyPrefix delimiter).length) ∧
            (lastVersionId bucket ≠ version.versionId →
              Resumes bucket keyPrefix delimiter version) := by
  have hlist := listable_sortedVersions _ hfiled hnamed
  simp only [listsVersions_iff]
  rw [showVersions_iff _ _ _ m hlist hm]
  have hnext : ∀ j, j * m + m = (j + 1) * m := fun j => (Nat.succ_mul j m).symm
  constructor
  · intro h j hj version hversion
    have hlt := (List.getElem?_eq_some_iff.mp hversion).1
    have hpos := Nat.mul_pos hj hm
    -- Every page before this one has more, since none is too long.
    have hmore : ∀ i, i + 1 < j → HasMore bucket keyPrefix delimiter m (i * m) := by
      intro i
      induction i using Nat.strong_induction_on with
      | _ i ih =>
        intro hij
        have hgood := h i fun k hk => ih k hk (by omega)
        have hle := Nat.mul_le_mul_right m (Nat.succ_le_of_lt hij)
        rw [Nat.succ_mul, Nat.succ_mul] at hle
        exact ⟨by omega, hgood.2 (by omega)⟩
    obtain ⟨k, rfl⟩ : ∃ k, j = k + 1 := ⟨j - 1, by omega⟩
    have hbefore := h k fun i hi => hmore i (Nat.succ_lt_succ hi)
    rw [← hnext] at hversion hlt hpos ⊢
    constructor
    · intro hlast
      by_contra hne
      exact hbefore.2 (by omega) _ hversion hlast
    · intro hlast
      have hhere : HasMore bucket keyPrefix delimiter m (k * m) := by
        refine ⟨by omega, fun version' hversion' => ?_⟩
        rw [← some.inj (hversion.symm.trans hversion')]
        exact hlast
      have hgood := h _ fun i hi => by
        rcases Nat.lt_succ_iff_lt_or_eq.mp hi with hlt | rfl
        · exact hmore i (Nat.succ_lt_succ hlt)
        · exact hhere
      rw [← hnext] at hgood
      exact hgood.1 hpos _ hversion
  · intro h j hmore
    constructor
    · intro hpos version hversion
      obtain ⟨k, rfl⟩ : ∃ k, j = k + 1 := ⟨j - 1, by
        have := Nat.pos_of_mul_pos_right hpos
        omega⟩
      have hlast := (hmore k (Nat.lt_succ_self k)).2 version (by rwa [hnext])
      exact (h _ (Nat.succ_pos k) _ hversion).2 hlast
    · intro hlt version hversion hlast
      rw [hnext] at hversion hlt
      have hend := (h (j + 1) (Nat.succ_pos j) _ hversion).1 hlast
      omega

def generatedId (sequence : Nat) : Text := generateSafeVersionId sequence (List.replicate 18 0)

/-- A key with an object below a delete marker, and another key. -/
def markedVersions : Dict Text (Dict (Option Text) ListedVersion) :=
  Dict.ofEntries
    [(['a'], Dict.ofEntries
        [(some (generatedId 1),
            .object ⟨['a'], some (generatedId 1), 1, false, "", 0, "", none, none⟩),
          (some (generatedId 2), .marker ⟨['a'], some (generatedId 2), 2, true⟩)]),
      (['b'], Dict.ofEntries
        [(some (generatedId 3),
            .object ⟨['b'], some (generatedId 3), 3, true, "", 0, "", none, none⟩)])]

def markedKey : ListedBucket where
  name := "bucket"
  owner := "owner"
  bucketRegion := "us-east-1"
  objects := .versioned markedVersions

theorem list_versions_complete_of_markedKey :
    ∃ pages, VersionsWalk markedKey none none 1 (none, none) pages ∧
      ListsVersions markedKey none none 1 pages := by
  refine (list_versions_complete_iff _ ?_ ?_ _ _ 1 le_rfl).mpr ?_
  · change ∀ e ∈ markedVersions.entries, ∀ f ∈ e.2.entries,
      f.2.key = e.1 ∧ f.2.versionId = f.1
    decide
  · have hids : ∀ e ∈ markedVersions.entries, e.1 ≠ [] ∧ ∀ f ∈ e.2.entries,
        f.1 = some (generatedId 1) ∨ f.1 = some (generatedId 2) ∨ f.1 = some (generatedId 3) := by
      decide
    intro e he
    refine ⟨(hids e he).1, fun f hf => ?_⟩
    rcases (hids e he).2 f hf with hid | hid | hid
    · exact ⟨_, hid, .inr ⟨1, _, length_replicate, rfl⟩⟩
    · exact ⟨_, hid, .inr ⟨2, _, length_replicate, rfl⟩⟩
    · exact ⟨_, hid, .inr ⟨3, _, length_replicate, rfl⟩⟩
  · have hlength : (versionEntries markedKey none none).length = 3 := by decide
    have hlast : ∀ version ∈ (versionEntries markedKey none none).take 2,
        lastVersionId markedKey ≠ version.versionId := by decide
    have hresumes : ∀ version ∈ versionEntries markedKey none none,
        ∀ newer ∈ sortedVersions markedKey.objects,
          [newer, version].Sublist (sortedVersions markedKey.objects) →
            newer.key = version.key →
              isVersionOlderThanOther newer.versionId (version.versionId.getD []) ≠ .ok true := by
      decide
    intro j hj version hversion
    have hlt := (List.getElem?_eq_some_iff.mp hversion).1
    refine ⟨fun hid => ?_, fun _ _ id hid newer hsub hkey => ?_⟩
    · by_contra hne
      refine hlast _ (mem_of_getElem? (i := j * 1 - 1) ?_) hid
      rw [getElem?_take_of_lt (by omega)]
      exact hversion
    · have hnot := hresumes _ (mem_of_getElem? hversion) _
        (hsub.subset mem_cons_self) hsub hkey
      rwa [hid] at hnot

/-- Two keys of a bucket that was never versioned. -/
def unversionedKeys : ListedBucket where
  name := "bucket"
  owner := "owner"
  bucketRegion := "us-east-1"
  objects := .unversioned (Dict.ofEntries
    [(['a'], { key := ['a'], lastModified := 1 }), (['b'], { key := ['b'], lastModified := 2 })])

/-- Both versions are on the first page, although it has room for one. -/
theorem list_versions_page_too_long :
    ¬∃ pages, VersionsWalk unversionedKeys none none 1 (none, none) pages ∧
      ListsVersions unversionedKeys none none 1 pages := by
  rintro ⟨pages, hwalk, hlists⟩
  obtain ⟨page, hpage, hcall⟩ := exists_first_page _ _ _ 1 _ _ hwalk
  have hlength : (versionsCall unversionedKeys none none 1 (none, none)).map
      pageLength = .ok 2 := by
    decide
  rw [hcall] at hlength
  have hbound := hlists.bounded _ hpage
  rw [Except.ok.inj hlength] at hbound
  omega

end LocalEmu.S3
