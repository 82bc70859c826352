import LocalEmu.Theory.S3.ObjectPages

/-!
# Listing Objects

What a client gets that lists the objects of a bucket page by page.

A page that continues at a key starts at the entry of that key exactly where
the keys, in the form in which they are compared, are on the same side of it as
the keys themselves. With quoted keys they may not be: then entries are listed
again, or left out. A token whose key is not ASCII can not be decoded at all.
-/

namespace LocalEmu.S3

open List Option

open Paging

section Client

variable (bucket : ListedBucket) (url fetchOwner : Bool) (keyPrefix delimiter : Option Text)
  (m : Nat)

/-- The pages list every object and every roll-up once, and none is too long. -/
structure ListsObjects (pages : List ListObjectsV2Output) : Prop where
  bounded : ∀ page ∈ pages, page.contents.length + page.commonPrefixes.length ≤ m
  contents : (pages.flatMap fun page => page.contents.map ObjectEntry.key) =
    ((matchingObjects bucket keyPrefix).filter fun s3Object =>
      delimiter.getD [] = [] ∨
        ¬delimiter.getD [] <:+: s3Object.key.drop (keyPrefix.getD []).length).map
      fun s3Object => shown (encoding url) s3Object.key
  nodup : (pages.flatMap ListObjectsV2Output.commonPrefixes).Nodup
  commonPrefixes : ∀ r, r ∈ pages.flatMap ListObjectsV2Output.commonPrefixes ↔
    ∃ s3Object ∈ matchingObjects bucket keyPrefix, ∃ r₀,
      objectRollUp keyPrefix delimiter s3Object = some r₀ ∧ shown (encoding url) r₀ = r

/-- Quoting a key does not move its delimiter. -/
def KeepsRollUp (s3Object : ListedObject) : Prop :=
  rollUp (shown (encoding url) (keyPrefix.getD [])) (shown (encoding url) (delimiter.getD []))
      (shown (encoding url) s3Object.key) =
    (objectRollUp keyPrefix delimiter s3Object).map (shown (encoding url))

/-- A page can start at the key of an object: the key is ASCII, and the keys of
    all other entries are on the same side of it in both forms. -/
def StartsPage (t : ListedObject) : Prop :=
  t.key.isAscii = true ∧
    ∀ s3Object ∈ matchingObjects bucket keyPrefix,
      objectRollUp keyPrefix delimiter s3Object = none ∨
        objectRollUp keyPrefix delimiter s3Object ≠ objectRollUp keyPrefix delimiter t →
      (shown (encoding url) s3Object.key < shown (encoding url) t.key ↔ s3Object.key < t.key)

/-- The objects that open an entry. -/
def objectEntries : List ListedObject :=
  heads (objectRollUp keyPrefix delimiter) [] (matchingObjects bucket keyPrefix)

/-! ### Where a page starts -/

theorem matching_isPrefix (s3Object : ListedObject)
    (h : s3Object ∈ matchingObjects bucket keyPrefix) : keyPrefix.getD [] <+: s3Object.key :=
  isPrefixOf_iff_prefix.mp (mem_filter.mp h).2

theorem matching_pairwise (hfiled : bucket.objects.Filed) :
    (matchingObjects bucket keyPrefix).Pairwise fun a b => a.key < b.key :=
  (sortedObjects_pairwise _ hfiled).filter _

theorem matching_together (hfiled : bucket.objects.Filed) :
    Together (objectRollUp keyPrefix delimiter) (matchingObjects bucket keyPrefix) :=
  together_of_sorted _ _ _ _
    ((matching_pairwise _ _ hfiled).imp fun h => le_of_lt h)
    fun s3Object h => matching_isPrefix _ _ s3Object h

theorem objectsFrom_none :
    objectsFrom bucket url keyPrefix none = matchingObjects bucket keyPrefix :=
  filter_eq_self.mpr fun _ _ => rfl

section Places

variable (hkeep : ∀ s3Object ∈ matchingObjects bucket keyPrefix,
  KeepsRollUp url keyPrefix delimiter s3Object)

include hkeep

theorem entriesFrom_eq (start : Option Text) :
    entriesFrom bucket url keyPrefix delimiter start =
      heads (objectRollUp keyPrefix delimiter) [] (objectsFrom bucket url keyPrefix start) :=
  heads_rename _ (shown_injective _) _ [] _ fun _ h =>
    hkeep _ (mem_filter.mp h).1

theorem entriesFrom_none :
    entriesFrom bucket url keyPrefix delimiter none =
      objectEntries bucket keyPrefix delimiter := by
  rw [entriesFrom_eq _ _ _ _ hkeep, objectsFrom_none]
  rfl

/-- A page that can start at a key starts there. -/
theorem entriesFrom_some (hfiled : bucket.objects.Filed) (n : Nat) (t : ListedObject)
    (ht : (objectEntries bucket keyPrefix delimiter)[n]? = some t)
    (hstart : StartsPage bucket url keyPrefix delimiter t) :
    entriesFrom bucket url keyPrefix delimiter (some t.key) =
      (objectEntries bucket keyPrefix delimiter).drop n := by
  obtain ⟨x, y, hsplit, hapart, _, hdrop⟩ := heads_split _ (matching_together _ _ _ hfiled) n t ht
  have hsorted := matching_pairwise _ keyPrefix hfiled
  have hcompare := hstart.2
  rw [entriesFrom_eq _ _ _ _ hkeep, objectEntries, ← hdrop, objectsFrom]
  rw [hsplit] at hsorted hcompare ⊢
  rw [pairwise_append] at hsorted
  have hafter := (pairwise_cons.mp hsorted.2.1).1
  -- What comes before the start is skipped.
  have hbefore : x.filter (fun s3Object => !(some t.key).any fun key =>
      decide (shown (encoding url) s3Object.key < shown (encoding url) key)) = [] := by
    rw [filter_eq_nil_iff]
    intro a ha
    have hlt : a.key < t.key := hsorted.2.2 a ha t mem_cons_self
    have hother : objectRollUp keyPrefix delimiter a = none ∨
        objectRollUp keyPrefix delimiter a ≠ objectRollUp keyPrefix delimiter t := by
      rcases hr : objectRollUp keyPrefix delimiter a with _ | r
      · exact .inl rfl
      · exact .inr fun h => hapart a ha t mem_cons_self r hr h.symm
    simpa using (hcompare a (mem_append_left _ ha) hother).mpr hlt
  rw [filter_append, hbefore, nil_append, filter_cons_of_pos (by simp)]
  -- What comes after it and is skipped has the same roll-up.
  have hskipped : ∀ b ∈ y, (!(some t.key).any fun key =>
      decide (shown (encoding url) b.key < shown (encoding url) key)) = false →
      ∃ r, objectRollUp keyPrefix delimiter t = some r ∧
        objectRollUp keyPrefix delimiter b = some r := by
    intro b hb hskip
    have hlt : shown (encoding url) b.key < shown (encoding url) t.key := by simpa using hskip
    by_contra hnone
    have hother : objectRollUp keyPrefix delimiter b = none ∨
        objectRollUp keyPrefix delimiter b ≠ objectRollUp keyPrefix delimiter t := by
      rcases hr : objectRollUp keyPrefix delimiter b with _ | r
      · exact .inl rfl
      · exact .inr fun h => hnone ⟨r, h.symm, hr⟩
    have hbefore := (hcompare b (mem_append_right _ (mem_cons_of_mem t hb)) hother).mp hlt
    exact lt_asymm hbefore (hafter b hb)
  rcases hr : objectRollUp keyPrefix delimiter t with _ | r
  · rw [heads_cons_none _ _ _ hr, heads_cons_none _ _ _ hr, heads_filter]
    intro b hb hskip
    obtain ⟨r, ht', _⟩ := hskipped b hb hskip
    exact absurd (hr.symm.trans ht') (by simp)
  · rw [heads_cons_new _ _ _ r hr not_mem_nil, heads_cons_new _ _ _ r hr not_mem_nil,
      heads_filter]
    intro b hb hskip
    obtain ⟨s, ht', hb'⟩ := hskipped b hb hskip
    rw [hr] at ht'
    exact ⟨s, by simp [some.inj ht'], hb'⟩

end Places

/-! ### What a walk lists -/

variable (s3Object : ListedObject)

/-- The entry of an object: its key, or its roll-up. -/
def entryOf : Text ⊕ Text :=
  match shownRollUp url keyPrefix delimiter s3Object with
  | none => .inl (shown (encoding url) s3Object.key)
  | some r => .inr r

def pageEntries (page : ListObjectsV2Output) : List (Text ⊕ Text) :=
  (page.contents.map ObjectEntry.key).map .inl ++ page.commonPrefixes.map .inr

theorem entryOf_eq_inl (key : Text) : entryOf url keyPrefix delimiter s3Object = .inl key ↔
      shownRollUp url keyPrefix delimiter s3Object = none ∧
        shown (encoding url) s3Object.key = key := by
  unfold entryOf
  rcases shownRollUp url keyPrefix delimiter s3Object with _ | r
  · simp
  · simp

theorem entryOf_eq_inr (r : Text) : entryOf url keyPrefix delimiter s3Object = .inr r ↔
      shownRollUp url keyPrefix delimiter s3Object = some r := by
  unfold entryOf
  rcases shownRollUp url keyPrefix delimiter s3Object with _ | r
  · simp
  · simp

theorem mem_pageEntries (page : ListObjectsV2Output) (entries : List ListedObject)
    (h : ShowsObjects url keyPrefix delimiter m page entries) (e : Text ⊕ Text) :
    e ∈ pageEntries page ↔ ∃ s3Object ∈ entries, entryOf url keyPrefix delimiter s3Object = e := by
  unfold pageEntries
  rw [h.2.1]
  cases e with
  | inl => simp [entryOf_eq_inl, and_assoc]
  | inr => simp [entryOf_eq_inr, h.2.2.mem_iff]

theorem mem_pagesEntries (pages : List ListObjectsV2Output) (entries : List ListedObject)
    (h : ShowObjects url keyPrefix delimiter m pages entries) (e : Text ⊕ Text) :
    e ∈ pages.flatMap pageEntries ↔
      ∃ s3Object ∈ entries, entryOf url keyPrefix delimiter s3Object = e := by
  have hparts : e ∈ pages.flatMap pageEntries ↔
      e ∈ (pages.flatMap fun page => page.contents.map ObjectEntry.key).map Sum.inl ∨
        e ∈ (pages.flatMap ListObjectsV2Output.commonPrefixes).map Sum.inr := by
    simp only [pageEntries, List.mem_flatMap, List.mem_append, List.mem_map]
    constructor
    · rintro ⟨page, hpage, ⟨key, hkey, rfl⟩ | ⟨r, hr, rfl⟩⟩
      · exact .inl ⟨key, ⟨page, hpage, hkey⟩, rfl⟩
      · exact .inr ⟨r, ⟨page, hpage, hr⟩, rfl⟩
    · rintro (⟨key, ⟨page, hpage, hkey⟩, rfl⟩ | ⟨r, ⟨page, hpage, hr⟩, rfl⟩)
      · exact ⟨page, hpage, .inl ⟨key, hkey, rfl⟩⟩
      · exact ⟨page, hpage, .inr ⟨r, hr, rfl⟩⟩
  rw [hparts, h.2.1]
  cases e with
  | inl => simp [entryOf_eq_inl, and_assoc]
  | inr => simp [entryOf_eq_inr, h.2.2.mem_iff]

/-- A walk from a key lists the entries of objects that do not come before it. -/
theorem walk_lists (hm : 0 < m) (start : Option Text) (hne : start ≠ some [])
    (pages : List ListObjectsV2Output)
    (hwalk : ObjectsWalk bucket url fetchOwner keyPrefix delimiter m
      (start.map encodeContinuationToken) pages) (e : Text ⊕ Text)
    (he : e ∈ pages.flatMap pageEntries) :
    ∃ b ∈ objectsFrom bucket url keyPrefix start, entryOf url keyPrefix delimiter b = e := by
  generalize htoken : start.map encodeContinuationToken = token at hwalk
  have hpage : ∀ (start : Option Text), start ≠ some [] → ∀ page, objectsCall bucket url fetchOwner
      keyPrefix delimiter m (start.map encodeContinuationToken) = .ok page →
      e ∈ pageEntries page → ∃ b ∈ objectsFrom bucket url keyPrefix start,
        entryOf url keyPrefix delimiter b = e := by
    intro start hne page hcall he
    have hshows := (objectsCall_ok _ _ _ _ _ m hm _ hne _ hcall).1
    obtain ⟨b, hb, heq⟩ := (mem_pageEntries _ _ _ m _ _ hshows e).mp he
    exact ⟨b, (heads_sublist _ _ _).subset (mem_of_mem_take hb), heq⟩
  induction hwalk generalizing start with
  | last hcall =>
    subst htoken
    rw [flatMap_singleton] at he
    exact hpage _ hne _ hcall he
  | more hcall hnext hwalk ih =>
    subst htoken
    rw [flatMap_cons, mem_append] at he
    rcases he with he | he
    · exact hpage _ hne _ hcall he
    · have hok := (objectsCall_ok _ _ _ _ _ m hm _ hne _
        hcall).2
      unfold objectsNext at hnext
      rw [hok] at hnext
      obtain ⟨text, htext, rfl⟩ := map_eq_some_iff.mp hnext
      obtain ⟨hmap, htoken⟩ := filter_eq_some_iff.mp htext
      obtain ⟨t, ht, rfl⟩ := map_eq_some_iff.mp hmap
      have htkey : t.key ≠ [] := by
        intro hnil
        rw [hnil] at htoken
        cases htoken
      obtain ⟨b, hb, heq⟩ := ih (some t.key) (fun h => htkey (some.inj h)) he rfl
      refine ⟨b, ?_, heq⟩
      -- The next page starts at a key of this one.
      have hmem : t ∈ objectsFrom bucket url keyPrefix start :=
        (heads_sublist _ _ _).subset (mem_of_getElem? ht)
      have ht' := (mem_filter.mp hmem).2
      obtain ⟨hb, hb'⟩ := mem_filter.mp hb
      refine mem_filter.mpr ⟨hb, ?_⟩
      cases start with
      | none => rfl
      | some =>
        simp only [any_some, Bool.not_eq_true', decide_eq_false_iff_not, not_lt] at *
        exact le_trans ht' hb'

/-! ### Pages that start in the wrong place -/

section Wrong

variable (hfiled : bucket.objects.Filed)
  (hkeep : ∀ s3Object ∈ matchingObjects bucket keyPrefix,
    KeepsRollUp url keyPrefix delimiter s3Object)

include hkeep

theorem shownRollUp_eq_iff (a b : ListedObject) (ha : a ∈ matchingObjects bucket keyPrefix)
    (hb : b ∈ matchingObjects bucket keyPrefix) :
    shownRollUp url keyPrefix delimiter a = shownRollUp url keyPrefix delimiter b ↔
      objectRollUp keyPrefix delimiter a = objectRollUp keyPrefix delimiter b := by
  have ha' : shownRollUp url keyPrefix delimiter a = _ := hkeep a ha
  have hb' : shownRollUp url keyPrefix delimiter b = _ := hkeep b hb
  rw [ha', hb']
  exact (map_injective (shown_injective _)).eq_iff

theorem shownRollUp_eq_none_iff (a : ListedObject) (ha : a ∈ matchingObjects bucket keyPrefix) :
    shownRollUp url keyPrefix delimiter a = none ↔ objectRollUp keyPrefix delimiter a = none := by
  have ha' : shownRollUp url keyPrefix delimiter a = _ := hkeep a ha
  rw [ha', map_eq_none_iff]

theorem exists_head_entry (l : List ListedObject)
    (hl : ∀ a ∈ l, a ∈ matchingObjects bucket keyPrefix) (s3Object : ListedObject)
    (hmem : s3Object ∈ l) :
    ∃ h ∈ heads (objectRollUp keyPrefix delimiter) [] l,
      entryOf url keyPrefix delimiter h = entryOf url keyPrefix delimiter s3Object := by
  rcases hr : objectRollUp keyPrefix delimiter s3Object with _ | r
  · refine ⟨s3Object, ?_, rfl⟩
    have hfilter : s3Object ∈ l.filter fun a => (objectRollUp keyPrefix delimiter a).isNone :=
      mem_filter.mpr ⟨hmem, by simp [hr]⟩
    rw [← filter_heads []] at hfilter
    exact (mem_filter.mp hfilter).1
  · have hlabel : r ∈ (heads (objectRollUp keyPrefix delimiter) [] l).filterMap
        (objectRollUp keyPrefix delimiter) :=
      (mem_labels_heads [] l r).mpr
        ⟨not_mem_nil, mem_filterMap.mpr ⟨s3Object, hmem, hr⟩⟩
    obtain ⟨h, hh, hhr⟩ := mem_filterMap.mp hlabel
    refine ⟨h, hh, ?_⟩
    have hsame := (shownRollUp_eq_iff _ _ _ _ hkeep h _
      (hl h ((heads_sublist _ _ _).subset hh)) (hl _ hmem)).mpr (hhr.trans hr.symm)
    have hsome : shownRollUp url keyPrefix delimiter s3Object = _ := hkeep _ (hl _ hmem)
    rw [hr] at hsome
    rw [(entryOf_eq_inr _ _ _ _ _).mpr hsome]
    exact (entryOf_eq_inr _ _ _ h _).mpr (hsame.trans hsome)

include hfiled

/-- An object before the key of a page that is not skipped there has an entry
    on the page, but not among those from the key on. -/
theorem exists_listed_again (hm : 0 < m) (t : ListedObject) (x y : List ListedObject)
    (hsplit : matchingObjects bucket keyPrefix = x ++ t :: y)
    (hapart : ∀ a ∈ x, ∀ b ∈ t :: y, ∀ r, objectRollUp keyPrefix delimiter a = some r →
      objectRollUp keyPrefix delimiter b ≠ some r)
    (page : ListObjectsV2Output)
    (hshows : ShowsObjects url keyPrefix delimiter m page
      ((entriesFrom bucket url keyPrefix delimiter (some t.key)).take m))
    (o : ListedObject) (ho : o ∈ x)
    (hside : ¬shown (encoding url) o.key < shown (encoding url) t.key) :
    ∃ e ∈ pageEntries page, ∀ b ∈ t :: y, entryOf url keyPrefix delimiter b ≠ e := by
  have hsorted := matching_pairwise _ keyPrefix hfiled
  have hmem : ∀ a, a ∈ x ∨ a ∈ t :: y → a ∈ matchingObjects bucket keyPrefix := by
    intro a ha
    rw [hsplit]
    exact mem_append.mpr ha
  rw [hsplit, pairwise_append] at hsorted
  have hkept : o ∈ x.filter (fun s3Object => !(some t.key).any fun key =>
      decide (shown (encoding url) s3Object.key < shown (encoding url) key)) :=
    mem_filter.mpr ⟨ho, by simpa using hside⟩
  -- The first object that is kept opens the first entry of the page.
  obtain ⟨a, rest, hfirst⟩ := exists_cons_of_ne_nil (ne_nil_of_mem hkept)
  have ha : a ∈ x := (mem_filter.mp (hfirst ▸ mem_cons_self)).1
  obtain ⟨l', hheads⟩ := exists_heads_cons (shownRollUp url keyPrefix delimiter) a
    (rest ++ (t :: y).filter (fun s3Object => !(some t.key).any fun key =>
      decide (shown (encoding url) s3Object.key < shown (encoding url) key)))
  have hentries : entriesFrom bucket url keyPrefix delimiter (some t.key) = a :: l' := by
    rw [entriesFrom, objectsFrom, hsplit, filter_append, hfirst]
    exact hheads
  rw [hentries] at hshows
  refine ⟨entryOf url keyPrefix delimiter a, ?_, fun b hb hentry => ?_⟩
  · refine (mem_pageEntries _ _ _ m _ _ hshows _).mpr ⟨a, ?_, rfl⟩
    obtain ⟨k, rfl⟩ : ∃ k, m = k + 1 := ⟨m - 1, by omega⟩
    exact mem_cons_self
  · rcases hr : shownRollUp url keyPrefix delimiter a with _ | r
    · rw [(entryOf_eq_inl _ _ _ a _).mpr ⟨hr, rfl⟩, entryOf_eq_inl] at hentry
      have hlt := hsorted.2.2 a ha b hb
      rw [shown_injective _ hentry.2] at hlt
      exact lt_irrefl _ hlt
    · rw [(entryOf_eq_inr _ _ _ a r).mpr hr, entryOf_eq_inr] at hentry
      have hsame := (shownRollUp_eq_iff _ _ _ _ hkeep a b
        (hmem a (.inl ha)) (hmem b (.inr hb))).mp (hr.trans hentry.symm)
      rcases hr' : objectRollUp keyPrefix delimiter a with _ | r'
      · rw [(shownRollUp_eq_none_iff _ _ _ _ hkeep a
          (hmem a (.inl ha))).mpr hr'] at hr
        cases hr
      · exact hapart a ha b hb r' hr' (hsame.symm.trans hr')

omit hfiled in
theorem left_out (hm : 0 < m) (t : ListedObject) (ht : t ∈ matchingObjects bucket keyPrefix)
    (htkey : t.key ≠ []) (pages : List ListObjectsV2Output)
    (hwalk : ObjectsWalk bucket url fetchOwner keyPrefix delimiter m
      (some (encodeContinuationToken t.key)) pages) (o : ListedObject)
    (ho : o ∈ matchingObjects bucket keyPrefix)
    (hother : objectRollUp keyPrefix delimiter o = none ∨
      objectRollUp keyPrefix delimiter o ≠ objectRollUp keyPrefix delimiter t)
    (hside : shown (encoding url) o.key < shown (encoding url) t.key) :
    entryOf url keyPrefix delimiter o ∉ pages.flatMap pageEntries := by
  intro hlisted
  obtain ⟨b, hb, hb'⟩ := walk_lists bucket url fetchOwner keyPrefix delimiter m hm (some t.key)
    (fun h => htkey (some.inj h)) pages hwalk _ hlisted
  obtain ⟨hbmem, hbkept⟩ := mem_filter.mp hb
  have hbafter : ¬shown (encoding url) b.key < shown (encoding url) t.key := by simpa using hbkept
  rcases hr : shownRollUp url keyPrefix delimiter o with _ | r
  · rw [(entryOf_eq_inl url keyPrefix delimiter o _).mpr ⟨hr, rfl⟩, entryOf_eq_inl] at hb'
    rw [hb'.2] at hbafter
    exact hbafter hside
  · rw [(entryOf_eq_inr url keyPrefix delimiter o r).mpr hr, entryOf_eq_inr] at hb'
    have hstarts : ∀ a ∈ matchingObjects bucket keyPrefix,
        shownRollUp url keyPrefix delimiter a = some r → r <+: shown (encoding url) a.key :=
      fun a ha hlabel => rollUp_isPrefix _ _ _ _
        ((shown_isPrefix_iff _ _ _).mpr (matching_isPrefix bucket keyPrefix a ha)) hlabel
    refine hbafter (Text.lt_of_lt_of_isPrefix r _ _ _ (hstarts o ho hr) (hstarts b hbmem hb')
      (fun htstart => ?_) hside)
    -- Otherwise the key of the token would have the roll-up of the object.
    have htlabel : shownRollUp url keyPrefix delimiter t = some r :=
      rollUp_of_isPrefix _ _ _ _ r hr htstart
    have hsame := (shownRollUp_eq_iff bucket url keyPrefix delimiter hkeep o t ho ht).mp
      (hr.trans htlabel.symm)
    rcases hother with hnone | hne
    · rw [(shownRollUp_eq_none_iff bucket url keyPrefix delimiter hkeep o ho).mpr hnone] at hr
      cases hr
    · exact hne hsame

/-- A walk that goes on at a key where no page can start is not complete. -/
theorem not_complete_of_not_starts (hm : 0 < m) (n : Nat) (t : ListedObject)
    (ht : (objectEntries bucket keyPrefix delimiter)[n]? = some t) (htkey : t.key ≠ [])
    (hstart : ¬StartsPage bucket url keyPrefix delimiter t) (pages : List ListObjectsV2Output)
    (hwalk : ObjectsWalk bucket url fetchOwner keyPrefix delimiter m
      (some (encodeContinuationToken t.key)) pages) :
    ¬ShowObjects url keyPrefix delimiter m pages
      ((objectEntries bucket keyPrefix delimiter).drop n) := by
  intro hshow
  obtain ⟨x, y, hsplit, hapart, _, hdrop⟩ := heads_split _ (matching_together _ _ _ hfiled) n t ht
  have hmem : ∀ a ∈ t :: y, a ∈ matchingObjects bucket keyPrefix := by
    intro a ha
    rw [hsplit]
    exact mem_append_right x ha
  have hentries := mem_pagesEntries _ _ _ m _ _ hshow
  unfold objectEntries at hentries
  rw [← hdrop] at hentries
  -- The first page exists, so the key is ASCII.
  obtain ⟨page, hcall, hpage⟩ : ∃ page, objectsCall bucket url fetchOwner keyPrefix delimiter m
      ((some t.key).map encodeContinuationToken) = .ok page ∧
      ∀ e ∈ pageEntries page, e ∈ pages.flatMap pageEntries := by
    cases hwalk with
    | last hcall _ => exact ⟨_, hcall, fun e he => by rwa [flatMap_singleton]⟩
    | more hcall _ _ =>
      refine ⟨_, hcall, fun e he => ?_⟩
      exact mem_append_left _ he
  have hascii : t.key.isAscii = true := by
    by_contra hascii
    obtain ⟨error, herror⟩ := objectsCall_not_ascii _ _ _ _ _ m _ (Bool.not_eq_true _ ▸ hascii)
    exact absurd (herror.symm.trans hcall) (by simp)
  refine hstart ⟨hascii, fun o ho hother => ?_⟩
  have hplace := ho
  rw [hsplit, mem_append, mem_cons] at hplace
  have hsorted := matching_pairwise _ keyPrefix hfiled
  rw [hsplit, pairwise_append] at hsorted
  rcases hplace with hx | rfl | hy
  · -- An object before the key would be listed again.
    refine iff_of_true ?_ (hsorted.2.2 o hx t mem_cons_self)
    by_contra hside
    have hshows := (objectsCall_ok _ _ _ _ _ m hm _ (fun h => htkey (some.inj h)) _ hcall).1
    obtain ⟨e, he, hnone⟩ := exists_listed_again _ _ _ _ m hfiled hkeep hm t
      x y hsplit hapart _ hshows o hx hside
    obtain ⟨b, hb, hb'⟩ := (hentries e).mp (hpage e he)
    exact hnone b ((heads_sublist _ _ _).subset hb) hb'
  · exact iff_of_false (lt_irrefl _) (lt_irrefl _)
  · -- An object after the key would be left out.
    refine iff_of_false (fun hside => ?_) (lt_asymm ((pairwise_cons.mp hsorted.2.1).1 o hy))
    obtain ⟨h, hh, hentry⟩ := exists_head_entry _ _ _ _ hkeep _ hmem o (mem_cons_of_mem t hy)
    exact left_out _ _ _ _ _ m hkeep hm t
      (hmem t mem_cons_self) htkey _ hwalk o ho hother hside
      ((hentries _).mpr ⟨h, hh, hentry⟩)

omit hfiled in
theorem listsObjects_iff (pages : List ListObjectsV2Output) :
    ListsObjects bucket url keyPrefix delimiter m pages ↔
      ShowObjects url keyPrefix delimiter m pages (objectEntries bucket keyPrefix delimiter) := by
  have hsub : ∀ a ∈ objectEntries bucket keyPrefix delimiter,
      a ∈ matchingObjects bucket keyPrefix := fun a ha => (heads_sublist _ _ _).subset ha
  have hcontents : ((matchingObjects bucket keyPrefix).filter fun s3Object =>
      delimiter.getD [] = [] ∨
        ¬delimiter.getD [] <:+: s3Object.key.drop (keyPrefix.getD []).length) =
      (objectEntries bucket keyPrefix delimiter).filter fun s3Object =>
        (shownRollUp url keyPrefix delimiter s3Object).isNone := by
    have hplain : (objectEntries bucket keyPrefix delimiter).filter (fun s3Object =>
        (shownRollUp url keyPrefix delimiter s3Object).isNone) =
        (objectEntries bucket keyPrefix delimiter).filter fun s3Object =>
          (objectRollUp keyPrefix delimiter s3Object).isNone := by
      refine filter_congr fun a ha => ?_
      rw [Bool.eq_iff_iff, isNone_iff_eq_none, isNone_iff_eq_none,
        shownRollUp_eq_none_iff bucket url keyPrefix delimiter hkeep a (hsub a ha)]
    rw [hplain, objectEntries, filter_heads]
    refine filter_congr fun a _ => ?_
    rw [Bool.eq_iff_iff, decide_eq_true_iff, isNone_iff_eq_none, objectRollUp, rollUp_eq_none_iff]
  have hnodup : ((objectEntries bucket keyPrefix delimiter).filterMap
      (shownRollUp url keyPrefix delimiter)).Nodup := by
    rw [← entriesFrom_none bucket url keyPrefix delimiter hkeep]
    exact nodup_labels_heads _ _
  have hprefixes : ∀ r, r ∈ (objectEntries bucket keyPrefix delimiter).filterMap
      (shownRollUp url keyPrefix delimiter) ↔ ∃ s3Object ∈ matchingObjects bucket keyPrefix, ∃ r₀,
        objectRollUp keyPrefix delimiter s3Object = some r₀ ∧ shown (encoding url) r₀ = r := by
    intro r
    rw [← entriesFrom_none bucket url keyPrefix delimiter hkeep, entriesFrom, mem_labels_heads,
      objectsFrom_none, mem_filterMap, and_iff_right not_mem_nil]
    refine exists_congr fun a => and_congr_right fun ha => ?_
    have ha' : shownRollUp url keyPrefix delimiter a = _ := hkeep a ha
    rw [ha', map_eq_some_iff]
  constructor
  · intro h
    refine ⟨h.bounded, h.contents.trans (by rw [hcontents]), ?_⟩
    exact (perm_ext_iff_of_nodup h.nodup hnodup).mpr fun r =>
      (h.commonPrefixes r).trans (hprefixes r).symm
  · rintro ⟨hbounded, hkeys, hperm⟩
    exact ⟨hbounded, hkeys.trans (by rw [hcontents]), hperm.nodup_iff.mpr hnodup,
      fun r => hperm.mem_iff.trans (hprefixes r)⟩

omit hkeep in
theorem entry_key_ne_nil (n : Nat) (hn : 0 < n) (t : ListedObject)
    (ht : (objectEntries bucket keyPrefix delimiter)[n]? = some t) : t.key ≠ [] := by
  intro hnil
  have hsorted := (matching_pairwise bucket keyPrefix hfiled).sublist
    (heads_sublist (objectRollUp keyPrefix delimiter) [] _)
  obtain ⟨hlt, heq⟩ := List.getElem?_eq_some_iff.mp ht
  have hfirst := pairwise_iff_getElem.mp hsorted 0 n (lt_of_le_of_lt (Nat.zero_le n) hlt) hlt hn
  change _ < (objectEntries bucket keyPrefix delimiter)[n].key at hfirst
  rw [heq, hnil] at hfirst
  exact not_lt_nil _ hfirst

theorem objects_page_at (n : Nat)
    (hn : n = 0 ∨ n < (objectEntries bucket keyPrefix delimiter).length)
    (hgood : 0 < n → ∀ t, (objectEntries bucket keyPrefix delimiter)[n]? = some t →
      StartsPage bucket url keyPrefix delimiter t) :
    ∃ start : Option Text, start ≠ some [] ∧
      start.map encodeContinuationToken = (if n = 0 then none else
        (objectEntries bucket keyPrefix delimiter)[n]?.map fun t =>
          encodeContinuationToken t.key) ∧
      (∀ key, start = some key → key.isAscii = true) ∧
      entriesFrom bucket url keyPrefix delimiter start =
        (objectEntries bucket keyPrefix delimiter).drop n := by
  by_cases hzero : n = 0
  · refine ⟨none, by simp, by simp [hzero], by simp, ?_⟩
    rw [entriesFrom_none _ _ _ _ hkeep, hzero, drop_zero]
  · have hlt : n < (objectEntries bucket keyPrefix delimiter).length := by omega
    have ht := getElem?_eq_getElem hlt
    have hstart := hgood (by omega) _ ht
    have hkey := entry_key_ne_nil _ _ _ hfiled n (by omega) _ ht
    refine ⟨some (objectEntries bucket keyPrefix delimiter)[n].key, ?_, ?_, ?_, ?_⟩
    · exact fun h => hkey (some.inj h)
    · rw [if_neg hzero, ht]
      rfl
    · intro key h
      rw [← some.inj h]
      exact hstart.1
    · exact entriesFrom_some _ _ _ _ hkeep hfiled n _ ht hstart

theorem showObjects_iff (hm : 0 < m) :
    (∃ pages, ObjectsWalk bucket url fetchOwner keyPrefix delimiter m none pages ∧
        ShowObjects url keyPrefix delimiter m pages
          (objectEntries bucket keyPrefix delimiter)) ↔
      ∀ j, 1 ≤ j → ∀ t, (objectEntries bucket keyPrefix delimiter)[j * m]? = some t →
        StartsPage bucket url keyPrefix delimiter t := by
  have hiff := exists_complete_iff (objectsCall bucket url fetchOwner keyPrefix delimiter m)
    objectsNext (showObjects_count url keyPrefix delimiter m)
    (objectEntries bucket keyPrefix delimiter) m hm
    (fun n => if n = 0 then none else
      (objectEntries bucket keyPrefix delimiter)[n]?.map fun t => encodeContinuationToken t.key)
    (fun n => n = 0 ∨ n < (objectEntries bucket keyPrefix delimiter).length)
    (fun n => 0 < n → ∀ t, (objectEntries bucket keyPrefix delimiter)[n]? = some t →
      StartsPage bucket url keyPrefix delimiter t)
    (fun n => n + m < (objectEntries bucket keyPrefix delimiter).length) (by omega) ?_ ?_ 0
    (.inl rfl)
  · simp only [if_true, drop_zero, Nat.zero_add] at hiff
    refine hiff.trans ⟨fun h j hj t ht => ?_, fun h j _ hpos t ht => ?_⟩
    · have hlt := (List.getElem?_eq_some_iff.mp ht).1
      refine h j (fun i hi => ?_) (Nat.mul_pos hj hm) t ht
      have hle := Nat.mul_le_mul_right m (Nat.succ_le_of_lt hi)
      rw [Nat.succ_mul] at hle
      omega
    · exact h j (Nat.pos_of_mul_pos_right hpos) t ht
  · -- A page that starts in the right place.
    intro n hn hgood
    obtain ⟨start, hne, htoken, hascii, hentries⟩ := objects_page_at _ _ _ _ hfiled hkeep n hn hgood
    obtain ⟨page, hcall, hshows, hnext⟩ := objectsCall_start _ _ _ _ _ m hm _ hne hascii
    rw [hentries] at hshows hnext
    rw [getElem?_drop] at hnext
    refine ⟨page, htoken ▸ hcall, hshows, ?_⟩
    unfold objectsNext
    rw [hnext]
    by_cases hmore : n + m < (objectEntries bucket keyPrefix delimiter).length
    · have ht := getElem?_eq_getElem hmore
      have hkey := entry_key_ne_nil _ _ _ hfiled _ (by omega) _ ht
      have hne : encodeContinuationToken
          (objectEntries bucket keyPrefix delimiter)[n + m].key ≠ [] :=
        fun h => hkey ((encodeContinuationToken_eq_nil_iff _).mp h)
      refine .inl ⟨?_, hmore, .inr hmore⟩
      rw [if_neg (by omega), ht]
      simp [nonEmpty, hne]
    · refine .inr ⟨?_, hmore, by omega⟩
      rw [getElem?_eq_none (by omega)]
      rfl
  · -- A page that does not.
    intro n hn hbad pages hwalk
    obtain ⟨hpos, hbad⟩ := Classical.not_imp.mp hbad
    obtain ⟨t, hbad⟩ := not_forall.mp hbad
    obtain ⟨ht, hbad⟩ := Classical.not_imp.mp hbad
    have hkey := entry_key_ne_nil _ _ _ hfiled n hpos t ht
    simp only [if_neg (Nat.pos_iff_ne_zero.mp hpos), ht, map_some] at hwalk
    exact not_complete_of_not_starts _ _ _ _ _ m hfiled hkeep hm n t ht hkey hbad _ hwalk

end Wrong

end Client

theorem keepsRollUp_of_listsObjects (bucket : ListedBucket) (url fetchOwner : Bool)
    (keyPrefix delimiter : Option Text) (m : Nat) (hm : 0 < m) (pages : List ListObjectsV2Output)
    (hwalk : ObjectsWalk bucket url fetchOwner keyPrefix delimiter m none pages)
    (hlists : ListsObjects bucket url keyPrefix delimiter m pages) (s3Object : ListedObject)
    (hmem : s3Object ∈ matchingObjects bucket keyPrefix) :
    KeepsRollUp url keyPrefix delimiter s3Object := by
  have hlisted := walk_lists _ _ _ _ _ m hm none (by simp) _ hwalk
  unfold KeepsRollUp
  rcases hr : objectRollUp keyPrefix delimiter s3Object with _ | r
  · -- A key without a roll-up is listed, so the loop sees none either.
    have hkey : shown (encoding url) s3Object.key ∈
        pages.flatMap fun page => page.contents.map ObjectEntry.key := by
      rw [hlists.contents]
      refine mem_map.mpr ⟨s3Object, mem_filter.mpr ⟨hmem, ?_⟩, rfl⟩
      rw [decide_eq_true_iff, ← rollUp_eq_none_iff]
      exact hr
    obtain ⟨page, hpage, hkey⟩ := mem_flatMap.mp hkey
    obtain ⟨b, _, hb⟩ := hlisted _
      (mem_flatMap.mpr ⟨page, hpage, mem_append_left _ (mem_map_of_mem hkey)⟩)
    rw [entryOf_eq_inl] at hb
    have hnone := hb.1
    rw [shownRollUp, hb.2] at hnone
    exact hnone
  · -- A roll-up that is listed is that of every key that starts with it.
    have hstarts := (hlists.commonPrefixes _).mpr ⟨s3Object, hmem, r, hr, rfl⟩
    obtain ⟨page, hpage, hstarts⟩ := mem_flatMap.mp hstarts
    obtain ⟨b, _, hb⟩ := hlisted _
      (mem_flatMap.mpr ⟨page, hpage, mem_append_right _ (mem_map_of_mem hstarts)⟩)
    rw [entryOf_eq_inr] at hb
    have hstart := rollUp_isPrefix _ _ _ r (matching_isPrefix _ _ _ hmem) hr
    exact rollUp_of_isPrefix _ _ _ _ _ hb ((shown_isPrefix_iff _ _ _).mpr hstart)

/-- A client that lists the objects of a bucket page by page gets all of them,
    and all roll-ups, once each, if and only if quoting moves the delimiter of no
    key, and the key at which each page but the first one has to start is ASCII
    and on the same side of the keys of the other entries in both forms. -/
theorem list_objects_complete_iff (bucket : ListedBucket) (hfiled : bucket.objects.Filed)
    (url fetchOwner : Bool) (keyPrefix delimiter : Option Text) (m : Nat) (hm : 1 ≤ m) :
    (∃ pages, ObjectsWalk bucket url fetchOwner keyPrefix delimiter m none pages ∧
        ListsObjects bucket url keyPrefix delimiter m pages) ↔
      (∀ s3Object ∈ matchingObjects bucket keyPrefix,
          KeepsRollUp url keyPrefix delimiter s3Object) ∧
        ∀ j, 1 ≤ j → ∀ t, (objectEntries bucket keyPrefix delimiter)[j * m]? = some t →
          StartsPage bucket url keyPrefix delimiter t := by
  constructor
  · rintro ⟨pages, hwalk, hlists⟩
    have hkeep := keepsRollUp_of_listsObjects _ _ _ _ _ m hm _ hwalk hlists
    refine ⟨hkeep, (showObjects_iff _ _ _ _ _ m hfiled hkeep hm).mp ⟨pages, hwalk, ?_⟩⟩
    exact (listsObjects_iff _ _ _ _ m hkeep _).mp hlists
  · rintro ⟨hkeep, hstarts⟩
    obtain ⟨pages, hwalk, hshow⟩ := (showObjects_iff _ _ _ _ _ m hfiled hkeep hm).mpr hstarts
    exact ⟨pages, hwalk, (listsObjects_iff _ _ _ _ m hkeep _).mpr hshow⟩

/-- Four keys, two of which have a common roll-up. -/
def fourKeys : ListedBucket where
  name := "bucket"
  owner := "owner"
  bucketRegion := "us-east-1"
  objects := .unversioned (Dict.ofEntries
    [(['a', ' '], { key := ['a', ' '], lastModified := 0 }),
      (['b', '/', 'x'], { key := ['b', '/', 'x'], lastModified := 0 }),
      (['b', '/', 'y'], { key := ['b', '/', 'y'], lastModified := 0 }),
      (['c'], { key := ['c'], lastModified := 0 })])

theorem list_objects_complete_of_fourKeys :
    ∃ pages, ObjectsWalk fourKeys true false none (some ['/']) 1 none pages ∧
      ListsObjects fourKeys true none (some ['/']) 1 pages := by
  refine (list_objects_complete_iff _ ?_ _ _ _ _ 1 le_rfl).mpr ⟨?_, ?_⟩
  · change ∀ e ∈ Dict.entries _, ListedObject.key e.2 = e.1 ∧ ListedObject.versionId e.2 = none
    decide
  · unfold KeepsRollUp
    decide
  · intro j _ t ht
    have hall : ∀ t ∈ objectEntries fourKeys none (some ['/']),
        StartsPage fourKeys true none (some ['/']) t := by
      unfold StartsPage
      decide
    exact hall t (mem_of_getElem? ht)

/-- A key that is not ASCII. -/
def accentedKey : ListedBucket where
  name := "bucket"
  owner := "owner"
  bucketRegion := "us-east-1"
  objects := .unversioned (Dict.ofEntries
    [(['a'], { key := ['a'], lastModified := 0 }), (['é'], { key := ['é'], lastModified := 0 })])

/-- The token of the first page can not be decoded, so the listing never ends. -/
theorem list_objects_undecodable_token :
    ¬∃ pages, ObjectsWalk accentedKey false false none none 1 none pages ∧
      ListsObjects accentedKey false none none 1 pages := by
  rintro ⟨pages, hwalk, _⟩
  have hfirst : ((objectsCall accentedKey false false none none 1 none).map
      ListObjectsV2Output.nextContinuationToken) = .ok (some ['w', '6', 'k', '=']) := by decide
  have hsecond : objectsCall accentedKey false false none none 1 (some ['w', '6', 'k', '=']) =
      .error (.unicodeDecodeError 0xc3 0) := by decide
  cases hwalk with
  | last hcall hnext =>
    rw [hcall] at hfirst
    rw [objectsNext, Except.ok.inj hfirst] at hnext
    cases hnext
  | more hcall hnext hwalk =>
    rw [hcall] at hfirst
    rw [objectsNext, Except.ok.inj hfirst] at hnext
    obtain rfl := some.inj hnext
    cases hwalk with
    | last hcall' => exact absurd (hsecond.symm.trans hcall') (by simp)
    | more hcall' => exact absurd (hsecond.symm.trans hcall') (by simp)

end LocalEmu.S3
