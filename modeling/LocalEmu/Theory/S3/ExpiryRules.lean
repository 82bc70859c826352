import LocalEmu.Theory.S3.LifecycleExpiry

/-!
# The Rules That Expire An Object

An object should go if some rule matches it and is past its deadline. The scan asks the first
rule that matches an object without tags, and it ends at a date that is out of range. So
every order of the rules expires the right objects if and only if, for each of these, the
rules that match without tags are there and all past their deadlines, and no earlier object
has one with a date that is out of range.
-/

namespace LocalEmu.S3

open List

variable (fromIsoFormat : String → Option Int) (now : Int)

/-! ### What the rules say -/

/-- No filter, or all conditions of a conjunction, or a condition. -/
def FilterMatches (filter : Option LifecycleFilter) (key : String) (size : Nat)
    (tags : Dict String String) : Prop :=
  ∀ f ∈ filter, f.isEmpty ∨
    (∃ entries ∈ f.conjunction, entries ≠ [] ∧
      ∀ entry ∈ entries, matchLifecycleFilter entry key size tags) ∨
    ∃ entry ∈ f.entries, matchLifecycleFilter entry key size tags

/-- Midnight after so many days. -/
def daysDeadline (lastModified days : Int) : Int :=
  midnight (lastModified + days * dayLength) + dayLength

/-- The number of days, if it is not zero. -/
def daysOf (expiration : LifecycleExpiration) : Option Int :=
  expiration.days.filter fun days => days ≠ 0

/-- The deadline has passed. -/
def Passed (s3Object : LockedObject) (expiration : LifecycleExpiration) : Prop :=
  match daysOf expiration with
  | some days => daysDeadline s3Object.lastModified days ≤ now
  | none =>
    match expiration.date with
    | none => False
    | some (.text text) =>
      ∃ time, fromIsoFormat (text.replace "Z" "+00:00") = some time ∧ time ≤ now
    | some (.datetime time) => time ≤ now

/-- The deadline is a date. -/
def InRange (s3Object : LockedObject) (expiration : LifecycleExpiration) : Prop :=
  ∀ days ∈ daysOf expiration, -999999999 ≤ days ∧ days ≤ 999999999 ∧
    datetimeMin ≤ s3Object.lastModified + days * dayLength ∧
    s3Object.lastModified + days * dayLength ≤ datetimeMax ∧
    daysDeadline s3Object.lastModified days ≤ datetimeMax

variable (bucket : String) (tags : Dict String (Dict String String))

/-- A rule matches the object and is past its deadline. -/
def Expires (rules : List LifecycleRule) (version : S3Version LockedObject) : Prop :=
  ∃ s3Object ∈ version.object, ∃ rule ∈ rules, ∃ expiration ∈ rule.expiration,
    FilterMatches rule.filter version.key (s3Object.size.getD 0)
      ((tags.get? (tagsOf bucket version)).getD Dict.empty) ∧
    Passed fromIsoFormat now s3Object expiration

def Asked (rule : LifecycleRule) (key : String) (s3Object : LockedObject) : Prop :=
  ruleApplies rule key (s3Object.size.getD 0) Dict.empty = true

/-- Of an object that should go, there is a rule to ask, each is past its deadline, and those of
    this object and of the ones before it have deadlines that are dates. -/
def Settled (rules : List LifecycleRule) (versions : List (S3Version LockedObject)) : Prop :=
  ∀ pre version post, versions = pre ++ version :: post →
    Expires fromIsoFormat now bucket tags rules version →
    (∀ s3Object ∈ version.object, (∃ rule ∈ rules, Asked rule version.key s3Object) ∧
      ∀ rule ∈ rules, Asked rule version.key s3Object → ∀ expiration ∈ rule.expiration,
        Passed fromIsoFormat now s3Object expiration) ∧
    ∀ other ∈ pre ++ [version], ∀ s3Object ∈ other.object, ∀ rule ∈ rules,
      Asked rule other.key s3Object → ∀ expiration ∈ rule.expiration, InRange s3Object expiration

variable {fromIsoFormat now bucket tags}

/-! ### A rule -/

theorem lt_midnight_add (time : Int) : time < midnight time + dayLength := by
  have := Int.emod_lt_of_pos time (show 0 < dayLength by decide)
  rw [midnight]
  omega

theorem midnight_add_days (time days : Int) :
    midnight (time + days * dayLength) = midnight time + days * dayLength := by
  rw [midnight, midnight, Int.add_mul_emod_self_right]
  omega

variable (fromIsoFormat now) in
/-- What a rule that is asked answers. -/
theorem isExpired_eq (s3Object : LockedObject) (expiration : LifecycleExpiration) :
    (InRange s3Object expiration ∧ ∃ b, isExpired fromIsoFormat s3Object expiration now = .ok b ∧
      (b = true ↔ Passed fromIsoFormat now s3Object expiration)) ∨
    (¬InRange s3Object expiration ∧ ∃ e, isExpired fromIsoFormat s3Object expiration now =
      .error e) := by
  rw [isExpired, Passed, InRange, daysOf]
  cases expiration.days.filter fun days => days ≠ 0 with
  | none =>
    refine .inl ⟨by simp, ?_⟩
    cases expiration.date with
    | none => exact ⟨false, rfl, by simp⟩
    | some date =>
      cases date with
      | datetime => exact ⟨_, rfl, decide_eq_true_iff⟩
      | text text =>
        cases hiso : fromIsoFormat (text.replace "Z" "+00:00") with
        | none => exact ⟨false, by simp [hiso], by simp [hiso]⟩
        | some time => exact ⟨decide (time ≤ now), by simp [hiso], by simp [hiso]⟩
  | some days =>
    -- The days are out of range, or the date is, or the midnight after it.
    have hmidnight := lt_midnight_add (s3Object.lastModified + days * dayLength)
    simp only [Option.mem_some_iff, forall_eq', daysDeadline]
    by_cases hdays : days < -999999999 ∨ 999999999 < days
    · refine .inr ⟨by omega, ?_⟩
      rw [addDays, if_pos hdays]
      exact ⟨_, rfl⟩
    · by_cases hrange : s3Object.lastModified + days * dayLength < datetimeMin ∨
          datetimeMax < s3Object.lastModified + days * dayLength
      · refine .inr ⟨by omega, ?_⟩
        rw [addDays, if_neg hdays, if_pos hrange]
        exact ⟨_, rfl⟩
      · have hfirst : addDays s3Object.lastModified days =
            .ok (s3Object.lastModified + days * dayLength) := by
          rw [addDays, if_neg hdays, if_neg hrange]
        rw [hfirst]
        by_cases hlast : datetimeMax <
            midnight (s3Object.lastModified + days * dayLength) + dayLength
        · refine .inr ⟨by omega, ?_⟩
          simp only [bind, Except.bind]
          rw [addDays, if_neg (by omega), if_pos (by omega)]
          exact ⟨_, rfl⟩
        · refine .inl ⟨by omega, _, ?_, decide_eq_true_iff⟩
          simp only [bind, Except.bind]
          rw [addDays, if_neg (by omega), if_neg (by omega), one_mul]
          rfl

theorem filterMatches_of_empty {filter : Option LifecycleFilter} {key : String} {size : Nat}
    (h : FilterMatches filter key size Dict.empty) (objectTags : Dict String String) :
    FilterMatches filter key size objectTags := by
  have hentry : ∀ entry, matchLifecycleFilter entry key size Dict.empty = true →
      matchLifecycleFilter entry key size objectTags = true := by
    intro entry hentry
    cases entry with
    | tag | tags => simp [matchLifecycleFilter, Dict.empty] at hentry
    | keyPrefix | objectSizeGreaterThan | objectSizeLessThan => exact hentry
  intro f hf
  rcases h f hf with hempty | ⟨entries, hentries, hne, hall⟩ | ⟨entry, hmem, hmatch⟩
  · exact .inl hempty
  · exact .inr (.inl ⟨entries, hentries, hne, fun entry h => hentry _ (hall _ h)⟩)
  · exact .inr (.inr ⟨entry, hmem, hentry _ hmatch⟩)

theorem Asked.cases {rule : LifecycleRule} {key : String} {s3Object : LockedObject}
    (h : Asked rule key s3Object) : ∃ expiration, rule.expiration = some expiration ∧
      FilterMatches rule.filter key (s3Object.size.getD 0) Dict.empty := by
  rw [Asked, ruleApplies] at h
  cases hexp : rule.expiration with
  | none => simp [hexp] at h
  | some expiration =>
    refine ⟨expiration, rfl, fun f hf => ?_⟩
    simp only [hexp, Option.mem_def.mp hf] at h
    split at h
    · cases h
    · cases hconj : f.conjunction with
      | none => simpa [hconj] using h
      | some => simpa [hconj, or_assoc] using h

/-! ### The scan -/

variable (fromIsoFormat now) in
theorem isDue_of_mem (rules : List LifecycleRule) (versions : List (S3Version LockedObject))
    (version : S3Version LockedObject)
    (h : version ∈ dueVersions fromIsoFormat rules now versions) :
    isDue fromIsoFormat rules now version = .ok true := by
  induction versions with
  | nil => simp [dueVersions] at h
  | cons other versions ih =>
    rw [dueVersions] at h
    cases hdue : isDue fromIsoFormat rules now other with
    | error => simp [hdue] at h
    | ok due =>
      rw [hdue] at h
      cases due with
      | false => exact ih h
      | true =>
        rcases mem_cons.mp h with rfl | h
        · exact hdue
        · exact ih h

/-- An object goes if a rule has expired it and the scan comes to it. -/
theorem mem_due_iff (rules : List LifecycleRule) (pre post : List (S3Version LockedObject))
    (version : S3Version LockedObject) (hpre : version ∉ pre) :
    version ∈ dueVersions fromIsoFormat rules now (pre ++ version :: post) ↔
      (∀ other ∈ pre, ∃ b, isDue fromIsoFormat rules now other = .ok b) ∧
        isDue fromIsoFormat rules now version = .ok true := by
  induction pre with
  | nil =>
    rw [nil_append, dueVersions]
    cases hdue : isDue fromIsoFormat rules now version with
    | error => simp
    | ok due =>
      cases due with
      | true => simp
      | false =>
        have hpost := isDue_of_mem fromIsoFormat now rules post version
        simpa [hdue] using hpost
  | cons other pre ih =>
    have hne : version ≠ other := fun heq => hpre (heq ▸ mem_cons_self)
    have hrest := ih fun h => hpre (mem_cons_of_mem _ h)
    rw [cons_append, dueVersions]
    cases hdue : isDue fromIsoFormat rules now other with
    | error => simp [hdue]
    | ok due => cases due <;> simp [hdue, hne, hrest]

variable {rules : List LifecycleRule} {version : S3Version LockedObject} {s3Object : LockedObject}

variable (fromIsoFormat now rules) in
theorem isDue_cases (hobj : version.object = some s3Object) :
    (isDue fromIsoFormat rules now version = .ok false ∧
      ∀ rule ∈ rules, ¬Asked rule version.key s3Object) ∨
    ∃ rule ∈ rules, Asked rule version.key s3Object ∧ ∃ expiration,
      rule.expiration = some expiration ∧
      isDue fromIsoFormat rules now version = isExpired fromIsoFormat s3Object expiration now := by
  simp only [isDue, hobj, getLifecycleRuleFromObject]
  cases hfind : rules.find? fun rule => ruleApplies rule version.key (s3Object.size.getD 0)
      Dict.empty with
  | none =>
    refine .inl ⟨by simp, fun rule hrule hasked => ?_⟩
    exact find?_eq_none.mp hfind rule hrule hasked
  | some rule =>
    have happlies := find?_some hfind
    have hasked : Asked rule version.key s3Object := happlies
    obtain ⟨expiration, hexp, -⟩ := hasked.cases
    exact .inr ⟨rule, mem_of_find?_eq_some hfind, hasked, expiration, hexp,
      by simp [hexp]⟩

variable (fromIsoFormat now rules) in
theorem isDue_of_first {rule : LifecycleRule} (hobj : version.object = some s3Object)
    (hasked : Asked rule version.key s3Object) (expiration : LifecycleExpiration)
    (hexp : rule.expiration = some expiration) :
    isDue fromIsoFormat (rule :: rules) now version =
      isExpired fromIsoFormat s3Object expiration now := by
  have hfind : getLifecycleRuleFromObject (rule :: rules) version.key (s3Object.size.getD 0)
      Dict.empty = some rule := find?_cons_of_pos hasked
  simp [isDue, hobj, hfind, hexp]

theorem expires_of_isDue (h : isDue fromIsoFormat rules now version = .ok true) :
    Expires fromIsoFormat now bucket tags rules version := by
  cases hobj : version.object with
  | none => simp [isDue, hobj] at h
  | some s3Object =>
    rcases isDue_cases _ _ _ hobj with ⟨hfalse, -⟩ | ⟨rule, hrule, hasked, expiration, hexp, hdue⟩
    · rw [hfalse] at h
      cases h
    · obtain ⟨expiration', hexp', hmatches⟩ := hasked.cases
      cases hexp.symm.trans hexp'
      refine ⟨s3Object, hobj, rule, hrule, expiration, hexp, filterMatches_of_empty hmatches _, ?_⟩
      rcases isExpired_eq _ _ _ _ with ⟨-, b, hb, hpassed⟩ | ⟨-, e, he⟩
      · rw [hdue, hb] at h
        cases h
        exact hpassed.mp rfl
      · rw [hdue, he] at h
        cases h

theorem due_exact_iff (versions : List (S3Version LockedObject)) (hnodup : versions.Nodup) :
    (∀ rules', rules'.Perm rules → ∀ version ∈ versions,
      version ∈ dueVersions fromIsoFormat rules' now versions ↔
        Expires fromIsoFormat now bucket tags rules version) ↔
      Settled fromIsoFormat now bucket tags rules versions := by
  constructor
  · intro h pre version post heq hexpires
    have hpre : version ∉ pre := by
      rw [heq, nodup_middle, nodup_cons, mem_append, not_or] at hnodup
      exact hnodup.1.1
    have hmem : version ∈ versions := by simp [heq]
    have hscan (rules' : List LifecycleRule) (hperm : rules'.Perm rules) :=
      (mem_due_iff _ _ _ _ hpre).mp
        (heq ▸ (h _ hperm _ hmem).mpr hexpires)
    -- A rule that is asked about an object may come first, and then it decides.
    have hfirst : ∀ other ∈ pre ++ [version], ∀ s3Object, other.object = some s3Object →
        ∀ rule ∈ rules, Asked rule other.key s3Object → ∀ expiration ∈ rule.expiration,
          InRange s3Object expiration ∧
            (other = version → Passed fromIsoFormat now s3Object expiration) := by
      intro other hother s3Object hobj rule hrule hasked expiration hexp
      obtain ⟨before, after, hrules⟩ := append_of_mem hrule
      have hscan := hscan (rule :: (before ++ after)) (hrules ▸ perm_middle.symm)
      have hdue := isDue_of_first fromIsoFormat now (before ++ after) hobj hasked _ hexp
      rcases isExpired_eq _ _ _ _ with ⟨hrange, b, hb, hpassed⟩ | ⟨-, e, he⟩
      · refine ⟨hrange, ?_⟩
        rintro rfl
        rw [hscan.2, hb] at hdue
        cases hdue
        exact hpassed.mp rfl
      · rw [he] at hdue
        rcases mem_append.mp hother with hother | hother
        · obtain ⟨b, hb⟩ := hscan.1 _ hother
          rw [hb] at hdue
          cases hdue
        · rw [mem_singleton.mp hother, hscan.2] at hdue
          cases hdue
    refine ⟨fun s3Object hobj => ⟨?_, fun rule hrule hasked expiration hexp =>
        (hfirst _ (by simp) _ hobj _ hrule hasked _ hexp).2 rfl⟩,
      fun other hother s3Object hobj rule hrule hasked expiration hexp =>
        (hfirst _ hother _ hobj _ hrule hasked _ hexp).1⟩
    rcases isDue_cases _ _ _ hobj with ⟨hfalse, -⟩ | ⟨rule, hrule, hasked, -⟩
    · rw [(hscan _ (List.Perm.refl _)).2] at hfalse
      cases hfalse
    · exact ⟨rule, hrule, hasked⟩
  · intro hs rules' hperm version hmem
    constructor
    · intro hdue
      obtain ⟨s3Object, hobj, rule, hrule, hsays⟩ := expires_of_isDue (isDue_of_mem _ _ _ _ _ hdue)
      exact ⟨s3Object, hobj, rule, hperm.mem_iff.mp hrule, hsays⟩
    · intro hexpires
      obtain ⟨pre, post, heq⟩ := append_of_mem hmem
      have hpre : version ∉ pre := by
        rw [heq, nodup_middle, nodup_cons, mem_append, not_or] at hnodup
        exact hnodup.1.1
      obtain ⟨hversion, hrange⟩ := hs _ _ _ heq hexpires
      -- No object before this one ends the scan, and any rule that is asked expires it.
      rw [heq, mem_due_iff _ _ _ _ hpre]
      refine ⟨fun other hother => ?_, ?_⟩
      · cases hobj : other.object with
        | none => exact ⟨false, by simp [isDue, hobj]⟩
        | some =>
          rcases isDue_cases _ _ _ hobj with
            ⟨hfalse, -⟩ | ⟨rule, hrule, hasked, expiration, hexp, hdue⟩
          · exact ⟨false, hfalse⟩
          · rcases isExpired_eq _ _ _ _ with
              ⟨-, b, hb, -⟩ | ⟨hnot, -⟩
            · exact ⟨b, hdue.trans hb⟩
            · exact absurd (hrange _ (mem_append_left _ hother) _ hobj _
                (hperm.mem_iff.mp hrule) hasked _ hexp) hnot
      · obtain ⟨s3Object, hobj, -⟩ := hexpires
        obtain ⟨⟨rule, hrule, hasked⟩, hpassed⟩ := hversion _ hobj
        rcases isDue_cases _ _ _ hobj with
          ⟨-, hnone⟩ | ⟨rule, hrule, hasked, expiration, hexp, hdue⟩
        · exact absurd hasked (hnone _ (hperm.mem_iff.mpr hrule))
        · have hrule := hperm.mem_iff.mp hrule
          rcases isExpired_eq _ _ _ _ with ⟨-, b, hb, hiff⟩ | ⟨hnot, -⟩
          · rw [hdue, hb, hiff.mpr (hpassed _ hrule hasked _ hexp)]
          · exact absurd (hrange _ (by simp) _ hobj _ hrule hasked _ hexp)
              hnot

theorem advertised_deadline (s3Object : LockedObject) (expiration : LifecycleExpiration)
    (days : Int) (hdays : days ∈ daysOf expiration) (hrange : InRange s3Object expiration)
    (hmodified : datetimeMin ≤ s3Object.lastModified) :
    ∃ deadline, addExpirationDaysToDatetime s3Object.lastModified days = .ok deadline ∧
      ∀ now, isExpired fromIsoFormat s3Object expiration now =
        .ok (decide (deadline ≤ now)) := by
  refine ⟨daysDeadline s3Object.lastModified days, ?_, fun now => ?_⟩
  · obtain ⟨hlow, hhigh, hmin, hmax, hlast⟩ := hrange _ hdays
    have hmidnight := lt_midnight_add s3Object.lastModified
    rw [daysDeadline, midnight_add_days] at hlast ⊢
    have hdeadline : midnight s3Object.lastModified + (days + 1) * dayLength =
        midnight s3Object.lastModified + days * dayLength + dayLength := by
      rw [Int.add_mul, Int.one_mul, Int.add_assoc]
    have hdays : ¬(days + 1 < -999999999 ∨ 999999999 < days + 1) := by
      simp only [dayLength, datetimeMin, datetimeMax] at hmidnight hmodified hlast
      omega
    rw [addExpirationDaysToDatetime, addDays, if_neg hdays, hdeadline, if_neg]
    omega
  · rcases isExpired_eq _ _ _ _ with
      ⟨-, b, hb, hpassed⟩ | ⟨hnot, -⟩
    · rw [Passed, Option.mem_def.mp hdays] at hpassed
      rw [hb, Bool.eq_iff_iff.mpr (hpassed.trans decide_eq_true_iff.symm)]
    · exact absurd hrange hnot

/-- Every order of the rules removes exactly the objects that some rule has expired, if and only
    if the rules are settled, and the deadline for days is the one that is advertised. -/
theorem expiry_exact_iff (fromIsoFormat : String → Option Int) (bucket : String)
    (rules : List LifecycleRule) (now : Int) (st : LifecycleState)
    (objects : KeyStore LockedObject) (hst : st.objects = .unversioned objects)
    (hkeyed : WellKeyed st.objects) :
    ((∀ rules', rules'.Perm rules → ∀ key version, objects.get? key = some version →
      ((Action.exec (expireBucketObjects fromIsoFormat bucket rules' now) st).2.objects.lookup key
        none = none ↔ Expires fromIsoFormat now bucket st.tags rules version)) ↔
      Settled fromIsoFormat now bucket st.tags rules (Dict.values objects)) ∧
    ∀ s3Object expiration days, days ∈ daysOf expiration → InRange s3Object expiration →
      datetimeMin ≤ s3Object.lastModified →
      ∃ deadline, addExpirationDaysToDatetime s3Object.lastModified days = .ok deadline ∧
        ∀ now, isExpired fromIsoFormat s3Object expiration now =
          .ok (decide (deadline ≤ now)) := by
  refine ⟨?_, advertised_deadline⟩
  have hkeys : ∀ version ∈ Dict.values objects, objects.get? version.key = some version := by
    intro version hversion
    obtain ⟨entry, hentry, rfl⟩ := mem_map.mp hversion
    have hget := (Dict.get?_eq_some_iff _ _ _).mpr hentry
    rw [hst] at hkeyed
    rw [(hkeyed _ _ hget).1, hget]
  -- The records have their keys, which are different.
  have hnodup : (Dict.values objects).Nodup := by
    refine List.Nodup.of_map S3Version.key ?_
    have heq : (Dict.values objects).map S3Version.key = Dict.keys objects := by
      rw [Dict.values, map_map]
      refine map_congr_left fun entry hentry => ?_
      rw [hst] at hkeyed
      exact (hkeyed _ _ ((Dict.get?_eq_some_iff _ _ _).mpr hentry)).1
    rw [heq]
    exact objects.nodup
  rw [← due_exact_iff _ hnodup]
  refine forall₂_congr fun rules' _ => ?_
  obtain ⟨objects', hobjects, hget⟩ := unversioned_foldl _ _ st _ hst
  have hdue := fun version => mem_dueVersions fromIsoFormat rules' now (Dict.values objects) version
  have hlookup : ∀ key version, objects.get? key = some version →
      ((Action.exec (expireBucketObjects fromIsoFormat bucket rules' now) st).2.objects.lookup key
        none = none ↔ version ∈ dueVersions fromIsoFormat rules' now (Dict.values objects)) := by
    intro key version hversion
    have hvalues : st.objects.values = Dict.values objects := by
      rw [hst]
      rfl
    rw [expire_eq_foldl, hvalues, hobjects, ObjectStore.lookup, hget]
    rw [hst] at hkeyed
    have hkey := (hkeyed _ _ hversion).1
    split
    · next hmem =>
        obtain ⟨other, hother, rfl⟩ := mem_map.mp hmem
        have hsame := (hkeys _ (hdue _ hother).1).symm.trans hversion
        cases hsame
        simp [hother]
    · next hmem =>
        rw [hversion]
        simp
        exact fun h => hmem (mem_map.mpr ⟨version, h, hkey⟩)
  constructor
  · intro h version hversion
    rw [← hlookup _ _ (hkeys _ hversion)]
    exact h _ _ (hkeys _ hversion)
  · intro h key version hversion
    rw [hlookup _ _ hversion]
    refine h _ (mem_map.mpr ⟨(key, version), ?_, rfl⟩)
    exact (Dict.get?_eq_some_iff _ _ _).mp hversion

theorem expiry_exact_of_oldObject :
    (Action.exec (expireBucketObjects (fun _ => none) "bucket" [afterOneDay] (10 * dayLength))
      oldObject).2.objects.lookup "log" none = none ↔
    Expires (fun _ => none) (10 * dayLength) "bucket" oldObject.tags [afterOneDay]
      ⟨"log", none, true, some { lastModified := 0 }⟩ := by
  have hkeyed : WellKeyed oldObject.objects := by
    intro key version hversion
    rcases Dict.get?_set_eq_some _ _ _ hversion with ⟨rfl, hversion⟩ | ⟨-, hversion⟩
    · cases hversion
      exact ⟨rfl, rfl⟩
    · cases hversion
  refine (expiry_exact_iff (fun _ => none) "bucket" [afterOneDay] _ _ _ rfl hkeyed).1.mpr
    (fun pre version post heq _ => ?_) [afterOneDay] (List.Perm.refl _) "log" _ rfl
  change [⟨"log", none, true, some { lastModified := 0 }⟩] = pre ++ version :: post at heq
  obtain ⟨rfl, hrest⟩ : pre = [] ∧ [⟨"log", none, true, some { lastModified := 0 }⟩] =
      version :: post := by
    cases pre with
    | nil => exact ⟨rfl, heq⟩
    | cons => simp at heq
  cases hrest
  refine ⟨fun s3Object hobj => ⟨⟨afterOneDay, by simp, ?_⟩, fun rule hrule _ expiration hexp => ?_⟩,
    fun other hother s3Object hobj rule hrule _ expiration hexp => ?_⟩
  · cases hobj
    show ruleApplies afterOneDay "log" 0 Dict.empty = true
    decide
  · cases mem_singleton.mp hrule
    cases hobj
    cases hexp
    show daysDeadline 0 1 ≤ 10 * dayLength
    decide
  · cases mem_singleton.mp hrule
    cases mem_singleton.mp hother
    cases hobj
    cases hexp
    intro days hdays
    cases hdays
    decide

end LocalEmu.S3
