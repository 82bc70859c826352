import LocalEmu.Core.Sqs.Message

/-!
# Requested Message Attributes

The loop over the prefixes ends after the first one, so that only the first filter of a
request is ever looked at.
-/

namespace LocalEmu.Sqs

open List

variable {ν : Type} (names : List Text)

/-- A name that is requested as it is, or with the start of a filter. -/
def Selected (k : Text) : Prop :=
  (k ∈ names ∧ filterPrefix? k = none) ∨ ∃ p : Text, p ++ ['.', '*'] ∈ names ∧ p <+: k

/-- The attributes that are requested stay, and nothing stays if there are none. -/
def SelectsExactly (attributes : Dict Text ν) (result : Option (Dict Text ν)) : Prop :=
  (∀ e, (∃ d, result = some d ∧ e ∈ d.entries) ↔ e ∈ attributes.entries ∧ Selected names e.1) ∧
    (result = none ↔ ∀ k ∈ attributes.keys, ¬Selected names k)

/-- An attribute that is not listed has the start of a filter if and only if it has what the
    first filter has before `.*`. -/
def FirstDecides (attributes : Dict Text ν) : Prop :=
  ∀ k ∈ attributes.keys, ¬(k ∈ names ∧ filterPrefix? k = none) →
    ((∃ p : Text, p ++ ['.', '*'] ∈ names ∧ p <+: k) ↔
      ∃ p ∈ (names.filterMap filterPrefix?).head?, p <+: k)

def Taken (k : Text) : Prop :=
  (k ∈ names ∧ filterPrefix? k = none) ∨ ∃ p ∈ (names.filterMap filterPrefix?).head?, p <+: k

theorem matchAttribute_eq (matched : List Text) (k : Text) [Decidable (Taken names k)] :
    matchAttribute (names.filter fun name => (filterPrefix? name).isNone)
        (names.filterMap filterPrefix?) matched k =
      if Taken names k then matched ++ [k] else matched := by
  have hkeys : k ∈ (names.filter fun name => (filterPrefix? name).isNone) ↔
      k ∈ names ∧ filterPrefix? k = none := by
    rw [mem_filter, Option.isNone_iff_eq_none]
  unfold matchAttribute
  by_cases hlisted : k ∈ names ∧ filterPrefix? k = none
  · rw [if_pos (hkeys.mpr hlisted), if_pos (.inl hlisted)]
  · rw [if_neg (mt hkeys.mp hlisted)]
    cases hprefixes : names.filterMap filterPrefix? with
    | nil =>
      rw [matchPrefixes, if_neg]
      rintro (h | ⟨p, hp, -⟩)
      · exact hlisted h
      · rw [hprefixes] at hp
        cases hp
    | cons first rest =>
      refine if_congr ⟨fun h => .inr ⟨first, by rw [hprefixes]; rfl, h⟩, ?_⟩ rfl rfl
      rintro (h | ⟨p, hp, hk⟩)
      · exact absurd h hlisted
      · rw [hprefixes] at hp
        cases hp
        exact hk

open Classical in
/-- The attributes that the loop finds. -/
theorem foldl_matchAttribute (ks matched : List Text) :
    ks.foldl (matchAttribute (names.filter fun name => (filterPrefix? name).isNone)
        (names.filterMap filterPrefix?)) matched =
      matched ++ ks.filter fun k => decide (Taken names k) := by
  induction ks generalizing matched with
  | nil => exact (append_nil _).symm
  | cons k ks ih =>
    rw [foldl_cons, ih, matchAttribute_eq]
    by_cases hk : Taken names k
    · rw [if_pos hk, filter_cons_of_pos (by simp [hk]), append_assoc]
      rfl
    · rw [if_neg hk, filter_cons_of_neg (by simp [hk])]

theorem mem_entriesOf (attributes : Dict Text ν) (ks : List Text) (hks : ks.Sublist attributes.keys)
    (e : Text × ν) : e ∈ (Dict.ofEntries
        (ks.filterMap fun k => (attributes.get? k).map fun value => (k, value))).entries ↔
      e ∈ attributes.entries ∧ e.1 ∈ ks := by
  have hfst : ∀ l : List Text,
      ((l.filterMap fun k => (attributes.get? k).map fun value => (k, value)).map Prod.fst).Sublist
        l := by
    intro l
    induction l with
    | nil => exact .slnil
    | cons k l ih =>
      cases hk : attributes.get? k with
      | none =>
        rw [filterMap_cons_none (by rw [hk]; rfl)]
        exact ih.cons k
      | some value =>
        rw [filterMap_cons_some (by rw [hk]; rfl)]
        exact ih.cons_cons k
  rw [Dict.entries_ofEntries _ ((hfst ks).trans hks |>.nodup attributes.nodup), mem_filterMap]
  constructor
  · rintro ⟨k, hk, he⟩
    rcases Option.map_eq_some_iff.mp he with ⟨value, hvalue, rfl⟩
    exact ⟨(attributes.get?_eq_some_iff _ _).mp hvalue, hk⟩
  · rintro ⟨he, hk⟩
    exact ⟨e.1, hk, by rw [(attributes.get?_eq_some_iff _ e.2).mpr he]; rfl⟩

variable (attributes : Dict Text ν)

theorem filter_spec (hne : attributes.entries ≠ []) (hall : "All".toList ∉ names)
    (hdot : ".*".toList ∉ names) (hstar : "*".toList ∉ names) :
    (∀ e, (∃ d, messageFilterMessageAttributes (some attributes) names = some d ∧
        e ∈ d.entries) ↔ e ∈ attributes.entries ∧ Taken names e.1) ∧
      (messageFilterMessageAttributes (some attributes) names = none ↔
        ∀ k ∈ attributes.keys, ¬Taken names k) := by
  classical
  rw [messageFilterMessageAttributes, if_neg (mt List.isEmpty_iff.mp hne)]
  by_cases hnames : names = []
  · have hnone : ∀ k, ¬Taken names k := by
      rintro k (⟨h, -⟩ | ⟨p, h, -⟩)
      · rw [hnames] at h
        cases h
      · rw [hnames] at h
        cases h
    rw [if_pos (List.isEmpty_iff.mpr hnames)]
    refine ⟨fun e => iff_of_false ?_ fun h => hnone _ h.2, iff_of_true rfl fun k _ => hnone k⟩
    rintro ⟨d, h, -⟩
    cases h
  · rw [if_neg (mt List.isEmpty_iff.mp hnames), if_neg (by simp only [hall, hdot, hstar]; simp)]
    simp only [foldl_matchAttribute, nil_append]
    by_cases hempty : attributes.keys.filter (fun k => decide (Taken names k)) = []
    · have hnone : ∀ k ∈ attributes.keys, ¬Taken names k := fun k hk h =>
        not_mem_nil (hempty ▸ mem_filter.mpr ⟨hk, decide_eq_true h⟩ : k ∈ [])
      rw [if_pos (List.isEmpty_iff.mpr hempty)]
      refine ⟨fun e => iff_of_false ?_ fun h => hnone _ (mem_map_of_mem h.1) h.2,
        iff_of_true rfl hnone⟩
      rintro ⟨d, h, -⟩
      cases h
    · rw [if_neg (mt List.isEmpty_iff.mp hempty)]
      constructor
      · intro e
        simp only [Option.some.injEq, exists_eq_left', mem_entriesOf _ _ filter_sublist,
          mem_filter, decide_eq_true_eq]
        exact and_congr_right fun he => and_iff_right (mem_map_of_mem he)
      · refine iff_of_false (by simp) fun h => hempty (filter_eq_nil_iff.mpr fun k hk => ?_)
        simp [h k hk]

/-- The attributes that stay are those that are requested if and only if there are
    attributes, and the first filter stands for all of them. -/
theorem selects_exactly_iff (hall : "All".toList ∉ names) (hdot : ".*".toList ∉ names)
    (hstar : "*".toList ∉ names) :
    SelectsExactly names attributes (messageFilterMessageAttributes (some attributes) names) ↔
      attributes.entries ≠ [] ∧ FirstDecides names attributes := by
  by_cases hne : attributes.entries = []
  · refine iff_of_false (fun h => ?_) fun h => h.1 hne
    have hkeys : attributes.keys = [] := by rw [Dict.keys, hne]; rfl
    have hnone := h.2.mpr (by simp [hkeys])
    rw [messageFilterMessageAttributes, hne] at hnone
    cases hnone
  · rcases filter_spec _ _ hne hall hdot hstar with ⟨hentries, hremoved⟩
    have hsame : FirstDecides names attributes ↔
        ∀ k ∈ attributes.keys, Taken names k ↔ Selected names k := by
      refine forall₂_congr fun k _ => ?_
      by_cases hlisted : k ∈ names ∧ filterPrefix? k = none
      · exact iff_of_true (absurd hlisted) (iff_of_true (.inl hlisted) (.inl hlisted))
      · rw [Taken, Selected, or_iff_right hlisted, or_iff_right hlisted]
        exact ⟨fun h => (h hlisted).symm, fun h _ => h.symm⟩
    rw [SelectsExactly, hremoved, hsame]
    simp only [hentries]
    constructor
    · rintro ⟨h, -⟩
      refine ⟨hne, fun k hk => ?_⟩
      rcases mem_map.mp hk with ⟨e, he, rfl⟩
      exact and_congr_right_iff.mp (h e) he
    · rintro ⟨-, h⟩
      exact ⟨fun e => and_congr_right fun he => h _ (mem_map_of_mem he),
        forall₂_congr fun k hk => not_congr (h k hk)⟩

def exampleAttributes : Dict Text Nat := Dict.ofEntries [("A1".toList, 1), ("B1".toList, 2)]

theorem selects_exactly_of_oneFilter :
    SelectsExactly ["B1".toList, "A.*".toList] exampleAttributes
      (messageFilterMessageAttributes (some exampleAttributes) ["B1".toList, "A.*".toList]) :=
  (selects_exactly_iff _ _ (by decide) (by decide) (by decide)).mpr ⟨by decide, by
    intro k hk hlisted
    rcases mem_pair.mp hk with rfl | rfl
    · exact iff_of_true ⟨"A".toList, by decide, by decide⟩ ⟨"A".toList, by decide, by decide⟩
    · exact absurd (by decide) hlisted⟩

/-- The attribute of the second filter is dropped. -/
theorem second_filter_ignored :
    ¬SelectsExactly ["A.*".toList, "B.*".toList] exampleAttributes
      (messageFilterMessageAttributes (some exampleAttributes)
        ["A.*".toList, "B.*".toList]) := by
  intro h
  have hsecond := (h.1 ("B1".toList, 2)).mpr
    ⟨by decide, .inr ⟨"B".toList, by decide, by decide⟩⟩
  rcases hsecond with ⟨d, hd, hmem⟩
  revert hmem
  rw [← Option.some.inj hd]
  decide

end LocalEmu.Sqs
