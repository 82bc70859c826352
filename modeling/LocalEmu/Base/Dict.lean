import Mathlib.Algebra.BigOperators.Group.List.Basic
import Mathlib.Algebra.Order.Group.Multiset
import Mathlib.Data.List.Induction

/-!
# Insertion-Ordered Dictionaries

The dictionary of Python: an association list in insertion order, no key
twice. Overwriting an existing key changes its value where it stands; only a
new key goes to the end. Deleting a key and setting it again moves it.

The order is data here, not an accident of representation. Code that asks for
the last key of a dictionary reads it, and whether an overwrite moves a key
decides what such code returns.

The structure carries the absence of duplicates, so no result below has to
assume it.
-/

namespace LocalEmu

open List Option

/-- An insertion-ordered dictionary. -/
structure Dict (κ ν : Type) where
  entries : List (κ × ν)
  nodup : (entries.map Prod.fst).Nodup

namespace Dict

variable {κ ν : Type} [DecidableEq κ]

def empty : Dict κ ν := ⟨[], List.nodup_nil⟩

variable (d : Dict κ ν)

/-- The keys in insertion order. -/
def keys : List κ := d.entries.map Prod.fst

/-- The values in insertion order of their keys. -/
def values : List ν := d.entries.map Prod.snd

/-- The entry whose key was inserted last: the first of `reversed(d)`. -/
def last? : Option (κ × ν) := d.entries.getLast?

variable (k : κ)

/-- `d.get(k)`. -/
def get? : Option ν := d.entries.lookup k

/-- `d.get(k, default)`. -/
def getD (default : ν) : ν := (d.get? k).getD default

variable (l : List (κ × ν)) (v : ν)

/-- Overwrite the value of a key where it stands. -/
def replaceEntries (l : List (κ × ν)) : List (κ × ν) :=
  l.map fun e => if e.1 = k then (k, v) else e

theorem map_fst_replaceEntries (l : List (κ × ν)) :
    (replaceEntries k v l).map Prod.fst = l.map Prod.fst := by
  unfold replaceEntries
  rw [List.map_map]
  refine map_congr_left (fun e _ => ?_)
  by_cases he : e.1 = k
  · rw [Function.comp_apply, if_pos he, he]
  · rw [Function.comp_apply, if_neg he]

/-- `d[k] = v`. -/
def set : Dict κ ν :=
  if h : k ∈ d.entries.map Prod.fst then
    ⟨replaceEntries k v d.entries, by rw [map_fst_replaceEntries]; exact d.nodup⟩
  else
    ⟨d.entries ++ [(k, v)], by
      rw [List.map_append]
      exact List.Nodup.append d.nodup (List.nodup_singleton _)
        (by simpa only [List.map_cons, List.map_nil, List.disjoint_singleton] using h)⟩

/-- `d.pop(k, None)` as far as the dictionary is concerned. -/
def erase : Dict κ ν :=
  ⟨d.entries.filter fun e => decide (e.1 ≠ k),
    d.nodup.sublist (List.filter_sublist.map Prod.fst)⟩

/-- A dictionary filled entry by entry. -/
def ofEntries : Dict κ ν := l.foldl (fun d e => d.set e.1 e.2) empty

/-! ### Lookup -/

theorem lookup_eq_none_iff (k : κ) : l.lookup k = none ↔ k ∉ l.map Prod.fst := by
  induction l with
  | nil => simp
  | cons e l ih =>
    rcases e with ⟨a, b⟩
    by_cases hka : k = a
    · subst hka
      simp only [lookup_cons_self, map_cons, mem_cons, true_or, not_true_eq_false, reduceCtorEq]
    · have hbeq : (k == a) = false := beq_false_of_ne hka
      simp only [lookup_cons, hbeq, map_cons, mem_cons, hka, false_or]
      exact ih

theorem mem_of_lookup (k : κ) (v : ν) (h : l.lookup k = some v) : (k, v) ∈ l := by
  induction l with
  | nil => cases h
  | cons e l ih =>
    rcases e with ⟨a, b⟩
    by_cases hka : k = a
    · subst hka
      rw [lookup_cons_self, some.injEq] at h
      rw [h]
      exact mem_cons_self
    · have hbeq : (k == a) = false := beq_false_of_ne hka
      rw [lookup_cons, hbeq] at h
      exact mem_cons_of_mem _ (ih h)

theorem lookup_of_mem (hn : (l.map Prod.fst).Nodup) (k : κ) (v : ν)
    (h : (k, v) ∈ l) : l.lookup k = some v := by
  induction l with
  | nil => exact absurd h not_mem_nil
  | cons e l ih =>
    rcases e with ⟨a, b⟩
    rw [map_cons, nodup_cons] at hn
    rcases mem_cons.mp h with he | hl
    · rw [Prod.mk.injEq] at he
      rw [he.1, he.2, lookup_cons_self]
    · have hmem : k ∈ l.map Prod.fst := mem_map_of_mem (f := Prod.fst) hl
      have hka : k ≠ a := fun hc => hn.1 (hc ▸ hmem)
      rw [lookup_cons, beq_false_of_ne hka]
      exact ih hn.2 hl

theorem get?_eq_none_iff : d.get? k = none ↔ k ∉ d.keys :=
  lookup_eq_none_iff _ k

theorem get?_eq_some_iff : d.get? k = some v ↔ (k, v) ∈ d.entries :=
  ⟨mem_of_lookup _ k v, lookup_of_mem _ d.nodup k v⟩

theorem get?_empty : (empty : Dict κ ν).get? k = none := rfl

theorem mem_entries_set (e : κ × ν) :
    e ∈ (d.set k v).entries ↔ e = (k, v) ∨ e.1 ≠ k ∧ e ∈ d.entries := by
  unfold set
  split
  · next hk =>
    simp only [replaceEntries, List.mem_map]
    constructor
    · rintro ⟨e', he', rfl⟩
      by_cases hek : e'.1 = k
      · rw [if_pos hek]
        exact Or.inl rfl
      · rw [if_neg hek]
        exact Or.inr ⟨hek, he'⟩
    · rintro (rfl | ⟨hek, he⟩)
      · rcases List.mem_map.mp hk with ⟨e', he', hfst⟩
        exact ⟨e', he', by rw [if_pos hfst]⟩
      · exact ⟨e, he, by rw [if_neg hek]⟩
  · next hk =>
    simp
    constructor
    · rintro (he | rfl)
      · exact Or.inr ⟨fun hc => hk (hc ▸ List.mem_map_of_mem (f := Prod.fst) he), he⟩
      · exact Or.inl rfl
    · rintro (rfl | ⟨_, he⟩)
      · exact Or.inr rfl
      · exact Or.inl he

/-- Lookup after an update. -/
theorem get?_set (k' : κ) (v : ν) : (d.set k v).get? k' = if k' = k then some v else d.get? k' := by
  by_cases hk : k' = k
  · rw [if_pos hk, hk, get?_eq_some_iff, mem_entries_set]
    exact Or.inl rfl
  · rw [if_neg hk]
    refine ext (fun w => ?_)
    rw [get?_eq_some_iff, get?_eq_some_iff, mem_entries_set]
    constructor
    · rintro (he | ⟨_, he⟩)
      · exact absurd (congrArg Prod.fst he) hk
      · exact he
    · exact fun he => Or.inr ⟨hk, he⟩

theorem get?_set_eq_some {k' : κ} {w : ν} (h : (d.set k v).get? k' = some w) :
    (k' = k ∧ v = w) ∨ (k' ≠ k ∧ d.get? k' = some w) := by
  rw [get?_set] at h
  split at h
  · next hk => exact .inl ⟨hk, some.inj h⟩
  · next hk => exact .inr ⟨hk, h⟩

theorem getD_set (k' : κ) (v dflt : ν) :
    (d.set k v).getD k' dflt = if k' = k then v else d.getD k' dflt := by
  unfold getD
  rw [get?_set]
  split
  · rfl
  · rfl

theorem get?_erase (k' : κ) : (d.erase k).get? k' = if k' = k then none else d.get? k' := by
  by_cases hk : k' = k
  · rw [if_pos hk, get?_eq_none_iff, erase]
    intro hc
    rcases mem_map.mp hc with ⟨e, he, hfst⟩
    rw [mem_filter, decide_eq_true_eq] at he
    exact he.2 (hfst.trans hk)
  · rw [if_neg hk]
    refine ext (fun w => ?_)
    rw [get?_eq_some_iff, get?_eq_some_iff, erase, mem_filter, decide_eq_true_eq]
    exact ⟨fun h => h.1, fun h => ⟨h, hk⟩⟩

theorem get?_foldl {f : Dict κ ν → κ → Dict κ ν} {w : Option ν}
    (hf : ∀ d k k', (f d k).get? k' = if k' = k then w else d.get? k') (ks : List κ) (d : Dict κ ν)
    (k : κ) : (ks.foldl f d).get? k = if k ∈ ks then w else d.get? k := by
  induction ks generalizing d with
  | nil => rw [foldl_nil, if_neg not_mem_nil]
  | cons a ks ih =>
    rw [foldl_cons, ih, hf]
    by_cases hmem : k ∈ ks
    · rw [if_pos hmem, if_pos (mem_cons_of_mem a hmem)]
    · by_cases heq : k = a
      · rw [if_neg hmem, if_pos heq, if_pos (by simp [heq])]
      · rw [if_neg hmem, if_neg heq, if_neg (by simp [heq, hmem])]

theorem get?_foldl_set (ks : List κ) (v : ν) (d : Dict κ ν) (k : κ) :
    (ks.foldl (fun d k => d.set k v) d).get? k = if k ∈ ks then some v else d.get? k :=
  get?_foldl (fun d k k' => get?_set d k k' v) ks d k

theorem get?_foldl_erase (ks : List κ) (d : Dict κ ν) (k : κ) :
    (ks.foldl (fun d k => d.erase k) d).get? k = if k ∈ ks then none else d.get? k :=
  get?_foldl get?_erase ks d k

/-- `update`: every entry of another dictionary is set. -/
def update (e : Dict κ ν) : Dict κ ν := e.entries.foldl (fun d entry => d.set entry.1 entry.2) d

theorem get?_foldl_entries (hn : (l.map Prod.fst).Nodup) (d : Dict κ ν) (k : κ) :
    (l.foldl (fun d entry => d.set entry.1 entry.2) d).get? k = (l.lookup k).or (d.get? k) := by
  induction l generalizing d with
  | nil => rfl
  | cons entry l ih =>
    rw [map_cons, nodup_cons] at hn
    rw [foldl_cons, ih hn.2, get?_set]
    by_cases hk : k = entry.1
    · have hnone : l.lookup k = none := (lookup_eq_none_iff l k).mpr (hk ▸ hn.1)
      rw [if_pos hk, hnone, none_or, hk, lookup_cons_self, some_or]
    · rw [if_neg hk, lookup_cons, beq_eq_false_iff_ne.mpr hk]

theorem get?_update (e : Dict κ ν) (k : κ) : (d.update e).get? k = (e.get? k).or (d.get? k) :=
  get?_foldl_entries _ e.nodup d k

/-! ### Groups -/

/-- Every value is replaced. -/
def mapValues {β : Type} (d : Dict κ ν) (f : ν → β) : Dict κ β :=
  ⟨d.entries.map fun e => (e.1, f e.2), by rw [List.map_map]; exact d.nodup⟩

/-- A `defaultdict(list)` that is filled: the values of a list by their keys. -/
def group {α : Type} (key : α → κ) (l : List α) : Dict κ (List α) :=
  l.foldl (fun d a => d.set (key a) (d.getD (key a) [] ++ [a])) empty

/-- Lookup after all values are replaced, and in groups. -/
theorem get?_mapValues {β : Type} (d : Dict κ ν) (f : ν → β) (k : κ) :
    (d.mapValues f).get? k = (d.get? k).map f := by
  rcases d with ⟨entries, nodup⟩
  show (entries.map fun e => (e.1, f e.2)).lookup k = (entries.lookup k).map f
  clear nodup
  induction entries with
  | nil => rfl
  | cons e entries ih =>
    rw [map_cons, lookup_cons, lookup_cons]
    cases k == e.1 with
    | true => rfl
    | false => exact ih

theorem get?_group {α : Type} (key : α → κ) (l : List α) (k : κ) :
    (group key l).get? k =
      if l.filter (fun a => decide (key a = k)) = [] then none
      else some (l.filter fun a => decide (key a = k)) := by
  induction l using reverseRecOn with
  | nil => rfl
  | append_singleton l a ih =>
    rw [group, foldl_append, foldl_cons, foldl_nil, ← group, get?_set, filter_append]
    by_cases hk : key a = k
    · subst hk
      rw [if_pos rfl, filter_cons_of_pos (by simp), getD, ih,
        if_neg (append_ne_nil_of_right_ne_nil _ (cons_ne_nil _ _))]
      split
      · next hnil => rw [hnil]; rfl
      · rfl
    · rw [if_neg (Ne.symm hk), filter_cons_of_neg (by simpa using hk), filter_nil,
        append_nil, ih]

/-! ### Order -/

/-- The order of the keys after an update. -/
theorem keys_set : (d.set k v).keys = if k ∈ d.keys then d.keys else d.keys ++ [k] := by
  by_cases hk : k ∈ d.keys
  · rw [if_pos hk]
    unfold set
    rw [dif_pos (show k ∈ d.entries.map Prod.fst from hk)]
    exact map_fst_replaceEntries k v _
  · rw [if_neg hk]
    unfold set
    rw [dif_neg (show k ∉ d.entries.map Prod.fst from hk)]
    simp only [keys, map_append, map_cons, map_nil]

theorem keys_erase : (d.erase k).keys = d.keys.filter fun k' => decide (k' ≠ k) := by
  unfold erase keys
  rw [List.filter_map]
  rfl

/-- The entries after a deletion. -/
theorem perm_cons_erase (h : d.get? k = some v) :
    d.entries.Perm ((k, v) :: (d.erase k).entries) := by
  rcases d with ⟨entries, nodup⟩
  have hlookup : entries.lookup k = some v := h
  show entries.Perm ((k, v) :: entries.filter fun e => decide (e.1 ≠ k))
  clear h
  induction entries with
  | nil => cases hlookup
  | cons e entries ih =>
    rw [map_cons, nodup_cons] at nodup
    by_cases hk : e.1 = k
    · have hrest : entries.filter (fun e => decide (e.1 ≠ k)) = entries := by
        refine filter_eq_self.mpr fun e' he' => decide_eq_true fun hk' => ?_
        exact nodup.1 (hk ▸ hk' ▸ mem_map_of_mem he')
      rw [filter_cons_of_neg (by simpa using hk), hrest]
      have hv : e = (k, v) := by
        rw [lookup_cons, hk, beq_self_eq_true] at hlookup
        exact Prod.ext hk (some.inj hlookup)
      rw [hv]
    · rw [filter_cons_of_pos (by simpa using hk)]
      rw [lookup_cons, beq_false_of_ne (Ne.symm hk)] at hlookup
      exact ((ih nodup.2 hlookup).cons e).trans (List.Perm.swap _ _ _)

theorem erase_of_get?_none (h : d.get? k = none) : (d.erase k).entries = d.entries := by
  refine filter_eq_self.mpr fun e he => decide_eq_true fun hk => ?_
  exact (get?_eq_none_iff d k).mp h (hk ▸ mem_map_of_mem he)

theorem perm_set : (d.set k v).entries.Perm ((k, v) :: (d.erase k).entries) := by
  have hget : (d.set k v).get? k = some v := by rw [get?_set, if_pos rfl]
  have hothers : ((d.set k v).erase k).entries = (d.erase k).entries := by
    unfold erase set
    by_cases hk : k ∈ d.entries.map Prod.fst
    · rw [dif_pos hk]
      dsimp only
      generalize d.entries = l
      induction l with
      | nil => rfl
      | cons e l ih =>
        rw [replaceEntries, map_cons]
        by_cases he : e.1 = k
        · rw [if_pos he, filter_cons_of_neg (by simp), filter_cons_of_neg (by simp [he])]
          exact ih
        · rw [if_neg he, filter_cons_of_pos (by simp [he]),
            filter_cons_of_pos (by simp [he])]
          exact congrArg _ ih
    · rw [dif_neg hk]
      dsimp only
      rw [filter_append, filter_cons_of_neg (by simp), filter_nil, append_nil]
  have hperm := perm_cons_erase _ k v hget
  rw [hothers] at hperm
  exact hperm

/-- The values as a multiset. -/
theorem coe_values_of_get? (h : d.get? k = some v) :
    (d.values : Multiset ν) = v ::ₘ ((d.erase k).values : Multiset ν) :=
  Multiset.coe_eq_coe.mpr ((d.perm_cons_erase k v h).map Prod.snd)

theorem coe_values_set :
    ((d.set k v).values : Multiset ν) = v ::ₘ ((d.erase k).values : Multiset ν) :=
  Multiset.coe_eq_coe.mpr ((d.perm_set k v).map Prod.snd)

theorem entries_foldl_erase (p : κ × ν → Bool) :
    ((d.entries.filter p).foldl (fun d e => d.erase e.1) d).entries =
      d.entries.filter fun e => !p e := by
  have hall (l : List (κ × ν)) (d : Dict κ ν) :
      (l.foldl (fun d e => d.erase e.1) d).entries =
        d.entries.filter fun e => decide (e.1 ∉ l.map Prod.fst) := by
    induction l generalizing d with
    | nil => simp
    | cons e l ih =>
      rw [List.foldl_cons, ih, erase, List.filter_filter]
      refine filter_congr fun e' _ => ?_
      simp only [map_cons, mem_cons, not_or, ne_eq, Bool.decide_and]
      exact Bool.and_comm _ _
  rw [hall]
  refine filter_congr fun e he => ?_
  have hmem : e.1 ∈ (d.entries.filter p).map Prod.fst ↔ p e = true := by
    constructor
    · intro h
      rcases mem_map.mp h with ⟨e', he', hk⟩
      rcases mem_filter.mp he' with ⟨hmem, hp⟩
      rw [← inj_on_of_nodup_map d.nodup hmem he hk]
      exact hp
    · exact fun h => mem_map_of_mem (mem_filter.mpr ⟨he, h⟩)
  by_cases hp : p e = true
  · rw [hp, decide_eq_false (not_not.mpr (hmem.mpr hp))]
    rfl
  · rw [Bool.eq_false_iff.mpr hp, decide_eq_true (mt hmem.mp hp)]
    rfl

/-- The entries after an update at the end. -/
theorem entries_set_new (h : k ∉ d.keys) : (d.set k v).entries = d.entries ++ [(k, v)] := by
  unfold set
  rw [dif_neg (show k ∉ d.entries.map Prod.fst from h)]

/-- Filling a dictionary. -/
theorem entries_ofEntries (h : (l.map Prod.fst).Nodup) : (ofEntries l).entries = l := by
  induction l using reverseRecOn with
  | nil => rfl
  | append_singleton l e ih =>
    rw [map_append, nodup_append] at h
    have hkeys : e.1 ∉ (ofEntries l).keys := by
      rw [keys, ih h.1]
      exact fun hmem => h.2.2 _ hmem _ (mem_singleton_self _) rfl
    have hset : ofEntries (l ++ [e]) = (ofEntries l).set e.1 e.2 := by
      rw [ofEntries, foldl_append]
      rfl
    rw [hset, entries_set_new _ _ _ hkeys, ih h.1]

theorem ofEntries_entries : ofEntries d.entries = d := by
  have h := entries_ofEntries _ d.nodup
  rcases hd : ofEntries d.entries with ⟨entries, nodup⟩
  rw [hd] at h
  cases d
  cases h
  rfl

theorem set_ne_nil : (d.set k v).entries ≠ [] := by
  intro hc
  have hmem : (k, v) ∈ (d.set k v).entries := (mem_entries_set d k v (k, v)).mpr (Or.inl rfl)
  rw [hc] at hmem
  exact absurd hmem not_mem_nil

theorem entries_set_last (k : κ) (v v' : ν)
    (h : d.entries = l ++ [(k, v)]) : (d.set k v').entries = l ++ [(k, v')] := by
  have hn := d.nodup
  rw [h, map_append, map_cons] at hn
  have hrest : ∀ e ∈ l, e.1 ≠ k := fun e he hc =>
    (disjoint_of_nodup_append hn) (mem_map_of_mem he) (by
      rw [hc]
      exact mem_singleton_self k)
  have hk : k ∈ d.entries.map Prod.fst := by
    rw [h, map_append]
    exact mem_append_right _ (mem_singleton_self k)
  unfold set
  rw [dif_pos hk]
  show replaceEntries k v' d.entries = _
  unfold replaceEntries
  rw [h, map_append, map_cons, if_pos rfl]
  congr 1
  conv_rhs => rw [← map_id l]
  refine map_congr_left (fun e he => ?_)
  rw [if_neg (hrest e he), id_eq]

/-- Listing a dictionary, where every item says which key it comes from, and
    picking the items of one key. -/
theorem filter_filterMap_entries {β : Type} (d : Dict κ ν) (f : κ × ν → Option β) (tag : β → κ)
    (htag : ∀ e ∈ d.entries, ∀ b, f e = some b → tag b = e.1) (k : κ) :
    (d.entries.filterMap f).filter (fun b => decide (tag b = k)) =
      ((d.get? k).bind fun v => f (k, v)).toList := by
  have hlist : ∀ l : List (κ × ν), (l.map Prod.fst).Nodup →
      (∀ e ∈ l, ∀ b, f e = some b → tag b = e.1) →
      (l.filterMap f).filter (fun b => decide (tag b = k)) =
        ((l.lookup k).bind fun v => f (k, v)).toList := by
    intro l
    induction l with
    | nil => exact fun _ _ => rfl
    | cons e l ih =>
      intro hn ht
      rw [map_cons, nodup_cons] at hn
      have hrest := ih hn.2 fun e' he' => ht e' (mem_cons_of_mem e he')
      rcases e with ⟨a, v⟩
      by_cases hka : k = a
      · subst hka
        have hnone : l.lookup k = none := (lookup_eq_none_iff l k).mpr hn.1
        rw [hnone] at hrest
        rw [lookup_cons_self]
        cases hf : f (k, v) with
        | none =>
          rw [filterMap_cons_none hf, hrest]
          simp only [bind_none, bind_some, hf]
        | some b =>
          have hb : tag b = k := ht (k, v) mem_cons_self b hf
          rw [filterMap_cons_some hf, filter_cons_of_pos (by simp [hb]), hrest]
          simp only [bind_none, bind_some, hf, toList_none, toList_some]
      · rw [lookup_cons, beq_false_of_ne hka]
        cases hf : f (a, v) with
        | none =>
          rw [filterMap_cons_none hf]
          exact hrest
        | some b =>
          have hb : ¬ tag b = k := fun hc => hka (hc.symm.trans (ht (a, v) mem_cons_self b hf))
          rw [filterMap_cons_some hf, filter_cons_of_neg (by simp [hb])]
          exact hrest
  exact hlist _ d.nodup htag

/-! ### Totals -/

/-- The sum of a measure over the values. -/
def total {M : Type} [AddMonoid M] (d : Dict κ ν) (f : ν → M) : M := (d.values.map f).sum

theorem sum_replaceEntries {M : Type} [AddCommMonoid M] (f : ν → M) (k : κ) (v : ν)
    (l : List (κ × ν)) (hn : (l.map Prod.fst).Nodup) (old : ν) (h : l.lookup k = some old) :
    ((replaceEntries k v l).map (fun e => f e.2)).sum + f old
      = (l.map (fun e => f e.2)).sum + f v := by
  induction l with
  | nil => cases h
  | cons e l ih =>
    rcases e with ⟨a, b⟩
    rw [map_cons, nodup_cons] at hn
    by_cases hka : k = a
    · subst hka
      rw [lookup_cons_self, some.injEq] at h
      -- The key occurs once, so the rest of the list is left as it was.
      have hrest : replaceEntries k v l = l := by
        conv_rhs => rw [← map_id l]
        refine map_congr_left (fun e he => ?_)
        have hmem : e.1 ∈ l.map Prod.fst := mem_map_of_mem (f := Prod.fst) he
        have hek : ¬ e.1 = k := fun hc => hn.1 (hc ▸ hmem)
        rw [if_neg hek, id_eq]
      have hhead : replaceEntries k v ((k, b) :: l) = (k, v) :: l := by
        conv_rhs => rw [← hrest]
        simp only [replaceEntries, map_cons, if_true]
      rw [hhead, map_cons, map_cons, sum_cons, sum_cons, h]
      rw [add_right_comm, add_comm (f v), add_right_comm]
    · have hak : ¬ a = k := fun hc => hka hc.symm
      rw [lookup_cons, beq_false_of_ne hka] at h
      have hhead : replaceEntries k v ((a, b) :: l) = (a, b) :: replaceEntries k v l := by
        simp only [replaceEntries, map_cons, if_neg hak]
      rw [hhead, map_cons, map_cons, sum_cons, sum_cons, add_assoc, ih hn.2 h, add_assoc]

/-- An assignment exchanges the old value's share of a total for the new
    value's. A key that was not there had no share. -/
theorem total_set {M : Type} [AddCommMonoid M] (d : Dict κ ν) (f : ν → M) (k : κ) (v dflt : ν)
    (hd : f dflt = 0) : (d.set k v).total f + f (d.getD k dflt) = d.total f + f v := by
  have hval : ∀ d' : Dict κ ν, d'.total f = (d'.entries.map (fun e => f e.2)).sum := by
    intro d'
    simp only [total, values, List.map_map, Function.comp_def]
  rw [hval, hval, getD]
  by_cases hk : k ∈ d.entries.map Prod.fst
  · rcases hold : d.get? k with _ | old
    · exact absurd hk ((get?_eq_none_iff d k).mp hold)
    · have hset : (d.set k v).entries = replaceEntries k v d.entries := by
        unfold set
        rw [dif_pos hk]
      rw [hset]
      exact sum_replaceEntries f k v _ d.nodup _ hold
  · have hnone : d.get? k = none := (get?_eq_none_iff d k).mpr hk
    have hset : (d.set k v).entries = d.entries ++ [(k, v)] := by
      unfold set
      rw [dif_neg hk]
    rw [hnone, hset, Option.getD_none, hd, List.map_append, List.sum_append]
    simp

/-- Membership in a total of multisets. -/
theorem mem_total_coe {α : Type} (d : Dict κ (List α)) (a : α) :
    a ∈ d.total (fun l => (l : Multiset α)) ↔ ∃ k, a ∈ d.getD k [] := by
  have hsum : ∀ ls : List (List α),
      a ∈ (ls.map fun l : List α => (l : Multiset α)).sum ↔ ∃ l ∈ ls, a ∈ l := by
    intro ls
    induction ls with
    | nil => simp
    | cons l ls ih =>
      rw [map_cons, sum_cons, Multiset.mem_add, ih, Multiset.mem_coe]
      simp
  unfold total
  rw [hsum]
  constructor
  · intro h
    rcases h with ⟨l, hl, ha⟩
    rcases mem_map.mp hl with ⟨e, he, rfl⟩
    have hget : d.get? e.1 = some e.2 := (get?_eq_some_iff d e.1 e.2).mpr he
    refine ⟨e.1, ?_⟩
    unfold getD
    rw [hget]
    exact ha
  · intro h
    rcases h with ⟨k, hk⟩
    unfold getD at hk
    cases hget : d.get? k with
    | none =>
      rw [hget] at hk
      exact absurd hk not_mem_nil
    | some l =>
      rw [hget] at hk
      exact ⟨l, mem_map.mpr ⟨(k, l), (get?_eq_some_iff d k l).mp hget, rfl⟩, hk⟩

end Dict

end LocalEmu
