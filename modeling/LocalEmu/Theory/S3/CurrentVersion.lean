import LocalEmu.Core.S3.KeyStore

/-!
# The Current Version

Which version of a key a versioned store takes for the current one.

What the current version should be is a matter of the history alone:
`recency` lists the versions of a key in the order in which they were last
set, and the last of them is current. The store keeps the order in which
version ids were first inserted instead. Setting a version id the key already
has leaves it in its place, so the two orders part when the id is not that of
the last version. That is what a suspended bucket does when it overwrites an
older `null` version.

While every `set` fits, in the sense of `Op.Fits`, the dictionary of a key is
determined by its recency list: `ranked` builds it, flags included. This is a
refinement of the store by the abstract list, from which everything about the
current version is read off.
-/

namespace LocalEmu.S3

open List Option
open VersionedKeyStore (fromKeyStore markLast)

variable {α : Type}

/-! ### Calls and their histories -/

/-- A call on the store of a bucket. A `set` gets a version that was just created. -/
inductive Op (α : Type)
  | set (key : String) (versionId : Option String) (object : Option α)
  | pop (key : String) (versionId : Option String)

variable (d : Dict (Option String) (S3Version α)) (store : VersionedKeyStore α)

/-- The store after a call. -/
def Op.apply : Op α → VersionedKeyStore α
  | .set key versionId object =>
    VersionedKeyStore.set store key { key := key, versionId := versionId, object := object }
  | .pop key versionId => (VersionedKeyStore.pop store key versionId).1

variable (ops : List (Op α))

/-- A run from the empty store. -/
def run : VersionedKeyStore α := ops.foldl Op.apply Dict.empty

/-- What a call does to the recency of a key: setting a version makes it the most recent one. -/
def touch (key : String) (versions : List (Option String × Option α)) :
    Op α → List (Option String × Option α)
  | .set key' versionId object =>
    if key' = key then
      versions.filter (fun e => decide (e.1 ≠ versionId)) ++ [(versionId, object)]
    else versions
  | .pop key' versionId =>
    if key' = key then versions.filter (fun e => decide (e.1 ≠ versionId)) else versions

/-- The versions of a key that were set and not since popped, by the time they were last set. -/
def recency (key : String) (ops : List (Op α)) : List (Option String × Option α) :=
  ops.foldl (touch key) []

def versions (key : String) : Dict (Option String) (S3Version α) := store.getD key Dict.empty

/-- A `set` of a version id the key does not have, or of its last one. -/
def Op.Fits : Op α → Prop
  | .set key versionId _ => versionId ∉ (versions store key).keys ∨
      (versions store key).keys.getLast? = some versionId
  | .pop _ _ => True

instance (store : VersionedKeyStore α) (op : Op α) : Decidable (op.Fits store) :=
  match op with
  | .set _ _ _ => inferInstanceAs (Decidable (_ ∨ _))
  | .pop _ _ => inferInstanceAs (Decidable True)

/-! ### Ranked dictionaries -/

def entry (key : String) (isCurrent : Bool) (e : Option String × Option α) :
    Option String × S3Version α :=
  (e.1, { key := key, versionId := e.1, isCurrent := isCurrent, object := e.2 })

/-- The entries of a key with the given recency, of which the last one has the
    given flag and no other is current. -/
def ranked (key : String) (isCurrent : Bool) (l : List (Option String × Option α)) :
    List (Option String × S3Version α) :=
  l.dropLast.map (entry key false) ++ (l.getLast?.map (entry key isCurrent)).toList

theorem ranked_append (key : String) (isCurrent : Bool) (l : List (Option String × Option α))
    (e : Option String × Option α) :
    ranked key isCurrent (l ++ [e]) = l.map (entry key false) ++ [entry key isCurrent e] := by
  unfold ranked
  rw [dropLast_concat, getLast?_concat]
  rfl

theorem ranked_false (key : String) (l : List (Option String × Option α)) :
    ranked key false l = l.map (entry key false) := by
  rcases eq_nil_or_concat l with rfl | ⟨l, e, rfl⟩
  · rfl
  · rw [concat_eq_append, ranked_append, map_append]
    rfl

theorem map_fst_ranked (key : String) (isCurrent : Bool) (l : List (Option String × Option α)) :
    (ranked key isCurrent l).map Prod.fst = l.map Prod.fst := by
  rcases eq_nil_or_concat l with rfl | ⟨l, e, rfl⟩
  · rfl
  · rw [List.concat_eq_append, ranked_append, List.map_append, List.map_append, List.map_map]
    rfl

/-- The methods on a ranked dictionary. -/
theorem entries_markLast (key : String) (b b' : Bool) (l : List (Option String × Option α))
    (h : d.entries = ranked key b l) :
    (markLast d b').entries = ranked key b' l := by
  rcases eq_nil_or_concat l with rfl | ⟨l, e, rfl⟩
  · have hlast : d.last? = none := by
      unfold Dict.last?
      rw [h]
      rfl
    unfold markLast
    rw [hlast]
    exact h
  · rw [concat_eq_append, ranked_append] at h ⊢
    have hlast : d.last? = some (entry key b e) := by
      unfold Dict.last?
      rw [h, getLast?_concat]
    unfold markLast
    rw [hlast]
    exact d.entries_set_last _ _ _ _ h

/-- Setting a version that fits. -/
theorem entries_set (key : String) (versionId : Option String) (object : Option α)
    (l : List (Option String × Option α))
    (h : d.entries = ranked key true l)
    (hfits : versionId ∉ d.keys ∨ d.keys.getLast? = some versionId) :
    ((markLast d false).set versionId
        { key := key, versionId := versionId, object := object }).entries =
      ranked key true (l.filter (fun e => decide (e.1 ≠ versionId)) ++ [(versionId, object)]) := by
  have hmark := entries_markLast d _ _ false l h
  have hkeys : d.keys = l.map Prod.fst := by
    unfold Dict.keys
    rw [h, map_fst_ranked]
  have hmkeys : (markLast d false).keys = l.map Prod.fst := by
    unfold Dict.keys
    rw [hmark, map_fst_ranked]
  rw [ranked_append]
  rcases hfits with hnew | hlast
  · -- A new version id goes to the end, and nothing is filtered out.
    rw [hkeys] at hnew
    have hfilter : l.filter (fun e => decide (e.1 ≠ versionId)) = l := by
      rw [filter_eq_self]
      intro e he
      rw [decide_eq_true_eq]
      exact fun hc => hnew (hc ▸ mem_map_of_mem he)
    rw [Dict.entries_set_new _ _ _ (by rw [hmkeys]; exact hnew), hmark, ranked_false, hfilter]
    rfl
  · rcases eq_nil_or_concat l with rfl | ⟨l, e, rfl⟩
    · rw [hkeys] at hlast
      cases hlast
    · rw [concat_eq_append] at hkeys hmark h ⊢
      rw [hkeys, map_append, map_cons, map_nil, getLast?_concat] at hlast
      have hid : e.1 = versionId := some.inj hlast
      have hn := d.nodup
      rw [show d.entries.map Prod.fst = d.keys from rfl, hkeys, map_append] at hn
      have hfilter : (l ++ [e]).filter (fun e => decide (e.1 ≠ versionId)) = l := by
        rw [filter_append]
        have hl : l.filter (fun e => decide (e.1 ≠ versionId)) = l := by
          rw [filter_eq_self]
          intro e' he'
          rw [decide_eq_true_eq]
          intro hc
          refine (disjoint_of_nodup_append hn) (mem_map_of_mem he') ?_
          rw [hc, ← hid]
          exact mem_singleton_self e.1
        rw [hl, filter_cons_of_neg (by simp [hid, not_true_eq_false]), filter_nil, append_nil]
      rw [ranked_append] at hmark
      rw [hfilter, ← hid]
      exact Dict.entries_set_last _ _ _ _ _ hmark

theorem entries_pop (key : String) (versionId : Option String) (l : List (Option String × Option α))
    (h : d.entries = ranked key true l) :
    (markLast (d.erase versionId) true).entries =
      ranked key true (l.filter fun e => decide (e.1 ≠ versionId)) := by
  have hmap : ∀ (b : Bool) (l : List (Option String × Option α)),
      (l.map (entry key b)).filter (fun e => decide (e.1 ≠ versionId)) =
        (l.filter fun e => decide (e.1 ≠ versionId)).map (entry key b) := by
    intro b l
    rw [List.filter_map]
    rfl
  -- The last version left is current already or has been hidden.
  have hleft : ∃ b, (d.erase versionId).entries =
      ranked key b (l.filter fun e => decide (e.1 ≠ versionId)) := by
    show ∃ b, d.entries.filter (fun e => decide (e.1 ≠ versionId)) = _
    rcases eq_nil_or_concat l with rfl | ⟨l, e, rfl⟩
    · rw [h]
      exact ⟨true, rfl⟩
    · rw [concat_eq_append] at h ⊢
      rw [h, ranked_append, filter_append, hmap, filter_append]
      by_cases he : e.1 = versionId
      · refine ⟨false, ?_⟩
        rw [filter_cons_of_neg (by simp [entry, he, not_true_eq_false]),
          filter_cons_of_neg (by simp [he, not_true_eq_false]), filter_nil, filter_nil,
          append_nil, append_nil, ranked_false]
      · refine ⟨true, ?_⟩
        rw [filter_cons_of_pos (by simp [entry, he]),
          filter_cons_of_pos (by simp [he]),
          filter_nil, filter_nil, ranked_append]
  rcases hleft with ⟨b, hleft⟩
  exact entries_markLast _ _ b _ _ hleft

/-! ### Ranked stores -/

/-- The dictionary of every key is the ranked one of its history, and no key
    has an empty dictionary. -/
structure Ranked (ops : List (Op α)) (store : VersionedKeyStore α) : Prop where
  entries : ∀ key, (versions store key).entries = ranked key true (recency key ops)
  inhabited : ∀ key d, store.get? key = some d → d.entries ≠ []

theorem ranked_eq_nil_iff (key : String) (l : List (Option String × Option α)) :
    ranked key true l = [] ↔ l = [] := by
  rcases eq_nil_or_concat l with rfl | ⟨l, e, rfl⟩
  · exact ⟨fun _ => rfl, fun _ => rfl⟩
  · rw [concat_eq_append, ranked_append]
    simp

theorem recency_append (key : String) (ops : List (Op α)) (op : Op α) :
    recency key (ops ++ [op]) = touch key (recency key ops) op := foldl_append

variable (op : Op α)

theorem run_append : run (ops ++ [op]) = op.apply (run ops) :=
  foldl_append

theorem versions_set (key key' : String) (d : Dict (Option String) (S3Version α)) :
    versions (Dict.set store key d) key' = if key' = key then d else versions store key' :=
  Dict.getD_set _ _ _ d _

def Op.key : Op α → String
  | .set key _ _ => key
  | .pop key _ => key

theorem touch_of_ne (key : String) (l : List (Option String × Option α)) (op : Op α)
    (h : key ≠ op.key) : touch key l op = l := by
  cases op with
  | set | pop => exact if_neg fun hc => h hc.symm

theorem get?_apply_of_ne (key : String)
    (h : key ≠ op.key) : (op.apply store).get? key = store.get? key := by
  cases op with
  | set key' =>
    simp only [Op.key] at h
    show (Dict.set store key' _).get? key = _
    rw [Dict.get?_set, if_neg h]
  | pop key' versionId =>
    simp only [Op.key] at h
    show (VersionedKeyStore.pop store key' versionId).1.get? key = _
    unfold VersionedKeyStore.pop
    split
    · rfl
    · split
      · rfl
      · simp only
        split
        · show (store.erase key').get? key = _
          rw [Dict.get?_erase, if_neg h]
        · show (Dict.set store key' _).get? key = _
          rw [Dict.get?_set, if_neg h]

theorem entries_apply (store : VersionedKeyStore α) (op : Op α) (h : Ranked ops store)
    (hfits : op.Fits store) :
    (versions (op.apply store) op.key).entries =
        ranked op.key true (touch op.key (recency op.key ops) op) ∧
      ∀ d, (op.apply store).get? op.key = some d → d.entries ≠ [] := by
  cases op with
  | set key versionId object =>
    have hset := entries_set _ _ _ object _ (h.entries _) hfits
    have htouch : touch key (recency key ops) (.set key versionId object) =
        (recency key ops).filter (fun e => decide (e.1 ≠ versionId)) ++ [(versionId, object)] :=
      if_pos rfl
    simp only [Op.key]
    rw [htouch]
    constructor
    · show (versions (Dict.set store key _) key).entries = _
      rw [versions_set, if_pos rfl]
      exact hset
    · intro d hd
      have hd : (Dict.set store key _).get? key = some d := hd
      rw [Dict.get?_set, if_pos rfl, Option.some.injEq] at hd
      rw [← hd]
      intro hc
      have hranked : ranked key true _ = [] := hset.symm.trans hc
      rw [ranked_eq_nil_iff] at hranked
      exact absurd hranked (by simp [List.append_eq_nil_iff, List.cons_ne_self, and_false])
  | pop key versionId =>
    have htouch : touch key (recency key ops) (.pop key versionId) =
        (recency key ops).filter (fun e => decide (e.1 ≠ versionId)) := if_pos rfl
    simp only [Op.key]
    rw [htouch]
    have hentries := h.entries key
    show (versions (VersionedKeyStore.pop store key versionId).1 key).entries = _ ∧
      ∀ d, (VersionedKeyStore.pop store key versionId).1.get? key = some d → _
    unfold VersionedKeyStore.pop
    cases hget : store.get? key with
    | none =>
      have hempty : versions store key = Dict.empty := by
        unfold versions Dict.getD
        rw [hget]
        rfl
      have hnil : recency key ops = [] := by
        rw [hempty] at hentries
        exact (ranked_eq_nil_iff _ _).mp hentries.symm
      rw [hempty, hnil, hget]
      exact ⟨rfl, fun d hd => absurd hd (by simp)⟩
    | some d =>
      have hd : versions store key = d := by
        unfold versions Dict.getD
        rw [hget]
        rfl
      have hne := h.inhabited _ d hget
      rw [hd] at hentries
      have hpop := entries_pop d _ versionId _ hentries
      simp only [List.isEmpty_iff, hne, if_false]
      by_cases hleft : (d.erase versionId).entries = []
      · rw [if_pos hleft]
        have hmark : markLast (d.erase versionId) true =
            d.erase versionId := by
          unfold markLast Dict.last?
          rw [hleft]
          rfl
        rw [hmark, hleft] at hpop
        have hgone : (store.erase key).get? key = none := by rw [Dict.get?_erase, if_pos rfl]
        constructor
        · unfold versions Dict.getD
          rw [hgone, ← hpop]
          rfl
        · intro d' hd'
          rw [hgone] at hd'
          cases hd'
      · rw [if_neg hleft]
        constructor
        · rw [versions_set, if_pos rfl]
          exact hpop
        · intro d' hd'
          rw [Dict.get?_set, if_pos rfl, Option.some.injEq] at hd'
          rw [← hd']
          unfold markLast
          split
          · exact Dict.set_ne_nil _ _ _
          · exact hleft

theorem ranked_step (store : VersionedKeyStore α) (op : Op α) (h : Ranked ops store)
    (hfits : op.Fits store) : Ranked (ops ++ [op]) (op.apply store) := by
  rcases entries_apply _ _ op h hfits with ⟨hentries, hinhabited⟩
  constructor
  · intro key
    rw [recency_append]
    by_cases hk : key = op.key
    · rw [hk]
      exact hentries
    · rw [touch_of_ne _ _ op hk]
      unfold versions Dict.getD
      rw [get?_apply_of_ne _ op _ hk]
      exact h.entries _
  · intro key d hd
    by_cases hk : key = op.key
    · rw [hk] at hd
      exact hinhabited d hd
    · rw [get?_apply_of_ne _ op _ hk] at hd
      exact h.inhabited _ d hd

/-- Every call of a run fits the store it meets. -/
def Fitting : Prop :=
  ∀ before op after, ops = before ++ op :: after → op.Fits (run before)

/-- A run of fitting calls is ranked. -/
theorem ranked_run (h : Fitting ops) : Ranked ops (run ops) := by
  induction ops using reverseRecOn with
  | nil =>
    refine ⟨fun key => rfl, fun key d hd => ?_⟩
    cases hd
  | append_singleton ops op ih =>
    rw [run_append]
    refine ranked_step _ _ op (ih fun before op' after hsplit => ?_) (h _ op [] rfl)
    refine h _ _ (after ++ [op]) ?_
    rw [hsplit, append_assoc, cons_append]

/-! ### Current versions -/

/-- A store with the given history knows the current versions: without a
    version id, `get` returns the most recently set one, that one alone is
    flagged, and `values` lists those that are objects. -/
structure Current (ops : List (Op α)) (store : VersionedKeyStore α) : Prop where
  latest : ∀ key d, store.get? key = some d → ∃ v,
    VersionedKeyStore.get store key none = some v ∧
    (recency key ops).getLast? = some (v.versionId, v.object) ∧
    d.values.filter S3Version.isCurrent = [v]
  listed : ∀ key, ((VersionedKeyStore.values store).filter
      fun v => decide (v.key = key)).map (fun v => (v.versionId, v.object)) =
    ((recency key ops).getLast?.filter fun e => e.2.isSome).toList

theorem values_ranked (key : String) (l : List (Option String × Option α))
    (e : Option String × Option α) :
    ((ranked key true (l ++ [e])).map Prod.snd).filter S3Version.isCurrent =
      [(entry key true e).2] := by
  rw [ranked_append, map_append, filter_append]
  have hnone : (((l.map (entry key false)).map Prod.snd).filter S3Version.isCurrent) = [] := by
    rw [filter_eq_nil_iff]
    intro v hv
    rw [List.map_map, List.mem_map] at hv
    rcases hv with ⟨e', -, rfl⟩
    exact Bool.false_ne_true
  rw [hnone]
  rfl

/-- A ranked store knows the current versions. -/
theorem current_of_ranked (store : VersionedKeyStore α)
    (h : Ranked ops store) : Current ops store := by
  have hversions : ∀ key d, store.get? key = some d → d.entries =
      ranked key true (recency key ops) := by
    intro key d hd
    rw [← h.entries]
    unfold versions Dict.getD
    rw [hd]
    rfl
  constructor
  · intro key d hd
    have hentries := hversions _ d hd
    rcases eq_nil_or_concat (recency key ops) with hnil | ⟨l, e, hlist⟩
    · rw [hnil] at hentries
      exact absurd hentries (h.inhabited _ d hd)
    · rw [concat_eq_append] at hlist
      rw [hlist] at hentries
      refine ⟨(entry key true e).2, ?_, ?_, ?_⟩
      · unfold VersionedKeyStore.get
        have hsome : d.entries.isEmpty = false := by
          rw [isEmpty_eq_false_iff]
          exact h.inhabited _ d hd
        have hlast : d.last? = some (entry key true e) := by
          unfold Dict.last?
          rw [hentries, ranked_append, getLast?_concat]
        simp only [hd, falsy, hsome, getD_none, beq_self_eq_true, Bool.not_false,
          Bool.and_self, if_true, hlast, map_some]
      · rw [hlist, getLast?_concat]
        rfl
      · unfold Dict.values
        rw [hentries]
        exact values_ranked _ l e
  · intro key
    have hlast : ∀ key' d, store.get? key' = some d →
        d.last? = ((recency key' ops).getLast?.map (entry key' true)) := by
      intro key' d hd
      unfold Dict.last?
      rw [hversions _ d hd]
      rcases eq_nil_or_concat (recency key' ops) with hnil | ⟨l, e, hlist⟩
      · rw [hnil]
        rfl
      · rw [concat_eq_append] at hlist
        rw [hlist, ranked_append, getLast?_concat, getLast?_concat]
        rfl
    unfold VersionedKeyStore.values
    rw [Dict.filter_filterMap_entries _ _ _ (fun e he v hv => ?_)]
    · cases hget : store.get? key with
      | none =>
        have hnil : recency key ops = [] := by
          have hentries := h.entries key
          unfold versions Dict.getD at hentries
          rw [hget] at hentries
          exact (ranked_eq_nil_iff _ _).mp hentries.symm
        rw [hnil]
        rfl
      | some d =>
        simp only [bind_some, hlast _ d hget]
        cases (recency key ops).getLast? with
        | none => rfl
        | some e =>
          rcases e with ⟨versionId, object⟩
          cases object with
          | none | some => rfl
    · have hget : store.get? e.1 = some e.2 := (Dict.get?_eq_some_iff _ _ _).mpr he
      simp only [hlast e.1 e.2 hget] at hv
      cases hrecent : (recency e.1 ops).getLast? with
      | none =>
        rw [hrecent] at hv
        cases hv
      | some =>
        rw [hrecent] at hv
        simp only [map_some, ite_none_right_eq_some, some.injEq] at hv
        rw [← hv.2]
        rfl

def Keyed : Prop :=
  ∀ e ∈ d.entries, e.2.versionId = e.1

theorem keyed_markLast (b : Bool) (h : Keyed d) : Keyed (markLast d b) := by
  unfold markLast
  split
  · next versionId v hlast =>
      intro e he
      rcases (Dict.mem_entries_set d _ _ e).mp he with he | ⟨-, he⟩
      · rw [he]
        exact h (versionId, v) (mem_of_getLast? hlast)
      · exact h e he
  · exact h

theorem keyed_apply (h : ∀ key, Keyed (versions store key)) (key : String) :
    Keyed (versions (op.apply store) key) := by
  by_cases hk : key = op.key
  · cases op with
    | set key' =>
      simp only [Op.key] at hk
      show Keyed (versions (Dict.set store key' _) key)
      rw [versions_set, if_pos hk]
      intro e he
      rcases (Dict.mem_entries_set _ _ _ e).mp he with he | ⟨-, he⟩
      · rw [he]
      · exact keyed_markLast _ _ (h _) e he
    | pop key' versionId =>
      simp only [Op.key] at hk
      show Keyed (versions (VersionedKeyStore.pop store key' versionId).1 key)
      unfold VersionedKeyStore.pop
      split
      · exact h _
      · next d hd =>
          have hdict : Keyed d := by
            have hkeyed := h key'
            unfold versions Dict.getD at hkeyed
            rw [hd] at hkeyed
            exact hkeyed
          have herase : Keyed (d.erase versionId) := fun e he =>
            hdict e (mem_of_mem_filter he)
          split
          · exact h _
          · simp only
            split
            · unfold versions Dict.getD
              rw [Dict.get?_erase, if_pos hk]
              exact fun e he => absurd he not_mem_nil
            · rw [versions_set, if_pos hk]
              exact keyed_markLast _ _ herase
  · unfold versions Dict.getD
    rw [get?_apply_of_ne _ op _ hk]
    exact h _

theorem keys_markLast (b : Bool) : (markLast d b).keys = d.keys := by
  unfold markLast
  split
  · next versionId v hlast =>
      have hmem : versionId ∈ d.keys := mem_map_of_mem (mem_of_getLast? hlast)
      rw [Dict.keys_set, if_pos hmem]
  · rfl

theorem last?_of_get (key : String) (d : Dict (Option String) (S3Version α)) (v : S3Version α)
    (hd : store.get? key = some d)
    (hne : d.entries ≠ []) (hv : VersionedKeyStore.get store key none = some v) :
    ∃ versionId, d.last? = some (versionId, v) := by
  unfold VersionedKeyStore.get at hv
  have hsome : d.entries.isEmpty = false := isEmpty_eq_false_iff.mpr hne
  simp only [hd, falsy, hsome, getD_none, beq_self_eq_true, Bool.not_false, Bool.and_self,
    if_true, map_eq_some_iff] at hv
  rcases hv with ⟨⟨versionId, v'⟩, hlast, hv⟩
  rw [← hv]
  exact ⟨versionId, hlast⟩

theorem not_current_of_not_fits (store : VersionedKeyStore α) (op : Op α)
    (hkeyed : ∀ key, Keyed (versions store key)) (hfits : ¬ op.Fits store) :
    ¬ Current (ops ++ [op]) (op.apply store) := by
  cases op with
  | pop => exact absurd trivial hfits
  | set key versionId object =>
    intro hcurrent
    unfold Op.Fits at hfits
    rw [not_or, not_not] at hfits
    rcases hfits with ⟨hmem, hlast⟩
    have hget : (Op.apply store (.set key versionId object)).get? key =
        some ((markLast (versions store key) false).set versionId
          { key := key, versionId := versionId, object := object }) := by
      show (Dict.set store key _).get? key = _
      rw [Dict.get?_set, if_pos rfl]
      rfl
    have hafter := keyed_apply _ (.set key versionId object) hkeyed key
    rcases hcurrent.latest _ _ hget with ⟨v, hv, hrecent, -⟩
    have hid : v.versionId = versionId := by
      rw [recency_append] at hrecent
      simp only [touch, if_true, getLast?_concat, some.injEq, Prod.mk.injEq]
        at hrecent
      exact hrecent.1.symm
    rcases last?_of_get _ _ _ v hget (Dict.set_ne_nil _ _ _) hv with ⟨versionId', hlast'⟩
    have hentry : v.versionId = versionId' := by
      unfold versions Dict.getD at hafter
      rw [hget] at hafter
      exact hafter (versionId', v) (mem_of_getLast? hlast')
    -- The order of the version ids did not change.
    have hkeys : ((markLast (versions store key) false).set versionId
        { key := key, versionId := versionId, object := object }).keys =
        (versions store key).keys := by
      rw [Dict.keys_set, keys_markLast, if_pos hmem]
    refine hlast ?_
    unfold Dict.last? at hlast'
    rw [← hkeys]
    unfold Dict.keys
    rw [getLast?_map, hlast']
    exact congrArg some (hentry.symm.trans hid)

/-! ### Switching versioning on -/

/-- The store of a bucket that was never versioned: objects are kept under
    their keys, and every one is current. -/
structure PlainStore (α : Type) where
  store : KeyStore α
  plain : ∀ e ∈ store.entries, e.2.key = e.1 ∧ e.2.isCurrent = true

/-- The calls of `from_key_store`. -/
def switchedOn (keystore : KeyStore α) : List (Op α) :=
  keystore.values.map fun v => .set v.key (some "null") v.object

theorem fromKeyStore_eq (p : PlainStore α) :
    fromKeyStore p.store = run (switchedOn p.store) := by
  have hcurrent : ∀ v ∈ p.store.values, v.isCurrent = true := by
    intro v hv
    rcases mem_map.mp hv with ⟨e, he, rfl⟩
    exact (p.plain e he).2
  unfold fromKeyStore run switchedOn
  rw [foldl_map]
  refine foldl_ext _ _ _ (fun store v hv => ?_)
  have hv := hcurrent v hv
  rcases v with ⟨key, versionId, isCurrent, object⟩
  rw [hv]
  rfl

theorem get?_run_of_ne (key : String) (h : ∀ op ∈ ops, key ≠ op.key) :
    (run ops).get? key = none := by
  induction ops using reverseRecOn with
  | nil => exact Dict.get?_empty _
  | append_singleton ops op ih =>
    rw [run_append, get?_apply_of_ne _ op _ (h op (mem_append_right _ (mem_singleton_self op)))]
    exact ih fun op' hop' => h _ (mem_append_left _ hop')

theorem fitting_switchedOn (p : PlainStore α) : Fitting (switchedOn p.store) := by
  intro before op after hsplit
  have hkeys : (switchedOn p.store).map Op.key = p.store.keys := by
    unfold switchedOn Dict.values Dict.keys
    rw [List.map_map, List.map_map]
    exact map_congr_left fun e he => (p.plain e he).1
  have hn : ((before ++ op :: after).map Op.key).Nodup := by
    rw [← hsplit, hkeys]
    exact p.store.nodup
  have hnone : (run before).get? op.key = none := by
    refine get?_run_of_ne _ _ (fun op' hop' hc => ?_)
    rw [map_append] at hn
    refine (disjoint_of_nodup_append hn) (mem_map_of_mem hop') ?_
    rw [← hc]
    exact mem_cons_self
  cases op with
  | pop => exact trivial
  | set key =>
    refine .inl ?_
    unfold versions Dict.getD
    rw [show (run before).get? key = none from hnone]
    exact not_mem_nil

/-- Along a run the store knows the current versions exactly when every `set`
    is of a new version id or of the last one. -/
theorem current_iff (p : PlainStore α) (ops : List (Op α)) :
    (∀ before after, ops = before ++ after → Current (switchedOn p.store ++ before)
      (before.foldl Op.apply (fromKeyStore p.store))) ↔
    ∀ before op after, ops = before ++ op :: after →
      op.Fits (before.foldl Op.apply (fromKeyStore p.store)) := by
  have hrun : ∀ before, before.foldl Op.apply (fromKeyStore p.store) =
      run (switchedOn p.store ++ before) := by
    intro before
    rw [fromKeyStore_eq]
    unfold run
    rw [foldl_append]
  have hkeyed : ∀ ops : List (Op α), ∀ key, Keyed (versions (run ops) key) := by
    intro ops
    induction ops using reverseRecOn with
    | nil => exact fun key e he => absurd he not_mem_nil
    | append_singleton ops op ih =>
      rw [run_append]
      exact keyed_apply _ op ih
  constructor
  · intro hcurrent before op after hsplit
    rw [hrun]
    by_contra hfits
    refine not_current_of_not_fits (switchedOn p.store ++ before) _ op (hkeyed _) hfits ?_
    have hnext := hcurrent (before ++ [op]) _ (by rw [hsplit, append_assoc, singleton_append])
    rw [hrun, ← append_assoc, run_append] at hnext
    exact hnext
  · intro hfits before after hsplit
    rw [hrun]
    refine current_of_ranked _ _ (ranked_run _ fun first op rest hsplit' => ?_)
    rcases append_eq_append_iff.mp hsplit' with ⟨l, hfirst, hbefore⟩ | ⟨l, hstart, hrest⟩
    · -- A call of the run itself.
      have hop := hfits l op _ (by rw [hsplit, hbefore, append_assoc, cons_append])
      rw [hrun, ← hfirst] at hop
      exact hop
    · cases l with
      | nil =>
        rw [append_nil] at hstart
        rw [nil_append] at hrest
        have hop := hfits [] op _ (by rw [hsplit, ← hrest, nil_append, cons_append])
        rw [hrun, append_nil, hstart] at hop
        exact hop
      | cons op' l =>
        rcases cons.inj hrest with ⟨rfl, -⟩
        exact fitting_switchedOn p _ op l hstart

/-! ### Overwriting a `null` version -/

def emptyStore : PlainStore Nat := ⟨Dict.empty, fun _ he => absurd he List.not_mem_nil⟩

/-- The calls of a bucket that is suspended, enabled and suspended again, with
    an object put in each period. -/
def overwrittenNull : List (Op Nat) :=
  [.set "k" (some "null") (some 1), .set "k" (some "v1") (some 2), .set "k" (some "null") (some 3)]

/-- The object put last is not the one `get` returns. -/
theorem current_overwritten_null :
    ¬ ∀ before after, overwrittenNull = before ++ after →
      Current (switchedOn emptyStore.store ++ before)
        (before.foldl Op.apply (fromKeyStore emptyStore.store)) := by
  intro h
  rcases (h overwrittenNull [] rfl).latest "k" _ rfl with ⟨v, hv, hrecent, -⟩
  have hget : VersionedKeyStore.get (overwrittenNull.foldl Op.apply
      (fromKeyStore emptyStore.store)) "k" none =
      some { key := "k", versionId := some "v1", isCurrent := false, object := some 2 } := by
    decide +kernel
  rw [hget, some.injEq] at hv
  rw [← hv] at hrecent
  revert hrecent
  decide +kernel

end LocalEmu.S3
