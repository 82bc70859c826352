import LocalEmu.Base.Run
import LocalEmu.Core.CloudFront.Cache

/-!
# A Bounded Cache

A shard is a bounded cache. Its bytes are those of its entries, and never more than the
cap. Its entries stand in the order of their last use, so what an eviction leaves is what
was used since, as far as that fits under the cap. And an entry is there as long as it was
put last under its key, and has not been lost since: it was not found stale, not evicted,
not purged and not cleared.

What a purge removes is what the patterns stand for only if they have no brackets that are
closed, for those are a class of characters to the code.
-/

namespace LocalEmu.CloudFront

open List Option

variable {κ : Type} [DecidableEq κ]

/-- What is done with a shard. -/
inductive Op (κ : Type)
  | get (key : κ) (now : Int)
  | put (key : κ) (entry : CacheEntry)
  | purge (pathPatterns : List Text)
  | clear

variable (key : κ)

/-- An operation reads or writes the entry of a key. -/
def Op.Uses : Op κ → Prop
  | get key' _ => key' = key
  | put key' _ => key' = key
  | _ => False

def Op.Puts : Op κ → Prop
  | put key' _ => key' = key
  | _ => False

variable (shard : Shard κ)

/-- An operation is done. -/
def Shard.perform : Op κ → Shard κ
  | .get key now => (shard.get key now).2
  | .put key entry => shard.put key entry
  | .purge pathPatterns => (shard.purge pathPatterns).2
  | .clear => shard.clear

def Shard.Performs (op : Op κ) (shard' : Shard κ) : Prop :=
  shard' = shard.perform op

variable (entries : List (κ × CacheEntry))

def totalBytes : Nat :=
  (entries.map fun e => e.2.sizeBytes).sum

/-- The entries from that of a key on: those that were used since. -/
def since : List (κ × CacheEntry) :=
  entries.dropWhile fun e => decide (e.1 ≠ key)

variable (pathPatterns : List Text)

/-- A path matches one of the patterns. A star is any text, a question mark any character, and
    the leading slash may be left out. -/
def Invalidates (path : Text) : Prop :=
  ∃ pattern ∈ pathPatterns,
    Glob.Matches (Glob.wildcards Glob.anyChar Glob.anyChar (Shard.normalizePattern pattern)) path

instance (pathPatterns : List Text) (path : Text) : Decidable (Invalidates pathPatterns path) :=
  inferInstanceAs (Decidable (∃ pattern ∈ pathPatterns, _))

/-- An operation loses the entry of a key: it is stale, what was used since does not fit with
    it, it is invalidated, or all entries are dropped. -/
def Lost : Op κ → Prop
  | .get key' now => key' = key ∧ ∃ entry ∈ shard.entries.get? key, entry.expiresAt ≤ now
  | .put key' entry =>
    shard.byteCap < totalBytes (since key ((shard.entries.erase key').set key' entry).entries)
  | .purge pathPatterns =>
    ∃ entry ∈ shard.entries.get? key, Invalidates pathPatterns entry.uriPath
  | .clear => True

/-- An entry was the last one put under a key, and nothing since has lost it. -/
def Stored (start : Shard κ) (ops : List (Op κ)) (key : κ) (entry : CacheEntry) : Prop :=
  ∃ before after shard, ops = before ++ .put key entry :: after ∧
    Runs Shard.Performs start before shard ∧ (∀ op ∈ after, ¬op.Puts key) ∧
    Along Shard.Performs (fun s op => ¬Lost key s op) shard (.put key entry :: after)

/-- A key was used after the last use of another one. -/
def UsedAfter (ops : List (Op κ)) (key key' : κ) : Prop :=
  ∃ before op after, ops = before ++ op :: after ∧ op.Uses key' ∧
    ∀ o ∈ op :: after, ¬o.Uses key

/-- The patterns have no brackets that are closed. -/
def Plain : Prop := ∀ pattern ∈ pathPatterns, Glob.hasSet pattern = false

instance (pathPatterns : List Text) : Decidable (Plain pathPatterns) :=
  inferInstanceAs (Decidable (∀ pattern ∈ pathPatterns, _))

/-! ### Eviction -/

omit [DecidableEq κ] in
theorem totalBytes_cons (e : κ × CacheEntry) (entries : List (κ × CacheEntry)) :
    totalBytes (e :: entries) = e.2.sizeBytes + totalBytes entries := by
  rw [totalBytes, map_cons, sum_cons, totalBytes]

omit [DecidableEq κ] in
theorem totalBytes_append (entries entries' : List (κ × CacheEntry)) :
    totalBytes (entries ++ entries') = totalBytes entries + totalBytes entries' := by
  rw [totalBytes, map_append, sum_append, totalBytes, totalBytes]

omit [DecidableEq κ] in
theorem totalBytes_le_of_suffix {entries entries' : List (κ × CacheEntry)}
    (h : entries <:+ entries') :
    totalBytes entries ≤ totalBytes entries' := by
  rcases h with ⟨evicted, rfl⟩
  rw [totalBytes_append]
  exact Nat.le_add_left _ _

omit [DecidableEq κ] in
theorem evictOverBudget_spec (byteCap : Nat) (entries : List (κ × CacheEntry)) (evictions : Nat) :
    let kept := Shard.evictOverBudget byteCap entries (totalBytes entries) evictions
    kept.1 <:+ entries ∧ kept.2.1 = totalBytes kept.1 ∧ kept.2.1 ≤ byteCap := by
  induction entries generalizing evictions with
  | nil => exact ⟨suffix_refl _, rfl, Int.natCast_nonneg _⟩
  | cons e entries ih =>
    unfold Shard.evictOverBudget
    by_cases hover : (byteCap : Int) < totalBytes (e :: entries)
    · rw [if_pos hover]
      have hrest : (totalBytes (e :: entries) : Int) - e.2.sizeBytes = totalBytes entries := by
        rw [totalBytes_cons]
        omega
      rw [hrest]
      rcases ih (evictions + 1) with ⟨hsuffix, hbytes, hcap⟩
      exact ⟨hsuffix.trans (suffix_cons e entries), hbytes, hcap⟩
    · rw [if_neg hover]
      exact ⟨suffix_refl _, rfl, not_lt.mp hover⟩

theorem since_suffix (key : κ) (entries : List (κ × CacheEntry)) : since key entries <:+ entries :=
  dropWhile_suffix _

/-- What an eviction leaves. -/
theorem lookup_evictOverBudget (byteCap : Nat) (entries : List (κ × CacheEntry)) (evictions : Nat)
    (hnodup : (entries.map Prod.fst).Nodup) (key : κ) :
    (Shard.evictOverBudget byteCap entries (totalBytes entries) evictions).1.lookup key =
      if byteCap < totalBytes (since key entries) then none else entries.lookup key := by
  induction entries generalizing evictions with
  | nil => simp [Shard.evictOverBudget, since, totalBytes]
  | cons e entries ih =>
    rw [map_cons, nodup_cons] at hnodup
    unfold Shard.evictOverBudget
    by_cases hover : (byteCap : Int) < totalBytes (e :: entries)
    · have hrest : (totalBytes (e :: entries) : Int) - e.2.sizeBytes = totalBytes entries := by
        rw [totalBytes_cons]
        omega
      rw [if_pos hover, hrest, ih _ hnodup.2]
      by_cases hkey : e.1 = key
      · have hsince : since key (e :: entries) = e :: entries := by
          rw [since, dropWhile_cons_of_neg (by simpa using hkey)]
        have hover' : byteCap < totalBytes (e :: entries) := by omega
        rw [hsince, if_pos hover', ← hkey, (Dict.lookup_eq_none_iff _ _).mpr hnodup.1, ite_self]
      · have hsince : since key (e :: entries) = since key entries := by
          rw [since, dropWhile_cons_of_pos (by simpa using hkey), since]
        have hbeq : (key == e.1) = false := beq_false_of_ne (Ne.symm hkey)
        rw [hsince, lookup_cons, hbeq]
    · have hle := totalBytes_le_of_suffix (since_suffix key (e :: entries))
      rw [if_neg hover, if_neg (by omega)]

/-! ### Operations -/

theorem keys_erase_set (d : Dict κ CacheEntry) (key : κ) (entry : CacheEntry) :
    ((d.erase key).set key entry).entries = (d.erase key).entries ++ [(key, entry)] := by
  refine Dict.entries_set_new _ _ _ fun h => ?_
  rw [Dict.keys_erase] at h
  simp at h

theorem get?_erase_set (d : Dict κ CacheEntry) (key : κ) (entry : CacheEntry) (key' : κ) :
    ((d.erase key).set key entry).get? key' = if key' = key then some entry else d.get? key' := by
  rw [Dict.get?_set, Dict.get?_erase]
  by_cases h : key' = key
  · rw [if_pos h, if_pos h]
  · rw [if_neg h, if_neg h, if_neg h]

omit [DecidableEq κ] in
theorem totalBytes_perm {entries entries' : List (κ × CacheEntry)} (h : entries.Perm entries') :
    totalBytes entries = totalBytes entries' := (h.map _).sum_eq

theorem totalBytes_erase (d : Dict κ CacheEntry) (key : κ) :
    totalBytes d.entries =
      ((d.get? key).elim 0 CacheEntry.sizeBytes) + totalBytes (d.erase key).entries := by
  cases h : d.get? key with
  | none => rw [d.erase_of_get?_none key h, elim_none, Nat.zero_add]
  | some entry =>
    rw [totalBytes_perm (d.perm_cons_erase key entry h), totalBytes_cons, elim_some]

theorem totalBytes_erase_set (d : Dict κ CacheEntry) (key : κ) (entry : CacheEntry) :
    totalBytes ((d.erase key).set key entry).entries =
      totalBytes (d.erase key).entries + entry.sizeBytes := by
  rw [keys_erase_set, totalBytes_append]
  rfl

/-- The bytes are those of the entries, and no more than the cap. -/
structure Shard.Accounted (shard : Shard κ) : Prop where
  bytes : shard.bytesUsed = totalBytes shard.entries.entries
  bounded : shard.bytesUsed ≤ shard.byteCap

theorem entries_put {shard : Shard κ} (h : shard.Accounted) (key : κ) (entry : CacheEntry) :
    let stored := ((shard.entries.erase key).set key entry).entries
    let kept := Shard.evictOverBudget shard.byteCap stored (totalBytes stored) shard.evictions
    (shard.put key entry).entries.entries = kept.1 ∧
      (shard.put key entry).bytesUsed = kept.2.1 := by
  intro stored kept
  have hnodup := ((shard.entries.erase key).set key entry).nodup
  have hbytes : shard.released key + (entry.sizeBytes : Int) = totalBytes stored := by
    have herase := totalBytes_erase shard.entries key
    have hset : totalBytes stored = _ := totalBytes_erase_set _ _ _
    have hused := h.bytes
    rw [Shard.released]
    cases hget : shard.entries.get? key with
    | none =>
      rw [hget, elim_none] at herase
      dsimp only
      omega
    | some =>
      rw [hget, elim_some] at herase
      dsimp only
      omega
  have hsuffix := (evictOverBudget_spec shard.byteCap stored shard.evictions).1
  refine ⟨?_, by rw [Shard.put, hbytes]⟩
  rw [Shard.put, hbytes]
  exact Dict.entries_ofEntries _ (hnodup.sublist (hsuffix.sublist.map Prod.fst))

theorem entries_purge (shard : Shard κ) (pathPatterns : List Text) :
    (shard.purge pathPatterns).2.entries.entries =
      shard.entries.entries.filter fun e => !Shard.isPurged pathPatterns e.2 := by
  unfold Shard.purge
  by_cases h : pathPatterns = []
  · subst h
    exact (filter_eq_self.mpr fun _ _ => rfl).symm
  · rw [if_neg h]
    exact Dict.entries_foldl_erase _ _

omit [DecidableEq κ] in
theorem totalBytes_filter (entries : List (κ × CacheEntry)) (p : κ × CacheEntry → Bool) :
    totalBytes entries =
      totalBytes (entries.filter p) + totalBytes (entries.filter fun e => !p e) := by
  induction entries with
  | nil => rfl
  | cons e =>
    rw [totalBytes_cons]
    by_cases h : p e = true
    · rw [filter_cons_of_pos h, filter_cons_of_neg (by simpa using h), totalBytes_cons]
      omega
    · rw [filter_cons_of_neg h, filter_cons_of_pos (by simpa using h), totalBytes_cons]
      omega

omit [DecidableEq κ] in
theorem foldl_bytes (entries : List (κ × CacheEntry)) (bytes : Int) :
    entries.foldl (fun bytes e => bytes - (e.2.sizeBytes : Int)) bytes =
      bytes - totalBytes entries := by
  induction entries generalizing bytes with
  | nil => exact (Int.sub_zero bytes).symm
  | cons e entries ih =>
    rw [foldl_cons, ih, totalBytes_cons]
    omega

theorem byteCap_perform (shard : Shard κ) (op : Op κ) :
    (shard.perform op).byteCap = shard.byteCap := by
  cases op with
  | get =>
    simp only [Shard.perform, Shard.get]
    split
    · rfl
    · split <;> rfl
  | put | clear => rfl
  | purge =>
    simp only [Shard.perform, Shard.purge]
    split <;> rfl

theorem accounted_perform {shard : Shard κ} (h : shard.Accounted) (op : Op κ) :
    (shard.perform op).Accounted := by
  cases op with
  | get key now =>
    simp only [Shard.perform, Shard.get]
    have herase := totalBytes_erase shard.entries key
    have hbytes := h.bytes
    have hbounded := h.bounded
    cases hget : shard.entries.get? key with
    | none => exact ⟨h.bytes, h.bounded⟩
    | some entry =>
      rw [hget, elim_some] at herase
      dsimp only
      by_cases hstale : entry.expiresAt ≤ now
      · rw [if_pos hstale]
        constructor
        · dsimp only
          omega
        · dsimp only
          omega
      · rw [if_neg hstale]
        refine ⟨?_, h.bounded⟩
        dsimp only
        rw [totalBytes_erase_set]
        omega
  | put key entry =>
    rcases entries_put h _ _ with ⟨hentries, hused⟩
    rcases evictOverBudget_spec _ ((shard.entries.erase key).set key entry).entries
      _ with ⟨-, hbytes, hcap⟩
    refine ⟨?_, ?_⟩
    · rw [Shard.perform, hentries, hused, hbytes]
    · rw [Shard.perform, hused]
      exact hcap
  | purge pathPatterns =>
    have hentries := entries_purge shard pathPatterns
    have hfilter := totalBytes_filter shard.entries.entries fun e =>
      Shard.isPurged pathPatterns e.2
    have hbytes := h.bytes
    have hbounded := h.bounded
    have hused : (shard.purge pathPatterns).2.bytesUsed = shard.bytesUsed -
        totalBytes (shard.entries.entries.filter fun e => Shard.isPurged pathPatterns e.2) := by
      unfold Shard.purge
      by_cases hnil : pathPatterns = []
      · subst hnil
        rw [filter_eq_nil_iff.mpr fun _ _ => by simp [Shard.isPurged]]
        exact (Int.sub_zero _).symm
      · rw [if_neg hnil]
        exact foldl_bytes _ _
    have hcap : (shard.purge pathPatterns).2.byteCap = shard.byteCap :=
      byteCap_perform _ (.purge pathPatterns)
    refine ⟨?_, ?_⟩
    · rw [Shard.perform, hentries]
      omega
    · rw [Shard.perform, hused]
      omega
  | clear => exact ⟨rfl, Int.natCast_nonneg _⟩

theorem isPurged_iff {pathPatterns : List Text} (h : Plain pathPatterns) (entry : CacheEntry) :
    Shard.isPurged pathPatterns entry = true ↔ Invalidates pathPatterns entry.uriPath := by
  have hset (pattern : Text) (hpattern : pattern ∈ pathPatterns) :
      Glob.hasSet (Shard.normalizePattern pattern) = false := by
    rw [Shard.normalizePattern]
    split
    · exact h _ hpattern
    · exact h pattern hpattern
  unfold Shard.isPurged Invalidates
  rw [List.any_map, List.any_eq_true]
  refine exists_congr fun pattern => and_congr_right fun hpattern => ?_
  rw [Function.comp_apply, Glob.fnmatch_eq_glob _ _ (hset _ hpattern), Glob.glob_iff]

/-- What an operation does to the entry of a key: a write puts it there, and otherwise it stays,
    if it is not lost. -/
theorem get?_perform {shard : Shard κ} (h : shard.Accounted) (op : Op κ)
    (hplain : ∀ pathPatterns, op = .purge pathPatterns → Plain pathPatterns) (key : κ)
    (entry : CacheEntry) :
    (shard.perform op).entries.get? key = some entry ↔ ¬Lost key shard op ∧
      (op = .put key entry ∨ ¬op.Puts key ∧ shard.entries.get? key = some entry) := by
  cases op with
  | get key' now =>
    simp only [Shard.perform, Shard.get, Lost, Op.Puts, reduceCtorEq, false_or, not_false_eq_true,
      true_and]
    cases hget : shard.entries.get? key' with
    | none =>
      refine (and_iff_right_of_imp fun hentry hlost => ?_).symm
      rw [← hlost.1, hget] at hentry
      cases hentry
    | some found =>
      dsimp only
      by_cases hkey : key' = key
      · subst hkey
        rw [hget]
        by_cases hstale : found.expiresAt ≤ now
        · rw [if_pos hstale, Dict.get?_erase, if_pos rfl]
          exact iff_of_false (by simp) fun hnot => hnot.1 ⟨rfl, found, rfl, hstale⟩
        · rw [if_neg hstale, get?_erase_set, if_pos rfl]
          refine (and_iff_right_of_imp fun hentry hlost => ?_).symm
          rcases hlost with ⟨-, stale, hsame, hexpired⟩
          rw [← some.inj hsame] at hexpired
          exact hstale hexpired
      · have hother : ¬(key' = key ∧ ∃ entry ∈ shard.entries.get? key, entry.expiresAt ≤ now) :=
          fun hboth => hkey hboth.1
        rw [and_iff_right hother]
        by_cases hstale : found.expiresAt ≤ now
        · rw [if_pos hstale, Dict.get?_erase, if_neg (Ne.symm hkey)]
        · rw [if_neg hstale, get?_erase_set, if_neg (Ne.symm hkey)]
  | put key' new =>
    have hentries := (entries_put h key' new).1
    have hnodup := ((shard.entries.erase key').set key' new).nodup
    rw [Shard.perform, Dict.get?, hentries, lookup_evictOverBudget _ _ _ hnodup, Lost]
    by_cases hlost : shard.byteCap <
        totalBytes (since key ((shard.entries.erase key').set key' new).entries)
    · rw [if_pos hlost]
      exact iff_of_false (by simp) fun hnot => hnot.1 hlost
    · rw [if_neg hlost, and_iff_right hlost]
      have hget := get?_erase_set shard.entries key' new key
      rw [Dict.get?] at hget
      rw [hget]
      by_cases hkey : key = key'
      · subst hkey
        simp [Op.Puts]
      · rw [if_neg hkey]
        simp [Op.Puts, Ne.symm hkey]
  | purge pathPatterns =>
    have hplain := hplain _ rfl
    have hget : (shard.purge pathPatterns).2.entries.get? key = some entry ↔
        shard.entries.get? key = some entry ∧ ¬Invalidates pathPatterns entry.uriPath := by
      rw [Dict.get?_eq_some_iff, entries_purge, mem_filter, Dict.get?_eq_some_iff,
        ← isPurged_iff hplain, Bool.not_eq_true', Bool.not_eq_true]
    rw [Shard.perform, hget]
    simp only [Lost, Op.Puts, reduceCtorEq, false_or, not_false_eq_true, true_and]
    constructor
    · intro hboth
      refine ⟨fun hlost => ?_, hboth.1⟩
      rcases hlost with ⟨found, hfound, hinvalid⟩
      rw [hboth.1] at hfound
      rw [← some.inj hfound] at hinvalid
      exact hboth.2 hinvalid
    · exact fun hboth => ⟨hboth.2, fun hinvalid => hboth.1 ⟨entry, hboth.2, hinvalid⟩⟩
  | clear =>
    exact iff_of_false (by simp [Shard.perform, Shard.clear, Dict.get?_empty])
      fun hnot => hnot.1 trivial

/-! ### What is there -/

variable {ops : List (Op κ)}

theorem stored_concat_iff {start shard : Shard κ} (op : Op κ)
    (hrun : Runs Shard.Performs start ops shard) (key : κ) (entry : CacheEntry) :
    Stored start (ops ++ [op]) key entry ↔ ¬Lost key shard op ∧
      (op = .put key entry ∨ ¬op.Puts key ∧ Stored start ops key entry) := by
  have hdet : ∀ (s : Shard κ) (o : Op κ) (t t' : Shard κ), Shard.Performs s o t →
      Shard.Performs s o t' → t = t' := fun _ _ _ _ h h' => h.trans h'.symm
  constructor
  · intro h
    rcases h with ⟨before, after, t, hops, hbefore, hnot, halong⟩
    rcases eq_nil_or_concat after with rfl | ⟨after, last, rfl⟩
    · rcases append_inj' hops rfl with ⟨rfl, hop⟩
      rcases cons.inj hop with ⟨rfl, -⟩
      rw [Runs.unique_of hdet hbefore hrun] at halong
      exact ⟨Runs.along_head halong, .inl rfl⟩
    · rw [concat_eq_append, ← cons_append, ← append_assoc] at hops
      rcases append_inj' hops rfl with ⟨rfl, hop⟩
      rcases cons.inj hop with ⟨rfl, -⟩
      rw [concat_eq_append, ← cons_append, Runs.along_concat_iff] at halong
      rcases Runs.split _ _ hrun with ⟨t', hbefore', hafter⟩
      rw [Runs.unique_of hdet hbefore' hbefore] at hafter
      refine ⟨halong.2 _ hafter, .inr ⟨hnot op ?_, before, after, t, rfl, hbefore, ?_, halong.1⟩⟩
      · rw [concat_eq_append]
        exact mem_append.mpr (.inr mem_cons_self)
      · intro o ho
        refine hnot o ?_
        rw [concat_eq_append]
        exact mem_append.mpr (.inl ho)
  · intro h
    rcases h with ⟨hlost, rfl | ⟨hputs, before, after, t, rfl, hbefore, hnot, halong⟩⟩
    · refine ⟨ops, [], shard, rfl, hrun, fun o ho => absurd ho not_mem_nil, ?_⟩
      refine Runs.along_cons_iff.mpr ⟨hlost, fun t _ => ?_⟩
      intro before i after u hnil
      exact absurd hnil (by simp)
    · refine ⟨before, after ++ [op], t, ?_, hbefore, ?_, ?_⟩
      · rw [append_assoc, cons_append]
      · intro o ho
        rcases mem_append.mp ho with ho | ho
        · exact hnot o ho
        · rw [mem_singleton.mp ho]
          exact hputs
      · rw [← cons_append]
        refine Runs.along_concat_iff.mpr ⟨halong, fun u hu => ?_⟩
        rw [Runs.unique_of hdet (hbefore.append hu) hrun]
        exact hlost

omit [DecidableEq κ] in
theorem Shard.accounted_new (byteCap : Nat) : (Shard.new byteCap : Shard κ).Accounted :=
  ⟨rfl, Int.natCast_nonneg _⟩

theorem accounted_of_runs {byteCap : Nat} {shard : Shard κ}
    (hrun : Runs Shard.Performs (.new byteCap) ops shard) : shard.Accounted := by
  refine Runs.invariant (P := Shard.Accounted) (fun s op t hs hstep => ?_) hrun
    (Shard.accounted_new _)
  rw [show t = s.perform op from hstep]
  exact accounted_perform hs op

/-- What is in a shard, and in what order. -/
theorem get?_iff_stored {byteCap : Nat} {shard : Shard κ}
    (hrun : Runs Shard.Performs (.new byteCap) ops shard)
    (hplain : ∀ pathPatterns, .purge pathPatterns ∈ ops → Plain pathPatterns) (key : κ)
    (entry : CacheEntry) :
    shard.entries.get? key = some entry ↔ Stored (.new byteCap) ops key entry := by
  induction ops using reverseRecOn generalizing shard with
  | nil =>
    cases hrun
    refine ⟨nofun, fun h => ?_⟩
    rcases h with ⟨before, after, _, hops, _⟩
    exact absurd hops (by simp)
  | append_singleton ops op ih =>
    rcases Runs.split _ [op] hrun with ⟨s, hbefore, hlast⟩
    have hshard : shard = s.perform op := by
      cases hlast with
      | cons _ t _ _ _ hstep hnil =>
        cases hnil
        exact hstep
    have hplain' : ∀ pathPatterns, .purge pathPatterns ∈ ops → Plain pathPatterns :=
      fun patterns h => hplain _ (mem_append.mpr (.inl h))
    rw [hshard, get?_perform (accounted_of_runs hbefore) op (fun patterns h => ?_),
      ih hbefore hplain', stored_concat_iff op hbefore]
    exact hplain _ (mem_append.mpr (.inr (h ▸ mem_cons_self)))

/-! ### The order -/

omit [DecidableEq κ] in
theorem UsedAfter.concat {op : Op κ} {key key' : κ}
    (h : UsedAfter ops key key') (hkey : ¬op.Uses key) : UsedAfter (ops ++ [op]) key key' := by
  rcases h with ⟨before, o, after, rfl, huses, hnot⟩
  refine ⟨before, o, after ++ [op], by rw [append_assoc, cons_append], huses, ?_⟩
  intro p hp
  rw [← cons_append] at hp
  rcases mem_append.mp hp with hp | hp
  · exact hnot p hp
  · rw [mem_singleton.mp hp]
    exact hkey

omit [DecidableEq κ] in
theorem usedAfter_last {op : Op κ} {key key' : κ} (hkey' : op.Uses key')
    (hkey : ¬op.Uses key) : UsedAfter (ops ++ [op]) key key' := by
  refine ⟨ops, op, [], rfl, hkey', fun o ho => ?_⟩
  rw [mem_singleton.mp ho]
  exact hkey

theorem pairwise_move {op : Op κ} {key : κ} (d : Dict κ CacheEntry)
    (entry : CacheEntry) (hop : ∀ key', op.Uses key' ↔ key = key')
    (h : d.keys.Pairwise (UsedAfter ops)) :
    ((d.erase key).set key entry).keys.Pairwise (UsedAfter (ops ++ [op])) := by
  have hkeys : ((d.erase key).set key entry).keys = (d.keys.filter fun k => decide (k ≠ key)) ++
      [key] := by
    rw [Dict.keys, keys_erase_set, map_append, ← Dict.keys_erase]
    rfl
  have hne : ∀ k ∈ d.keys.filter (fun k => decide (k ≠ key)), ¬op.Uses k := by
    intro k hk huses
    exact of_decide_eq_true (mem_filter.mp hk).2 ((hop k).mp huses).symm
  rw [hkeys, pairwise_append]
  refine ⟨?_, pairwise_singleton _ _, fun k hk k' hk' => ?_⟩
  · refine (h.sublist filter_sublist).imp_of_mem fun hk _ hused => ?_
    exact hused.concat (hne _ hk)
  · rw [mem_singleton.mp hk']
    exact usedAfter_last ((hop _).mpr rfl) (hne k hk)

/-- The keys are in the order of their last use. -/
theorem usedAfter_keys {byteCap : Nat} {shard : Shard κ}
    (hrun : Runs Shard.Performs (.new byteCap) ops shard) :
    shard.entries.keys.Pairwise (UsedAfter ops) := by
  refine Runs.history (P := fun ops s => s.Accounted ∧ s.entries.keys.Pairwise (UsedAfter ops)) ?_
    hrun [] ⟨Shard.accounted_new _, List.Pairwise.nil⟩ |>.2
  intro ops s op t hs hstep
  rcases hs with ⟨haccounted, hkeys⟩
  rw [show t = s.perform op from hstep]
  refine ⟨accounted_perform haccounted op, ?_⟩
  -- A sublist of keys that the operation does not use keeps its order.
  have hrest (keys : List κ) (hsub : keys.Sublist s.entries.keys)
      (hnot : ∀ key ∈ keys, ¬op.Uses key) : keys.Pairwise (UsedAfter (ops ++ [op])) := by
    refine (hkeys.sublist hsub).imp_of_mem fun hk _ hused => ?_
    exact hused.concat (hnot _ hk)
  cases op with
  | get key =>
    simp only [Shard.perform, Shard.get]
    cases hget : s.entries.get? key with
    | none =>
      refine hrest _ (List.Sublist.refl _) fun key' hkey' huses => ?_
      exact (Dict.get?_eq_none_iff _ _).mp hget (huses ▸ hkey')
    | some =>
      dsimp only
      split
      · rw [Dict.keys_erase]
        refine hrest _ filter_sublist fun key' hkey' huses => ?_
        exact of_decide_eq_true (mem_filter.mp hkey').2 huses.symm
      · exact pairwise_move _ _ (fun _ => Iff.rfl) hkeys
  | put key entry =>
    have huses : ∀ key', (Op.put key entry).Uses key' ↔ key = key' := fun _ => Iff.rfl
    have hmoved := pairwise_move _ entry huses hkeys
    have hsuffix := (evictOverBudget_spec s.byteCap
      ((s.entries.erase key).set key entry).entries s.evictions).1
    rw [Shard.perform, Dict.keys, (entries_put haccounted _ _).1]
    exact hmoved.sublist (hsuffix.sublist.map _)
  | purge =>
    rw [Shard.perform, Dict.keys, entries_purge]
    exact hrest _ (filter_sublist.map _) fun _ _ => not_false
  | clear => exact List.Pairwise.nil

/-! ### A bounded cache -/

theorem get_eq_some_iff (shard : Shard κ) (key : κ) (now : Int) (entry : CacheEntry) :
    (shard.get key now).1 = some entry ↔
      shard.entries.get? key = some entry ∧ now < entry.expiresAt := by
  unfold Shard.get
  cases hget : shard.entries.get? key with
  | none => exact ⟨nofun, fun h => nomatch h.1⟩
  | some found =>
    dsimp only
    by_cases hstale : found.expiresAt ≤ now
    · rw [if_pos hstale]
      refine ⟨nofun, fun h => ?_⟩
      rw [← some.inj h.1] at h
      exact absurd hstale (not_le.mpr h.2)
    · rw [if_neg hstale]
      refine (and_iff_left_of_imp fun h => ?_).symm
      rw [← some.inj h]
      exact not_le.mp hstale

/-- After any operations, the bytes of a shard are those of its entries and no more than the cap,
    and its entries are in the order of their last use. If the patterns of the invalidations have no
    closed brackets, a read returns what was put last under its key and is not lost since, unless it
    is stale, and a further purge with such patterns removes what they match. -/
theorem shard_bounded_lru (byteCap : Nat) (ops : List (Op κ)) (shard : Shard κ)
    (hrun : Runs Shard.Performs (.new byteCap) ops shard) :
    shard.bytesUsed = totalBytes shard.entries.entries ∧ shard.bytesUsed ≤ byteCap ∧
    shard.entries.keys.Pairwise (UsedAfter ops) ∧
    ((∀ pathPatterns, .purge pathPatterns ∈ ops → Plain pathPatterns) →
      ∀ key now entry, (shard.get key now).1 = some entry ↔
        Stored (.new byteCap) ops key entry ∧ now < entry.expiresAt) ∧
    ∀ pathPatterns, Plain pathPatterns →
      (shard.purge pathPatterns).2.entries.entries = shard.entries.entries.filter fun e =>
        decide ¬Invalidates pathPatterns e.2.uriPath := by
  have haccounted := accounted_of_runs hrun
  have hcap : shard.byteCap = byteCap := by
    refine Runs.invariant (P := fun s : Shard κ => s.byteCap = byteCap) (fun s op t hs hstep => ?_)
      hrun rfl
    rw [show t = s.perform op from hstep, byteCap_perform, hs]
  refine ⟨haccounted.bytes, hcap ▸ haccounted.bounded, usedAfter_keys hrun, ?_, ?_⟩
  · intro hplain key now entry
    rw [get_eq_some_iff, get?_iff_stored hrun hplain]
  · intro pathPatterns hplain
    rw [entries_purge]
    refine filter_congr fun e _ => ?_
    by_cases hpurged : Shard.isPurged pathPatterns e.2 = true
    · rw [hpurged, decide_eq_false (not_not.mpr ((isPurged_iff hplain e.2).mp hpurged))]
      rfl
    · rw [Bool.eq_false_iff.mpr hpurged, decide_eq_true (mt (isPurged_iff hplain e.2).mpr hpurged)]
      rfl

def exampleEntry (path : String) (size : Nat) : CacheEntry :=
  ⟨List.replicate size 0, .empty, 200, 100, path.toList⟩

def exampleOps : List (Op Nat) :=
  [.put 1 (exampleEntry "/a" 4), .put 2 (exampleEntry "/b" 4), .get 1 0,
    .put 3 (exampleEntry "/c" 4), .purge ["c?".toList]]

def exampleShard : Shard Nat := exampleOps.foldl Shard.perform (.new 10)

theorem runs_exampleOps : Runs Shard.Performs (.new 10) exampleOps exampleShard :=
  .cons _ _ _ _ _ rfl (.cons _ _ _ _ _ rfl (.cons _ _ _ _ _ rfl (.cons _ _ _ _ _ rfl
    (.cons _ _ _ _ _ rfl (.nil _)))))

theorem shard_bounded_lru_of_exampleOps :
    exampleShard.entries.keys = [1, 3] ∧ exampleShard.bytesUsed ≤ (10 : Nat) ∧
      Stored (.new 10) exampleOps 1 (exampleEntry "/a" 4) ∧
      (exampleShard.purge ["*c".toList]).2.entries.keys = [1] := by
  rcases shard_bounded_lru 10 _ _ runs_exampleOps with ⟨_, hcap, _, hget, hpurge⟩
  refine ⟨by decide, hcap, ?_, ?_⟩
  · have hplain : ∀ pathPatterns, .purge pathPatterns ∈ exampleOps → Plain pathPatterns := by
      intro pathPatterns h
      have hsame : pathPatterns = ["c?".toList] := by simpa [exampleOps] using h
      rw [hsame]
      decide
    exact ((hget hplain 1 0 _).mp rfl).1
  · have hentries := hpurge ["*c".toList] (by decide)
    decide

/-- An invalidation of a path with brackets leaves it, and removes another one. -/
theorem purge_brackets_of_exampleEntry :
    let shard : Shard Nat := [.put 1 (exampleEntry "/a[b]" 4), .put 2 (exampleEntry "/ab" 4)].foldl
      Shard.perform (.new 10)
    Invalidates ["/a[b]".toList] "/a[b]".toList ∧ ¬Invalidates ["/a[b]".toList] "/ab".toList ∧
      shard.entries.keys = [1, 2] ∧
      (shard.purge ["/a[b]".toList]).2.entries.keys = [1] := by
  decide

/-! ### Distributions -/

namespace DistributionCache

/-- A call for a distribution. -/
inductive Call (κ : Type)
  | get (key : κ) (now : Int)
  | put (key : κ) (entry : CacheEntry)
  | purge (pathPatterns : List Text)
  | drop

/-- A call, with the entry or the number that it returns. -/
def perform (cache : DistributionCache κ) (distributionId : Text) :
    Call κ → Option (CacheEntry ⊕ Nat) × DistributionCache κ
  | .get key now =>
    let read := cache.get distributionId key now
    (read.1.map .inl, read.2)
  | .put key entry => (none, cache.put distributionId key entry)
  | .purge pathPatterns =>
    let purged := cache.purge distributionId pathPatterns
    (some (.inr purged.1), purged.2)
  | .drop => (none, cache.dropDistribution distributionId)

/-- What some calls return, for each with its distribution. -/
def replies (cache : DistributionCache κ) :
    List (Text × Call κ) → List (Text × Option (CacheEntry ⊕ Nat))
  | [] => []
  | call :: calls =>
    let done := cache.perform call.1 call.2
    (call.1, done.1) :: replies done.2 calls

variable (distributionId : Text)

def Alike (cache cache' : DistributionCache κ) : Prop :=
  cache.shards.get? distributionId = cache'.shards.get? distributionId ∧
    cache.byteCap = cache'.byteCap

variable {distributionId} {cache cache' : DistributionCache κ}

theorem byteCap_perform (call : Call κ) :
    (cache.perform distributionId call).2.byteCap = cache.byteCap := by
  cases call with
  | get => simp only [perform, get]; split <;> rfl
  | put => rfl
  | purge => simp only [perform, purge]; split <;> rfl
  | drop => rfl

theorem Alike.perform_other (h : Alike distributionId cache cache') {other : Text}
    (hne : distributionId ≠ other) (call : Call κ) :
    Alike distributionId (cache.perform other call).2 cache' := by
  refine ⟨h.1 ▸ ?_, (byteCap_perform call).trans h.2⟩
  cases call with
  | get key now =>
    simp only [perform, get]
    split
    · rfl
    · exact (Dict.get?_set ..).trans (if_neg hne)
  | put key entry => exact (Dict.get?_set ..).trans (if_neg hne)
  | purge pathPatterns =>
    simp only [perform, purge]
    split
    · rfl
    · exact (Dict.get?_set ..).trans (if_neg hne)
  | drop => exact (Dict.get?_erase ..).trans (if_neg hne)

theorem Alike.perform_same (h : Alike distributionId cache cache') (call : Call κ) :
    (cache.perform distributionId call).1 = (cache'.perform distributionId call).1 ∧
      Alike distributionId (cache.perform distributionId call).2
        (cache'.perform distributionId call).2 := by
  obtain ⟨hshard, hcap⟩ := h
  have hset (l l' : Dict Text (Shard κ)) (shard : Shard κ) :
      (l.set distributionId shard).get? distributionId =
        (l'.set distributionId shard).get? distributionId := by
    rw [Dict.get?_set, Dict.get?_set, if_pos rfl, if_pos rfl]
  cases call with
  | get key now =>
    simp only [perform, get, ← hshard]
    split
    · exact ⟨rfl, hshard, hcap⟩
    · exact ⟨rfl, hset .., hcap⟩
  | put key entry =>
    have hold : cache.getOrCreateShard distributionId = cache'.getOrCreateShard distributionId := by
      rw [getOrCreateShard, getOrCreateShard, Dict.getD, Dict.getD, hshard, hcap]
    refine ⟨rfl, ?_, hcap⟩
    simp only [perform, put, hold]
    exact hset ..
  | purge pathPatterns =>
    simp only [perform, purge, ← hshard]
    split
    · exact ⟨rfl, hshard, hcap⟩
    · exact ⟨rfl, hset .., hcap⟩
  | drop =>
    refine ⟨rfl, ?_, hcap⟩
    simp only [perform, dropDistribution, Dict.get?_erase, if_true]

/-- What a distribution gets from the cache is what it would get if it were the only one. -/
theorem distributions_isolated (cache : DistributionCache κ) (calls : List (Text × Call κ))
    (distributionId : Text) :
    (cache.replies calls).filter (fun reply => decide (reply.1 = distributionId)) =
      cache.replies (calls.filter fun call => decide (call.1 = distributionId)) := by
  -- The two runs use different caches, which agree about the distribution all the way.
  suffices h : ∀ cache', Alike distributionId cache cache' →
      (cache.replies calls).filter (fun reply => decide (reply.1 = distributionId)) =
        cache'.replies (calls.filter fun call => decide (call.1 = distributionId)) from
    h cache ⟨rfl, rfl⟩
  induction calls generalizing cache with
  | nil => exact fun _ _ => rfl
  | cons call calls ih =>
    intro cache' h
    by_cases hid : call.1 = distributionId
    · subst hid
      rcases h.perform_same call.2 with ⟨hreply, hnext⟩
      simp [replies, hreply, ih _ _ hnext]
    · simp [replies, hid, ih _ _ (h.perform_other (Ne.symm hid) call.2)]

end DistributionCache

end LocalEmu.CloudFront
