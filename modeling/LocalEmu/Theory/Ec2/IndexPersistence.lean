import LocalEmu.Base.Paging
import LocalEmu.Theory.Ec2.IndexConsistency

/-!
# Saving and Loading the Address Index

The persisted form of an index is the list of its entries in the order of their
registration, without the flag for a shared interface. Loading it registers the
entries again in that order. So the loaded index answers like the saved one
exactly when the order of registration, from which it is rebuilt, is also the
order in which the interfaces were attached and the addresses were last
claimed.
-/

namespace LocalEmu.Ec2.AddressIndex

open List Option

/-! ### Loading -/

variable (entries : List EniEntry) (entry : EniEntry)

/-- What remains of an entry when it has been saved and loaded. -/
def loaded : EniEntry := { entry with sharedIface := false }

/-- An index with the given entries, registered in this order. -/
def load : AddressIndex := entries.foldl insertEntry empty

/-- The index `from_dict` builds from a saved one. -/
def reload (s : AddressIndex) : AddressIndex := load (s.enis.values.map loaded)

theorem mapM_parseAddress (ips : List IPv4Address) :
    (ips.map IPv4Address.text).mapM parseAddress = .ok ips := by
  induction ips with
  | nil => rfl
  | cons ip ips ih =>
    rw [map_cons, mapM_cons, ih, parseAddress, IPv4Address.ofText_text]
    rfl

theorem entryOfJson_entryToJson : entryOfJson (entryToJson entry) = .ok (loaded entry) := by
  simp only [entryOfJson, entryToJson, getD_some, mapM_parseAddress, parseAddress,
    IPv4Address.ofText_text]
  rfl

/-- Loading a saved index succeeds. -/
theorem fromDict_toDict (s index : AddressIndex) : fromDict index s.toDict = .ok s.reload := by
  have hfold : ∀ (entries : List EniEntry) (start : AddressIndex),
      (entries.map entryToJson).foldlM (fun index entryData => do
        let entry ← entryOfJson entryData
        return index.insertEntry entry) start =
      (.ok ((entries.map loaded).foldl insertEntry start) :
        Except IndexError AddressIndex) := by
    intro entries
    induction entries with
    | nil => exact fun _ => rfl
    | cons entry entries ih =>
      intro start
      rw [map_cons, foldlM_cons, entryOfJson_entryToJson, map_cons]
      exact ih _
  exact hfold _ _

/-! ### The loaded index -/

theorem load_append : load (entries ++ [entry]) = (load entries).insertEntry entry := by
  rw [load, foldl_append]
  rfl

/-- The loaded index. -/
theorem entries_load (h : (entries.map EniEntry.eniId).Nodup) :
    (load entries).enis.entries = entries.map fun entry => (entry.eniId, entry) := by
  induction entries using reverseRecOn with
  | nil => rfl
  | append_singleton entries entry ih =>
    rw [map_append, nodup_append] at h
    have hkeys : entry.eniId ∉ (load entries).enis.keys := by
      rw [Dict.keys, ih h.1, List.map_map]
      exact fun hmem => h.2.2 _ hmem _ (mem_singleton_self _) rfl
    rw [load_append, insertEntry, Dict.entries_set_new _ _ _ hkeys, ih h.1, map_append]
    rfl

theorem enisOf_load (i : String) : (load entries).enisOf i =
      (entries.filter fun entry => entry.instanceId = some i ∧ i ≠ "").map EniEntry.eniId := by
  induction entries using reverseRecOn with
  | nil => rfl
  | append_singleton entries entry ih =>
    rw [load_append, filter_append, map_append, ← ih]
    rcases hinst : entry.instanceId with _ | instanceId
    · simp [enisOf, insertEntry, hinst]
    · simp only [enisOf, insertEntry, hinst]
      by_cases hempty : instanceId = ""
      · subst hempty
        by_cases hi : i = ""
        · simp [hi]
        · simp [hinst, Ne.symm hi]
      · rw [if_neg hempty, getD_appendToInstance]
        by_cases hi : instanceId = i
        · simp [hinst, hi, hi ▸ hempty]
        · simp [hinst, hi]

theorem get?_ipToEni_load (ip : IPv4Address) : (load entries).ipToEni.get? ip =
      (entries.reverse.find? fun entry => ip ∈ entry.allIps).map EniEntry.eniId := by
  induction entries using reverseRecOn with
  | nil => rfl
  | append_singleton entries entry ih =>
    rw [load_append, insertEntry, get?_indexIps, ih, reverse_append, reverse_singleton,
      singleton_append]
    by_cases hip : ip ∈ entry.allIps
    · simp [hip]
    · simp [hip]

theorem load_consistent (h : (entries.map EniEntry.eniId).Nodup) : Consistent (load entries) := by
  induction entries using reverseRecOn with
  | nil => exact empty_consistent
  | append_singleton entries entry ih =>
    rw [map_append, nodup_append] at h
    have hget : (load entries).enis.get? entry.eniId = none := by
      rw [Dict.get?_eq_none_iff, Dict.keys, entries_load _ h.1, List.map_map]
      exact fun hmem => h.2.2 _ hmem _ (mem_singleton_self _) rfl
    rw [load_append]
    exact (insertEntry_change _ _ hget).consistent (ih h.1)

section Reload

variable {s : AddressIndex}

theorem Consistent.entries_eq (hs : Consistent s) :
    s.enis.entries = s.enis.values.map fun entry => (entry.eniId, entry) := by
  rw [Dict.values, List.map_map]
  refine (map_id _).symm.trans (map_congr_left fun e he => ?_)
  have hkey := hs.keyed e.1 e.2 ((Dict.get?_eq_some_iff _ _ _).mpr he)
  rw [Function.comp_apply, hkey]
  rfl

theorem Consistent.keys_eq (hs : Consistent s) :
    s.enis.keys = s.enis.values.map EniEntry.eniId := by
  rw [Dict.keys, hs.entries_eq, List.map_map]
  rfl

theorem Consistent.loaded_nodup (hs : Consistent s) :
    ((s.enis.values.map loaded).map EniEntry.eniId).Nodup := by
  have h := s.enis.nodup
  rw [List.map_map]
  change (s.enis.values.map EniEntry.eniId).Nodup
  rw [← hs.keys_eq]
  exact h

theorem Consistent.reload_consistent (hs : Consistent s) : Consistent s.reload :=
  load_consistent _ hs.loaded_nodup

theorem Consistent.get?_reload (hs : Consistent s) (eniId : String) :
    s.reload.enis.get? eniId = (s.enis.get? eniId).map loaded := by
  have hentries : s.reload.enis.entries = s.enis.entries.map fun e => (e.1, loaded e.2) := by
    rw [reload, entries_load _ hs.loaded_nodup, hs.entries_eq, List.map_map, List.map_map]
    rfl
  refine Option.ext fun entry => ?_
  rw [Dict.get?_eq_some_iff, hentries, List.mem_map, Option.map_eq_some_iff]
  constructor
  · rintro ⟨e, he, heq⟩
    rw [Prod.mk.injEq] at heq
    exact ⟨e.2, (Dict.get?_eq_some_iff _ _ _).mpr (heq.1 ▸ he), heq.2⟩
  · rintro ⟨e, he, heq⟩
    exact ⟨(eniId, e), (Dict.get?_eq_some_iff _ _ _).mp he, by rw [heq]⟩

theorem enisOf_reload (s : AddressIndex) (i : String) :
    s.reload.enisOf i =
      (s.enis.values.filter fun entry => entry.instanceId = some i ∧ i ≠ "").map
        EniEntry.eniId := by
  rw [reload, enisOf_load, List.filter_map, List.map_map]
  rfl

end Reload

/-! ### The round trip -/

/-- The second index answers every lookup like the first. -/
structure SameAnswers (s s' : AddressIndex) : Prop where
  enis : ∀ eniId, s'.enis.get? eniId = s.enis.get? eniId
  ips : ∀ ip, s'.getEniForIp ip = s.getEniForIp ip
  instances : ∀ i, s'.getEnisForInstance i = s.getEnisForInstance i
  primary : ∀ i, s'.getPrimaryIpForInstance i = s.getPrimaryIpForInstance i
  groups : ∀ g, s'.getIpsForSg g = s.getIpsForSg g

/-- What `to_dict` writes, `from_dict` loads into a fresh index that answers like the saved one. -/
def RoundTrips (s : AddressIndex) : Prop :=
  ∃ s', fromDict empty s.toDict = .ok s' ∧ SameAnswers s s'

/-- The interface is the last registered one with the address. -/
def LastHolder (s : AddressIndex) (ip : IPv4Address) (eniId : String) : Prop :=
  ∃ before entry after, s.enis.values = before ++ entry :: after ∧ entry.eniId = eniId ∧
    ip ∈ entry.allIps ∧ ∀ e ∈ after, ip ∉ e.allIps

/-- No interface is shared, none is listed under the empty instance id, the
    interfaces of an instance were attached in the order of their registration,
    and an address belongs to the last registered interface that has it. -/
structure Restorable (s : AddressIndex) : Prop where
  unshared : ∀ entry ∈ s.enis.values, entry.sharedIface = false
  unlisted : s.enisOf "" = []
  attached : ∀ i, (s.enisOf i).Sublist s.enis.keys
  claimed : ∀ ip eniId, LastHolder s ip eniId → s.ipToEni.get? ip = some eniId

theorem lastHolder_iff (s : AddressIndex) (ip : IPv4Address) (eniId : String) :
    LastHolder s ip eniId ↔
      (s.enis.values.reverse.find? fun entry => ip ∈ entry.allIps).map EniEntry.eniId =
        some eniId := by
  rw [map_eq_some_iff]
  constructor
  · rintro ⟨before, entry, after, hsplit, hid, hip, hafter⟩
    refine ⟨entry, ?_, hid⟩
    rw [find?_eq_some_iff_append]
    refine ⟨by simpa using hip, after.reverse, before.reverse, ?_, fun e he => ?_⟩
    · rw [hsplit]
      simp
    · simpa using hafter e (mem_reverse.mp he)
  · rintro ⟨entry, hfind, hid⟩
    rw [find?_eq_some_iff_append] at hfind
    rcases hfind with ⟨hip, after, before, hsplit, hafter⟩
    refine ⟨before.reverse, entry, after.reverse, ?_, hid, by simpa using hip, fun e he => ?_⟩
    · rw [← reverse_reverse s.enis.values, hsplit]
      simp
    · simpa using hafter e (mem_reverse.mp he)

theorem get?_ipToEni_reload (s : AddressIndex) (ip : IPv4Address) (eniId : String) :
    s.reload.ipToEni.get? ip = some eniId ↔ LastHolder s ip eniId := by
  rw [lastHolder_iff, reload, get?_ipToEni_load, ← List.map_reverse, List.find?_map, Option.map_map]
  rfl

section Directions

variable {s : AddressIndex}

theorem Restorable.enisOf_eq (hs : Consistent s) (hr : Restorable s) (i : String) :
    s.reload.enisOf i = s.enisOf i := by
  rw [enisOf_reload]
  by_cases hi : i = ""
  · rw [hi, hr.unlisted]
    simp
  · rw [Paging.eq_filter_of_sublist (hr.attached i) s.enis.nodup, hs.keys_eq, List.filter_map]
    refine congrArg (List.map EniEntry.eniId) (List.filter_congr fun entry hentry => ?_)
    rcases (mem_values_iff s _).mp hentry with ⟨eniId, hget⟩
    have hkey := hs.keyed _ _ hget
    rw [Function.comp_apply, decide_eq_decide, hkey]
    constructor
    · rintro ⟨hinst, _⟩
      exact hs.lists i _ hi (by rw [hget]; exact hinst)
    · intro hmem
      have hinst := hs.listed i _ hmem
      rw [hget] at hinst
      exact ⟨hinst, hi⟩

theorem Restorable.get?_eq (hs : Consistent s) (hr : Restorable s) (eniId : String) :
    s.reload.enis.get? eniId = s.enis.get? eniId := by
  rw [hs.get?_reload]
  rcases hget : s.enis.get? eniId with _ | entry
  · rfl
  · have hshared := hr.unshared _ ((mem_values_iff s _).mpr ⟨eniId, hget⟩)
    rw [map_some, loaded, ← hshared]

theorem Restorable.ipToEni_eq (hs : Consistent s) (hr : Restorable s) (ip : IPv4Address) :
    s.reload.ipToEni.get? ip = s.ipToEni.get? ip := by
  rcases hget : s.reload.ipToEni.get? ip with _ | eniId
  · -- Nobody holds the address, so the saved index did not know it either.
    rcases hindex : s.ipToEni.get? ip with _ | eniId
    · rfl
    · have hheld := hs.held ip _ hindex
      rcases hentry : s.enis.get? eniId with _ | entry
      · rw [hentry] at hheld
        exact absurd hheld not_mem_nil
      · rw [hentry] at hheld
        rw [reload, get?_ipToEni_load, map_eq_none_iff, find?_eq_none] at hget
        have hmem := (mem_values_iff s _).mpr ⟨eniId, hentry⟩
        have hnot := hget _ (mem_reverse.mpr (mem_map_of_mem hmem))
        exact absurd (decide_eq_true (show ip ∈ (loaded entry).allIps from hheld)) hnot
  · exact (hr.claimed ip _ ((get?_ipToEni_reload s ip _).mp hget)).symm

/-- The two directions. -/
theorem roundTrips_of_restorable (hs : Consistent s) (hr : Restorable s) : RoundTrips s := by
  refine ⟨s.reload, fromDict_toDict s _, ?_⟩
  have henis := hr.get?_eq hs
  have hlists := hr.enisOf_eq hs
  have hvalues : ∀ entry, entry ∈ s.reload.enis.values ↔ entry ∈ s.enis.values := by
    intro entry
    rw [mem_values_iff, mem_values_iff]
    simp only [henis]
  constructor
  · exact henis
  · intro ip
    rw [getEniForIp, getEniForIp, hr.ipToEni_eq hs]
    rcases s.ipToEni.get? ip with _ | eniId
    · rfl
    · exact henis _
  · intro i
    rw [getEnisForInstance, getEnisForInstance, hlists, funext henis]
  · intro i
    rw [getPrimaryIpForInstance, getPrimaryIpForInstance, hlists]
    simp only [henis]
  · intro g
    ext ip
    rw [mem_getIpsForSg _ hs.reload_consistent, mem_getIpsForSg _ hs]
    simp only [hvalues]

theorem restorable_of_roundTrips (hs : Consistent s) (h : RoundTrips s) : Restorable s := by
  rcases h with ⟨s', hload, hsame⟩
  rw [fromDict_toDict, Except.ok.injEq] at hload
  rw [← hload] at hsame
  have hlists : ∀ i, s.reload.enisOf i = s.enisOf i := by
    intro i
    rw [← getEnisForInstance_map _ hs.reload_consistent, ← getEnisForInstance_map _ hs,
      hsame.instances]
  constructor
  · intro entry hmem
    rcases (mem_values_iff s _).mp hmem with ⟨eniId, hget⟩
    have henis := hsame.enis eniId
    rw [hs.get?_reload, hget, map_some, some.injEq] at henis
    rw [← henis]
    rfl
  · rw [← hlists, enisOf_reload]
    simp
  · intro i
    rw [← hlists, enisOf_reload, hs.keys_eq]
    exact filter_sublist.map _
  · intro ip eniId hlast
    have hreload := (get?_ipToEni_reload s ip _).mpr hlast
    have hips := hsame.ips ip
    rcases hlast with ⟨before, entry, after, hsplit, hid, _, _⟩
    have hget : s.enis.get? eniId = some entry := by
      have hmem : entry ∈ s.enis.values := by rw [hsplit]; simp
      rcases (mem_values_iff s _).mp hmem with ⟨k, hk⟩
      rw [← hid, hs.keyed k _ hk]
      exact hk
    rw [getEniForIp, getEniForIp, hreload] at hips
    simp only [hsame.enis, hget] at hips
    rcases hindex : s.ipToEni.get? ip with _ | k
    · rw [hindex] at hips
      cases hips
    · simp only [hindex] at hips
      rw [← hid, hs.keyed k _ hips.symm]

end Directions

/-- In every reachable state a saved index loads back unchanged if and only if it is restorable. -/
theorem saved_index_loads_back_iff (ops : List Operation) :
    RoundTrips (run ops) ↔ Restorable (run ops) :=
  ⟨restorable_of_roundTrips (run_consistent _), roundTrips_of_restorable (run_consistent _)⟩

/-- The second of two registered interfaces is attached first, and the loaded
    index lists it last. -/
theorem saved_index_forgets_attach_order : ¬ ∀ ops, RoundTrips (run ops) := by
  intro h
  have hr := restorable_of_roundTrips (run_consistent secondThenFirst) (h _)
  have hsub : ¬ ((run secondThenFirst).enisOf "i-1").Sublist (run secondThenFirst).enis.keys := by
    decide
  exact hsub (hr.attached "i-1")

end LocalEmu.Ec2.AddressIndex
