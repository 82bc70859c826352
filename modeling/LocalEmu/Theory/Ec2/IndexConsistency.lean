import LocalEmu.Theory.Ec2.IndexChange

/-!
# The Indexes Agree with the Entries

After any sequence of operations the three indexes say what the entries say:
the buckets of the groups and the lists of the instances always, the map of
addresses as long as no address is held twice.

The order of an instance list is a property of the history. `AttachedAt` reads
it off the run: an interface was attached by the last operation before which it
was not at the instance. The list is in the order of these operations.
-/

namespace LocalEmu.Ec2.AddressIndex

open List

/-! ### The invariant -/

/-- What holds of every reachable index. -/
structure Consistent (s : AddressIndex) : Prop where
  keyed : ∀ eniId entry, s.enis.get? eniId = some entry → entry.eniId = eniId
  buckets : ∀ g eniId, eniId ∈ s.bucketOf g ↔ g ∈ groupsOf (s.enis.get? eniId)
  listed : ∀ i eniId, eniId ∈ s.enisOf i → instanceOf (s.enis.get? eniId) = some i
  lists : ∀ i eniId, i ≠ "" → instanceOf (s.enis.get? eniId) = some i → eniId ∈ s.enisOf i
  nodup : ∀ i, (s.enisOf i).Nodup
  held : ∀ ip eniId, s.ipToEni.get? ip = some eniId → ip ∈ ipsOf (s.enis.get? eniId)

theorem empty_consistent : Consistent empty where
  keyed := fun _ _ h => absurd h (by simp [empty, Dict.get?_empty])
  buckets := fun _ _ => by simp [empty, bucketOf, Dict.getD, Dict.get?_empty, groupsOf]
  listed := fun _ _ h => absurd h (by simp [empty, enisOf, Dict.getD, Dict.get?_empty])
  lists := fun _ _ _ h => absurd h (by simp [empty, Dict.get?_empty, instanceOf])
  nodup := fun _ => nodup_nil
  held := fun _ _ h => absurd h (by simp [empty, Dict.get?_empty])

section Step

variable {s s' : AddressIndex} {eniId : String} {old new : Option EniEntry}

theorem Change.get?_self (hc : Change s s' eniId old new) : s'.enis.get? eniId = new := by
  rw [hc.enis, if_pos rfl]

theorem Change.get?_other (hc : Change s s' eniId old new) (k : String) (h : k ≠ eniId) :
    s'.enis.get? k = s.enis.get? k := by
  rw [hc.enis, if_neg h]

theorem Change.lists_split (hc : Change s s' eniId old new) (i : String) :
    ∃ stay added, s'.enisOf i = stay ++ added ∧ stay.Sublist (s.enisOf i) ∧
      (added = [] ∨ (added = [eniId] ∧ instanceOf old ≠ some i ∧ instanceOf new = some i)) := by
  rw [hc.lists]
  by_cases hsame : instanceOf new = instanceOf old
  · exact ⟨s.enisOf i, [], by rw [if_pos hsame, append_nil], List.Sublist.refl _, .inl rfl⟩
  · rw [if_neg hsame]
    refine ⟨_, _, rfl, ?_, ?_⟩
    · by_cases hold : instanceOf old = some i
      · rw [if_pos hold]
        exact erase_sublist
      · rw [if_neg hold]
    · by_cases hnew : instanceOf new = some i ∧ (old = none → i ≠ "")
      · rw [if_pos hnew]
        exact .inr ⟨rfl, fun hold => hsame (hnew.1.trans hold.symm), hnew.1⟩
      · rw [if_neg hnew]
        exact .inl rfl

section Fields

variable (hc : Change s s' eniId old new) (hs : Consistent s)

include hc hs

/-- The entries stand under their own ids. -/
theorem keyed_change {k : String} {entry : EniEntry} (hk : s'.enis.get? k = some entry) :
    entry.eniId = k := by
  by_cases hkid : k = eniId
  · rw [hkid, hc.get?_self] at hk
    rw [hkid]
    rcases hc.key _ hk with ⟨e, hold, hid⟩ | ⟨_, hid⟩
    · rw [← hid]
      exact hs.keyed _ e (hc.old_eq.trans hold)
    · exact hid
  · rw [hc.get?_other k hkid] at hk
    exact hs.keyed k _ hk

/-- An id is in the buckets of the groups that its entry has. -/
theorem buckets_change (g k : String) :
    k ∈ s'.bucketOf g ↔ g ∈ groupsOf (s'.enis.get? k) := by
  have hold := hs.buckets g eniId
  rw [hc.old_eq] at hold
  rw [hc.buckets]
  by_cases hkid : k = eniId
  · -- The entry itself is in exactly the buckets of its new groups.
    rw [hkid, hc.get?_self]
    by_cases hgn : g ∈ groupsOf new
    · by_cases hgo : g ∈ groupsOf old
      · simp [hgn, hgo, hold]
      · simp [hgn, hgo]
    · by_cases hgo : g ∈ groupsOf old
      · simp [hgn, hgo]
      · simp [hgn, hgo, hold]
  · rw [hc.get?_other k hkid, ← hs.buckets g k]
    by_cases hgn : g ∈ groupsOf new
    · by_cases hgo : g ∈ groupsOf old
      · simp [hgn, hgo]
      · simp [hgn, hgo, hkid]
    · by_cases hgo : g ∈ groupsOf old
      · simp [hgn, hgo, hkid]
      · simp [hgn, hgo]

/-- What is listed for an instance has this instance. -/
theorem listed_change {i k : String} (hk : k ∈ s'.enisOf i) :
    instanceOf (s'.enis.get? k) = some i := by
  rw [hc.lists] at hk
  have hlisted := hs.listed i k
  by_cases hsame : instanceOf new = instanceOf old
  · rw [if_pos hsame] at hk
    by_cases hkid : k = eniId
    · rw [hkid, hc.get?_self, hsame, ← hc.old_eq, ← hkid]
      exact hlisted hk
    · rw [hc.get?_other k hkid]
      exact hlisted hk
  · rw [if_neg hsame, mem_append] at hk
    rcases hk with hk | hk
    · by_cases hkid : k = eniId
      · -- The entry has left every list it was in.
        exfalso
        rw [hkid] at hk
        by_cases hold : instanceOf old = some i
        · rw [if_pos hold] at hk
          exact (hs.nodup i).not_mem_erase hk
        · rw [if_neg hold] at hk
          exact hold (hc.old_eq ▸ hs.listed i _ hk)
      · rw [hc.get?_other k hkid]
        by_cases hold : instanceOf old = some i
        · rw [if_pos hold] at hk
          exact hlisted (mem_of_mem_erase hk)
        · rw [if_neg hold] at hk
          exact hlisted hk
    · by_cases hnew : instanceOf new = some i ∧ (old = none → i ≠ "")
      · rw [if_pos hnew, mem_singleton] at hk
        rw [hk, hc.get?_self]
        exact hnew.1
      · rw [if_neg hnew] at hk
        exact absurd hk not_mem_nil

/-- What has an instance is listed for it. -/
theorem lists_change {i k : String} (hi : i ≠ "") (hk : instanceOf (s'.enis.get? k) = some i) :
    k ∈ s'.enisOf i := by
  rw [hc.lists]
  by_cases hkid : k = eniId
  · rw [hkid, hc.get?_self] at hk
    rw [hkid]
    by_cases hsame : instanceOf new = instanceOf old
    · rw [if_pos hsame]
      exact hs.lists i _ hi (by rw [hc.old_eq, ← hsame, hk])
    · have hadd : instanceOf new = some i ∧ (old = none → i ≠ "") := ⟨hk, fun _ => hi⟩
      rw [if_neg hsame, if_pos hadd]
      exact mem_append_right _ (mem_singleton_self _)
  · rw [hc.get?_other k hkid] at hk
    have hmem := hs.lists i k hi hk
    by_cases hsame : instanceOf new = instanceOf old
    · rw [if_pos hsame]
      exact hmem
    · rw [if_neg hsame]
      refine mem_append_left _ ?_
      by_cases hold : instanceOf old = some i
      · rw [if_pos hold]
        exact (mem_erase_of_ne hkid).mpr hmem
      · rw [if_neg hold]
        exact hmem

/-- Nothing is listed twice: the id is added to a list that it was not in. -/
theorem nodup_change (i : String) : (s'.enisOf i).Nodup := by
  rcases hc.lists_split i with ⟨stay, added, heq, hsub, hadded⟩
  rw [heq]
  have hstay : stay.Nodup := (hs.nodup i).sublist hsub
  rcases hadded with rfl | ⟨rfl, hold, _⟩
  · rw [append_nil]
    exact hstay
  · refine List.Nodup.append hstay (nodup_singleton _) ?_
    rw [disjoint_singleton]
    exact fun hmem => hold (hc.old_eq ▸ hs.listed i _ (hsub.subset hmem))

/-- An address leads to an entry that has it. -/
theorem held_change {ip : IPv4Address} {k : String} (hk : s'.ipToEni.get? ip = some k) :
    ip ∈ ipsOf (s'.enis.get? k) := by
  by_cases hnew : ip ∈ ipsOf new
  · by_cases hold : ip ∈ ipsOf old
    · rcases hc.kept ip hold hnew with hsame | ⟨hnone, _⟩
      · rw [hsame] at hk
        by_cases hkid : k = eniId
        · rw [hkid, hc.get?_self]
          exact hnew
        · rw [hc.get?_other k hkid]
          exact hs.held ip k hk
      · rw [hnone] at hk
        cases hk
    · rw [hc.gained ip hnew hold, Option.some.injEq] at hk
      rw [← hk, hc.get?_self]
      exact hnew
  · by_cases hold : ip ∈ ipsOf old
    · rw [hc.lost ip hold hnew] at hk
      cases hk
    · rw [hc.foreign ip hold hnew] at hk
      have hmem := hs.held ip k hk
      have hkid : k ≠ eniId := by
        rintro rfl
        rw [hc.old_eq] at hmem
        exact hold hmem
      rw [hc.get?_other k hkid]
      exact hmem

end Fields

/-- A change of one entry keeps the index consistent. -/
theorem Change.consistent (hc : Change s s' eniId old new) (hs : Consistent s) :
    Consistent s' where
  keyed _ _ := keyed_change hc hs
  buckets := buckets_change hc hs
  listed _ _ := listed_change hc hs
  lists _ _ := lists_change hc hs
  nodup := nodup_change hc hs
  held _ _ := held_change hc hs

end Step

/-- Every reachable index is consistent. -/
theorem run_consistent (ops : List Operation) : Consistent (run ops) :=
  run_induction _ empty_consistent
    (fun _ _ _ _ _ hs hc => hc.consistent hs) _

/-! ### Addresses -/

/-- No address is held twice, by one interface or by two. -/
def HeldOnce (s : AddressIndex) : Prop :=
  (∀ eniId, (ipsOf (s.enis.get? eniId)).Nodup) ∧
    ∀ eniId eniId' ip, ip ∈ ipsOf (s.enis.get? eniId) → ip ∈ ipsOf (s.enis.get? eniId') →
      eniId = eniId'

/-- Every address that is held is indexed under its holder. -/
def Indexed (s : AddressIndex) : Prop :=
  ∀ ip eniId, ip ∈ ipsOf (s.enis.get? eniId) → s.ipToEni.get? ip = some eniId

theorem Change.indexed {s s' : AddressIndex} {eniId : String} {old new : Option EniEntry}
    (hc : Change s s' eniId old new) (hs : HeldOnce s) (hs' : HeldOnce s')
    (hindexed : Indexed s) : Indexed s' := by
  intro ip k hk
  by_cases hkid : k = eniId
  · rw [hkid, hc.get?_self] at hk
    rw [hkid]
    by_cases hold : ip ∈ ipsOf old
    · rcases hc.kept ip hold hk with hsame | ⟨_, hdup⟩
      · rw [hsame]
        exact hindexed ip _ (hc.old_eq ▸ hold)
      · exact absurd (hc.old_eq ▸ hs.1 _) hdup
    · exact hc.gained ip hk hold
  · -- An address of another entry is none of the changed entry's, old or new.
    have hnew : ip ∉ ipsOf new := by
      intro hmem
      rw [← hc.get?_self] at hmem
      exact hkid (hs'.2 k _ ip hk hmem)
    rw [hc.get?_other k hkid] at hk
    have hold : ip ∉ ipsOf old := by
      intro hmem
      rw [← hc.old_eq] at hmem
      exact hkid (hs.2 k _ ip hk hmem)
    rw [hc.foreign ip hold hnew]
    exact hindexed ip k hk

variable (ops : List Operation) (op : Operation)

theorem run_append : run (ops ++ [op]) = (run ops).step op := by
  rw [run, foldl_append]
  rfl

/-- Addresses that are held once are indexed. -/
theorem run_indexed (hheld : ∀ k, HeldOnce (run (ops.take k))) : Indexed (run ops) := by
  induction ops using reverseRecOn with
  | nil =>
    intro ip eniId h
    cases h
  | append_singleton ops op ih =>
    have hbefore : ∀ k, HeldOnce (run (ops.take k)) := by
      intro k
      by_cases hk : k ≤ ops.length
      · have h := hheld k
        rw [take_append_of_le_length hk] at h
        exact h
      · have h := hheld ops.length
        rw [take_append_of_le_length (Nat.le_refl _), take_length] at h
        rw [take_of_length_le (by omega)]
        exact h
    have hlast : HeldOnce (run (ops ++ [op])) := by
      have h := hheld (ops ++ [op]).length
      rw [take_length] at h
      exact h
    have hprev : HeldOnce (run ops) := by
      have h := hbefore ops.length
      rw [take_length] at h
      exact h
    rw [run_append] at hlast ⊢
    rcases step_change _ op with heq | ⟨eniId, old, new, hc⟩
    · rw [heq]
      exact ih hbefore
    · exact hc.indexed hprev hlast (ih hbefore)

/-! ### Attach order -/

/-- The instance an interface is at after so many operations. -/
def instanceAt (k : Nat) (eniId : String) : Option String :=
  instanceOf ((run (ops.take k)).enis.get? eniId)

/-- The operation with this number attached the interface to the instance,
    where it has stayed since. -/
def AttachedAt (eniId i : String) (k : Nat) : Prop :=
  k < ops.length ∧ instanceAt ops k eniId ≠ some i ∧
    ∀ m, k < m → m ≤ ops.length → instanceAt ops m eniId = some i

theorem instanceAt_append (k : Nat) (hk : k ≤ ops.length) (eniId : String) :
    instanceAt (ops ++ [op]) k eniId = instanceAt ops k eniId := by
  rw [instanceAt, take_append_of_le_length hk, instanceAt]

theorem instanceAt_length (eniId : String) :
    instanceAt ops ops.length eniId = instanceOf ((run ops).enis.get? eniId) := by
  rw [instanceAt, take_length]

theorem AttachedAt.append (eniId i : String) (k : Nat) (h : AttachedAt ops eniId i k)
    (hstays : instanceOf ((run (ops ++ [op])).enis.get? eniId) = some i) :
    AttachedAt (ops ++ [op]) eniId i k := by
  rcases h with ⟨hk, hbefore, hsince⟩
  refine ⟨by rw [length_append]; omega, ?_, ?_⟩
  · rw [instanceAt_append _ op k (by omega)]
    exact hbefore
  · intro m hkm hm
    by_cases hlast : m = (ops ++ [op]).length
    · rw [hlast, instanceAt_length]
      exact hstays
    · have hle : m ≤ ops.length := by
        rw [length_append, length_singleton] at hm hlast
        omega
      rw [instanceAt_append _ op m hle]
      exact hsince m hkm hle

theorem attachedAt_last (eniId i : String)
    (hbefore : instanceOf ((run ops).enis.get? eniId) ≠ some i)
    (hafter : instanceOf ((run (ops ++ [op])).enis.get? eniId) = some i) :
    AttachedAt (ops ++ [op]) eniId i ops.length := by
  refine ⟨by rw [length_append, length_singleton]; omega, ?_, ?_⟩
  · rw [instanceAt_append _ op _ (Nat.le_refl _), instanceAt_length]
    exact hbefore
  · intro m hkm hm
    have hlast : m = (ops ++ [op]).length := by
      rw [length_append, length_singleton] at hm ⊢
      omega
    rw [hlast, instanceAt_length]
    exact hafter

/-- The first interface was attached before the second. -/
def AttachedBefore (i a b : String) : Prop :=
  ∃ j k, AttachedAt ops a i j ∧ AttachedAt ops b i k ∧ j < k

/-- Every listed interface was attached by some operation, and the list is in
    the order of these operations. -/
theorem enisOf_order (ops : List Operation) (i : String) :
    (∀ a ∈ (run ops).enisOf i, ∃ k, AttachedAt ops a i k) ∧
      ((run ops).enisOf i).Pairwise (AttachedBefore ops i) := by
  induction ops using reverseRecOn with
  | nil => exact ⟨fun a ha => absurd ha not_mem_nil, List.Pairwise.nil⟩
  | append_singleton ops op ih =>
    have hlisted := (run_consistent (ops ++ [op])).listed i
    -- What stays in the list keeps its number.
    have hkeep : ∀ a, a ∈ (run (ops ++ [op])).enisOf i → ∀ k, AttachedAt ops a i k →
        AttachedAt (ops ++ [op]) a i k :=
      fun a ha k hk => hk.append _ op a i k (hlisted a ha)
    have hsplit : ∃ stay added, (run (ops ++ [op])).enisOf i = stay ++ added ∧
        stay.Sublist ((run ops).enisOf i) ∧ ∀ a ∈ added, added = [a] ∧
          instanceOf ((run ops).enis.get? a) ≠ some i := by
      rw [run_append]
      rcases step_change (run ops) op with heq | ⟨eniId, old, new, hc⟩
      · rw [heq]
        exact ⟨_, [], (append_nil _).symm, List.Sublist.refl _, fun a ha => absurd ha not_mem_nil⟩
      · rcases hc.lists_split i with ⟨stay, added, hlist, hsub, rfl | ⟨rfl, hold, _⟩⟩
        · exact ⟨stay, [], hlist, hsub, fun a ha => absurd ha not_mem_nil⟩
        · refine ⟨stay, [eniId], hlist, hsub, fun a ha => ?_⟩
          rw [mem_singleton] at ha
          rw [ha, hc.old_eq]
          exact ⟨rfl, hold⟩
    rcases hsplit with ⟨stay, added, hlist, hsub, hadded⟩
    rw [hlist] at hkeep hlisted ⊢
    have hstay : ∀ a ∈ stay, ∃ k, AttachedAt (ops ++ [op]) a i k ∧ k < ops.length := by
      intro a ha
      rcases ih.1 a (hsub.subset ha) with ⟨k, hk⟩
      exact ⟨k, hkeep a (mem_append_left _ ha) k hk, hk.1⟩
    have hnew : ∀ a ∈ added, AttachedAt (ops ++ [op]) a i ops.length := by
      intro a ha
      exact attachedAt_last _ op a i (hadded a ha).2 (hlisted a (mem_append_right _ ha))
    refine ⟨fun a ha => ?_, pairwise_append.mpr ⟨?_, ?_, ?_⟩⟩
    · rcases mem_append.mp ha with hmem | hmem
      · rcases hstay a hmem with ⟨k, hk, _⟩
        exact ⟨k, hk⟩
      · exact ⟨_, hnew a hmem⟩
    · refine (ih.2.sublist hsub).imp_of_mem fun {a b} ha hb hab => ?_
      rcases hab with ⟨j, k, hj, hk, hlt⟩
      exact ⟨j, k, hkeep a (mem_append_left _ ha) j hj, hkeep b (mem_append_left _ hb) k hk, hlt⟩
    · -- At most one interface is added.
      rcases added with _ | ⟨a, rest⟩
      · exact List.Pairwise.nil
      · rw [(hadded a mem_cons_self).1]
        exact pairwise_singleton _ _
    · intro a ha b hb
      rcases hstay a ha with ⟨j, hj, hlt⟩
      exact ⟨j, _, hj, hnew b hb, hlt⟩

/-! ### Lookups -/

theorem mem_values_iff (s : AddressIndex) (entry : EniEntry) :
    entry ∈ s.enis.values ↔ ∃ eniId, s.enis.get? eniId = some entry := by
  rw [Dict.values, mem_map]
  constructor
  · rintro ⟨⟨eniId, e⟩, hmem, rfl⟩
    exact ⟨eniId, (Dict.get?_eq_some_iff _ _ _).mpr hmem⟩
  · rintro ⟨eniId, hget⟩
    exact ⟨(eniId, entry), (Dict.get?_eq_some_iff _ _ _).mp hget, rfl⟩

theorem getEnisForInstance_map (s : AddressIndex) (hs : Consistent s) (i : String) :
    (s.getEnisForInstance i).map EniEntry.eniId = s.enisOf i := by
  rw [getEnisForInstance, map_filterMap]
  refine (filterMap_congr fun eniId hmem => ?_).trans (filterMap_some)
  rcases hget : s.enis.get? eniId with _ | entry
  · have hinst := hs.listed i _ hmem
    rw [hget] at hinst
    cases hinst
  · rw [Option.map_some, hs.keyed _ _ hget]

theorem mem_getIpsForSg (s : AddressIndex) (hs : Consistent s) (g : String) (ip : IPv4Address) :
    ip ∈ s.getIpsForSg g ↔ ∃ entry ∈ s.enis.values, g ∈ entry.sgIds ∧ ip ∈ entry.allIps := by
  rw [getIpsForSg, Finset.mem_biUnion]
  constructor
  · rintro ⟨eniId, hbucket, hip⟩
    rw [hs.buckets] at hbucket
    rcases hget : s.enis.get? eniId with _ | entry
    · rw [hget] at hip
      cases hip
    · rw [hget] at hip hbucket
      exact ⟨entry, (mem_values_iff s _).mpr ⟨eniId, hget⟩, hbucket, mem_toFinset.mp hip⟩
  · rintro ⟨entry, hmem, hg, hip⟩
    rcases (mem_values_iff s _).mp hmem with ⟨eniId, hget⟩
    refine ⟨eniId, (hs.buckets g _).mpr (by rw [hget]; exact hg), ?_⟩
    rw [hget]
    exact mem_toFinset.mpr hip

theorem getEniForIp_iff (s : AddressIndex) (hs : Consistent s) (hindexed : Indexed s)
    (ip : IPv4Address) (entry : EniEntry) :
    s.getEniForIp ip = some entry ↔ entry ∈ s.enis.values ∧ ip ∈ entry.allIps := by
  rw [getEniForIp, mem_values_iff]
  constructor
  · intro h
    rcases hget : s.ipToEni.get? ip with _ | eniId
    · rw [hget] at h
      cases h
    · simp only [hget] at h
      have hheld := hs.held ip _ hget
      rw [h] at hheld
      exact ⟨⟨eniId, h⟩, hheld⟩
  · rintro ⟨⟨eniId, hget⟩, hip⟩
    have hmem : ip ∈ ipsOf (s.enis.get? eniId) := by rw [hget]; exact hip
    rw [hindexed ip _ hmem]
    exact hget

theorem instanceOf_attachEni {s s' : AddressIndex} {eniId instanceId ifaceName : String}
    (h : s.attachEni eniId instanceId ifaceName = .ok s') :
    instanceOf (s'.enis.get? eniId) = some instanceId := by
  rw [attachEni] at h
  rcases hget : s.enis.get? eniId with _ | entry
  · rw [hget] at h
    cases h
  · simp only [hget] at h
    split at h
    · next hsame =>
      rw [← Except.ok.inj h, Dict.get?_set, if_pos rfl]
      exact hsame
    · rw [← Except.ok.inj h, Dict.get?_set, if_pos rfl]
      rfl

/-- The lookups agree with the entries at every moment: the interface of an
    address, the interfaces of an instance, each once and in the order in which
    they were attached, and the addresses of a group. An attachment that
    succeeds is in the entry. -/
theorem lookups_agree_with_entries (hheld : ∀ k, HeldOnce (run (ops.take k))) :
    (∀ ip entry, (run ops).getEniForIp ip = some entry ↔
      entry ∈ (run ops).enis.values ∧ ip ∈ entry.allIps) ∧
    (∀ i, i ≠ "" →
      (∀ entry, entry ∈ (run ops).getEnisForInstance i ↔
        entry ∈ (run ops).enis.values ∧ entry.instanceId = some i) ∧
      ((run ops).getEnisForInstance i).Nodup ∧
      ((run ops).getEnisForInstance i).Pairwise fun a b =>
        AttachedBefore ops i a.eniId b.eniId) ∧
    (∀ g ip, ip ∈ (run ops).getIpsForSg g ↔
      ∃ entry ∈ (run ops).enis.values, g ∈ entry.sgIds ∧ ip ∈ entry.allIps) ∧
    ∀ eniId i ifaceName s', (run ops).attachEni eniId i ifaceName = .ok s' →
      instanceOf (s'.enis.get? eniId) = some i := by
  have hs := run_consistent ops
  refine ⟨getEniForIp_iff _ hs (run_indexed _ hheld), fun i hi => ⟨?_, ?_, ?_⟩,
    mem_getIpsForSg _ hs, fun _ _ _ _ => instanceOf_attachEni⟩
  · intro entry
    rw [getEnisForInstance, mem_filterMap, mem_values_iff]
    constructor
    · rintro ⟨eniId, hmem, hget⟩
      have hinst := hs.listed i _ hmem
      rw [hget] at hinst
      exact ⟨⟨eniId, hget⟩, hinst⟩
    · rintro ⟨⟨eniId, hget⟩, hinst⟩
      exact ⟨eniId, hs.lists i _ hi (by rw [hget]; exact hinst), hget⟩
  · have hmap := getEnisForInstance_map _ hs i
    exact List.Nodup.of_map _ (hmap ▸ hs.nodup i)
  · have horder := (enisOf_order ops i).2
    rw [← getEnisForInstance_map _ hs i, pairwise_map] at horder
    exact horder

theorem heldOnce_of_nodup (s : AddressIndex)
    (h : (s.enis.entries.flatMap fun e => e.2.allIps).Nodup) : HeldOnce s := by
  rw [nodup_flatMap] at h
  have hmem : ∀ eniId ip, ip ∈ ipsOf (s.enis.get? eniId) →
      ∃ entry, (eniId, entry) ∈ s.enis.entries ∧ ip ∈ entry.allIps := by
    intro eniId ip hip
    rcases hget : s.enis.get? eniId with _ | entry
    · rw [hget] at hip
      exact absurd hip not_mem_nil
    · rw [hget] at hip
      exact ⟨entry, (Dict.get?_eq_some_iff _ _ _).mp hget, hip⟩
  refine ⟨fun eniId => ?_, fun eniId eniId' ip hip hip' => ?_⟩
  · rcases hget : s.enis.get? eniId with _ | entry
    · exact nodup_nil
    · exact h.1 _ ((Dict.get?_eq_some_iff _ _ _).mp hget)
  · rcases hmem eniId ip hip with ⟨entry, hentry, hin⟩
    rcases hmem eniId' ip hip' with ⟨entry', hentry', hin'⟩
    by_contra hne
    have hsymm : Std.Symm (Function.onFun List.Disjoint fun e : String × EniEntry => e.2.allIps) :=
      ⟨fun _ _ hd => hd.symm⟩
    have hdistinct : (eniId, entry) ≠ (eniId', entry') := fun heq => hne (congrArg Prod.fst heq)
    exact h.2.forall hentry hentry' hdistinct hin hin'

/-- Two interfaces attached to one instance against the order of their registration. -/
def secondThenFirst : List Operation :=
  [.registerEni
      { eniId := "eni-1", vpcId := "vpc-1", subnetId := "subnet-1", primaryIp := 5,
        sgIds := ["sg-1"] },
    .registerEni
      { eniId := "eni-2", vpcId := "vpc-1", subnetId := "subnet-1", primaryIp := 6,
        secondaryIps := [7] },
    .attachEni "eni-2" "i-1" "eth0",
    .attachEni "eni-1" "i-1" "eth1"]

theorem secondThenFirst_heldOnce (k : Nat) : HeldOnce (run (secondThenFirst.take k)) := by
  refine heldOnce_of_nodup _ ?_
  match k with
  | 0 => decide
  | 1 => decide
  | 2 => decide
  | 3 => decide
  | k + 4 =>
    rw [take_of_length_le (Nat.le_add_left 4 k)]
    decide

theorem lookups_agree_after_secondThenFirst :
    (∀ k, HeldOnce (run (secondThenFirst.take k))) ∧
      ((run secondThenFirst).getEnisForInstance "i-1").Pairwise fun a b =>
        AttachedBefore secondThenFirst "i-1" a.eniId b.eniId :=
  ⟨secondThenFirst_heldOnce,
    ((lookups_agree_with_entries _ secondThenFirst_heldOnce).2.1 "i-1"
      (by decide)).2.2⟩

end LocalEmu.Ec2.AddressIndex
