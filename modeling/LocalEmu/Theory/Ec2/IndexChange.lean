import LocalEmu.Core.Ec2.AddressIndex

/-!
# What an Operation Changes

Every operation of the address index either changes nothing or replaces one
entry, which may appear or disappear with it. `Change` says once how the three
indexes follow the entry: the addresses it gains and loses, the group buckets
it joins and leaves, and the instance list it moves to.

`step_change` is the inversion of the eight operations, and every invariant of
the index is derived from it.
-/

namespace LocalEmu.Ec2

open List

/-- An assignment to a field of an entry. -/
inductive Assignment
  | sourceDestCheck (value : Bool)
  | deleteOnTermination (value : Bool)
  | deviceIndex (value : Option Int)
  | sharedIface (value : Bool)

/-- The entry after an assignment. -/
def Assignment.apply (a : Assignment) (entry : EniEntry) : EniEntry :=
  match a with
  | sourceDestCheck value => { entry with sourceDestCheck := value }
  | deleteOnTermination value => { entry with deleteOnTermination := value }
  | deviceIndex value => { entry with deviceIndex := value }
  | sharedIface value => { entry with sharedIface := value }

/-- The operations on an index. -/
inductive Operation
  | registerEni (r : AddressIndex.Registration)
  | attachEni (eniId instanceId ifaceName : String)
  | detachEni (eniId : String)
  | deleteEni (eniId : String)
  | addSecondaryIp (eniId : String) (ip : IPv4Address)
  | removeSecondaryIp (eniId : String) (ip : IPv4Address)
  | updateSgs (eniId : String) (sgIds : List String)
  | assign (eniId : String) (assignment : Assignment)

namespace AddressIndex

def apply (index : AddressIndex) : Operation → Except IndexError AddressIndex
  | .registerEni r => index.registerEni r
  | .attachEni eniId instanceId ifaceName => index.attachEni eniId instanceId ifaceName
  | .detachEni eniId => .ok (index.detachEni eniId)
  | .deleteEni eniId => .ok (index.deleteEni eniId).1
  | .addSecondaryIp eniId ip => index.addSecondaryIp eniId ip
  | .removeSecondaryIp eniId ip => .ok (index.removeSecondaryIp eniId ip)
  | .updateSgs eniId sgIds => index.updateSgs eniId sgIds
  | .assign eniId assignment => .ok (index.assign eniId assignment.apply)

/-- The index after an operation; one that raises has changed nothing. -/
def step (index : AddressIndex) (op : Operation) : AddressIndex :=
  match index.apply op with
  | .ok index' => index'
  | .error _ => index

/-- The index after a sequence of operations on an empty one. -/
def run (ops : List Operation) : AddressIndex := ops.foldl step empty

/-! ### Updates of one index -/

variable (s : AddressIndex) (eniId : String)

theorem get?_indexIps (ips : List IPv4Address) (d : Dict IPv4Address String) (ip : IPv4Address) :
    (indexIps eniId ips d).get? ip = if ip ∈ ips then some eniId else d.get? ip :=
  Dict.get?_foldl_set _ _ d ip

theorem get?_forgetIps (ips : List IPv4Address) (d : Dict IPv4Address String)
    (ip : IPv4Address) :
    (forgetIps ips d).get? ip = if ip ∈ ips then none else d.get? ip :=
  Dict.get?_foldl_erase _ d ip

theorem getD_appendToInstance (instanceId : String) (d : Dict String (List String)) (i : String) :
    (appendToInstance eniId instanceId d).getD i [] =
      d.getD i [] ++ if instanceId = i then [eniId] else [] := by
  rw [appendToInstance, Dict.getD_set]
  by_cases hi : i = instanceId
  · rw [if_pos hi, if_pos hi.symm, hi]
  · rw [if_neg hi, if_neg (Ne.symm hi), append_nil]

theorem getD_removeEniFromInstance (instanceId : String) (d : Dict String (List String))
    (i : String) :
    (removeEniFromInstance eniId instanceId d).getD i [] =
      if instanceId = i then (d.getD i []).erase eniId else d.getD i [] := by
  rw [removeEniFromInstance]
  rcases hget : d.get? instanceId with _ | enis
  · -- Nothing is listed for the instance, so there is nothing to remove.
    by_cases hi : instanceId = i
    · rw [if_pos hi, ← hi, Dict.getD, hget]
      rfl
    · rw [if_neg hi]
  · have hlist : d.getD instanceId [] = enis := by rw [Dict.getD, hget]; rfl
    by_cases hempty : enis.erase eniId = []
    · simp only [hempty, if_true, Dict.getD, Dict.get?_erase]
      by_cases hi : instanceId = i
      · subst hi
        rw [if_pos rfl, if_pos rfl, hget, Option.getD_some, hempty]
        rfl
      · rw [if_neg hi, if_neg (Ne.symm hi)]
    · simp only [hempty, if_false, Dict.getD_set]
      by_cases hi : instanceId = i
      · subst hi
        rw [if_pos rfl, if_pos rfl, hlist]
      · rw [if_neg hi, if_neg (Ne.symm hi)]

theorem getD_joinGroups (sgs : List String) (d : Dict String (Finset String)) (g : String) :
    (joinGroups eniId sgs d).getD g ∅ =
      if g ∈ sgs then insert eniId (d.getD g ∅) else d.getD g ∅ := by
  induction sgs generalizing d with
  | nil => simp [joinGroups]
  | cons a sgs ih =>
    change (joinGroups eniId sgs (d.set a (insert eniId (d.getD a ∅)))).getD g ∅ = _
    rw [ih, Dict.getD_set]
    by_cases hmem : g ∈ sgs
    · rw [if_pos hmem, if_pos (mem_cons_of_mem a hmem)]
      by_cases heq : g = a
      · rw [if_pos heq, heq, Finset.insert_idem]
      · rw [if_neg heq]
    · by_cases heq : g = a
      · rw [if_neg hmem, if_pos heq, if_pos (by simp [heq]), heq]
      · rw [if_neg hmem, if_neg heq, if_neg (by simp [heq, hmem])]

theorem getD_leaveGroup (sg : String) (d : Dict String (Finset String)) (g : String) :
    (leaveGroup eniId d sg).getD g ∅ =
      if g = sg then (d.getD g ∅).erase eniId else d.getD g ∅ := by
  rw [leaveGroup]
  rcases hget : d.get? sg with _ | bucket
  · by_cases hg : g = sg
    · rw [if_pos hg, hg, Dict.getD, hget]
      rfl
    · rw [if_neg hg]
  · have hbucket : d.getD sg ∅ = bucket := by rw [Dict.getD, hget]; rfl
    by_cases hempty : bucket.erase eniId = ∅
    · simp only [hempty, if_true, Dict.getD, Dict.get?_erase]
      by_cases hg : g = sg
      · rw [if_pos hg, if_pos hg, hg, hget, Option.getD_some, hempty]
        rfl
      · rw [if_neg hg, if_neg hg]
    · simp only [hempty, if_false, Dict.getD_set]
      by_cases hg : g = sg
      · rw [if_pos hg, if_pos hg, hg, hbucket]
      · rw [if_neg hg, if_neg hg]

theorem getD_leaveGroups (sgs : List String) (d : Dict String (Finset String)) (g : String) :
    (leaveGroups eniId sgs d).getD g ∅ =
      if g ∈ sgs then (d.getD g ∅).erase eniId else d.getD g ∅ := by
  induction sgs generalizing d with
  | nil => simp [leaveGroups]
  | cons a sgs ih =>
    change (leaveGroups eniId sgs (leaveGroup eniId d a)).getD g ∅ = _
    rw [ih, getD_leaveGroup]
    by_cases hmem : g ∈ sgs
    · rw [if_pos hmem, if_pos (mem_cons_of_mem a hmem)]
      by_cases heq : g = a
      · rw [if_pos heq, Finset.erase_idem]
      · rw [if_neg heq]
    · by_cases heq : g = a
      · rw [if_neg hmem, if_pos heq, if_pos (by simp [heq])]
      · rw [if_neg hmem, if_neg heq, if_neg (by simp [heq, hmem])]

/-! ### Changes -/

variable (s' : AddressIndex) (entry : Option EniEntry)

/-- The addresses of an entry, none if there is no entry. -/
def ipsOf : List IPv4Address := (entry.map EniEntry.allIps).getD []

def groupsOf : List String := (entry.map EniEntry.sgIds).getD []

def instanceOf : Option String := entry.bind EniEntry.instanceId

/-- The replacement of one entry, and how the indexes follow it. -/
structure Change (s s' : AddressIndex) (eniId : String) (old new : Option EniEntry) : Prop where
  old_eq : s.enis.get? eniId = old
  key : ∀ entry, new = some entry → (∃ e, old = some e ∧ e.eniId = entry.eniId) ∨
    (old = none ∧ entry.eniId = eniId)
  enis : ∀ k, s'.enis.get? k = if k = eniId then new else s.enis.get? k
  -- Addresses that the entry gains, loses, never had, and keeps. The address
  -- of an entry that holds it twice is forgotten with the first of the two.
  gained : ∀ ip, ip ∈ ipsOf new → ip ∉ ipsOf old → s'.ipToEni.get? ip = some eniId
  lost : ∀ ip, ip ∈ ipsOf old → ip ∉ ipsOf new → s'.ipToEni.get? ip = none
  foreign : ∀ ip, ip ∉ ipsOf old → ip ∉ ipsOf new → s'.ipToEni.get? ip = s.ipToEni.get? ip
  kept : ∀ ip, ip ∈ ipsOf old → ip ∈ ipsOf new →
    s'.ipToEni.get? ip = s.ipToEni.get? ip ∨
      (s'.ipToEni.get? ip = none ∧ ¬ (ipsOf old).Nodup)
  buckets : ∀ g, s'.bucketOf g =
    if g ∈ groupsOf new then
      (if g ∈ groupsOf old then s.bucketOf g else insert eniId (s.bucketOf g))
    else (if g ∈ groupsOf old then (s.bucketOf g).erase eniId else s.bucketOf g)
  -- A registration under the empty instance id is not listed.
  lists : ∀ i, s'.enisOf i =
    if instanceOf new = instanceOf old then s.enisOf i
    else (if instanceOf old = some i then (s.enisOf i).erase eniId else s.enisOf i) ++
      if instanceOf new = some i ∧ (old = none → i ≠ "") then [eniId] else []

theorem getD_leaveInstance (attached : Option String) (d : Dict String (List String)) (i : String) :
    (leaveInstance eniId attached d).getD i [] =
      if attached = some i then (d.getD i []).erase eniId else d.getD i [] := by
  rcases attached with _ | previous
  · rw [if_neg (by simp)]
    rfl
  · simp only [leaveInstance, getD_removeEniFromInstance, Option.some.injEq]

theorem buckets_same (eniId : String) (old new : Option EniEntry)
    (hindex : s'.sgToEnis = s.sgToEnis) (hsame : groupsOf new = groupsOf old) (g : String) :
    s'.bucketOf g =
      if g ∈ groupsOf new then
        (if g ∈ groupsOf old then s.bucketOf g else insert eniId (s.bucketOf g))
      else (if g ∈ groupsOf old then (s.bucketOf g).erase eniId else s.bucketOf g) := by
  have hbucket : s'.bucketOf g = s.bucketOf g := by rw [bucketOf, hindex, bucketOf]
  rw [hsame, hbucket]
  by_cases hg : g ∈ groupsOf old
  · rw [if_pos hg, if_pos hg]
  · rw [if_neg hg, if_neg hg]

theorem lists_same (eniId : String) (old new : Option EniEntry)
    (hindex : s'.instanceToEnis = s.instanceToEnis) (hsame : instanceOf new = instanceOf old)
    (i : String) :
    s'.enisOf i =
      if instanceOf new = instanceOf old then s.enisOf i
      else (if instanceOf old = some i then (s.enisOf i).erase eniId else s.enisOf i) ++
        if instanceOf new = some i ∧ (old = none → i ≠ "") then [eniId] else [] := by
  rw [if_pos hsame, enisOf, hindex, enisOf]

theorem insertEntry_change (entry : EniEntry) (h : s.enis.get? entry.eniId = none) :
    Change s (s.insertEntry entry) entry.eniId none (some entry) where
  old_eq := h
  key := by
    intro e he
    rw [Option.some.injEq] at he
    exact .inr ⟨rfl, he ▸ rfl⟩
  enis := fun k => Dict.get?_set _ _ _ _
  gained := fun ip hip _ => by
    rw [insertEntry, get?_indexIps, if_pos (show ip ∈ entry.allIps from hip)]
  lost := fun ip hip => absurd hip not_mem_nil
  foreign := fun ip _ hip => by
    rw [insertEntry, get?_indexIps, if_neg (show ip ∉ entry.allIps from hip)]
  kept := fun ip hip => absurd hip not_mem_nil
  buckets := fun g => by
    exact getD_joinGroups _ _ _ _
  lists := fun i => by
    rcases hinst : entry.instanceId with _ | instanceId
    · rw [if_pos (show instanceOf (some entry) = instanceOf none from hinst), enisOf, enisOf,
        insertEntry]
      simp only [hinst]
    · have hne : ¬ instanceOf (some entry) = instanceOf none := by
        simp [instanceOf, hinst]
      rw [if_neg hne, if_neg (by simp [instanceOf]), enisOf, enisOf, insertEntry]
      simp only [hinst, instanceOf, Option.bind_some, Option.some.injEq, true_implies]
      by_cases hempty : instanceId = ""
      · rw [if_pos hempty, if_neg (fun hc => hc.2 (hc.1 ▸ hempty)), append_nil]
      · rw [if_neg hempty, getD_appendToInstance]
        by_cases hi : instanceId = i
        · rw [if_pos hi, if_pos ⟨hi, hi ▸ hempty⟩]
        · rw [if_neg hi, if_neg (fun hc => hi hc.1)]

theorem replace_change (old new : EniEntry) (d : Dict String (List String))
    (h : s.enis.get? eniId = some old)
    (hid : old.eniId = new.eniId) (hips : old.allIps = new.allIps) (hsgs : old.sgIds = new.sgIds)
    (hlists : ∀ i, d.getD i [] =
      if new.instanceId = old.instanceId then s.enisOf i
      else (if old.instanceId = some i then (s.enisOf i).erase eniId else s.enisOf i) ++
        if new.instanceId = some i then [eniId] else []) :
    Change s { s with enis := s.enis.set eniId new, instanceToEnis := d } eniId (some old)
      (some new) where
  old_eq := h
  key := by
    intro e he
    rw [Option.some.injEq] at he
    exact .inl ⟨old, rfl, he ▸ hid⟩
  enis := fun k => Dict.get?_set _ _ _ _
  gained := fun ip hnew hold => absurd (show ip ∈ old.allIps from hips ▸ hnew) hold
  lost := fun ip hold hnew => absurd (show ip ∈ new.allIps from hips ▸ hold) hnew
  foreign := fun _ _ _ => rfl
  kept := fun _ _ _ => .inl rfl
  buckets := buckets_same _ _ _ _ _ rfl hsgs.symm
  lists := fun i => by
    simp
    exact hlists i

theorem attachEni_change (eniId instanceId ifaceName : String)
    (h : s.attachEni eniId instanceId ifaceName = .ok s') :
    ∃ old new, Change s s' eniId old new := by
  rw [attachEni] at h
  rcases hget : s.enis.get? eniId with _ | entry
  · rw [hget] at h
    cases h
  · rw [hget] at h
    by_cases hsame : entry.instanceId = some instanceId
    · simp only [if_pos hsame, Except.ok.injEq] at h
      rw [← h]
      exact ⟨_, _, replace_change s _ _ { entry with ifaceName := some ifaceName } _ hget
        rfl rfl rfl fun i => by rw [if_pos rfl]; rfl⟩
    · simp only [hsame, if_false, Except.ok.injEq] at h
      rw [← h]
      refine ⟨_, _, replace_change s _ _
        { entry with instanceId := some instanceId, ifaceName := some ifaceName } _ hget rfl rfl
        rfl fun i => ?_⟩
      rw [getD_appendToInstance, getD_leaveInstance, if_neg (Ne.symm hsame)]
      simp
      rfl

theorem detachEni_change :
    s.detachEni eniId = s ∨ ∃ old new, Change s (s.detachEni eniId) eniId old new := by
  rw [detachEni]
  rcases hget : s.enis.get? eniId with _ | entry
  · exact .inl rfl
  · refine .inr ⟨_, _, replace_change s _ _
      { entry with instanceId := none, ifaceName := none } _ hget rfl rfl rfl fun i => ?_⟩
    rw [getD_leaveInstance]
    rcases entry.instanceId with _ | previous
    · rw [if_neg (by simp)]
      rfl
    · simp [enisOf]

theorem deleteEni_change :
    (s.deleteEni eniId).1 = s ∨ ∃ old new, Change s (s.deleteEni eniId).1 eniId old new := by
  rw [deleteEni]
  rcases hget : s.enis.get? eniId with _ | entry
  · exact .inl rfl
  · refine .inr ⟨some entry, none, ?_⟩
    exact
      { old_eq := hget
        key := fun e he => absurd he (by simp)
        enis := fun k => Dict.get?_erase _ _ _
        gained := fun ip hip => absurd hip not_mem_nil
        lost := fun ip hip _ => by
          rw [get?_forgetIps, if_pos (show ip ∈ entry.allIps from hip)]
        foreign := fun ip hip _ => by
          rw [get?_forgetIps, if_neg (show ip ∉ entry.allIps from hip)]
        kept := fun ip _ hip => absurd hip not_mem_nil
        buckets := fun g => by
          exact getD_leaveGroups _ _ _ _
        lists := fun i => by
          have hnone : ¬ (instanceOf none = some i ∧ (some entry = none → i ≠ "")) := by
            simp [instanceOf]
          rw [if_neg hnone, append_nil, enisOf, getD_leaveInstance]
          rcases hinst : entry.instanceId with _ | previous
          · rw [if_neg (by simp), if_pos (by simp [instanceOf, hinst])]
            rfl
          · simp only [instanceOf, hinst, Option.bind_some]
            rfl }

theorem addSecondaryIp_change (eniId : String) (addr : IPv4Address)
    (h : s.addSecondaryIp eniId addr = .ok s') :
    s' = s ∨ ∃ old new, Change s s' eniId old new := by
  rw [addSecondaryIp] at h
  rcases hget : s.enis.get? eniId with _ | entry
  · rw [hget] at h
    cases h
  · rw [hget] at h
    by_cases hheld : addr = entry.primaryIp ∨ addr ∈ entry.secondaryIps
    · simp only [hheld, if_true, Except.ok.injEq] at h
      exact .inl h.symm
    · simp only [hheld, if_false, Except.ok.injEq] at h
      have hnot : addr ∉ entry.allIps := by rw [EniEntry.allIps, mem_cons]; exact hheld
      have hmem : ∀ ip, ip ∈ ipsOf (some { entry with
          secondaryIps := entry.secondaryIps ++ [addr] }) ↔ ip ∈ entry.allIps ∨ ip = addr := by
        intro ip
        simp [ipsOf, EniEntry.allIps, or_assoc]
      refine .inr ⟨some entry, some { entry with secondaryIps := entry.secondaryIps ++ [addr] }, ?_⟩
      rw [← h]
      exact
        { old_eq := hget
          key := fun e he => by
            rw [Option.some.injEq] at he
            exact .inl ⟨entry, rfl, he ▸ rfl⟩
          enis := fun k => Dict.get?_set _ _ _ _
          gained := fun ip hnew hold => by
            have heq : ip = addr := ((hmem ip).mp hnew).resolve_left hold
            rw [Dict.get?_set, if_pos heq]
          lost := fun ip hold hnew => absurd ((hmem ip).mpr (.inl hold)) hnew
          foreign := fun ip _ hnew => by
            rw [Dict.get?_set, if_neg (fun heq => hnew ((hmem ip).mpr (.inr heq)))]
          kept := fun ip hold _ => by
            have hne : ip ≠ addr := by
              rintro rfl
              exact hnot hold
            rw [Dict.get?_set, if_neg hne]
            exact .inl rfl
          buckets := buckets_same _ _ _ _ _ rfl rfl
          lists := lists_same _ _ _ _ _ rfl rfl }

theorem removeSecondaryIp_change (addr : IPv4Address) : s.removeSecondaryIp eniId addr = s ∨
      ∃ old new, Change s (s.removeSecondaryIp eniId addr) eniId old new := by
  rw [removeSecondaryIp]
  rcases hget : s.enis.get? eniId with _ | entry
  · exact .inl rfl
  · by_cases hheld : addr ∈ entry.secondaryIps
    · simp only [hheld, if_true]
      refine .inr ⟨some entry, some { entry with
        secondaryIps := entry.secondaryIps.erase addr }, ?_⟩
      -- What remains of the entry's addresses, and what the erased one is.
      have hsub : ∀ ip, ip ∈ ipsOf (some { entry with
          secondaryIps := entry.secondaryIps.erase addr }) → ip ∈ entry.allIps := by
        intro ip hip
        rcases List.mem_cons.mp hip with heq | hmem
        · exact List.mem_cons.mpr (.inl heq)
        · exact List.mem_cons.mpr (.inr (mem_of_mem_erase hmem))
      have haddr : addr ∈ entry.allIps := mem_cons_of_mem _ hheld
      have hother : ∀ ip, ip ≠ addr → ip ∈ entry.allIps → ip ∈ ipsOf (some { entry with
          secondaryIps := entry.secondaryIps.erase addr }) := by
        intro ip hne hip
        rcases List.mem_cons.mp hip with heq | hmem
        · exact List.mem_cons.mpr (.inl heq)
        · exact List.mem_cons.mpr (.inr ((mem_erase_of_ne hne).mpr hmem))
      exact
        { old_eq := hget
          key := fun e he => by
            rw [Option.some.injEq] at he
            exact .inl ⟨entry, rfl, he ▸ rfl⟩
          enis := fun k => Dict.get?_set _ _ _ _
          gained := fun ip hnew hold => absurd (hsub ip hnew) hold
          lost := fun ip hold hnew => by
            have heq : ip = addr := by
              by_contra hne
              exact hnew (hother ip hne hold)
            rw [Dict.get?_erase, if_pos heq]
          foreign := fun ip hold _ => by
            have hne : ip ≠ addr := by
              rintro rfl
              exact hold haddr
            rw [Dict.get?_erase, if_neg hne]
          kept := fun ip hold hnew => by
            rw [Dict.get?_erase]
            by_cases heq : ip = addr
            · rw [if_pos heq]
              refine .inr ⟨rfl, fun hnodup => ?_⟩
              have hcons : (entry.primaryIp :: entry.secondaryIps).Nodup := hnodup
              rw [nodup_cons] at hcons
              rcases List.mem_cons.mp hnew with hp | hmem
              · exact hcons.1 (hp ▸ heq ▸ hheld)
              · rw [heq] at hmem
                exact hcons.2.not_mem_erase hmem
            · rw [if_neg heq]
              exact .inl rfl
          buckets := buckets_same _ _ _ _ _ rfl rfl
          lists := lists_same _ _ _ _ _ rfl rfl }
    · exact .inl (by simp [hheld])

theorem updateSgs_change (eniId : String) (sgIds : List String)
    (h : s.updateSgs eniId sgIds = .ok s') : ∃ old new, Change s s' eniId old new := by
  rw [updateSgs] at h
  rcases hget : s.enis.get? eniId with _ | entry
  · rw [hget] at h
    cases h
  · rw [hget] at h
    simp only [Except.ok.injEq] at h
    refine ⟨some entry, some { entry with sgIds := sgIds }, ?_⟩
    rw [← h]
    exact
      { old_eq := hget
        key := fun e he => by
          rw [Option.some.injEq] at he
          exact .inl ⟨entry, rfl, he ▸ rfl⟩
        enis := fun k => Dict.get?_set _ _ _ _
        gained := fun ip hnew hold => absurd hnew hold
        lost := fun ip hold hnew => absurd hold hnew
        foreign := fun _ _ _ => rfl
        kept := fun _ _ _ => .inl rfl
        buckets := fun g => by
          rw [bucketOf, getD_joinGroups, getD_leaveGroups]
          simp only [mem_filter, decide_eq_true_eq, groupsOf, Option.map_some,
            Option.getD_some]
          by_cases hnew : g ∈ sgIds
          · by_cases hold : g ∈ entry.sgIds
            · simp [hnew, hold, bucketOf]
            · simp [hnew, hold, bucketOf]
          · by_cases hold : g ∈ entry.sgIds
            · simp [hnew, hold, bucketOf]
            · simp [hnew, hold, bucketOf]
        lists := lists_same _ _ _ _ _ rfl rfl }

theorem assign_change (a : Assignment) :
    s.assign eniId a.apply = s ∨ ∃ old new, Change s (s.assign eniId a.apply) eniId old new := by
  rw [assign]
  rcases hget : s.enis.get? eniId with _ | entry
  · exact .inl rfl
  · refine .inr ⟨_, _, replace_change s _ _ _ _ hget ?_ ?_ ?_
      fun i => ?_⟩
    · cases a <;> rfl
    · cases a <;> rfl
    · cases a <;> rfl
    · have hinst : (a.apply entry).instanceId = entry.instanceId := by cases a <;> rfl
      rw [if_pos hinst]
      rfl

/-- What an operation does: nothing, or the replacement of one entry. -/
theorem step_change (op : Operation) :
    s.step op = s ∨ ∃ eniId old new, Change s (s.step op) eniId old new := by
  have herror : ∀ e, s.apply op = .error e → s.step op = s := by
    intro e he
    rw [step, he]
  have hok : ∀ s', s.apply op = .ok s' → s.step op = s' := by
    intro s' hs'
    rw [step, hs']
  rcases happly : s.apply op with e | s'
  · exact .inl (herror e happly)
  · rw [hok s' happly]
    cases op with
    | registerEni r =>
      rw [apply, registerEni] at happly
      rcases hget : s.enis.get? r.eniId with _ | entry
      · rw [hget] at happly
        simp only [Except.ok.injEq] at happly
        rw [← happly]
        exact .inr ⟨r.eniId, none, some r.entry, insertEntry_change s _ hget⟩
      · rw [hget] at happly
        cases happly
    | attachEni eniId =>
      exact .inr ⟨eniId, attachEni_change s s' _ _ _ happly⟩
    | detachEni eniId =>
      rw [apply, Except.ok.injEq] at happly
      rw [← happly]
      exact (detachEni_change s _).imp_right fun h => ⟨eniId, h⟩
    | deleteEni eniId =>
      rw [apply, Except.ok.injEq] at happly
      rw [← happly]
      exact (deleteEni_change s _).imp_right fun h => ⟨eniId, h⟩
    | addSecondaryIp eniId ip =>
      exact (addSecondaryIp_change s s' _ ip happly).imp_right fun h => ⟨eniId, h⟩
    | removeSecondaryIp eniId ip =>
      rw [apply, Except.ok.injEq] at happly
      rw [← happly]
      exact (removeSecondaryIp_change s _ ip).imp_right fun h => ⟨eniId, h⟩
    | updateSgs eniId =>
      exact .inr ⟨eniId, updateSgs_change s s' _ _ happly⟩
    | assign eniId a =>
      rw [apply, Except.ok.injEq] at happly
      rw [← happly]
      exact (assign_change s _ a).imp_right fun h => ⟨eniId, h⟩

/-- What every change preserves holds after every run. -/
theorem run_induction (P : AddressIndex → Prop) (hempty : P empty)
    (hchange : ∀ s s' eniId old new, P s → Change s s' eniId old new → P s')
    (ops : List Operation) : P (run ops) := by
  induction ops using reverseRecOn with
  | nil => exact hempty
  | append_singleton ops op ih =>
    rw [run, foldl_append]
    change P (step (run ops) op)
    rcases step_change _ op with heq | ⟨eniId, old, new, hc⟩
    · rw [heq]
      exact ih
    · exact hchange _ _ _ _ _ ih hc

end AddressIndex

end LocalEmu.Ec2
