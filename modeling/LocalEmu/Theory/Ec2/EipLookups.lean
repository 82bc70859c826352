import LocalEmu.Core.Ec2.EipStore

/-!
# Looking Up Elastic IPs

The associations that are live are kept in a list, in the order in which they were
registered. The store has them all, but it forgets an address when any association
of it is dropped.
-/

namespace LocalEmu.Ec2.EipStore

open List

/-- The live associations, and whether the last call about an address is a registration. -/
structure Ledger where
  live : List EipAssociation
  recent : Bool

namespace Ledger

/-- A call. What is dropped is about its address. -/
def apply (publicIp : String) (ledger : Ledger) : EipCall → Ledger
  | .register assoc => ⟨ledger.live ++ [assoc], assoc.publicIp == publicIp || ledger.recent⟩
  | .drop associationId =>
    ⟨ledger.live.filter fun assoc => assoc.id ≠ associationId, ledger.recent &&
      ledger.live.all fun assoc => assoc.id ≠ associationId || assoc.publicIp ≠ publicIp⟩

/-- The ledger after some calls. -/
def after (publicIp : String) (calls : List EipCall) : Ledger :=
  calls.foldl (apply publicIp) ⟨[], false⟩

/-- What was registered last for the address and is live. -/
def last? (ledger : Ledger) (publicIp : String) : Option EipAssociation :=
  (ledger.live.filter fun assoc => assoc.publicIp = publicIp).getLast?

end Ledger

def registered (calls : List EipCall) : List String :=
  calls.filterMap fun call =>
    match call with
    | .register assoc => some assoc.id
    | .drop _ => none

/-- The store has the live associations, and an identifier for an address if it is recent. -/
structure Agrees (publicIp : String) (ledger : Ledger) (s : EipStore) : Prop where
  entries : s.associations.entries = ledger.live.map fun assoc => (assoc.id, assoc)
  index : s.idByIp.get? publicIp =
    if ledger.recent then (ledger.last? publicIp).map EipAssociation.id else none

variable {publicIp : String} {ledger : Ledger} {s : EipStore}

theorem Agrees.get? (h : Agrees publicIp ledger s) (id : String) (assoc : EipAssociation) :
    s.associations.get? id = some assoc ↔ assoc ∈ ledger.live ∧ assoc.id = id := by
  rw [Dict.get?_eq_some_iff, h.entries]
  grind

/-- A call keeps the store in agreement with the list. -/
theorem apply_agrees (h : Agrees publicIp ledger s) (call : EipCall)
    (hnew : ∀ assoc, call = .register assoc → ∀ other ∈ ledger.live, other.id ≠ assoc.id) :
    Agrees publicIp (ledger.apply publicIp call) (s.apply call) := by
  cases call with
  | register assoc =>
    have hkeys : assoc.id ∉ s.associations.keys := by
      rw [Dict.keys, h.entries]
      grind
    refine ⟨?_, ?_⟩
    · show (s.associations.set assoc.id assoc).entries = _
      rw [Dict.entries_set_new _ _ _ hkeys, h.entries, Ledger.apply, map_append]
      rfl
    · show (s.idByIp.set assoc.publicIp assoc.id).get? publicIp = _
      rw [Dict.get?_set, h.index]
      by_cases hip : publicIp = assoc.publicIp
      · simp [hip, Ledger.apply, Ledger.last?]
      · simp [hip, Ne.symm hip, Ledger.apply, Ledger.last?]
  | drop id =>
    cases hget : s.associations.get? id with
    | none =>
      have hid : ∀ assoc ∈ ledger.live, assoc.id ≠ id := fun assoc hmem heq =>
        absurd ((h.get? id _).mpr ⟨hmem, heq⟩) (by simp [hget])
      have hsame : ledger.apply publicIp (.drop id) = ledger := by
        have hfilter : (ledger.live.filter fun assoc => assoc.id ≠ id) = ledger.live :=
          filter_eq_self.mpr (by simpa using hid)
        have hall : (ledger.live.all fun assoc =>
            assoc.id ≠ id || assoc.publicIp ≠ publicIp) = true := by
          grind
        rw [Ledger.apply, hfilter, hall, Bool.and_true]
      rw [hsame, apply, dropAssociation, hget]
      exact h
    | some assoc =>
      -- The entry is that of one live association. The identifier for its address goes with it,
      -- even if it is that of another one.
      have huniq : ∀ other ∈ ledger.live, other.id = id → other = assoc := fun other hmem heq =>
        Option.some.inj (((h.get? id _).mpr ⟨hmem, heq⟩).symm.trans hget)
      obtain ⟨hmem, hid⟩ := (h.get? id _).mp hget
      rw [apply, dropAssociation, hget]
      refine ⟨?_, ?_⟩
      · show s.associations.entries.filter _ = _
        rw [h.entries, filter_map]
        rfl
      · show (s.idByIp.erase assoc.publicIp).get? publicIp = _
        rw [Dict.get?_erase, h.index, Ledger.apply, Ledger.last?, Ledger.last?, filter_filter]
        by_cases hip : publicIp = assoc.publicIp
        · have hall : (ledger.live.all fun other =>
              other.id ≠ id || other.publicIp ≠ publicIp) = false := by
            simp
            exact ⟨assoc, hmem, by simp [hid, hip]⟩
          rw [if_pos hip, hall, Bool.and_false]
          rfl
        · have hall : (ledger.live.all fun other =>
              other.id ≠ id || other.publicIp ≠ publicIp) = true := by
            grind
          have hfilter : (ledger.live.filter fun other =>
              decide (other.publicIp = publicIp) && decide (other.id ≠ id)) =
              ledger.live.filter fun other => other.publicIp = publicIp := by
            refine filter_congr fun other hother => ?_
            grind
          rw [if_neg hip, hall, hfilter, Bool.and_true]

theorem after_agrees (publicIp : String) (calls : List EipCall)
    (hids : (registered calls).Nodup) :
    Agrees publicIp (Ledger.after publicIp calls) (after calls) ∧
      ∀ assoc ∈ (Ledger.after publicIp calls).live, assoc.id ∈ registered calls := by
  induction calls using reverseRecOn with
  | nil => exact ⟨⟨rfl, rfl⟩, nofun⟩
  | append_singleton calls call ih =>
    rw [registered, filterMap_append] at hids ⊢
    obtain ⟨hagrees, hlive⟩ := ih (nodup_append.mp hids).1
    rw [Ledger.after, after, foldl_append, foldl_append]
    refine ⟨apply_agrees hagrees _ ?_, ?_⟩
    · rintro assoc rfl other hother heq
      exact (nodup_append.mp hids).2.2 _ (hlive _ hother) _ (by simp) heq
    · intro assoc hassoc
      cases call with
      | register => 
        rcases mem_append.mp hassoc with hold | hnew
        · exact mem_append_left _ (hlive _ hold)
        · simp [mem_singleton.mp hnew]
      | drop => exact mem_append_left _ (hlive _ (mem_filter.mp hassoc).1)

/-- An address is found to be what was registered last for it and is live, if and only if
    nothing is live or the last call about it is a registration. -/
theorem byIp_iff (publicIp : String) (calls : List EipCall) (hids : (registered calls).Nodup) :
    (after calls).byIp publicIp = (Ledger.after publicIp calls).last? publicIp ↔
      (∀ assoc ∈ (Ledger.after publicIp calls).live, assoc.publicIp ≠ publicIp) ∨
        (Ledger.after publicIp calls).recent = true := by
  obtain ⟨hagrees, -⟩ := after_agrees _ _ hids
  have hnone : (Ledger.after publicIp calls).last? publicIp = none ↔
      ∀ assoc ∈ (Ledger.after publicIp calls).live, assoc.publicIp ≠ publicIp := by
    simp [Ledger.last?]
  rw [byIp, hagrees.index, ← hnone]
  cases hlast : (Ledger.after publicIp calls).last? publicIp with
  | none => simp
  | some =>
    have hmem := mem_of_getLast? hlast
    have hget := (hagrees.get? _ _).mpr ⟨(mem_filter.mp hmem).1, rfl⟩
    by_cases hrecent : (Ledger.after publicIp calls).recent = true
    · simp [hrecent, hget]
    · simp [hrecent]

def oldAssociation : EipAssociation := ⟨"eipalloc", "1.2.3.4", "i-1", some "old"⟩

def newAssociation : EipAssociation := ⟨"eipalloc", "1.2.3.4", "i-2", some "new"⟩

/-- The address is associated again after it was disassociated. -/
def orderedCalls : List EipCall :=
  [.register oldAssociation, .drop "old", .register newAssociation]

theorem byIp_of_registered : (after orderedCalls).byIp "1.2.3.4" =
    (Ledger.after "1.2.3.4" orderedCalls).last? "1.2.3.4" :=
  (byIp_iff "1.2.3.4" orderedCalls (by decide)).mpr (.inr rfl)

/-- The old association is dropped after the address was associated again. -/
theorem byIp_forgets : (after [.register oldAssociation, .register newAssociation,
      .drop "old"]).byIp "1.2.3.4" = none ∧
    (Ledger.after "1.2.3.4" [.register oldAssociation, .register newAssociation,
      .drop "old"]).last? "1.2.3.4" = some newAssociation := by
  decide

/-- An address is never found to be anything but what was registered last for it and is live, and
    an allocation is always found to be its oldest live association. -/
theorem lookups_live (publicIp allocationId : String) (calls : List EipCall)
    (hids : (registered calls).Nodup) :
    (∀ assoc, (after calls).byIp publicIp = some assoc →
      (Ledger.after publicIp calls).last? publicIp = some assoc) ∧
    (after calls).byAllocation allocationId = (Ledger.after publicIp calls).live.find? fun assoc =>
      assoc.allocationId = allocationId := by
  obtain ⟨hagrees, -⟩ := after_agrees publicIp _ hids
  constructor
  · intro assoc hfound
    rw [byIp, hagrees.index] at hfound
    split at hfound
    · -- An identifier that is kept is that of the last one, which is still there.
      obtain ⟨id, hid, hget⟩ := Option.bind_eq_some_iff.mp hfound
      obtain ⟨last, hlast, rfl⟩ := Option.map_eq_some_iff.mp hid
      have hmem := (mem_filter.mp (mem_of_getLast? hlast)).1
      rw [(hagrees.get? _ _).mpr ⟨hmem, rfl⟩] at hget
      exact hget ▸ hlast
    · cases hfound
  · rw [byAllocation, Dict.values, hagrees.entries, List.map_map]
    exact congrArg _ (map_id _)

theorem lookups_live_of_registered :
    (Ledger.after "1.2.3.4" orderedCalls).last? "1.2.3.4" = some newAssociation :=
  (lookups_live "1.2.3.4" "eipalloc" orderedCalls (by decide)).1 _ (by decide)

end LocalEmu.Ec2.EipStore
