import LocalEmu.Core.Ec2.InstanceRoutes

/-!
# The Two Directions of the Route Tables

A subnet with an association has one table that lists it, and a subnet without has the main
table of its VPC, which lists it because it inherits. So both directions agree, whatever the
order of the tables is.
-/

namespace LocalEmu.Ec2.Ec2Backend

open List Option

variable {backend : Ec2Backend} {subnetId : String} {vpcId : String}

/-- The main table of a VPC. -/
def IsMain (vpcId : String) (rt : RouteTable) : Prop :=
  rt.vpcId = vpcId ∧ rt.mainAssociationId.isSome

/-- Subnets have ids of their own, under which they are found. The VPC of a subnet has one main
    table, and a subnet is associated with one table at most, which is one of its VPC. -/
structure Consistent (backend : Ec2Backend) : Prop where
  ids : (backend.flatSubnets.map Subnet.id).Nodup
  keyed : ∀ zone ∈ backend.subnets.values, ∀ id sub, zone.get? id = some sub → sub.id = id
  named : ∀ sub ∈ backend.flatSubnets, sub.id ≠ "" ∧ sub.vpcId ≠ "" ∧
    backend.subnets.get? sub.id = none
  main : ∀ sub ∈ backend.flatSubnets, ∃ id rt, backend.routeTables.get? id = some rt ∧
    IsMain sub.vpcId rt ∧ ∀ id' rt', backend.routeTables.get? id' = some rt' →
      IsMain sub.vpcId rt' → id' = id
  explicit : ∀ sub ∈ backend.flatSubnets, ∀ id rt, backend.routeTables.get? id = some rt →
    sub.id ∈ rt.associations.values → rt.vpcId = sub.vpcId ∧
      ∀ id' rt', backend.routeTables.get? id' = some rt' → sub.id ∈ rt'.associations.values →
        id' = id

theorem isExplicit_iff : backend.isExplicit subnetId = true ↔
      ∃ id rt, backend.routeTables.get? id = some rt ∧ subnetId ∈ rt.associations.values := by
  simp only [isExplicit, List.any_eq_true, Dict.values, List.mem_map,
    Dict.get?_eq_some_iff, Prod.exists]
  grind

/-! ### The table of a subnet -/

theorem subnetVpc?_of_mem (h : Consistent backend) (sub : Subnet)
    (hsub : sub ∈ backend.flatSubnets) : backend.subnetVpc? sub.id = some (some sub.vpcId) := by
  rw [subnetVpc?, (h.named _ hsub).2.2]
  cases hfind : backend.subnets.values.findSome? fun zone => zone.get? sub.id with
  | none =>
    obtain ⟨zone, hzone, hvalue⟩ := mem_flatMap.mp hsub
    obtain ⟨entry, hentry, rfl⟩ := mem_map.mp hvalue
    have hget := (Dict.get?_eq_some_iff _ _ _).mpr hentry
    have hnone := findSome?_eq_none_iff.mp hfind _ hzone
    rw [h.keyed _ hzone _ _ hget, hget] at hnone
    cases hnone
  | some found =>
    obtain ⟨zone, hzone, hget⟩ := exists_of_findSome?_eq_some hfind
    have hmem : found ∈ backend.flatSubnets := mem_flatMap.mpr ⟨zone, hzone,
      mem_map.mpr ⟨_, (Dict.get?_eq_some_iff _ _ _).mp hget, rfl⟩⟩
    rw [inj_on_of_nodup_map h.ids hmem hsub (h.keyed _ hzone _ _ hget)]
    rfl

/-- What the loop returns. -/
theorem resolveLoop_explicit (vpc main : Option String) (rts : List (String × RouteTable))
    (h : ∃ e ∈ rts, subnetId ∈ e.2.associations.values) :
    ∃ e ∈ rts, subnetId ∈ e.2.associations.values ∧
      resolveLoop subnetId vpc rts main = some e.1 := by
  induction rts generalizing main with
  | nil => simp at h
  | cons e rts ih =>
    by_cases he : subnetId ∈ e.2.associations.values
    · exact ⟨e, mem_cons_self, he, if_pos he⟩
    · have hrest : ∃ e ∈ rts, subnetId ∈ e.2.associations.values := by simpa [he] using h
      rcases ih _ hrest with ⟨e', hmem, hexplicit, heq⟩
      exact ⟨e', mem_cons_of_mem e hmem, hexplicit, (if_neg he).trans heq⟩

theorem resolveLoop_main (main : Option String) (rts : List (String × RouteTable))
    (hnone : ∀ e ∈ rts, subnetId ∉ e.2.associations.values)
    (h : main.isSome ∨ ∃ e ∈ rts, IsMain vpcId e.2) :
    ∃ id, resolveLoop subnetId (some vpcId) rts main = some id ∧
      (main = some id ∨ ∃ e ∈ rts, IsMain vpcId e.2 ∧ e.1 = id) := by
  induction rts generalizing main with
  | nil =>
    rcases isSome_iff_exists.mp (by simpa using h) with ⟨id, rfl⟩
    exact ⟨id, rfl, .inl rfl⟩
  | cons e rts ih =>
    have hhead := hnone e mem_cons_self
    have hrest : ∀ e ∈ rts, subnetId ∉ e.2.associations.values :=
      fun e he => hnone e (mem_cons_of_mem _ he)
    have hloop : resolveLoop subnetId (some vpcId) (e :: rts) main =
        resolveLoop subnetId (some vpcId) rts
          (if some e.2.vpcId = some vpcId ∧ e.2.mainAssociationId.isSome then some e.1
            else main) := if_neg hhead
    rw [hloop]
    by_cases he : IsMain vpcId e.2
    · rw [if_pos ⟨congrArg _ he.1, he.2⟩]
      rcases ih (some e.1) hrest (.inl rfl) with ⟨id, hid, hcases⟩
      refine ⟨id, hid, .inr ?_⟩
      rcases hcases with heq | ⟨e', hmem, hmain⟩
      · exact ⟨e, mem_cons_self, he, some.inj heq⟩
      · exact ⟨e', mem_cons_of_mem e hmem, hmain⟩
    · rw [if_neg fun h => he ⟨some.inj h.1, h.2⟩]
      have h : main.isSome ∨ ∃ e ∈ rts, IsMain vpcId e.2 := by simpa [he] using h
      rcases ih _ hrest h with ⟨id, hid, hcases⟩
      refine ⟨id, hid, hcases.imp_right ?_⟩
      rintro ⟨e', hmem, hmain⟩
      exact ⟨e', mem_cons_of_mem e hmem, hmain⟩

/-! ### The subnets of a table -/

theorem foldl_addExplicit (l out : List String) (hout : out.Nodup) :
    (l.foldl addExplicit out).Nodup ∧
      ∀ id, id ∈ l.foldl addExplicit out ↔ id ∈ out ∨ (id ∈ l ∧ id ≠ "") := by
  induction l generalizing out with
  | nil => simp [hout]
  | cons sub l ih =>
    rw [foldl_cons, addExplicit]
    by_cases h : sub ≠ "" ∧ sub ∉ out
    · rw [if_pos h]
      have hnodup : (out ++ [sub]).Nodup :=
        hout.append (nodup_singleton _) (disjoint_singleton.mpr h.2)
      refine ⟨(ih _ hnodup).1, fun id => ?_⟩
      grind
    · rw [if_neg h]
      refine ⟨(ih _ hout).1, fun id => ?_⟩
      grind

theorem mem_subnetsInheriting (h : Consistent backend) (rt : RouteTable) (sub : Subnet)
    (hsub : sub ∈ backend.flatSubnets) :
    sub.id ∈ backend.subnetsInheritingMainRouteTable rt ↔
      rt.vpcId = sub.vpcId ∧ backend.isExplicit sub.id = false := by
  have hnamed := h.named _ hsub
  rw [subnetsInheritingMainRouteTable]
  by_cases hvpc : rt.vpcId = ""
  · rw [hvpc]
    simp [hnamed.2.1.symm]
  · rw [if_neg hvpc, List.mem_map]
    constructor
    · rintro ⟨other, hother, heq⟩
      rw [List.mem_filter] at hother
      cases List.inj_on_of_nodup_map h.ids hother.1 hsub heq
      simp only [Bool.and_eq_true, decide_eq_true_eq, Bool.not_eq_true'] at hother
      exact ⟨hother.2.1.2.symm, hother.2.2⟩
    · intro hinherits
      exact ⟨sub, mem_filter.mpr ⟨hsub, by simp [hnamed.1, hinherits]⟩, rfl⟩

theorem nodup_getSubnetsForRouteTable (h : Consistent backend) (id : String) :
    (backend.getSubnetsForRouteTable id).Nodup := by
  rw [getSubnetsForRouteTable]
  cases hget : backend.routeTables.get? id with
  | none => exact nodup_nil
  | some rt =>
    have hout := foldl_addExplicit rt.associations.values [] nodup_nil
    have hinherits : (backend.subnetsInheritingMainRouteTable rt).Nodup := by
      rw [subnetsInheritingMainRouteTable]
      split
      · exact nodup_nil
      · exact h.ids.sublist (filter_sublist.map _)
    simp only
    split
    · refine hout.1.append hinherits fun other hother hin => ?_
      have hmem := ((hout.2 _).mp hother).resolve_left (by simp)
      have hexplicit := isExplicit_iff.mpr ⟨id, rt, hget, hmem.1⟩
      rw [subnetsInheritingMainRouteTable] at hin
      grind
    · exact hout.1

/-- What is listed. -/
theorem mem_getSubnetsForRouteTable (h : Consistent backend) (sub : Subnet)
    (hsub : sub ∈ backend.flatSubnets) (id : String) :
    sub.id ∈ backend.getSubnetsForRouteTable id ↔
      ∃ rt, backend.routeTables.get? id = some rt ∧ (sub.id ∈ rt.associations.values ∨
        IsMain sub.vpcId rt ∧ backend.isExplicit sub.id = false) := by
  rw [getSubnetsForRouteTable]
  cases hget : backend.routeTables.get? id with
  | none => simp
  | some rt =>
    have hout := (foldl_addExplicit rt.associations.values [] nodup_nil).2 sub.id
    simp only [some.injEq, exists_eq_left', IsMain]
    split
    · next hmain =>
        rw [mem_append, hout, mem_subnetsInheriting h rt _ hsub]
        simp [(h.named _ hsub).1, hmain]
    · next hmain =>
        rw [hout]
        simp [(h.named _ hsub).1, hmain]

/-- A subnet has the table that lists it, and is listed once. -/
theorem resolve_iff_mem_subnets (h : Consistent backend) (sub : Subnet)
    (hsub : sub ∈ backend.flatSubnets) (id : String) :
    (backend.resolveRouteTableForSubnet sub.id = some id ↔
      sub.id ∈ backend.getSubnetsForRouteTable id) ∧
    (sub.id ∈ backend.getSubnetsForRouteTable id →
      (backend.getSubnetsForRouteTable id).count sub.id = 1) := by
  refine ⟨?_, count_eq_one_of_mem (nodup_getSubnetsForRouteTable h id)⟩
  rw [mem_getSubnetsForRouteTable h _ hsub, resolveRouteTableForSubnet,
    subnetVpc?_of_mem h _ hsub, bind_some]
  have hentries (e : String × RouteTable) :
      e ∈ backend.routeTables.entries ↔ backend.routeTables.get? e.1 = some e.2 :=
    (Dict.get?_eq_some_iff _ _ _).symm
  by_cases hexplicit : backend.isExplicit sub.id = true
  · obtain ⟨_, rt, hrt, hassoc⟩ := isExplicit_iff.mp hexplicit
    obtain ⟨e, he, heassoc, heq⟩ := resolveLoop_explicit _ _ _
      ⟨(_, rt), (hentries _).mpr hrt, hassoc⟩
    have hunique := (h.explicit _ hsub e.1 e.2 ((hentries e).mp he) heassoc).2
    rw [heq, some.injEq]
    constructor
    · rintro rfl
      exact ⟨e.2, (hentries e).mp he, .inl heassoc⟩
    · rintro ⟨rt', hrt', hassoc' | ⟨-, hnot⟩⟩
      · exact (hunique id _ hrt' hassoc').symm
      · simp [hexplicit] at hnot
  · obtain ⟨mainId, rt, hrt, hmain, hunique⟩ := h.main _ hsub
    have hnone : ∀ e ∈ backend.routeTables.entries, sub.id ∉ e.2.associations.values :=
      fun e he hassoc => hexplicit (isExplicit_iff.mpr ⟨e.1, e.2, (hentries e).mp he, hassoc⟩)
    obtain ⟨found, heq, hfound⟩ := resolveLoop_main none _ hnone
      (.inr ⟨(mainId, rt), (hentries _).mpr hrt, hmain⟩)
    have hfound : found = mainId := by
      obtain ⟨e, he, hemain, rfl⟩ := hfound.resolve_left (by simp)
      exact hunique e.1 e.2 ((hentries e).mp he) hemain
    rw [heq, some.injEq, hfound]
    constructor
    · rintro rfl
      exact ⟨rt, hrt, .inr ⟨hmain, Bool.eq_false_iff.mpr hexplicit⟩⟩
    · rintro ⟨rt', hrt', hassoc' | ⟨hmain', -⟩⟩
      · exact absurd (isExplicit_iff.mpr ⟨id, rt', hrt', hassoc'⟩) hexplicit
      · exact (hunique id _ hrt' hmain').symm

def exampleTable : RouteTable :=
  ⟨"vpc-1", some "rtbassoc-1", Dict.ofEntries [("rtbassoc-2", "subnet-2")]⟩

def exampleBackend : Ec2Backend where
  routeTables := Dict.ofEntries [("rtb-1", exampleTable)]
  subnets := Dict.ofEntries [("us-east-1a", Dict.ofEntries
    [("subnet-1", ⟨"subnet-1", "vpc-1"⟩), ("subnet-2", ⟨"subnet-2", "vpc-1"⟩)])]

theorem consistent_exampleBackend : Consistent exampleBackend := by
  have htable : ∀ id rt, exampleBackend.routeTables.get? id = some rt →
      id = "rtb-1" ∧ rt = exampleTable := by
    intro id rt h
    simpa [Dict.get?_eq_some_iff, exampleBackend, Dict.entries_ofEntries] using h
  refine ⟨by decide +kernel, ?_, by decide +kernel, fun sub hsub => ?_, fun sub hsub => ?_⟩
  · intro zone hzone id sub hget
    simp [exampleBackend, Dict.values, Dict.entries_ofEntries] at hzone
    subst hzone
    rw [Dict.get?_eq_some_iff, Dict.entries_ofEntries _ (by decide)] at hget
    grind
  · have hvpc : sub.vpcId = "vpc-1" := by
      revert sub
      decide +kernel
    refine ⟨"rtb-1", exampleTable, rfl, ⟨hvpc.symm, rfl⟩, fun id rt h _ => (htable id rt h).1⟩
  · have hvpc : sub.vpcId = "vpc-1" := by
      revert sub
      decide +kernel
    intro id rt hget hassoc
    rcases htable id rt hget with ⟨rfl, rfl⟩
    exact ⟨hvpc.symm, fun id rt h _ => (htable id rt h).1⟩

theorem resolve_of_exampleBackend :
    exampleBackend.resolveRouteTableForSubnet "subnet-1" = some "rtb-1" ↔
      "subnet-1" ∈ exampleBackend.getSubnetsForRouteTable "rtb-1" :=
  (resolve_iff_mem_subnets consistent_exampleBackend ⟨"subnet-1", "vpc-1"⟩ (by decide +kernel)
    "rtb-1").1

end LocalEmu.Ec2.Ec2Backend
