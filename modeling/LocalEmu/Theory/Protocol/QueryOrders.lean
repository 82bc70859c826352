import LocalEmu.Theory.Protocol.QueryEncoding

/-!
# The Orders of Query Parameters

Of two parameters that are taken at one place, the later one counts. A value that is parsed
from its parameters in every order is therefore one that nothing disturbs: each parameter
that is taken at the place of a scalar is the last one in some order. For maps this is not
so, since a parameter may only repeat an entry that is there.
-/

namespace LocalEmu.Protocol.Query

open List Option

variable {K V : Type}

/-! ### Orders -/

/-- What is under a name comes in all orders too. -/
theorem exists_perm_filterMap {α β : Type} {f : α → Option β} {l : List α} {o' : List β}
    (h : o'.Perm (l.filterMap f)) : ∃ o : List α, o.Perm l ∧ o.filterMap f = o' := by
  induction l generalizing o' with
  | nil => exact ⟨[], List.Perm.refl _, h.eq_nil.symm⟩
  | cons a l ih =>
    cases hf : f a with
    | none =>
      rw [filterMap_cons_none hf] at h
      rcases ih h with ⟨o, ho, heq⟩
      exact ⟨a :: o, ho.cons a, by rw [filterMap_cons_none hf, heq]⟩
    | some b =>
      rw [filterMap_cons_some hf] at h
      rcases append_of_mem (h.mem_iff.mpr mem_cons_self) with ⟨s, t, rfl⟩
      have hrest : (s ++ t).Perm (l.filterMap f) := (perm_cons b).mp (perm_middle.symm.trans h)
      rcases ih hrest with ⟨o, ho, heq⟩
      -- The item goes to the place that its image has.
      rcases filterMap_eq_append_iff.mp heq with ⟨o₁, o₂, rfl, rfl, rfl⟩
      refine ⟨o₁ ++ a :: o₂, perm_middle.trans (ho.cons a), ?_⟩
      rw [filterMap_append, filterMap_cons_some hf]

theorem exists_perm_get {params : Node} {item : Text × Text} (h : item ∈ params) :
    ∃ o : Node, o.Perm params ∧ o.get item.1 = some item.2 := by
  refine ⟨params.erase item ++ [item], ?_, ?_⟩
  · exact perm_append_comm.trans (perm_cons_erase h).symm
  · simp [Node.get]

/-! ### Loops -/

section Loops

variable {α : Type} {find : ℕ → Except ParserError (Option α)}

theorem find_of_collect_nil {fuel s : ℕ} (h : collect find (fuel + 1) s = .ok []) :
    find s = .ok none := by
  rw [collect] at h
  cases hf : find s with
  | error => rw [hf] at h; cases h
  | ok r =>
    cases r with
    | none => rfl
    | some =>
      rw [hf] at h
      cases hc : collect find fuel (s + 1) <;> rw [hc] at h <;> cases h

theorem find_of_collect {xs : List α} {fuel s : ℕ} (h : collect find fuel s = .ok xs)
    (hfuel : xs.length < fuel) :
    (∀ x ∈ xs.zipIdx s, find x.2 = .ok (some x.1)) ∧ find (s + xs.length) = .ok none := by
  induction fuel generalizing s xs with
  | zero => exact absurd hfuel (Nat.not_lt_zero _)
  | succ fuel ih =>
    cases xs with
    | nil => exact ⟨fun _ hx => absurd hx not_mem_nil, find_of_collect_nil h⟩
    | cons =>
      rw [collect] at h
      cases hf : find s with
      | error => rw [hf] at h; cases h
      | ok r =>
        rw [hf] at h
        cases r with
        | none => cases h
        | some =>
          cases hc : collect find fuel (s + 1) with
          | error => rw [hc] at h; cases h
          | ok =>
            rw [hc] at h
            injection h with h
            injection h with hx hzs
            rw [hx] at hf
            rw [hzs] at hc
            rcases ih hc (by simpa using hfuel) with ⟨hall, hstop⟩
            constructor
            · intro z hz
              rcases mem_cons.mp hz with rfl | hz
              · exact hf
              · exact hall z hz
            · rw [← hstop, length_cons]
              congr 1
              omega

theorem length_lt_of_collect {xs : List α} {fuel s stop : ℕ}
    (h : collect find fuel s = .ok xs) (hs : s ≤ stop) (hstop : stop < s + fuel)
    (hnone : find stop = .ok none) : xs.length ≤ stop - s := by
  induction fuel generalizing s xs with
  | zero => omega
  | succ fuel ih =>
    rw [collect] at h
    cases hf : find s with
    | error => rw [hf] at h; cases h
    | ok r =>
      rw [hf] at h
      cases r with
      | none =>
        injection h with h
        rw [← h]
        exact Nat.zero_le _
      | some =>
        have hne : s ≠ stop := by
          rintro rfl
          rw [hnone] at hf
          cases hf
        cases hc : collect find fuel (s + 1) with
        | error => rw [hc] at h; cases h
        | ok =>
          rw [hc] at h
          injection h with h
          have hle := ih hc (by omega) (by omega)
          rw [← h, length_cons]
          omega

end Loops

/-! ### Places -/

section Places

variable {scalars : Scalars K V} {params : Node} {shape : Shape K} {name : Text}

theorem parse_under {parse : Payload → Except ParserError (Option (Value V))}
    {r : Option (Value V)} (hne : under name params ≠ [])
    (h : ∀ o : Node, o.Perm params →
      (if under name o = [] then .ok none else parse (.node (under name o))) = .ok r)
    (o' : Node) (ho' : o'.Perm (under name params)) : parse (.node o') = .ok r := by
  obtain ⟨o, ho, rfl⟩ : ∃ o : Node, o.Perm params ∧ under name o = o' := exists_perm_filterMap ho'
  have hne' : under name o ≠ [] := fun hnil => hne (hnil ▸ ho').symm.eq_nil
  rw [← h o ho, if_neg hne']

theorem vacantAt_of_parse {inner : Node → Prop}
    (hinner : ∀ params : Node, (∀ o : Node, o.Perm params →
      parseShape (V := V) scalars shape (.node o) = .ok none) → inner params)
    (h : ∀ o : Node, o.Perm params →
      processMember (parseShape (V := V) scalars shape) shape name o = .ok none) :
    VacantAt inner shape name params := by
  have hcomplex (h : ∀ o : Node, o.Perm params →
      (if under name o = [] then .ok none else
        parseShape (V := V) scalars shape (.node (under name o))) = .ok none) :
      under name params ≠ [] → inner (under name params) :=
    fun hne => hinner _ (parse_under hne h)
  cases shape with
  | scalar ser shapeName kind =>
    intro item hitem hname
    rcases exists_perm_get hitem with ⟨o, ho, hget⟩
    have hnone := h o ho
    rw [← hname] at hnone
    simp only [processMember, subNode, hget, map_some, parseShape] at hnone
    cases hx : scalars.parse kind item.2 <;> rw [hx] at hnone <;> cases hnone
  | list | map | struct =>
    exact hcomplex fun o ho => (processMember_under _ _ o).symm.trans (h o ho)

theorem holdsAt_of_parse {inner : Value V → Node → Prop} {v : Value V}
    (hshape : HasShape scalars shape v)
    (hinner : ∀ params : Node, (∀ o : Node, o.Perm params →
      parseShape scalars shape (.node o) = .ok (some v)) → inner v params)
    (h : ∀ o : Node, o.Perm params →
      processMember (parseShape scalars shape) shape name o = .ok (some v)) :
    HoldsAt scalars inner shape name v params := by
  have hcomplex (h : ∀ o : Node, o.Perm params →
      (if under name o = [] then .ok none else
        parseShape scalars shape (.node (under name o))) = .ok (some v)) :
      under name params ≠ [] ∧ inner v (under name params) := by
    have hne : under name params ≠ [] := by
      intro hnil
      have hsome := h _ (List.Perm.refl _)
      rw [if_pos hnil] at hsome
      cases hsome
    exact ⟨hne, hinner _ (parse_under hne h)⟩
  cases shape with
  | scalar ser shapeName kind =>
    cases v with
    | scalar x =>
      have hparse (o : Node) (t : Text) (ho : o.Perm params) (hget : o.get name = some t) :
          scalars.parse kind t = some x := by
        have hsome := h o ho
        simp only [processMember, subNode, hget, map_some, parseShape] at hsome
        cases hx : scalars.parse kind t with
        | none => rw [hx] at hsome; cases hsome
        | some =>
          rw [hx] at hsome
          injection hsome with hsome
          injection hsome with hsome
          injection hsome with hsome
          rw [hsome]
      constructor
      · by_contra hnone
        have hget : params.get name = none := (get_eq_none_iff _ _).mpr
          fun item hitem hname => hnone ⟨item, hitem, hname⟩
        have hsome := h _ (List.Perm.refl _)
        simp only [processMember, subNode, hget, map_none] at hsome
        cases hsome
      · intro item hitem hname
        rcases exists_perm_get hitem with ⟨o, ho, hget⟩
        exact hparse o item.2 ho (hname ▸ hget)
    | null | list | dict => exact False.elim hshape
  | list | map | struct =>
    exact hcomplex fun o ho => (processMember_under _ _ o).symm.trans (h o ho)

end Places

/-! ### Shapes without maps -/

mutual

/-- A shape has no maps, and the members of its structures have different names. -/
def MapFree : Shape K → Prop
  | .scalar _ _ _ => True
  | .list _ element => MapFree element
  | .map _ _ _ => False
  | .struct _ members => MapFreeMembers members

/-- The members of a structure have no maps, and different names. -/
def MapFreeMembers : List (Text × Bool × Shape K) → Prop
  | [] => True
  | (member, _, shape) :: members =>
    member ∉ members.map Prod.fst ∧ MapFree shape ∧ MapFreeMembers members

end

section Results

variable {scalars : Scalars K V}

theorem not_hasShape_null {shape : Shape K} (h : HasShape scalars shape .null) : False := by
  cases shape <;> exact h

theorem vacantMembers_nil (scalars : Scalars K V) (members : List (Text × Bool × Shape K))
    (params : Node) (h : VacantMembers scalars members params) :
    HoldsMembers scalars members [] params := by
  induction members with
  | nil => exact rfl
  | cons m members ih => exact ⟨h.1, h.2.1, ih h.2.2⟩

theorem unlessEmpty_eq_none {α : Type} {result : List α} {make : List α → Value V}
    (h : unlessEmpty result make = none) : result = [] := by
  cases result with
  | nil => rfl
  | cons => cases h

theorem unlessEmpty_eq_some {α : Type} {result : List α} {make : List α → Value V} {v : Value V}
    (h : unlessEmpty result make = some v) : make result = v := by
  cases result with
  | nil => cases h
  | cons => exact some.inj h

theorem ok_of_map {α β : Type} {r : Except ParserError α} {f : α → β} {y : β}
    (h : r.map f = .ok y) : ∃ x, r = .ok x ∧ f x = y := by
  cases r with
  | error => cases h
  | ok x => exact ⟨x, rfl, Except.ok.inj h⟩

theorem parseMembers_cons {member : Text} {required : Bool} {shape : Shape K}
    {members : List (Text × Bool × Shape K)} {node : Node} {result : List (Text × Value V)}
    (h : parseMembers scalars ((member, required, shape) :: members) node = .ok result) :
    ∃ value rest, processMember (parseShape scalars shape) shape (memberName member shape) node =
        .ok value ∧ parseMembers scalars members node = .ok rest ∧
      result = match value with
        | some v => (member, v) :: rest
        | none => if required then (member, .null) :: rest else rest := by
  rw [parseMembers] at h
  cases hv : processMember (parseShape scalars shape) shape (memberName member shape) node with
  | error => rw [hv] at h; cases h
  | ok value =>
    rw [hv] at h
    rcases ok_of_map h with ⟨rest, hrest, heq⟩
    refine ⟨value, rest, rfl, hrest, ?_⟩
    rw [← heq]
    cases value <;> rfl

theorem names_parseMembers {members : List (Text × Bool × Shape K)} {node : Node}
    {result : List (Text × Value V)} (h : parseMembers scalars members node = .ok result) :
    ∀ item ∈ result, item.1 ∈ members.map Prod.fst := by
  induction members generalizing result with
  | nil =>
    injection h with h
    rw [← h]
    exact fun _ hitem => absurd hitem not_mem_nil
  | cons m members ih =>
    rcases parseMembers_cons h with ⟨value, rest, -, hrest, rfl⟩
    have htail : ∀ item ∈ rest, item.1 ∈ (m :: members).map Prod.fst :=
      fun item hitem => mem_cons_of_mem _ (ih hrest item hitem)
    have hcons (v : Value V) : ∀ item ∈ (m.1, v) :: rest, item.1 ∈ (m :: members).map Prod.fst := by
      intro item hitem
      rcases mem_cons.mp hitem with rfl | hitem
      · exact mem_cons_self
      · exact htail _ hitem
    cases value with
    | some v => exact hcons v
    | none =>
      by_cases hr : m.2.1 = true
      · simpa only [hr, if_true] using hcons .null
      · simpa only [hr, Bool.false_eq_true, if_false] using htail

end Results

mutual

theorem vacant_of_parse (scalars : Scalars K V) (shape : Shape K) (hfree : MapFree shape)
    (params : Node)
    (h : ∀ o : Node, o.Perm params → parseShape (V := V) scalars shape (.node o) = .ok none) :
    Vacant scalars shape params := by
  match shape with
  | .scalar ser shapeName kind => exact trivial
  | .list serialization element =>
    refine vacantAt_of_parse (vacant_of_parse scalars element hfree) fun o ho => ?_
    have hlist := h o ho
    rw [parseShape] at hlist
    rcases ok_of_map hlist with ⟨xs, hxs, hnone⟩
    rw [unlessEmpty_eq_none hnone] at hxs
    exact find_of_collect_nil hxs
  | .struct serialization members =>
    refine vacantMembers_of_parse scalars members hfree params fun o ho => ?_
    have hstruct := h o ho
    rw [parseShape] at hstruct
    rcases ok_of_map hstruct with ⟨result, hresult, hnone⟩
    rw [hresult, unlessEmpty_eq_none hnone]

theorem vacantMembers_of_parse (scalars : Scalars K V) (members : List (Text × Bool × Shape K))
    (hfree : MapFreeMembers members) (params : Node)
    (h : ∀ o : Node, o.Perm params → parseMembers (V := V) scalars members o = .ok []) :
    VacantMembers scalars members params := by
  match members with
  | [] => exact trivial
  | (member, required, shape) :: members =>
    rcases hfree with ⟨-, hshape, hmembers⟩
    -- In each order, the first member and those that follow leave nothing.
    have hparts : ∀ o : Node, o.Perm params → required = false ∧
        processMember (parseShape (V := V) scalars shape) shape (memberName member shape) o =
          .ok none ∧ parseMembers (V := V) scalars members o = .ok [] := by
      intro o ho
      rcases parseMembers_cons (h o ho) with ⟨value, rest, hvalue, hrest, heq⟩
      cases value with
      | some => cases heq
      | none =>
        cases required with
        | true => cases heq
        | false => exact ⟨rfl, hvalue, heq ▸ hrest⟩
    exact ⟨(hparts params (List.Perm.refl _)).1,
      vacantAt_of_parse (vacant_of_parse scalars shape hshape) fun o ho => (hparts o ho).2.1,
      vacantMembers_of_parse scalars members hmembers params fun o ho => (hparts o ho).2.2⟩

end

mutual

theorem holds_of_parse (scalars : Scalars K V) (shape : Shape K) (v : Value V)
    (hfree : MapFree shape) (hshape : HasShape scalars shape v) (params : Node)
    (h : ∀ o : Node, o.Perm params → parseShape scalars shape (.node o) = .ok (some v)) :
    Holds scalars shape v params := by
  match shape, v with
  | .scalar ser shapeName kind, v => cases h params (List.Perm.refl _)
  | .list serialization element, .list items =>
    have hloop : ∀ o : Node, o.Perm params →
        (∀ x ∈ items.zipIdx 1, processMember (parseShape scalars element) element
          (elementName serialization element x.2) o = .ok (some x.1)) ∧
        processMember (parseShape scalars element) element
          (elementName serialization element (items.length + 1)) o = .ok none := by
      intro o ho
      have hlist := h o ho
      rw [parseShape] at hlist
      rcases ok_of_map hlist with ⟨xs, hxs, hsome⟩
      injection unlessEmpty_eq_some hsome with hitems
      rw [hitems] at hxs
      rcases exists_stop o (elementName serialization element)
        (elementName_injective serialization element) with ⟨stop, h1, hle, hnone⟩
      have hstop := processMember_none (parseShape scalars element) element
        (elementName serialization element stop) o hnone
      have hlength := length_lt_of_collect hxs h1 (by omega) hstop
      rcases find_of_collect hxs (by omega) with ⟨hall, hend⟩
      exact ⟨hall, Nat.add_comm 1 _ ▸ hend⟩
    constructor
    · intro x hx
      have hitem := hshape.2 x.1 (fst_mem_of_mem_zipIdx hx)
      exact holdsAt_of_parse hitem (holds_of_parse scalars element x.1 hfree hitem)
        fun o ho => (hloop o ho).1 x hx
    · exact vacantAt_of_parse (vacant_of_parse scalars element hfree)
        fun o ho => (hloop o ho).2
  | .struct serialization members, .dict items =>
    refine holdsMembers_of_parse scalars members items hfree hshape.2 params fun o ho => ?_
    have hstruct := h o ho
    rw [parseShape] at hstruct
    rcases ok_of_map hstruct with ⟨result, hresult, hsome⟩
    injection unlessEmpty_eq_some hsome with hitems
    rw [hresult, hitems]

/-- Nothing disturbs a value that is parsed in every order. -/
theorem holdsMembers_of_parse (scalars : Scalars K V) (members : List (Text × Bool × Shape K))
    (items : List (Text × Value V)) (hfree : MapFreeMembers members)
    (hmembers : HasMembers scalars members items) (params : Node)
    (h : ∀ o : Node, o.Perm params → parseMembers scalars members o = .ok items) :
    HoldsMembers scalars members items params := by
  match members, items with
  | [], items => exact hmembers
  | (member, required, shape) :: members, [] =>
    exact vacantMembers_nil scalars _ params
      (vacantMembers_of_parse scalars ((member, required, shape) :: members) hfree params h)
  | (member, required, shape) :: members, (k, w) :: items =>
    rcases hfree with ⟨hname, hshape, hrest⟩
    rw [HasMembers] at hmembers
    rw [HoldsMembers]
    by_cases hk : k = member
    · rw [if_pos hk] at hmembers ⊢
      have hparts : ∀ o : Node, o.Perm params →
          processMember (parseShape scalars shape) shape (memberName member shape) o =
            .ok (some w) ∧ parseMembers scalars members o = .ok items := by
        intro o ho
        rcases parseMembers_cons (h o ho) with ⟨value, rest, hvalue, hrest', heq⟩
        cases value with
        | some =>
          injection heq with hfirst htail
          injection hfirst with _ hv
          exact ⟨hv ▸ hvalue, htail ▸ hrest'⟩
        | none =>
          exfalso
          cases required with
          | true =>
            injection heq with hfirst htail
            injection hfirst with _ hv
            rw [hv] at hmembers
            exact not_hasShape_null hmembers.1
          | false =>
            -- The name cannot come from a member that follows.
            have htail : (k, w) :: items = rest := heq
            have hmem := names_parseMembers hrest' (k, w) (htail ▸ mem_cons_self)
            exact hname (hk ▸ hmem)
      exact ⟨holdsAt_of_parse hmembers.1 (holds_of_parse scalars shape w hshape hmembers.1)
          fun o ho => (hparts o ho).1,
        holdsMembers_of_parse scalars members items hrest hmembers.2 params
          fun o ho => (hparts o ho).2⟩
    · rw [if_neg hk] at hmembers ⊢
      rcases hmembers with ⟨rfl, hmembers⟩
      have hparts : ∀ o : Node, o.Perm params →
          processMember (parseShape (V := V) scalars shape) shape (memberName member shape) o =
            .ok none ∧ parseMembers scalars members o = .ok ((k, w) :: items) := by
        intro o ho
        rcases parseMembers_cons (h o ho) with ⟨value, rest, hvalue, hrest', heq⟩
        cases value with
        | some =>
          injection heq with hfirst htail
          injection hfirst with hkey _
          exact absurd hkey hk
        | none => exact ⟨hvalue, heq ▸ hrest'⟩
      exact ⟨rfl, vacantAt_of_parse (vacant_of_parse scalars shape hshape)
          fun o ho => (hparts o ho).1,
        holdsMembers_of_parse scalars members ((k, w) :: items) hrest hmembers params
          fun o ho => (hparts o ho).2⟩

end

end LocalEmu.Protocol.Query
