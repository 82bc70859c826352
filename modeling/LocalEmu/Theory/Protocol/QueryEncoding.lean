import Mathlib.Data.List.Nodup
import Mathlib.Data.List.Perm.Subperm
import LocalEmu.Core.Protocol.QueryParser

/-!
# Query Parameters And Their Values

The parser of the query protocol takes for the parameters of a member all those whose keys
start with its name, and takes one more character from their keys. These may also be the
parameters of a member with a longer name, or of a later element of a list.

Whether this disturbs a value is told by the places of the value: the parameters that are
taken at the place of a scalar must be its own, and where the parser looks for something
that the value does not have, nothing must be taken.
-/

namespace LocalEmu.Protocol.Query

open List

variable {K V : Type} (scalars : Scalars K V)

/-! ### Encoding -/

/-- The name of a member in the keys of parameters. That of a flattened list is the name of its
    elements, if they have one. -/
def wireName (member : Text) : Shape K → Text
  | .list serialization element =>
    if serialization.flattened then
      element.serialization.name.getD (getSerializedName serialization member)
    else getSerializedName serialization member
  | shape => getSerializedName shape.serialization member

variable (parse : Payload → Except ParserError (Option (Value V))) (name : Text)

def nest (params : Node) : Node :=
  params.map fun item => (name ++ '.' :: item.1, item.2)

/-- The parameters of a value with a name, from those of a value that is no scalar. -/
def encodeAt (inner : Value V → Node) (shape : Shape K) (name : Text) (v : Value V) : Node :=
  match shape, v with
  | .scalar _ _ kind, .scalar x => [(name, scalars.text kind x)]
  | .scalar _ _ _, _ => []
  | _, v => nest name (inner v)

mutual

/-- The parameters of a value that is no scalar, without the name of the value. -/
def encode : Shape K → Value V → Node
  | .list serialization element, .list items =>
    (items.zipIdx 1).flatMap fun item =>
      encodeAt scalars (encode element) element (elementName serialization element item.2) item.1
  | .map serialization key value, .dict items =>
    (items.zipIdx 1).flatMap fun item =>
      (keyName serialization key item.2, item.1.1) ::
        encodeAt scalars (encode value) value (valueName serialization value item.2) item.1.2
  | .struct _ members, .dict items => encodeMembers members items
  | _, _ => []

/-- The parameters of the members of a structure. -/
def encodeMembers : List (Text × Bool × Shape K) → List (Text × Value V) → Node
  | [], _ => []
  | _, [] => []
  | (member, _, shape) :: members, (k, v) :: items =>
    if k = member then
      encodeAt scalars (encode shape) shape (wireName member shape) v ++
        encodeMembers members items
    else encodeMembers members ((k, v) :: items)

end

mutual

/-- Whether a value is of a shape. Structures, lists and maps have something in them, and the
    members of a structure are in the order of the shape. -/
def HasShape : Shape K → Value V → Prop
  | .scalar _ _ kind, .scalar x => scalars.isOf kind x
  | .list _ element, .list items => items ≠ [] ∧ ∀ item ∈ items, HasShape element item
  | .map _ _ value, .dict items =>
    items ≠ [] ∧ (items.map Prod.fst).Nodup ∧ ∀ item ∈ items, HasShape value item.2
  | .struct _ members, .dict items => items ≠ [] ∧ HasMembers members items
  | _, _ => False

/-- Whether a structure has the required members, and no others than those of the shape. -/
def HasMembers : List (Text × Bool × Shape K) → List (Text × Value V) → Prop
  | [], items => items = []
  | (_, required, _) :: members, [] => required = false ∧ HasMembers members []
  | (member, required, shape) :: members, (k, v) :: items =>
    if k = member then HasShape shape v ∧ HasMembers members items
    else required = false ∧ HasMembers members ((k, v) :: items)

end

/-! ### What parameters say -/

variable (node : Node) (inner : Node → Prop) (shape : Shape K)

/-- Nothing is taken at a place, given when nothing is taken for what is no scalar. -/
def VacantAt (name : Text) (params : Node) : Prop :=
  match shape with
  | .scalar _ _ _ => ∀ item ∈ params, item.1 ≠ name
  | _ => under name params ≠ [] → inner (under name params)

/-- No handler raises on what is taken at a place. -/
def ReadableAt (name : Text) (params : Node) : Prop :=
  match shape with
  | .scalar _ _ kind => ∀ item ∈ params, item.1 = name → scalars.parse kind item.2 ≠ none
  | _ => under name params ≠ [] → inner (under name params)

/-- What is taken at a place is a value, or the parts of it. -/
def HoldsAt (inner : Value V → Node → Prop) (shape : Shape K) (name : Text) (v : Value V)
    (params : Node) : Prop :=
  match shape, v with
  | .scalar _ _ kind, .scalar x => (∃ item ∈ params, item.1 = name) ∧
      ∀ item ∈ params, item.1 = name → scalars.parse kind item.2 = some x
  | _, v => under name params ≠ [] ∧ inner v (under name params)

/-- There is no entry at a position of a map: nothing is taken for its value, or nothing for its
    key and nothing for its value that a handler raises on. -/
def VacantEntry (vacant readable : Node → Prop) (serialization key : Serialization)
    (value : Shape K) (i : ℕ) (params : Node) : Prop :=
  VacantAt vacant value (valueName serialization value i) params ∨
    (∀ item ∈ params, item.1 ≠ keyName serialization key i) ∧
      ReadableAt scalars readable value (valueName serialization value i) params

/-- The key that is taken at a position of a map. -/
def HoldsKey (serialization key : Serialization) (i : ℕ) (k : Text) (params : Node) : Prop :=
  (∃ item ∈ params, item.1 = keyName serialization key i) ∧
    ∀ item ∈ params, item.1 = keyName serialization key i → item.2 = k

mutual

/-- No handler raises on what is taken for a shape. -/
def Readable : Shape K → Node → Prop
  | .list serialization element, params =>
    ∀ i ≥ 1, (∀ j ≥ 1, j < i →
        ¬ VacantAt (Vacant element) element (elementName serialization element j) params) →
      ReadableAt scalars (Readable element) element (elementName serialization element i) params
  | .map serialization key value, params =>
    ∀ i ≥ 1, (∀ j ≥ 1, j < i →
        (∃ item ∈ params, item.1 = keyName serialization key j) ∧
        ¬ VacantAt (Vacant value) value (valueName serialization value j) params) →
      ReadableAt scalars (Readable value) value (valueName serialization value i) params
  | .struct _ members, params => ReadableMembers members params
  | .scalar _ _ _, _ => True

/-- No handler raises on what is taken for the members of a structure. -/
def ReadableMembers : List (Text × Bool × Shape K) → Node → Prop
  | [], _ => True
  | (member, _, shape) :: members, params =>
    ReadableAt scalars (Readable shape) shape (memberName member shape) params ∧
      ReadableMembers members params

/-- Nothing is found for a shape. An entry of a map has a key and a value. -/
def Vacant : Shape K → Node → Prop
  | .list serialization element, params =>
    VacantAt (Vacant element) element (elementName serialization element 1) params
  | .map serialization key value, params =>
    VacantEntry scalars (Vacant value) (Readable value) serialization key value 1 params
  | .struct _ members, params => VacantMembers members params
  | .scalar _ _ _, _ => True

/-- Nothing is found for the members of a structure, and none is required. -/
def VacantMembers : List (Text × Bool × Shape K) → Node → Prop
  | [], _ => True
  | (member, required, shape) :: members, params =>
    required = false ∧ VacantAt (Vacant shape) shape (memberName member shape) params ∧
      VacantMembers members params

end

mutual

/-- What is found for a shape is a value, in whatever order the parameters are. -/
def Holds : Shape K → Value V → Node → Prop
  | .list serialization element, .list items, params =>
    (∀ item ∈ items.zipIdx 1, HoldsAt scalars (Holds element) element
      (elementName serialization element item.2) item.1 params) ∧
    VacantAt (Vacant scalars element) element
      (elementName serialization element (items.length + 1)) params
  | .map serialization key value, .dict items, params =>
    (∀ item ∈ items.zipIdx 1,
      HoldsKey serialization key item.2 item.1.1 params ∧
        HoldsAt scalars (Holds value) value (valueName serialization value item.2) item.1.2
          params) ∧
    VacantEntry scalars (Vacant scalars value) (Readable scalars value) serialization key value
      (items.length + 1) params
  | .struct _ members, .dict items, params => HoldsMembers members items params
  | _, _, _ => False

/-- What is found for the members of a structure are the values it has, and nothing else. -/
def HoldsMembers : List (Text × Bool × Shape K) → List (Text × Value V) → Node → Prop
  | [], items, _ => items = []
  | (member, required, shape) :: members, [], params =>
    required = false ∧ VacantAt (Vacant scalars shape) shape (memberName member shape) params ∧
      HoldsMembers members [] params
  | (member, required, shape) :: members, (k, v) :: items, params =>
    if k = member then
      HoldsAt scalars (Holds shape) shape (memberName member shape) v params ∧
        HoldsMembers members items params
    else
      required = false ∧ VacantAt (Vacant scalars shape) shape (memberName member shape) params ∧
        HoldsMembers members ((k, v) :: items) params

end

/-! ### Nodes -/

theorem get_eq_none_iff (key : Text) : node.get key = none ↔ ∀ item ∈ node, item.1 ≠ key := by
  simp [Node.get]

theorem mem_of_get {node : Node} {key t : Text} (h : node.get key = some t) :
    ∃ item ∈ node, item.1 = key ∧ item.2 = t := by
  rcases Option.map_eq_some_iff.mp h with ⟨item, hitem, ht⟩
  have hkey := find?_some hitem
  have hmem := mem_of_find?_eq_some hitem
  exact ⟨item, mem_reverse.mp hmem, eq_of_beq hkey, ht⟩

theorem perm_under {o params : Node} (name : Text) (h : o.Perm params) :
    (under name o).Perm (under name params) := h.filterMap _

theorem under_eq_nil_iff : under name node = [] ↔ ∀ item ∈ node, ¬ name <+: item.1 := by
  simp [under, stripName]

theorem processMember_under : (match (filterNode name node).map Payload.node with
      | none => .ok none
      | some payload => parse payload) =
      if under name node = [] then .ok none else parse (.node (under name node)) := by
  by_cases h : under name node = []
  · simp [filterNode, h]
  · simp [filterNode, h]

theorem processMember_none (name : Text) (node : Node) (h : ∀ item ∈ node, ¬ name <+: item.1) :
    processMember parse shape name node = .ok none := by
  have hget : node.get name = none :=
    (get_eq_none_iff _ _).mpr fun item hitem heq => h _ hitem (heq ▸ prefix_refl _)
  have hunder := (under_eq_nil_iff _ _).mpr h
  cases shape with
  | scalar => simp [processMember, subNode, hget]
  | list | map | struct => exact (processMember_under _ _ _).trans (if_pos hunder)

section Places

variable {scalars} {params o : Node} {shape : Shape K} {name : Text}
  {parse : Payload → Except ParserError (Option (Value V))}

theorem processMember_of_vacant {inner : Node → Prop}
    (hinner : ∀ params o : Node, o.Perm params → inner params → parse (.node o) = .ok none)
    (h : VacantAt inner shape name params) (ho : o.Perm params) :
    processMember parse shape name o = .ok none := by
  have hcomplex (h : under name params ≠ [] → inner (under name params)) :
      (if under name o = [] then .ok none else parse (.node (under name o))) = .ok none := by
    have hperm := perm_under name ho
    by_cases hnil : under name o = []
    · exact if_pos hnil
    · have hne : under name params ≠ [] := fun h => hnil (h ▸ hperm).eq_nil
      rw [if_neg hnil]
      exact hinner _ _ hperm (h hne)
  cases shape with
  | scalar =>
    have hget : o.get name = none :=
      (get_eq_none_iff o _).mpr fun item hitem => h _ (ho.mem_iff.mp hitem)
    simp [processMember, subNode, hget]
  | list | map | struct => exact (processMember_under _ _ o).trans (hcomplex h)

theorem processMember_of_readable {inner : Node → Prop}
    (hinner : ∀ params o : Node, o.Perm params → inner params → ∃ r, parse (.node o) = .ok r)
    (hscalar : ∀ ser shapeName kind t, shape = .scalar ser shapeName kind →
      scalars.parse kind t ≠ none → ∃ r, parse (.text t) = .ok r)
    (h : ReadableAt scalars inner shape name params) (ho : o.Perm params) :
    ∃ r, processMember parse shape name o = .ok r := by
  have hcomplex (h : under name params ≠ [] → inner (under name params)) :
      ∃ r, (if under name o = [] then .ok none else parse (.node (under name o))) = .ok r := by
    have hperm := perm_under name ho
    by_cases hnil : under name o = []
    · exact ⟨none, if_pos hnil⟩
    · have hne : under name params ≠ [] := fun h => hnil (h ▸ hperm).eq_nil
      rw [if_neg hnil]
      exact hinner _ _ hperm (h hne)
  cases shape with
  | scalar =>
    cases hget : o.get name with
    | none => exact ⟨none, by simp [processMember, subNode, hget]⟩
    | some =>
      rcases mem_of_get hget with ⟨item, hitem, hname, rfl⟩
      have ht := h _ (ho.mem_iff.mp hitem) hname
      rcases hscalar _ _ _ item.2 rfl ht with ⟨r, hr⟩
      exact ⟨r, by simp [processMember, subNode, hget, hr]⟩
  | list | map | struct =>
    rcases hcomplex h with ⟨r, hr⟩
    exact ⟨r, (processMember_under _ _ o).trans hr⟩

variable {inner : Value V → Node → Prop}

theorem processMember_of_holds {v : Value V}
    (hinner : ∀ params o : Node, o.Perm params → inner v params →
      parse (.node o) = .ok (some v))
    (hscalar : ∀ ser shapeName kind t x, shape = .scalar ser shapeName kind →
      scalars.parse kind t = some x → parse (.text t) = .ok (some (.scalar x)))
    (hshape : HasShape scalars shape v) (h : HoldsAt scalars inner shape name v params)
    (ho : o.Perm params) : processMember parse shape name o = .ok (some v) := by
  have hcomplex (h : under name params ≠ [] ∧ inner v (under name params)) :
      (if under name o = [] then .ok none else parse (.node (under name o))) =
        .ok (some v) := by
    have hperm := perm_under name ho
    have hne : under name o ≠ [] := fun hnil => h.1 (hnil ▸ hperm.symm).eq_nil
    rw [if_neg hne]
    exact hinner _ _ hperm h.2
  cases shape with
  | scalar =>
    cases v with
    | scalar x =>
      rcases h with ⟨⟨item, hitem, hname⟩, hall⟩
      cases hget : o.get name with
      | none =>
        exact absurd hname ((get_eq_none_iff o _).mp hget item (ho.mem_iff.mpr hitem))
      | some =>
        rcases mem_of_get hget with ⟨item', hitem', hname', rfl⟩
        have ht := hall _ (ho.mem_iff.mp hitem') hname'
        have hparse := hscalar _ _ _ item'.2 x rfl ht
        simp [processMember, subNode, hget, hparse]
    | null | list | dict => exact False.elim hshape
  | list | map | struct => exact (processMember_under _ _ o).trans (hcomplex h)

theorem exists_prefix_of_holds {v : Value V} (hshape : HasShape scalars shape v)
    (h : HoldsAt scalars inner shape name v params) :
    ∃ item ∈ params, name <+: item.1 := by
  have hcomplex (h : under name params ≠ []) : ∃ item ∈ params, name <+: item.1 := by
    by_contra hnone
    exact h ((under_eq_nil_iff _ _).mpr fun item hitem hpre =>
      hnone ⟨item, hitem, hpre⟩)
  cases shape with
  | scalar =>
    cases v with
    | scalar =>
      rcases h with ⟨⟨item, hitem, hname⟩, -⟩
      exact ⟨item, hitem, hname ▸ prefix_refl _⟩
    | null | list | dict => exact False.elim hshape
  | list | map | struct => exact hcomplex h.1

end Places

/-! ### Positions -/

theorem position_injective : Function.Injective position := by
  intro i j h
  have hi : Nat.ofDigitChars 10 (position i) 0 = i := Nat.ofDigitChars_ten_toDigits
  have hj : Nat.ofDigitChars 10 (position j) 0 = j := Nat.ofDigitChars_ten_toDigits
  rw [← hi, ← hj, h]

theorem elementName_injective (serialization : Serialization) (element : Shape K) :
    Function.Injective (elementName serialization element) :=
  fun _ _ h => position_injective (append_cancel_left h)

theorem valueName_injective (serialization : Serialization) (value : Shape K) :
    Function.Injective (valueName serialization value) := by
  intro i j h
  have h := append_cancel_right h
  exact position_injective (append_cancel_left (append_cancel_right h))

theorem exists_stop (node : Node) (name : ℕ → Text) (hname : Function.Injective name) :
    ∃ i, 1 ≤ i ∧ i ≤ bound node ∧ ∀ item ∈ node, ¬ name i <+: item.1 := by
  by_contra hnone
  have hsub : (range' 1 (bound node)).map name ⊆ node.flatMap fun item => item.1.inits := by
    intro t ht
    rcases mem_map.mp ht with ⟨i, hi, rfl⟩
    rcases mem_range'_1.mp hi with ⟨h1, hlt⟩
    by_contra hmem
    refine hnone ⟨i, h1, by omega, fun item hitem hpre => hmem ?_⟩
    exact mem_flatMap.mpr ⟨item, hitem, (mem_inits _ _).mpr hpre⟩
  have hnodup : ((range' 1 (bound node)).map name).Nodup := List.Nodup.map hname nodup_range'
  have hlen := (subperm_of_subset hnodup hsub).length_le
  rw [length_map, length_range'] at hlen
  simp only [bound] at hlen
  omega

/-! ### Loops -/

section Loops

variable {α : Type} {find : ℕ → Except ParserError (Option α)}

theorem collect_eq (xs : List α) (fuel s : ℕ)
    (hxs : ∀ x ∈ xs.zipIdx s, find x.2 = .ok (some x.1)) (hstop : find (s + xs.length) = .ok none)
    (hfuel : xs.length < fuel) : collect find fuel s = .ok xs := by
  induction xs generalizing fuel s with
  | nil =>
    cases fuel with
    | zero => cases hfuel
    | succ =>
      have hs : find s = .ok none := hstop
      simp only [collect, hs]
  | cons x xs ih =>
    cases fuel with
    | zero => cases hfuel
    | succ fuel =>
      have hs : find s = .ok (some x) := hxs (x, s) (by simp)
      have htail : collect find fuel (s + 1) = .ok xs := by
        apply ih
        · intro y hy
          exact hxs y (by simp [hy])
        · rw [← hstop, length_cons]
          congr 1
          omega
        · simpa using hfuel
      simp only [collect, hs, htail]
      rfl

theorem collect_nil (node : Node) (s : ℕ) (h : find s = .ok none) :
    collect find (bound node) s = .ok [] := by
  simp only [bound, collect, h]

theorem collect_ok (fuel s : ℕ)
    (h : ∀ i ≥ s, (∀ j ≥ s, j < i → ∃ x, find j = .ok (some x)) → ∃ r, find i = .ok r) :
    ∃ xs, collect find fuel s = .ok xs := by
  induction fuel generalizing s with
  | zero => exact ⟨[], rfl⟩
  | succ fuel ih =>
    rcases h s (Nat.le_refl s) (fun j hj hlt => absurd hj (by omega)) with ⟨r, hr⟩
    cases r with
    | none => exact ⟨[], by simp only [collect, hr]⟩
    | some x =>
      have hnext : ∃ xs, collect find fuel (s + 1) = .ok xs := by
        apply ih
        intro i hi hbefore
        refine h i (by omega) fun j hj hlt => ?_
        by_cases hjs : j = s
        · exact ⟨x, hjs ▸ hr⟩
        · exact hbefore j (by omega) hlt
      rcases hnext with ⟨xs, hxs⟩
      exact ⟨x :: xs, by simp only [collect, hr, hxs]; rfl⟩

end Loops

/-! ### Parsing -/

section Entries

variable {scalars} {serialization key : Serialization} {value : Shape K} {i : ℕ}
  {params o : Node} {parse : Payload → Except ParserError (Option (Value V))}

theorem parse_text_readable (shape : Shape K) (ser : Serialization) (shapeName : Text) (kind : K)
    (t : Text) (hshape : shape = .scalar ser shapeName kind)
    (h : scalars.parse kind t ≠ none) :
    ∃ r, parseShape scalars shape (.text t) = .ok r := by
  rw [hshape]
  cases hx : scalars.parse kind t with
  | none => exact absurd hx h
  | some x => exact ⟨some (.scalar x), by simp [parseShape, hx]⟩

theorem parse_text (shape : Shape K) (ser : Serialization) (shapeName : Text) (kind : K) (t : Text)
    (x : V) (hshape : shape = .scalar ser shapeName kind)
    (h : scalars.parse kind t = some x) :
    parseShape scalars shape (.text t) = .ok (some (.scalar x)) := by
  simp [hshape, parseShape, h]

theorem entry_of_vacant {vacant readable : Node → Prop}
    (hvacant : ∀ params o : Node, o.Perm params → vacant params → parse (.node o) = .ok none)
    (hreadable : ∀ params o : Node, o.Perm params → readable params →
      ∃ r, parse (.node o) = .ok r)
    (hscalar : ∀ ser shapeName kind t, value = .scalar ser shapeName kind →
      scalars.parse kind t ≠ none → ∃ r, parse (.text t) = .ok r)
    (h : VacantEntry scalars vacant readable serialization key value i params)
    (ho : o.Perm params) :
    (processMember parse value (valueName serialization value i) o).map
      (entryOf (o.get (keyName serialization key i))) = .ok none := by
  rcases h with h | ⟨hkey, h⟩
  · rw [processMember_of_vacant hvacant h ho]
    cases o.get (keyName serialization key i) <;> rfl
  · have hget : o.get (keyName serialization key i) = none :=
      (get_eq_none_iff o _).mpr fun item hitem => hkey _ (ho.mem_iff.mp hitem)
    rcases processMember_of_readable hreadable hscalar h ho with ⟨r, hr⟩
    rw [hr, hget]
    rfl

theorem get_of_holdsKey {k : Text} (h : HoldsKey serialization key i k params)
    (ho : o.Perm params) : o.get (keyName serialization key i) = some k := by
  rcases h with ⟨⟨item, hitem, hname⟩, hall⟩
  cases hget : o.get (keyName serialization key i) with
  | none => exact absurd hname ((get_eq_none_iff o _).mp hget item (ho.mem_iff.mpr hitem))
  | some =>
    rcases mem_of_get hget with ⟨item', hitem', hname', rfl⟩
    rw [hall _ (ho.mem_iff.mp hitem') hname']

theorem foldl_setItem (acc items : List (Text × Value V))
    (h : ((acc ++ items).map Prod.fst).Nodup) : items.foldl setItem acc = acc ++ items := by
  induction items generalizing acc with
  | nil => simp
  | cons item items ih =>
    have hnew : (acc.any fun other => other.1 == item.1) = false := by
      rw [map_append] at h
      have hdisjoint := (nodup_append.mp h).2.2
      rw [any_eq_false]
      intro other hother heq
      exact hdisjoint other.1 (mem_map_of_mem hother) item.1 mem_cons_self (eq_of_beq heq)
    have hset : setItem acc item = acc ++ [item] := by
      rw [setItem, hnew]
      rfl
    rw [foldl_cons, hset, ih _ (by simpa using h)]
    simp

theorem length_lt_bound {α : Type} (items : List α) (name : ℕ → Text)
    (hname : Function.Injective name) (ho : o.Perm params)
    (h : ∀ item ∈ items.zipIdx 1, ∃ param ∈ params, name item.2 <+: param.1) :
    items.length < bound o := by
  rcases exists_stop o _ hname with ⟨stop, h1, hle, hnone⟩
  by_contra hge
  have hlt : stop - 1 < items.length := by omega
  have hmem : (items[stop - 1], stop) ∈ items.zipIdx 1 := by
    rw [mk_mem_zipIdx_iff_le_and_getElem?_sub]
    exact ⟨h1, getElem?_eq_getElem hlt⟩
  rcases h _ hmem with ⟨param, hparam, hpre⟩
  exact hnone _ (ho.mem_iff.mpr hparam) hpre

end Entries

mutual

theorem parse_of_vacant (shape : Shape K) (params o : Node) (ho : o.Perm params)
    (h : Vacant scalars shape params) :
    parseShape (V := V) scalars shape (.node o) = .ok none := by
  match shape with
  | .scalar ser shapeName kind => rfl
  | .list serialization element =>
    have hfirst := processMember_of_vacant (parse_of_vacant element) h ho
    rw [parseShape, collect_nil o 1 hfirst]
    rfl
  | .map serialization key value =>
    have hfirst := entry_of_vacant (parse_of_vacant value) (parse_of_readable value)
      (parse_text_readable _) h ho
    rw [parseShape, collect_nil o 1 hfirst]
    rfl
  | .struct serialization members =>
    rw [parseShape, parseMembers_of_vacant members params o ho h]
    rfl

theorem parse_of_readable (shape : Shape K) (params o : Node) (ho : o.Perm params)
    (h : Readable scalars shape params) :
    ∃ r, parseShape (V := V) scalars shape (.node o) = .ok r := by
  match shape with
  | .scalar ser shapeName kind => exact ⟨none, rfl⟩
  | .list serialization element =>
    have hcollect : ∃ xs, collect (fun i => processMember (parseShape scalars element) element
        (elementName serialization element i) o) (bound o) 1 = .ok xs := by
      apply collect_ok
      intro i hi hbefore
      refine processMember_of_readable (parse_of_readable element)
        (parse_text_readable _)
        (h i hi fun j hj hlt hvacant => ?_) ho
      rcases hbefore j hj hlt with ⟨x, hx⟩
      rw [processMember_of_vacant (parse_of_vacant element) hvacant ho] at hx
      cases hx
    rcases hcollect with ⟨xs, hxs⟩
    exact ⟨_, by rw [parseShape, hxs]; rfl⟩
  | .map serialization key value =>
    have hcollect : ∃ xs, collect (fun i => (processMember (parseShape scalars value) value
        (valueName serialization value i) o).map
          (entryOf (o.get (keyName serialization key i)))) (bound o) 1 = .ok xs := by
      apply collect_ok
      intro i hi hbefore
      have hvalue := processMember_of_readable (parse_of_readable value)
        (parse_text_readable _)
        (h i hi fun j hj hlt => ?_) ho
      · rcases hvalue with ⟨r, hr⟩
        exact ⟨_, by rw [hr]; rfl⟩
      · rcases hbefore j hj hlt with ⟨x, hx⟩
        refine ⟨?_, fun hvacant => ?_⟩
        · cases hget : o.get (keyName serialization key j) with
          | none =>
            rw [hget] at hx
            cases hr : processMember (parseShape scalars value) value
              (valueName serialization value j) o <;> rw [hr] at hx <;> cases hx
          | some =>
            rcases mem_of_get hget with ⟨item, hitem, hname, -⟩
            exact ⟨item, ho.mem_iff.mp hitem, hname⟩
        · rw [processMember_of_vacant (parse_of_vacant value) hvacant ho] at hx
          cases hget : o.get (keyName serialization key j) <;> rw [hget] at hx <;> cases hx
    rcases hcollect with ⟨xs, hxs⟩
    exact ⟨_, by rw [parseShape, hxs]; rfl⟩
  | .struct serialization members =>
    rcases parseMembers_of_readable members params o ho h with ⟨r, hr⟩
    exact ⟨_, by rw [parseShape, hr]; rfl⟩

theorem parseMembers_of_vacant (members : List (Text × Bool × Shape K)) (params o : Node)
    (ho : o.Perm params) (h : VacantMembers scalars members params) :
    parseMembers (V := V) scalars members o = .ok [] := by
  match members with
  | [] => rfl
  | (member, required, shape) :: members =>
    rcases h with ⟨rfl, hvacant, hrest⟩
    rw [parseMembers, processMember_of_vacant (parse_of_vacant shape) hvacant ho]
    dsimp only
    rw [parseMembers_of_vacant members params o ho hrest]
    rfl

theorem parseMembers_of_readable (members : List (Text × Bool × Shape K)) (params o : Node)
    (ho : o.Perm params) (h : ReadableMembers scalars members params) :
    ∃ r, parseMembers (V := V) scalars members o = .ok r := by
  match members with
  | [] => exact ⟨[], rfl⟩
  | (member, required, shape) :: members =>
    rcases processMember_of_readable (parse_of_readable shape)
      (parse_text_readable _)
      h.1 ho with ⟨v, hv⟩
    rcases parseMembers_of_readable members params o ho h.2 with ⟨r, hr⟩
    exact ⟨_, by rw [parseMembers, hv]; dsimp only; rw [hr]; rfl⟩

end

mutual

theorem parse_of_holds (shape : Shape K) (v : Value V) (hshape : HasShape scalars shape v)
    (params o : Node) (ho : o.Perm params) (h : Holds scalars shape v params) :
    parseShape scalars shape (.node o) = .ok (some v) := by
  match shape, v with
  | .list serialization element, .list items =>
    rcases hshape with ⟨hne, hitems⟩
    have hitem : ∀ x ∈ items.zipIdx 1, HasShape scalars element x.1 :=
      fun x hx => hitems x.1 (fst_mem_of_mem_zipIdx hx)
    have hcollect : collect (fun i => processMember (parseShape scalars element) element
        (elementName serialization element i) o) (bound o) 1 = .ok items := by
      apply collect_eq
      · intro x hx
        exact processMember_of_holds (parse_of_holds element x.1 (hitem x hx))
          (parse_text _)
          (hitem x hx) (h.1 x hx) ho
      · rw [Nat.add_comm]
        exact processMember_of_vacant (parse_of_vacant scalars element) h.2 ho
      · exact length_lt_bound items _ (elementName_injective serialization element) ho
          fun x hx => exists_prefix_of_holds (hitem x hx) (h.1 x hx)
    rw [parseShape, hcollect]
    simp [Except.map, unlessEmpty, hne]
  | .map serialization key value, .dict items =>
    rcases hshape with ⟨hne, hkeys, hitems⟩
    have hitem : ∀ x ∈ items.zipIdx 1, HasShape scalars value x.1.2 :=
      fun x hx => hitems x.1 (fst_mem_of_mem_zipIdx hx)
    have hcollect : collect (fun i => (processMember (parseShape scalars value) value
        (valueName serialization value i) o).map
          (entryOf (o.get (keyName serialization key i)))) (bound o) 1 = .ok items := by
      apply collect_eq
      · intro x hx
        rw [get_of_holdsKey (h.1 x hx).1 ho, processMember_of_holds
          (parse_of_holds value x.1.2 (hitem x hx))
          (parse_text _)
          (hitem x hx) (h.1 x hx).2 ho]
        rfl
      · rw [Nat.add_comm]
        exact entry_of_vacant (parse_of_vacant scalars value) (parse_of_readable scalars value)
          (parse_text_readable _)
          h.2 ho
      · exact length_lt_bound items _ (valueName_injective serialization value) ho
          fun x hx => exists_prefix_of_holds (hitem x hx) (h.1 x hx).2
    rw [parseShape, hcollect]
    simp [Except.map, unlessEmpty, hne, foldl_setItem [] items hkeys]
  | .struct serialization members, .dict items =>
    rcases hshape with ⟨hne, hmembers⟩
    rw [parseShape, parseMembers_of_holds members items hmembers params o ho h]
    simp [Except.map, unlessEmpty, hne]

/-- A value that nothing disturbs is parsed from its parameters. -/
theorem parseMembers_of_holds (members : List (Text × Bool × Shape K))
    (items : List (Text × Value V)) (hmembers : HasMembers scalars members items)
    (params o : Node) (ho : o.Perm params) (h : HoldsMembers scalars members items params) :
    parseMembers scalars members o = .ok items := by
  match members, items with
  | [], items => rw [hmembers]; rfl
  | (member, required, shape) :: members, [] =>
    rcases h with ⟨rfl, hvacant, hrest⟩
    rw [parseMembers, processMember_of_vacant (parse_of_vacant scalars shape) hvacant ho]
    dsimp only
    rw [parseMembers_of_holds members [] hmembers.2 params o ho hrest]
    rfl
  | (member, required, shape) :: members, (k, v) :: items =>
    rw [HoldsMembers] at h
    rw [HasMembers] at hmembers
    by_cases hk : k = member
    · rw [if_pos hk] at h hmembers
      rw [parseMembers, processMember_of_holds (parse_of_holds shape v hmembers.1)
        (parse_text _)
        hmembers.1 h.1 ho]
      dsimp only
      rw [parseMembers_of_holds members items hmembers.2 params o ho h.2, ← hk]
      rfl
    · rw [if_neg hk] at h hmembers
      rcases h with ⟨rfl, hvacant, hrest⟩
      rw [parseMembers, processMember_of_vacant (parse_of_vacant scalars shape) hvacant ho]
      dsimp only
      rw [parseMembers_of_holds members ((k, v) :: items) hmembers.2 params o ho hrest]
      rfl

end

end LocalEmu.Protocol.Query
