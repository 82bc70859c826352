import LocalEmu.Theory.Protocol.QueryOrders

/-!
# Names In Query Parameters

The names of a service seldom give the parser of the query protocol something to mix up. If
no name of a member that is no scalar is the beginning of the name of a sibling, only the
elements of a list take parameters of each other, those of the first element the ones of the
tenth. What is left of such a key starts with a digit or with a dot. This disturbs no structure
and no list or map below a name, and only a list of lists or of maps without one.
-/

namespace LocalEmu.Protocol.Query

open List Option

variable {K V : Type}

/-! ### Prefixes -/

theorem prefix_separator {s t a b : Text} {c : Char} (hs : c ∉ s) (ht : c ∉ t)
    (h : s ++ c :: a <+: t ++ c :: b) : s = t ∧ a <+: b := by
  induction s generalizing t with
  | nil =>
    cases t with
    | nil => exact ⟨rfl, (cons_prefix_cons.mp h).2⟩
    | cons => exact absurd ((cons_prefix_cons.mp h).1 ▸ mem_cons_self) ht
  | cons e s ih =>
    cases t with
    | nil => exact absurd ((cons_prefix_cons.mp h).1 ▸ mem_cons_self) hs
    | cons =>
      rcases cons_prefix_cons.mp h with ⟨rfl, htail⟩
      rcases ih (fun hm => hs (mem_cons_of_mem _ hm))
        (fun hm => ht (mem_cons_of_mem _ hm)) htail with ⟨rfl, hab⟩
      exact ⟨rfl, hab⟩

theorem prefix_of_prefix_separator {n n' k : Text} {c : Char} (hn : c ∉ n)
    (h : n <+: n' ++ c :: k) : n <+: n' := by
  rcases prefix_or_prefix_of_prefix h (prefix_append n' _) with h' | ⟨r, rfl⟩
  · exact h'
  · cases r with
    | nil => simp
    | cons =>
      have hd := cons_prefix_cons.mp ((prefix_append_right_inj n').mp h)
      exact absurd (mem_append_right n' (hd.1 ▸ mem_cons_self)) hn

theorem dot_not_mem_position (i : ℕ) : '.' ∉ position i := by
  intro h
  have := Nat.isDigit_of_mem_toDigits (by decide) (by decide) h
  revert this
  decide

theorem isDigit_of_mem_position {i : ℕ} {c : Char} (h : c ∈ position i) : c.isDigit = true :=
  Nat.isDigit_of_mem_toDigits (by decide) (by decide) h

theorem le_of_position_prefix {i j : ℕ} (h : position i <+: position j) : i ≤ j := by
  have hi : Nat.ofDigitChars 10 (position i) 0 = i := Nat.ofDigitChars_ten_toDigits
  have hj : Nat.ofDigitChars 10 (position j) 0 = j := Nat.ofDigitChars_ten_toDigits
  rcases h with ⟨r, hr⟩
  have hle : ∀ (l : Text) (n : ℕ), n ≤ Nat.ofDigitChars 10 l n := by
    intro l
    induction l with
    | nil => exact fun n => Nat.le_refl n
    | cons c l ih =>
      intro n
      rw [Nat.ofDigitChars_cons]
      exact Nat.le_trans (by omega) (ih _)
  rw [← hr, Nat.ofDigitChars_append, hi] at hj
  exact hj ▸ hle r i

theorem position_prefix_cases {i j : ℕ} {k : Text} (h : position i <+: position j ++ '.' :: k) :
    i = j ∨ ∃ d ds, position j = position i ++ d :: ds := by
  rcases prefix_of_prefix_separator (dot_not_mem_position i) h with ⟨r, hr⟩
  cases r with
  | nil => exact .inl (position_injective (by simpa using hr))
  | cons d ds => exact .inr ⟨d, ds, hr.symm⟩

/-! ### Names -/

/-- A name has no dot, and its first character is no digit. -/
def IsName (name : Text) : Prop :=
  name ≠ [] ∧ '.' ∉ name ∧ ∀ c ∈ name.head?, c.isDigit = false

/-- What is left of the key of another element of a list starts with a digit or a dot. -/
def Noise (item : Text × Text) : Prop :=
  ∃ c rest, item.1 = c :: rest ∧ (c = '.' ∨ c.isDigit = true)

theorem not_noise {name : Text} {item : Text × Text} (hname : IsName name)
    (h : name <+: item.1) : ¬ Noise item := by
  rintro ⟨c, rest, hkey, hc⟩
  rcases hname with ⟨hne, hdot, hdigit⟩
  cases name with
  | nil => exact hne rfl
  | cons =>
    rw [hkey] at h
    rcases cons_prefix_cons.mp h with ⟨rfl, -⟩
    rcases hc with rfl | hc
    · exact hdot mem_cons_self
    · exact Bool.false_ne_true ((hdigit _ rfl).symm.trans hc)

def Shape.isScalar : Shape K → Bool
  | .scalar _ _ _ => true
  | _ => false

/-- A list or a map whose keys start with positions. -/
def Shape.isFlat : Shape K → Bool
  | .list serialization _ => serialization.flattened
  | .map serialization _ _ => serialization.flattened
  | _ => false

/-- Whether the parser takes an item for a member. -/
def Touches (shape : Shape K) (name : Text) (item : Text × Text) : Prop :=
  if shape.isScalar then item.1 = name else name <+: item.1

/-- A member does not take the parameters of another name. -/
def Apart (shape : Shape K) (name other : Text) : Prop :=
  if shape.isScalar then name ≠ other else ¬ name <+: other

theorem touches_scalar {ser : Serialization} {shapeName : Text} {kind : K} {name : Text}
    {item : Text × Text} (h : item.1 = name) :
    Touches (.scalar ser shapeName kind) name item := by
  simpa [Touches, Shape.isScalar] using h

theorem isPrefix_of_touches {shape : Shape K} {name : Text} {item : Text × Text}
    (h : Touches shape name item) : name <+: item.1 := by
  unfold Touches at h
  by_cases hs : shape.isScalar = true
  · rw [if_pos hs] at h
    exact h ▸ prefix_refl _
  · rwa [if_neg hs] at h

mutual

/-- The names of a shape do not give the parser something to mix up. -/
def WellNamed : Shape K → Prop
  | .scalar _ _ _ => True
  | .list serialization element =>
    (serialization.flattened = false →
      IsName (getSerializedName element.serialization "member".toList)) ∧
    element.isFlat = false ∧ WellNamed element
  | .map _ key value =>
    Apart value (getSerializedName value.serialization "value".toList)
      (getSerializedName key "key".toList) ∧ WellNamed value
  | .struct _ members => WellNamedMembers members

/-- The names of members do not give the parser something to mix up. -/
def WellNamedMembers : List (Text × Bool × Shape K) → Prop
  | [] => True
  | (member, _, shape) :: members =>
    IsName (wireName member shape) ∧ memberName member shape = wireName member shape ∧
    (∀ other ∈ members,
      Apart shape (wireName member shape) (wireName other.1 other.2.2) ∧
        Apart other.2.2 (wireName other.1 other.2.2) (wireName member shape)) ∧
    WellNamed shape ∧ WellNamedMembers members

end

/-! ### Items of an encoding -/

section Items

variable {scalars : Scalars K V} {shape : Shape K} {name : Text} {v : Value V}
  {item : Text × Text}

variable {inner : Value V → Node}

theorem encodeAt_cases (h : item ∈ encodeAt scalars inner shape name v) :
    (shape.isScalar = true ∧ item.1 = name) ∨
      shape.isScalar = false ∧ ∃ sub ∈ inner v, item = (name ++ '.' :: sub.1, sub.2) := by
  have hnest (h : item ∈ nest name (inner v)) :
      ∃ sub ∈ inner v, item = (name ++ '.' :: sub.1, sub.2) := by
    rcases mem_map.mp h with ⟨sub, hsub, rfl⟩
    exact ⟨sub, hsub, rfl⟩
  cases shape with
  | scalar =>
    cases v with
    | scalar => exact .inl ⟨rfl, congrArg Prod.fst (mem_singleton.mp h)⟩
    | null | list | dict => exact nomatch h
  | list | map | struct => exact .inr ⟨rfl, hnest h⟩

theorem not_touches_of_apart {other : Shape K} {otherName : Text} (hname : '.' ∉ otherName)
    (hapart : Apart other otherName name)
    (h : item ∈ encodeAt scalars inner shape name v) : ¬ Touches other otherName item := by
  intro htouch
  unfold Touches at htouch
  unfold Apart at hapart
  by_cases hs : other.isScalar = true
  · rw [if_pos hs] at htouch hapart
    rcases encodeAt_cases h with ⟨-, hkey⟩ | ⟨-, sub, -, rfl⟩
    · exact hapart (htouch.symm.trans hkey)
    · exact hname (htouch ▸ mem_append_right _ mem_cons_self)
  · rw [if_neg hs] at htouch hapart
    rcases encodeAt_cases h with ⟨-, hkey⟩ | ⟨-, sub, -, rfl⟩
    · exact hapart (hkey ▸ htouch)
    · exact hapart (prefix_of_prefix_separator hname htouch)

theorem encodeAt_nest (h : shape.isScalar = false) :
    encodeAt scalars inner shape name v = nest name (inner v) := by
  cases shape <;> first | rfl | exact absurd h Bool.false_ne_true.symm

theorem mem_encodeMembers {members : List (Text × Bool × Shape K)}
    {items : List (Text × Value V)} (h : item ∈ encodeMembers scalars members items) :
    ∃ m ∈ members, ∃ v, item ∈
      encodeAt scalars (encode scalars m.2.2) m.2.2 (wireName m.1 m.2.2) v := by
  induction members generalizing items with
  | nil => cases items <;> exact nomatch h
  | cons m members ih =>
    cases items with
    | nil => exact nomatch h
    | cons kv =>
      rw [encodeMembers] at h
      by_cases hk : kv.1 = m.1
      · rw [if_pos hk] at h
        rcases mem_append.mp h with h | h
        · exact ⟨m, mem_cons_self, kv.2, h⟩
        · rcases ih h with ⟨m', hm', v, hv⟩
          exact ⟨m', mem_cons_of_mem m hm', v, hv⟩
      · rw [if_neg hk] at h
        rcases ih h with ⟨m', hm', v, hv⟩
        exact ⟨m', mem_cons_of_mem m hm', v, hv⟩

theorem encodeAt_ne_nil (hshape : HasShape scalars shape v)
    (h : shape.isScalar = false → inner v ≠ []) :
    encodeAt scalars inner shape name v ≠ [] := by
  cases hs : shape.isScalar with
  | true =>
    cases shape with
    | scalar =>
      cases v with
      | scalar => exact cons_ne_nil _ _
      | null | list | dict => exact False.elim hshape
    | list | map | struct => exact absurd hs Bool.false_ne_true
  | false =>
    rw [encodeAt_nest hs]
    exact fun hnil => h hs (map_eq_nil_iff.mp hnil)

end Items

mutual

theorem encode_ne_nil (scalars : Scalars K V) (shape : Shape K) (v : Value V)
    (hs : shape.isScalar = false) (h : HasShape scalars shape v) : encode scalars shape v ≠ [] := by
  match shape, v with
  | .list serialization element, .list (x :: items) =>
    intro hnil
    have hx := flatMap_eq_nil_iff.mp hnil (x, 1) (by simp)
    have hitem := h.2 x mem_cons_self
    exact encodeAt_ne_nil hitem (fun hs => encode_ne_nil scalars element x hs hitem) hx
  | .list serialization element, .list [] => exact absurd rfl h.1
  | .map serialization key value, .dict (x :: items) =>
    intro hnil
    have hx := flatMap_eq_nil_iff.mp hnil (x, 1) (by simp)
    exact cons_ne_nil _ _ hx
  | .map serialization key value, .dict [] => exact absurd rfl h.1
  | .struct serialization members, .dict items =>
    exact encodeMembers_ne_nil scalars members items h.1 h.2

theorem encodeMembers_ne_nil (scalars : Scalars K V) (members : List (Text × Bool × Shape K))
    (items : List (Text × Value V)) (hne : items ≠ []) (h : HasMembers scalars members items) :
    encodeMembers scalars members items ≠ [] := by
  match members, items with
  | [], items => exact absurd h hne
  | (member, required, shape) :: members, [] => exact absurd rfl hne
  | (member, required, shape) :: members, (k, v) :: items =>
    rw [HasMembers] at h
    rw [encodeMembers]
    by_cases hk : k = member
    · rw [if_pos hk] at h ⊢
      exact fun hnil => encodeAt_ne_nil h.1 (fun hs => encode_ne_nil scalars shape v hs h.1)
        (append_eq_nil_iff.mp hnil).1
    · rw [if_neg hk] at h ⊢
      exact encodeMembers_ne_nil scalars members ((k, v) :: items) hne h.2

end

/-! ### Places -/

section Places

variable {scalars : Scalars K V} {shape : Shape K} {name : Text} {params : Node}

theorem vacantAt_of_untouched {inner : Node → Prop}
    (h : ∀ item ∈ params, ¬ Touches shape name item) : VacantAt inner shape name params := by
  have hcomplex (hs : shape.isScalar = false) : under name params = [] := by
    rw [under_eq_nil_iff]
    intro item hitem hpre
    apply h _ hitem
    rw [Touches, if_neg (hs ▸ Bool.false_ne_true)]
    exact hpre
  cases shape with
  | scalar => exact fun item hitem hkey => h _ hitem (touches_scalar hkey)
  | list | map | struct => exact fun hne => absurd (hcomplex rfl) hne

theorem holdsAt_of_own {v : Value V} (hshape : HasShape scalars shape v)
    (inner : shape.isScalar = false → ∀ params : Node,
      (∀ sub ∈ encode scalars shape v, sub ∈ params) →
      (∀ sub ∈ params, sub ∈ encode scalars shape v ∨ Noise sub ∧ shape.isFlat = false) →
      Holds scalars shape v params)
    (hown : ∀ item ∈ encodeAt scalars (encode scalars shape) shape name v, item ∈ params)
    (htaken : ∀ item ∈ params, Touches shape name item →
      item ∈ encodeAt scalars (encode scalars shape) shape name v ∨
        shape.isScalar = false ∧ shape.isFlat = false ∧
          Noise (item.1.drop (name.length + 1), item.2)) :
    HoldsAt scalars (Holds scalars shape) shape name v params := by
  have hstrip : ∀ sub : Text × Text,
      stripName name (name ++ '.' :: sub.1, sub.2) = some sub := by
    intro sub
    have hdrop : (name ++ '.' :: sub.1).drop (name.length + 1) = sub.1 := by simp
    simp [stripName, hdrop]
  have hcomplex (hs : shape.isScalar = false) :
      under name params ≠ [] ∧ Holds scalars shape v (under name params) := by
    rw [encodeAt_nest hs] at hown htaken
    have hmem : ∀ sub ∈ encode scalars shape v, sub ∈ under name params := by
      intro sub hsub
      exact mem_filterMap.mpr ⟨_, hown _ (mem_map.mpr ⟨sub, hsub, rfl⟩), hstrip _⟩
    constructor
    · rcases exists_mem_of_ne_nil _ (encode_ne_nil _ _ v hs hshape) with ⟨sub, hsub⟩
      exact ne_nil_of_mem (hmem sub hsub)
    · refine inner hs _ hmem fun sub hsub => ?_
      rcases mem_filterMap.mp hsub with ⟨item, hitem, hsome⟩
      unfold stripName at hsome
      by_cases hpre : name.isPrefixOf item.1 = true
      · rw [if_pos hpre] at hsome
        have htouch : Touches shape name item := by
          rw [Touches, if_neg (hs ▸ Bool.false_ne_true)]
          exact isPrefixOf_iff_prefix.mp hpre
        rcases htaken item hitem htouch with hitem | ⟨-, hflat, hnoise⟩
        · rcases mem_map.mp hitem with ⟨sub', hsub', rfl⟩
          have heq := hstrip sub'
          rw [stripName, if_pos hpre] at heq
          rw [← some.inj (heq.symm.trans hsome)]
          exact .inl hsub'
        · exact .inr ⟨some.inj hsome ▸ hnoise, hflat⟩
      · rw [if_neg hpre] at hsome
        cases hsome
  cases shape with
  | scalar ser shapeName kind =>
    cases v with
    | scalar x =>
      refine ⟨⟨_, hown _ mem_cons_self, rfl⟩, fun item hitem hkey => ?_⟩
      rcases htaken item hitem (touches_scalar hkey) with hitem | ⟨hs, -⟩
      · rw [mem_singleton.mp hitem]
        exact scalars.parse_text kind x hshape
      · exact absurd hs.symm Bool.false_ne_true
    | null | list | dict => exact False.elim hshape
  | list | map | struct => exact hcomplex rfl

end Places

/-! ### Well-named shapes -/

theorem eq_of_mem_zipIdx {α : Type} {l : List α} {x y : α × ℕ} (hx : x ∈ l.zipIdx 1)
    (hy : y ∈ l.zipIdx 1) (h : x.2 = y.2) : x.1 = y.1 := by
  have hx := (mk_mem_zipIdx_iff_le_and_getElem?_sub.mp hx).2
  have hy := (mk_mem_zipIdx_iff_le_and_getElem?_sub.mp hy).2
  rw [h] at hx
  exact some.inj (hx.symm.trans hy)

theorem le_length_of_mem_zipIdx {α : Type} {l : List α} {x : α × ℕ} (hx : x ∈ l.zipIdx 1) :
    x.2 ≤ l.length := by
  have := snd_lt_add_of_mem_zipIdx hx
  omega

section Lists

variable {serialization : Serialization} {element : Shape K} {i j : ℕ}

/-- The place of an element is touched by the parameters of its own and by those of elements
    whose position has more digits. -/
theorem elementName_prefix_cases {k : Text}
    (h : elementName serialization element i <+: elementName serialization element j ++ '.' :: k) :
    i = j ∨ ∃ d ds, position j = position i ++ d :: ds := by
  unfold elementName at h
  rw [append_assoc] at h
  exact position_prefix_cases ((prefix_append_right_inj _).mp h)

theorem noise_of_position {d : Char} {ds k : Text} {t : Text}
    (h : position j = position i ++ d :: ds) :
    Noise ((elementName serialization element j ++ '.' :: k).drop
      ((elementName serialization element i).length + 1), t) := by
  have hkey : (elementName serialization element j ++ '.' :: k).drop
      ((elementName serialization element i).length + 1) = ds ++ '.' :: k := by
    have hsplit : elementName serialization element j ++ '.' :: k =
        (elementName serialization element i ++ [d]) ++ (ds ++ '.' :: k) := by
      simp [elementName, h]
    have hlen : (elementName serialization element i).length + 1 =
        (elementName serialization element i ++ [d]).length := by simp
    rw [hsplit, hlen, drop_left]
  cases ds with
  | nil => exact ⟨'.', k, hkey, .inl rfl⟩
  | cons e ds =>
    refine ⟨e, ds ++ '.' :: k, hkey, .inr ?_⟩
    apply isDigit_of_mem_position (i := j)
    rw [h]
    simp

theorem not_noise_of_touches {item : Text × Text} (hflat : serialization.flattened = false)
    (hname : IsName (getSerializedName element.serialization "member".toList))
    (h : Touches element (elementName serialization element i) item) : ¬ Noise item := by
  apply not_noise hname
  have hpre := isPrefix_of_touches h
  simp only [elementName, getListKeyPrefix, hflat, Bool.false_eq_true, if_false,
    append_assoc] at hpre
  exact (prefix_append _ _).trans hpre

end Lists

section Maps

variable {serialization key : Serialization} {value : Shape K} {i j : ℕ}

theorem entryPrefix_isPrefix {a b : Text}
    (h : entryPrefix serialization i ++ a <+: entryPrefix serialization j ++ b) :
    i = j ∧ a <+: b := by
  simp only [entryPrefix, append_assoc] at h
  have h := (prefix_append_right_inj _).mp h
  rcases prefix_separator (dot_not_mem_position i) (dot_not_mem_position j) h with ⟨hij, hab⟩
  exact ⟨position_injective hij, hab⟩

theorem entryPrefix_inj {a b : Text}
    (h : entryPrefix serialization i ++ a = entryPrefix serialization j ++ b) : i = j ∧ a = b := by
  have hpre : entryPrefix serialization i ++ a <+: entryPrefix serialization j ++ b :=
    h ▸ prefix_refl _
  have hi := (entryPrefix_isPrefix hpre).1
  rw [hi] at h
  exact ⟨hi, append_cancel_left h⟩

theorem not_noise_of_entryPrefix {item : Text × Text} {a : Text}
    (hflat : serialization.flattened = false) (h : entryPrefix serialization i ++ a <+: item.1) :
    ¬ Noise item := by
  have hname : IsName "entry".toList := ⟨by simp, by decide, by rintro c ⟨⟩; rfl⟩
  have hsplit : "entry.".toList = "entry".toList ++ ['.'] := rfl
  apply not_noise hname
  simp only [entryPrefix, hflat, Bool.false_eq_true, if_false, append_assoc, hsplit] at h
  exact (prefix_append _ _).trans h

end Maps

section Cases

variable {scalars : Scalars K V} {serialization key : Serialization} {i : ℕ} {item : Text × Text}

theorem element_touch_cases {element : Shape K} {items : List (Value V)}
    (h : item ∈ encode scalars (.list serialization element) (.list items))
    (htouch : Touches element (elementName serialization element i) item) :
    ∃ y ∈ items.zipIdx 1,
      (i = y.2 ∧ item ∈ encodeAt scalars (encode scalars element) element
        (elementName serialization element i) y.1) ∨
      (∃ d ds, position y.2 = position i ++ d :: ds) ∧ element.isScalar = false ∧
        Noise (item.1.drop ((elementName serialization element i).length + 1), item.2) := by
  rcases mem_flatMap.mp h with ⟨y, hy, hitem⟩
  refine ⟨y, hy, ?_⟩
  rcases encodeAt_cases hitem with ⟨hs, hkey⟩ | ⟨hs, sub, -, rfl⟩
  · rw [Touches, if_pos hs] at htouch
    have hi : i = y.2 := elementName_injective _ _ (htouch.symm.trans hkey)
    exact .inl ⟨hi, hi ▸ hitem⟩
  · rcases elementName_prefix_cases (isPrefix_of_touches htouch) with hi | ⟨d, ds, hpos⟩
    · exact .inl ⟨hi, hi ▸ hitem⟩
    · exact .inr ⟨⟨d, ds, hpos⟩, hs, noise_of_position hpos⟩

variable {value : Shape K} {items : List (Text × Value V)}

theorem mem_encode_map (h : item ∈ encode scalars (.map serialization key value) (.dict items)) :
    ∃ x ∈ items.zipIdx 1, item = (keyName serialization key x.2, x.1.1) ∨
      item ∈ encodeAt scalars (encode scalars value) value (valueName serialization value x.2)
        x.1.2 := by
  rcases mem_flatMap.mp h with ⟨x, hx, hitem⟩
  exact ⟨x, hx, mem_cons.mp hitem⟩

theorem value_touch_cases
    (hapart : Apart value (getSerializedName value.serialization "value".toList)
      (getSerializedName key "key".toList))
    (h : item ∈ encode scalars (.map serialization key value) (.dict items))
    (htouch : Touches value (valueName serialization value i) item) :
    ∃ x ∈ items.zipIdx 1, i = x.2 ∧
      item ∈ encodeAt scalars (encode scalars value) value (valueName serialization value i)
        x.1.2 := by
  rcases mem_encode_map h with ⟨x, hx, rfl | hitem⟩
  · -- The key of an entry does not touch the place of a value.
    exfalso
    unfold Touches at htouch
    unfold Apart at hapart
    by_cases hs : value.isScalar = true
    · rw [if_pos hs] at htouch hapart
      exact hapart (entryPrefix_inj htouch).2.symm
    · rw [if_neg hs] at htouch hapart
      exact hapart (entryPrefix_isPrefix htouch).2
  · refine ⟨x, hx, ?_⟩
    have hi : i = x.2 := by
      rcases encodeAt_cases hitem with ⟨hs, hkey⟩ | ⟨hs, sub, -, rfl⟩
      · rw [Touches, if_pos hs] at htouch
        exact valueName_injective _ _ (htouch.symm.trans hkey)
      · have hpre := isPrefix_of_touches htouch
        rw [valueName, valueName, append_assoc] at hpre
        exact (entryPrefix_isPrefix hpre).1
    exact ⟨hi, hi ▸ hitem⟩

theorem key_cases
    (hapart : Apart value (getSerializedName value.serialization "value".toList)
      (getSerializedName key "key".toList))
    (h : item ∈ encode scalars (.map serialization key value) (.dict items))
    (hkey : item.1 = keyName serialization key i) :
    ∃ x ∈ items.zipIdx 1, i = x.2 ∧ item.2 = x.1.1 := by
  rcases mem_encode_map h with ⟨x, hx, rfl | hitem⟩
  · exact ⟨x, hx, (entryPrefix_inj hkey).1.symm, rfl⟩
  · exfalso
    unfold Apart at hapart
    rcases encodeAt_cases hitem with ⟨hs, hvalue⟩ | ⟨hs, sub, -, rfl⟩
    · rw [if_pos hs] at hapart
      exact hapart (entryPrefix_inj (hvalue.symm.trans hkey)).2
    · rw [if_neg (hs ▸ Bool.false_ne_true)] at hapart
      have hpre : valueName serialization value x.2 <+: keyName serialization key i :=
        ⟨'.' :: sub.1, hkey⟩
      exact hapart (entryPrefix_isPrefix hpre).2

end Cases

theorem wellNamed_of_mem {members : List (Text × Bool × Shape K)} (h : WellNamedMembers members)
    {m : Text × Bool × Shape K} (hm : m ∈ members) :
    IsName (wireName m.1 m.2.2) ∧ memberName m.1 m.2.2 = wireName m.1 m.2.2 := by
  induction members with
  | nil => exact nomatch hm
  | cons m' members ih =>
    rcases h with ⟨hname, hwire, -, -, hrest⟩
    rcases mem_cons.mp hm with rfl | hm
    · exact ⟨hname, hwire⟩
    · exact ih hrest hm

mutual

/-- Nothing disturbs a value of such a shape. -/
theorem holds_of_wellNamed (scalars : Scalars K V) (shape : Shape K) (v : Value V)
    (hs : shape.isScalar = false) (hwell : WellNamed shape) (hshape : HasShape scalars shape v)
    (params : Node) (hown : ∀ item ∈ encode scalars shape v, item ∈ params)
    (hall : ∀ item ∈ params,
      item ∈ encode scalars shape v ∨ Noise item ∧ shape.isFlat = false) :
    Holds scalars shape v params := by
  match shape, v with
  | .list serialization element, .list items =>
    rcases hwell with ⟨hname, hflat, helement⟩
    -- What touches the place of an element belongs to the list.
    have htouch (i : ℕ) (item : Text × Text) (hitem : item ∈ params)
        (h : Touches element (elementName serialization element i) item) :
        item ∈ encode scalars (.list serialization element) (.list items) := by
      rcases hall item hitem with hitem | ⟨hnoise, hlist⟩
      · exact hitem
      · exact absurd hnoise (not_noise_of_touches hlist (hname hlist) h)
    constructor
    · intro x hx
      have hitem := hshape.2 x.1 (fst_mem_of_mem_zipIdx hx)
      refine holdsAt_of_own hitem
        (fun hs => holds_of_wellNamed scalars element x.1 hs helement hitem)
        (fun item h => hown item (mem_flatMap.mpr ⟨x, hx, h⟩)) fun item h ht => ?_
      rcases element_touch_cases (htouch x.2 item h ht) ht with
        ⟨y, hy, ⟨hi, hmem⟩ | ⟨-, hscalar, hnoise⟩⟩
      · rw [← eq_of_mem_zipIdx hy hx hi.symm]
        exact .inl hmem
      · exact .inr ⟨hscalar, hflat, hnoise⟩
    · refine vacantAt_of_untouched fun item h ht => ?_
      rcases element_touch_cases (htouch _ item h ht) ht with ⟨y, hy, ⟨hi, -⟩ | ⟨⟨d, ds, hpos⟩, -⟩⟩
      · have := le_length_of_mem_zipIdx hy
        omega
      · have hle := le_of_position_prefix ⟨d :: ds, hpos.symm⟩
        have := le_length_of_mem_zipIdx hy
        omega
  | .map serialization key value, .dict items =>
    rcases hwell with ⟨hapart, hvalue⟩
    have hmap (a : Text) (i : ℕ) (item : Text × Text) (hitem : item ∈ params)
        (h : entryPrefix serialization i ++ a <+: item.1) :
        item ∈ encode scalars (.map serialization key value) (.dict items) := by
      rcases hall item hitem with hitem | ⟨hnoise, hlist⟩
      · exact hitem
      · exact absurd hnoise (not_noise_of_entryPrefix hlist h)
    constructor
    · intro x hx
      have hitem := hshape.2.2 x.1 (fst_mem_of_mem_zipIdx hx)
      refine ⟨⟨⟨(keyName serialization key x.2, x.1.1), ?_, rfl⟩, fun item h hkey => ?_⟩, ?_⟩
      · exact hown _ (mem_flatMap.mpr ⟨x, hx, mem_cons_self⟩)
      · have hpre : keyName serialization key x.2 <+: item.1 :=
          ⟨[], by rw [append_nil]; exact hkey.symm⟩
        rcases key_cases hapart (hmap _ x.2 item h hpre) hkey with ⟨y, hy, hi, hk⟩
        rw [hk, eq_of_mem_zipIdx hy hx hi.symm]
      · refine holdsAt_of_own hitem
          (fun hs params hown hall => holds_of_wellNamed scalars value x.1.2 hs hvalue hitem params
            hown hall)
          (fun item h => hown item
            (mem_flatMap.mpr ⟨x, hx, mem_cons_of_mem _ h⟩)) fun item h ht => ?_
        rcases value_touch_cases hapart (hmap _ x.2 item h (isPrefix_of_touches ht)) ht with
          ⟨y, hy, hi, hmem⟩
        rw [← eq_of_mem_zipIdx hy hx hi.symm]
        exact .inl hmem
    · refine .inl (vacantAt_of_untouched fun item h ht => ?_)
      rcases value_touch_cases hapart (hmap _ _ item h (isPrefix_of_touches ht)) ht with
        ⟨y, hy, hi, -⟩
      have := le_length_of_mem_zipIdx hy
      omega
  | .struct serialization members, .dict items =>
    refine holdsMembers_of_wellNamed scalars members items hwell hshape.2 params hown
      fun item hitem => ?_
    rcases hall item hitem with hitem | ⟨hnoise, -⟩
    · exact .inl hitem
    · refine .inr fun m hm ht => ?_
      rcases wellNamed_of_mem hwell hm with ⟨hname, hwire⟩
      exact not_noise hname (hwire ▸ isPrefix_of_touches ht) hnoise

theorem holdsMembers_of_wellNamed (scalars : Scalars K V) (members : List (Text × Bool × Shape K))
    (items : List (Text × Value V)) (hwell : WellNamedMembers members)
    (hmembers : HasMembers scalars members items) (params : Node)
    (hown : ∀ item ∈ encodeMembers scalars members items, item ∈ params)
    (hall : ∀ item ∈ params, item ∈ encodeMembers scalars members items ∨
      ∀ m ∈ members, ¬ Touches m.2.2 (memberName m.1 m.2.2) item) :
    HoldsMembers scalars members items params := by
  match members, items with
  | [], items => exact hmembers
  | (member, required, shape) :: members, [] =>
    rcases hwell with ⟨-, -, -, -, hrest⟩
    refine ⟨hmembers.1, vacantAt_of_untouched fun item h => ?_, ?_⟩
    · rcases hall item h with hitem | hnone
      · exact nomatch hitem
      · exact hnone _ mem_cons_self
    · refine holdsMembers_of_wellNamed scalars members [] hrest hmembers.2 params ?_ ?_
      · cases members <;> exact fun item hitem => nomatch hitem
      · intro item h
        rcases hall item h with hitem | hnone
        · exact nomatch hitem
        · exact .inr fun m hm => hnone m (mem_cons_of_mem _ hm)
  | (member, required, shape) :: members, (k, v) :: items =>
    rcases hwell with ⟨hname, hwire, hapart, hshape, hrest⟩
    rw [HasMembers] at hmembers
    rw [encodeMembers] at hown hall
    rw [HoldsMembers]
    -- The parameters of the members that follow do not touch the place of this one.
    have hothers (items : List (Text × Value V)) (item : Text × Text)
        (h : item ∈ encodeMembers scalars members items) :
        ¬ Touches shape (memberName member shape) item := by
      rcases mem_encodeMembers h with ⟨m, hm, w, hw⟩
      rw [hwire]
      exact not_touches_of_apart hname.2.1 (hapart m hm).1 hw
    by_cases hk : k = member
    · rw [if_pos hk] at hmembers hown hall ⊢
      constructor
      · rw [hwire] at hothers ⊢
        refine holdsAt_of_own hmembers.1
          (fun hs => holds_of_wellNamed scalars shape v hs hshape hmembers.1)
          (fun item h => hown item (mem_append_left _ h)) fun item h ht => ?_
        rcases hall item h with hitem | hnone
        · rcases mem_append.mp hitem with hitem | hitem
          · exact .inl hitem
          · exact absurd ht (hothers items item hitem)
        · exact absurd ht (hwire ▸ hnone _ mem_cons_self)
      · refine holdsMembers_of_wellNamed scalars members items hrest hmembers.2 params
          (fun item h => hown item (mem_append_right _ h)) fun item h => ?_
        rcases hall item h with hitem | hnone
        · rcases mem_append.mp hitem with hitem | hitem
          · refine .inr fun m hm => ?_
            rcases wellNamed_of_mem hrest hm with ⟨hname', hwire'⟩
            rw [hwire']
            exact not_touches_of_apart hname'.2.1 (hapart m hm).2 hitem
          · exact .inl hitem
        · exact .inr fun m hm => hnone m (mem_cons_of_mem _ hm)
    · rw [if_neg hk] at hmembers hown hall ⊢
      refine ⟨hmembers.1, vacantAt_of_untouched fun item h => ?_, ?_⟩
      · rcases hall item h with hitem | hnone
        · exact hothers _ item hitem
        · exact hnone _ mem_cons_self
      · refine holdsMembers_of_wellNamed scalars members ((k, v) :: items) hrest hmembers.2 params
          hown fun item h => ?_
        rcases hall item h with hitem | hnone
        · exact .inl hitem
        · exact .inr fun m hm => hnone m (mem_cons_of_mem _ hm)

end

/-- When a value is parsed from its parameters, in all their orders: whenever nothing disturbs
    it, and without maps only then. Nothing disturbs the values of a well-named shape. -/
theorem parseInput_encode (scalars : Scalars K V) (members : List (Text × Bool × Shape K))
    (items : List (Text × Value V)) (h : HasMembers scalars members items) :
    (HoldsMembers scalars members items (encodeMembers scalars members items) →
      ∀ params, params.Perm (encodeMembers scalars members items) →
        parseInput scalars members params = .ok items) ∧
    (MapFreeMembers members →
      (∀ params, params.Perm (encodeMembers scalars members items) →
        parseInput scalars members params = .ok items) →
      HoldsMembers scalars members items (encodeMembers scalars members items)) ∧
    (WellNamedMembers members →
      HoldsMembers scalars members items (encodeMembers scalars members items)) := by
  refine ⟨fun hholds params hperm => ?_, fun hfree hparse => ?_, fun hwell => ?_⟩
  · exact parseMembers_of_holds _ _ _ h _ _ hperm hholds
  · exact holdsMembers_of_parse _ _ _ hfree h _ hparse
  · exact holdsMembers_of_wellNamed _ _ _ hwell h _ (fun _ hitem => hitem)
      fun _ hitem => .inl hitem

/-! ### Instances -/

def strings : Scalars Unit Text where
  typeName _ := "string".toList
  isOf _ _ := True
  text _ x := x
  parse _ t := some t
  parse_text _ _ _ := rfl

/-- A string without a name of its own. -/
def string : Shape Unit := .scalar ⟨none, false⟩ "String".toList ()

/-- Members with a list of strings and a string. -/
def listMembers : List (Text × Bool × Shape Unit) :=
  [("Names".toList, false, .list ⟨none, false⟩ string), ("Owner".toList, true, string)]

theorem parseInput_encode_list :
    parseInput strings listMembers
        [("Owner".toList, "o".toList), ("Names.member.2".toList, "b".toList),
          ("Names.member.1".toList, "a".toList)] =
      .ok [("Names".toList, .list [.scalar "a".toList, .scalar "b".toList]),
        ("Owner".toList, .scalar "o".toList)] := by
  have hmembers : HasMembers strings listMembers
      [("Names".toList, .list [.scalar "a".toList, .scalar "b".toList]),
        ("Owner".toList, .scalar "o".toList)] := by
    refine ⟨⟨cons_ne_nil _ _, fun item hitem => ?_⟩, trivial, rfl⟩
    rcases mem_cons.mp hitem with rfl | hitem
    · exact trivial
    · exact mem_singleton.mp hitem ▸ trivial
  have hwell : WellNamedMembers listMembers := by
    have hlist : IsName "Names".toList := ⟨by decide, by decide, by rintro c ⟨⟩; rfl⟩
    have hmember : IsName "member".toList := ⟨by decide, by decide, by rintro c ⟨⟩; rfl⟩
    have hstring : IsName "Owner".toList := ⟨by decide, by decide, by rintro c ⟨⟩; rfl⟩
    refine ⟨hlist, rfl, fun other hother => ?_, ⟨fun _ => hmember, rfl, trivial⟩,
      hstring, rfl, fun _ hother => absurd hother not_mem_nil, trivial, trivial⟩
    rw [mem_singleton.mp hother]
    have hstart : ¬ "Names".toList <+: "Owner".toList := by decide
    have hne : "Owner".toList ≠ "Names".toList := by decide
    exact ⟨hstart, hne⟩
  have hmain := parseInput_encode _ _ _ hmembers
  refine hmain.1 (hmain.2.2 hwell) _ ?_
  decide +kernel

/-- A structure whose name starts the name of a string. -/
def prefixMembers : List (Text × Bool × Shape Unit) :=
  [("A".toList, false, .struct ⟨none, false⟩ [("C".toList, false, string)]),
    ("ABC".toList, false, string)]

/-- The string is taken for a member of the structure, which the value does not have. -/
theorem parseInput_prefix :
    HasMembers strings prefixMembers [("ABC".toList, .scalar "x".toList)] ∧
      encodeMembers strings prefixMembers [("ABC".toList, .scalar "x".toList)] =
        [("ABC".toList, "x".toList)] ∧
      parseInput strings prefixMembers [("ABC".toList, "x".toList)] =
        .ok [("A".toList, .dict [("C".toList, .scalar "x".toList)]),
          ("ABC".toList, .scalar "x".toList)] ∧
      ¬ (parseInput strings prefixMembers [("ABC".toList, "x".toList)] =
        .ok [("ABC".toList, .scalar "x".toList)]) := by
  have hparse : parseInput strings prefixMembers [("ABC".toList, "x".toList)] =
      .ok [("A".toList, .dict [("C".toList, .scalar "x".toList)]),
        ("ABC".toList, .scalar "x".toList)] := by
    rfl
  refine ⟨?_, rfl, hparse, ?_⟩
  · exact ⟨rfl, trivial, rfl⟩
  · rw [hparse]
    intro h
    injection h with h
    injection h with _ h
    cases h

end LocalEmu.Protocol.Query
