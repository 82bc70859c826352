import LocalEmu.Theory.Iam.Denial

/-!
# Negated Condition Operators

The values of a condition key are alternatives, whatever the operator. For a negated operator
that means that it is enough if the context value differs from one of them.
-/

namespace LocalEmu.Iam

open List

variable (py : Builtins)

/-- The operators and their negations. -/
def negations : List (String × String) :=
  [("StringEquals", "StringNotEquals"),
   ("StringEqualsIgnoreCase", "StringNotEqualsIgnoreCase"),
   ("StringLike", "StringNotLike"),
   ("NumericEquals", "NumericNotEquals"),
   ("DateEquals", "DateNotEquals"),
   ("IpAddress", "NotIpAddress"),
   ("ArnEquals", "ArnNotEquals"),
   ("ArnLike", "ArnNotLike")]

def conditionOn (operator key : String) (values : List Json) : Json :=
  .obj [("Condition", .obj [(operator, .obj [(key, .arr values)])])]

/-- A value that is present and is no list. -/
def Json.isSingle : Json → Bool
  | null | arr _ => false
  | _ => true

/-- What an operator says of the context value and a condition value. -/
def compared (context : Context) (operator : String) (value v : Json) : Except PyError Bool :=
  match operators.lookup operator with
  | some operator => operator.compare py value (substitutePolicyVariables py context (py.str v))
  | none => pure false

theorem map_not (b : Bool) : (pure (b != true) : Except PyError Bool) =
    (pure (b != false) : Except PyError Bool).map (!·) := by
  cases b with
  | true | false => rfl

theorem compareDates_notEquals (a b : Datetime) :
    compareDates .notEquals a b = (compareDates .equals a b).map (!·) := by
  unfold compareDates
  by_cases h : a.aware = b.aware
  · rw [if_pos h, if_pos h]
    rfl
  · rw [if_neg h, if_neg h]
    rfl

theorem compare_negated {names : String × String} (h : names ∈ negations) :
    ∃ positive negated, operators.lookup names.1 = some positive ∧
      operators.lookup names.2 = some negated ∧
      parseOperatorName names.1 = ⟨false, none, names.1⟩ ∧
      parseOperatorName names.2 = ⟨false, none, names.2⟩ ∧
      ∀ a b, negated.compare py a b = (positive.compare py a b).map (!·) := by
  simp only [negations, mem_cons, not_mem_nil, or_false] at h
  rcases h with rfl | rfl | rfl | rfl | rfl | rfl | rfl | rfl
  · exact ⟨_, _, rfl, rfl, by rfl, by rfl, fun a b => map_not _⟩
  · exact ⟨_, _, rfl, rfl, by rfl, by rfl, fun a b => map_not _⟩
  · exact ⟨_, _, rfl, rfl, by rfl, by rfl, fun a b => map_not _⟩
  · refine ⟨_, _, rfl, rfl, by rfl, by rfl, fun a b => ?_⟩
    simp only [Operator.compare]
    cases py.compareFloat a (.str b) with
    | error | ok => rfl
  · refine ⟨_, _, rfl, rfl, by rfl, by rfl, fun a b => ?_⟩
    simp only [Operator.compare]
    cases parseDate py a with
    | error => rfl
    | ok =>
      cases parseDate py (.str b) with
      | error => rfl
      | ok => exact compareDates_notEquals _ _
  · exact ⟨_, _, rfl, rfl, by rfl, by rfl, fun a b => map_not _⟩
  · exact ⟨_, _, rfl, rfl, by rfl, by rfl, fun a b => map_not _⟩
  · exact ⟨_, _, rfl, rfl, by rfl, by rfl, fun a b => map_not _⟩

/-! ### The matcher -/

theorem allM_singleton {α : Type} (a : α) (test : α → Except PyError Bool) :
    [a].allM test = test a := by
  rw [allM]
  rcases test a with e | _ | _
  · rfl
  · rfl
  · rfl

theorem anyM_map_ok {α β : Type} (l : List α) (f : α → β) (test : β → Except PyError Bool)
    (g : α → Bool) (h : ∀ a ∈ l, test (f a) = .ok (g a)) :
    (l.map f).anyM test = .ok (l.any g) := by
  induction l with
  | nil => rfl
  | cons a l ih =>
    rw [map_cons, anyM, h a mem_cons_self, any_cons]
    cases g a with
    | true => rfl
    | false => exact ih fun b hb => h b (mem_cons_of_mem a hb)

variable {context : Context} {key : String} {value : Json} {values : List Json}

/-- The matcher on one key. -/
theorem matchesConditions_conditionOn {name : String} {operator : Operator}
    (hlookup : operators.lookup name = some operator)
    (hname : parseOperatorName name = ⟨false, none, name⟩)
    (hvalue : context.lookup key = some value) (hsingle : value.isSingle = true) (g : Json → Bool)
    (h : ∀ v ∈ values, compared py context name value v = .ok (g v)) :
    matchesConditions py (conditionOn name key values) context = .ok (values.any g) := by
  have hpresent : contextValue context key = some value := by
    rw [contextValue, hvalue]
    cases value with
    | null | arr => cases hsingle
    | _ => rfl
  have hblock : matchesConditions py (conditionOn name key values) context =
      [(name, Json.obj [(key, .arr values)])].allM (matchesConditionBlock py context) := by
    rw [matchesConditions, conditionOn, Json.get, lookup_cons_self]
    rfl
  have hkey : matchesConditionBlock py context (name, .obj [(key, .arr values)]) =
      [(key, Json.arr values)].allM
        (matchesConditionKey py context ⟨false, none, name⟩ operator) := by
    delta matchesConditionBlock
    simp only [hname, hlookup]
    rfl
  have hvalues : matchesConditionKey py context ⟨false, none, name⟩ operator
      (key, .arr values) = (values.map fun v =>
        substitutePolicyVariables py context (py.str v)).anyM (safeCompare py operator value) := by
    simp only [matchesConditionKey, hpresent]
    rfl
  rw [hblock, allM_singleton, hkey, allM_singleton, hvalues]
  refine anyM_map_ok _ _ _ _ fun v hv => ?_
  have hv := h v hv
  simp only [compared, hlookup] at hv
  simp only [safeCompare, hv]

/-- For a key with one value, a negated operator is the complement of the positive one if and
    only if the positive one says the same of all the condition values. -/
theorem negated_iff {names : String × String} (hnames : names ∈ negations)
    (hvalue : context.lookup key = some value) (hsingle : value.isSingle = true)
    (hvalues : values ≠ [])
    (hok : ∀ v ∈ values, ∃ b, compared py context names.1 value v = .ok b) :
    (matchesConditions py (conditionOn names.2 key values) context = .ok true ↔
        ¬matchesConditions py (conditionOn names.1 key values) context = .ok true) ↔
      ∀ v ∈ values, ∀ w ∈ values,
        compared py context names.1 value v = compared py context names.1 value w := by
  rcases compare_negated py hnames with
    ⟨positive, negated, hpositive, hnegated, hname, hname', hcompare⟩
  let g v := (compared py context names.1 value v).toOption.getD false
  have hg : ∀ v ∈ values, compared py context names.1 value v = .ok (g v) := by
    intro v hv
    rcases hok v hv with ⟨b, hb⟩
    simp only [g, hb]
    rfl
  have hg' : ∀ v ∈ values, compared py context names.2 value v = .ok (!g v) := by
    intro v hv
    have hv := hg v hv
    simp only [compared, hpositive] at hv
    simp only [compared, hnegated, hcompare, hv]
    rfl
  rw [matchesConditions_conditionOn py hnegated hname' hvalue hsingle _ hg',
    matchesConditions_conditionOn py hpositive hname hvalue hsingle g hg]
  simp only [Except.ok.injEq, any_eq_true]
  constructor
  · intro h v hv w hw
    by_contra hne
    have hpair : ∃ v ∈ values, ∃ w ∈ values, g v = true ∧ (!g w) = true := by
      cases hgv : g v with
      | true => exact ⟨v, hv, w, hw, hgv, by simp_all⟩
      | false => exact ⟨w, hw, v, hv, by simp_all, by rw [hgv]; rfl⟩
    rcases hpair with ⟨v, hv, w, hw, hgv, hgw⟩
    exact h.mp ⟨w, hw, hgw⟩ ⟨v, hv, hgv⟩
  · intro h
    rcases exists_mem_of_ne_nil _ hvalues with ⟨v, hv⟩
    have hsame : ∀ w ∈ values, g w = g v := by
      intro w hw
      have := h w hw v hv
      rw [hg w hw, hg v hv] at this
      exact Except.ok.inj this
    constructor
    · rintro ⟨w, hw, hgw⟩ ⟨w', hw', hgw'⟩
      rw [hsame w hw] at hgw
      rw [hsame w' hw'] at hgw'
      simp [hgw'] at hgw
    · intro h
      refine ⟨v, hv, ?_⟩
      cases hgv : g v with
      | false => rfl
      | true => exact absurd ⟨v, hv, hgv⟩ h

theorem negated_of_oneValue :
    matchesConditions plainBuiltins (conditionOn "StringNotEquals" "k" [.str "a"])
        [("k", .str "b")] = .ok true ↔
      ¬matchesConditions plainBuiltins (conditionOn "StringEquals" "k" [.str "a"])
        [("k", .str "b")] = .ok true :=
  (negated_iff _ (show ("StringEquals", "StringNotEquals") ∈ negations by decide) rfl rfl
    (by simp) fun v hv => ⟨false, by rw [mem_singleton.mp hv]; rfl⟩).mpr (by simp)

/-- A value that is one of two is not equal to the other one. -/
theorem not_complement_of_two :
    matchesConditions plainBuiltins (conditionOn "StringNotEquals" "k" [.str "a", .str "b"])
        [("k", .str "a")] = .ok true ∧
      matchesConditions plainBuiltins (conditionOn "StringEquals" "k" [.str "a", .str "b"])
        [("k", .str "a")] = .ok true :=
  ⟨rfl, rfl⟩

end LocalEmu.Iam
