import Mathlib.Data.List.Pairwise
import LocalEmu.Core.StepFunctions.ArrayIntrinsics

/-!
# Array Intrinsics And The Equality Of JSON

The language takes `True` for `1` and `False` for `0`, and JSON does not. Two values are equal
in the language exactly if they are JSON-equal once all their booleans, at any depth, are
numbers. `States.ArrayContains` is therefore wrong only about what comes into the array in
this way, and `States.ArrayUnique` loses a boolean or a number only if the number that the
boolean is taken for is there too. Besides, it cannot take arrays and objects at all.
-/

namespace LocalEmu.StepFunctions.Arrays

open List

variable {F : Type}

/-! ### Equality of JSON -/

/-- The key of a scalar value in JSON, where booleans are no numbers. -/
def jsonKey (value : F → ℚ) : JsonValue F → Option ScalarKey
  | .null => some .null
  | .bool b => some (.bool b)
  | .int n => some (.number n)
  | .float x => some (.number (value x))
  | .str s => some (.text s)
  | .arr _ => none
  | .obj _ => none

/-- Whether values are JSON-equal. -/
def jsonEq (value : F → ℚ) : JsonValue F → JsonValue F → Bool := equalBy (jsonKey value)

mutual

/-- A value with the numbers `1` and `0` for its booleans. -/
def asNumbers : JsonValue F → JsonValue F
  | .bool b => .int b.toNat
  | .arr vs => .arr (itemsAsNumbers vs)
  | .obj ms => .obj (membersAsNumbers ms)
  | v => v

/-- A list of values with numbers for their booleans. -/
def itemsAsNumbers : List (JsonValue F) → List (JsonValue F)
  | [] => []
  | v :: vs => asNumbers v :: itemsAsNumbers vs

/-- The members of an object with numbers for their booleans. -/
def membersAsNumbers : List (Text × JsonValue F) → List (Text × JsonValue F)
  | [] => []
  | (k, v) :: ms => (k, asNumbers v) :: membersAsNumbers ms

end

theorem length_membersAsNumbers (ms : List (Text × JsonValue F)) :
    (membersAsNumbers ms).length = ms.length := by
  induction ms with
  | nil => rfl
  | cons m ms ih => simp [membersAsNumbers, ih]

theorem findMember_membersAsNumbers (k : Text) (ms : List (Text × JsonValue F)) :
    findMember k (membersAsNumbers ms) = (findMember k ms).map asNumbers := by
  induction ms with
  | nil => rfl
  | cons m ms ih =>
    by_cases hk : m.1 = k
    · simp [membersAsNumbers, findMember, hk]
    · simp [membersAsNumbers, findMember, hk, ih]

mutual

/-- What the equality of the language compares. -/
theorem pyEq_eq_jsonEq (value : F → ℚ) (v w : JsonValue F) :
    equalBy (pyKey value) v w = equalBy (jsonKey value) (asNumbers v) (asNumbers w) := by
  match v with
  | .arr vs =>
    cases w with
    | arr ws => simpa only [asNumbers, equalBy] using pyEqItems_eq value vs ws
    | _ => simp [equalBy, pyKey, asNumbers, jsonKey]
  | .obj ms =>
    cases w with
    | obj ns =>
      simp only [asNumbers, equalBy, length_membersAsNumbers, pyEqMembers_eq value ms ns]
    | _ => simp [equalBy, pyKey, asNumbers, jsonKey]
  | .null | .bool _ | .int _ | .float _ | .str _ =>
    cases w <;> simp [equalBy, pyKey, asNumbers, jsonKey]

theorem pyEqItems_eq (value : F → ℚ) (vs ws : List (JsonValue F)) :
    equalItems (pyKey value) vs ws =
      equalItems (jsonKey value) (itemsAsNumbers vs) (itemsAsNumbers ws) := by
  match vs, ws with
  | [], [] => rfl
  | [], w :: ws => simp [itemsAsNumbers, equalItems]
  | v :: vs, [] => simp [itemsAsNumbers, equalItems]
  | v :: vs, w :: ws =>
    simp only [itemsAsNumbers, equalItems, pyEq_eq_jsonEq value v w, pyEqItems_eq value vs ws]

theorem pyEqMembers_eq (value : F → ℚ) (ms ns : List (Text × JsonValue F)) :
    equalMembers (pyKey value) ms ns =
      equalMembers (jsonKey value) (membersAsNumbers ms) (membersAsNumbers ns) := by
  match ms with
  | [] => simp [membersAsNumbers, equalMembers]
  | (k, v) :: ms =>
    simp only [membersAsNumbers, equalMembers, findMember_membersAsNumbers,
      pyEqMembers_eq value ms ns]
    cases findMember k ns with
    | none => rfl
    | some w => simp only [Option.map_some, pyEq_eq_jsonEq value v w]

end

mutual

theorem jsonEq_asNumbers (value : F → ℚ) (v w : JsonValue F) :
    equalBy (jsonKey value) v w = true →
      equalBy (jsonKey value) (asNumbers v) (asNumbers w) = true := by
  match v with
  | .arr vs =>
    cases w with
    | arr ws => simpa only [asNumbers, equalBy] using jsonEqItems_asNumbers value vs ws
    | _ => simp [equalBy, jsonKey]
  | .obj ms =>
    cases w with
    | obj ns =>
      simp only [asNumbers, equalBy, length_membersAsNumbers, Bool.and_eq_true]
      exact fun h => ⟨h.1, jsonEqMembers_asNumbers value ms ns h.2⟩
    | _ => simp [equalBy, jsonKey]
  | .null | .bool _ | .int _ | .float _ | .str _ =>
    cases w <;> simp +contextual [equalBy, asNumbers, jsonKey]

theorem jsonEqItems_asNumbers (value : F → ℚ) (vs ws : List (JsonValue F)) :
    equalItems (jsonKey value) vs ws = true →
      equalItems (jsonKey value) (itemsAsNumbers vs) (itemsAsNumbers ws) = true := by
  match vs, ws with
  | [], [] => exact id
  | [], w :: ws => simp [equalItems]
  | v :: vs, [] => simp [equalItems]
  | v :: vs, w :: ws =>
    simp only [itemsAsNumbers, equalItems, Bool.and_eq_true]
    exact fun h => ⟨jsonEq_asNumbers value v w h.1, jsonEqItems_asNumbers value vs ws h.2⟩

theorem jsonEqMembers_asNumbers (value : F → ℚ) (ms ns : List (Text × JsonValue F)) :
    equalMembers (jsonKey value) ms ns = true →
      equalMembers (jsonKey value) (membersAsNumbers ms) (membersAsNumbers ns) = true := by
  match ms with
  | [] => simp [membersAsNumbers, equalMembers]
  | (k, v) :: ms =>
    simp only [membersAsNumbers, equalMembers, findMember_membersAsNumbers, Bool.and_eq_true]
    intro h
    refine ⟨?_, jsonEqMembers_asNumbers value ms ns h.2⟩
    have hv := h.1
    cases hw : findMember k ns with
    | none => simp [hw] at hv
    | some w =>
      rw [hw] at hv
      exact jsonEq_asNumbers value v w hv

end

theorem pyEq_of_jsonEq (value : F → ℚ) (v w : JsonValue F) (h : jsonEq value v w = true) :
    pyEq value v w = true := by
  unfold pyEq
  rw [pyEq_eq_jsonEq]
  exact jsonEq_asNumbers _ v w h

/-! ### First items -/

section Firsts

variable {α : Type}

/-- The items of a list that are equal neither to an earlier one nor to a given one. -/
def firstsAfter (eq : α → α → Bool) (earlier : List α) : List α → List α
  | [] => []
  | x :: xs =>
    if earlier.any (eq x) then firstsAfter eq (x :: earlier) xs
    else x :: firstsAfter eq (x :: earlier) xs

/-- The items of a list that are equal to no earlier one. -/
def firsts (eq : α → α → Bool) (l : List α) : List α := firstsAfter eq [] l

theorem not_eq_of_mem_firstsAfter {eq : α → α → Bool} {earlier l : List α} {x y : α}
    (hx : x ∈ firstsAfter eq earlier l) (hy : y ∈ earlier) : eq x y = false := by
  induction l generalizing earlier with
  | nil => cases hx
  | cons z zs ih =>
    rw [firstsAfter] at hx
    by_cases hz : earlier.any (eq z)
    · rw [if_pos hz] at hx
      exact ih hx (mem_cons_of_mem _ hy)
    · rw [if_neg hz] at hx
      rcases mem_cons.mp hx with rfl | hx
      · rw [Bool.not_eq_true, any_eq_false] at hz
        exact Bool.not_eq_true _ ▸ hz y hy
      · exact ih hx (mem_cons_of_mem _ hy)

theorem pairwise_firstsAfter (eq : α → α → Bool) (earlier l : List α) :
    (firstsAfter eq earlier l).Pairwise fun x y => eq y x = false := by
  induction l generalizing earlier with
  | nil => exact List.Pairwise.nil
  | cons x xs ih =>
    rw [firstsAfter]
    by_cases hx : earlier.any (eq x)
    · rw [if_pos hx]
      exact ih _
    · rw [if_neg hx]
      exact List.Pairwise.cons (fun y hy => not_eq_of_mem_firstsAfter hy mem_cons_self) (ih _)

theorem exists_mem_firstsAfter {eq : α → α → Bool} (P : α → Prop)
    (hrefl : ∀ x, P x → eq x x = true)
    (htrans : ∀ x y z, P x → P y → P z → eq x y = true → eq y z = true → eq x z = true)
    {earlier l : List α} (he : ∀ y ∈ earlier, P y) (hl : ∀ x ∈ l, P x) {x : α} (hx : x ∈ l) :
    ∃ y, (y ∈ firstsAfter eq earlier l ∨ y ∈ earlier) ∧ eq x y = true := by
  induction l generalizing earlier with
  | nil => cases hx
  | cons z zs ih =>
    have hz := hl z mem_cons_self
    have hzs : ∀ x ∈ zs, P x := fun x hx => hl x (mem_cons_of_mem _ hx)
    have he' : ∀ y ∈ z :: earlier, P y := by
      intro y hy
      rcases mem_cons.mp hy with rfl | hy
      · exact hz
      · exact he y hy
    rw [firstsAfter]
    by_cases hany : earlier.any (eq z)
    · rw [if_pos hany]
      rcases any_eq_true.mp hany with ⟨k, hk, hzk⟩
      rcases mem_cons.mp hx with rfl | hxs
      · exact ⟨k, .inr hk, hzk⟩
      · rcases ih he' hzs hxs with ⟨y, hy, hxy⟩
        rcases hy with hy | hy
        · exact ⟨y, .inl hy, hxy⟩
        · rcases mem_cons.mp hy with rfl | hy
          -- What is equal to an item that is left out is equal to what that one is equal to.
          · exact ⟨k, .inr hk, htrans x _ k (hzs x hxs) hz (he k hk) hxy hzk⟩
          · exact ⟨y, .inr hy, hxy⟩
    · rw [if_neg hany]
      rcases mem_cons.mp hx with rfl | hx
      · exact ⟨x, .inl mem_cons_self, hrefl x hz⟩
      · rcases ih he' hzs hx with ⟨y, hy, hxy⟩
        rcases hy with hy | hy
        · exact ⟨y, .inl (mem_cons_of_mem _ hy), hxy⟩
        · rcases mem_cons.mp hy with rfl | hy
          · exact ⟨y, .inl mem_cons_self, hxy⟩
          · exact ⟨y, .inr hy, hxy⟩

theorem firstsAfter_congr {eq eq' : α → α → Bool} {earlier l : List α}
    (h : ∀ x ∈ l, ∀ y ∈ l ++ earlier, eq x y = eq' x y) :
    firstsAfter eq earlier l = firstsAfter eq' earlier l := by
  induction l generalizing earlier with
  | nil => rfl
  | cons x xs ih =>
    have hany : earlier.any (eq x) = earlier.any (eq' x) := by
      have hx : ∀ y ∈ earlier, eq x y = eq' x y := fun y hy =>
        h x mem_cons_self y (mem_append_right _ hy)
      rw [Bool.eq_iff_iff, any_eq_true, any_eq_true]
      constructor
      · rintro ⟨y, hy, hxy⟩
        exact ⟨y, hy, hx y hy ▸ hxy⟩
      · rintro ⟨y, hy, hxy⟩
        exact ⟨y, hy, (hx y hy).symm ▸ hxy⟩
    have htail : firstsAfter eq (x :: earlier) xs = firstsAfter eq' (x :: earlier) xs := by
      apply ih
      intro y hy z hz
      refine h y (mem_cons_of_mem _ hy) z ?_
      simp only [mem_append, mem_cons] at hz ⊢
      tauto
    rw [firstsAfter, firstsAfter, hany, htail]

end Firsts

/-! ### Unique items -/

/-- Whether a value is neither an array nor an object. -/
def isScalar : JsonValue F → Bool
  | .arr _ => false
  | .obj _ => false
  | _ => true

variable (value : F → ℚ)

/-- The first value is a boolean and the second one is the number it is taken for. -/
def BooleanAsNumber (v w : JsonValue F) : Prop :=
  ∃ b : Bool, v = .bool b ∧ jsonKey value w = some (.number b.toNat)

theorem jsonEq_scalar (v w : JsonValue F) (hv : isScalar v = true) :
    jsonEq value v w = true ↔ jsonKey value v = jsonKey value w := by
  cases v <;> simp_all [isScalar, jsonEq, equalBy, jsonKey]

theorem pyEq_scalar (v w : JsonValue F) (hv : isScalar v = true) :
    pyEq value v w = true ↔ pyKey value v = pyKey value w := by
  cases v <;> simp_all [isScalar, pyEq, equalBy, pyKey]

theorem pyEq_trans (u v w : JsonValue F) (hu : isScalar u = true) (hv : isScalar v = true)
    (huv : pyEq value u v = true) (hvw : pyEq value v w = true) :
    pyEq value u w = true := by
  rw [pyEq_scalar _ u v hu] at huv
  rw [pyEq_scalar _ v w hv] at hvw
  exact (pyEq_scalar _ u w hu).mpr (huv.trans hvw)

theorem pyEq_of_booleanAsNumber {value : F → ℚ} {v w : JsonValue F}
    (h : BooleanAsNumber value v w) : pyEq value w v = true ∧ pyEq value v w = true := by
  rcases h with ⟨b, rfl, hw⟩
  have hkey : pyKey value w = some (.number b.toNat) := by cases w <;> simp_all [jsonKey, pyKey]
  have hscalar : isScalar w = true := by cases w <;> simp_all [jsonKey, isScalar]
  exact ⟨(pyEq_scalar _ w _ hscalar).mpr hkey, (pyEq_scalar _ _ w rfl).mpr hkey.symm⟩

theorem jsonEq_of_pyEq {value : F → ℚ} {v w : JsonValue F} (hv : isScalar v = true)
    (hvw : ¬ BooleanAsNumber value v w) (hwv : ¬ BooleanAsNumber value w v) :
    pyEq value v w = jsonEq value v w := by
  rw [Bool.eq_iff_iff]
  refine ⟨fun h => ?_, pyEq_of_jsonEq _ v w⟩
  rw [pyEq_scalar _ v w hv] at h
  rw [jsonEq_scalar _ v w hv]
  cases v with
  | bool b =>
    cases w with
    | bool c => cases b <;> cases c <;> simp_all [pyKey]
    | int | float => exact absurd ⟨b, rfl, by simp_all [pyKey, jsonKey]⟩ hvw
    | _ => simp [pyKey] at h
  | int | float =>
    cases w with
    | bool c => exact absurd ⟨c, rfl, by simp_all [pyKey, jsonKey]⟩ hwv
    | _ => simp_all [pyKey, jsonKey]
  | _ => cases w <;> simp_all [pyKey, jsonKey]

variable (keys : List (JsonValue F))

variable (items : List (JsonValue F)) (v : JsonValue F)

theorem addKey_scalar (hv : isScalar v = true) :
    addKey value keys v = .ok (if keys.any (pyEq value v) then keys else keys ++ [v]) := by
  cases v <;> first | rfl | simp [isScalar] at hv

theorem addKey_nested (hv : isScalar v = false) : addKey value keys v = .error (.unhashable v) := by
  cases v <;> first | rfl | simp [isScalar] at hv

theorem foldlM_addKey (value : F → ℚ) (keys earlier l : List (JsonValue F))
    (hkeys : ∀ k ∈ keys, isScalar k = true) (hl : ∀ v ∈ l, isScalar v = true)
    (hany : ∀ v, isScalar v = true → keys.any (pyEq value v) = earlier.any (pyEq value v)) :
    l.foldlM (addKey value) keys = .ok (keys ++ firstsAfter (pyEq value) earlier l) := by
  induction l generalizing keys earlier with
  | nil => simp [firstsAfter]; rfl
  | cons x xs ih =>
    have hx : isScalar x = true := hl x mem_cons_self
    have hxs : ∀ v ∈ xs, isScalar v = true := fun v hv => hl v (mem_cons_of_mem _ hv)
    rw [foldlM_cons, addKey_scalar _ _ x hx, firstsAfter, hany x hx]
    change xs.foldlM (addKey value) _ = _
    by_cases he : earlier.any (pyEq value x)
    · rw [if_pos he, if_pos he]
      apply ih _ _ hkeys hxs
      intro v hv
      rw [any_cons, hany v hv]
      -- What is equal to an item that is no key is equal to the key it is equal to.
      have habsorb : pyEq value v x = true → earlier.any (pyEq value v) = true := by
        intro hvx
        rw [← hany x hx] at he
        rw [← hany v hv]
        rcases any_eq_true.mp he with ⟨k, hk, hxk⟩
        exact any_eq_true.mpr ⟨k, hk, pyEq_trans _ v x k hv hx hvx hxk⟩
      cases hvx : pyEq value v x with
      | false => rfl
      | true => rw [habsorb hvx]; rfl
    · rw [if_neg he, if_neg he, ih (keys ++ [x]) (x :: earlier) ?_ hxs ?_]
      · simp
      · intro k hk
        rcases mem_append.mp hk with hk | hk
        · exact hkeys k hk
        · exact mem_singleton.mp hk ▸ hx
      · intro v hv
        rw [any_append, any_cons, any_cons, any_nil, hany v hv, Bool.or_false, Bool.or_comm]

variable (l : List (JsonValue F))

theorem fromkeys_scalars
    (hl : ∀ v ∈ l, isScalar v = true) : fromkeys value l = .ok (firsts (pyEq value) l) :=
  foldlM_addKey _ [] [] l (fun _ hk => nomatch hk) hl (fun _ _ => rfl)

theorem isScalar_of_foldlM (r : List (JsonValue F))
    (h : l.foldlM (addKey value) keys = .ok r) : ∀ v ∈ l, isScalar v = true := by
  induction l generalizing keys with
  | nil => exact fun _ hv => nomatch hv
  | cons x xs ih =>
    rw [foldlM_cons] at h
    cases hx : isScalar x with
    | false =>
      rw [addKey_nested _ _ x hx] at h
      exact nomatch h
    | true =>
      rw [addKey_scalar _ _ x hx] at h
      intro v hv
      rcases mem_cons.mp hv with rfl | hv
      · exact hx
      · exact ih _ h v hv

theorem firsts_pyEq_iff (hl : ∀ v ∈ l, isScalar v = true) :
    firsts (pyEq value) l = firsts (jsonEq value) l ↔
      ∀ v ∈ l, ∀ w ∈ l, ¬ BooleanAsNumber value v w := by
  constructor
  · intro heq v hv w hw hbool
    have hfirst : ∀ u ∈ l, ∃ u' ∈ firsts (pyEq value) l, jsonKey value u = jsonKey value u' := by
      intro u hu
      have hmem := exists_mem_firstsAfter (fun v => isScalar v = true)
        (fun x hx => (jsonEq_scalar value x x hx).mpr rfl)
        (fun x y z hx hy _ hxy hyz =>
          (jsonEq_scalar _ x z hx).mpr (((jsonEq_scalar _ x y hx).mp hxy).trans
            ((jsonEq_scalar _ y z hy).mp hyz)))
        (fun y hy => nomatch hy : ∀ y ∈ [], isScalar y = true) hl hu
      rcases hmem with ⟨u', hu' | hu', hkey⟩
      · exact ⟨u', heq ▸ hu', (jsonEq_scalar _ u u' (hl u hu)).mp hkey⟩
      · exact nomatch hu'
    rcases hfirst v hv with ⟨v', hv', hkv⟩
    rcases hfirst w hw with ⟨w', hw', hkw⟩
    have hbool' : BooleanAsNumber value v' w' := by
      rcases hbool with ⟨b, rfl, hb⟩
      refine ⟨b, ?_, hkw ▸ hb⟩
      cases v' <;> simp_all [jsonKey]
    have hne : v' ≠ w' := by
      rcases hbool' with ⟨b, rfl, hb⟩
      rintro rfl
      simp [jsonKey] at hb
    -- Both stay among the first items, where one stands before the other.
    let differ : JsonValue F → JsonValue F → Prop :=
      fun x y => ¬ (pyEq value y x = true ∧ pyEq value x y = true)
    have hsymm : Std.Symm differ := ⟨fun _ _ h hxy => h hxy.symm⟩
    have hpairs : (firsts (pyEq value) l).Pairwise differ := by
      refine (pairwise_firstsAfter _ [] l).imp ?_
      intro x y h hxy
      exact Bool.false_ne_true (h.symm.trans hxy.1)
    exact hpairs.forall hv' hw' hne (pyEq_of_booleanAsNumber hbool')
  · intro hnone
    apply firstsAfter_congr
    intro v hv w hw
    rw [append_nil] at hw
    exact jsonEq_of_pyEq (hl v hv) (hnone v hv w hw) (hnone w hw v hv)

/-- `States.ArrayUnique` respects the equality of JSON exactly if there is no array, no
    object, and no boolean with the number it is taken for. -/
theorem arrayUnique_iff :
    arrayUnique value (.arr items) = .ok (.arr (firsts (jsonEq value) items)) ↔
      (∀ v ∈ items, isScalar v = true) ∧
        ∀ v ∈ items, ∀ w ∈ items, ¬ BooleanAsNumber value v w := by
  constructor
  · intro h
    have hkeys : fromkeys value items = .ok (firsts (jsonEq value) items) := by
      simp only [arrayUnique] at h
      cases hk : fromkeys value items with
      | error => rw [hk] at h; exact nomatch h
      | ok =>
        rw [hk] at h
        injection h with h
        injection h with h
        rw [h]
    have hscalars := isScalar_of_foldlM _ [] _ _ hkeys
    rw [fromkeys_scalars _ _ hscalars] at hkeys
    exact ⟨hscalars, (firsts_pyEq_iff _ _ hscalars).mp (Except.ok.inj hkeys)⟩
  · rintro ⟨hscalars, hnone⟩
    simp only [arrayUnique, fromkeys_scalars _ _ hscalars,
      (firsts_pyEq_iff _ _ hscalars).mpr hnone, Except.map]

/-! ### Membership -/

/-- Two values are JSON-equal only with numbers for their booleans. -/
def DifferInBooleans (w : JsonValue F) : Prop :=
  jsonEq value (asNumbers v) (asNumbers w) = true ∧ jsonEq value v w = false

/-- `States.ArrayContains` respects the equality of JSON unless all that the value is found
    by differs from it in booleans. -/
theorem arrayContains_iff :
    arrayContains value (.arr items) v = .ok (.bool (items.any (jsonEq value · v))) ↔
      ((∃ w ∈ items, DifferInBooleans value w v) → ∃ w ∈ items, jsonEq value w v = true) := by
  have hpy : ∀ w, pyEq value w v = jsonEq value (asNumbers w) (asNumbers v) :=
    fun w => pyEq_eq_jsonEq _ w v
  have hany : arrayContains value (.arr items) v = .ok (.bool (items.any (jsonEq value · v))) ↔
      items.any (pyEq value · v) = items.any (jsonEq value · v) := by
    simp [arrayContains]
  rw [hany]
  constructor
  · rintro h ⟨w, hw, hdiffer, -⟩
    have hfound : items.any (pyEq value · v) = true :=
      any_eq_true.mpr ⟨w, hw, (hpy w).trans hdiffer⟩
    rw [h] at hfound
    exact any_eq_true.mp hfound
  · intro h
    rw [Bool.eq_iff_iff, any_eq_true, any_eq_true]
    constructor
    · rintro ⟨w, hw, hwv⟩
      cases hjson : jsonEq value w v with
      | true => exact ⟨w, hw, hjson⟩
      | false => exact h ⟨w, hw, (hpy w).symm.trans hwv, hjson⟩
    · rintro ⟨w, hw, hwv⟩
      exact ⟨w, hw, pyEq_of_jsonEq _ w v hwv⟩

/-! ### Chunks -/

section Chunks

variable {α : Type}

theorem toChunks_nil (n : ℕ) (hn : 0 < n) : toChunks ([] : List α) n = [] := by
  have hcount : (0 + n - 1) / n = 0 := Nat.div_eq_of_lt (by omega)
  simp only [toChunks, length_nil, hcount]
  rfl

theorem count_succ (len n : ℕ) (hn : 0 < n) (hlen : 0 < len) :
    (len + n - 1) / n = (len - n + n - 1) / n + 1 := by
  by_cases h : n ≤ len
  · have hsum : len + n - 1 = (len - n + n - 1) + n := by omega
    rw [hsum, Nat.add_div_right _ hn]
  · have hone : (len + n - 1) = (len - 1) + n := by omega
    have hzero : len - n + n - 1 = n - 1 := by omega
    rw [hone, hzero, Nat.add_div_right _ hn, Nat.div_eq_of_lt (by omega : len - 1 < n),
      Nat.div_eq_of_lt (by omega : n - 1 < n)]

theorem toChunks_eq_cons (array : List α) (n : ℕ) (hn : 0 < n) (hne : array ≠ []) :
    toChunks array n = array.take n :: toChunks (array.drop n) n := by
  have hlen : 0 < array.length := length_pos_iff.mpr hne
  have hshift : ∀ count, range' n count n = (range' 0 count n).map (n + ·) := by
    intro count
    rw [map_add_range', Nat.add_zero]
  simp only [toChunks, length_drop]
  rw [count_succ _ n hn hlen, range'_succ, map_cons, Nat.zero_add, hshift, map_map]
  refine congrArg (_ :: ·) (map_congr_left fun i _ => ?_)
  simp [drop_drop]

/-- What the chunks of an array are. -/
theorem flatten_toChunks (array : List α) (n : ℕ) (hn : 0 < n) :
    (toChunks array n).flatten = array := by
  by_cases hne : array = []
  · rw [hne, toChunks_nil n hn, flatten_nil]
  · have hlen : 0 < array.length := length_pos_iff.mpr hne
    rw [toChunks_eq_cons _ n hn hne, flatten_cons,
      flatten_toChunks (array.drop n) n hn, take_append_drop]
termination_by array.length
decreasing_by
  rw [List.length_drop]
  omega

/-- All chunks but the last one are full, and that one is not empty. -/
theorem length_toChunks (array : List α) (n : ℕ) (hn : 0 < n) :
    (∀ chunk ∈ (toChunks array n).dropLast, chunk.length = n) ∧
      ∀ chunk ∈ (toChunks array n).getLast?, 0 < chunk.length ∧ chunk.length ≤ n := by
  by_cases hne : array = []
  · simp [hne, toChunks_nil n hn]
  · have hlen : 0 < array.length := length_pos_iff.mpr hne
    rw [toChunks_eq_cons _ n hn hne]
    by_cases hrest : array.drop n = []
    · rw [hrest, toChunks_nil n hn]
      constructor
      · intro chunk hchunk
        exact nomatch hchunk
      · intro chunk hchunk
        rw [getLast?_singleton] at hchunk
        have hchunk := Option.some.inj hchunk
        rw [← hchunk, length_take]
        omega
    · have ih := length_toChunks (array.drop n) n hn
      have hfull : (array.take n).length = n := by
        rw [length_take]
        have := length_pos_iff.mpr hrest
        rw [length_drop] at this
        omega
      have hcons := toChunks_eq_cons _ n hn hrest
      rw [hcons] at ih ⊢
      refine ⟨fun chunk hchunk => ?_, ?_⟩
      · rw [dropLast_cons_cons] at hchunk
        rcases mem_cons.mp hchunk with rfl | hchunk
        · exact hfull
        · exact ih.1 _ hchunk
      · rw [getLast?_cons_cons]
        exact ih.2
termination_by array.length
decreasing_by
  rw [List.length_drop]
  omega

end Chunks

theorem roundHalfEven_int (n : ℤ) : roundHalfEven n = n := by
  simp [roundHalfEven]

theorem roundNumber_of_key {value : F → ℚ} {chunkSize : JsonValue F} {n : ℕ}
    (h : jsonKey value chunkSize = some (.number n)) :
    roundNumber value chunkSize = some (n : ℤ) := by
  cases chunkSize with
  | int m =>
    have hm : (m : ℚ) = ((n : ℤ) : ℚ) := by simpa [jsonKey] using h
    simp only [roundNumber, Rat.intCast_inj.mp hm]
  | float x =>
    have hx : value x = ((n : ℤ) : ℚ) := by simpa [jsonKey] using h
    simp only [roundNumber, hx, roundHalfEven_int]
  | _ => simp [jsonKey] at h

theorem arrayPartition_eq (value : F → ℚ) (items : List (JsonValue F)) (chunkSize : JsonValue F)
    (n : ℕ) (h : jsonKey value chunkSize = some (.number n)) (hn : 1 ≤ n) :
    arrayPartition value (.arr items) chunkSize = .ok (.arr ((toChunks items n).map .arr)) := by
  have hneg : ¬ ((n : ℤ) < 0) := by omega
  have hzero : (n : ℤ) ≠ 0 := by omega
  simp only [arrayPartition, roundNumber_of_key h, if_neg hneg, if_neg hzero, Int.toNat_natCast]

/-- When the array intrinsics respect the equality of JSON. -/
theorem array_intrinsics_iff (value : F → ℚ) (items : List (JsonValue F)) :
    (arrayUnique value (.arr items) = .ok (.arr (firsts (jsonEq value) items)) ↔
      (∀ v ∈ items, isScalar v = true) ∧
        ∀ v ∈ items, ∀ w ∈ items, ¬ BooleanAsNumber value v w) ∧
    (∀ v, arrayContains value (.arr items) v = .ok (.bool (items.any (jsonEq value · v))) ↔
      ((∃ w ∈ items, DifferInBooleans value w v) → ∃ w ∈ items, jsonEq value w v = true)) ∧
    (∀ chunkSize n, jsonKey value chunkSize = some (.number (n : ℕ)) → 1 ≤ n →
      ∃ chunks : List (List (JsonValue F)),
        arrayPartition value (.arr items) chunkSize = .ok (.arr (chunks.map .arr)) ∧
        chunks.flatten = items ∧
        (∀ chunk ∈ chunks.dropLast, chunk.length = n) ∧
        ∀ chunk ∈ chunks.getLast?, 0 < chunk.length ∧ chunk.length ≤ n) := by
  refine ⟨arrayUnique_iff _ _, arrayContains_iff _ _, ?_⟩
  intro chunkSize n h hn
  exact ⟨toChunks items n, arrayPartition_eq _ _ _ n h hn,
    flatten_toChunks _ n hn, length_toChunks _ n hn⟩

/-- Floating-point numbers with a fraction of one digit. -/
def tenths (x : ℤ) : ℚ := x / 10

theorem array_intrinsics_three :
    ∃ chunks : List (List (JsonValue ℤ)),
      arrayPartition tenths (.arr [.int 1, .int 2, .int 3, .int 4]) (.int 3) =
          .ok (.arr (chunks.map .arr)) ∧
        chunks.flatten = [.int 1, .int 2, .int 3, .int 4] ∧
        (∀ chunk ∈ chunks.dropLast, chunk.length = 3) ∧
        ∀ chunk ∈ chunks.getLast?, 0 < chunk.length ∧ chunk.length ≤ 3 :=
  (array_intrinsics_iff _ [.int 1, .int 2, .int 3, .int 4]).2.2 (.int 3) 3 rfl (by decide)

/-- An array with an empty array is refused, `1` is left out after `true`, and `true` is found
    in an array of `1`. -/
theorem array_intrinsics_booleans :
    arrayUnique tenths (.arr [.arr []]) ≠ .ok (.arr (firsts (jsonEq tenths) [.arr []])) ∧
      arrayUnique tenths (.arr [.bool true, .int 1]) ≠
        .ok (.arr (firsts (jsonEq tenths) [.bool true, .int 1])) ∧
      arrayContains tenths (.arr [.int 1]) (.bool true) ≠
        .ok (.bool ([JsonValue.int 1].any (jsonEq tenths · (.bool true)))) := by
  refine ⟨?_, ?_, ?_⟩
  · rintro ⟨⟩
  · intro h
    have hlength := congrArg List.length (JsonValue.arr.inj (Except.ok.inj h))
    revert hlength
    decide +kernel
  · intro h
    have hbool := JsonValue.bool.inj (Except.ok.inj h)
    revert hbool
    decide +kernel

end LocalEmu.StepFunctions.Arrays
