import LocalEmu.Base.Scan
import LocalEmu.Core.Patterns.Rules
import LocalEmu.Theory.Patterns.Payloads

/-!
# The Branches Of A Pattern

A pattern is flattened to one dictionary for every way to choose an alternative of
every `$or`. A branch is what such a choice writes, path by path. A dictionary
keeps the last conditions that are written at a key, so that it says what the
branch says if no branch writes different things at one key.

What a pattern means is defined by recursion over it: all members of an object hold,
and some alternative of a `$or`. The evaluation is lazy. It raises just if it comes
to a test that raises, and has the right result otherwise.
-/

namespace LocalEmu.Patterns

open List

open Iam (Json PyError)

/-! ### The meaning of a pattern -/

section Holds

-- Whether a list of conditions holds at a path.
variable (leaf : List String → List Json → Bool)

mutual

/-- A member of an object holds. A `$or` is a list of two alternatives or more. -/
def holdsMember (path : List String) (key : String) : Json → Bool
  | .obj members => holdsMembers (path ++ [key]) members
  | .arr items =>
    if key = "$or" ∧ 1 < items.length then holdsSome path items else leaf (path ++ [key]) items
  | _ => false

/-- All members of an object hold. -/
def holdsMembers (path : List String) : List (String × Json) → Bool
  | [] => true
  | (key, value) :: members => holdsMember path key value && holdsMembers path members

def holdsSome (path : List String) : List Json → Bool
  | [] => false
  | value :: values => holdsAlternative path value || holdsSome path values

def holdsAlternative (path : List String) : Json → Bool
  | .obj members => holdsMembers path members
  | _ => false

end

end Holds

/-! ### Branches -/

/-- What a branch writes: paths, and the conditions there. -/
abbrev Branch := List (List String × Json)

mutual

def branchesMember (path : List String) (key : String) : Json → List Branch
  | .obj members => branchesMembers (path ++ [key]) members
  | .arr items =>
    if key = "$or" ∧ 1 < items.length then branchesSome path items
    else [[(path ++ [key], .arr items)]]
  | value => [[(path ++ [key], value)]]

/-- The branches of an object. -/
def branchesMembers (path : List String) : List (String × Json) → List Branch
  | [] => [[]]
  | (key, value) :: members =>
    (branchesMember path key value).flatMap fun branch =>
      (branchesMembers path members).map (branch ++ ·)

def branchesSome (path : List String) : List Json → List Branch
  | [] => []
  | value :: values => branchesAlternative path value ++ branchesSome path values

def branchesAlternative (path : List String) : Json → List Branch
  | .obj members => branchesMembers path members
  | _ => []

end

/-- The conditions that a branch writes hold. -/
def leafHolds (leaf : List String → List Json → Bool) (entry : List String × Json) : Bool :=
  match entry.2 with
  | .arr items => leaf entry.1 items
  | _ => false

def someHolds (leaf : List String → List Json → Bool) (branches : List Branch) : Bool :=
  branches.any fun branch => branch.all (leafHolds leaf)

theorem someHolds_iff (leaf : List String → List Json → Bool) (branches : List Branch) :
    someHolds leaf branches = true ↔
      ∃ branch ∈ branches, ∀ entry ∈ branch, leafHolds leaf entry = true := by
  simp only [someHolds, any_eq_true, all_eq_true]

theorem someHolds_product (leaf : List String → List Json → Bool) (branches rest : List Branch) :
    someHolds leaf (branches.flatMap fun branch => rest.map (branch ++ ·)) =
      (someHolds leaf branches && someHolds leaf rest) := by
  rw [Bool.eq_iff_iff, Bool.and_eq_true, someHolds_iff, someHolds_iff, someHolds_iff]
  constructor
  · rintro ⟨both, hboth, hholds⟩
    rcases mem_flatMap.mp hboth with ⟨branch, hbranch, hboth⟩
    rcases mem_map.mp hboth with ⟨tail, htail, rfl⟩
    exact ⟨⟨branch, hbranch, fun entry hentry => hholds _ (mem_append_left _ hentry)⟩,
      tail, htail, fun entry hentry => hholds _ (mem_append_right _ hentry)⟩
  · rintro ⟨⟨branch, hbranch, hholds⟩, tail, htail, hholdsTail⟩
    refine ⟨branch ++ tail, mem_flatMap.mpr ⟨branch, hbranch, mem_map_of_mem htail⟩, ?_⟩
    intro entry hentry
    rcases mem_append.mp hentry with hentry | hentry
    · exact hholds _ hentry
    · exact hholdsTail _ hentry

section Meaning

variable (leaf : List String → List Json → Bool)

mutual

theorem holdsMember_eq : ∀ (value : Json) (path : List String) (key : String),
    holdsMember leaf path key value = someHolds leaf (branchesMember path key value)
  | .obj members, path, key => by
      rw [holdsMember, branchesMember, holdsMembers_eq members (path ++ [key])]
  | .arr items, path, key => by
      rw [holdsMember, branchesMember]
      split
      · exact holdsSome_eq items path
      · simp [someHolds, leafHolds]
  | .null, path, key | .bool _, path, key | .int _, path, key | .float _, path, key
  | .str _, path, key => by
      simp [holdsMember, branchesMember, someHolds, leafHolds]

theorem holdsMembers_eq : ∀ (members : List (String × Json)) (path : List String),
    holdsMembers leaf path members = someHolds leaf (branchesMembers path members)
  | [], path => rfl
  | (key, value) :: members, path => by
      rw [holdsMembers, branchesMembers, holdsMember_eq value path key,
        holdsMembers_eq members path, someHolds_product]

theorem holdsSome_eq : ∀ (items : List Json) (path : List String),
    holdsSome leaf path items = someHolds leaf (branchesSome path items)
  | [], path => rfl
  | value :: values, path => by
      rw [holdsSome, branchesSome, holdsAlternative_eq value path, holdsSome_eq values path]
      simp [someHolds]

theorem holdsAlternative_eq : ∀ (value : Json) (path : List String),
    holdsAlternative leaf path value = someHolds leaf (branchesAlternative path value)
  | .obj members, path => by
      rw [holdsAlternative, branchesAlternative, holdsMembers_eq members path]
  | .null, path | .bool _, path | .int _, path | .float _, path | .str _, path
  | .arr _, path => rfl

end

end Meaning

/-! ### The shape of a pattern -/

mutual

/-- A member whose leaves are lists and whose alternatives are objects. -/
def shapedMember (key : String) : Json → Bool
  | .obj members => shapedMembers members
  | .arr items => if key = "$or" ∧ 1 < items.length then shapedSome items else true
  | _ => false

/-- The same for an object. -/
def shapedMembers : List (String × Json) → Bool
  | [] => true
  | (key, value) :: members => shapedMember key value && shapedMembers members

def shapedSome : List Json → Bool
  | [] => true
  | value :: values => shapedAlternative value && shapedSome values

def shapedAlternative : Json → Bool
  | .obj members => shapedMembers members
  | _ => false

end

section Aggregate

variable {errorPrefix label : String} {nested : Bool}

theorem bind_eq_ok {ε α β : Type} {x : Except ε α} {f : α → Except ε β} {b : β}
    (h : x.bind f = .ok b) : ∃ a, x = .ok a ∧ f a = .ok b := by
  cases x with
  | error => cases h
  | ok a => exact ⟨a, rfl, h⟩

theorem map_eq_ok {ε α β : Type} {x : Except ε α} {f : α → β} {b : β}
    (h : x.map f = .ok b) : ∃ a, x = .ok a ∧ f a = b := by
  cases x with
  | error => cases h
  | ok a => exact ⟨a, rfl, Except.ok.inj h⟩

mutual

theorem shapedMember_of_aggregate : ∀ (value : Json) (key : String) (depth combinations : Nat)
    (result : List (List Json) × Nat),
    aggregateMember errorPrefix label nested key depth value combinations = .ok result →
      shapedMember key value = true
  | .obj members, key, depth, combinations, result, h => by
      rw [aggregateMember] at h
      rw [shapedMember]
      exact shapedMembers_of_aggregate members (depth + 1) combinations result h
  | .arr items, key, depth, combinations, result, h => by
      rw [aggregateMember] at h
      rw [shapedMember]
      split
      · next hor =>
          have hne : items.isEmpty = false := by
            cases items with
            | nil => exact absurd hor.2 (by simp)
            | cons => rfl
          rw [hne, if_neg (by simp), if_pos hor.1] at h
          exact shapedSome_of_aggregate items depth combinations result h
      · rfl
  | .null, _, _, _, _, h | .bool _, _, _, _, _, h | .int _, _, _, _, _, h
  | .float _, _, _, _, _, h | .str _, _, _, _, _, h => by
      rw [aggregateMember] at h
      · exact absurd h (by simp)
      all_goals simp

theorem shapedMembers_of_aggregate : ∀ (members : List (String × Json))
    (depth combinations : Nat) (result : List (List Json) × Nat),
    aggregateMembers errorPrefix label nested depth members combinations = .ok result →
      shapedMembers members = true
  | [], _, _, _, _ => rfl
  | (key, value) :: members, depth, combinations, result, h => by
      rw [aggregateMembers] at h
      rcases bind_eq_ok h with ⟨first, hfirst, hrest⟩
      rcases map_eq_ok hrest with ⟨rest, hrest, -⟩
      rw [shapedMembers, shapedMember_of_aggregate value key depth combinations first hfirst,
        shapedMembers_of_aggregate members depth first.2 rest hrest, Bool.and_self]

theorem shapedSome_of_aggregate : ∀ (items : List Json) (depth combinations : Nat)
    (result : List (List Json) × Nat),
    aggregateAlternatives errorPrefix label nested depth items combinations = .ok result →
      shapedSome items = true
  | [], _, _, _, _ => rfl
  | value :: values, depth, combinations, result, h => by
      rw [aggregateAlternatives] at h
      rcases bind_eq_ok h with ⟨first, hfirst, hrest⟩
      rcases map_eq_ok hrest with ⟨rest, hrest, -⟩
      rw [shapedSome, shapedAlternative_of_aggregate value depth combinations first hfirst,
        shapedSome_of_aggregate values depth combinations rest hrest, Bool.and_self]

theorem shapedAlternative_of_aggregate : ∀ (value : Json) (depth combinations : Nat)
    (result : List (List Json) × Nat),
    aggregateAlternative errorPrefix label nested depth value combinations = .ok result →
      shapedAlternative value = true
  | .obj members, depth, combinations, result, h => by
      rw [aggregateAlternative] at h
      rw [shapedAlternative]
      exact shapedMembers_of_aggregate members depth combinations result h
  | .null, _, _, _, h | .bool _, _, _, _, h | .int _, _, _, _, h | .float _, _, _, _, h
  | .str _, _, _, _, h | .arr _, _, _, _, h => by
      rw [aggregateAlternative] at h
      · exact absurd h (by simp)
      all_goals simp

end

end Aggregate

/-! ### The dictionaries of a pattern -/

/-- A dictionary after a branch is written to it. -/
def write (item : Flat) (branch : Branch) : Flat :=
  branch.foldl (fun flat entry => flat.set (joinPath entry.1) entry.2) item

/-- The dictionaries after each of the branches is written to each of them. -/
def Writes (array : List Flat) (branches : List Branch) (result : List Flat) : Prop :=
  ∀ flat, flat ∈ result ↔ ∃ item ∈ array, ∃ branch ∈ branches, write item branch = flat

theorem writes_nil (array : List Flat) : Writes array [[]] array := by
  intro flat
  constructor
  · exact fun hflat => ⟨flat, hflat, [], mem_singleton_self _, rfl⟩
  · rintro ⟨item, hitem, branch, hbranch, rfl⟩
    rw [mem_singleton] at hbranch
    rw [hbranch]
    exact hitem

theorem writes_entry (array : List Flat) (path : List String) (value : Json) :
    Writes array [[(path, value)]] (array.map fun item => item.set (joinPath path) value) := by
  intro flat
  constructor
  · intro hflat
    rcases mem_map.mp hflat with ⟨item, hitem, rfl⟩
    exact ⟨item, hitem, _, mem_singleton_self _, rfl⟩
  · rintro ⟨item, hitem, branch, hbranch, rfl⟩
    rw [mem_singleton] at hbranch
    rw [hbranch]
    exact mem_map_of_mem hitem

theorem writes_product {array between result : List Flat} {branches rest : List Branch}
    (h : Writes array branches between) (hrest : Writes between rest result) :
    Writes array (branches.flatMap fun branch => rest.map (branch ++ ·)) result := by
  intro flat
  rw [hrest]
  constructor
  · rintro ⟨middle, hmiddle, tail, htail, rfl⟩
    rcases (h _).mp hmiddle with ⟨item, hitem, branch, hbranch, rfl⟩
    refine ⟨item, hitem, branch ++ tail,
      mem_flatMap.mpr ⟨branch, hbranch, mem_map_of_mem htail⟩, ?_⟩
    rw [write, foldl_append, write, write]
  · rintro ⟨item, hitem, both, hboth, rfl⟩
    rcases mem_flatMap.mp hboth with ⟨branch, hbranch, hboth⟩
    rcases mem_map.mp hboth with ⟨tail, htail, rfl⟩
    refine ⟨write item branch, (h _).mpr ⟨item, hitem, branch, hbranch, rfl⟩, tail, htail, ?_⟩
    rw [write, write, write, foldl_append]

theorem writes_append {array result result' : List Flat} {branches branches' : List Branch}
    (h : Writes array branches result) (h' : Writes array branches' result') :
    Writes array (branches ++ branches') (result ++ result') := by
  intro flat
  rw [mem_append, h, h']
  simp only [mem_append, or_and_right, exists_or, and_or_left]

mutual

theorem writes_traverseMember : ∀ (value : Json) (path : List String) (key : String)
    (array : List Flat), shapedMember key value = true →
    ∃ result, traverseMember (joinPath path) key value array = .ok result ∧
      Writes array (branchesMember path key value) result
  | .obj members, path, key, array, h => by
      rw [shapedMember] at h
      rw [traverseMember, branchesMember, ← joinPath_concat]
      exact writes_traverseMembers members (path ++ [key]) array h
  | .arr items, path, key, array, h => by
      rw [shapedMember] at h
      rw [traverseMember, branchesMember]
      split at h
      · next hor =>
          rw [if_pos hor, if_pos hor]
          exact writes_traverseAlternatives items path array h
      · next hor =>
          rw [if_neg hor, if_neg hor, ← joinPath_concat]
          exact ⟨_, rfl, writes_entry array (path ++ [key]) (.arr items)⟩
  | .null, _, _, _, h | .bool _, _, _, _, h | .int _, _, _, _, h | .float _, _, _, _, h
  | .str _, _, _, _, h => absurd h (by simp [shapedMember])

theorem writes_traverseMembers : ∀ (members : List (String × Json)) (path : List String)
    (array : List Flat), shapedMembers members = true →
    ∃ result, traverseMembers (joinPath path) members array = .ok result ∧
      Writes array (branchesMembers path members) result
  | [], path, array, _ => ⟨array, rfl, writes_nil array⟩
  | (key, value) :: members, path, array, h => by
      rw [shapedMembers, Bool.and_eq_true] at h
      rcases writes_traverseMember value path key array h.1 with ⟨between, hbetween, hwrites⟩
      rcases writes_traverseMembers members path between h.2 with ⟨result, hresult, hwritesRest⟩
      refine ⟨result, ?_, writes_product hwrites hwritesRest⟩
      rw [traverseMembers, hbetween]
      exact hresult

theorem writes_traverseAlternatives : ∀ (items : List Json) (path : List String)
    (array : List Flat), shapedSome items = true →
    ∃ result, traverseAlternatives (joinPath path) items array = .ok result ∧
      Writes array (branchesSome path items) result
  | [], path, array, _ => ⟨[], rfl, by simp [Writes, branchesSome]⟩
  | value :: values, path, array, h => by
      rw [shapedSome, Bool.and_eq_true] at h
      rcases writes_traverseAlternative value path array h.1 with ⟨first, hfirst, hwrites⟩
      rcases writes_traverseAlternatives values path array h.2 with ⟨rest, hrest, hwritesRest⟩
      refine ⟨first ++ rest, ?_, writes_append hwrites hwritesRest⟩
      rw [traverseAlternatives, hfirst, Except.bind, hrest, Except.map]

theorem writes_traverseAlternative : ∀ (value : Json) (path : List String) (array : List Flat),
    shapedAlternative value = true →
    ∃ result, traverseAlternative (joinPath path) value array = .ok result ∧
      Writes array (branchesAlternative path value) result
  | .obj members, path, array, h => by
      rw [shapedAlternative] at h
      rw [traverseAlternative, branchesAlternative]
      exact writes_traverseMembers members path array h
  | .null, _, _, h | .bool _, _, _, h | .int _, _, _, h | .float _, _, _, h | .str _, _, _, h
  | .arr _, _, _, h => absurd h (by simp [shapedAlternative])

end

mutual

theorem leaves_of_branchesMember : ∀ (value : Json) (path : List String) (key : String),
    shapedMember key value = true → ∀ branch ∈ branchesMember path key value,
      ∀ entry ∈ branch, entry.1 ≠ [] ∧ ∃ items, entry.2 = .arr items
  | .obj members, path, key, h, branch, hbranch, entry, hentry => by
      rw [shapedMember] at h
      rw [branchesMember] at hbranch
      exact leaves_of_branchesMembers members (path ++ [key]) h branch hbranch entry hentry
  | .arr items, path, key, h, branch, hbranch, entry, hentry => by
      rw [shapedMember] at h
      rw [branchesMember] at hbranch
      split at h
      · next hor =>
          rw [if_pos hor] at hbranch
          exact leaves_of_branchesSome items path h branch hbranch entry hentry
      · next hor =>
          rw [if_neg hor, List.mem_singleton] at hbranch
          rw [hbranch, List.mem_singleton] at hentry
          rw [hentry]
          exact ⟨by simp, items, rfl⟩
  | .null, _, _, h, _, _, _, _ | .bool _, _, _, h, _, _, _, _ | .int _, _, _, h, _, _, _, _
  | .float _, _, _, h, _, _, _, _ | .str _, _, _, h, _, _, _, _ =>
    absurd h (by simp [shapedMember])

theorem leaves_of_branchesMembers : ∀ (members : List (String × Json)) (path : List String),
    shapedMembers members = true → ∀ branch ∈ branchesMembers path members,
      ∀ entry ∈ branch, entry.1 ≠ [] ∧ ∃ items, entry.2 = .arr items
  | [], _, _, branch, hbranch, entry, hentry => by
      rw [branchesMembers, List.mem_singleton] at hbranch
      rw [hbranch] at hentry
      exact absurd hentry List.not_mem_nil
  | (key, value) :: members, path, h, branch, hbranch, entry, hentry => by
      rw [shapedMembers, Bool.and_eq_true] at h
      rcases List.mem_flatMap.mp hbranch with ⟨first, hfirst, hbranch⟩
      rcases List.mem_map.mp hbranch with ⟨rest, hrest, rfl⟩
      rcases List.mem_append.mp hentry with hentry | hentry
      · exact leaves_of_branchesMember value path key h.1 first hfirst entry hentry
      · exact leaves_of_branchesMembers members path h.2 rest hrest entry hentry

theorem leaves_of_branchesSome : ∀ (items : List Json) (path : List String),
    shapedSome items = true → ∀ branch ∈ branchesSome path items,
      ∀ entry ∈ branch, entry.1 ≠ [] ∧ ∃ items, entry.2 = .arr items
  | [], _, _, branch, hbranch, _, _ => absurd hbranch List.not_mem_nil
  | value :: values, path, h, branch, hbranch, entry, hentry => by
      rw [shapedSome, Bool.and_eq_true] at h
      rcases List.mem_append.mp hbranch with hbranch | hbranch
      · exact leaves_of_branchesAlternative value path h.1 branch hbranch entry hentry
      · exact leaves_of_branchesSome values path h.2 branch hbranch entry hentry

theorem leaves_of_branchesAlternative : ∀ (value : Json) (path : List String),
    shapedAlternative value = true → ∀ branch ∈ branchesAlternative path value,
      ∀ entry ∈ branch, entry.1 ≠ [] ∧ ∃ items, entry.2 = .arr items
  | .obj members, path, h, branch, hbranch, entry, hentry => by
      rw [shapedAlternative] at h
      rw [branchesAlternative] at hbranch
      exact leaves_of_branchesMembers members path h branch hbranch entry hentry
  | .null, _, h, _, _, _, _ | .bool _, _, h, _, _, _, _ | .int _, _, h, _, _, _, _
  | .float _, _, h, _, _, _, _ | .str _, _, h, _, _, _, _ | .arr _, _, h, _, _, _, _ =>
    absurd h (by simp [shapedAlternative])

end

/-! ### The evaluation of a pattern -/

/-- The result of a test that has not raised. -/
def isTrue : Except PyError Bool → Bool
  | .ok result => result
  | .error _ => false

theorem agrees_isTrue (test : Except PyError Bool) : Agrees test (isTrue test) :=
  fun b hb => by rw [hb, isTrue]

/-- What a loop over the conditions of an entry goes through. -/
def conditionsOf (value : Json) : List Json :=
  match value.iter with
  | .ok items => items
  | .error _ => []

section Loops

-- The fields are what there is at a key, in each of some dictionaries.
variable (evaluate : Option Json → Json → Except PyError Bool)
  (fields : List (Text → Option Json))

def holdsCondition (key : Text) (condition : Json) : Bool :=
  fields.any fun field => isTrue (evaluate (field key) condition)

def holdsEntry (entry : Text × Json) : Bool :=
  (conditionsOf entry.2).any (holdsCondition evaluate fields entry.1)

def holdsFlat (flat : Flat) : Bool := flat.entries.all (holdsEntry evaluate fields)

/-- None of the tests raises that the loops come to. They go on after a dictionary that does not
    hold, an entry that holds, and a condition or a field where the test fails. -/
def NoneRaises (flats : List Flat) : Prop :=
  ∀ flat, Reaches (fun flat => !holdsFlat evaluate fields flat) flats flat →
  ∀ entry, Reaches (holdsEntry evaluate fields) flat.entries entry →
  ∀ condition, Reaches (fun condition => !holdsCondition evaluate fields entry.1 condition)
    (conditionsOf entry.2) condition →
  ∀ field, Reaches (fun field => !isTrue (evaluate (field entry.1) condition)) fields field →
    (evaluate (field entry.1) condition).isOk = true

/-- The entries of the dictionaries of a pattern are lists. -/
def Lists (flats : List Flat) : Prop :=
  ∀ flat ∈ flats, ∀ entry ∈ flat.entries, ∃ items, entry.2 = .arr items

variable {evaluate} {flats flatPayloads : List Flat}

theorem anyM_fields (key : Text) (condition : Json) :
    (flatPayloads.anyM fun flatPayload => evaluate (flatPayload.get? key) condition) =
      (flatPayloads.map Dict.get?).anyM fun field => evaluate (field key) condition := by
  induction flatPayloads with
  | nil => rfl
  | cons flatPayload rest ih => rw [map_cons, anyM_cons, anyM_cons, ih]

theorem agrees_condition (key : Text) (condition : Json) :
    Agrees (flatPayloads.anyM fun flatPayload => evaluate (flatPayload.get? key) condition)
      (holdsCondition evaluate (flatPayloads.map Dict.get?) key condition) := by
  rw [anyM_fields]
  exact anyM_agrees fun field _ => agrees_isTrue _

theorem agrees_entry (entry : Text × Json) :
    Agrees (evaluateEntry evaluate flatPayloads entry)
      (holdsEntry evaluate (flatPayloads.map Dict.get?) entry) := by
  rw [evaluateEntry, holdsEntry, conditionsOf]
  cases entry.2.iter with
  | error => exact nofun
  | ok items => exact anyM_agrees fun condition _ => agrees_condition entry.1 condition

/-- What the evaluation of dictionaries results in, unless it raises. -/
theorem evaluateFlat_agrees : Agrees (evaluateFlat evaluate flats flatPayloads)
    (flats.any (holdsFlat evaluate (flatPayloads.map Dict.get?))) :=
  anyM_agrees fun _ _ => allM_agrees fun entry _ => agrees_entry entry

/-- The evaluation of dictionaries raises just if it comes to a test that raises. -/
theorem evaluateFlat_isOk_iff (hlists : Lists flats) :
    (evaluateFlat evaluate flats flatPayloads).isOk = true ↔
      NoneRaises evaluate (flatPayloads.map Dict.get?) flats := by
  rw [evaluateFlat, anyM_isOk_iff fun _ _ => allM_agrees fun entry _ => agrees_entry entry]
  refine forall₂_congr fun flat hflat => ?_
  rw [allM_isOk_iff fun entry _ => agrees_entry entry]
  refine forall₂_congr fun entry hentry => ?_
  obtain ⟨items, hitems⟩ := hlists flat hflat.mem entry hentry.mem
  have htest : evaluateEntry evaluate flatPayloads entry = items.anyM fun condition =>
      flatPayloads.anyM fun flatPayload => evaluate (flatPayload.get? entry.1) condition := by
    rw [evaluateEntry, hitems]
    rfl
  rw [htest, hitems, anyM_isOk_iff fun condition _ => agrees_condition entry.1 condition]
  refine forall₂_congr fun condition _ => ?_
  rw [anyM_fields, anyM_isOk_iff fun field _ => agrees_isTrue _]

/-! What a loop looks at in one dictionary are the values at the keys. -/

theorem holdsCondition_iff {fields : List (Text → Option Json)} (key : Text) (condition : Json) :
    holdsCondition evaluate fields key condition = true ↔
      ∃ field ∈ fields, isTrue (evaluate (field key) condition) = true := any_eq_true

theorem holdsEntry_congr {field field' : Text → Option Json} {entry : Text × Json}
    (h : field entry.1 = field' entry.1) :
    holdsEntry evaluate [field] entry = holdsEntry evaluate [field'] entry := by
  have hcondition : holdsCondition evaluate [field] entry.1 =
      holdsCondition evaluate [field'] entry.1 := funext fun condition => by
    simp only [holdsCondition, any_cons, any_nil, h]
  rw [holdsEntry, holdsEntry, hcondition]

theorem reaches_singleton {goesOn : (Text → Option Json) → Bool} (field : Text → Option Json) :
    Reaches goesOn [field] field := ⟨[], [], rfl, fun _ hb => absurd hb not_mem_nil⟩

theorem NoneRaises.congr {field field' : Text → Option Json}
    (h : NoneRaises evaluate [field] flats)
    (heq : ∀ flat ∈ flats, ∀ entry ∈ flat.entries, field entry.1 = field' entry.1) :
    NoneRaises evaluate [field'] flats := by
  have hflat : ∀ flat ∈ flats, holdsFlat evaluate [field'] flat = holdsFlat evaluate [field] flat :=
    fun flat hflat => by
      rw [holdsFlat, holdsFlat, Bool.eq_iff_iff, all_eq_true, all_eq_true]
      exact forall₂_congr fun entry hentry => by rw [holdsEntry_congr (heq flat hflat entry hentry)]
  intro flat hreached entry hentry condition hcondition other hother
  have hkey := heq flat hreached.mem entry hentry.mem
  obtain rfl := mem_singleton.mp hother.mem
  rw [← hkey]
  refine h flat ?_ entry ?_ condition ?_ field (reaches_singleton field)
  · exact hreached.mono fun other hmem hgoes => by rwa [← hflat other hmem]
  · exact hentry.mono fun other hmem hgoes => by
      rwa [holdsEntry_congr (heq flat hreached.mem other hmem)]
  · exact hcondition.mono fun other _ hgoes => by
      simpa only [holdsCondition, any_cons, any_nil, hkey] using hgoes

/-- Where a test raises among several dictionaries, one raises for a choice of a dictionary for
    every key: the one that an entry before holds in, or the one that the test raises in. -/
theorem noneRaises_of_choice {fields : List (Text → Option Json)}
    (h : ∀ field : Text → Option Json, (∀ key, ∃ other ∈ fields, field key = other key) →
      NoneRaises evaluate [field] flats) : NoneRaises evaluate fields flats := by
  intro flat hflat entry hentry condition hcondition last hlast
  obtain ⟨before, after, hsplit, hbefore⟩ := hentry
  have hnodup := flat.nodup
  rw [hsplit, map_append, map_cons] at hnodup
  have hchoice : ∀ key, ∃ field ∈ fields, (key = entry.1 → field = last) ∧
      ∀ other ∈ before, other.1 = key → holdsEntry evaluate [field] other = true := by
    intro key
    by_cases hkey : ∃ other ∈ before, other.1 = key
    · obtain ⟨other, hother, rfl⟩ := hkey
      obtain ⟨c, hc, htrue⟩ := any_eq_true.mp (hbefore other hother)
      obtain ⟨field, hfield, htrue⟩ := (holdsCondition_iff other.1 c).mp htrue
      refine ⟨field, hfield, fun heq => ?_, fun same hsame heq => ?_⟩
      · exact absurd (heq ▸ mem_map_of_mem hother)
          (disjoint_of_nodup_append hnodup · mem_cons_self)
      · rw [inj_on_of_nodup_map hnodup.of_append_left hsame hother heq]
        exact any_eq_true.mpr
          ⟨c, hc, (holdsCondition_iff other.1 c).mpr ⟨field, mem_singleton_self _, htrue⟩⟩
    · exact ⟨last, hlast.mem, fun _ => rfl,
        fun other hother heq => absurd ⟨other, hother, heq⟩ hkey⟩
  choose pick hpick hkey hholds using hchoice
  -- what holds for the choice holds for one of the dictionaries
  have hcond : ∀ key c, holdsCondition evaluate [fun key => pick key key] key c = true →
      holdsCondition evaluate fields key c = true := by
    intro key c htrue
    obtain ⟨field, hfield, htrue⟩ := (holdsCondition_iff key c).mp htrue
    rw [mem_singleton.mp hfield] at htrue
    exact (holdsCondition_iff key c).mpr ⟨pick key, hpick key, htrue⟩
  have hentries : ∀ other, holdsEntry evaluate [fun key => pick key key] other = true →
      holdsEntry evaluate fields other = true := by
    intro other htrue
    obtain ⟨c, hc, htrue⟩ := any_eq_true.mp htrue
    exact any_eq_true.mpr ⟨c, hc, hcond _ _ htrue⟩
  have hlastKey : pick entry.1 entry.1 = last entry.1 := by rw [hkey entry.1 rfl]
  rw [← hlastKey]
  refine h (fun key => pick key key) (fun key => ⟨pick key, hpick key, rfl⟩) flat ?_ entry
    ⟨before, after, hsplit, fun other hother => ?_⟩ condition ?_ (fun key => pick key key)
      (reaches_singleton _)
  · refine hflat.mono fun other _ hgoes => ?_
    simp only [Bool.not_eq_true', Bool.eq_false_iff] at hgoes ⊢
    exact fun htrue => hgoes (all_eq_true.mpr fun e he => hentries e (all_eq_true.mp htrue e he))
  · exact (holdsEntry_congr rfl).trans (hholds other.1 other hother rfl)
  · refine hcondition.mono fun c _ hgoes => ?_
    simp only [Bool.not_eq_true', Bool.eq_false_iff] at hgoes ⊢
    exact fun htrue => hgoes (hcond _ _ htrue)

end Loops

/-- A list of conditions holds at a path: some condition holds for what is there, or
    for its absence, under some choice. -/
def conditionsHold (evaluate : Option Json → Json → Except PyError Bool)
    (payload : List (String × Json)) (path : List String) (conditions : List Json) : Bool :=
  conditions.any fun condition =>
    (choices (.obj payload)).any fun choice => isTrue (evaluate (valueAt choice path) condition)

theorem mem_entries_write {branch : Branch} (hkeys : ∀ entry ∈ branch, ∀ other ∈ branch,
      joinPath entry.1 = joinPath other.1 → entry = other) (key : Text) (value : Json) :
    (key, value) ∈ (write Dict.empty branch).entries ↔
      ∃ entry ∈ branch, joinPath entry.1 = key ∧ entry.2 = value := by
  induction branch using reverseRecOn with
  | nil => simp [write, Dict.empty]
  | append_singleton branch last ih =>
    have hwrite : write Dict.empty (branch ++ [last]) =
        (write Dict.empty branch).set (joinPath last.1) last.2 := by
      rw [write, foldl_append, foldl_cons, foldl_nil, write]
    have hlast : last ∈ branch ++ [last] := mem_append_right _ (mem_singleton_self _)
    rw [hwrite, Dict.mem_entries_set, ih fun entry hentry other hother =>
      hkeys _ (mem_append_left _ hentry) _ (mem_append_left _ hother)]
    constructor
    · rintro (heq | ⟨-, entry, hentry, hkey, hvalue⟩)
      · rw [Prod.mk.injEq] at heq
        exact ⟨last, hlast, heq.1.symm, heq.2.symm⟩
      · exact ⟨entry, mem_append_left _ hentry, hkey, hvalue⟩
    · rintro ⟨entry, hentry, hkey, hvalue⟩
      by_cases hsame : key = joinPath last.1
      · left
        rw [hsame, ← hvalue, hkeys _ hentry _ hlast (hkey.trans hsame)]
      · right
        rcases mem_append.mp hentry with hentry | hentry
        · exact ⟨hsame, entry, hentry, hkey, hvalue⟩
        · rw [mem_singleton] at hentry
          exact absurd (by rw [← hkey, hentry]) hsame

/-- What a dictionary of a pattern has comes from its branch. -/
theorem mem_entries_write_cases (branch : Branch) (entry : Text × Json)
    (h : entry ∈ (write Dict.empty branch).entries) : ∃ e ∈ branch, e.2 = entry.2 := by
  induction branch using List.reverseRecOn with
  | nil => cases h
  | append_singleton branch last ih =>
    rw [write, List.foldl_append] at h
    rcases (Dict.mem_entries_set _ _ _ _).mp h with rfl | ⟨-, hold⟩
    · exact ⟨last, by simp, rfl⟩
    · obtain ⟨e, he, heq⟩ := ih hold
      exact ⟨e, by simp [he], heq⟩

section Evaluate

variable {evaluate : Option Json → Json → Except PyError Bool}
  {pattern payload : List (String × Json)}

/-- What has to be true of a pattern and a payload for the dictionaries to say what
    the pattern says: a branch writes one thing at a key, and the payload has nothing
    at another path with this key. -/
structure Clear (pattern payload : List (String × Json)) : Prop where
  consistent : ∀ branch ∈ branchesMembers [] pattern, ∀ entry ∈ branch, ∀ other ∈ branch,
    joinPath entry.1 = joinPath other.1 → entry = other
  own : ∀ branch ∈ branchesMembers [] pattern, ∀ entry ∈ branch, ∀ path ∈ memberPaths payload,
    joinPath path = joinPath entry.1 → path = entry.1

theorem holdsEntry_eq (path : List String) (items : List Json) (flatPayloads : List Flat)
    (hreads : ∀ field, Reads (joinPath path) flatPayloads field ↔
      ∃ choice ∈ choices (.obj payload), valueAt choice path = field) :
    holdsEntry evaluate (flatPayloads.map Dict.get?) (joinPath path, .arr items) =
      conditionsHold evaluate payload path items := by
  refine congrArg items.any (funext fun condition => Bool.eq_iff_iff.mpr ?_)
  simp only [holdsCondition, any_map, any_eq_true, Function.comp_apply]
  constructor
  · rintro ⟨flatPayload, hflatPayload, htrue⟩
    rcases (hreads _).mp ⟨flatPayload, hflatPayload, rfl⟩ with ⟨choice, hchoice, hvalue⟩
    rw [← hvalue] at htrue
    exact ⟨choice, hchoice, htrue⟩
  · rintro ⟨choice, hchoice, htrue⟩
    rcases (hreads _).mpr ⟨choice, hchoice, rfl⟩ with ⟨flatPayload, hflatPayload, hvalue⟩
    rw [← hvalue] at htrue
    exact ⟨flatPayload, hflatPayload, htrue⟩

theorem mem_flats_iff {branches : List Branch} {flats : List Flat}
    (hwrites : Writes [Dict.empty] branches flats) (flat : Flat) :
    flat ∈ flats ↔ ∃ branch ∈ branches, write Dict.empty branch = flat := by
  rw [hwrites]
  constructor
  · rintro ⟨item, hitem, branch, hbranch, rfl⟩
    rw [mem_singleton] at hitem
    exact ⟨branch, hbranch, by rw [hitem]⟩
  · rintro ⟨branch, hbranch, rfl⟩
    exact ⟨Dict.empty, mem_singleton_self _, branch, hbranch, rfl⟩

theorem lists_of_writes (hshaped : shapedMembers pattern = true) {flats : List Flat}
    (hwrites : Writes [Dict.empty] (branchesMembers [] pattern) flats) : Lists flats := by
  intro flat hflat entry hentry
  obtain ⟨branch, hbranch, rfl⟩ := (mem_flats_iff hwrites flat).mp hflat
  obtain ⟨e, he, heq⟩ := mem_entries_write_cases _ _ hentry
  rw [← heq]
  exact (leaves_of_branchesMembers _ [] hshaped _ hbranch e he).2

/-- The dictionaries hold just if the pattern does. -/
theorem any_holdsFlat_eq (hshaped : shapedMembers pattern = true) (hclear : Clear pattern payload)
    (hunique : UniqueNames (.obj payload)) {flats : List Flat}
    (hwrites : Writes [Dict.empty] (branchesMembers [] pattern) flats) :
    flats.any (holdsFlat evaluate ((flattenPayload payload flats).map Dict.get?)) =
      holdsMembers (conditionsHold evaluate payload) [] pattern := by
  have hentry : ∀ branch ∈ branchesMembers [] pattern, ∀ entry ∈ branch,
      holdsEntry evaluate ((flattenPayload payload flats).map Dict.get?)
        (joinPath entry.1, entry.2) = leafHolds (conditionsHold evaluate payload) entry := by
    intro branch hbranch entry hentry
    obtain ⟨-, items, hitems⟩ := leaves_of_branchesMembers _ [] hshaped _ hbranch _ hentry
    -- The key of the entry is one of the keys the payload is flattened for.
    have hkey : ∃ flat ∈ flats, joinPath entry.1 ∈ flat.keys :=
      ⟨write Dict.empty branch, (mem_flats_iff hwrites _).mpr ⟨branch, hbranch, rfl⟩,
        mem_map.mpr ⟨(joinPath entry.1, entry.2),
          (mem_entries_write (hclear.consistent _ hbranch) _ _).mpr ⟨entry, hentry, rfl, rfl⟩,
          rfl⟩⟩
    rw [leafHolds, hitems]
    exact holdsEntry_eq _ _ _
      (reads_flattenPayload hunique (hclear.own _ hbranch _ hentry) _ hkey)
  have hflat : ∀ branch ∈ branchesMembers [] pattern,
      holdsFlat evaluate ((flattenPayload payload flats).map Dict.get?)
        (write Dict.empty branch) = branch.all (leafHolds (conditionsHold evaluate payload)) := by
    intro branch hbranch
    rw [holdsFlat, Bool.eq_iff_iff, all_eq_true, all_eq_true]
    constructor
    · intro hall entry hmem
      rw [← hentry _ hbranch _ hmem]
      exact hall _ ((mem_entries_write (hclear.consistent _ hbranch) _ _).mpr
        ⟨entry, hmem, rfl, rfl⟩)
    · rintro hall ⟨key, value⟩ hwritten
      obtain ⟨entry, hmem, rfl, rfl⟩ :=
        (mem_entries_write (hclear.consistent _ hbranch) _ _).mp hwritten
      rw [hentry _ hbranch _ hmem]
      exact hall _ hmem
  rw [holdsMembers_eq, someHolds, Bool.eq_iff_iff, any_eq_true, any_eq_true]
  constructor
  · rintro ⟨flat, hmem, htrue⟩
    obtain ⟨branch, hbranch, rfl⟩ := (mem_flats_iff hwrites flat).mp hmem
    exact ⟨branch, hbranch, hflat _ hbranch ▸ htrue⟩
  · rintro ⟨branch, hbranch, htrue⟩
    exact ⟨_, (mem_flats_iff hwrites _).mpr ⟨branch, hbranch, rfl⟩,
      (hflat _ hbranch).trans htrue⟩

theorem evaluateNestedPattern_eq {flats : List Flat} (hflats : flattenPattern pattern = .ok flats) :
    evaluateNestedPattern evaluate pattern payload =
      evaluateFlat evaluate flats (flattenPayload payload flats) := by
  rw [evaluateNestedPattern]
  split
  · next hempty =>
      rw [isEmpty_iff.mp hempty] at hflats
      cases hflats
      rfl
  · rw [hflats]
    rfl

/-- The evaluation of a pattern raises just if it comes to a test that raises. -/
theorem evaluateNestedPattern_isOk_iff (hshaped : shapedMembers pattern = true) :
    (evaluateNestedPattern evaluate pattern payload).isOk = true ↔
      ∀ flats, flattenPattern pattern = .ok flats →
        NoneRaises evaluate ((flattenPayload payload flats).map Dict.get?) flats := by
  obtain ⟨flats, hflats, hwrites⟩ := writes_traverseMembers _ [] [Dict.empty] hshaped
  have hflatten : flattenPattern pattern = .ok flats := hflats
  rw [evaluateNestedPattern_eq hflatten, evaluateFlat_isOk_iff (lists_of_writes hshaped hwrites),
    hflatten]
  exact ⟨fun h _ heq => Except.ok.inj heq ▸ h, fun h => h flats rfl⟩

/-- The evaluation of a pattern on a payload is the meaning of the pattern, just if none of the
    tests that it comes to raises. -/
theorem evaluateNestedPattern_iff (hshaped : shapedMembers pattern = true)
    (hclear : Clear pattern payload) (hunique : UniqueNames (.obj payload)) :
    evaluateNestedPattern evaluate pattern payload =
        .ok (holdsMembers (conditionsHold evaluate payload) [] pattern) ↔
      ∀ flats, flattenPattern pattern = .ok flats →
        NoneRaises evaluate ((flattenPayload payload flats).map Dict.get?) flats := by
  obtain ⟨flats, hflats, hwrites⟩ := writes_traverseMembers _ [] [Dict.empty] hshaped
  rw [← evaluateNestedPattern_isOk_iff hshaped, evaluateNestedPattern_eq hflats,
    ← any_holdsFlat_eq hshaped hclear hunique hwrites, evaluateFlat_agrees.eq_ok_iff]

end Evaluate

end LocalEmu.Patterns
