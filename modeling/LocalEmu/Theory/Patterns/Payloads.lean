import LocalEmu.Core.Patterns.Flattening

/-!
# What A Flattened Payload Has At A Path

A payload is flattened to one dictionary for every choice of an element from every
list, as far as the pattern can see it. For a single path this is what one finds
at the path in the payload itself under some choice, because a member whose key no
key of the pattern starts with is not on the way to the path.

This needs that the payload has no value at another path with the same key. Two
paths have one key if a name has a dot, or if the first name of a longer path is
empty, because joining drops it.
-/

namespace LocalEmu.Patterns

open List Option

open Iam (Json PyError)

/-! ### Paths -/

variable (path : List String)

/-- The key of a path. -/
def joinPath : Text := path.foldl joinKey []

theorem joinPath_concat (name : String) :
    joinPath (path ++ [name]) = joinKey (joinPath path) name := by
  rw [joinPath, foldl_append, foldl_cons, foldl_nil, joinPath]

/-- The key on the way to a path. -/
theorem joinPath_isPrefix {path path' : List String} (h : path <+: path') :
    joinPath path <+: joinPath path' := by
  rcases h with ⟨rest, rfl⟩
  induction rest using reverseRecOn with
  | nil => rw [append_nil]
  | append_singleton rest name ih =>
    rw [← append_assoc, joinPath_concat]
    refine ih.trans ?_
    rw [joinKey]
    split
    · next hnil =>
        rw [hnil]
        exact nil_prefix
    · exact prefix_append _ _

/-! ### Choices -/

/-- What a payload without lists has at a path. -/
def valueAt (payload : Json) : List String → Option Json
  | [] =>
    match payload with
    | .obj _ | .arr _ => none
    | value => some value
  | name :: path =>
    match payload with
    | .obj members => (members.lookup name).bind fun value => valueAt value path
    | _ => none

mutual

/-- The payloads that choose one element of every list. -/
def choices : Json → List Json
  | .obj members => (memberChoices members).map .obj
  | .arr [] => [.arr []]
  | .arr (value :: values) => itemChoices (value :: values)
  | value => [value]

def memberChoices : List (String × Json) → List (List (String × Json))
  | [] => [[]]
  | (name, value) :: members =>
    (choices value).flatMap fun choice =>
      (memberChoices members).map fun rest => (name, choice) :: rest

def itemChoices : List Json → List Json
  | [] => []
  | value :: values => choices value ++ itemChoices values

end

mutual

def leafPaths : Json → List (List String)
  | .obj members => memberPaths members
  | .arr items => itemPaths items
  | _ => [[]]

/-- The paths of the values of the members of an object. -/
def memberPaths : List (String × Json) → List (List String)
  | [] => []
  | (name, value) :: members => (leafPaths value).map (name :: ·) ++ memberPaths members

/-- The paths of the values of the elements of a list. -/
def itemPaths : List Json → List (List String)
  | [] => []
  | value :: values => leafPaths value ++ itemPaths values

end

/-- The names in every object are distinct, as they are in a dictionary. -/
inductive UniqueNames : Json → Prop
  | null : UniqueNames .null
  | bool (b : Bool) : UniqueNames (.bool b)
  | int (n : Int) : UniqueNames (.int n)
  | float (repr : String) : UniqueNames (.float repr)
  | str (s : String) : UniqueNames (.str s)
  | arr (items : List Json) (h : ∀ item ∈ items, UniqueNames item) : UniqueNames (.arr items)
  | obj (members : List (String × Json)) (names : (members.map Prod.fst).Nodup)
      (h : ∀ member ∈ members, UniqueNames member.2) : UniqueNames (.obj members)

/-! ### Reading a path -/

/-- What a payload that is found at the first path has at the second one. -/
def below (target : List String) (payload : Json) : Option Json :=
  if path <+: target then valueAt payload (target.drop path.length) else none

theorem below_append (rest : List String) (payload : Json) :
    below path (path ++ rest) payload = valueAt payload rest := by
  rw [below, if_pos (prefix_append _ _), drop_left]

theorem below_of_not_isPrefix {path target : List String} (h : ¬path <+: target)
    (payload : Json) : below path target payload = none := if_neg h

variable {payload : Json}

theorem below_of_empty (h : ∀ rest, valueAt payload rest = none)
    (path target : List String) : below path target payload = none := by
  rw [below]
  split
  · exact h _
  · rfl

theorem below_cons (target : List String) (name : String) (value : Json)
    (members : List (String × Json)) (h : name ∉ members.map Prod.fst) :
    below path target (.obj ((name, value) :: members)) =
      (below path target (.obj members)).or (below (path ++ [name]) target value) := by
  by_cases hpath : path <+: target
  · rcases hpath with ⟨rest, rfl⟩
    rw [below_append, below_append]
    cases rest with
    | nil =>
      have hlong : ¬path ++ [name] <+: path ++ [] := by
        intro hlong
        have hle := hlong.length_le
        rw [length_append, append_nil, length_singleton] at hle
        omega
      rw [below_of_not_isPrefix hlong]
      rfl
    | cons next rest =>
      by_cases hnext : next = name
      · subst hnext
        have hlookup : members.lookup next = none := (Dict.lookup_eq_none_iff _ _).mpr h
        have hsplit : path ++ next :: rest = (path ++ [next]) ++ rest := by
          rw [append_assoc, singleton_append]
        rw [hsplit, below_append, valueAt, valueAt, hlookup, lookup_cons_self]
        rfl
      · have hother : ¬path ++ [name] <+: path ++ next :: rest := by
          rw [prefix_append_right_inj]
          intro hother
          exact hnext (cons_prefix_cons.mp hother).1.symm
        have hbeq : (next == name) = false := beq_eq_false_iff_ne.mpr hnext
        rw [below_of_not_isPrefix hother, or_none, valueAt, valueAt, lookup_cons, hbeq]
  · have hlong : ¬path ++ [name] <+: target :=
      fun hlong => hpath ((prefix_append _ _).trans hlong)
    rw [below_of_not_isPrefix hpath, below_of_not_isPrefix hpath, below_of_not_isPrefix hlong]
    rfl

theorem map_fst_of_mem_memberChoices (members : List (String × Json)) :
    ∀ rest ∈ memberChoices members, rest.map Prod.fst = members.map Prod.fst := by
  induction members with
  | nil =>
    intro rest hrest
    rw [memberChoices, mem_singleton] at hrest
    rw [hrest]
  | cons member members ih =>
    rcases member with ⟨name, value⟩
    intro rest hrest
    simp only [memberChoices, List.mem_flatMap, List.mem_map] at hrest
    rcases hrest with ⟨choice, hchoice, tail, htail, rfl⟩
    rw [map_cons, map_cons, ih _ htail]

/-- What a list of dictionaries has at a key. -/
def Reads (key : Text) (array : List Flat) (field : Option Json) : Prop :=
  ∃ item ∈ array, item.get? key = field

theorem choices_ne_nil (h : UniqueNames payload) : choices payload ≠ [] := by
  induction h with
  | null | bool | int | float | str => exact cons_ne_nil _ _
  | arr items h ih =>
    cases items with
    | nil => exact cons_ne_nil _ _
    | cons =>
      exact append_ne_nil_of_left_ne_nil (ih _ mem_cons_self) _
  | obj members names h ih =>
    rw [choices, Ne, map_eq_nil_iff]
    clear names h
    induction members with
    | nil => exact cons_ne_nil _ _
    | cons member members ihMembers =>
      rcases exists_mem_of_ne_nil _ (ih _ mem_cons_self) with ⟨choice, hchoice⟩
      rcases exists_mem_of_ne_nil _
        (ihMembers fun m hm => ih m (mem_cons_of_mem member hm)) with ⟨rest, hrest⟩
      refine ne_nil_of_mem (a := (member.1, choice) :: rest) ?_
      exact mem_flatMap.mpr ⟨choice, hchoice, mem_map.mpr ⟨rest, hrest, rfl⟩⟩

section Traverse

variable {relevant : Text → Bool} {target : List String}

/-- What the dictionaries have at the key of the target after a payload at a path
    was traversed: what some choice of it has there, or what they had before. -/
def Adds (path target : List String) (payloads : List Json) (array : List Flat)
    (field : Option Json) : Prop :=
  ∃ choice ∈ payloads, ∃ before,
    Reads (joinPath target) array before ∧ (below path target choice).or before = field

theorem adds_of_none {path : List String} {payloads : List Json}
    (hnone : ∀ choice ∈ payloads, below path target choice = none) (hne : payloads ≠ [])
    (array : List Flat) (field : Option Json) :
    Adds path target payloads array field ↔ Reads (joinPath target) array field := by
  constructor
  · rintro ⟨choice, hchoice, before, hbefore, rfl⟩
    rw [hnone _ hchoice]
    exact hbefore
  · intro hreads
    rcases exists_mem_of_ne_nil _ hne with ⟨choice, hchoice⟩
    exact ⟨choice, hchoice, field, hreads, by rw [hnone _ hchoice, none_or]⟩

theorem adds_of_empty (h : ∀ rest, valueAt payload rest = none)
    (path : List String) (array : List Flat) (field : Option Json) :
    Adds path target [payload] array field ↔ Reads (joinPath target) array field := by
  refine adds_of_none (fun choice hchoice => ?_) (cons_ne_nil _ _) _ _
  rw [mem_singleton] at hchoice
  rw [hchoice]
  exact below_of_empty h _ _

theorem reads_traverseObject
    (hrelevant : ∀ key, relevant key = false → ¬key <+: joinPath target) (path : List String)
    (members : List (String × Json)) (hnames : (members.map Prod.fst).Nodup)
    (hunique : ∀ member ∈ members, UniqueNames member.2)
    (hmembers : ∀ member ∈ members, ∀ array field,
      Reads (joinPath target) (traverse relevant (joinPath (path ++ [member.1])) member.2 array)
        field ↔ Adds (path ++ [member.1]) target (choices member.2) array field)
    (array : List Flat) (field : Option Json) :
    Reads (joinPath target) (traverseObject relevant (joinPath path) members array) field ↔
      Adds path target ((memberChoices members).map .obj) array field := by
  induction members generalizing array with
  | nil =>
    refine (adds_of_empty (fun rest => ?_) _ _ _).symm
    cases rest with
    | nil | cons => rfl
  | cons member members ih =>
    rcases member with ⟨name, value⟩
    rw [map_cons, nodup_cons] at hnames
    rw [traverseObject]
    -- A member that no key of the pattern starts with is not on the way.
    have hnext : ∀ before, Reads (joinPath target)
        (if relevant (joinKey (joinPath path) name) = true then
          traverse relevant (joinKey (joinPath path) name) value array else array) before ↔
        Adds (path ++ [name]) target (choices value) array before := by
      intro before
      rw [← joinPath_concat]
      by_cases hkey : relevant (joinPath (path ++ [name])) = true
      · rw [if_pos hkey]
        exact hmembers (name, value) mem_cons_self _ _
      · rw [if_neg hkey]
        have hnot : ¬path ++ [name] <+: target := fun h =>
          hrelevant _ (by simpa using hkey) (joinPath_isPrefix h)
        exact (adds_of_none (fun choice _ => below_of_not_isPrefix hnot _)
          (choices_ne_nil (hunique (name, value) mem_cons_self)) _ _).symm
    rw [ih hnames.2 (fun m hm => hunique m (mem_cons_of_mem _ hm))
      (fun m hm => hmembers m (mem_cons_of_mem _ hm))]
    have hcons : ∀ rest ∈ memberChoices members, ∀ choice,
        below path target (.obj ((name, choice) :: rest)) =
          (below path target (.obj rest)).or (below (path ++ [name]) target choice) := by
      intro rest hrest choice
      refine below_cons _ _ _ _ _ ?_
      rw [map_fst_of_mem_memberChoices _ _ hrest]
      exact hnames.1
    constructor
    · rintro ⟨choice, hchoice, before, hbefore, rfl⟩
      rcases mem_map.mp hchoice with ⟨rest, hrest, rfl⟩
      rcases (hnext _).mp hbefore with ⟨first, hfirst, start, hstart, rfl⟩
      refine ⟨.obj ((name, first) :: rest), mem_map_of_mem ?_, start, hstart, ?_⟩
      · exact mem_flatMap.mpr ⟨first, hfirst, mem_map_of_mem hrest⟩
      · rw [hcons _ hrest, Option.or_assoc]
    · rintro ⟨choice, hchoice, start, hstart, rfl⟩
      rcases mem_map.mp hchoice with ⟨all, hall, rfl⟩
      rcases mem_flatMap.mp hall with ⟨first, hfirst, hall⟩
      rcases mem_map.mp hall with ⟨rest, hrest, rfl⟩
      refine ⟨.obj rest, mem_map_of_mem hrest, (below (path ++ [name]) target first).or start,
        (hnext _).mpr ⟨first, hfirst, start, hstart, rfl⟩, ?_⟩
      rw [hcons _ hrest, Option.or_assoc]

theorem reads_set {path : List String} (hown : joinPath path = joinPath target → path = target)
    {value : Json}
    (hvalue : ∀ rest, valueAt value rest = if rest = [] then some value else none)
    (array : List Flat) (field : Option Json) :
    Reads (joinPath target) (array.map fun item => item.set (joinPath path) value) field ↔
      Adds path target [value] array field := by
  have hget : ∀ item : Flat, (item.set (joinPath path) value).get? (joinPath target) =
      (below path target value).or (item.get? (joinPath target)) := by
    intro item
    rw [Dict.get?_set]
    by_cases heq : path = target
    · subst heq
      have hbelow : below path path value = some value := by
        have hself := below_append path [] value
        rw [append_nil] at hself
        rw [hself, hvalue, if_pos rfl]
      rw [if_pos rfl, hbelow, some_or]
    · have hkey : joinPath target ≠ joinPath path := fun h =>
        heq (hown h.symm)
      have hbelow : below path target value = none := by
        by_cases hprefixed : path <+: target
        · rcases hprefixed with ⟨rest, rfl⟩
          rw [below_append, hvalue, if_neg]
          rintro rfl
          exact heq (append_nil _).symm
        · exact below_of_not_isPrefix hprefixed _
      rw [if_neg hkey, hbelow, none_or]
  constructor
  · rintro ⟨written, hwritten, rfl⟩
    rcases mem_map.mp hwritten with ⟨item, hitem, rfl⟩
    exact ⟨value, mem_singleton_self _, item.get? (joinPath target), ⟨item, hitem, rfl⟩,
      (hget _).symm⟩
  · rintro ⟨choice, hchoice, before, ⟨item, hitem, rfl⟩, rfl⟩
    rw [mem_singleton] at hchoice
    subst hchoice
    exact ⟨_, mem_map_of_mem hitem, hget _⟩

theorem reads_append (key : Text) (array array' : List Flat) (field : Option Json) :
    Reads key (array ++ array') field ↔ Reads key array field ∨ Reads key array' field := by
  simp only [Reads, mem_append, or_and_right, exists_or]

theorem adds_append (path : List String) (payloads payloads' : List Json) (array : List Flat)
    (field : Option Json) :
    Adds path target (payloads ++ payloads') array field ↔
      Adds path target payloads array field ∨ Adds path target payloads' array field := by
  simp only [Adds, mem_append, or_and_right, exists_or]

theorem reads_traverseList (path : List String) (items : List Json)
    (hitems : ∀ item ∈ items, ∀ array field,
      Reads (joinPath target) (traverse relevant (joinPath path) item array) field ↔
        Adds path target (choices item) array field)
    (array : List Flat) (field : Option Json) :
    Reads (joinPath target) (traverseList relevant (joinPath path) items array) field ↔
      Adds path target (itemChoices items) array field := by
  induction items with
  | nil =>
    constructor
    · rintro ⟨item, hitem, -⟩
      exact absurd hitem not_mem_nil
    · rintro ⟨choice, hchoice, -⟩
      exact absurd hchoice not_mem_nil
  | cons item items ih =>
    rw [traverseList, itemChoices, reads_append, adds_append,
      hitems _ mem_cons_self,
      ih fun other hother => hitems other (mem_cons_of_mem item hother)]

theorem mem_memberPaths {members : List (String × Json)} {member : String × Json}
    (h : member ∈ members) {rest : List String} (hrest : rest ∈ leafPaths member.2) :
    member.1 :: rest ∈ memberPaths members := by
  induction members with
  | nil => exact absurd h not_mem_nil
  | cons first members ih =>
    rcases first with ⟨name, value⟩
    rw [memberPaths, mem_append]
    rcases mem_cons.mp h with rfl | htail
    · exact .inl (mem_map_of_mem hrest)
    · exact .inr (ih htail)

theorem mem_itemPaths {items : List Json} {item : Json} (h : item ∈ items) {rest : List String}
    (hrest : rest ∈ leafPaths item) : rest ∈ itemPaths items := by
  induction items with
  | nil => exact absurd h not_mem_nil
  | cons first items ih =>
    rw [itemPaths, mem_append]
    rcases mem_cons.mp h with rfl | htail
    · exact .inl hrest
    · exact .inr (ih htail)

/-- What the dictionaries have at the key of the target after a payload was traversed. -/
theorem reads_traverse (hrelevant : ∀ key, relevant key = false → ¬key <+: joinPath target)
    (hunique : UniqueNames payload) : ∀ (path : List String),
    (∀ rest ∈ leafPaths payload, joinPath (path ++ rest) = joinPath target →
      path ++ rest = target) → ∀ (array : List Flat) (field : Option Json),
    Reads (joinPath target) (traverse relevant (joinPath path) payload array) field ↔
      Adds path target (choices payload) array field := by
  induction hunique with
  | null | bool | int | float | str =>
    intro path hpaths array field
    have hown := hpaths [] (mem_singleton_self _)
    rw [append_nil] at hown
    refine reads_set hown ?_ _ _
    intro rest
    cases rest with
    | nil | cons => rfl
  | arr items _ ih =>
    intro path hpaths array field
    have hitems : ∀ item ∈ items, ∀ array field,
        Reads (joinPath target) (traverse relevant (joinPath path) item array) field ↔
          Adds path target (choices item) array field := fun item hitem =>
      ih item hitem path fun rest hrest => hpaths rest (mem_itemPaths hitem hrest)
    cases items with
    | nil =>
      -- An empty list leaves the dictionaries as they are.
      refine (adds_of_empty (fun rest => ?_) _ _ _).symm
      cases rest with
      | nil | cons => rfl
    | cons =>
      exact reads_traverseList _ _ hitems _ _
  | obj members names hunique ih =>
    intro path hpaths array field
    refine reads_traverseObject hrelevant _ _ names hunique ?_ _ _
    intro member hmember array field
    refine ih _ hmember _ ?_ _ _
    intro rest hrest
    rw [append_assoc]
    exact hpaths _ (mem_memberPaths hmember hrest)

/-- What the dictionaries of a payload have at the key of a path of the pattern is
    what the payload has at the path under some choice. -/
theorem reads_flattenPayload {members : List (String × Json)}
    (hunique : UniqueNames (.obj members))
    (hpaths : ∀ path ∈ memberPaths members, joinPath path = joinPath target → path = target)
    (patterns : List Flat)
    (htarget : ∃ pattern ∈ patterns, joinPath target ∈ pattern.keys) (field : Option Json) :
    Reads (joinPath target) (flattenPayload members patterns) field ↔
      ∃ choice ∈ choices (.obj members), valueAt choice target = field := by
  have hrelevant : ∀ key, isKeyInPatterns patterns key = false → ¬key <+: joinPath target := by
    rintro key hkey hprefixed
    rcases htarget with ⟨pattern, hpattern, hmem⟩
    have hin : isKeyInPatterns patterns key = true :=
      any_eq_true.mpr ⟨pattern, hpattern, any_eq_true.mpr
        ⟨joinPath target, hmem, isPrefixOf_iff_prefix.mpr hprefixed⟩⟩
    rw [hkey] at hin
    cases hin
  cases hunique with
  | obj _ names hmembers =>
    have htraverse := reads_traverseObject hrelevant [] _ names hmembers
      (fun member hmember array field => reads_traverse hrelevant (hmembers _ hmember) _
        (fun rest hrest => hpaths _ (mem_memberPaths hmember hrest)) _ _)
      [Dict.empty] field
    refine htraverse.trans ?_
    constructor
    · rintro ⟨choice, hchoice, before, ⟨item, hitem, rfl⟩, rfl⟩
      rw [mem_singleton] at hitem
      refine ⟨choice, hchoice, ?_⟩
      rw [hitem, Dict.get?_empty, or_none]
      exact (below_append [] _ _).symm
    · rintro ⟨choice, hchoice, rfl⟩
      refine ⟨choice, hchoice, none, ⟨Dict.empty, mem_singleton_self _, rfl⟩, ?_⟩
      rw [or_none]
      exact below_append [] _ _

end Traverse

/-! ### The values of a flattened payload -/

def isScalar : Json → Bool
  | .arr _ | .obj _ => false
  | _ => true

/-- What there is at a key is neither a list nor an object. -/
def Scalars (field : Text → Option Json) : Prop :=
  ∀ key value, field key = some value → isScalar value = true

theorem scalars_set {array : List Flat} (h : ∀ item ∈ array, Scalars item.get?) (key : Text)
    {value : Json} (hvalue : isScalar value = true) :
    ∀ item ∈ array.map fun item => item.set key value, Scalars item.get? := by
  intro item hitem other found hfound
  obtain ⟨old, hold, rfl⟩ := mem_map.mp hitem
  rcases Dict.get?_set_eq_some _ _ _ hfound with ⟨-, rfl⟩ | ⟨-, hfound⟩
  · exact hvalue
  · exact h old hold other found hfound

section Scalars

variable (relevant : Text → Bool)

mutual

theorem scalars_traverse : ∀ (payload : Json) (key : Text) (array : List Flat),
    (∀ item ∈ array, Scalars item.get?) →
      ∀ item ∈ traverse relevant key payload array, Scalars item.get?
  | .obj members, key, array, h => by
      rw [traverse]
      exact scalars_traverseObject members key array h
  | .arr [], _, _, h => h
  | .arr (value :: values), key, array, h => by
      rw [traverse]
      exact scalars_traverseList (value :: values) key array h
  | .null, key, _, h | .bool _, key, _, h | .int _, key, _, h | .float _, key, _, h
  | .str _, key, _, h => scalars_set h key rfl

theorem scalars_traverseObject : ∀ (members : List (String × Json)) (key : Text)
    (array : List Flat), (∀ item ∈ array, Scalars item.get?) →
      ∀ item ∈ traverseObject relevant key members array, Scalars item.get?
  | [], _, _, h => h
  | (name, value) :: members, key, array, h => by
      rw [traverseObject]
      refine scalars_traverseObject members key _ ?_
      split
      · exact scalars_traverse value _ array h
      · exact h

theorem scalars_traverseList : ∀ (items : List Json) (key : Text) (array : List Flat),
    (∀ item ∈ array, Scalars item.get?) →
      ∀ item ∈ traverseList relevant key items array, Scalars item.get?
  | [], _, _, _ => fun _ hitem => absurd hitem not_mem_nil
  | value :: values, key, array, h => by
      intro item hitem
      rcases mem_append.mp hitem with hitem | hitem
      · exact scalars_traverse value key array h item hitem
      · exact scalars_traverseList values key array h item hitem

end

end Scalars

/-- The dictionaries have neither lists nor objects. -/
theorem scalars_flattenPayload (payload : List (String × Json)) (patterns : List Flat) :
    ∀ item ∈ flattenPayload payload patterns, Scalars item.get? := by
  refine scalars_traverseObject _ payload [] _ fun item hitem key value hvalue => ?_
  rw [mem_singleton.mp hitem, Dict.get?_empty] at hvalue
  cases hvalue

/-- A payload of members that are neither lists nor objects is flattened to one dictionary. -/
theorem traverseObject_entries {relevant : Text → Bool} (entries : List (Text × Json))
    (h : ∀ entry ∈ entries, relevant entry.1 = true ∧ isScalar entry.2 = true) (item : Flat) :
    traverseObject relevant [] (entries.map fun entry => (String.ofList entry.1, entry.2)) [item] =
      [entries.foldl (fun item entry => item.set entry.1 entry.2) item] := by
  induction entries generalizing item with
  | nil => rfl
  | cons entry entries ih =>
    obtain ⟨hrelevant, hscalar⟩ := h entry mem_cons_self
    have hkey : joinKey [] (String.ofList entry.1) = entry.1 :=
      (if_pos rfl).trans (String.toList_ofList ..)
    have hset : traverse relevant entry.1 entry.2 [item] = [item.set entry.1 entry.2] := by
      rcases entry with ⟨key, value⟩
      cases value with
      | arr | obj => cases hscalar
      | _ => rfl
    rw [map_cons, traverseObject, hkey, if_pos hrelevant, hset,
      ih fun other hother => h other (mem_cons_of_mem _ hother), foldl_cons]

theorem exists_dict (keys : List Text) (field : Text → Option Json) :
    ∃ item : Flat, ∀ key, item.get? key = if key ∈ keys then field key else none := by
  induction keys with
  | nil => exact ⟨.empty, fun key => (if_neg not_mem_nil).symm⟩
  | cons first keys ih =>
    obtain ⟨item, hitem⟩ := ih
    cases hfield : field first with
    | none =>
      refine ⟨item, fun key => ?_⟩
      by_cases hkey : key = first
      · simp [hitem, hkey, hfield]
      · simp [hitem, hkey]
    | some value =>
      refine ⟨item.set first value, fun key => ?_⟩
      rw [Dict.get?_set]
      by_cases hkey : key = first
      · simp [hkey, hfield]
      · simp [hitem, hkey]

/-- For values at keys there is a payload that has these values at the keys of a pattern. Its
    names are the keys, so that it has no object in it. -/
theorem exists_payload (patterns : List Flat) {field : Text → Option Json} (h : Scalars field) :
    ∃ payload item, flattenPayload payload patterns = [item] ∧
      ∀ pattern ∈ patterns, ∀ key ∈ pattern.keys, item.get? key = field key := by
  obtain ⟨item, hitem⟩ := exists_dict (patterns.flatMap Dict.keys) field
  refine ⟨_, _, traverseObject_entries item.entries (fun entry hentry => ?_) .empty,
    fun pattern hpattern key hkey => ?_⟩
  · have hget := (Dict.get?_eq_some_iff item _ _).mpr hentry
    rw [hitem] at hget
    split at hget
    · next hmem =>
        obtain ⟨pattern, hpattern, hin⟩ := mem_flatMap.mp hmem
        exact ⟨any_eq_true.mpr ⟨pattern, hpattern, any_eq_true.mpr
          ⟨_, hin, isPrefixOf_iff_prefix.mpr (prefix_refl _)⟩⟩, h _ _ hget⟩
    · cases hget
  · rw [Dict.get?_foldl_entries _ item.nodup, Dict.get?_empty, or_none]
    exact (hitem key).trans (if_pos (mem_flatMap.mpr ⟨pattern, hpattern, hkey⟩))

end LocalEmu.Patterns
