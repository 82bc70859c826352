import LocalEmu.Theory.Events.PatternMatching

/-!
# Safe Patterns

The compiler looks at the rules of a pattern, and the evaluation may still raise: on
an affix that ignores the case and a value that is not a text, on a number that is
too large for a floating point number, and where a `$or` has one alternative, which
is then taken for a condition. The compiler itself raises on an alternative that
is not an object, unless it finds another fault before.

The evaluation is lazy, and a condition that may raise does no harm if the loops
never come to it with a value that it raises on. An event offers one value at a time
for every key, or several of them, but then it raises for one of them alone.
-/

namespace LocalEmu.Events

open Iam (Json PyError)
open Patterns

variable (py : Builtins)

/-- The pattern is compiled or rejected, and if it is compiled, then it is evaluated
    on every event without an exception. -/
def NeverFails (pattern : Json) : Prop :=
  (∀ error, compileJson py pattern ≠ .error (.python error)) ∧
    ∀ compiled, compileJson py pattern = .ok compiled → ∀ loads event,
      (evaluatePatternOnEvent py loads compiled event).isOk = true

/-! ### The compiler -/

/-- What is wrong with the shape of a pattern: it is rejected, or an exception is raised. -/
inductive Fault
  | rejected
  | raised
  deriving DecidableEq

mutual

def faultsMember (key : String) : Json → List Fault
  | .obj members => faultsMembers members
  | .arr items =>
    if items.isEmpty then [.rejected] else if key = "$or" then faultsSome items else []
  | _ => [.rejected]

/-- The faults of an object, in the order of its members. -/
def faultsMembers : List (String × Json) → List Fault
  | [] => []
  | (key, value) :: members => faultsMember key value ++ faultsMembers members

def faultsSome : List Json → List Fault
  | [] => []
  | value :: values => faultsAlternative value ++ faultsSome values

def faultsAlternative : Json → List Fault
  | .obj members => faultsMembers members
  | _ => [.raised]

end

def faultOf {α : Type} : Except RuleError α → Option Fault
  | .ok _ => none
  | .error (.invalid _) => some .rejected
  | .error (.python _) => some .raised

theorem faultOf_ne_raised_iff {α : Type} (result : Except RuleError α) :
    faultOf result ≠ some .raised ↔ ∀ error, result ≠ .error (.python error) := by
  rcases result with (_ | _) | _ <;> simp [faultOf]

theorem faultOf_map {α β : Type} (x : Except RuleError α) (f : α → β) :
    faultOf (x.map f) = faultOf x := by
  rcases x with (_ | _) | _ <;> rfl

theorem faultOf_bind {α β : Type} (x : Except RuleError α) (f : α → Except RuleError β)
    {fault : Option Fault} (hf : ∀ a, faultOf (f a) = fault) :
    faultOf (x.bind f) = (faultOf x).or fault := by
  rcases x with (_ | _) | a
  · rfl
  · rfl
  · exact hf a

/-- Nothing but a rejection is raised. -/
def Rejects {α : Type} (result : Except RuleError α) : Prop :=
  ∀ error, result ≠ .error (.python error)

theorem rejects_bind {α β : Type} (x : Except RuleError α) (f : α → Except RuleError β)
    (hx : Rejects x) (hf : ∀ a, Rejects (f a)) : Rejects (x.bind f) := by
  cases x with
  | error => exact fun error h => hx error (by cases h; rfl)
  | ok a => exact hf a

theorem rejects_map {α β : Type} (x : Except RuleError α) (f : α → β) (hx : Rejects x) :
    Rejects (x.map f) := by
  cases x with
  | error => exact fun error h => hx error (by cases h; rfl)
  | ok => exact fun error h => by cases h

theorem rejects_forM {α : Type} (f : α → Except RuleError Unit) (l : List α)
    (h : ∀ a ∈ l, Rejects (f a)) : Rejects (l.forM f) := by
  induction l with
  | nil => exact fun error h => by cases h
  | cons a l ih =>
    exact rejects_bind _ _ (h a List.mem_cons_self) fun _ =>
      ih fun b hb => h b (List.mem_cons_of_mem a hb)

theorem rejects_require (check : Bool) (message : String) : Rejects (require check message) := by
  unfold require
  split <;> exact nofun

theorem rejects_operator (anythingBut : Bool) (operator : String) (value : Json) :
    Rejects (validateOperator py anythingBut operator value) := by
  have hwildcard : ∀ value, Rejects (validateWildcard value) := by
    intro value
    unfold validateWildcard
    repeat' first | exact fun error h => by cases h | split
  unfold validateOperator validateAffix validateEqualsIgnoreCase validateNumericCondition
    validateSecondBound validateCidrCondition validateWildcards
  repeat' first
    | exact fun error h => by cases h
    | exact rejects_require _ _
    | exact hwildcard _
    | exact rejects_forM _ _ fun item _ => hwildcard item
    | refine rejects_bind _ _ (rejects_require _ _) fun _ => ?_
    | split

mutual

theorem rejects_rule : ∀ (anythingBut : Bool) (value : Json),
    Rejects (validateRule py anythingBut value)
  | anythingBut, .obj [(operator, value)] => by
      unfold validateRule
      split
      · exact rejects_anythingBut value
      · exact rejects_operator py anythingBut operator value
  | _, .obj [] | _, .obj (_ :: _ :: _) | _, .arr _ | _, .null | _, .bool _ | _, .int _
  | _, .float _ | _, .str _ => nofun

theorem rejects_anythingBut : ∀ value : Json, Rejects (validateAnythingBut py value)
  | .arr items => by
      unfold validateAnythingBut
      exact rejects_anythingButItems items
  | .obj members => by
      unfold validateAnythingBut validateAnythingButRule
      repeat' first
        | exact fun error h => by cases h
        | exact rejects_operator py _ _ _
        | split
  | .null | .bool _ | .int _ | .float _ | .str _ => nofun

theorem rejects_anythingButItems : ∀ items : List Json,
    Rejects (validateAnythingButItems py items)
  | [] => nofun
  | item :: items => by
      unfold validateAnythingButItems
      refine rejects_bind _ _ ?_ fun _ => rejects_anythingButItems items
      split
      · exact nofun
      · exact rejects_rule true item

end

section Aggregate

variable (errorPrefix label : String)

mutual

theorem fault_member : ∀ (value : Json) (key : String) (depth combinations : Nat),
    faultOf (aggregateMember errorPrefix label true key depth value combinations) =
      (faultsMember key value).head?
  | .obj members, key, depth, combinations => by
      rw [aggregateMember, faultsMember]
      exact fault_members members (depth + 1) combinations
  | .arr items, key, depth, combinations => by
      rw [aggregateMember, faultsMember]
      split
      · rfl
      · split
        · exact fault_alternatives items depth combinations
        · rfl
  | .null, _, _, _ | .bool _, _, _, _ | .int _, _, _, _ | .float _, _, _, _
  | .str _, _, _, _ => rfl

/-- The compiler fails with the first fault of a pattern. -/
theorem fault_members : ∀ (members : List (String × Json)) (depth combinations : Nat),
    faultOf (aggregateMembers errorPrefix label true depth members combinations) =
      (faultsMembers members).head?
  | [], _, _ => rfl
  | (key, value) :: members, depth, combinations => by
      rw [aggregateMembers, faultsMembers, List.head?_append,
        ← fault_member value key depth combinations]
      exact faultOf_bind _ _ fun first =>
        (faultOf_map _ _).trans (fault_members members depth first.2)

theorem fault_alternatives : ∀ (items : List Json) (depth combinations : Nat),
    faultOf (aggregateAlternatives errorPrefix label true depth items combinations) =
      (faultsSome items).head?
  | [], _, _ => rfl
  | value :: values, depth, combinations => by
      rw [aggregateAlternatives, faultsSome, List.head?_append,
        ← fault_alternative value depth combinations]
      exact faultOf_bind _ _ fun _ =>
        (faultOf_map _ _).trans (fault_alternatives values depth combinations)

theorem fault_alternative : ∀ (value : Json) (depth combinations : Nat),
    faultOf (aggregateAlternative errorPrefix label true depth value combinations) =
      (faultsAlternative value).head?
  | .obj members, depth, combinations => by
      rw [aggregateAlternative, faultsAlternative]
      exact fault_members members depth combinations
  | .null, _, _ | .bool _, _, _ | .int _, _, _ | .float _, _, _ | .str _, _, _
  | .arr _, _, _ => rfl

end

end Aggregate

/-- The compiler raises nothing but rejections just if the first fault of a pattern is one. -/
theorem compile_rejects_iff (pattern : List (String × Json)) :
    (∀ error, compileEventPattern py pattern ≠ .error (.python error)) ↔
      (faultsMembers pattern).head? ≠ some .raised := by
  rw [← fault_members errorPrefix "" pattern 1 1, ← faultOf_ne_raised_iff, compileEventPattern,
    aggregateRules, Patterns.aggregateRules]
  cases Patterns.aggregateMembers errorPrefix "" true 1 pattern 1 with
  | error error => cases error <;> exact Iff.rfl
  | ok rules =>
    refine iff_of_true ((faultOf_ne_raised_iff _).mpr ?_) nofun
    exact rejects_map _ _ (rejects_forM _ _ fun rules _ =>
      rejects_forM _ _ fun rule _ => rejects_rule py false _)

/-! ### Evaluation -/

/-- The first fault is no exception of the compiler. If the pattern is accepted, then however there
    is one value at every key of its dictionaries, or none, no condition raises that the evaluation
    comes to: it goes on to the next dictionary where one does not hold, to the next key where some
    condition holds, and to the next condition where one does not. -/
def Harmless : Json → Prop
  | .obj pattern => (faultsMembers pattern).head? ≠ some .raised ∧
      ((compileEventPattern py pattern).isOk = true →
        ∀ flats, flattenPattern pattern = .ok flats → ∀ field, Scalars field →
          NoneRaises (evaluateCondition py) [field] flats)
  | _ => True

theorem evaluate_isOk_iff {pattern : List (String × Json)}
    (hshaped : shapedMembers pattern = true) :
    (∀ loads event, (evaluatePatternOnEvent py loads pattern event).isOk = true) ↔
      ∀ flats, flattenPattern pattern = .ok flats → ∀ field, Scalars field →
        NoneRaises (evaluateCondition py) [field] flats := by
  constructor
  · intro h flats hflats field hfield
    -- the values are those of an event whose names are the keys
    obtain ⟨payload, item, hitem, hget⟩ := exists_payload flats hfield
    have hnone := (evaluateNestedPattern_isOk_iff hshaped).mp
      (h (fun _ => none) (.body payload)) flats hflats
    rw [hitem] at hnone
    exact hnone.congr fun flat hflat entry hentry =>
      hget flat hflat entry.1 (List.mem_map_of_mem hentry)
  · intro h loads event
    have hbody (payload : List (String × Json)) :
        (evaluateNestedEventPatternOnDict py pattern payload).isOk = true := by
      refine (evaluateNestedPattern_isOk_iff hshaped).mpr fun flats hflats => ?_
      refine noneRaises_of_choice fun field hchoice =>
        h flats hflats field fun key value hvalue => ?_
      obtain ⟨other, hother, heq⟩ := hchoice key
      obtain ⟨item, hitem, rfl⟩ := List.mem_map.mp hother
      exact scalars_flattenPayload payload flats item hitem key value (heq.symm.trans hvalue)
    unfold evaluatePatternOnEvent
    repeat' first | exact hbody _ | rfl | split

theorem exists_ok {ε α : Type} {x : Except ε α} (h : x.isOk = true) : ∃ a, x = .ok a := by
  cases x with
  | error => cases h
  | ok a => exact ⟨a, rfl⟩

theorem compile_eq_self {pattern compiled : List (String × Json)}
    (h : compileEventPattern py pattern = .ok compiled) : compiled = pattern := by
  obtain ⟨rules, -, hrules⟩ := bind_eq_ok h
  exact (map_eq_ok hrules).elim fun _ h => h.2.symm

/-- A rule with an accepted pattern is processed just if the pattern is evaluated. -/
theorem processRules_isOk_iff (loads : String → Option Json) (event : Event) {pattern : Json}
    {compiled : List (String × Json)} (h : compileJson py pattern = .ok compiled) :
    (processRules py loads (fun _ : Unit => .ok ()) event ⟨none, some pattern, ()⟩).isOk = true ↔
      (evaluatePatternOnEvent py loads compiled event).isOk = true := by
  rw [processRules, matchesEvent, h]
  change ((((evaluatePatternOnEvent py loads compiled event).mapError _).bind _).isOk = true) ↔ _
  rcases evaluatePatternOnEvent py loads compiled event with _ | _ | _
  · exact iff_of_false Bool.false_ne_true Bool.false_ne_true
  · exact iff_of_true rfl rfl
  · exact iff_of_true rfl rfl

/-- A rule is processed just if it never keeps the rules behind it from being processed. -/
theorem processRulesAsync_cons_iff (loads : String → Option Json) (event : Event) (pattern : Json) :
    (∀ rules, processRulesAsync py loads (fun _ : Unit => .ok ()) event
          (⟨none, some pattern, ()⟩ :: rules) =
        ⟨none, some pattern, ()⟩ :: processRulesAsync py loads (fun _ => .ok ()) event rules) ↔
      (processRules py loads (fun _ : Unit => .ok ()) event
        ⟨none, some pattern, ()⟩).isOk = true := by
  simp only [processRulesAsync, Option.any_none, Bool.false_eq_true, if_false]
  cases processRules py loads (fun _ : Unit => .ok ()) event ⟨none, some pattern, ()⟩ with
  | ok => exact iff_of_true (fun _ => rfl) rfl
  | error =>
    -- a rule without a pattern would be processed
    refine iff_of_false (fun h => ?_) Bool.false_ne_true
    have hlength := congrArg List.length (h [⟨none, none, ()⟩])
    simp [processRulesAsync, processRules, matchesEvent, Except.bind] at hlength

/-- A pattern never fails just if it is harmless. An accepted pattern is harmless just if a rule
    with it never keeps the rules behind it from being processed. -/
theorem neverFails_iff (pattern : Json) :
    (NeverFails py pattern ↔ Harmless py pattern) ∧
      ((compileJson py pattern).isOk = true →
        (Harmless py pattern ↔ ∀ (loads : String → Option Json) (event : Event)
          (rules : List (Rule Unit)),
          processRulesAsync py loads (fun _ => .ok ()) event (⟨none, some pattern, ()⟩ :: rules) =
            ⟨none, some pattern, ()⟩ ::
              processRulesAsync py loads (fun _ => .ok ()) event rules)) := by
  have hiff : NeverFails py pattern ↔ Harmless py pattern := by
    cases pattern with
    | obj pattern =>
      refine and_congr (compile_rejects_iff py pattern) ⟨fun h haccepted => ?_, fun h => ?_⟩
      · obtain ⟨compiled, hcompiled⟩ := exists_ok haccepted
        have heval := h compiled hcompiled
        rw [compile_eq_self py hcompiled] at heval
        exact (evaluate_isOk_iff py (shaped_of_compile haccepted)).mp heval
      · intro compiled hcompiled
        have haccepted : (compileEventPattern py pattern).isOk = true :=
          congrArg Except.isOk hcompiled
        rw [compile_eq_self py hcompiled]
        exact (evaluate_isOk_iff py (shaped_of_compile haccepted)).mpr (h haccepted)
    | null | bool | int | float | str | arr => exact iff_of_true ⟨nofun, nofun⟩ trivial
  refine ⟨hiff, fun haccepted => ?_⟩
  obtain ⟨compiled, hcompiled⟩ := exists_ok haccepted
  rw [← hiff]
  constructor
  · intro h loads event
    exact (processRulesAsync_cons_iff py loads event pattern).mpr
      ((processRules_isOk_iff py loads event hcompiled).mpr (h.2 compiled hcompiled loads event))
  · intro h
    refine ⟨fun error => ?_, fun other hother loads event => ?_⟩
    · rw [hcompiled]
      exact nofun
    · obtain rfl := Except.ok.inj (hcompiled.symm.trans hother)
      exact (processRules_isOk_iff py loads event hcompiled).mp
        ((processRulesAsync_cons_iff py loads event pattern).mp (h loads event))

/-- A numeric condition behind one that holds for every number. -/
def lazyPattern : List (String × Json) :=
  [("a", .arr [.obj [("exists", .bool true)], .obj [("numeric", .arr [.str ">", .int 5])]])]

theorem harmless_lazyPattern : Harmless plainBuiltins (.obj lazyPattern) := by
  refine ⟨by decide, fun _ flats hflats field _ => ?_⟩
  cases hflats
  intro flat hflat entry hentry condition hcondition other hother
  obtain rfl := List.mem_singleton.mp hother.mem
  obtain rfl := List.mem_singleton.mp hflat.mem
  obtain rfl := List.mem_singleton.mp hentry.mem
  rcases (reaches_cons_iff _ _ _ _).mp hcondition with rfl | ⟨hgoes, hcondition⟩
  · rfl
  · obtain rfl := List.mem_singleton.mp hcondition.mem
    -- where there is a value, the first condition holds
    cases hfield : other (joinKey [] "a") with
    | none => rfl
    | some =>
      rw [holdsCondition, List.any_cons, hfield] at hgoes
      exact absurd hgoes Bool.false_ne_true

theorem neverFails_lazyPattern : NeverFails plainBuiltins (.obj lazyPattern) :=
  (neverFails_iff plainBuiltins (.obj lazyPattern)).1.mpr harmless_lazyPattern

/-- A number is not turned to lower case. -/
theorem ignored_case_raises : ¬NeverFails plainBuiltins
    (.obj [("a", .arr [.obj [("prefix", .obj [("equals-ignore-case", .str "x")])]])]) :=
  fun h => absurd (h.2 _ rfl (fun _ => none) (.body [("a", .int 1)])) (by decide +kernel)

end LocalEmu.Events
