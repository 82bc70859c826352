import LocalEmu.Core.Events.RuleEngine
import LocalEmu.Theory.Patterns.Branches

/-!
# Event Patterns And Their Meaning

An accepted pattern has the shape that flattening needs: its leaves are lists, and
the alternatives of a `$or` are objects. So the evaluation of an accepted pattern on
an event is the meaning of the pattern, if it is clear, and if none of the tests that
it comes to raises: no branch writes different things at one key, and the event has
nothing at another path with this key.
-/

namespace LocalEmu.Events

open Iam (Json PyError)
open Patterns

variable {py : Builtins} {pattern event : List (String × Json)}

/-- An accepted pattern has the right shape. -/
theorem shaped_of_compile (h : (compileEventPattern py pattern).isOk = true) :
    shapedMembers pattern = true := by
  cases hresult : compileEventPattern py pattern with
  | error =>
    rw [hresult] at h
    cases h
  | ok =>
    rcases bind_eq_ok hresult with ⟨rules, hrules, -⟩
    exact shapedMembers_of_aggregate _ 1 1 _ hrules

/-- The pattern holds for the event: all members of its objects, some alternative of every `$or`,
    and of every list of conditions one condition, for what the event has at the path or for its
    absence, under some choice of an element of every list of the event. -/
def meaning (py : Builtins) (pattern event : List (String × Json)) : Bool :=
  holdsMembers (conditionsHold (evaluateCondition py) event) [] pattern

/-- The evaluation of an accepted pattern that is clear is its meaning just if none of the
    conditions raises that it comes to. -/
theorem evaluate_eq_meaning_iff (loads : String → Option Json)
    (haccepted : (compileEventPattern py pattern).isOk = true)
    (hevent : UniqueNames (.obj event)) (hclear : Clear pattern event) :
    evaluatePatternOnEvent py loads pattern (.body event) = .ok (meaning py pattern event) ↔
      ∀ flats, flattenPattern pattern = .ok flats →
        NoneRaises (evaluateCondition py) ((flattenPayload event flats).map Dict.get?) flats :=
  evaluateNestedPattern_iff (shaped_of_compile haccepted) hclear hevent

/-! ### A clear pattern and one that is not -/

/-- The numbers among the integers and truth values. -/
def asInt? : Json → Option Int
  | .int n => some n
  | .bool b => some (if b then 1 else 0)
  | _ => none

/-- The built-in functions on values without floating point numbers, lists and
    objects, and on ASCII text. -/
def plainBuiltins : Builtins where
  Number := Int
  str := fun _ => ""
  lower := fun text => String.ofList (text.toList.map Char.toLower)
  eq := fun a b =>
    match a, b with
    | .null, .null => true
    | .str s, .str t => s == t
    | a, b => (asInt? a).isSome && asInt? a == asInt? b
  le := fun a b => decide ((asInt? a).getD 0 ≤ (asInt? b).getD 0)
  float := fun value =>
    match asInt? value with
    | some n => .ok n
    | none => .error .valueError
  compare := fun m n => some (Ord.compare m n)
  isInt := fun text => text.toList.all Char.isDigit
  isNetwork := fun _ => true
  ipInNetwork := fun _ _ => none

/-- An instance that is running or stopped and is in a group that is not `b`. The second condition
    for the version would raise on a number. -/
def clearPattern : List (String × Json) :=
  [("source", .arr [.str "ec2"]),
    ("version", .arr [.int 5, .obj [("prefix", .obj [("equals-ignore-case", .str "x")])]]),
    ("detail", .obj [
      ("$or", .arr [
        .obj [("state", .arr [.obj [("prefix", .str "run")]])],
        .obj [("code", .arr [.obj [("numeric", .arr [.str ">", .int 1])]]),
          ("state", .arr [.obj [("exists", .bool false)]])]]),
      ("groups", .obj [("name", .arr [.obj [("anything-but", .str "b")]])])])]

def clearDetail : List (String × Json) :=
  [("code", .int 16),
    ("groups", .arr [.obj [("name", .str "b")], .obj [("name", .str "a"), ("tags", .arr [])]])]

def clearEvent : List (String × Json) :=
  [("source", .str "ec2"), ("version", .int 5), ("detail", .obj clearDetail)]

theorem uniqueNames_clearEvent : UniqueNames (.obj clearEvent) := by
  have hfirst : UniqueNames (.obj [("name", .str "b")]) :=
    .obj _ (by decide) (by simp [UniqueNames.str])
  have hsecond : UniqueNames (.obj [("name", .str "a"), ("tags", .arr [])]) :=
    .obj _ (by decide) (by simp [UniqueNames.str, UniqueNames.arr])
  have hdetail : UniqueNames (.obj clearDetail) := by
    refine .obj _ (by decide) ?_
    simp [clearDetail, UniqueNames.int, UniqueNames.arr, hfirst, hsecond]
  refine .obj _ (by decide) ?_
  simp [clearEvent, UniqueNames.str, UniqueNames.int, hdetail]

theorem clear_clearPattern : Clear clearPattern clearEvent where
  consistent := by
    have hnodup : ∀ branch ∈ branchesMembers [] clearPattern,
        (branch.map fun entry => joinPath entry.1).Nodup := by decide +kernel
    exact fun branch hbranch entry hentry other hother hkey =>
      List.inj_on_of_nodup_map (hnodup branch hbranch) hentry hother hkey
  own := by decide +kernel

theorem evaluate_eq_meaning_of_clearPattern :
    evaluatePatternOnEvent plainBuiltins (fun _ => none) clearPattern (.body clearEvent) =
        .ok (meaning plainBuiltins clearPattern clearEvent) ∧
      ∀ flats, flattenPattern clearPattern = .ok flats →
        NoneRaises (evaluateCondition plainBuiltins)
          ((flattenPayload clearEvent flats).map Dict.get?) flats := by
  have hresult : evaluatePatternOnEvent plainBuiltins (fun _ => none) clearPattern
      (.body clearEvent) = .ok (meaning plainBuiltins clearPattern clearEvent) := by
    decide +kernel
  exact ⟨hresult, (evaluate_eq_meaning_iff (fun _ => none) (by decide +kernel)
    uniqueNames_clearEvent clear_clearPattern).mp hresult⟩

/-- A member, and an alternative with the same path. -/
def overwritingPattern : List (String × Json) :=
  [("a", .arr [.int 1]), ("$or", .arr [.obj [("a", .arr [.int 2])], .obj [("b", .arr [.int 3])]])]

/-- The alternative takes the place of the member: an event with another value than
    the member allows is matched. -/
theorem evaluate_ne_meaning :
    (compileEventPattern plainBuiltins overwritingPattern).isOk = true ∧
      evaluatePatternOnEvent plainBuiltins (fun _ => none) overwritingPattern
        (.body [("a", .int 2)]) = .ok true ∧
      meaning plainBuiltins overwritingPattern [("a", .int 2)] = false := by
  refine ⟨by decide +kernel, by decide +kernel, by decide +kernel⟩

end LocalEmu.Events
