import Mathlib.Data.Rat.Floor
import LocalEmu.Base.JsonText

/-!
# Array Intrinsics

`States.ArrayUnique`, `States.ArrayContains` and `States.ArrayPartition` leave their work to
dictionaries, to `in` and to slices.

Values are compared as the language compares them, where booleans are numbers. Numbers are
compared by the exact value they have, which for the floating-point numbers is a parameter.
Arrays and objects cannot be the keys of a dictionary.
-/

namespace LocalEmu.StepFunctions

variable {F : Type}

/-! ### Equality -/

/-- What a scalar value is compared by. -/
inductive ScalarKey
  | null
  | bool (b : Bool)
  | number (q : ℚ)
  | text (s : Text)
  deriving DecidableEq

def findMember (k : Text) : List (Text × JsonValue F) → Option (JsonValue F)
  | [] => none
  | (k', v) :: ms => if k' = k then some v else findMember k ms

mutual

/-- Whether values are equal, where the scalar ones are compared by their keys. -/
def equalBy (key : JsonValue F → Option ScalarKey) : JsonValue F → JsonValue F → Bool
  | .arr xs, .arr ys => equalItems key xs ys
  | .obj ms, .obj ns => ms.length == ns.length && equalMembers key ms ns
  | v, w => (key v).isSome && key v == key w

def equalItems (key : JsonValue F → Option ScalarKey) :
    List (JsonValue F) → List (JsonValue F) → Bool
  | [], [] => true
  | v :: vs, w :: ws => equalBy key v w && equalItems key vs ws
  | _, _ => false

/-- Whether the second list has an equal member for each of the first one. -/
def equalMembers (key : JsonValue F → Option ScalarKey) :
    List (Text × JsonValue F) → List (Text × JsonValue F) → Bool
  | [], _ => true
  | (k, v) :: ms, ns =>
    (match findMember k ns with
      | some w => equalBy key v w
      | none => false) && equalMembers key ms ns

end

variable (value : F → ℚ)

/-- The key of a scalar value in the language, where `True` is `1` and `False` is `0`. -/
def pyKey : JsonValue F → Option ScalarKey
  | .null => some .null
  | .bool b => some (.number b.toNat)
  | .int n => some (.number n)
  | .float x => some (.number (value x))
  | .str s => some (.text s)
  | .arr _ => none
  | .obj _ => none

/-- `==`. -/
def pyEq : JsonValue F → JsonValue F → Bool := equalBy (pyKey value)

/-! ### Intrinsics -/

/-- The errors of the intrinsics, with the values they name. -/
inductive ArrayError (F : Type)
  | expectedArray (v : JsonValue F)
  | expectedArrayFirst (v : JsonValue F)
  | expectedInteger (v : JsonValue F)
  | expectedPositive (n : ℤ)
  | unhashable (v : JsonValue F)
  | zeroStep

/-- The message of an error, from the text of a value and from the name of its type. -/
def ArrayError.message (str typeName : JsonValue F → Text) : ArrayError F → Text
  | .expectedArray v => "Expected an array type, but got '".toList ++ str v ++ "'.".toList
  | .expectedArrayFirst v =>
    "Expected an array type as first argument, but got ".toList ++ str v ++ ".".toList
  | .expectedInteger v =>
    "Expected an integer value as chunk_size, but got ".toList ++ str v ++ ".".toList
  | .expectedPositive n =>
    "Expected a non-zero, positive integer as chuck_size, but got ".toList ++
      JsonText.intText n ++ ".".toList
  | .unhashable v => "unhashable type: '".toList ++ typeName v ++ "'".toList
  | .zeroStep => "range() arg 3 must not be zero".toList

/-- A value is added to the keys of an ordered dictionary. Lists and dictionaries have no hash. -/
def addKey (keys : List (JsonValue F)) (v : JsonValue F) :
    Except (ArrayError F) (List (JsonValue F)) :=
  match v with
  | .arr _ => .error (.unhashable v)
  | .obj _ => .error (.unhashable v)
  | _ => .ok (if keys.any (pyEq value v) then keys else keys ++ [v])

def fromkeys (array : List (JsonValue F)) : Except (ArrayError F) (List (JsonValue F)) :=
  array.foldlM (addKey value) []

/-- `ArrayUnique._eval_body`. -/
def arrayUnique : JsonValue F → Except (ArrayError F) (JsonValue F)
  | .arr array => (fromkeys value array).map .arr
  | v => .error (.expectedArray v)

/-- `ArrayContains._eval_body`. -/
def arrayContains (array v : JsonValue F) : Except (ArrayError F) (JsonValue F) :=
  match array with
  | .arr items => .ok (.bool (items.any (pyEq value · v)))
  | other => .error (.expectedArrayFirst other)

/-- `round` of a number: the nearest integer, and the even one of two. -/
def roundHalfEven (q : ℚ) : ℤ :=
  if q - ⌊q⌋ < 1 / 2 then ⌊q⌋
  else if 1 / 2 < q - ⌊q⌋ then ⌊q⌋ + 1
  else if ⌊q⌋ % 2 = 0 then ⌊q⌋
  else ⌊q⌋ + 1

/-- `round` of what is an `int` or a `float`. -/
def roundNumber : JsonValue F → Option ℤ
  | .bool b => some b.toNat
  | .int n => some n
  | .float x => some (roundHalfEven (value x))
  | _ => none

/-- `_to_chunks` with a step that is not zero. -/
def toChunks {α : Type} (array : List α) (chunkSize : ℕ) : List (List α) :=
  (List.range' 0 ((array.length + chunkSize - 1) / chunkSize) chunkSize).map fun i =>
    (array.drop i).take chunkSize

/-- `ArrayPartition._eval_body`. -/
def arrayPartition (array chunkSize : JsonValue F) : Except (ArrayError F) (JsonValue F) :=
  match roundNumber value chunkSize with
  | none => .error (.expectedInteger chunkSize)
  | some n =>
    if n < 0 then .error (.expectedPositive n)
    else
      match array with
      | .arr items =>
        if n = 0 then .error .zeroStep
        else .ok (.arr ((toChunks items n.toNat).map .arr))
      | other => .error (.expectedArrayFirst other)

end LocalEmu.StepFunctions
