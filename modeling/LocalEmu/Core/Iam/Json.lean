import Mathlib.Data.List.Infix

/-!
# JSON Values

Policy documents are parsed JSON, and nothing has checked their shape when
they are evaluated. So the values below keep every shape, and the operations
on them are those of the dynamically typed code: a wrong shape raises, and
what it raises decides who catches it.

Numbers are integers or floating point numbers; the latter are known by their
`repr`. Text operations that depend on Unicode tables, on dates or on floating
point arithmetic are a parameter, `Builtins`.
-/

namespace LocalEmu.Iam

/-- A JSON value. -/
inductive Json
  | null
  | bool (b : Bool)
  | int (n : Int)
  -- The `repr` of a floating point number.
  | float (repr : String)
  | str (s : String)
  | arr (items : List Json)
  | obj (members : List (String × Json))

/-- The exceptions the evaluation can raise. -/
inductive PyError
  | typeError
  | valueError
  | attributeError
  | indexError
  | overflowError
  deriving DecidableEq

namespace Json

/-- `bool(value)`. -/
def truthy : Json → Bool
  | null => false
  | bool b => b
  | int n => n != 0
  | float repr => repr != "0.0" && repr != "-0.0"
  | str s => s != ""
  | arr items => !items.isEmpty
  | obj members => !members.isEmpty

/-- `value == text`. -/
def isStr (value : Json) (text : String) : Bool :=
  match value with
  | str s => s == text
  | _ => false

/-- `value.get(key, default)` of a dictionary. -/
def get (value : Json) (key : String) (default : Json) : Json :=
  match value with
  | obj members => (members.lookup key).getD default
  | _ => default

/-- `iter(value)`: the elements of a list, the keys of a dictionary, the characters of a text. -/
def iter : Json → Except PyError (List Json)
  | arr items => .ok items
  | obj members => .ok (members.map fun m => str m.1)
  | str s => .ok (s.toList.map fun c => str (String.singleton c))
  | _ => .error .typeError

def items : Json → Except PyError (List (String × Json))
  | obj members => .ok members
  | _ => .error .attributeError

/-- A text alone stands for the list with this text. -/
def listify : Json → Json
  | str s => arr [str s]
  | value => value

/-- A text, or the error of calling a text method on something else. -/
def asStr : Json → Except PyError String
  | str s => .ok s
  | _ => .error .attributeError

/-- `isinstance(value, dict)`. -/
def isObj : Json → Bool
  | obj _ => true
  | _ => false

end Json

/-- A point in time that `datetime.strptime` returns, with or without a time zone. -/
structure Datetime where
  seconds : Int
  aware : Bool

/-- Built-in functions of Python. -/
structure Builtins where
  /-- `str(value)`. -/
  str : Json → String
  /-- `text.lower()`. -/
  lower : String → String
  /-- `fnmatch.fnmatch(name, pattern)`. -/
  fnmatch : String → String → Bool
  /-- How `float(a)` and `float(b)` compare; `none` if one is not a number. -/
  compareFloat : Json → Json → Except PyError (Option Ordering)
  /-- `datetime.strptime(value, format)`. -/
  strptime : Json → String → Except PyError Datetime
  /-- `ip_address(ip) in ip_network(cidr, strict=False)`; `none` for a `ValueError`. -/
  ipInNetwork : String → String → Option Bool

/-- `part in text`. -/
def hasPart (part text : String) : Bool := decide (part.toList <:+: text.toList)

/-- `text.endswith(suffix)`. -/
def endsWith (text suffix : String) : Bool := decide (suffix.toList <:+ text.toList)

/-- `text[len(head):]` if `text.startswith(head)`. -/
def dropHead? (text head : String) : Option String :=
  if head.toList <+: text.toList then some (String.ofList (text.toList.drop head.toList.length))
  else none

/-- The loop of `text.replace(part, new)`, from left to right. The first
    argument bounds the length of the text. -/
def replaceAll (part new : List Char) : Nat → List Char → List Char
  | 0, text => text
  | _ + 1, [] => []
  | n + 1, c :: rest =>
    if part <+: c :: rest then new ++ replaceAll part new n ((c :: rest).drop part.length)
    else c :: replaceAll part new n rest

/-- `text.replace(part, new)`, for a part that is not empty. -/
def replaceText (text part new : String) : String :=
  String.ofList (replaceAll part.toList new.toList text.toList.length text.toList)

/-- `text.split(":")`. -/
def splitColons (text : String) : List String := (text.toList.splitOn ':').map String.ofList

end LocalEmu.Iam
