import LocalEmu.Base.Text

/-!
# The Parser of the Query Protocol

The parameters of a request are flat, and their keys are the paths of the values. For each
member that is not a scalar, the parser keeps the parameters whose keys start with the name
of the member, without the name and the character after it.

The elements of a list and the entries of a map are looked for one after the other, until
there is none.
-/

namespace LocalEmu.Protocol.Query

/-! ### Shapes and values -/

/-- What the parser reads of `serialization`. -/
structure Serialization where
  name : Option Text
  flattened : Bool

/-- A shape. The members of a structure have their names and whether they are required, and
    the keys of a map are strings. The shape of a scalar has its own name. -/
inductive Shape (K : Type)
  | scalar (serialization : Serialization) (shapeName : Text) (kind : K)
  | list (serialization : Serialization) (member : Shape K)
  | map (serialization key : Serialization) (value : Shape K)
  | struct (serialization : Serialization) (members : List (Text × Bool × Shape K))

variable {K V : Type}

def Shape.serialization : Shape K → Serialization
  | .scalar serialization _ _ => serialization
  | .list serialization _ => serialization
  | .map serialization _ _ => serialization
  | .struct serialization _ => serialization

/-- What is parsed. Structures and maps are dictionaries, and `null` stands for a required
    member that is not there. -/
inductive Value (V : Type)
  | null
  | scalar (x : V)
  | list (items : List (Value V))
  | dict (items : List (Text × Value V))

/-- The values of the scalar shapes of each kind, their texts, and what the handler of the
    kind makes of a text if it does not raise. -/
structure Scalars (K V : Type) where
  typeName : K → Text
  isOf : K → V → Prop
  text : K → V → Text
  parse : K → Text → Option V
  parse_text : ∀ kind x, isOf kind x → parse kind (text kind x) = some x

/-- `ProtocolParserError`, for a scalar that its handler raises on. -/
structure ParserError where
  shapeName : Text
  payload : Text
  typeName : Text

def ParserError.message (error : ParserError) : Text :=
  "Invalid type when parsing ".toList ++ error.shapeName ++ ": '".toList ++ error.payload ++
    "' cannot be parsed to ".toList ++ error.typeName ++ ".".toList

/-! ### Nodes -/

/-- A dictionary of parameters. Of two items with one key the later one counts. -/
abbrev Node := List (Text × Text)

def Node.get (node : Node) (key : Text) : Option Text :=
  (node.reverse.find? fun item => item.1 == key).map Prod.snd

/-- What is left of an item whose key starts with a name. -/
def stripName (name : Text) (item : Text × Text) : Option (Text × Text) :=
  if name.isPrefixOf item.1 then some (item.1.drop (name.length + 1), item.2) else none

def under (name : Text) (node : Node) : Node := node.filterMap (stripName name)

def filterNode (name : Text) (node : Node) : Option Node :=
  if (under name node).isEmpty then none else some (under name node)

/-- What is parsed for a shape: a text for a scalar, and a node for all others. -/
inductive Payload
  | text (t : Text)
  | node (n : Node)

/-- The `sub_node` in `_process_member`. -/
def subNode (shape : Shape K) (name : Text) (node : Node) : Option Payload :=
  match shape with
  | .scalar _ _ _ => (node.get name).map .text
  | _ => (filterNode name node).map .node

/-- `_process_member`, with how the shape of the member is parsed. -/
def processMember (parse : Payload → Except ParserError (Option (Value V))) (shape : Shape K)
    (name : Text) (node : Node) : Except ParserError (Option (Value V)) :=
  match subNode shape name node with
  | none => .ok none
  | some payload => parse payload

/-! ### Names -/

variable (serialization : Serialization)

def getSerializedName (defaultName : Text) : Text :=
  serialization.name.getD defaultName

/-- The `member_name` in `_parse_structure`. That of a flattened list is the name of its
    elements. -/
def memberName (member : Text) : Shape K → Text
  | .list serialization element =>
    if serialization.flattened then getSerializedName element.serialization member
    else getSerializedName serialization member
  | shape => getSerializedName shape.serialization member

def getListKeyPrefix (element : Shape K) : Text :=
  if serialization.flattened then []
  else getSerializedName element.serialization "member".toList ++ ['.']

def position (i : ℕ) : Text := Nat.toDigits 10 i

/-- The `key_name` in `_parse_list`. -/
def elementName (element : Shape K) (i : ℕ) : Text :=
  getListKeyPrefix serialization element ++ position i

/-- What is before the names of the key and the value of an entry in `_parse_map`. -/
def entryPrefix (i : ℕ) : Text :=
  (if serialization.flattened then [] else "entry.".toList) ++ position i ++ ['.']

/-- The `key_name` in `_parse_map`. -/
def keyName (key : Serialization) (i : ℕ) : Text :=
  entryPrefix serialization i ++ getSerializedName key "key".toList

/-- The `value_name` in `_parse_map`. -/
def valueName (value : Shape K) (i : ℕ) : Text :=
  entryPrefix serialization i ++ getSerializedName value.serialization "value".toList

/-! ### Parsing -/

/-- A loop that counts from a number and ends with the first position where there is nothing. -/
def collect {α : Type} (find : ℕ → Except ParserError (Option α)) :
    ℕ → ℕ → Except ParserError (List α)
  | 0, _ => .ok []
  | fuel + 1, i =>
    match find i with
    | .error e => .error e
    | .ok none => .ok []
    | .ok (some x) => (collect find fuel (i + 1)).map (x :: ·)

/-- A number of positions of which one has nothing, since each must be that of a beginning of
    a key. -/
def bound (node : Node) : ℕ := (node.flatMap fun item => item.1.inits).length + 1

/-- `result[k] = v`. -/
def setItem (items : List (Text × Value V)) (item : Text × Value V) : List (Text × Value V) :=
  if items.any fun other => other.1 == item.1 then
    items.map fun other => if other.1 == item.1 then item else other
  else items ++ [item]

/-- `result if len(result) > 0 else None`. -/
def unlessEmpty {α : Type} (result : List α) (make : List α → Value V) : Option (Value V) :=
  if result.isEmpty then none else some (make result)

/-- The entry at a position of a map, from its key and from its value. -/
def entryOf (key : Option Text) (value : Option (Value V)) : Option (Text × Value V) :=
  match key, value with
  | some k, some v => some (k, v)
  | _, _ => none

mutual

def parseShape (scalars : Scalars K V) :
    Shape K → Payload → Except ParserError (Option (Value V))
  | .scalar _ shapeName kind, .text t =>
    match scalars.parse kind t with
    | some x => .ok (some (.scalar x))
    | none => .error ⟨shapeName, t, scalars.typeName kind⟩
  | .list serialization element, .node node =>
    (collect (fun i =>
      processMember (parseShape scalars element) element (elementName serialization element i)
        node) (bound node) 1).map (unlessEmpty · .list)
  | .map serialization key value, .node node =>
    (collect (fun i =>
      (processMember (parseShape scalars value) value (valueName serialization value i)
        node).map (entryOf (node.get (keyName serialization key i)))) (bound node) 1).map
      fun entries => unlessEmpty (entries.foldl setItem []) .dict
  | .struct _ members, .node node =>
    (parseMembers scalars members node).map (unlessEmpty · .dict)
  | _, _ => .ok none

/-- `_parse_structure`. -/
def parseMembers (scalars : Scalars K V) :
    List (Text × Bool × Shape K) → Node → Except ParserError (List (Text × Value V))
  | [], _ => .ok []
  | (member, required, shape) :: members, node =>
    match processMember (parseShape scalars shape) shape (memberName member shape) node with
    | .error e => .error e
    | .ok value =>
      (parseMembers scalars members node).map fun result =>
        match value with
        | some v => (member, v) :: result
        | none => if required then (member, .null) :: result else result

end

/-- The parameters of a request to an operation with these members, as `parse` returns them. -/
def parseInput (scalars : Scalars K V) (members : List (Text × Bool × Shape K)) (node : Node) :
    Except ParserError (List (Text × Value V)) := parseMembers scalars members node

end LocalEmu.Protocol.Query
