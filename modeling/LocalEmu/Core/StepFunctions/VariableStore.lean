import LocalEmu.Base.Dict
import LocalEmu.Base.JsonText
import LocalEmu.Base.Run

/-!
# Variables Of Workflows

A store of variables has an outer and an inner scope. Variables are assigned in the inner
scope, and those of the outer scope may only be read. The store of an inner frame starts
with a copy of all that is visible in the store it is opened in, and a frame that is no
inner one has the store of its environment.

The declarations of all variables are kept as a text once they were asked for, and so are
those of the outer scope alone.
-/

namespace LocalEmu.StepFunctions

variable {V : Type}

structure NoSuchVariable where
  variableIdentifier : Text

/-- The message of `NoSuchVariable`. -/
def NoSuchVariable.message (error : NoSuchVariable) : Text :=
  "No such variable '".toList ++ error.variableIdentifier ++ "' in scope".toList

structure IllegalOuterScopeWrite (V : Type) where
  variableIdentifier : Text
  variableValue : V

/-- The message of `IllegalOuterScopeWrite`, from the text of the value. -/
def IllegalOuterScopeWrite.message (error : IllegalOuterScopeWrite V) (str : V → Text) : Text :=
  "Cannot bind value '".toList ++ str error.variableValue ++ "' to variable '".toList ++
    error.variableIdentifier ++ "' as it belongs to an outer scope.".toList

/-- The literal of a value in `get_assigned_variables` and in
    `encode_jsonata_variable_declarations`: strings are put between quotation marks, and all
    other values are left to `to_json_str`. -/
def valueLiteral {F : Type} (floats : JsonText.Floats F) : JsonValue F → Text
  | .str s => '"' :: s ++ ['"']
  | v => JsonText.encode floats v

/-- One part of `encode_jsonata_variable_declarations`, from the literal of the value. -/
def encodeDeclaration (literal : V → Text) (binding : Text × V) : Text :=
  binding.1 ++ ":=".toList ++ literal binding.2 ++ ";".toList

def encodeJsonataVariableDeclarations (literal : V → Text) (bindings : List (Text × V)) : Text :=
  bindings.flatMap (encodeDeclaration literal)

/-- A store with its scopes and its caches. -/
structure VariableStore (V : Type) where
  outerScope : Dict Text V
  innerScope : Dict Text V
  declarationTracing : List Text
  outerVariableDeclarationCache : Option Text
  variableDeclarationsCache : Option Text

namespace VariableStore

def empty : VariableStore V := ⟨.empty, .empty, [], none, none⟩

def asInnerScopeOf (outer : VariableStore V) : VariableStore V :=
  { empty with outerScope := (Dict.empty.update outer.outerScope).update outer.innerScope }

variable (literal : V → Text) (store : VariableStore V)

def resetTracing : VariableStore V :=
  { store with declarationTracing := [] }

def get (variableIdentifier : Text) : Except NoSuchVariable V :=
  match store.innerScope.get? variableIdentifier with
  | some value => .ok value
  | none =>
    match store.outerScope.get? variableIdentifier with
    | some value => .ok value
    | none => .error ⟨variableIdentifier⟩

def set (variableIdentifier : Text) (variableValue : V) :
    Except (IllegalOuterScopeWrite V) (VariableStore V) :=
  if variableIdentifier ∈ store.outerScope.keys then .error ⟨variableIdentifier, variableValue⟩
  else
    .ok { store with
      declarationTracing :=
        if variableIdentifier ∈ store.declarationTracing then store.declarationTracing
        else store.declarationTracing ++ [variableIdentifier]
      innerScope := store.innerScope.set variableIdentifier variableValue
      variableDeclarationsCache := none }

/-- `VariableStore(values)`. In an empty store no assignment is refused. -/
def new (values : List (Text × V)) : VariableStore V :=
  values.foldl (fun store entry =>
    match store.set entry.1 entry.2 with
    | .ok store => store
    | .error _ => store) empty

/-- `get_assigned_variables`, as the entries of the dictionary. -/
def getAssignedVariables : Except NoSuchVariable (List (Text × Text)) :=
  store.declarationTracing.mapM fun identifier =>
    (store.get identifier).map fun value => (identifier, literal value)

def toVariableDeclarations (bindings : Dict Text V) : Text :=
  encodeJsonataVariableDeclarations literal
    (bindings.entries.map fun entry => ('$' :: entry.1, entry.2))

/-- The declarations of the outer scope, from the cache if it has them. -/
def outerDeclarations : Text :=
  store.outerVariableDeclarationCache.getD (toVariableDeclarations literal store.outerScope)

/-- `get_variable_declarations`, with the store and its caches afterwards. -/
def getVariableDeclarations : Text × VariableStore V :=
  match store.variableDeclarationsCache with
  | some declarations => (declarations, store)
  | none =>
    let outer := store.outerDeclarations literal
    let declarations := outer ++ toVariableDeclarations literal store.innerScope
    (declarations, { store with
      outerVariableDeclarationCache := some outer
      variableDeclarationsCache := some declarations })

end VariableStore

/-- The environments of an execution, by their numbers, each with the number of its store,
    and the stores. -/
structure Scopes (V : Type) where
  envs : List Nat
  stores : List (VariableStore V)

/-- What happens. An assignment comes with whether it raises. -/
inductive ScopeAction (V : Type)
  | openFrame (env : Nat)
  | openInnerFrame (env : Nat)
  | assign (env : Nat) (variableIdentifier : Text) (variableValue : V) (raises : Bool)
  | declarations (env : Nat)
  | resetTracing (env : Nat)

namespace Scopes

/-- The environment of an execution whose store has some variables. -/
def initial (values : List (Text × V)) : Scopes V := ⟨[0], [.new values]⟩

variable (w : Scopes V) (env : Nat)

/-- The store of an environment, with its number. -/
def storeOf : Option (Nat × VariableStore V) :=
  (w.envs[env]?).bind fun number => (w.stores[number]?).map fun store => (number, store)

def replace (number : Nat) (store : VariableStore V) : Scopes V :=
  { w with stores := w.stores.set number store }

/-- `open_frame`: the frame has the same store. -/
def openFrame : Option (Scopes V) :=
  (w.storeOf env).map fun entry => { w with envs := w.envs ++ [entry.1] }

/-- `open_inner_frame`: the frame has a store of its own. -/
def openInnerFrame : Option (Scopes V) :=
  (w.storeOf env).map fun entry =>
    { envs := w.envs ++ [w.stores.length], stores := w.stores ++ [entry.2.asInnerScopeOf] }

/-- An assignment in an environment, and whether it raises. -/
def assign (variableIdentifier : Text) (variableValue : V) : Option (Bool × Scopes V) :=
  (w.storeOf env).map fun entry =>
    match entry.2.set variableIdentifier variableValue with
    | .error _ => (true, w)
    | .ok store => (false, w.replace entry.1 store)

/-- One step. -/
def step (literal : V → Text) (w : Scopes V) : ScopeAction V → Option (Scopes V)
  | .openFrame env => w.openFrame env
  | .openInnerFrame env => w.openInnerFrame env
  | .assign env variableIdentifier variableValue raises =>
    (w.assign env variableIdentifier variableValue).bind fun result =>
      if result.1 = raises then some result.2 else none
  | .declarations env =>
    (w.storeOf env).map fun entry => w.replace entry.1 (entry.2.getVariableDeclarations literal).2
  | .resetTracing env => (w.storeOf env).map fun entry => w.replace entry.1 entry.2.resetTracing

end Scopes

end LocalEmu.StepFunctions
