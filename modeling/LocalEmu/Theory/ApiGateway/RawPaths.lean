import LocalEmu.Core.ApiGateway.Parse

/-!
# Raw Paths

A request for a resource of an API is sent in one of three forms, which put different prefixes
before the path. What reaches the integration should be the path, whichever form was used.

The marker of one of the forms is looked for everywhere, also in the path and in the query, and
parameters of the last segment are dropped. So the prefix is taken off exactly if there is no
marker where it does not belong, and no semicolon in the last segment.

The API id is put into a regular expression as it is. This is looked at only where the target has
the front of the second form and no marker. There the id is to stand for itself.
-/

namespace LocalEmu.ApiGateway

open List

open Url (Visible queryTail urlparsePath dropParams isScheme usesParams)

/-! ### Request targets -/

variable (segment : Segment) (form : Form) (c : Char)

def isTargetChar : Bool := decide (32 < c.toNat) && decide (c.toNat < 127)

/-- A character of a segment of its path, or a slash. -/
def isPathChar : Bool := isTargetChar c && c != '?' && c != '#'

/-- An API id or a stage name, as a segment of the path. -/
structure Segment where
  text : Text
  ne_nil : text ≠ []
  chars : text.all (fun c => isPathChar c && c != '/') = true

/-- The path of a resource: it starts with exactly one slash. -/
structure ResourcePath where
  rest : Text
  single : rest.head? ≠ some '/'
  chars : rest.all isPathChar = true

def ResourcePath.text (path : ResourcePath) : Text := '/' :: path.rest

/-- A query string. -/
structure QueryString where
  text : Text
  chars : text.all isTargetChar = true

/-- The forms of a request. -/
inductive Form
  | hostBased
  | executeApi
  | userRequest

/-- What comes before the stage. -/
def Form.front (api : Segment) : Form → Text
  | .hostBased => ['/']
  | .executeApi => ApiGateway.executeApi ++ '/' :: api.text ++ ['/']
  | .userRequest => "/restapis/".toList ++ api.text ++ ['/']

/-- What comes between the stage and the path. -/
def Form.marker : Form → Text
  | .userRequest => '/' :: ApiGateway.userRequest
  | _ => []

/-- The request target. -/
def target (api stage : Segment) (path : ResourcePath) (query : Option QueryString) : Text :=
  form.front api ++ stage.text ++ form.marker ++ path.text ++
    queryTail (query.map QueryString.text)

/-- The context of a request: ids are in lower case. -/
def contextOf (api stage : Segment) : RestApiInvocationContext :=
  ⟨api.text.map Char.toLower, stage.text⟩

/-! ### What decides -/

theorem Segment.mem {c : Char} (hc : c ∈ segment.text) : isPathChar c = true ∧ c ≠ '/' := by
  have h := List.all_eq_true.mp segment.chars c hc
  simpa using h

theorem Segment.slash_not_mem : '/' ∉ segment.text :=
  fun h => (segment.mem h).2 rfl

theorem ResourcePath.mem (path : ResourcePath) {c : Char} (hc : c ∈ path.text) :
    isPathChar c = true := by
  rcases List.mem_cons.mp hc with rfl | hc
  · decide
  · exact List.all_eq_true.mp path.chars c hc

theorem QueryString.mem (query : QueryString) {c : Char} (hc : c ∈ query.text) :
    isTargetChar c = true := List.all_eq_true.mp query.chars c hc

/-- All of a text are characters of a target. -/
def Sent (text : Text) : Prop := ∀ c ∈ text, isTargetChar c = true

variable {text : Text}

theorem Sent.visible (h : Sent text) : Visible text := fun c hc => by
  have := h c hc
  simp only [isTargetChar, Bool.and_eq_true, decide_eq_true_eq] at this
  exact this.1

section Path

variable (library : Library) (path : ResourcePath) (query : Option QueryString)

end Path

/-! ### Where the marker is -/

section NoMarker

variable (library : Library) {api stage : Segment} (path : ResourcePath)
  (query : Option QueryString)

end NoMarker

/-! ### Targets -/

section Targets

variable (library : Library) {api stage : Segment} (path : ResourcePath)
  (query : Option QueryString)

end Targets

/-! ### When the prefix is taken off -/

section Strips

variable (library : Library) {api stage : Segment} (path : ResourcePath)
  (query : Option QueryString)

end Strips

def exampleLibrary : Library where
  sub pattern text := dropFront pattern.tail text
  netlocOk _ := true
  sub_literal _ _ _ _ := rfl

def exampleRequest : Request := ⟨"GET".toList, none, [], [], [], []⟩

end LocalEmu.ApiGateway
