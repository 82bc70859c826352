import LocalEmu.Base.Dict
import LocalEmu.Base.Text
import LocalEmu.Core.Iam.Json

/-!
# Flattening Patterns And Payloads

Event patterns and filter policies are nested JSON objects whose leaves are lists
of conditions. Before a pattern is compared with a payload, both are flattened to
lists of dictionaries whose keys are the names on the way to a leaf, joined with
dots: a pattern has one dictionary for every way to choose an alternative of every
`$or`, a payload one for every way to choose an element of every list.

The event rule engine and the filter of subscriptions have the same two functions
for this, line by line, so they are here once.
-/

namespace LocalEmu.Patterns

open Iam (Json PyError)

abbrev Flat := Dict Text Json

/-- `_parent_key`: a name below a path. That there is no path yet is told from the
    path being false, so the empty text stands for `None` too. -/
def joinKey (parentKey : Text) (key : String) : Text :=
  if parentKey = [] then key.toList else parentKey ++ '.' :: key.toList

/-! ### Patterns -/

mutual

/-- One turn of the loop of `_traverse_event_pattern`. -/
def traverseMember (parentKey : Text) (key : String) :
    Json → List Flat → Except PyError (List Flat)
  | .obj members, array => traverseMembers (joinKey parentKey key) members array
  | .arr items, array =>
    -- Only a list of two or more is a choice.
    if key = "$or" ∧ 1 < items.length then traverseAlternatives parentKey items array
    else .ok (array.map fun item => item.set (joinKey parentKey key) (.arr items))
  | values, array => .ok (array.map fun item => item.set (joinKey parentKey key) values)

/-- The loop of `_traverse_event_pattern`. -/
def traverseMembers (parentKey : Text) :
    List (String × Json) → List Flat → Except PyError (List Flat)
  | [], array => .ok array
  | (key, values) :: members, array =>
    (traverseMember parentKey key values array).bind (traverseMembers parentKey members)

/-- The branches of the alternatives of a `$or`, one alternative after another. -/
def traverseAlternatives (parentKey : Text) : List Json → List Flat → Except PyError (List Flat)
  | [], _ => .ok []
  | value :: values, array =>
    (traverseAlternative parentKey value array).bind fun first =>
      (traverseAlternatives parentKey values array).map (first ++ ·)

/-- One alternative of a `$or`. -/
def traverseAlternative (parentKey : Text) : Json → List Flat → Except PyError (List Flat)
  | .obj members, array => traverseMembers parentKey members array
  | _, _ => .error .attributeError

end

/-- The dictionaries of a pattern. -/
def flattenPattern (pattern : List (String × Json)) : Except PyError (List Flat) :=
  traverseMembers [] pattern [Dict.empty]

/-! ### Payloads -/

mutual

def traverse (relevant : Text → Bool) (parentKey : Text) : Json → List Flat → List Flat
  | .obj members, array => traverseObject relevant parentKey members array
  | .arr [], array => array
  | .arr (value :: values), array => traverseList relevant parentKey (value :: values) array
  | value, array => array.map fun item => item.set parentKey value

def traverseObject (relevant : Text → Bool) (parentKey : Text) :
    List (String × Json) → List Flat → List Flat
  | [], array => array
  | (key, values) :: members, array =>
    let next :=
      if relevant (joinKey parentKey key) then
        traverse relevant (joinKey parentKey key) values array
      else array
    traverseObject relevant parentKey members next

def traverseList (relevant : Text → Bool) (parentKey : Text) : List Json → List Flat → List Flat
  | [], _ => []
  | value :: values, array =>
    traverse relevant parentKey value array ++ traverseList relevant parentKey values array

end

def isKeyInPatterns (patterns : List Flat) (key : Text) : Bool :=
  patterns.any fun pattern => pattern.keys.any fun patternKey => key.isPrefixOf patternKey

/-- The dictionaries of a payload. -/
def flattenPayload (payload : List (String × Json)) (patterns : List Flat) : List Flat :=
  traverseObject (isKeyInPatterns patterns) [] payload [Dict.empty]

/-! ### Comparing them -/

variable (evaluate : Option Json → Json → Except PyError Bool)

/-- For an entry of a dictionary of the pattern, some condition is met by what some
    dictionary of the payload has at the key. -/
def evaluateEntry (flatPayloads : List Flat) (entry : Text × Json) : Except PyError Bool :=
  entry.2.iter.bind fun conditions =>
    conditions.anyM fun condition =>
      flatPayloads.anyM fun flatPayload => evaluate (flatPayload.get? entry.1) condition

/-- Whether some dictionary of the pattern is met. -/
def evaluateFlat (flatPatterns flatPayloads : List Flat) : Except PyError Bool :=
  flatPatterns.anyM fun flatPattern =>
    flatPattern.entries.allM (evaluateEntry evaluate flatPayloads)

/-- `_evaluate_nested_event_pattern_on_dict`. -/
def evaluateNestedPattern (pattern payload : List (String × Json)) : Except PyError Bool :=
  if pattern.isEmpty then .ok true
  else
    (flattenPattern pattern).bind fun flatPatterns =>
      evaluateFlat evaluate flatPatterns (flattenPayload payload flatPatterns)

end LocalEmu.Patterns
