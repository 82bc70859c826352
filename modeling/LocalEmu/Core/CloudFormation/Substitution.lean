import LocalEmu.Base.Replace
import LocalEmu.Core.CloudFormation.Preproc

/-!
# The String of `Fn::Sub`

When the values of the variables are known, the variables are replaced in the template one after
the other, each one wherever it is found at that time. What comes out is read as a number if it
can be, except for the ids of accounts.
-/

namespace LocalEmu.CloudFormation

open Iam (Json)

/-- How numbers are read, and the id of the account. `int` raises for digits that are no decimal
    ones. -/
structure Numerals where
  accountId : String
  isDigit : List Char → Bool
  int : List Char → Except Error Int
  -- The `repr` of what `float` yields, if it does not raise `ValueError`.
  float : List Char → Option String

def variablePart (name : String) : List Char := '$' :: '{' :: (name.toList ++ ['}'])

def variableText (builtins : Builtins) : Json → List Char
  | .str s => s.toList
  | value => (builtins.str value).toList

/-- The loop over the variables. -/
def replaceVariables (builtins : Builtins) (text : List Char) (values : List (String × Json)) :
    List Char :=
  values.foldl (fun text value =>
    Replace.replaceAll (variablePart value.1) (variableText builtins value.2) text) text

/-- The type reduction. -/
def reduceType (numerals : Numerals) (text : List Char) : Except Error Json :=
  if text = numerals.accountId.toList ∨
      (numerals.isDigit text = true ∧ text.length = numerals.accountId.toList.length) then
    .ok (.str (String.ofList text))
  else if numerals.isDigit text then (numerals.int text).map .int
  else
    match numerals.float text with
    | some x => .ok (.float x)
    | none => .ok (.str (String.ofList text))

/-- An environment whose function for the string of `Fn::Sub` is that of the source. -/
def Environment.withSubstitution (env : Environment) (numerals : Numerals) : Environment :=
  { env with builtins := { env.builtins with
      substitute := fun template values =>
        reduceType numerals (replaceVariables env.builtins template.toList values) } }

end LocalEmu.CloudFormation
