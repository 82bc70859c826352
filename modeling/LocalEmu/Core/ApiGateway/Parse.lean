import LocalEmu.Base.Dict
import LocalEmu.Base.Url

/-!
# The Invocation Request

What a REST API makes of a request: its parameters and headers, and the path of the resource.
That is what is left of the request target without its prefix, of which there are three kinds,
and without the query string.
-/

namespace LocalEmu.ApiGateway

abbrev Bytes := List UInt8

/-! ### Requests -/

abbrev Headers := List (Text × Text)

/-- A request, as far as it is parsed: `RAW_URI` of its environment, and the decoded path. -/
structure Request where
  method : Text
  rawUri : Option Text
  path : Text
  args : List (Text × Text)
  headers : Headers
  body : Bytes

/-- `RestApiInvocationContext`, as far as parsing reads it. -/
structure RestApiInvocationContext where
  apiId : Text
  stage : Text

structure InvocationRequest where
  httpMethod : Text
  rawPath : Text
  path : Text
  pathParameters : Dict Text Text
  queryStringParameters : Dict Text Text
  headers : Headers
  multiValueQueryStringParameters : Dict Text (List Text)
  body : Bytes

/-! ### Parameters and headers -/

/-- A character that stands for itself in a regular expression. -/
def isLiteral (c : Char) : Bool := decide (c ∉ "\\.^$*+?[]|()".toList) && c != '\x7b' && c != '\x7d'

/-- A text is taken away from the front of another, in any case of its letters. -/
def dropFront (front text : Text) : Text :=
  if (text.take front.length).map Char.toLower = front.map Char.toLower then
    text.drop front.length
  else text

/-- What parsing uses of the standard library: `re.sub(pattern, "", text, flags=re.IGNORECASE)`,
    and the checks of the authority of a URL. -/
structure Library where
  sub : Text → Text → Text
  netlocOk : Text → Bool
  -- A literal after `^` is taken away from the front.
  sub_literal : ∀ literal text : Text, literal.all isLiteral = true →
    text.all (fun c => decide (c.toNat < 128)) = true →
    sub ('^' :: literal) text = dropFront literal text

variable (library : Library)

def userRequest : Text := "_user_request_".toList

def executeApi : Text := "/_aws/execute-api".toList

variable (context : RestApiInvocationContext)

end LocalEmu.ApiGateway
