import Mathlib.Data.List.DropRight
import LocalEmu.Base.Dict
import LocalEmu.Base.Text

/-!
# Sticky Cookies

A load balancer that has sent a request to a target gives the client a cookie, and sends the
requests that bring it back to the same target, for as long as the cookie lives. The cookie is
an opaque id, and a store remembers which target it stands for.

Times are in microseconds.
-/

namespace LocalEmu.Elbv2

/-! ### Texts of headers -/

/-- The characters that `str.strip` takes away. -/
def isSpace (c : Char) : Bool :=
  let n := c.toNat
  (9 ≤ n && n ≤ 13) || (28 ≤ n && n ≤ 32) || n == 0x85 || n == 0xA0 || n == 0x1680 ||
    (0x2000 ≤ n && n ≤ 0x200A) || n == 0x2028 || n == 0x2029 || n == 0x202F || n == 0x205F ||
    n == 0x3000

def strip (text : Text) : Text := (text.dropWhile isSpace).rdropWhile isSpace

/-- `str.split("=", 1)`, if it has two parts. -/
def splitEquals (part : Text) : Option (Text × Text) :=
  match part.dropWhile fun c => c != '=' with
  | [] => none
  | _ :: value => some (part.takeWhile fun c => c != '=', value)

/-! ### The store -/

/-- `StickinessConfig`, without the name of the application's cookie. -/
structure StickinessConfig where
  enabled : Bool
  cookieDuration : Int
  type : Text
  deriving DecidableEq

structure StickyPin where
  targetKey : Text
  expiresAt : Int
  deriving DecidableEq

def second : Int := 1000000

/-- `StickyStore.pins`. -/
abbrev StickyStore := Dict Text StickyPin

namespace StickyStore

variable (store : StickyStore) (cookieId : Text)

def lookup (now : Int) : Option StickyPin × StickyStore :=
  if cookieId = [] then (none, store)
  else
    match store.get? cookieId with
    | none => (none, store)
    | some pin =>
      if pin.expiresAt ≤ now then (none, store.erase cookieId) else (some pin, store)

def remember (targetKey : Text) (duration now : Int) : StickyStore :=
  store.set cookieId ⟨targetKey, now + max duration 1 * second⟩

def forget : StickyStore := store.erase cookieId

end StickyStore

/-! ### The cookie -/

def awsalbCookie : Text := "AWSALB".toList

/-- The loop of `parse_awsalb_cookie`. The first cookie of the name ends it. -/
def firstAwsalb : List Text → Option Text
  | [] => none
  | part :: parts =>
    match splitEquals (strip part) with
    | some (name, value) =>
      if strip name = awsalbCookie then
        if strip value = [] then none else some (strip value)
      else firstAwsalb parts
    | none => firstAwsalb parts

/-- The cookie of a `Cookie` header. -/
def parseAwsalbCookie (cookieHeader : Text) : Option Text :=
  if cookieHeader = [] then none else firstAwsalb (cookieHeader.splitOn ';')

/-- The value of the `Set-Cookie` header. -/
def buildSetCookie (cookieId : Text) (duration : Int) (secure : Bool) : Text :=
  awsalbCookie ++ '=' :: (cookieId ++ "; Path=/; Max-Age=".toList ++
    (toString (max duration 1)).toList ++ "; HttpOnly".toList ++
    if secure then "; Secure".toList else [])

/-- The characters of `token_urlsafe`. -/
def tokenChars : Text :=
  "ABCDEFGHIJKLMNOPQRSTUVWXYZabcdefghijklmnopqrstuvwxyz0123456789-_".toList

/-- What `fresh_cookie_id` draws. -/
structure CookieId where
  text : Text
  ne_nil : text ≠ []
  isToken : ∀ c ∈ text, c ∈ tokenChars
  deriving DecidableEq

end LocalEmu.Elbv2
