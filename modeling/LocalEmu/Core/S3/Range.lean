import LocalEmu.Base.Text

/-!
# Range Requests

A range of an object is parsed from a header, leniently for a read and strictly for a copy.
The body of a read is what the object has from the beginning of the range on, chunk by chunk,
up to the length of the range.
-/

namespace LocalEmu.S3.Range

/-- Python's `int`, of which only that a text without a minus sign is no negative number is
    known. -/
structure Integers where
  int : Text → Option Int
  int_nonneg : ∀ text n, '-' ∉ text → int text = some n → 0 ≤ n

/-- A range. -/
structure ObjectRange where
  contentRange : String
  contentLength : Int
  begin : Int
  «end» : Int
  deriving DecidableEq

/-- An exception of the parsers. -/
inductive RangeError
  | invalidRange (message actualObjectSize : String) (rangeRequested : Text)
  | invalidArgument (message argumentName : String) (argumentValue : Text)
  | invalidRequest (message : String)
  deriving DecidableEq

def objectRange (begin last : Int) (objectSize : Nat) : ObjectRange where
  contentRange := "bytes " ++ toString begin ++ "-" ++ toString last ++ "/" ++ toString objectSize
  contentLength := last - begin + 1
  begin := begin
  «end» := last

variable (py : Integers) (header : Text) (objectSize : Nat)

/-- `int(i) if i else None`. -/
def bound (i : Text) : Option (Option Int) := if i = [] then some none else (py.int i).map some

/-- The two numbers of a header. Another number of parts raises as an invalid number does. -/
def rangeBounds : Option (Option Int × Option Int) :=
  match header.splitOn '=' with
  | [_, rspec] =>
    if ',' ∈ rspec then none
    else
      match rspec.splitOn '-' with
      | [first, last] => (bound py first).bind fun b => (bound py last).map fun e => (b, e)
      | _ => none
  | _ => none

def parseRangeHeader : Except RangeError (Option ObjectRange) :=
  let last : Int := objectSize - 1
  match rangeBounds py header with
  | none => .ok none
  | some (first, limit) =>
    if (first = none ∧ limit = some 0) ∨ ∃ b ∈ first, last < b then
      .error (.invalidRange "The requested range is not satisfiable" (toString objectSize) header)
    else
      -- the range after the open ends have been filled in
      let filled : Option (Int × Int) :=
        match first, limit with
        | some b, none => some (b, last)
        | some b, some e => some (b, min e last)
        | none, some e => some (objectSize - min e objectSize, last)
        | none, none => none
      .ok (filled.bind fun (b, e) =>
        if b > min e last then none else some (objectRange b e objectSize))

/-- The message of `parse_copy_source_range_header`. -/
def copySourceRangeMessage : String :=
  "The x-amz-copy-source-range value must be of the form bytes=first-last where first and " ++
    "last are the zero-based offsets of the first and last bytes to copy"

def parseCopySourceRangeHeader : Except RangeError ObjectRange :=
  let last : Int := objectSize - 1
  let invalid (message : String) : Except RangeError ObjectRange :=
    .error (.invalidArgument message "x-amz-copy-source-range" header)
  match rangeBounds py header with
  | some (some b, some e) =>
    if b > e then invalid copySourceRangeMessage
    else if b > last then
      .error (.invalidRequest "The specified copy range is invalid for the source object size")
    else if e > last then
      invalid ("Range specified is not valid for source object of size: " ++ toString objectSize)
    else .ok (objectRange b e objectSize)
  | _ => invalid copySourceRangeMessage

/-- `LimitedIterableStream.__iter__`: the chunks it yields. -/
def limitedIterableStream : List (List UInt8) → Nat → List (List UInt8)
  | [], _ => []
  | chunk :: chunks, maxLength =>
    if chunk.length ≤ maxLength then
      chunk :: limitedIterableStream chunks (maxLength - chunk.length)
    else if maxLength = 0 then []
    else [chunk.take maxLength]

end LocalEmu.S3.Range
