import LocalEmu.Base.Dict
import LocalEmu.Base.Lines
import LocalEmu.Base.Run

/-!
# The Flow Log Poller

A sidecar writes packets to a log file, and a poller reads the file from where it
stopped the last time. One shell command prints the size of the file and then what
follows the offset, and the two are read at different moments: the new offset is
the size, the new entries come from the rest.

The file is a list of bytes that is appended to and truncated by others. A poll is
two steps, the size and the rest, and it fails if the command does. What the
clock says in an entry is left out.

## Main definitions

* `FlowLogEntry`, `parseIptablesLogLine`: An entry, and how a line is parsed.
* `FlowLog`, `FlowLog.step`: The file and the poller.
-/

namespace LocalEmu.Ec2

/-- What Python provides: `str.upper`, and `int`, of which only that it reads
    decimal digits is known. -/
structure Builtins where
  upper : Text → Text
  int : Text → Option Int
  int_digits : ∀ n : Nat, int (Nat.toDigits 10 n) = some (n : Int)

/-- `FlowLogEntry`, without its times and constants. -/
structure FlowLogEntry where
  accountId : Text
  interfaceId : Text
  srcaddr : Text
  dstaddr : Text
  srcport : Int
  dstport : Int
  protocol : Nat
  action : String
  deriving DecidableEq

/-! ### Parsing a line -/

/-- `[A-Za-z0-9]`. -/
def isAlphanumeric (c : Char) : Bool := c.isAlpha || c.isDigit

/-- `LE-FL:`. -/
def flowLogMarker : Text := "LE-FL:".toList

/-- A match of `_LOG_PREFIX_RE` at the start of a text: the instance and the action. The class of
    the instance has no colon, so that there is one way to match at most. -/
def matchLogPrefix (text : Text) : Option (Text × Char) :=
  if flowLogMarker.isPrefixOf text then
    let rest := text.drop flowLogMarker.length
    let iid := rest.takeWhile isAlphanumeric
    if 1 ≤ iid.length ∧ iid.length ≤ 8 then
      match rest.drop iid.length with
      | ':' :: chain :: ':' :: action :: ':' :: _ =>
        if (chain = 'I' ∨ chain = 'O') ∧ (action = 'A' ∨ action = 'D') then some (iid, action)
        else none
      | _ => none
    else none
  else none

/-- `_LOG_PREFIX_RE.search`. -/
def searchLogPrefix : Text → Option (Text × Char)
  | [] => none
  | c :: text => (matchLogPrefix (c :: text)).or (searchLogPrefix text)

/-- A match of `_FIELD_RE` at the start of a text: the key, the value, and what follows. -/
def matchField (text : Text) : Option (Text × Text × Text) :=
  let key := text.takeWhile Char.isUpper
  if 2 ≤ key.length then
    match text.drop key.length with
    | '=' :: rest =>
      let value := rest.takeWhile fun c => decide (c ≠ ' ' ∧ c ≠ '\n')
      if value = [] then none else some (key, value, rest.drop value.length)
    | _ => none
  else none

/-- `_FIELD_RE.finditer`, for a text of the given length at most. -/
def findFields : Nat → Text → List (Text × Text)
  | 0, _ => []
  | _ + 1, [] => []
  | length + 1, c :: text =>
    match matchField (c :: text) with
    | some (key, value, rest) => (key, value) :: findFields length rest
    | none => findFields length text

/-- `_PROTO_NUM.get(proto, 0)`. -/
def protoNum (proto : Text) : Nat :=
  if proto = "TCP".toList then 6
  else if proto = "UDP".toList then 17
  else if proto = "ICMP".toList then 1
  else 0

variable (py : Builtins)

/-- A port, zero if it is not there. -/
def port (value : Option Text) : Option Int :=
  match value with
  | none => some 0
  | some text => if text = [] then some 0 else py.int text

def parseIptablesLogLine (accountId line : Text) : Option FlowLogEntry :=
  (searchLogPrefix line).bind fun (iid, action) =>
    let fields := Dict.ofEntries (findFields line.length line)
    let src := fields.getD "SRC".toList []
    let dst := fields.getD "DST".toList []
    let proto := py.upper (fields.getD "PROTO".toList [])
    if src = [] ∨ dst = [] ∨ proto = [] then none
    else
      match port py (fields.get? "SPT".toList), port py (fields.get? "DPT".toList) with
      | some spt, some dpt =>
        some ⟨accountId, "eni-".toList ++ iid, src, dst, spt, dpt, protoNum proto,
          if action = 'A' then "ACCEPT" else "REJECT"⟩
      | _, _ => none

/-! ### A poll -/

def sizeMarker : Text := "__LEFL_SIZE__=".toList

/-- What `tail -c +$(( read_bytes + 1 ))` prints. -/
def tailFrom (readBytes : Int) (content : List UInt8) : List UInt8 :=
  if readBytes < -1 then [] else content.drop readBytes.toNat

def probeOutput (size : Nat) (readBytes : Int) (content : List UInt8) : List UInt8 :=
  Text.asciiBytes (sizeMarker ++ Nat.toDigits 10 size) ++ 10 :: tailFrom readBytes content

/-- One line of the output: the size if it is a line with the size, or one line more. -/
def splitLine (state : Option Int × List Text) (line : Text) : Option Int × List Text :=
  if sizeMarker.isPrefixOf line then (py.int (line.drop sizeMarker.length), state.2)
  else (state.1, state.2 ++ [line])

/-- The entry of a line, if it has one. -/
def entryOf (accountId line : Text) : Option FlowLogEntry :=
  if (Text.before flowLogMarker line).isSome then parseIptablesLogLine py accountId line else none

/-- `poll_once` after the command: the new offset, and the entries that are recorded. -/
def pollOnce (accountId : Text) (readBytes : Int) (out : List UInt8) : Int × List FlowLogEntry :=
  let (size, contentLines) := (Text.linesOf out).foldl (splitLine py) (none, [])
  if size.any fun size => decide (size < readBytes) then (0, [])
  else (size.getD readBytes, contentLines.filterMap (entryOf py accountId))

/-! ### The file and the poller -/

/-- The file, the offset and the records of the poller, and the size of the file if
    a poll is on its way. -/
structure FlowLog where
  content : List UInt8
  readBytes : Int
  recorded : List FlowLogEntry
  probed : Option Nat

/-- What happens. -/
inductive FlowLogEvent
  | append (bytes : List UInt8)
  | truncate
  /-- The command prints the size. -/
  | probe
  /-- The command prints the rest, and the poll succeeds. -/
  | poll
  /-- The command fails. -/
  | fail

namespace FlowLog

def initial : FlowLog := ⟨[], 0, [], none⟩

def step (py : Builtins) (accountId : Text) (s : FlowLog) : FlowLogEvent → Option FlowLog
  | .append bytes => some { s with content := s.content ++ bytes }
  | .truncate => some { s with content := [] }
  | .probe =>
    match s.probed with
    | none => some { s with probed := some s.content.length }
    | some _ => none
  | .poll =>
    s.probed.map fun size =>
      let result := pollOnce py accountId s.readBytes (probeOutput size s.readBytes s.content)
      { s with readBytes := result.1, recorded := s.recorded ++ result.2, probed := none }
  | .fail => some { s with probed := none }

end FlowLog

end LocalEmu.Ec2
