import LocalEmu.Base.Blocks
import LocalEmu.Core.Elbv2.Stickiness

/-!
# Schedules

A rule fires on a schedule, which is a cron expression or a rate. A rate is
checked against a regular expression when the rule is put, and is then turned
into a cron expression. The regular expression is not anchored at its end, and
it takes any number of digits, also none.

The time of a cron expression is counted in minutes from the beginning of the
year zero. The days are put into months by the Gregorian calendar.
-/

namespace LocalEmu.Events

open Elbv2 (isSpace strip)

/-! ### Cron expressions -/

/-- A field: `*`, a number or `*/n`. -/
inductive CronField
  | any
  | value (v : Nat)
  | step (n : Nat)
  deriving DecidableEq

/-- The five fields of a cron expression. -/
structure Cron where
  minute : CronField
  hour : CronField
  day : CronField
  month : CronField
  weekday : CronField
  deriving DecidableEq

/-- The value of a field matches, if its range starts with `first`. -/
def CronField.Matches (first v : Nat) : CronField → Prop
  | any => True
  | value w => v = w
  | step n => n ∣ v - first

def isLeapYear (year : Nat) : Bool := year % 4 == 0 && (year % 100 != 0 || year % 400 == 0)

/-- The days of a month, which is counted from the first one of the year zero. -/
def monthLength (month : Nat) : Nat :=
  match month % 12 with
  | 1 => if isLeapYear (month / 12) then 29 else 28
  | 3 | 5 | 8 | 10 => 30
  | _ => 31

/-- A minute matches a cron expression. The year zero begins on a Saturday. -/
def Cron.Fires (cron : Cron) (t : Nat) : Prop :=
  ∃ month day, day < monthLength month ∧ t / 1440 = blockStart monthLength month + day ∧
    cron.minute.Matches 0 (t % 60) ∧ cron.hour.Matches 0 (t / 60 % 24) ∧
    cron.day.Matches 1 (day + 1) ∧ cron.month.Matches 1 (month % 12 + 1) ∧
    cron.weekday.Matches 0 ((t / 1440 + 6) % 7)

/-! ### Conversion -/

/-- What Python knows about digits: the class `\d` of regular expressions with
    the value of each digit, and `int`. -/
structure Digits where
  digit : Char → Option Nat
  int : Text → Option Int

variable (digits : Digits)

/-- A character of the class `\d`. -/
def Digits.isDecimal (c : Char) : Bool := (digits.digit c).isSome

/-- The number that is written with some digits. -/
def Digits.value (text : Text) : Nat :=
  text.foldl (fun n c => 10 * n + (digits.digit c).getD 0) 0

/-- A `ValueError`. -/
inductive ValueError
  | unpack
  | invalidLiteral
  | raised (message : String)
  deriving DecidableEq

/-- What the conversion returns: a cron expression of its own, or a text that is passed on. -/
inductive Schedule
  | cron (cron : Cron)
  | text (text : Text)
  deriving DecidableEq

/-- `re.match(r"\s*NAME\s*\(([^\)]*)\)\s*", text)`, with its group. -/
def matchCall (name text : Text) : Option Text :=
  let text := text.dropWhile isSpace
  if name.isPrefixOf text then
    match (text.drop name.length).dropWhile isSpace with
    | '(' :: rest => if ')' ∈ rest then some (rest.takeWhile fun c => c != ')') else none
    | _ => none
  else none

/-- `re.split(r"\s+", text.strip())`. -/
def splitSpaces (text : Text) : List Text :=
  if strip text = [] then [[]] else ((strip text).splitOnP isSpace).filter fun part => part ≠ []

/-- `"..." in unit`. -/
def mentions (word unit : Text) : Bool := unit.tails.any fun tail => word.isPrefixOf tail

def convertRate (schedule rate : Text) : Except ValueError Schedule :=
  match splitSpaces rate with
  | [number, rateUnit] =>
    match digits.int number with
    | none => .error .invalidLiteral
    | some rateValue =>
      if rateValue < 1 then .error (.raised "Rate value must be larger than 0")
      else if rateValue = 1 ∧ rateUnit.getLast? = some 's' then
        .error (.raised "If the value is equal to 1, then the unit must be singular")
      else if 1 < rateValue ∧ rateUnit.getLast? ≠ some 's' then
        .error (.raised "If the value is greater than 1, the unit must be plural")
      else if mentions ['m', 'i', 'n', 'u', 't', 'e'] rateUnit then
        .ok (.cron ⟨.step rateValue.toNat, .any, .any, .any, .any⟩)
      else if mentions ['h', 'o', 'u', 'r'] rateUnit then
        .ok (.cron ⟨.value 0, .step rateValue.toNat, .any, .any, .any⟩)
      else if mentions ['d', 'a', 'y'] rateUnit then
        .ok (.cron ⟨.value 0, .value 0, .step rateValue.toNat, .any, .any⟩)
      else .ok (.text schedule)
  | _ => .error .unpack

/-- The conversion of a schedule. -/
def convertScheduleToCron (schedule : Text) : Except ValueError Schedule :=
  match matchCall ['c', 'r', 'o', 'n'] schedule with
  | some expression => .ok (.text expression)
  | none =>
    match matchCall ['r', 'a', 't', 'e'] schedule with
    | some rate => convertRate digits schedule rate
    | none => .ok (.text schedule)

namespace RuleService

/-- The unit of a rate. -/
inductive RateUnit
  | minute
  | minutes
  | hour
  | hours
  | day
  | days
  deriving DecidableEq

namespace RateUnit

def text : RateUnit → Text
  | minute => ['m', 'i', 'n', 'u', 't', 'e']
  | minutes => ['m', 'i', 'n', 'u', 't', 'e', 's']
  | hour => ['h', 'o', 'u', 'r']
  | hours => ['h', 'o', 'u', 'r', 's']
  | day => ['d', 'a', 'y']
  | days => ['d', 'a', 'y', 's']

def inMinutes : RateUnit → Nat
  | minute | minutes => 1
  | hour | hours => 60
  | day | days => 1440

def isPlural : RateUnit → Bool
  | minutes | hours | days => true
  | _ => false

/-- The alternatives of the regular expression, in their order. -/
def all : List RateUnit := [minute, minutes, hour, hours, day, days]

end RateUnit

/-- `re.match(r"^rate\(\d*\s(minute|minutes|hour|hours|day|days)\)", text)`, with
    the digits and the unit. -/
def rateParts (digits : Digits) (text : Text) : Option (Text × RateUnit) :=
  if ['r', 'a', 't', 'e', '('].isPrefixOf text then
    match (text.drop 5).dropWhile digits.isDecimal with
    | c :: rest =>
      if isSpace c then
        (RateUnit.all.find? fun unit => (unit.text ++ [')']).isPrefixOf rest).map fun unit =>
          ((text.drop 5).takeWhile digits.isDecimal, unit)
      else none
    | [] => none
  else none

end RuleService

end LocalEmu.Events
