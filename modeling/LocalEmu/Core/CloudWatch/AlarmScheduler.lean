import LocalEmu.Base.Text

/-!
# The Alarm Scheduler

An alarm is evaluated from the data points of its metric, one for each period, the oldest first;
a period may have none. More points are collected than there are evaluation periods. The new
state is sent to the service if it is not the state that the alarm is in.

Data points and thresholds are of any linear order with a zero, times are in microseconds.

## Main definitions

* `MetricAlarm`, `isAlarmSupported`: An alarm, and which of them are scheduled.
* `isThresholdExceeded`, `isTriggeringPrematureAlarm`: When an alarm goes off.
-/

namespace LocalEmu.CloudWatch

/-! ### Alarms -/

inductive ComparisonOperator
  | greaterThanOrEqualToThreshold
  | greaterThanThreshold
  | lessThanThreshold
  | lessThanOrEqualToThreshold
  | lessThanLowerOrGreaterThanUpperThreshold
  | lessThanLowerThreshold
  | greaterThanUpperThreshold

/-- The values of `TreatMissingData`. -/
inductive TreatMissingData
  | missing
  | breaching
  | notBreaching
  | ignore
  deriving DecidableEq

inductive StateValue
  | ok
  | alarm
  | insufficientData
  deriving DecidableEq

/-- `MetricAlarm`, as far as its evaluation reads it. -/
structure MetricAlarm (α : Type) where
  alarmName : Text
  stateValue : StateValue
  metricName : Option Text
  metricNamespace : Option Text
  dimensions : Option (List (Text × Text))
  statistic : Option Text
  period : Option Nat
  unit : Option Text
  evaluationPeriods : Nat
  datapointsToAlarm : Option Nat
  threshold : Option α
  comparisonOperator : ComparisonOperator
  treatMissingData : Option TreatMissingData

/-- What the evaluation may raise. -/
inductive Failure
  | keyError (key : Text)
  | typeError
  | indexError
  deriving DecidableEq

/-- `alarm_details[key]`. -/
def required {β : Type} (key : String) : Option β → Except Failure β
  | some value => .ok value
  | none => .error (.keyError key.toList)

variable {α : Type}

namespace MetricAlarm

/-- `alarm_details.get("TreatMissingData", "missing")`. -/
def treatMissing (alarm : MetricAlarm α) : TreatMissingData :=
  alarm.treatMissingData.getD .missing

end MetricAlarm

section Comparison

variable [LinearOrder α]

/-- `COMPARISON_OPS`. The operators of anomaly detection are not in it. -/
def comparisonOps : ComparisonOperator → Option (α → α → Bool)
  | .greaterThanOrEqualToThreshold => some fun value threshold => decide (threshold ≤ value)
  | .greaterThanThreshold => some fun value threshold => decide (threshold < value)
  | .lessThanThreshold => some fun value threshold => decide (value < threshold)
  | .lessThanOrEqualToThreshold => some fun value threshold => decide (value ≤ threshold)
  | _ => none

def isAlarmSupported (alarm : MetricAlarm α) : Bool :=
  alarm.period.isSome && alarm.statistic.isSome && alarm.metricName.isSome &&
    alarm.threshold.isSome &&
    (comparisonOps alarm.comparisonOperator : Option (α → α → Bool)).isSome

/-- `COMPARISON_OPS.get(comparison_operator)(value, threshold)`. -/
def compare (operator : ComparisonOperator) (value threshold : α) : Except Failure Bool :=
  match comparisonOps operator with
  | some op => .ok (op value threshold)
  | none => .error .typeError

end Comparison

/-! ### Data points -/

structure MetricDataQuery where
  id : Text
  metricName : Text
  metricNamespace : Option Text
  dimensions : Option (List (Text × Text))
  period : Nat
  stat : Text

/-- `get_metric_data`: the values of a metric between two times. -/
abbrev Client (α : Type) := MetricDataQuery → Int → Int → List α

def generateMetricQuery (alarm : MetricAlarm α) : Except Failure MetricDataQuery := do
  let metricName ← required "MetricName" alarm.metricName
  let period ← required "Period" alarm.period
  let stat ← required "Statistic" alarm.statistic
  return ⟨alarm.alarmName, metricName, alarm.metricNamespace.filter (· ≠ []),
    alarm.dimensions.filter (· ≠ []), period, stat⟩

/-- The number of data points that are collected for some evaluation periods. -/
def collectedPeriods (evaluationPeriods : Nat) : Nat :=
  evaluationPeriods + max (evaluationPeriods / 3) 2

/-- The loop of `collect_metric_data`, with the number of periods to go. -/
def collect (client : Client α) (query : MetricDataQuery) (period : Int) :
    Nat → Int → List (Option α) → List (Option α)
  | 0, _, metricValues => metricValues
  | periods + 1, now, metricValues =>
    collect client query period periods (now - period)
      -- The oldest data point is at the beginning.
      ((client query (now - period) now).head? :: metricValues)

/-- The data points. -/
def collectMetricData (alarm : MetricAlarm α) (client : Client α) (now : Int) :
    Except Failure (List (Option α)) := do
  let period ← required "Period" alarm.period
  let query ← generateMetricQuery alarm
  return collect client query (period * 1000000) (collectedPeriods alarm.evaluationPeriods) now []

section Evaluation

variable [LinearOrder α]

/-- What a data point contributes to `evaluated_datapoints`. -/
def evaluatedDatapoint (alarm : MetricAlarm α) (threshold : α) :
    Option α → Except Failure (Option Bool)
  | none =>
    match alarm.treatMissing with
    | .breaching => .ok (some true)
    | .notBreaching => .ok (some false)
    | _ => .ok none
  | some value => (compare alarm.comparisonOperator value threshold).map some

def isThresholdExceeded (metricValues : List (Option α)) (alarm : MetricAlarm α) :
    Except Failure Bool := do
  let threshold ← required "Threshold" alarm.threshold
  let evaluated ← metricValues.mapM (evaluatedDatapoint alarm threshold)
  return decide (alarm.datapointsToAlarm.getD alarm.evaluationPeriods ≤
    evaluated.reduceOption.count true)

/-- The part of `is_triggering_premature_alarm` that looks at the data points: the oldest ones,
    and those from the position where they end. A value that is zero is taken for none. -/
def isPremature [Zero α] (operator : ComparisonOperator) (threshold : α)
    (oldest : List (Option α)) (newest : List (Option α)) : Except Failure Bool :=
  if oldest.count none = oldest.length then
    match newest.head? with
    | none => .error .indexError
    | some none => .ok false
    | some (some value) =>
      if value = 0 then .ok false
      else do
        if ← compare operator value threshold then
          (newest.reduceOption.filter (· ≠ 0)).allM fun value => compare operator value threshold
        else
          return false
  else
    .ok false

def isTriggeringPrematureAlarm [Zero α] (metricValues : List (Option α))
    (alarm : MetricAlarm α) : Except Failure Bool :=
  if alarm.treatMissing = .missing ∨ alarm.treatMissing = .ignore then
    if 1 < alarm.datapointsToAlarm.getD 1 then do
      let threshold ← required "Threshold" alarm.threshold
      let oldest := metricValues.length - alarm.datapointsToAlarm.getD 1
      if metricValues.length < alarm.datapointsToAlarm.getD 1 then .error .indexError
      else
        isPremature alarm.comparisonOperator threshold (metricValues.take oldest)
          (metricValues.drop oldest)
    else .ok false
  else .ok false

end Evaluation

/-! ### State changes -/

structure StateReasonData (α : Type) where
  version : Text
  queryDate : Text
  period : Nat
  recentDatapoints : List α
  threshold : α
  statistic : Option Text
  unit : Option Text

/-- A call of `set_alarm_state`. -/
structure SetAlarmState (α : Type) where
  alarmName : Text
  stateValue : StateValue
  stateReason : Text
  stateReasonData : StateReasonData α

variable (alarm : MetricAlarm α)

/-- `state_reason_data` of `calculate_alarm_state`. -/
def stateReasonData (metricValues : List (Option α)) (queryDate : Text) :
    Except Failure (StateReasonData α) := do
  let period ← required "Period" alarm.period
  let threshold ← required "Threshold" alarm.threshold
  return ⟨"1.0".toList, queryDate, period, metricValues.reduceOption, threshold,
    alarm.statistic.filter (· ≠ []), alarm.unit.filter (· ≠ [])⟩

def updateAlarmState (desired : StateValue) (reason : Text)
    (data : StateReasonData α) : Option (SetAlarmState α) :=
  if alarm.stateValue = desired then none else some ⟨alarm.alarmName, desired, reason, data⟩

def detailsMsg (evaluationPeriods : Nat) : Text :=
  let periods := (toString evaluationPeriods).toList
  "no datapoints were received for ".toList ++ periods ++ " period".toList ++
    (if 1 < evaluationPeriods then "s".toList else []) ++ " and ".toList ++ periods ++
    " missing datapoint".toList ++
    (if 1 < evaluationPeriods then "s were".toList else " was".toList) ++ " treated as".toList

/-- The evaluation without any data point. -/
def withoutDatapoints (data : StateReasonData α) : Option (SetAlarmState α) :=
  let details := ": ".toList ++ detailsMsg alarm.evaluationPeriods
  match alarm.treatMissing with
  | .missing => updateAlarmState alarm .insufficientData
      ("Insufficient Data".toList ++ details ++ " [Missing].".toList) data
  | .breaching => updateAlarmState alarm .alarm
      ("Threshold Crossed".toList ++ details ++ " [Breaching].".toList) data
  | .notBreaching => updateAlarmState alarm .ok
      ("Threshold Crossed".toList ++ details ++ " [NonBreaching].".toList) data
  | .ignore => none

/-- The loop that adds empty data points, with a bound on its steps. -/
def addEmptyDatapoints (alarm : MetricAlarm α) :
    Nat → List (Option α) → List (Option α)
  | 0, datapoints => datapoints
  | steps + 1, datapoints =>
    if datapoints.length < alarm.evaluationPeriods ∧
        (alarm.treatMissing = .breaching ∨ alarm.treatMissing = .notBreaching) then
      addEmptyDatapoints alarm steps (datapoints ++ [none])
    else datapoints

/-- `collected_datapoints`: all that are not empty, the newest first, and empty ones up to the
    evaluation periods. -/
def collectedDatapoints (metricValues : List (Option α)) : List (Option α) :=
  addEmptyDatapoints alarm alarm.evaluationPeriods
    (metricValues.reverse.filter Option.isSome)

variable [LinearOrder α] [Zero α]

/-- The evaluation of the data points that were collected. -/
def evaluate (alarm : MetricAlarm α) (metricValues : List (Option α))
    (data : StateReasonData α) : Except Failure (Option (SetAlarmState α)) :=
  if metricValues.count none = metricValues.length then
    .ok (withoutDatapoints alarm data)
  else do
    if ← isTriggeringPrematureAlarm metricValues alarm then
      if alarm.treatMissing = .missing then
        return updateAlarmState alarm .alarm
          "Threshold Crossed: premature alarm for missing datapoints".toList data
      else
        -- For `ignore` the state is retained.
        return none
    else if ← isThresholdExceeded (collectedDatapoints alarm metricValues) alarm then
      return updateAlarmState alarm .alarm "Threshold Crossed".toList data
    else
      return updateAlarmState alarm .ok "Threshold Crossed".toList data

/-- `calculate_alarm_state`, with the details of the alarm that were found. -/
def calculateAlarmState (details : Option (MetricAlarm α)) (client : Client α) (now : Int)
    (queryDate : Text) : Except Failure (Option (SetAlarmState α)) :=
  match details with
  | none => .ok none
  | some alarm => do
    let metricValues ← collectMetricData alarm client now
    let data ← stateReasonData alarm metricValues queryDate
    evaluate alarm metricValues data

/-- The state after a call, if there was one. -/
def MetricAlarm.stateAfter (alarm : MetricAlarm α) :
    Option (SetAlarmState α) → StateValue
  | some call => call.stateValue
  | none => alarm.stateValue

end LocalEmu.CloudWatch
