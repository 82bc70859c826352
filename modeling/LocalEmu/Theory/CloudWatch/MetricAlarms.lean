import LocalEmu.Core.CloudWatch.AlarmScheduler
import Mathlib.Data.List.ReduceOption
import Mathlib.Algebra.Order.Ring.Int
import Mathlib.Tactic.Ring

/-!
# Metric Alarms

An alarm goes off when enough of its most recent data points breach. Points that are missing
count as breaching or as not breaching, or are replaced by older ones, or by none. An alarm goes
off prematurely when it has waited long enough for the points that are missing.

The scheduler follows the rule unless one of two things decides. It collects more points than
the rule evaluates, and counts them all. And where it looks for a premature alarm it takes a
point that is zero for one that is missing.
-/

namespace LocalEmu.CloudWatch

open List Option

/-! ### The rules -/

section Rules

variable {α : Type} (breaches : α → Bool) (m n : Nat) (treat : TreatMissingData)
  (values : List (Option α))

/-- The points that are present, the most recent first. -/
def present : List α := values.reverse.reduceOption

/-- The points that are evaluated: whether they breach. -/
def evaluatedPoints : List Bool :=
  let recent := ((present values).take n).map breaches
  match treat with
  | .breaching => recent ++ List.replicate (n - recent.length) true
  | .notBreaching => recent ++ List.replicate (n - recent.length) false
  | _ => recent

/-- Enough of the points breach that are evaluated. -/
def MOutOfN : Prop := m ≤ (evaluatedPoints breaches n treat values).count true

instance : Decidable (MOutOfN breaches m n treat values) := inferInstanceAs (Decidable (_ ≤ _))

/-- The points that are older than the `m`-th most recent one. -/
def olderPoints : List (Option α) := values.take (values.length - m)

/-- The `m`-th most recent point. -/
def pointAt : Option α := values[values.length - m]?.join

/-- The points after that. -/
def laterPoints : List (Option α) := values.drop (values.length - m + 1)

/-- There is no older point than the `m`-th most recent one, and that one and all later ones
    that are present breach. -/
structure PrematureAlarm : Prop where
  older : ∀ v ∈ olderPoints m values, v = none
  point : ∃ x, pointAt m values = some x ∧ breaches x = true
  later : ∀ y, some y ∈ laterPoints m values → breaches y = true

end Rules

variable {α : Type} [LinearOrder α] [Zero α] {alarm : MetricAlarm α} {m : Nat}
  {values : List (Option α)}

def MetricAlarm.breaches (alarm : MetricAlarm α) (value : α) : Bool :=
  match comparisonOps alarm.comparisonOperator, alarm.threshold with
  | some op, some threshold => op value threshold
  | _, _ => false

/-- The missing points are not counted. -/
def MetricAlarm.Skips (alarm : MetricAlarm α) : Prop :=
  alarm.treatMissing = .missing ∨ alarm.treatMissing = .ignore

/-- The state after an evaluation of the points. A premature alarm is not sent if missing points
    are ignored; if then enough points breach at the same time, the alarm may go off or stay. -/
def Decides (alarm : MetricAlarm α) (m : Nat) (values : List (Option α)) (next : StateValue) :
    Prop :=
  let enough := MOutOfN alarm.breaches m alarm.evaluationPeriods alarm.treatMissing values
  ((∀ v ∈ values, v = none) →
    match alarm.treatMissing with
    | .missing => next = .insufficientData
    | .breaching => next = .alarm
    | .notBreaching => next = .ok
    | .ignore => next = alarm.stateValue) ∧
  (alarm.Skips ∧ PrematureAlarm alarm.breaches m values →
    match alarm.treatMissing with
    | .ignore => next = alarm.stateValue ∨ next = .alarm ∧ enough
    | _ => next = .alarm) ∧
  ((∃ v ∈ values, v ≠ none) → ¬(alarm.Skips ∧ PrematureAlarm alarm.breaches m values) →
    (enough → next = .alarm) ∧ (¬enough → next = .ok))

/-- Enough of the points breach, but not of those that are to be evaluated. -/
def StaleDecides (alarm : MetricAlarm α) (m : Nat) (values : List (Option α)) : Prop :=
  m ≤ (present values).countP alarm.breaches ∧
    ((present values).take alarm.evaluationPeriods).countP alarm.breaches < m

/-- A point that is zero makes the difference for a premature alarm: it is the `m`-th most recent
    one, or the only later ones that do not breach are zero. -/
structure ZeroDecides (alarm : MetricAlarm α) (m : Nat) (values : List (Option α)) : Prop where
  skips : alarm.Skips
  several : 1 < m
  older : ∀ v ∈ olderPoints m values, v = none
  zero : (pointAt m values = some 0 ∧ alarm.breaches 0 = true ∧
      (∀ y, some y ∈ laterPoints m values → alarm.breaches y = true) ∧
      none ∈ laterPoints m values) ∨
    (∃ x, pointAt m values = some x ∧ x ≠ 0 ∧ alarm.breaches x = true ∧
      (∀ y, some y ∈ laterPoints m values → y ≠ 0 → alarm.breaches y = true) ∧
      some 0 ∈ laterPoints m values ∧ alarm.breaches 0 = false)
  seen : alarm.treatMissing = .ignore → alarm.stateValue ≠ .ok

/-! ### The points -/

omit [LinearOrder α] [Zero α] in
theorem split_points (hpos : 1 ≤ m) (hle : m ≤ values.length) :
    ∃ v, values = olderPoints m values ++ v :: laterPoints m values ∧ pointAt m values = v ∧
      (laterPoints m values).length + 1 = m := by
  have hlt : values.length - m < values.length := by omega
  refine ⟨values[values.length - m], ?_, ?_, ?_⟩
  · rw [olderPoints, laterPoints, ← drop_eq_getElem_cons hlt, take_append_drop]
  · rw [pointAt, getElem?_eq_getElem hlt]
    rfl
  · rw [laterPoints, length_drop]
    omega

omit [LinearOrder α] [Zero α] in
theorem mem_present (x : α) : x ∈ present values ↔ some x ∈ values := by
  rw [present, reduceOption_mem_iff, mem_reverse]

omit [LinearOrder α] [Zero α] in
theorem count_none_eq_length_iff [DecidableEq α] :
    values.count none = values.length ↔ ∀ v ∈ values, v = none := by
  rw [count_eq_length]
  exact forall₂_congr fun _ _ => eq_comm

omit [LinearOrder α] [Zero α] in
theorem length_present : (present values).length = values.reduceOption.length := by
  simp only [present, reduceOption, filterMap_reverse, length_reverse]

omit [LinearOrder α] [Zero α] in
theorem length_present_of_older (hpos : 1 ≤ m) (hle : m ≤ values.length) {x : α}
    (holder : ∀ v ∈ olderPoints m values, v = none) (hpoint : pointAt m values = some x) :
    (present values).length ≤ m ∧
      ((present values).length < m ↔ none ∈ laterPoints m values) := by
  rcases split_points hpos hle with ⟨v, hsplit, hv, hlength⟩
  have hnone : (olderPoints m values).reduceOption = [] := by
    rw [eq_nil_iff_forall_not_mem]
    intro y hy
    exact absurd (holder _ (reduceOption_mem_iff.mp hy)) (by simp)
  have hlen : (present values).length = (laterPoints m values).reduceOption.length + 1 := by
    have hcount := congrArg (fun points => points.reduceOption.length) hsplit
    rw [← hv, hpoint] at hcount
    simp only [reduceOption_append, hnone, nil_append, reduceOption_cons_of_some,
      length_cons] at hcount
    rw [length_present, hcount]
  have hle' := reduceOption_length_le (laterPoints m values)
  refine ⟨by omega, ?_⟩
  rw [← reduceOption_length_lt_iff]
  omega

/-! ### What the scheduler counts -/

omit [Zero α] in
theorem parts_of_supported (h : isAlarmSupported alarm = true) :
    (∃ period, alarm.period = some period) ∧ (∃ statistic, alarm.statistic = some statistic) ∧
      (∃ metricName, alarm.metricName = some metricName) ∧
      ∃ threshold, alarm.threshold = some threshold ∧
        ∀ value, compare alarm.comparisonOperator value threshold = .ok (alarm.breaches value) := by
  simp only [isAlarmSupported, Bool.and_eq_true, isSome_iff_exists] at h
  rcases h with ⟨⟨⟨⟨hperiod, hstatistic⟩, hname⟩, threshold, hthreshold⟩, op, hop⟩
  refine ⟨hperiod, hstatistic, hname, threshold, hthreshold, fun value => ?_⟩
  rw [compare, MetricAlarm.breaches, hop, hthreshold]

def counted (alarm : MetricAlarm α) : Option α → Option Bool
  | none =>
    match alarm.treatMissing with
    | .breaching => some true
    | .notBreaching => some false
    | _ => none
  | some value => some (alarm.breaches value)

omit [Zero α] in
/-- What the scheduler counts. -/
theorem isThresholdExceeded_eq (h : isAlarmSupported alarm = true) (values : List (Option α)) :
    isThresholdExceeded values alarm =
      .ok (decide (alarm.datapointsToAlarm.getD alarm.evaluationPeriods ≤
        (values.map (counted alarm)).reduceOption.count true)) := by
  rcases parts_of_supported h with ⟨-, -, -, threshold, hthreshold, hcompare⟩
  have hpoint : evaluatedDatapoint alarm threshold =
      fun v => (pure (counted alarm v) : Except Failure _) := by
    ext v : 1
    cases v with
    | none =>
      unfold evaluatedDatapoint counted
      cases alarm.treatMissing <;> rfl
    | some =>
      rw [evaluatedDatapoint, hcompare]
      rfl
  rw [isThresholdExceeded, hthreshold]
  change (values.mapM (evaluatedDatapoint alarm threshold) >>= fun evaluated =>
    pure (decide (_ ≤ evaluated.reduceOption.count true))) = _
  rw [hpoint, mapM_pure]
  rfl

/-- A premature alarm, where zero counts as missing. -/
structure PrematureCode (alarm : MetricAlarm α) (m : Nat) (values : List (Option α)) : Prop where
  skips : alarm.Skips
  several : 1 < m
  older : ∀ v ∈ olderPoints m values, v = none
  point : ∃ x, pointAt m values = some x ∧ x ≠ 0 ∧ alarm.breaches x = true
  later : ∀ y, some y ∈ laterPoints m values → y ≠ 0 → alarm.breaches y = true

theorem isPremature_eq {threshold : α}
    (hcompare : ∀ value,
      compare alarm.comparisonOperator value threshold = .ok (alarm.breaches value))
    (oldest : List (Option α)) (v : Option α) (later : List (Option α)) :
    ∃ premature, isPremature alarm.comparisonOperator threshold oldest (v :: later) =
        .ok premature ∧
      (premature = true ↔ (∀ w ∈ oldest, w = none) ∧
        (∃ x, v = some x ∧ x ≠ 0 ∧ alarm.breaches x = true) ∧
        ∀ y, some y ∈ later → y ≠ 0 → alarm.breaches y = true) := by
  unfold isPremature
  by_cases holdest : oldest.count none = oldest.length
  · rw [if_pos holdest, List.head?_cons]
    rw [count_none_eq_length_iff] at holdest
    cases v with
    | none => exact ⟨false, rfl, by simp⟩
    | some x =>
      by_cases hzero : x = 0
      · exact ⟨false, if_pos hzero, by simp [hzero]⟩
      · have hfun : (fun value => compare alarm.comparisonOperator value threshold) =
            fun value => (pure (alarm.breaches value) : Except Failure Bool) :=
          funext hcompare
        cases hx : alarm.breaches x with
        | false =>
          refine ⟨false, ?_, by simp [hx]⟩
          simp only [if_neg hzero, hcompare, hx]
          rfl
        | true =>
          refine ⟨((some x :: later).reduceOption.filter (· ≠ 0)).all alarm.breaches, ?_, ?_⟩
          · simp only [if_neg hzero]
            rw [hfun, hcompare, hx, List.allM_pure]
            rfl
          · simp only [List.all_eq_true, List.mem_filter, List.reduceOption_mem_iff,
              decide_eq_true_eq, List.mem_cons, Option.some.injEq]
            constructor
            · intro hall
              exact ⟨holdest, ⟨x, rfl, hzero, hx⟩, fun y hy hne => hall y ⟨.inr hy, hne⟩⟩
            · rintro ⟨-, -, hlater⟩ y ⟨rfl | hy, hne⟩
              · exact hx
              · exact hlater y hy hne
  · rw [if_neg holdest]
    rw [count_none_eq_length_iff] at holdest
    exact ⟨false, rfl, by simp [holdest]⟩

theorem isTriggeringPrematureAlarm_iff (h : isAlarmSupported alarm = true)
    (hm : alarm.datapointsToAlarm = some m) (hle : m ≤ values.length) :
    ∃ premature, isTriggeringPrematureAlarm values alarm = .ok premature ∧
      (premature = true ↔ PrematureCode alarm m values) := by
  rcases parts_of_supported h with ⟨-, -, -, threshold, hthreshold, hcompare⟩
  unfold isTriggeringPrematureAlarm
  rw [hm, getD_some, hthreshold]
  by_cases hskips : alarm.treatMissing = .missing ∨ alarm.treatMissing = .ignore
  · rw [if_pos hskips]
    by_cases hseveral : 1 < m
    · rw [if_pos hseveral]
      rcases split_points (by omega : 1 ≤ m) hle with ⟨v, hsplit, hv, hlength⟩
      have hdrop : values.drop (values.length - m) = v :: laterPoints m values :=
        append_cancel_left ((take_append_drop _ _).trans hsplit)
      rcases isPremature_eq hcompare (olderPoints m values) v (laterPoints m values) with
        ⟨premature, hpremature, hiff⟩
      refine ⟨premature, ?_, hiff.trans ⟨fun ⟨holder, hpoint, hlater⟩ => ?_, fun hp => ?_⟩⟩
      · change (if values.length < m then _ else isPremature _ threshold (olderPoints m values)
          (values.drop (values.length - m))) = _
        rw [if_neg (Nat.not_lt.mpr hle), hdrop, hpremature]
      · rw [← hv] at hpoint
        exact ⟨hskips, hseveral, holder, hpoint, hlater⟩
      · have hpoint := hp.point
        rw [hv] at hpoint
        exact ⟨hp.older, hpoint, hp.later⟩
    · rw [if_neg hseveral]
      exact ⟨false, rfl,
        by simpa using fun hp : PrematureCode alarm m values => hseveral hp.several⟩
  · rw [if_neg hskips]
    exact ⟨false, rfl, by simpa using fun hp : PrematureCode alarm m values => hskips hp.skips⟩

omit [LinearOrder α] [Zero α] in
theorem addEmptyDatapoints_of_skips (h : alarm.Skips) (steps : Nat)
    (datapoints : List (Option α)) : addEmptyDatapoints alarm steps datapoints = datapoints := by
  have hpadded : ¬(alarm.treatMissing = .breaching ∨ alarm.treatMissing = .notBreaching) := by
    rcases h with h | h <;> simp [h]
  cases steps with
  | zero => rfl
  | succ => exact if_neg fun hand => hpadded hand.2

omit [LinearOrder α] [Zero α] in
theorem addEmptyDatapoints_of_not_skips (h : ¬alarm.Skips) (steps : Nat)
    (datapoints : List (Option α))
    (hsteps : alarm.evaluationPeriods ≤ datapoints.length + steps) :
    addEmptyDatapoints alarm steps datapoints =
      datapoints ++ List.replicate (alarm.evaluationPeriods - datapoints.length) none := by
  have hpadded : alarm.treatMissing = .breaching ∨ alarm.treatMissing = .notBreaching := by
    unfold MetricAlarm.Skips at h
    cases htreat : alarm.treatMissing <;> simp_all
  induction steps generalizing datapoints with
  | zero =>
    have hzero : alarm.evaluationPeriods - datapoints.length = 0 := by omega
    rw [addEmptyDatapoints, hzero, replicate_zero, append_nil]
  | succ steps ih =>
    rw [addEmptyDatapoints]
    by_cases hshort : datapoints.length < alarm.evaluationPeriods
    · have hsucc : alarm.evaluationPeriods - datapoints.length =
          alarm.evaluationPeriods - (datapoints ++ [none]).length + 1 := by
        rw [length_append, length_singleton]
        omega
      rw [if_pos ⟨hshort, hpadded⟩, ih _ (by rw [length_append]; simp; omega), hsucc,
        replicate_succ, append_assoc, singleton_append]
    · have hzero : alarm.evaluationPeriods - datapoints.length = 0 := by omega
      rw [if_neg fun hand => hshort hand.1, hzero, replicate_zero, append_nil]

omit [LinearOrder α] [Zero α] in
theorem filter_isSome_eq (l : List (Option α)) :
    l.filter Option.isSome = l.reduceOption.map some := by
  induction l with
  | nil => rfl
  | cons v l ih => cases v <;> simp [ih]

/-- The number of the points that breach, of all that were collected. -/
def breachingCount (alarm : MetricAlarm α) (values : List (Option α)) : Nat :=
  (present values).countP alarm.breaches +
    if alarm.treatMissing = .breaching then alarm.evaluationPeriods - (present values).length
    else 0

omit [Zero α] in
theorem count_collectedDatapoints (alarm : MetricAlarm α) (values : List (Option α)) :
    ((collectedDatapoints alarm values).map (counted alarm)).reduceOption.count true =
      breachingCount alarm values := by
  have hpresent : (((present values).map some).map (counted alarm)).reduceOption.count true =
      (present values).countP alarm.breaches := by
    rw [List.map_map]
    change ((present values).map (some ∘ alarm.breaches)).reduceOption.count true = _
    rw [← List.map_map, List.reduceOption, List.filterMap_map, List.count,
      List.countP_eq_length_filter]
    simp [List.countP_eq_length_filter, List.filter_map, Function.comp_def]
  unfold collectedDatapoints breachingCount
  rw [filter_isSome_eq, ← present]
  by_cases hskips : alarm.Skips
  · have hne : alarm.treatMissing ≠ .breaching := by rcases hskips with h | h <;> simp [h]
    rw [addEmptyDatapoints_of_skips hskips, hpresent, if_neg hne, Nat.add_zero]
  · rw [addEmptyDatapoints_of_not_skips hskips _ _ (by omega), List.map_append,
      List.reduceOption_append, List.count_append, hpresent, List.map_replicate, List.length_map]
    congr 1
    unfold counted
    cases htreat : alarm.treatMissing with
    | breaching => simp [List.reduceOption]
    | notBreaching => simp [List.reduceOption, List.count_replicate]
    | missing => exact absurd (.inl htreat) hskips
    | ignore => exact absurd (.inr htreat) hskips

omit [Zero α] in
theorem count_evaluatedPoints (alarm : MetricAlarm α) (values : List (Option α)) :
    (evaluatedPoints alarm.breaches alarm.evaluationPeriods alarm.treatMissing values).count true =
      ((present values).take alarm.evaluationPeriods).countP alarm.breaches +
        if alarm.treatMissing = .breaching then
          alarm.evaluationPeriods - (present values).length
        else 0 := by
  have hcount (l : List α) : (l.map alarm.breaches).count true = l.countP alarm.breaches := by
    rw [count, countP_map]
    congr 1
    ext x
    simp
  unfold evaluatedPoints
  cases alarm.treatMissing with
  | breaching =>
    have hpad : alarm.evaluationPeriods - min alarm.evaluationPeriods (present values).length =
        alarm.evaluationPeriods - (present values).length := by omega
    simp only [count_append, hcount, length_map, length_take, count_replicate_self, hpad, if_true]
  | notBreaching => simp only [count_append, hcount, count_replicate]; rfl
  | missing | ignore => exact hcount _

omit [Zero α] in
theorem le_breachingCount_iff (alarm : MetricAlarm α) (m : Nat) (values : List (Option α)) :
    m ≤ breachingCount alarm values ↔
      MOutOfN alarm.breaches m alarm.evaluationPeriods alarm.treatMissing values ∨
        StaleDecides alarm m values := by
  unfold MOutOfN StaleDecides breachingCount
  rw [count_evaluatedPoints]
  by_cases hlong : (present values).length ≤ alarm.evaluationPeriods
  · rw [take_of_length_le hlong]
    omega
  · have hsub : ((present values).take alarm.evaluationPeriods).countP alarm.breaches ≤
        (present values).countP alarm.breaches :=
      (take_sublist _ _).countP_le
    have hzero : alarm.evaluationPeriods - (present values).length = 0 := by omega
    rw [hzero, ite_self]
    omega

/-! ### The decision -/

def Arrives (alarm : MetricAlarm α) (m : Nat) (values : List (Option α)) (next : StateValue) :
    Prop :=
  ((∀ v ∈ values, v = none) ∧ next = match alarm.treatMissing with
    | .missing => .insufficientData
    | .breaching => .alarm
    | .notBreaching => .ok
    | .ignore => alarm.stateValue) ∨
  ((∃ v ∈ values, v ≠ none) ∧ PrematureCode alarm m values ∧
    ((alarm.treatMissing = .missing ∧ next = .alarm) ∨
      alarm.treatMissing = .ignore ∧ next = alarm.stateValue)) ∨
  ((∃ v ∈ values, v ≠ none) ∧ ¬PrematureCode alarm m values ∧
    ((m ≤ breachingCount alarm values ∧ next = .alarm) ∨
      breachingCount alarm values < m ∧ next = .ok))

omit [LinearOrder α] [Zero α] in
@[simp]
theorem stateAfter_updateAlarmState (desired : StateValue) (reason : Text)
    (data : StateReasonData α) :
    alarm.stateAfter (updateAlarmState alarm desired reason data) = desired := by
  unfold updateAlarmState
  by_cases h : alarm.stateValue = desired
  · rw [if_pos h]
    exact h
  · rw [if_neg h]
    rfl

theorem evaluate_arrives (h : isAlarmSupported alarm = true)
    (hm : alarm.datapointsToAlarm = some m) (hle : m ≤ values.length)
    (data : StateReasonData α) :
    ∃ call, evaluate alarm values data = .ok call ∧
      Arrives alarm m values (alarm.stateAfter call) := by
  unfold evaluate
  by_cases hnone : values.count none = values.length
  · refine ⟨withoutDatapoints alarm data, if_pos hnone,
      .inl ⟨count_none_eq_length_iff.mp hnone, ?_⟩⟩
    unfold withoutDatapoints
    cases alarm.treatMissing <;> first | exact stateAfter_updateAlarmState _ _ _ | rfl
  · have hsome : ∃ v ∈ values, v ≠ none := by
      rw [count_none_eq_length_iff] at hnone
      push Not at hnone
      exact hnone
    rw [if_neg hnone]
    rcases isTriggeringPrematureAlarm_iff h hm hle with ⟨premature, hpremature, hiff⟩
    rw [hpremature]
    cases premature with
    | true =>
      have hcode := hiff.mp rfl
      by_cases hmissing : alarm.treatMissing = .missing
      · exact ⟨_, if_pos hmissing, .inr (.inl ⟨hsome, hcode,
          .inl ⟨hmissing, stateAfter_updateAlarmState _ _ _⟩⟩)⟩
      · exact ⟨none, if_neg hmissing, .inr (.inl ⟨hsome, hcode,
          .inr ⟨hcode.skips.resolve_left hmissing, rfl⟩⟩)⟩
    | false =>
      have hcode : ¬PrematureCode alarm m values := fun hc => Bool.false_ne_true (hiff.mpr hc)
      have hexceeded := isThresholdExceeded_eq h (collectedDatapoints alarm values)
      rw [count_collectedDatapoints, hm, getD_some] at hexceeded
      by_cases hcount : m ≤ breachingCount alarm values
      · rw [decide_eq_true hcount] at hexceeded
        refine ⟨_, ?_, .inr (.inr ⟨hsome, hcode,
          .inl ⟨hcount, stateAfter_updateAlarmState .alarm "Threshold Crossed".toList data⟩⟩)⟩
        change (isThresholdExceeded _ _ >>= _) = _
        rw [hexceeded]
        rfl
      · rw [decide_eq_false hcount] at hexceeded
        refine ⟨_, ?_, .inr (.inr ⟨hsome, hcode, .inr ⟨Nat.lt_of_not_le hcount,
          stateAfter_updateAlarmState .ok "Threshold Crossed".toList data⟩⟩)⟩
        change (isThresholdExceeded _ _ >>= _) = _
        rw [hexceeded]
        rfl

/-! ### When the scheduler follows the rules -/

section Follows

variable {next : StateValue} (hpos : 1 ≤ m) (hle : m ≤ alarm.evaluationPeriods)
  (hlong : m ≤ values.length)

omit [LinearOrder α] [Zero α] in
theorem mem_of_pointAt {x : α} (h : pointAt m values = some x) : some x ∈ values := by
  rw [pointAt, join_eq_some_iff] at h
  exact mem_of_getElem? h

omit [LinearOrder α] [Zero α] in
theorem mem_of_laterPoints {v : Option α} (h : v ∈ laterPoints m values) : v ∈ values :=
  mem_of_mem_drop h

omit [LinearOrder α] [Zero α] in
theorem mem_points_of_older (hpos : 1 ≤ m) (hlong : m ≤ values.length)
    (holder : ∀ v ∈ olderPoints m values, v = none) {y : α} (hy : some y ∈ values) :
    pointAt m values = some y ∨ some y ∈ laterPoints m values := by
  rcases split_points hpos hlong with ⟨v, hsplit, hv, -⟩
  rw [hsplit, mem_append, mem_cons] at hy
  rcases hy with hy | hy | hy
  · exact absurd (holder _ hy) (by simp)
  · exact .inl (hv.trans hy.symm)
  · exact .inr hy

include hpos hle hlong in
omit [Zero α] in
theorem not_staleDecides_of_older {x : α} (holder : ∀ v ∈ olderPoints m values, v = none)
    (hpoint : pointAt m values = some x) : ¬StaleDecides alarm m values := by
  rintro ⟨hall, htake⟩
  have hlen := (length_present_of_older hpos hlong holder hpoint).1
  rw [take_of_length_le (by omega)] at htake
  omega

omit [Zero α] in
theorem breachingCount_of_skips (h : alarm.Skips) :
    breachingCount alarm values = (present values).countP alarm.breaches := by
  have hne : alarm.treatMissing ≠ .breaching := by rcases h with h | h <;> simp [h]
  rw [breachingCount, if_neg hne, Nat.add_zero]

include hpos hlong in
omit [Zero α] in
theorem PrematureAlarm.le_breachingCount_iff (hskips : alarm.Skips)
    (h : PrematureAlarm alarm.breaches m values) :
    m ≤ breachingCount alarm values ↔ none ∉ laterPoints m values := by
  rcases h.point with ⟨x, hpoint, hx⟩
  have hall : (present values).countP alarm.breaches = (present values).length := by
    rw [countP_eq_length]
    intro y hy
    rcases mem_points_of_older hpos hlong h.older ((mem_present y).mp hy) with hy | hy
    · rw [hpoint] at hy
      exact some.inj hy ▸ hx
    · exact h.later y hy
  have hlen := length_present_of_older hpos hlong h.older hpoint
  rw [breachingCount_of_skips hskips, hall, ← hlen.2, Nat.not_lt]

theorem decides_iff_of_none (hpos : 1 ≤ m) (hnone : ∀ v ∈ values, v = none)
    (hnext : next = match alarm.treatMissing with
      | .missing => .insufficientData
      | .breaching => .alarm
      | .notBreaching => .ok
      | .ignore => alarm.stateValue) :
    Decides alarm m values next ↔ ¬StaleDecides alarm m values ∧ ¬ZeroDecides alarm m values := by
  have hpoint (x : α) : pointAt m values ≠ some x := fun h => by
    simpa using hnone _ (mem_of_pointAt h)
  have hstale : ¬StaleDecides alarm m values := by
    rintro ⟨hall, -⟩
    have hnil : present values = [] := by
      rw [eq_nil_iff_forall_not_mem]
      intro x hx
      simpa using hnone _ ((mem_present x).mp hx)
    rw [hnil, countP_nil] at hall
    omega
  have hzero : ¬ZeroDecides alarm m values := by
    intro hz
    rcases hz.zero with ⟨h, -⟩ | ⟨x, h, -⟩ <;> exact hpoint _ h
  refine iff_of_true ⟨fun _ => ?_, ?_, ?_⟩ ⟨hstale, hzero⟩
  · rw [hnext]
    cases alarm.treatMissing <;> rfl
  · rintro ⟨-, hpremature⟩
    rcases hpremature.point with ⟨x, h, -⟩
    exact absurd h (hpoint x)
  · rintro ⟨v, hv, hne⟩
    exact absurd (hnone v hv) hne

include hpos hle hlong in
theorem decides_iff_of_prematureCode (hcode : PrematureCode alarm m values)
    (hnext : (alarm.treatMissing = .missing ∧ next = .alarm) ∨
      alarm.treatMissing = .ignore ∧ next = alarm.stateValue) :
    Decides alarm m values next ↔ ¬StaleDecides alarm m values ∧ ¬ZeroDecides alarm m values := by
  rcases hcode.point with ⟨x, hpoint, hne, hx⟩
  have hsome := mem_of_pointAt hpoint
  have hstale := not_staleDecides_of_older hpos hle hlong hcode.older hpoint
  have hnotall : ¬∀ v ∈ values, v = none := fun hnone => by simpa using hnone _ hsome
  by_cases hlater : some 0 ∈ laterPoints m values ∧ alarm.breaches 0 = false
  · -- A later point is zero and does not breach, so that the alarm is not premature.
    have hnot : ¬PrematureAlarm alarm.breaches m values := fun h => by
      simpa [hlater.2] using h.later 0 hlater.1
    have hcount : breachingCount alarm values < m := by
      rw [breachingCount_of_skips hcode.skips]
      refine Nat.lt_of_lt_of_le ?_ (length_present_of_older hpos hlong hcode.older hpoint).1
      refine Nat.lt_of_le_of_ne countP_le_length fun hall => ?_
      have hzero := countP_eq_length.mp hall 0 ((mem_present 0).mpr (mem_of_laterPoints hlater.1))
      simp [hlater.2] at hzero
    have henough : ¬MOutOfN alarm.breaches m alarm.evaluationPeriods alarm.treatMissing values :=
      fun h => Nat.not_le.mpr hcount ((le_breachingCount_iff alarm m values).mpr (.inl h))
    have hdecides : Decides alarm m values next ↔ next = .ok := by
      refine ⟨fun h => (h.2.2 ⟨_, hsome, by simp⟩ fun h => hnot h.2).2 henough, fun h => ?_⟩
      exact ⟨fun hnone => absurd hnone hnotall, fun h => absurd h.2 hnot,
        fun _ _ => ⟨fun h => absurd h henough, fun _ => h⟩⟩
    have hzero : ZeroDecides alarm m values ↔
        (alarm.treatMissing = .ignore → alarm.stateValue ≠ .ok) := by
      refine ⟨fun h => h.seen, fun h => ⟨hcode.skips, hcode.several, hcode.older, .inr ?_, h⟩⟩
      exact ⟨x, hpoint, hne, hx, hcode.later, hlater⟩
    rw [hdecides, hzero]
    rcases hnext with ⟨htreat, rfl⟩ | ⟨htreat, rfl⟩
    · simp [htreat]
    · simp [htreat, hstale]
  · -- The alarm is premature.
    have hpremature : PrematureAlarm alarm.breaches m values := by
      refine ⟨hcode.older, ⟨x, hpoint, hx⟩, fun y hy => ?_⟩
      by_cases hy0 : y = 0
      · cases hb : alarm.breaches y with
        | true => rfl
        | false => exact absurd ⟨hy0 ▸ hy, hy0 ▸ hb⟩ hlater
      · exact hcode.later y hy hy0
    have hzero : ¬ZeroDecides alarm m values := by
      intro hz
      rcases hz.zero with ⟨h, -⟩ | ⟨z, -, -, -, -, h⟩
      · exact hne (some.inj (hpoint.symm.trans h))
      · exact hlater h
    refine iff_of_true ⟨fun hnone => absurd hnone hnotall, fun _ => ?_, fun _ h => ?_⟩
      ⟨hstale, hzero⟩
    · rcases hnext with ⟨htreat, rfl⟩ | ⟨htreat, rfl⟩
      · simp [htreat]
      · simp [htreat]
    · exact absurd ⟨hcode.skips, hpremature⟩ h

include hpos hle hlong in
theorem decides_iff_of_not_prematureCode (hsome : ∃ v ∈ values, v ≠ none)
    (hcode : ¬PrematureCode alarm m values)
    (hnext : (m ≤ breachingCount alarm values ∧ next = .alarm) ∨
      breachingCount alarm values < m ∧ next = .ok) :
    Decides alarm m values next ↔ ¬StaleDecides alarm m values ∧ ¬ZeroDecides alarm m values := by
  have hnotall : ¬∀ v ∈ values, v = none := fun hnone => by
    rcases hsome with ⟨v, hv, hne⟩
    exact hne (hnone v hv)
  by_cases hpremature : alarm.Skips ∧ PrematureAlarm alarm.breaches m values
  · -- The alarm is premature, and the scheduler has not seen it.
    rcases hpremature with ⟨hskips, hpremature⟩
    rcases hpremature.point with ⟨x, hpoint, hx⟩
    have hstale : ¬StaleDecides alarm m values :=
      not_staleDecides_of_older hpos hle hlong hpremature.older hpoint
    have hcount := hpremature.le_breachingCount_iff hpos hlong hskips
    have hmissed : m = 1 ∨ x = 0 := by
      by_contra hboth
      push Not at hboth
      exact hcode ⟨hskips, by omega, hpremature.older, ⟨x, hpoint, hboth.2, hx⟩,
        fun y hy _ => hpremature.later y hy⟩
    by_cases hgap : none ∈ laterPoints m values
    · have hm : 1 < m := by
        rcases split_points hpos hlong with ⟨-, -, -, hlength⟩
        have := length_pos_of_mem hgap
        omega
      have hx0 : x = 0 := hmissed.resolve_left (by omega)
      rw [hx0] at hpoint hx
      have hok : next = .ok := by
        rcases hnext with ⟨h, -⟩ | ⟨-, h⟩
        · exact absurd hgap (hcount.mp h)
        · exact h
      have henough :
          ¬MOutOfN alarm.breaches m alarm.evaluationPeriods alarm.treatMissing values :=
        fun h => hcount.mp ((le_breachingCount_iff alarm m values).mpr (.inl h)) hgap
      have hzero : ZeroDecides alarm m values ↔
          (alarm.treatMissing = .ignore → alarm.stateValue ≠ .ok) := by
        refine ⟨fun h => h.seen, fun h => ⟨hskips, hm, hpremature.older, .inl ?_, h⟩⟩
        exact ⟨hpoint, hx, hpremature.later, hgap⟩
      have hdecides : Decides alarm m values next ↔
          alarm.treatMissing = .ignore ∧ next = alarm.stateValue := by
        constructor
        · intro h
          have h2 := h.2.1 ⟨hskips, hpremature⟩
          rcases hskips with htreat | htreat
          · simp [htreat, hok] at h2
          · simp only [htreat] at h2 henough
            exact ⟨htreat, h2.resolve_right fun h => henough h.2⟩
        · rintro ⟨htreat, hstate⟩
          refine ⟨fun hnone => absurd hnone hnotall, fun _ => ?_,
            fun _ h => absurd ⟨hskips, hpremature⟩ h⟩
          simp [htreat, hstate]
      rw [hdecides, hzero, hok]
      rcases hskips with htreat | htreat
      · simp [htreat]
      · simp [htreat, hstale, eq_comm]
    · have halarm : next = .alarm := by
        rcases hnext with ⟨-, h⟩ | ⟨h, -⟩
        · exact h
        · exact absurd (hcount.mpr hgap) (Nat.not_le.mpr h)
      have henough : MOutOfN alarm.breaches m alarm.evaluationPeriods alarm.treatMissing values :=
        ((le_breachingCount_iff alarm m values).mp (hcount.mpr hgap)).resolve_right hstale
      have hzero : ¬ZeroDecides alarm m values := by
        intro hz
        rcases hz.zero with ⟨-, -, -, h⟩ | ⟨z, hz0, hne, -, -, -⟩
        · exact hgap h
        · rcases hmissed with hm | hx0
          · exact absurd hz.several (by omega)
          · exact hne (hx0 ▸ (some.inj (hz0.symm.trans hpoint)))
      refine iff_of_true ⟨fun hnone => absurd hnone hnotall, fun _ => ?_,
        fun _ h => absurd ⟨hskips, hpremature⟩ h⟩ ⟨hstale, hzero⟩
      rcases hskips with htreat | htreat
      · simp [htreat, halarm]
      · simp only [htreat] at henough ⊢
        exact .inr ⟨halarm, henough⟩
  · -- The alarm is not premature: the points are counted.
    have hzero : ¬ZeroDecides alarm m values := by
      intro hz
      rcases hz.zero with ⟨hpoint, hx, hlater, -⟩ | ⟨x, hpoint, hne, hx, hlater, -⟩
      · exact hpremature ⟨hz.skips, hz.older, ⟨0, hpoint, hx⟩, hlater⟩
      · exact hcode ⟨hz.skips, hz.several, hz.older, ⟨x, hpoint, hne, hx⟩, hlater⟩
    have hcount := le_breachingCount_iff alarm m values
    constructor
    · intro h
      refine ⟨fun hstale => ?_, hzero⟩
      have halarm : next = .alarm := by
        rcases hnext with ⟨-, h⟩ | ⟨h, -⟩
        · exact h
        · exact absurd (hcount.mpr (.inr hstale)) (Nat.not_le.mpr h)
      have henough :
          ¬MOutOfN alarm.breaches m alarm.evaluationPeriods alarm.treatMissing values := by
        have hshort : (present values).length > alarm.evaluationPeriods := by
          by_contra hlen
          have htake := hstale.2
          rw [take_of_length_le (by omega)] at htake
          exact absurd hstale.1 (by omega)
        unfold MOutOfN
        rw [count_evaluatedPoints, Nat.sub_eq_zero_of_le (Nat.le_of_lt hshort), ite_self]
        exact Nat.not_le.mpr hstale.2
      have hok := (h.2.2 hsome hpremature).2 henough
      rw [halarm] at hok
      cases hok
    · rintro ⟨hstale, -⟩
      refine ⟨fun hnone => absurd hnone hnotall, fun h => absurd h hpremature,
        fun _ _ => ⟨fun henough => ?_, fun henough => ?_⟩⟩
      · rcases hnext with ⟨-, h⟩ | ⟨h, -⟩
        · exact h
        · exact absurd (hcount.mpr (.inl henough)) (Nat.not_le.mpr h)
      · rcases hnext with ⟨h, -⟩ | ⟨-, h⟩
        · rcases hcount.mp h with h | h
          · exact absurd h henough
          · exact absurd h hstale
        · exact h

include hpos hle hlong in
theorem decides_iff_of_arrives (h : Arrives alarm m values next) :
    Decides alarm m values next ↔ ¬StaleDecides alarm m values ∧ ¬ZeroDecides alarm m values := by
  rcases h with ⟨hnone, hnext⟩ | ⟨-, hcode, hnext⟩ | ⟨hsome, hcode, hnext⟩
  · exact decides_iff_of_none hpos hnone hnext
  · exact decides_iff_of_prematureCode hpos hle hlong hcode hnext
  · exact decides_iff_of_not_prematureCode hpos hle hlong hsome hcode hnext

end Follows

/-! ### Collected points -/

section Collected

omit [LinearOrder α] [Zero α]

theorem collect_eq (client : Client α) (query : MetricDataQuery) (period : Int) (periods : Nat)
    (now : Int) (metricValues : List (Option α)) :
    collect client query period periods now metricValues =
      ((List.range periods).map fun i : Nat =>
        (client query (now - period * (i + 1)) (now - period * i)).head?).reverse ++
        metricValues := by
  induction periods generalizing now metricValues with
  | zero => rfl
  | succ periods ih =>
    rw [collect, ih, List.range_succ_eq_map, List.map_cons, List.reverse_cons, List.map_map,
      List.append_assoc]
    have hfirst : now - period * ((0 : Nat) + 1 : Int) = now - period := by simp
    have hnow : now - period * ((0 : Nat) : Int) = now := by simp
    rw [hfirst, hnow]
    congr 3
    ext i : 1
    have hstart : now - period - period * ((i : Int) + 1) =
        now - period * (((i.succ : Nat) : Int) + 1) := by push_cast; ring
    have hend : now - period - period * (i : Int) = now - period * ((i.succ : Nat) : Int) := by
      push_cast; ring
    rw [Function.comp_apply, hstart, hend]

end Collected

omit [Zero α] in
theorem collectMetricData_ok (h : isAlarmSupported alarm = true) (client : Client α) (now : Int) :
    ∃ values, collectMetricData alarm client now = .ok values ∧
      values.length = collectedPeriods alarm.evaluationPeriods := by
  rcases parts_of_supported h with
    ⟨⟨period, hperiod⟩, ⟨statistic, hstatistic⟩, ⟨metricName, hname⟩, -⟩
  unfold collectMetricData generateMetricQuery
  rw [hperiod, hstatistic, hname]
  exact ⟨_, rfl, by rw [collect_eq, append_nil, length_reverse, length_map, length_range]⟩

/-- The evaluation of a supported alarm never fails. It follows the rules exactly if no points
    decide that are too old, and no point that is zero. -/
theorem decides_iff (alarm : MetricAlarm α) (m : Nat) (client : Client α) (now : Int)
    (queryDate : Text) (hsupported : isAlarmSupported alarm = true)
    (hm : alarm.datapointsToAlarm = some m) (hpos : 1 ≤ m) (hle : m ≤ alarm.evaluationPeriods) :
    ∃ values call, collectMetricData alarm client now = .ok values ∧
      values.length = collectedPeriods alarm.evaluationPeriods ∧
      calculateAlarmState (some alarm) client now queryDate = .ok call ∧
      (Decides alarm m values (alarm.stateAfter call) ↔
        ¬StaleDecides alarm m values ∧ ¬ZeroDecides alarm m values) := by
  rcases collectMetricData_ok hsupported _ _ with ⟨values, hvalues, hlength⟩
  rcases parts_of_supported hsupported with ⟨⟨period, hperiod⟩, -, -, threshold, hthreshold, -⟩
  have hlong : m ≤ values.length := by
    unfold collectedPeriods at hlength
    omega
  rcases evaluate_arrives hsupported hm hlong ⟨"1.0".toList, queryDate, period,
    values.reduceOption, threshold, alarm.statistic.filter (· ≠ []),
    alarm.unit.filter (· ≠ [])⟩ with ⟨call, hcall, harrives⟩
  refine ⟨values, call, hvalues, hlength, ?_, decides_iff_of_arrives hpos hle hlong harrives⟩
  change (collectMetricData alarm client now >>= fun values =>
    stateReasonData alarm values queryDate >>= fun data => evaluate alarm values data) = _
  rw [hvalues]
  change (stateReasonData alarm values queryDate >>= fun data => evaluate alarm values data) = _
  rw [stateReasonData, hperiod, hthreshold]
  exact hcall

/-! ### Examples -/

def exampleAlarm : MetricAlarm Int where
  alarmName := "a".toList
  stateValue := .ok
  metricName := some "m".toList
  metricNamespace := none
  dimensions := none
  statistic := some "Sum".toList
  period := some 60
  unit := none
  evaluationPeriods := 2
  datapointsToAlarm := some 2
  threshold := some 10
  comparisonOperator := .greaterThanThreshold
  treatMissingData := none

def exampleClient (minutes : List (List Int)) : Client Int :=
  fun _ _ stop => (minutes[(-stop / 60000000).toNat]?).getD []

theorem decides_iff_of_exampleAlarm :
    ∃ values call, collectMetricData exampleAlarm (exampleClient [[20], [], [0]]) 0 = .ok values ∧
      values.length = collectedPeriods exampleAlarm.evaluationPeriods ∧
      calculateAlarmState (some exampleAlarm) (exampleClient [[20], [], [0]]) 0 [] = .ok call ∧
      (Decides exampleAlarm 2 values (exampleAlarm.stateAfter call) ↔
        ¬StaleDecides exampleAlarm 2 values ∧ ¬ZeroDecides exampleAlarm 2 values) :=
  decides_iff _ 2 _ 0 [] (by decide) rfl (by decide) (by decide)

/-- Two points exceed ten that are older than the two that are to be evaluated. -/
theorem alarm_for_stale_points :
    ∃ values call, collectMetricData exampleAlarm (exampleClient [[5], [5], [20], [20]]) 0 =
        .ok values ∧
      calculateAlarmState (some exampleAlarm) (exampleClient [[5], [5], [20], [20]]) 0 [] =
        .ok (some call) ∧
      call.stateValue = .alarm ∧ ¬Decides exampleAlarm 2 values .alarm := by
  refine ⟨[some 20, some 20, some 5, some 5], _, by decide +kernel, rfl, rfl, fun h => ?_⟩
  have hok := (h.2.2 (by decide) fun hp => ?_).2 (by decide +kernel)
  · cases hok
  · exact absurd (hp.2.older (some 20) (by decide)) (by decide)

end LocalEmu.CloudWatch
