import LocalEmu.Core.Events.Scheduler

/-!
# Rates As Cron Expressions

A rate becomes a cron expression with one step, and a step begins anew with
every hour, day or month. So the rule fires at the stated rate exactly if the
number divides the sixty minutes of an hour or the twenty-four hours of a day.
No number but one divides the days of every month.
-/

namespace LocalEmu.Events

open List

open Elbv2 (isSpace strip)
open RuleService (RateUnit rateParts)

/-! ### Firing times -/

def RuleService.RateUnit.cron (n : Nat) : RateUnit → Cron
  | .minute | .minutes => ⟨.step n, .any, .any, .any, .any⟩
  | .hour | .hours => ⟨.value 0, .step n, .any, .any, .any⟩
  | .day | .days => ⟨.value 0, .value 0, .step n, .any, .any⟩

/-- The number divides what the unit counts up to. -/
def RuleService.RateUnit.Divides (n : Nat) : RateUnit → Prop
  | .minute | .minutes => n ∣ 60
  | .hour | .hours => n ∣ 24
  | .day | .days => n = 1

theorem monthLength_pos (month : Nat) : 0 < monthLength month := by
  unfold monthLength
  split
  · split <;> omega
  all_goals omega

theorem dvd_monthLength_iff (n : Nat) : (∀ month, n ∣ monthLength month) ↔ n = 1 := by
  constructor
  · intro h
    have hdiff : n ∣ monthLength 0 - monthLength 3 := Nat.dvd_sub (h 0) (h 3)
    exact Nat.dvd_one.mp hdiff
  · rintro rfl month
    exact Nat.one_dvd _

theorem stepped_const_iff {size : Nat} (hsize : 0 < size) (n t : Nat) :
    Stepped (fun _ => size) n t ↔ n ∣ t % size := by
  constructor
  · rintro ⟨k, r, hr, rfl, hdvd⟩
    rwa [blockStart_const, Nat.mul_add_mod, Nat.mod_eq_of_lt hr]
  · intro hdvd
    refine ⟨t / size, t % size, Nat.mod_lt t hsize, ?_, hdvd⟩
    rw [blockStart_const]
    exact (Nat.div_add_mod t _).symm

theorem fires_minutes (n t : Nat) :
    (RateUnit.minutes.cron n).Fires t ↔ ∃ s, t = s * 1 ∧ Stepped (fun _ => 60) n s := by
  constructor
  · rintro ⟨month, day, -, -, hminute, -⟩
    exact ⟨t, (Nat.mul_one t).symm, (stepped_const_iff (by decide) n t).mpr hminute⟩
  · rintro ⟨s, rfl, hs⟩
    rw [Nat.mul_one]
    rcases exists_block monthLength_pos _ with ⟨month, day, hday, heq⟩
    exact ⟨month, day, hday, heq, (stepped_const_iff (by decide) n s).mp hs, trivial, trivial,
      trivial, trivial⟩

theorem fires_hours (n t : Nat) :
    (RateUnit.hours.cron n).Fires t ↔ ∃ s, t = s * 60 ∧ Stepped (fun _ => 24) n s := by
  constructor
  · rintro ⟨month, day, -, -, hminute, hhour, -⟩
    have hminute : t % 60 = 0 := hminute
    exact ⟨t / 60, by omega, (stepped_const_iff (by decide) n _).mpr hhour⟩
  · rintro ⟨s, rfl, hs⟩
    rcases exists_block monthLength_pos _ with ⟨month, day, hday, heq⟩
    refine ⟨month, day, hday, heq, Nat.mul_mod_left s 60, ?_, trivial, trivial, trivial⟩
    rw [Nat.mul_div_cancel s (by decide)]
    exact (stepped_const_iff (by decide) n s).mp hs

theorem fires_days (n t : Nat) :
    (RateUnit.days.cron n).Fires t ↔ ∃ s, t = s * 1440 ∧ Stepped monthLength n s := by
  constructor
  · rintro ⟨month, day, hday, heq, hminute, hhour, hstep, -⟩
    have hminute : t % 60 = 0 := hminute
    have hhour : t / 60 % 24 = 0 := hhour
    exact ⟨t / 1440, by omega, month, day, hday, heq, hstep⟩
  · rintro ⟨s, rfl, month, day, hday, heq, hstep⟩
    refine ⟨month, day, hday, ?_, ?_, ?_, hstep, trivial, trivial⟩
    · rw [Nat.mul_div_cancel s (by decide), heq]
    · exact show s * 1440 % 60 = 0 by omega
    · exact show s * 1440 / 60 % 24 = 0 by omega

/-- The cron expression of a rate fires at the stated rate exactly if the number
    divides what the unit counts up to. -/
theorem spaced_cron_iff {n : Nat} (hn : 0 < n) (rateUnit : RateUnit) :
    Spaced (rateUnit.cron n).Fires (n * rateUnit.inMinutes) ↔ rateUnit.Divides n := by
  have hminutes : Spaced (RateUnit.minutes.cron n).Fires (n * 1) ↔ n ∣ 60 := by
    rw [spaced_mul_iff (by decide) (fires_minutes n), spaced_stepped_iff (by simp) hn]
    exact forall_const _
  have hhours : Spaced (RateUnit.hours.cron n).Fires (n * 60) ↔ n ∣ 24 := by
    rw [spaced_mul_iff (by decide) (fires_hours n), spaced_stepped_iff (by simp) hn]
    exact forall_const _
  have hdays : Spaced (RateUnit.days.cron n).Fires (n * 1440) ↔ n = 1 := by
    rw [spaced_mul_iff (by decide) (fires_days n), spaced_stepped_iff monthLength_pos hn,
      dvd_monthLength_iff]
  cases rateUnit with
  | minute | minutes => exact hminutes
  | hour | hours => exact hhours
  | day | days => exact hdays

/-! ### Texts -/

/-- What is assumed of the digits. Python does not read more than 4300 digits as a number. -/
structure Digits.Lawful (digits : Digits) : Prop where
  space : ∀ c, isSpace c = true → digits.digit c = none
  bracket : digits.digit ')' = none
  int_of_digits : ∀ text, text ≠ [] → (∀ c ∈ text, digits.isDecimal c = true) →
    digits.int text = if text.length ≤ 4300 then some (digits.value text : Int) else none

/-- The conversion raises an exception for the number. -/
def RateRefused (digits : Digits) (number : Text) (rateUnit : RateUnit) : Prop :=
  number = [] ∨ 4300 < number.length ∨ digits.value number = 0 ∨
    (digits.value number = 1 ∧ rateUnit.isPlural = true) ∨
    (1 < digits.value number ∧ rateUnit.isPlural = false)

theorem text_plain (rateUnit : RateUnit) :
    (rateUnit.text.all fun c => !isSpace c && c != ')') = true := by
  cases rateUnit <;> decide

theorem text_ne_nil (rateUnit : RateUnit) : rateUnit.text ≠ [] := by
  cases rateUnit <;> simp [RateUnit.text]

theorem rateParts_cases {digits : Digits} {schedule number : Text} {rateUnit : RateUnit}
    (h : rateParts digits schedule = some (number, rateUnit)) :
    ∃ c rest, schedule = ['r', 'a', 't', 'e', '('] ++
        (number ++ c :: (rateUnit.text ++ ')' :: rest)) ∧
      (∀ d ∈ number, digits.isDecimal d = true) ∧ isSpace c = true := by
  rw [rateParts] at h
  by_cases hstart : ['r', 'a', 't', 'e', '('].isPrefixOf schedule = true
  · rw [if_pos hstart] at h
    rcases isPrefixOf_iff_prefix.mp hstart with ⟨text, rfl⟩
    rw [drop_left' (by rfl)] at h
    have hsplit := takeWhile_append_dropWhile (p := digits.isDecimal) (l := text)
    cases hdrop : text.dropWhile digits.isDecimal with
    | nil =>
      rw [hdrop] at h
      cases h
    | cons c rest =>
      rw [hdrop] at h hsplit
      dsimp only at h
      by_cases hspace : isSpace c = true
      · rw [if_pos hspace] at h
        rcases Option.map_eq_some_iff.mp h with ⟨found, hfind, heq⟩
        rcases Prod.mk.inj heq with ⟨rfl, rfl⟩
        have hword : (found.text ++ [')']).isPrefixOf rest = true :=
          find?_some (p := fun unit : RateUnit => (unit.text ++ [')']).isPrefixOf rest) hfind
        rcases isPrefixOf_iff_prefix.mp hword with ⟨tail, htail⟩
        refine ⟨c, tail, ?_, fun d hd => mem_takeWhile_imp hd, hspace⟩
        rw [append_assoc] at htail
        rw [append_cancel_left_eq]
        exact hsplit.symm.trans (by rw [← htail]; rfl)
      · rw [if_neg hspace] at h
        cases h
  · rw [if_neg hstart] at h
    cases h

theorem strip_of_ends {text : Text} (hhead : ∀ c, text.head? = some c → isSpace c = false)
    (hlast : ∀ c, text.getLast? = some c → isSpace c = false) : strip text = text := by
  have hdrop : text.dropWhile isSpace = text := by
    cases text with
    | nil => rfl
    | cons c => rw [dropWhile_cons_of_neg (by simp [hhead c rfl])]
  rw [strip, hdrop, rdropWhile_eq_self_iff]
  intro hne
  rw [hlast _ (getLast?_eq_some_getLast hne)]
  exact Bool.false_ne_true

section Parts

variable {digits : Digits} (hlawful : digits.Lawful) {number : Text}
    {rateUnit : RateUnit} {c : Char}
  (hnumber : ∀ d ∈ number, digits.isDecimal d = true) (hspace : isSpace c = true)

include hlawful hnumber in
theorem number_plain : ∀ d ∈ number, isSpace d = false ∧ d ≠ ')' := by
  intro d hd
  have hdecimal := hnumber d hd
  refine ⟨?_, ?_⟩
  · by_contra hblank
    rw [Digits.isDecimal, hlawful.space d (by simpa using hblank)] at hdecimal
    exact absurd hdecimal (by simp)
  · rintro rfl
    rw [Digits.isDecimal, hlawful.bracket] at hdecimal
    exact absurd hdecimal (by simp)

include hlawful hnumber hspace in
theorem matchCall_rate (rest : Text) :
    matchCall ['r', 'a', 't', 'e']
      (['r', 'a', 't', 'e', '('] ++ (number ++ c :: (rateUnit.text ++ ')' :: rest))) =
        some (number ++ c :: rateUnit.text) := by
  have hplain := number_plain hlawful hnumber
  have hunit := all_eq_true.mp (text_plain rateUnit)
  have hc : c ≠ ')' := by
    rintro rfl
    exact absurd hspace (by decide)
  have hinside : ∀ d ∈ number ++ c :: rateUnit.text, (d != ')') = true := by
    intro d hd
    rw [bne_iff_ne]
    rcases mem_append.mp hd with hd | hd
    · exact (hplain d hd).2
    · rcases mem_cons.mp hd with rfl | hd
      · exact hc
      · have hd := hunit d hd
        simp only [Bool.and_eq_true, bne_iff_ne] at hd
        exact hd.2
  have hlist : number ++ c :: (rateUnit.text ++ ')' :: rest) =
      (number ++ c :: rateUnit.text) ++ ')' :: rest := by
    simp
  have htake : (number ++ c :: (rateUnit.text ++ ')' :: rest)).takeWhile (fun c => c != ')') =
      number ++ c :: rateUnit.text := by
    rw [hlist, takeWhile_append_of_pos hinside, takeWhile_cons_of_neg (by decide), append_nil]
  have hletter : isSpace 'r' = false := by decide
  have hopen : isSpace '(' = false := by decide
  simp [matchCall, hletter, hopen, htake]

include hlawful hnumber hspace in
theorem splitSpaces_rate :
    splitSpaces (number ++ c :: rateUnit.text) =
      if number = [] then [rateUnit.text] else [number, rateUnit.text] := by
  have hplain := number_plain hlawful hnumber
  have hunit : ∀ d ∈ rateUnit.text, isSpace d = false := by
    intro d hd
    have hd := all_eq_true.mp (text_plain rateUnit) d hd
    simp only [Bool.and_eq_true, Bool.not_eq_true'] at hd
    exact hd.1
  have hne := text_ne_nil rateUnit
  have hlast : ∀ d, rateUnit.text.getLast? = some d → isSpace d = false :=
    fun d hd => hunit d (mem_of_getLast? hd)
  by_cases hnil : number = []
  · -- Without digits the blank is at the start and is taken away.
    have hstrip : strip ([] ++ c :: rateUnit.text) = rateUnit.text := by
      have hdrop : ([] ++ c :: rateUnit.text).dropWhile isSpace = rateUnit.text.dropWhile isSpace :=
        dropWhile_cons_of_pos hspace
      have hends : strip rateUnit.text = rateUnit.text :=
        strip_of_ends (fun d hd => hunit d (mem_of_head? hd)) hlast
      rw [strip, hdrop, ← strip, hends]
    rw [hnil, splitSpaces, hstrip, if_neg hne, splitOnP_eq_singleton hunit, if_pos rfl]
    simp [hne]
  · have hstrip : strip (number ++ c :: rateUnit.text) = number ++ c :: rateUnit.text := by
      refine strip_of_ends (fun d hd => ?_) (fun d hd => ?_)
      · rw [head?_append_of_ne_nil _ hnil] at hd
        exact (hplain d (mem_of_head? hd)).1
      · rw [getLast?_append_cons, getLast?_cons_of_ne_nil hne] at hd
        exact hlast d hd
    rw [splitSpaces, hstrip, if_neg (by simp), if_neg hnil,
      splitOnP_append_cons_of_forall_mem (fun d hd => (hplain d hd).1) c hspace,
      splitOnP_eq_singleton hunit]
    simp [hnil, hne]

end Parts

theorem convertRate_of_value (digits : Digits) (schedule rate : Text) {number : Text}
    {rateUnit : RateUnit} {n : Nat} (hsplit : splitSpaces rate = [number, rateUnit.text])
    (hint : digits.int number = some (n : Int)) :
    (n = 0 ∨ (n = 1 ∧ rateUnit.isPlural = true) ∨ (1 < n ∧ rateUnit.isPlural = false) →
      ∃ e, convertRate digits schedule rate = .error e) ∧
    (n ≠ 0 → ¬ (n = 1 ∧ rateUnit.isPlural = true) → ¬ (1 < n ∧ rateUnit.isPlural = false) →
      convertRate digits schedule rate = .ok (.cron (rateUnit.cron n))) := by
  have hplural : rateUnit.text.getLast? = some 's' ↔ rateUnit.isPlural = true := by
    cases rateUnit <;> decide
  have hsingular : rateUnit.text.getLast? ≠ some 's' ↔ rateUnit.isPlural = false := by
    rw [Ne, hplural, Bool.not_eq_true]
  have hzero : (n : Int) < 1 ↔ n = 0 := by omega
  have hone : (n : Int) = 1 ↔ n = 1 := by omega
  have hmany : (1 : Int) < n ↔ 1 < n := by omega
  rw [convertRate, hsplit]
  simp only [hint, hzero, hone, hmany, hsingular, hplural, Int.toNat_natCast]
  constructor
  · intro h
    by_cases h0 : n = 0
    · exact ⟨_, if_pos h0⟩
    · rw [if_neg h0]
      by_cases h1 : n = 1 ∧ rateUnit.isPlural = true
      · exact ⟨_, if_pos h1⟩
      · rw [if_neg h1, if_pos ((h.resolve_left h0).resolve_left h1)]
        exact ⟨_, rfl⟩
  · intro h0 h1 h2
    rw [if_neg h0, if_neg h1, if_neg h2]
    cases rateUnit <;> rfl

/-- What the conversion makes of a rate that was accepted. -/
theorem convert_of_parts {digits : Digits} (hlawful : digits.Lawful) {schedule number : Text}
    {rateUnit : RateUnit} (h : rateParts digits schedule = some (number, rateUnit)) :
    (RateRefused digits number rateUnit → ∃ e, convertScheduleToCron digits schedule = .error e) ∧
    (¬ RateRefused digits number rateUnit → convertScheduleToCron digits schedule =
      .ok (.cron (rateUnit.cron (digits.value number)))) := by
  rcases rateParts_cases h with ⟨c, rest, hschedule, hnumber, hspace⟩
  have hcron : matchCall ['c', 'r', 'o', 'n'] schedule = none := by
    have hletter : isSpace 'r' = false := by decide
    rw [hschedule]
    simp [matchCall, hletter]
  have hrate : _ = some (_ ++ _ :: rateUnit.text) := matchCall_rate hlawful hnumber hspace rest
  rw [← hschedule] at hrate
  have hsplit : splitSpaces (_ ++ _ :: rateUnit.text) = _ := splitSpaces_rate hlawful hnumber hspace
  rw [convertScheduleToCron, hcron, hrate]
  dsimp only
  by_cases hnil : number = []
  · rw [if_pos hnil] at hsplit
    refine ⟨fun _ => ⟨.unpack, ?_⟩, fun hok => absurd (.inl hnil) hok⟩
    rw [convertRate, hsplit]
  · rw [if_neg hnil] at hsplit
    have hint := hlawful.int_of_digits _ hnil hnumber
    by_cases hlong : number.length ≤ 4300
    · rw [if_pos hlong] at hint
      have hconvert := convertRate_of_value _ schedule _ hsplit hint
      refine ⟨fun hrefused => hconvert.1 ?_, fun hok => hconvert.2 ?_ ?_ ?_⟩
      · exact (hrefused.resolve_left hnil).resolve_left (by omega)
      · exact fun h0 => hok (.inr (.inr (.inl h0)))
      · exact fun h1 => hok (.inr (.inr (.inr (.inl h1))))
      · exact fun h2 => hok (.inr (.inr (.inr (.inr h2))))
    · rw [if_neg hlong] at hint
      refine ⟨fun _ => ⟨.invalidLiteral, ?_⟩, fun hok => absurd (.inr (.inl (by omega))) hok⟩
      rw [convertRate, hsplit]
      dsimp only
      rw [hint]

/-- For every rate that is accepted, the conversion raises an exception or makes
    a cron expression that fires at the stated rate, exactly if the number is
    refused or divides what the unit counts up to. -/
theorem rate_iff (digits : Digits) (hlawful : digits.Lawful) (schedule number : Text)
    (rateUnit : RateUnit) (h : rateParts digits schedule = some (number, rateUnit)) :
    ((∃ e, convertScheduleToCron digits schedule = .error e) ∨
      ∃ cron, convertScheduleToCron digits schedule = .ok (.cron cron) ∧
        Spaced cron.Fires (digits.value number * rateUnit.inMinutes)) ↔
      RateRefused digits number rateUnit ∨ rateUnit.Divides (digits.value number) := by
  have hconvert := convert_of_parts hlawful h
  by_cases hrefused : RateRefused digits number rateUnit
  · exact ⟨fun _ => .inl hrefused, fun _ => .inl (hconvert.1 hrefused)⟩
  · have hpos : 0 < digits.value number := by
      rw [Nat.pos_iff_ne_zero]
      exact fun h0 => hrefused (.inr (.inr (.inl h0)))
    rw [hconvert.2 hrefused]
    constructor
    · rintro (⟨e, he⟩ | ⟨cron, hcron, hspaced⟩)
      · cases he
      · injection hcron with hcron
        injection hcron with hcron
        rw [← hcron] at hspaced
        exact .inr ((spaced_cron_iff hpos _).mp hspaced)
    · rintro (hno | hdvd)
      · exact absurd hno hrefused
      · exact .inr ⟨_, rfl, (spaced_cron_iff hpos _).mpr hdvd⟩

def asciiDigit (c : Char) : Option Nat := if c.isDigit then some (c.toNat - 48) else none

def asciiDigits : Digits where
  digit := asciiDigit
  int text :=
    if text ≠ [] ∧ text.length ≤ 4300 ∧ text.all (fun c => (asciiDigit c).isSome) = true then
      some (text.foldl (fun n c => 10 * n + (asciiDigit c).getD 0) 0 : Nat)
    else none

theorem asciiDigits_lawful : asciiDigits.Lawful where
  space c hc := by
    refine if_neg fun hdigit => ?_
    simp only [isSpace, Char.isDigit, Bool.or_eq_true, Bool.and_eq_true, decide_eq_true_eq,
      beq_iff_eq, ge_iff_le, UInt32.le_iff_toNat_le] at hc hdigit
    have htoNat : c.toNat = c.val.toNat := rfl
    have hlow : ('0' : Char).val.toNat = 48 := rfl
    have hhigh : ('9' : Char).val.toNat = 57 := rfl
    omega
  bracket := by decide
  int_of_digits text hne hall := by
    have hall : text.all (fun c => (asciiDigit c).isSome) = true := all_eq_true.mpr hall
    simp only [asciiDigits, Digits.value, hne, hall, ne_eq, not_false_eq_true, true_and, and_true]

theorem rate_of_quarter : ∃ cron,
    convertScheduleToCron asciiDigits "rate(15 minutes)".toList = .ok (.cron cron) ∧
      Spaced cron.Fires 15 := by
  have h := (rate_iff _ asciiDigits_lawful "rate(15 minutes)".toList ['1', '5'] .minutes
    (by decide +kernel)).mpr (.inr (by decide : 15 ∣ 60))
  have hok : (convertScheduleToCron asciiDigits "rate(15 minutes)".toList).isOk = true := by
    decide +kernel
  rcases h with ⟨e, he⟩ | h
  · rw [he] at hok
    exact absurd hok Bool.false_ne_true
  · exact h

/-- A rate of seven minutes also fires after four. -/
theorem seven_minutes_uneven :
    rateParts asciiDigits "rate(7 minutes)".toList = some (['7'], .minutes) ∧
      convertScheduleToCron asciiDigits "rate(7 minutes)".toList =
        .ok (.cron ⟨.step 7, .any, .any, .any, .any⟩) ∧
      ¬ Spaced (Cron.Fires ⟨.step 7, .any, .any, .any, .any⟩) (7 * 1) := by
  refine ⟨by decide +kernel, by decide +kernel, fun h => ?_⟩
  have hdvd : 7 ∣ 60 := (spaced_cron_iff (n := 7) (by decide) .minutes).mp h
  exact absurd hdvd (by decide)

end LocalEmu.Events
