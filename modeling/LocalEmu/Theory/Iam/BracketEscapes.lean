import LocalEmu.Base.Glob
import LocalEmu.Theory.Iam.Denial
import Mathlib.Data.List.Flatten

/-!
# Escaped Brackets

The second of the two replacements also finds the closing brackets that the first one has put
in. So an opening bracket of a pattern comes to stand for a pair of brackets.
-/

namespace LocalEmu.Iam

open List Glob

/-- A star is any text and a question mark any character. Every other character stands for
    itself, brackets too. -/
def GlobMatches (pattern text : String) : Prop :=
  Glob.Matches (wildcards anyChar anyChar pattern.toList) text.toList

/-- The first five parts match, and so does what is left. -/
def ArnGlobMatches (pattern arn : String) : Prop :=
  (∀ parts ∈ ((splitColons pattern).take 5).zip ((splitColons arn).take 5),
      GlobMatches parts.1 parts.2) ∧
    GlobMatches (":".intercalate ((splitColons pattern).drop 5))
      (":".intercalate ((splitColons arn).drop 5))

/-- The built-in functions with the matcher of `fnmatch`. -/
def Builtins.withFnmatch (py : Builtins) : Builtins :=
  { py with fnmatch := fun name pattern => Glob.fnmatch name.toList pattern.toList }

/-- A pattern in which each opening bracket has a closing one after it. -/
def doubled (pattern : Text) : Text :=
  pattern.flatMap fun c => if c = '[' then ['[', ']'] else [c]

/-! ### Escaping -/

theorem replaceAll_singleton (a : Char) (new : Text) (n : Nat) (text : Text)
    (h : text.length ≤ n) :
    replaceAll [a] new n text = text.flatMap fun c => if c = a then new else [c] := by
  induction n generalizing text with
  | zero =>
    rw [length_eq_zero_iff.mp (Nat.le_zero.mp h)]
    rfl
  | succ n ih =>
    cases text with
    | nil => rfl
    | cons c text =>
      have htext := ih _ (Nat.le_of_succ_le_succ h)
      rw [replaceAll, flatMap_cons]
      by_cases hc : c = a
      · rw [if_pos (by simp [hc]), if_pos hc]
        exact congrArg _ htext
      · rw [if_neg (by simpa using Ne.symm hc), if_neg hc, htext]
        rfl

theorem toList_replaceText (a : Char) (text part new : String) (h : part.toList = [a]) :
    (replaceText text part new).toList =
      text.toList.flatMap fun c => if c = a then new.toList else [c] := by
  rw [replaceText, String.toList_ofList, h, replaceAll_singleton _ _ _ _ (Nat.le_refl _)]

def escaped (c : Char) : Text :=
  if c = '[' then "[[[]]".toList else if c = ']' then "[]]".toList else [c]

theorem toList_escapeBrackets (pattern : String) :
    (escapeBrackets pattern).toList = pattern.toList.flatMap escaped := by
  rw [escapeBrackets, toList_replaceText ']' _ _ _ rfl, toList_replaceText '[' _ _ _ rfl,
    flatMap_assoc]
  refine flatMap_congr fun c _ => ?_
  unfold escaped
  by_cases hopen : c = '['
  · rw [if_pos hopen, if_pos hopen]
    rfl
  · rw [if_neg hopen, if_neg hopen, flatMap_singleton]

/-! ### Matching -/

theorem translate_escaped (c : Char) (rest : Text) :
    translate 0 (escaped c ++ rest) =
      wildcards anyChar anyChar (doubled [c]) ++ translate 0 rest := by
  have hone (c d : Char) : (c == d || false) = (d == c) := by
    rw [Bool.or_false, BEq.comm]
  by_cases hopen : c = '['
  · have hset : inSet ['[', '['] = (· == '[') := by
      funext d
      exact (Bool.or_self_left _ _).trans (hone _ d)
    subst hopen
    change Piece.one (inSet ['[', '[']) :: .one (· == ']') :: translate 0 rest = _
    rw [hset]
    rfl
  · by_cases hclose : c = ']'
    · have hset : inSet [']'] = (· == ']') := funext fun d => hone _ d
      subst hclose
      change Piece.one (inSet [']']) :: translate 0 rest = _
      rw [hset]
      rfl
    · simp [escaped, doubled, Glob.translate, wildcards, hopen, hclose]

variable (py : Builtins)

/-- The matcher on an escaped pattern. -/
theorem fnmatch_escapeBrackets (text pattern : String) :
    py.withFnmatch.fnmatch text (escapeBrackets pattern) =
      glob (wildcards anyChar anyChar (doubled pattern.toList)) text.toList := by
  have htranslate (pattern : Text) :
      translate 0 (pattern.flatMap escaped) = wildcards anyChar anyChar (doubled pattern) := by
    induction pattern with
    | nil => rfl
    | cons c pattern ih =>
      rw [flatMap_cons, translate_escaped, ih]
      simp [doubled, wildcards]
  simp only [Builtins.withFnmatch, Glob.fnmatch, toList_escapeBrackets, htranslate]

/-! ### Patterns with an opening bracket -/

theorem doubled_of_not_mem (pattern : Text) (h : '[' ∉ pattern) : doubled pattern = pattern := by
  induction pattern with
  | nil => rfl
  | cons c pattern ih =>
    rw [mem_cons, not_or] at h
    rw [doubled, flatMap_cons, if_neg (Ne.symm h.1)]
    exact congrArg _ (ih h.2)

theorem matches_withoutStars (pattern : Text) :
    Glob.Matches (wildcards anyChar anyChar pattern) (pattern.filter (· != '*')) := by
  induction pattern with
  | nil => rfl
  | cons c pattern ih =>
    by_cases hstar : c = '*'
    · subst hstar
      exact ⟨[], _, rfl, by simp, ih⟩
    · rw [filter_cons_of_pos (by simpa using hstar), wildcards, map_cons, wildcard, if_neg hstar]
      by_cases hquestion : c = '?'
      · rw [if_pos hquestion]
        exact ⟨c, _, rfl, rfl, ih⟩
      · rw [if_neg hquestion]
        exact ⟨c, _, rfl, beq_self_eq_true c, ih⟩

theorem length_le_of_matches (pattern text : Text)
    (h : Glob.Matches (wildcards anyChar anyChar pattern) text) :
    (pattern.filter (· != '*')).length ≤ text.length := by
  induction pattern generalizing text with
  | nil => exact Nat.zero_le _
  | cons c pattern ih =>
    rw [wildcards, map_cons, wildcard] at h
    by_cases hstar : c = '*'
    · rw [if_pos hstar] at h
      rcases h with ⟨run, rest, rfl, -, h⟩
      have := ih _ h
      rw [filter_cons_of_neg (by simp [hstar]), length_append]
      omega
    · rw [if_neg hstar] at h
      have hrest : ∃ d rest, text = d :: rest ∧
          Glob.Matches (wildcards anyChar anyChar pattern) rest := by
        split at h
        · rcases h with ⟨d, rest, htext, -, h⟩
          exact ⟨d, rest, htext, h⟩
        · rcases h with ⟨d, rest, htext, -, h⟩
          exact ⟨d, rest, htext, h⟩
      rcases hrest with ⟨d, rest, rfl, hrest⟩
      rw [filter_cons_of_pos (by simpa using hstar)]
      exact Nat.succ_le_succ (ih _ hrest)

theorem length_doubled (pattern : Text) : ((doubled pattern).filter (· != '*')).length =
    (pattern.filter (· != '*')).length + pattern.count '[' := by
  induction pattern with
  | nil => rfl
  | cons c pattern ih =>
    rw [doubled, flatMap_cons, filter_append, length_append, ← doubled, ih]
    by_cases hopen : c = '['
    · simp [hopen]
      omega
    · by_cases hstar : c = '*'
      · simp [hstar]
      · simp [hopen, hstar]
        omega

/-! ### Resource names -/

theorem mem_intercalate_iff (x : Char) (sep : Text) (hx : x ∉ sep) (parts : List Text) :
    x ∈ sep.intercalate parts ↔ ∃ part ∈ parts, x ∈ part := by
  induction parts with
  | nil => simp
  | cons part parts ih =>
    cases parts with
    | nil => simp
    | cons next parts =>
      rw [intercalate_cons_cons, mem_append, mem_append, ih, or_assoc, or_iff_right hx]
      simp

theorem not_mem_parts (x : Char) (hx : x ≠ ':') (text : String) (h : x ∉ text.toList) :
    ∀ part ∈ splitColons text, x ∉ part.toList := by
  intro part hpart hmem
  rcases mem_map.mp hpart with ⟨l, hl, rfl⟩
  rw [String.toList_ofList] at hmem
  refine h ?_
  rw [← @intercalate_splitOn _ text.toList _ _ ':', mem_intercalate_iff x _ (by simpa using hx)]
  exact ⟨l, hl, hmem⟩

theorem fnmatch_iff_of_not_mem (pattern text : String) (h : '[' ∉ pattern.toList) :
    py.withFnmatch.fnmatch text (escapeBrackets pattern) = true ↔ GlobMatches pattern text := by
  rw [fnmatch_escapeBrackets, glob_iff, doubled_of_not_mem _ h, GlobMatches]

/-- Escaping is exact for a pattern if and only if it has no opening bracket. -/
theorem escape_exact_iff (pattern : String) :
    ((∀ text, py.withFnmatch.fnmatch text (escapeBrackets pattern) = true ↔
        GlobMatches pattern text) ∧
      (6 ≤ (splitColons pattern).length → ∀ arn, 6 ≤ (splitColons arn).length →
        (arnMatches py.withFnmatch pattern arn = true ↔ ArnGlobMatches pattern arn))) ↔
      '[' ∉ pattern.toList := by
  constructor
  · rintro ⟨h, -⟩ hopen
    have hmatch := (h _).mpr (by
      rw [GlobMatches, String.toList_ofList]
      exact matches_withoutStars _)
    rw [fnmatch_escapeBrackets, glob_iff, String.toList_ofList] at hmatch
    have hlen := length_le_of_matches _ _ hmatch
    rw [length_doubled] at hlen
    have := count_pos_iff.mpr hopen
    omega
  · intro hno
    refine ⟨fun text => fnmatch_iff_of_not_mem py _ _ hno, fun hpattern arn harn => ?_⟩
    have hparts := not_mem_parts '[' (by decide) _ hno
    have hstar : (pattern == "*") = false := by
      rw [beq_eq_false_iff_ne]
      rintro rfl
      revert hpattern
      decide
    simp only [arnMatches, hstar, Bool.false_eq_true, if_false]
    rw [if_pos (by simpa using ⟨hpattern, harn⟩), Bool.and_eq_true, all_eq_true,
      fnmatch_iff_of_not_mem]
    · refine and_congr_left fun _ => forall₂_congr fun parts hin => ?_
      exact fnmatch_iff_of_not_mem py _ _
        (hparts _ (mem_of_mem_take (of_mem_zip hin).1))
    · rw [String.toList_intercalate, mem_intercalate_iff _ _ (by decide)]
      rintro ⟨_, hmem, hx⟩
      rcases mem_map.mp hmem with ⟨part, hpart, rfl⟩
      exact hparts _ (mem_of_mem_drop hpart) hx

/-- A name with brackets does not match itself. -/
theorem bracket_not_matched :
    ¬(plainBuiltins.withFnmatch.fnmatch "a[1]" (escapeBrackets "a[1]") = true ↔
      GlobMatches "a[1]" "a[1]") := by
  intro h
  rw [fnmatch_escapeBrackets, GlobMatches] at h
  revert h
  decide

end LocalEmu.Iam
