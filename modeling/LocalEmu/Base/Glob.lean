import LocalEmu.Base.Text

/-!
# Glob Patterns

A pattern is a sequence of pieces, each of which stands for one character of a class, or
for any number of them. A star and a question mark are pieces with two classes of their
own, every other character is a piece with itself in its class.

The matcher `fnmatch` of Python reads such patterns. It takes brackets for a class of
characters, wherever they are closed, and otherwise takes a bracket for itself.
-/

namespace LocalEmu.Glob

/-- A piece of a pattern: one character of a class, or any number of them. -/
inductive Piece
  | one (p : Char → Bool)
  | many (p : Char → Bool)

/-- A text is made of characters of the pieces. -/
def Matches : List Piece → Text → Prop
  | [], text => text = []
  | .one p :: pieces, text => ∃ c rest, text = c :: rest ∧ p c = true ∧ Matches pieces rest
  | .many p :: pieces, text => ∃ run rest, text = run ++ rest ∧ (∀ c ∈ run, p c = true) ∧
      Matches pieces rest

/-- What may be left of a text after characters of a class. -/
def tailsAfter (p : Char → Bool) : Text → List Text
  | [] => [[]]
  | c :: rest => (c :: rest) :: if p c then tailsAfter p rest else []

/-- The matcher. -/
def glob : List Piece → Text → Bool
  | [], text => text.isEmpty
  | .one _ :: _, [] => false
  | .one p :: pieces, c :: rest => p c && glob pieces rest
  | .many p :: pieces, text => (tailsAfter p text).any (glob pieces)

/-- The piece of a character: a star and a question mark have classes of their own. -/
def wildcard (star question : Char → Bool) (c : Char) : Piece :=
  if c = '*' then .many star
  else if c = '?' then .one question
  else .one (· == c)

/-- A pattern with stars and question marks. -/
def wildcards (star question : Char → Bool) (pattern : Text) : List Piece :=
  pattern.map (wildcard star question)

def anyChar : Char → Bool := fun _ => true

/-! ### The matcher -/

theorem mem_tailsAfter (p : Char → Bool) (text rest : Text) :
    rest ∈ tailsAfter p text ↔ ∃ run, text = run ++ rest ∧ ∀ c ∈ run, p c = true := by
  induction text with
  | nil =>
    rw [tailsAfter, List.mem_singleton]
    constructor
    · intro h
      exact ⟨[], h.symm ▸ rfl, fun c hc => absurd hc List.not_mem_nil⟩
    · intro h
      rcases h with ⟨run, htext, _⟩
      exact (List.append_eq_nil_iff.mp htext.symm).2
  | cons c text ih =>
    rw [tailsAfter, List.mem_cons]
    constructor
    · intro h
      rcases h with h | h
      · exact ⟨[], h.symm, fun d hd => absurd hd List.not_mem_nil⟩
      · by_cases hc : p c = true
        · rw [if_pos hc] at h
          rcases ih.mp h with ⟨run, htext, hrun⟩
          refine ⟨c :: run, by rw [htext]; rfl, fun d hd => ?_⟩
          rcases List.mem_cons.mp hd with hd | hd
          · rw [hd]
            exact hc
          · exact hrun d hd
        · rw [if_neg hc] at h
          exact absurd h List.not_mem_nil
    · intro h
      rcases h with ⟨run, htext, hrun⟩
      cases run with
      | nil => exact .inl htext.symm
      | cons d run =>
        rcases List.cons.inj htext with ⟨hd, htext⟩
        have hc : p c = true := hd ▸ hrun d List.mem_cons_self
        rw [if_pos hc]
        exact .inr (ih.mpr ⟨run, htext, fun e he => hrun e (List.mem_cons_of_mem d he)⟩)

/-- The matcher decides what is matched. -/
theorem glob_iff (pieces : List Piece) (text : Text) :
    glob pieces text = true ↔ Matches pieces text := by
  induction pieces generalizing text with
  | nil => exact List.isEmpty_iff
  | cons piece pieces ih =>
    cases piece with
    | one =>
      cases text with
      | nil =>
        refine ⟨fun h => absurd h (by simp [glob]), fun h => ?_⟩
        rcases h with ⟨c, rest, h, _⟩
        cases h
      | cons c text =>
        rw [glob, Bool.and_eq_true, ih]
        constructor
        · intro h
          exact ⟨c, text, rfl, h.1, h.2⟩
        · intro h
          rcases h with ⟨d, rest, htext, hp, h⟩
          rcases List.cons.inj htext with ⟨rfl, rfl⟩
          exact ⟨hp, h⟩
    | many p =>
      rw [glob, List.any_eq_true]
      constructor
      · intro h
        rcases h with ⟨rest, hrest, h⟩
        rcases (mem_tailsAfter p _ _).mp hrest with ⟨run, htext, hrun⟩
        exact ⟨run, rest, htext, hrun, (ih _).mp h⟩
      · intro h
        rcases h with ⟨run, rest, htext, hrun, h⟩
        exact ⟨rest, (mem_tailsAfter p _ _).mpr ⟨run, htext, hrun⟩, (ih _).mpr h⟩

instance (pieces : List Piece) (text : Text) : Decidable (Matches pieces text) :=
  decidable_of_iff _ (glob_iff pieces text)

/-! ### `fnmatch` -/

/-- How many characters there are between a bracket and the one that closes it. -/
def setLength (text : Text) : Option Nat :=
  let negation := if text.head? = some '!' then 1 else 0
  let first := if (text.drop negation).head? = some ']' then 1 else 0
  ((text.drop (negation + first)).findIdx? (· == ']')).map (· + (negation + first))

def inRanges : Text → Char → Bool
  | lo :: '-' :: hi :: set, c => (decide (lo ≤ c) && decide (c ≤ hi)) || inRanges set c
  | d :: set, c => d == c || inRanges set c
  | [], _ => false

def inSet : Text → Char → Bool
  | '!' :: set, c => !inRanges set c
  | set, c => inRanges set c

/-- `fnmatch.translate(pattern)`, after some characters of a set. -/
def translate : Nat → Text → List Piece
  | _, [] => []
  | skipped + 1, _ :: pattern => translate skipped pattern
  | 0, c :: pattern =>
    if c = '[' then
      match setLength pattern with
      | some n => .one (inSet (pattern.take n)) :: translate (n + 1) pattern
      | none => .one (· == '[') :: translate 0 pattern
    else wildcard anyChar anyChar c :: translate 0 pattern

/-- `fnmatch.fnmatch(text, pattern)`, on a system that does not change the case. -/
def fnmatch (text pattern : Text) : Bool := glob (translate 0 pattern) text

/-- A bracket of the pattern is closed. -/
def hasSet : Text → Bool
  | [] => false
  | c :: pattern => (c == '[' && (setLength pattern).isSome) || hasSet pattern

theorem translate_eq_wildcards (pattern : Text) (h : hasSet pattern = false) :
    translate 0 pattern = wildcards anyChar anyChar pattern := by
  induction pattern with
  | nil => rfl
  | cons c pattern ih =>
    rw [hasSet, Bool.or_eq_false_iff, Bool.and_eq_false_iff] at h
    rw [translate, ih h.2, wildcards, wildcards, List.map_cons]
    by_cases hc : c = '['
    · subst hc
      have hset : setLength pattern = none := by
        rcases h.1 with h | h
        · cases h
        · exact Option.isSome_eq_false_iff.mp h |> Option.isNone_iff_eq_none.mp
      rw [hset]
      rfl
    · rw [if_neg hc]

/-- Without closed brackets a star is any text, a question mark any character, and every other
    character itself. -/
theorem fnmatch_eq_glob (text pattern : Text) (h : hasSet pattern = false) :
    fnmatch text pattern = glob (wildcards anyChar anyChar pattern) text := by
  rw [fnmatch, translate_eq_wildcards _ h]

example : fnmatch "/a[b].txt".toList "/a[b].txt".toList = false := by decide

end LocalEmu.Glob
