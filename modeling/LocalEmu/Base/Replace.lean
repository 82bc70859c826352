import Mathlib.Data.List.Infix

/-!
# Replacing Parts of a List

All the occurrences of a part are replaced from left to right, and what comes in their place is
not looked at again. The part ends with an element that it has nowhere else, like a word with its
marker. So its occurrences do not overlap.

A list may be given as pieces, some of which are meant to be replaced. They are replaced and
nothing else is, if the part does not occur anywhere else. That is also necessary unless the part
is replaced by itself.
-/

namespace LocalEmu.Replace

open List

variable {α : Type}

/-- An element, or a place where the part is meant. -/
abbrev Piece (α : Type) := Option α

/-- The pieces with a list at the places. -/
def render (new : List α) (pieces : List (Piece α)) : List α :=
  pieces.flatMap fun piece => (piece.map fun c => [c]).getD new

def places : List (Piece α) → Nat
  | [] => 0
  | some _ :: pieces => places pieces
  | none :: pieces => places pieces + 1

/-! ### Pieces -/

section Pieces

variable (new : List α)

@[simp]
theorem render_nil : render new [] = [] := rfl

@[simp]
theorem render_some (c : α) (pieces : List (Piece α)) :
    render new (some c :: pieces) = c :: render new pieces := rfl

@[simp]
theorem render_none (pieces : List (Piece α)) :
    render new (none :: pieces) = new ++ render new pieces := rfl

theorem render_append (pieces pieces' : List (Piece α)) :
    render new (pieces ++ pieces') = render new pieces ++ render new pieces' :=
  flatMap_append

theorem render_map_some (text : List α) : render new (text.map some) = text := by
  induction text with
  | nil => rfl
  | cons c text ih => rw [map_cons, render_some, ih]

omit new in
@[simp]
theorem places_map_some (text : List α) : places (text.map some) = 0 := by
  induction text with
  | nil => rfl
  | cons c text ih => exact ih

omit new in
theorem places_append (pieces pieces' : List (Piece α)) :
    places (pieces ++ pieces') = places pieces + places pieces' := by
  induction pieces with
  | nil => exact (Nat.zero_add _).symm
  | cons piece pieces ih =>
    cases piece with
    | some => exact ih
    | none =>
      rw [cons_append, places, places, ih]
      omega

theorem length_render (part : List α) (pieces : List (Piece α)) :
    (render new pieces).length + places pieces * part.length =
      (render part pieces).length + places pieces * new.length := by
  induction pieces with
  | nil => simp [places]
  | cons piece =>
    cases piece with
    | some =>
      simp only [render_some, length_cons, places]
      omega
    | none =>
      simp only [render_none, length_append, places, Nat.add_mul]
      omega

end Pieces

/-! ### The loop -/

variable [DecidableEq α]

/-- The rest of the loop of `replaceAll`, with the number of elements that belong to an
    occurrence that was replaced. -/
def replaceFrom (part new : List α) : Nat → List α → List α
  | _, [] => []
  | skipped + 1, _ :: rest => replaceFrom part new skipped rest
  | 0, c :: rest =>
    if part <+: c :: rest then new ++ replaceFrom part new (part.length - 1) rest
    else c :: replaceFrom part new 0 rest

/-- `text.replace(part, new)`, for a part that is not empty. -/
def replaceAll (part new text : List α) : List α := replaceFrom part new 0 text

/-- The number of the places where a part occurs. -/
def count (part : List α) : List α → Nat
  | [] => 0
  | c :: rest => (if part <+: c :: rest then 1 else 0) + count part rest

section Loop

variable {part new : List α}

@[simp]
theorem replaceAll_nil : replaceAll part new [] = [] := rfl

theorem replaceFrom_append (s t : List α) :
    replaceFrom part new s.length (s ++ t) = replaceAll part new t := by
  induction s with
  | nil => rfl
  | cons c s ih => exact ih

theorem replaceAll_append (hpart : part ≠ []) (t : List α) :
    replaceAll part new (part ++ t) = new ++ replaceAll part new t := by
  cases part with
  | nil => exact absurd rfl hpart
  | cons c p =>
    have hpre : c :: p <+: c :: (p ++ t) := prefix_append _ t
    rw [cons_append, replaceAll, replaceFrom, if_pos hpre]
    exact congrArg (new ++ ·) (replaceFrom_append p t)

theorem replaceAll_cons (c : α) (t : List α) (h : ¬part <+: c :: t) :
    replaceAll part new (c :: t) = c :: replaceAll part new t := by
  rw [replaceAll, replaceFrom, if_neg h]
  rfl

theorem count_cons_of_not (c : α) (t : List α) (h : ¬part <+: c :: t) :
    count part (c :: t) = count part t := by
  rw [count, if_neg h, Nat.zero_add]

theorem count_cons_of_prefix (c : α) (t : List α) (h : part <+: c :: t) :
    count part (c :: t) = count part t + 1 := by
  rw [count, if_pos h, Nat.add_comm]

end Loop

/-! ### Parts with an end -/

section Marked

variable {body : List α} {last : α} (hlast : last ∉ body)

include hlast

omit [DecidableEq α] in
theorem not_prefix_suffix {u w : List α} (hbody : body = u ++ w) (hu : u ≠ []) (t : List α) :
    ¬body ++ [last] <+: w ++ last :: t := by
  intro hpre
  have hlength : (w ++ [last]).length ≤ body.length := by
    rw [hbody, length_append, length_append, length_singleton]
    have := length_pos_of_ne_nil hu
    omega
  have hmarked : w ++ [last] <+: w ++ last :: t := ⟨t, by rw [append_assoc]; rfl⟩
  have hshort := prefix_of_prefix_length_le hmarked ((prefix_append body [last]).trans hpre) hlength
  exact hlast (hshort.subset (mem_append_right w mem_cons_self))

theorem count_suffix {u w : List α} (hbody : body = u ++ w) (hu : u ≠ []) (t : List α) :
    count (body ++ [last]) (w ++ last :: t) = count (body ++ [last]) t := by
  induction w generalizing u with
  | nil => exact count_cons_of_not _ t (not_prefix_suffix hlast hbody hu t)
  | cons c w ih =>
    have hfirst : count (body ++ [last]) (c :: (w ++ last :: t)) =
        count (body ++ [last]) (w ++ last :: t) :=
      count_cons_of_not c _ (not_prefix_suffix hlast hbody hu t)
    refine hfirst.trans (ih (u := u ++ [c]) ?_ (by simp))
    rw [hbody, append_assoc]
    rfl

theorem count_append (t : List α) :
    count (body ++ [last]) (body ++ [last] ++ t) = count (body ++ [last]) t + 1 := by
  have hpre : body ++ [last] <+: body ++ last :: t := ⟨t, by rw [append_assoc]; rfl⟩
  rw [append_assoc]
  cases hbody : body with
  | nil =>
    rw [hbody] at hpre
    exact count_cons_of_prefix _ t hpre
  | cons c w =>
    have hrest := count_suffix hlast (u := [c]) hbody (cons_ne_nil c []) t
    rw [hbody] at hpre hrest
    have hfirst := count_cons_of_prefix c (w ++ last :: t) hpre
    rw [hrest] at hfirst
    exact hfirst

theorem places_le_count (pieces : List (Piece α)) :
    places pieces ≤ count (body ++ [last]) (render (body ++ [last]) pieces) := by
  induction pieces with
  | nil => exact Nat.le_refl 0
  | cons piece =>
    cases piece with
    | some =>
      rw [render_some, places, count]
      omega
    | none =>
      rw [render_none, places, count_append hlast]
      omega

/-- The pieces are replaced if the part does not occur anywhere else. -/
theorem replaceAll_render (new : List α) (pieces : List (Piece α))
    (h : count (body ++ [last]) (render (body ++ [last]) pieces) = places pieces) :
    replaceAll (body ++ [last]) new (render (body ++ [last]) pieces) = render new pieces := by
  induction pieces with
  | nil => rfl
  | cons piece pieces ih =>
    cases piece with
    | none =>
      rw [render_none, places, count_append hlast] at h
      rw [render_none, replaceAll_append (by simp), ih (by omega), render_none]
    | some c =>
      have hle := places_le_count hlast pieces
      rw [render_some, places] at h
      by_cases hpre : body ++ [last] <+: c :: render (body ++ [last]) pieces
      · rw [count, if_pos hpre] at h
        omega
      · rw [count_cons_of_not c _ hpre] at h
        rw [render_some, replaceAll_cons c _ hpre, ih h, render_some]

omit [DecidableEq α] in
theorem eq_map_some_of_suffix {u w : List α} (hbody : body = u ++ w) (hu : u ≠ [])
    (pieces : List (Piece α)) (hpre : w ++ [last] <+: render (body ++ [last]) pieces) :
    ∃ rest, pieces = (w ++ [last]).map some ++ rest := by
  induction w generalizing u pieces with
  | nil =>
    cases pieces with
    | nil => simp at hpre
    | cons piece pieces =>
      cases piece with
      | some =>
        rw [render_some, nil_append, cons_prefix_cons] at hpre
        exact ⟨pieces, by rw [hpre.1]; rfl⟩
      | none =>
        exfalso
        rw [append_nil] at hbody
        cases hu' : u with
        | nil => exact hu hu'
        | cons =>
          rw [hu'] at hbody
          rw [hbody, render_none, cons_append, cons_append, nil_append, cons_prefix_cons] at hpre
          exact hlast (by rw [hbody, hpre.1]; exact mem_cons_self)
  | cons c w ih =>
    cases pieces with
    | nil => simp at hpre
    | cons piece pieces =>
      cases piece with
      | some =>
        rw [render_some, cons_append, cons_prefix_cons] at hpre
        rcases ih (u := u ++ [c]) (by rw [hbody, append_assoc]; rfl) (by simp) pieces
          hpre.2 with ⟨rest, hrest⟩
        exact ⟨rest, by rw [hrest, hpre.1]; rfl⟩
      | none =>
        exfalso
        rw [render_none] at hpre
        have hlength : ((c :: w) ++ [last]).length ≤ body.length := by
          rw [hbody, length_append, length_append, length_singleton]
          have := length_pos_of_ne_nil hu
          omega
        have hshort := prefix_of_prefix_length_le hpre
          ((prefix_append body [last]).trans (prefix_append _ _)) hlength
        exact hlast (hshort.subset (mem_append_right (c :: w) mem_cons_self))

omit [DecidableEq α] in
theorem eq_map_some_of_prefix (c : α) (pieces : List (Piece α))
    (hpre : body ++ [last] <+: c :: render (body ++ [last]) pieces) :
    ∃ rest, some c :: pieces = (body ++ [last]).map some ++ rest := by
  cases hbody : body with
  | nil =>
    rw [hbody, nil_append, cons_prefix_cons] at hpre
    exact ⟨pieces, by rw [hpre.1]; rfl⟩
  | cons d w =>
    have hrest : w ++ [last] <+: render (body ++ [last]) pieces := by
      have hcons := hpre
      rw [hbody, cons_append, cons_prefix_cons, ← cons_append, ← hbody] at hcons
      exact hcons.2
    have hfirst : d = c := by
      rw [hbody, cons_append, cons_prefix_cons] at hpre
      exact hpre.1
    rcases eq_map_some_of_suffix hlast (u := [d]) hbody (cons_ne_nil d []) pieces hrest with
      ⟨rest, heq⟩
    exact ⟨rest, by rw [heq, hfirst]; rfl⟩

theorem length_replaceAll (new text : List α) :
    (replaceAll (body ++ [last]) new text).length +
        count (body ++ [last]) text * (body ++ [last]).length =
      text.length + count (body ++ [last]) text * new.length := by
  induction h : text.length using Nat.strong_induction_on generalizing text with
  | _ n ih =>
    cases text with
    | nil => simp [count, ← h]
    | cons c t =>
      by_cases hpre : body ++ [last] <+: c :: t
      · rcases hpre with ⟨rest, hrest⟩
        have hlength := congrArg length hrest
        rw [length_append, length_append, length_singleton] at hlength
        have hrec := ih rest.length (by rw [← h]; omega) _ rfl
        rw [← hrest, replaceAll_append (by simp), count_append hlast, Nat.add_mul, Nat.add_mul]
        simp only [length_append, length_singleton] at hrec ⊢
        omega
      · have hrec := ih _ (by rw [← h]; exact Nat.lt_succ_self _) t rfl
        rw [← h, replaceAll_cons c t hpre, count_cons_of_not c t hpre]
        simp only [length_cons] at hrec ⊢
        omega

omit hlast in
theorem replaceAll_self (text : List α) :
    replaceAll (body ++ [last]) (body ++ [last]) text = text := by
  induction h : text.length using Nat.strong_induction_on generalizing text with
  | _ n ih =>
    cases text with
    | nil => rfl
    | cons c t =>
      by_cases hpre : body ++ [last] <+: c :: t
      · rcases hpre with ⟨rest, hrest⟩
        have hlength := congrArg length hrest
        rw [length_append, length_append, length_singleton] at hlength
        rw [← hrest, replaceAll_append (by simp),
          ih rest.length (by rw [← h, ← hlength]; omega) rest rfl]
      · rw [replaceAll_cons c t hpre,
          ih t.length (by rw [← h]; exact Nat.lt_succ_self _) t rfl]

-- Where a list of the same length comes for an occurrence that is no place, this is seen.
theorem eq_of_replaceAll_render {new : List α} (hlength : new.length = (body ++ [last]).length)
    (pieces : List (Piece α))
    (h : replaceAll (body ++ [last]) new (render (body ++ [last]) pieces) = render new pieces) :
    new = body ++ [last] ∨
      count (body ++ [last]) (render (body ++ [last]) pieces) = places pieces := by
  induction pieces with
  | nil => exact .inr rfl
  | cons piece pieces ih =>
    cases piece with
    | none =>
      rw [render_none, replaceAll_append (by simp), render_none, append_cancel_left_eq] at h
      rw [render_none, count_append hlast]
      exact (ih h).imp_right (congrArg _)
    | some c =>
      by_cases hpre : body ++ [last] <+: c :: render (body ++ [last]) pieces
      · rcases eq_map_some_of_prefix hlast c _ hpre with ⟨rest, hrest⟩
        rw [hrest, render_append, render_append, render_map_some, render_map_some,
          replaceAll_append (by simp)] at h
        exact .inl (append_inj h hlength).1
      · rw [render_some, replaceAll_cons c _ hpre, render_some, cons.injEq] at h
        rw [render_some, count_cons_of_not c _ hpre]
        exact ih h.2

/-- Just the places are replaced exactly if the part does not occur anywhere else, or is replaced
    by itself. -/
theorem replaceAll_render_iff (new : List α) (pieces : List (Piece α)) :
    replaceAll (body ++ [last]) new (render (body ++ [last]) pieces) = render new pieces ↔
      new = body ++ [last] ∨
        count (body ++ [last]) (render (body ++ [last]) pieces) = places pieces := by
  constructor
  · intro h
    by_cases hlength : new.length = (body ++ [last]).length
    · exact eq_of_replaceAll_render hlast hlength _ h
    · right
      have hreplaced := length_replaceAll hlast new (render (body ++ [last]) pieces)
      have hrendered := length_render new (body ++ [last]) pieces
      have hle := places_le_count hlast pieces
      rw [h] at hreplaced
      rcases Nat.exists_eq_add_of_le hle with ⟨more, hmore⟩
      rw [hmore, Nat.add_mul, Nat.add_mul] at hreplaced
      have hsame : more * (body ++ [last]).length = more * new.length := by omega
      rcases Nat.eq_zero_or_pos more with hzero | hpos
      · rw [hmore, hzero, Nat.add_zero]
      · exact absurd (Nat.eq_of_mul_eq_mul_left hpos hsame).symm hlength
  · rintro (rfl | h)
    · exact replaceAll_self _
    · exact replaceAll_render hlast _ _ h

end Marked

end LocalEmu.Replace
