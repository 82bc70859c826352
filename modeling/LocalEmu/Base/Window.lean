import Mathlib.Data.List.Induction
import Mathlib.Order.Lattice

/-!
# De-duplication Windows

A stream of requests, each with a key, a group and a time. A request is
admitted unless an admitted one with its key conflicts with it: it is recent
enough and, where groups matter, of the same group.

Two rules decide this. `admits` looks at every admitted request. `lastAdmits`
looks only at the last admitted one with the key, as a table with one entry
for each key does. Where groups do not matter the two agree. Where they do,
the last admitted request may hide one of another group, and they agree
exactly on the streams that are not `Interleaved`.

Logs list the admitted requests with the latest first.
-/

namespace LocalEmu.Window

open List

/-- A request. -/
structure Request (κ γ τ β : Type) where
  key : κ
  group : γ
  time : τ
  payload : β

variable {κ γ τ β : Type}

section Rules

variable [DecidableEq κ] [DecidableEq γ] [LinearOrder τ] (expires : τ → τ) (grouped : Bool)

/-- The request `x` falls into the window of the earlier request `e`. -/
def conflict (e x : Request κ γ τ β) : Bool :=
  decide (x.time < expires e.time) && (!grouped || decide (x.group = e.group))

variable (log : List (Request κ γ τ β))

/-- No admitted request with the key conflicts. -/
def admits (x : Request κ γ τ β) : Bool :=
  !log.any fun e => decide (e.key = x.key) && conflict expires grouped e x

/-- The last admitted request with a key. -/
def lastWith (key : κ) (log : List (Request κ γ τ β)) : Option (Request κ γ τ β) :=
  log.find? fun e => decide (e.key = key)

/-- The last admitted request with the key does not conflict. -/
def lastAdmits (x : Request κ γ τ β) : Bool :=
  match lastWith x.key log with
  | some e => !conflict expires grouped e x
  | none => true

/-- No admitted request conflicts with an earlier one that has its key. -/
def Separated : Prop :=
  log.Pairwise fun x e => e.key = x.key → conflict expires grouped e x = false

end Rules

/-- Add a request to the log if the rule admits it. -/
def record (rule : List (Request κ γ τ β) → Request κ γ τ β → Bool)
    (log : List (Request κ γ τ β)) (x : Request κ γ τ β) : List (Request κ γ τ β) :=
  if rule log x then x :: log else log

/-- The log after a stream of requests. -/
def process (rule : List (Request κ γ τ β) → Request κ γ τ β → Bool)
    (log : List (Request κ γ τ β)) (xs : List (Request κ γ τ β)) : List (Request κ γ τ β) :=
  xs.foldl (record rule) log

/-- An admitted request, a later one with its key of another group, and after
    that one of its own group that falls into its window. -/
def Interleaved [DecidableEq κ] [DecidableEq γ] [LinearOrder τ] (expires : τ → τ)
    (xs : List (Request κ γ τ β)) : Prop :=
  ∃ before x between y after, xs = before ++ x :: (between ++ y :: after) ∧
    admits expires true (process (admits expires true) [] before) x = true ∧
    y.key = x.key ∧ y.group = x.group ∧ y.time < expires x.time ∧
    ∃ z ∈ between, z.key = x.key ∧ z.group ≠ x.group

/-! ### Logs -/

section Logs

variable (rule : List (Request κ γ τ β) → Request κ γ τ β → Bool)

theorem process_append (log xs ys : List (Request κ γ τ β)) :
    process rule log (xs ++ ys) = process rule (process rule log xs) ys :=
  foldl_append

theorem process_concat (log xs : List (Request κ γ τ β)) (y : Request κ γ τ β) :
    process rule log (xs ++ [y]) = record rule (process rule log xs) y :=
  process_append _ _ xs [y]

theorem process_eq_append (xs : List (Request κ γ τ β)) : ∀ (log : List (Request κ γ τ β)),
    ∃ new, process rule log xs = new ++ log ∧ ∀ e ∈ new, e ∈ xs := by
  induction xs with
  | nil => exact fun log => ⟨[], rfl, fun e he => absurd he not_mem_nil⟩
  | cons x xs ih =>
    intro log
    rcases ih _ with ⟨new, hnew, hmem⟩
    show ∃ new, process rule (record rule log x) xs = new ++ log ∧ _
    rw [hnew]
    unfold record
    cases rule log x with
    | false =>
      exact ⟨new, rfl, fun e he => mem_cons_of_mem x (hmem e he)⟩
    | true =>
      refine ⟨new ++ [x], by simp, fun e he => ?_⟩
      rcases mem_append.mp he with he | he
      · exact mem_cons_of_mem x (hmem e he)
      · rw [mem_singleton.mp he]
        exact mem_cons_self

theorem process_split (xs : List (Request κ γ τ β)) : ∀ (later earlier : List (Request κ γ τ β))
    (e : Request κ γ τ β), process rule [] xs = later ++ e :: earlier →
    ∃ before after, xs = before ++ e :: after ∧ process rule [] before = earlier ∧
      rule earlier e = true ∧ ∀ e' ∈ later, e' ∈ after := by
  -- On the stream from its end, as the log has it.
  induction xs using reverseRecOn with
  | nil =>
    intro later earlier e h
    exact absurd (congrArg length h) (by
      rw [length_append]
      exact Nat.ne_of_lt (Nat.lt_of_lt_of_le (Nat.succ_pos _) (Nat.le_add_left _ _)))
  | append_singleton xs y ih =>
    intro later earlier e h
    rw [process_concat] at h
    unfold record at h
    cases hadm : rule (process rule [] xs) y with
    | false =>
      rw [hadm] at h
      rcases ih _ _ e h with ⟨before, after, hxs, hbefore, hadmits, hlater⟩
      refine ⟨before, after ++ [y], ?_, hbefore, hadmits, fun e' he' =>
        mem_append_left _ (hlater e' he')⟩
      rw [hxs, append_assoc, cons_append]
    | true =>
      rw [hadm] at h
      cases later with
      | nil =>
        rcases cons.inj h with ⟨rfl, hlog⟩
        refine ⟨xs, [], rfl, hlog, ?_, fun e' he' => absurd he' not_mem_nil⟩
        rw [← hlog]
        exact hadm
      | cons =>
        rcases cons.inj h with ⟨rfl, hlog⟩
        rcases ih _ _ e hlog with ⟨before, after, hxs, hbefore, hadmits, hlater⟩
        refine ⟨before, after ++ [y], ?_, hbefore, hadmits, fun e' he' => ?_⟩
        · rw [hxs, append_assoc, cons_append]
        · rcases mem_cons.mp he' with he' | he'
          · rw [he']
            exact mem_append_right _ (mem_singleton_self y)
          · exact mem_append_left _ (hlater e' he')

end Logs

/-! ### The last entry with a key -/

section LastWith

variable [DecidableEq κ]

theorem of_lastWith (key : κ) (log : List (Request κ γ τ β)) (e : Request κ γ τ β)
    (h : lastWith key log = some e) : e ∈ log ∧ e.key = key := by
  have hkey := find?_some h
  exact ⟨mem_of_find?_eq_some h, by simpa only [decide_eq_true_eq] using hkey⟩

theorem lastWith_append_cons (later earlier : List (Request κ γ τ β)) (e : Request κ γ τ β) :
    ∃ e', lastWith e.key (later ++ e :: earlier) = some e' ∧ e'.key = e.key ∧
      ((e' = e ∧ ∀ x ∈ later, x.key ≠ e.key) ∨ e' ∈ later) := by
  unfold lastWith
  rw [find?_append]
  cases hfirst : later.find? fun x => decide (x.key = e.key) with
  | none =>
    refine ⟨e, ?_, rfl, Or.inl ⟨rfl, fun x hx hc => ?_⟩⟩
    · simp only [find?_cons, decide_true, Option.none_or]
    · exact absurd (decide_eq_true hc) (find?_eq_none.mp hfirst x hx)
  | some e' =>
    rcases of_lastWith _ _ e' hfirst with ⟨hmem, hkey⟩
    exact ⟨e', rfl, hkey, Or.inr hmem⟩

end LastWith

/-! ### The two rules -/

section Compare

variable [DecidableEq κ] [DecidableEq γ] [LinearOrder τ] {expires : τ → τ} {grouped : Bool}

variable (log : List (Request κ γ τ β))

theorem admits_iff (x : Request κ γ τ β) : admits expires grouped log x = true ↔
      ∀ e ∈ log, e.key = x.key → conflict expires grouped e x = false := by
  unfold admits
  simp

theorem lastAdmits_eq (x e : Request κ γ τ β) (h : lastWith x.key log = some e) :
    lastAdmits expires grouped log x = !conflict expires grouped e x := by
  unfold lastAdmits
  rw [h]

theorem lastAdmits_of_admits (x : Request κ γ τ β)
    (h : admits expires grouped log x = true) : lastAdmits expires grouped log x = true := by
  rw [admits_iff] at h
  unfold lastAdmits
  cases hlast : lastWith x.key log with
  | none => rfl
  | some e =>
    rcases of_lastWith _ _ e hlast with ⟨hmem, hkey⟩
    simp only [h e hmem hkey, Bool.not_false]

omit [DecidableEq κ] in
theorem Separated.of_process {rule : List (Request κ γ τ β) → Request κ γ τ β → Bool}
    {log xs : List (Request κ γ τ β)} (h : Separated expires grouped (process rule log xs)) :
    Separated expires grouped log := by
  rcases process_eq_append rule xs log with ⟨new, hnew, -⟩
  unfold Separated at h
  rw [hnew] at h
  exact (pairwise_append.mp h).2.1

/-- A table whose log is separated admits what the full rule admits. -/
theorem process_eq_of_separated (xs : List (Request κ γ τ β))
    (h : Separated expires grouped (process (lastAdmits expires grouped) [] xs)) :
    process (lastAdmits expires grouped) [] xs = process (admits expires grouped) [] xs := by
  induction xs using reverseRecOn with
  | nil => rfl
  | append_singleton xs y ih =>
    rw [process_append] at h
    have heq := ih h.of_process
    rw [process_concat, process_concat, ← heq]
    rw [← process_append, process_concat] at h
    generalize process (lastAdmits expires grouped) [] xs = log at h ⊢
    unfold record at h ⊢
    cases hlast : lastAdmits expires grouped log y with
    | false =>
      have hadm : admits expires grouped log y = false := by
        rw [← Bool.not_eq_true]
        intro hc
        rw [lastAdmits_of_admits _ y hc] at hlast
        exact absurd hlast.symm Bool.false_ne_true
      rw [hadm]
    | true =>
      rw [hlast] at h
      have hadm : admits expires grouped log y = true := (admits_iff _ y).mpr (pairwise_cons.mp h).1
      rw [hadm]

theorem Separated.record (log : List (Request κ γ τ β)) (y : Request κ γ τ β)
    (h : Separated expires grouped log)
    (hy : lastAdmits expires grouped log y = true → admits expires grouped log y = true) :
    Separated expires grouped (record (lastAdmits expires grouped) log y) := by
  unfold Window.record
  split
  · next hlast =>
      exact pairwise_cons.mpr ⟨(admits_iff _ y).mp (hy hlast), h⟩
  · exact h

/-- The times of a stream do not go back. -/
def Chronological (xs : List (Request κ γ τ β)) : Prop :=
  xs.Pairwise fun x y => x.time ≤ y.time

omit [DecidableEq γ] in
theorem exists_lastWith (rule : List (Request κ γ τ β) → Request κ γ τ β → Bool)
    (xs : List (Request κ γ τ β)) (hxs : Chronological xs) (e : Request κ γ τ β)
    (he : e ∈ process rule [] xs) :
    ∃ before after e', xs = before ++ e :: after ∧ rule (process rule [] before) e = true ∧
      lastWith e.key (process rule [] xs) = some e' ∧ e'.key = e.key ∧
      (e' = e ∨ e' ∈ after) ∧ e.time ≤ e'.time := by
  rcases append_of_mem he with ⟨later, earlier, hsplit⟩
  rcases process_split rule xs later earlier e hsplit with ⟨before, after, rfl, rfl, hadm, hlater⟩
  rcases lastWith_append_cons later (process rule [] before) e with ⟨e', hlast, hkey, he'⟩
  rw [hsplit]
  refine ⟨before, after, e', rfl, hadm, hlast, hkey, he'.imp And.left (hlater e'), ?_⟩
  rcases he' with ⟨rfl, -⟩ | he'
  · exact le_refl _
  · have hcons := (pairwise_append.mp hxs).2.1
    exact (pairwise_cons.mp hcons).1 e' (hlater e' he')

/-- Without groups the log is separated. -/
theorem separated_of_ungrouped (hexpires : Monotone expires) (xs : List (Request κ γ τ β))
    (hxs : Chronological xs) :
    Separated expires false (process (lastAdmits expires false) [] xs) := by
  induction xs using reverseRecOn with
  | nil => exact List.Pairwise.nil
  | append_singleton xs y ih =>
    have hpast : Chronological xs := (pairwise_append.mp hxs).1
    rw [process_concat]
    refine (ih hpast).record _ y (fun hlast => (admits_iff _ y).mpr fun e he hkey => ?_)
    rcases exists_lastWith _ xs hpast e he with ⟨-, -, e', -, -, hwith, -, -, htime⟩
    rw [hkey] at hwith
    rw [lastAdmits_eq _ y e' hwith] at hlast
    simp only [conflict, Bool.not_false, Bool.true_or, Bool.and_true, Bool.not_eq_true',
      decide_eq_false_iff_not, not_lt] at hlast ⊢
    exact le_trans (hexpires htime) hlast

theorem process_hides (expires : τ → τ) (x z : Request κ γ τ β) (hkey : z.key = x.key)
    (hgroup : z.group ≠ x.group) (first second log : List (Request κ γ τ β)) :
    ∃ later, process (lastAdmits expires true) (x :: log) (first ++ z :: second) =
      later ++ x :: log ∧ (∃ e ∈ later, e.key = x.key) ∧ ∀ e ∈ later, e ∈ first ++ z :: second := by
  rw [process_append]
  rcases process_eq_append _ first _ with ⟨new, hnew, hfirst⟩
  rw [hnew]
  show ∃ later, process _ (record _ (new ++ x :: log) z) second = _ ∧ _
  -- Either the key was recorded before, or the last entry is of another group.
  have hrecord : ∃ later, record (lastAdmits expires true) (new ++ x :: log) z =
      later ++ x :: log ∧ (∃ e ∈ later, e.key = x.key) ∧ ∀ e ∈ later, e ∈ first ++ [z] := by
    unfold record
    cases hadm : lastAdmits expires true (new ++ x :: log) z with
    | true =>
      refine ⟨z :: new, rfl, ⟨z, mem_cons_self, hkey⟩, fun e he => ?_⟩
      rcases mem_cons.mp he with he | he
      · rw [he]
        exact mem_append_right _ (mem_singleton_self z)
      · exact mem_append_left _ (hfirst e he)
    | false =>
      refine ⟨new, rfl, ?_, fun e he => mem_append_left _ (hfirst e he)⟩
      rcases lastWith_append_cons new log x with ⟨e, hlast, hekey, ⟨rfl, -⟩ | he⟩
      · unfold lastAdmits at hadm
        rw [hkey, hlast] at hadm
        simp only [conflict, hgroup, decide_false, Bool.not_true, Bool.or_self, Bool.and_false,
          Bool.not_false, Bool.true_eq_false] at hadm
      · exact ⟨e, he, hekey⟩
  rcases hrecord with ⟨later, hlater, ⟨e, he, hekey⟩, hmem⟩
  rw [hlater]
  rcases process_eq_append _ second _ with ⟨new', hnew', hsecond⟩
  refine ⟨new' ++ later, by rw [hnew', append_assoc],
    ⟨e, mem_append_right _ he, hekey⟩, fun e' he' => ?_⟩
  rw [mem_append, mem_cons]
  rcases mem_append.mp he' with he' | he'
  · exact Or.inr (Or.inr (hsecond e' he'))
  · rcases mem_append.mp (hmem e' he') with h | h
    · exact Or.inl h
    · exact Or.inr (Or.inl (mem_singleton.mp h))

theorem not_interleaved_of_separated (xs : List (Request κ γ τ β)) (hxs : Chronological xs)
    (h : Separated expires true (process (lastAdmits expires true) [] xs)) :
    ¬ Interleaved expires xs := by
  rintro ⟨before, x, between, y, after, rfl, hadm, hykey, hygroup, hytime, z, hz, hzkey, hzgroup⟩
  have hsplit : before ++ x :: (between ++ y :: after) =
      (before ++ [x] ++ between ++ [y]) ++ after := by
    simp
  rw [hsplit] at hxs h
  rw [process_append] at h
  have hend := h.of_process
  have hbefore : Separated expires true (process (lastAdmits expires true) [] before) := by
    rw [process_append, process_append, process_append] at hend
    exact hend.of_process.of_process.of_process
  rw [← process_eq_of_separated _ hbefore] at hadm
  have hx : process (lastAdmits expires true) [] (before ++ [x]) =
      x :: process (lastAdmits expires true) [] before := by
    rw [process_concat]
    unfold record
    rw [lastAdmits_of_admits _ x hadm]
    rfl
  rcases append_of_mem hz with ⟨first, second, rfl⟩
  rcases process_hides _ x z hzkey hzgroup _ _ _ with ⟨later, hlater, ⟨e₀, he₀, he₀key⟩, hmem⟩
  rw [process_concat, process_append, hx, hlater] at hend
  -- No entry after the hidden one is of its group, since the log is separated.
  have hother : ∀ e ∈ later, e.key = x.key → e.group ≠ x.group := by
    intro e he hekey hegroup
    have hlast : Separated expires true (process (lastAdmits expires true)
        (later ++ x :: process (lastAdmits expires true) [] before) [y]) := hend
    have hconf := (pairwise_append.mp hlast.of_process).2.2 e he x mem_cons_self hekey.symm
    have htime : e.time ≤ y.time := by
      have hstarts := (pairwise_append.mp hxs).1
      exact (pairwise_append.mp hstarts).2.2 e
        (mem_append_right _ (hmem e he)) y (mem_singleton_self y)
    simp only [conflict, hegroup, decide_true, Bool.or_true, Bool.and_true,
      decide_eq_false_iff_not, not_lt] at hconf
    exact absurd (lt_of_le_of_lt hconf (lt_of_le_of_lt htime hytime)) (lt_irrefl _)
  rcases lastWith_append_cons _ _ x with ⟨e, hlast, hekey, ⟨rfl, hnone⟩ | he⟩
  · exact hnone _ he₀ he₀key
  · have hadmits : lastAdmits expires true (later ++ x ::
        process (lastAdmits expires true) [] before) y = true := by
      rw [lastAdmits_eq _ y e (by rw [hykey]; exact hlast)]
      have hne : ¬ x.group = e.group := fun hc => hother e he hekey hc.symm
      simp only [conflict, hygroup, hne, decide_false, Bool.not_true, Bool.or_self,
        Bool.and_false, Bool.not_false]
    unfold record at hend
    rw [hadmits] at hend
    have hconf := (pairwise_cons.mp hend).1 x (mem_append_right _ mem_cons_self) hykey.symm
    simp only [conflict, hygroup, decide_true, Bool.or_true, Bool.and_true,
      decide_eq_false_iff_not] at hconf
    exact hconf hytime

/-- With groups, the log of a table is separated exactly on the streams that are not interleaved. -/
theorem separated_iff (hexpires : Monotone expires) (xs : List (Request κ γ τ β))
    (hxs : Chronological xs) :
    Separated expires true (process (lastAdmits expires true) [] xs) ↔
      ¬ Interleaved expires xs := by
  refine ⟨not_interleaved_of_separated xs hxs, fun h => ?_⟩
  induction xs using reverseRecOn with
  | nil => exact List.Pairwise.nil
  | append_singleton xs y ih =>
    have hsep := ih (pairwise_append.mp hxs).1 (fun ⟨before, x, between, y', after, hc⟩ =>
      h ⟨before, x, between, y', after ++ [y], by
        rw [hc.1]
        simp, hc.2⟩)
    have heq := process_eq_of_separated xs hsep
    have hpast : Chronological xs := (pairwise_append.mp hxs).1
    rw [process_concat]
    refine hsep.record _ y (fun hlast => (admits_iff _ y).mpr fun e he hkey => ?_)
    rw [← Bool.not_eq_true]
    intro hconf
    rw [heq] at he hlast
    rcases exists_lastWith _ xs hpast e he with
      ⟨before, after, e', hsplit, hadm, hwith, he'key, he', htime⟩
    rw [hkey] at hwith
    rw [lastAdmits_eq _ y e' hwith] at hlast
    simp only [conflict, Bool.not_true, Bool.false_or, Bool.and_eq_true, decide_eq_true_eq,
      Bool.not_eq_true', Bool.and_eq_false_iff, decide_eq_false_iff_not] at hconf hlast
    -- The last entry is in its window too, so it is of another group.
    have hother : y.group ≠ e'.group :=
      hlast.resolve_left (not_not.mpr (lt_of_lt_of_le hconf.1 (hexpires htime)))
    rcases he' with rfl | he'
    · exact hother hconf.2
    · refine h ⟨before, e, after, y, [], ?_, hadm, hkey.symm, hconf.2, hconf.1, e', he', he'key,
        fun hc => hother (hconf.2.trans hc.symm)⟩
      rw [hsplit, append_assoc, cons_append]

end Compare

end LocalEmu.Window
