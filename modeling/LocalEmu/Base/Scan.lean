import Mathlib.Data.List.Perm.Basic

/-!
# Scans and Decision Chains

A scan looks for the first element of a list that passes a test, and the test
may raise: `for x in l: if test(x): ...; break`. It ends at the first element
that passes or raises, so two lists with the same elements in another order
may end differently, but only if one of their elements passes and another
raises. A loop raises just if it comes to a test that raises. Up to there its tests
have the results that they would have if none of them raised.

A decision chain is a sequence of scans. Each of them decides, or goes on to
the next one, depending on whether it found something; one that raises ends the
chain. What a chain may result in over all orders of its lists is a matter of
what each scan may result in, and the chain is settled if that is one thing
only.
-/

namespace LocalEmu

open List

variable {ε α β δ : Type}

/-- How a scan ends. -/
inductive Outcome
  | hit
  | miss
  | raise
  deriving DecidableEq

def Outcome.of : Except ε Bool → Outcome
  | .ok true => hit
  | .ok false => miss
  | .error _ => raise

variable (f : α → Except ε Bool) (l : List α)

def scan : Outcome := Outcome.of (l.anyM f)

/-- What a scan of the elements of a list may end in, in some order. -/
def MayEnd : Outcome → Prop
  | .hit => ∃ a ∈ l, Outcome.of (f a) = .hit
  | .miss => ∀ a ∈ l, Outcome.of (f a) = .miss
  | .raise => ∃ a ∈ l, Outcome.of (f a) = .raise

/-! ### Scans -/

theorem anyM_cons (a : α) (l : List α) : (a :: l).anyM f =
      match f a with
      | .ok true => .ok true
      | .ok false => l.anyM f
      | .error e => .error e := by
  rw [anyM]
  rcases f a with e | _ | _
  · rfl
  · rfl
  · rfl

theorem scan_nil : scan f [] = .miss := rfl

theorem scan_cons (a : α) (l : List α) : scan f (a :: l) =
      if Outcome.of (f a) = .miss then scan f l else Outcome.of (f a) := by
  unfold scan
  rw [anyM_cons]
  rcases f a with e | _ | _
  · rfl
  · rfl
  · rfl

variable (l' : List α)

theorem anyM_append : (l ++ l').anyM f =
      match l.anyM f with
      | .ok true => .ok true
      | .ok false => l'.anyM f
      | .error e => .error e := by
  induction l with
  | nil => rfl
  | cons a l ih =>
    rw [cons_append, anyM_cons, anyM_cons, ih]
    rcases f a with e | _ | _
    · rfl
    · rfl
    · rfl

/-- A scan of nested lists. -/
theorem anyM_flatMap (g : β → List α) (l : List β) :
    (l.anyM fun b => (g b).anyM f) = (l.flatMap g).anyM f := by
  induction l with
  | nil => rfl
  | cons b l ih =>
    rw [anyM_cons, flatMap_cons, anyM_append, ih]

theorem isOk_not (test : Except ε Bool) : ((fun b => !b) <$> test).isOk = test.isOk := by
  cases test <;> rfl

/-- `all` is `any` of the negated test, negated. -/
theorem allM_eq_anyM : l.allM f = (fun b => !b) <$> l.anyM fun a => (fun b => !b) <$> f a := by
  induction l with
  | nil => rfl
  | cons a l ih =>
    rw [allM, ih, anyM_cons]
    rcases f a with e | _ | _
    · rfl
    · rfl
    · rfl

/-- A loop that goes on after the elements where `goesOn` holds comes to an element. -/
def Reaches (goesOn : α → Bool) (l : List α) (a : α) : Prop :=
  ∃ before after, l = before ++ a :: after ∧ ∀ b ∈ before, goesOn b = true

theorem Reaches.mem {goesOn : α → Bool} {l : List α} {a : α} (h : Reaches goesOn l a) : a ∈ l := by
  obtain ⟨before, after, rfl, -⟩ := h
  exact mem_append_right _ mem_cons_self

theorem Reaches.mono {goesOn goesOn' : α → Bool} {l : List α} {a : α} (h : Reaches goesOn l a)
    (hle : ∀ b ∈ l, goesOn b = true → goesOn' b = true) : Reaches goesOn' l a := by
  obtain ⟨before, after, rfl, hbefore⟩ := h
  exact ⟨before, after, rfl, fun b hb => hle b (mem_append_left _ hb) (hbefore b hb)⟩

theorem reaches_cons_iff (goesOn : α → Bool) (a : α) (l : List α) (b : α) :
    Reaches goesOn (a :: l) b ↔ b = a ∨ goesOn a = true ∧ Reaches goesOn l b := by
  constructor
  · rintro ⟨_ | ⟨c, before⟩, after, heq, hbefore⟩
    · exact .inl (List.cons.inj heq).1.symm
    · obtain ⟨rfl, rfl⟩ := List.cons.inj heq
      exact .inr ⟨hbefore _ mem_cons_self, before, after, rfl,
        fun d hd => hbefore d (mem_cons_of_mem _ hd)⟩
  · rintro (rfl | ⟨ha, before, after, rfl, hbefore⟩)
    · exact ⟨[], l, rfl, fun _ hb => absurd hb not_mem_nil⟩
    · exact ⟨a :: before, after, rfl, forall_mem_cons.mpr ⟨ha, hbefore⟩⟩

/-- The result of a test, unless it raises. -/
def Agrees (test : Except ε Bool) (result : Bool) : Prop := ∀ b, test = .ok b → b = result

theorem Agrees.eq_ok_iff {test : Except ε Bool} {result : Bool} (h : Agrees test result) :
    test = .ok result ↔ test.isOk = true := by
  cases test with
  | error => exact ⟨nofun, nofun⟩
  | ok b => exact ⟨fun _ => rfl, fun _ => congrArg _ (h b rfl)⟩

theorem Agrees.not {test : Except ε Bool} {result : Bool} (h : Agrees test result) :
    Agrees ((fun b => !b) <$> test) (!result) := by
  cases test with
  | error => exact nofun
  | ok b => exact fun _ hb => (Except.ok.inj hb).symm.trans (congrArg Bool.not (h b rfl))

section Loops

variable {f} {l} {g : α → Bool} (h : ∀ a ∈ l, Agrees (f a) (g a))

include h

/-- The result of a loop. -/
theorem anyM_agrees : Agrees (l.anyM f) (l.any g) := by
  induction l with
  | nil => exact fun b hb => (Except.ok.inj hb).symm
  | cons a l ih =>
    have hrest := ih fun b hb => h b (mem_cons_of_mem a hb)
    have ha := h a mem_cons_self
    rw [anyM_cons, any_cons]
    rcases hf : f a with e | _ | _
    · exact nofun
    · rw [← ha _ hf]
      exact hrest
    · rw [← ha _ hf]
      exact fun b hb => (Except.ok.inj hb).symm

theorem allM_agrees : Agrees (l.allM f) (l.all g) := by
  rw [allM_eq_anyM, all_eq_not_any_not]
  exact (anyM_agrees fun a ha => (h a ha).not).not

/-- When a loop does not raise. -/
theorem anyM_isOk_iff :
    (l.anyM f).isOk = true ↔ ∀ a, Reaches (fun b => !g b) l a → (f a).isOk = true := by
  induction l with
  | nil => exact iff_of_true rfl fun a ha => absurd ha.mem not_mem_nil
  | cons a l ih =>
    have hrest := ih fun b hb => h b (mem_cons_of_mem a hb)
    have ha := h a mem_cons_self
    simp only [anyM_cons, reaches_cons_iff, forall_eq_or_imp]
    rcases hf : f a with e | _ | _
    · exact ⟨nofun, fun hall => absurd hall.1 Bool.false_ne_true⟩
    · rw [← ha _ hf]
      exact hrest.trans ⟨fun hall => ⟨rfl, fun b hb => hall b hb.2⟩,
        fun hall b hb => hall.2 b ⟨rfl, hb⟩⟩
    · rw [← ha _ hf]
      exact iff_of_true rfl ⟨rfl, fun b hb => absurd hb.1 Bool.false_ne_true⟩

theorem allM_isOk_iff :
    (l.allM f).isOk = true ↔ ∀ a, Reaches g l a → (f a).isOk = true := by
  rw [allM_eq_anyM, isOk_not, anyM_isOk_iff fun a ha => (h a ha).not]
  simp only [isOk_not, Bool.not_not]

end Loops

theorem scan_append : scan f (l ++ l') = if scan f l = .miss then scan f l' else scan f l := by
  unfold scan
  rw [anyM_append]
  rcases l.anyM f with e | _ | _
  · rfl
  · rfl
  · rfl

theorem scan_map (f : β → Except ε Bool) (g : α → β) (l : List α) :
    scan f (l.map g) = scan (fun a => f (g a)) l := by
  induction l with
  | nil => rfl
  | cons a l ih => rw [map_cons, scan_cons, scan_cons, ih]

/-- The outcome of a scan. -/
theorem scan_hit_iff :
    scan f l = .hit ↔ ∃ before a after, l = before ++ a :: after ∧ Outcome.of (f a) = .hit ∧
      ∀ b ∈ before, Outcome.of (f b) ≠ .raise := by
  induction l with
  | nil => simp [scan_nil]
  | cons a l ih =>
    rw [scan_cons]
    rcases ha : Outcome.of (f a) with _ | _ | _
    · simp only [reduceCtorEq, if_false, true_iff]
      exact ⟨[], a, l, rfl, ha, by simp⟩
    · rw [if_pos rfl, ih]
      constructor
      · rintro ⟨before, b, after, rfl, hb, hn⟩
        refine ⟨a :: before, b, after, rfl, hb, ?_⟩
        rintro c (_ | ⟨_, hc⟩)
        · simp [ha]
        · exact hn c hc
      · rintro ⟨_ | ⟨c, before⟩, b, after, hl, hb, hn⟩
        · cases hl
          rw [ha] at hb
          cases hb
        · cases hl
          exact ⟨before, b, after, rfl, hb, fun d hd => hn d (mem_cons_of_mem _ hd)⟩
    · simp only [reduceCtorEq, if_false, false_iff]
      rintro ⟨_ | ⟨c, before⟩, b, after, hl, hb, hn⟩
      · cases hl
        rw [ha] at hb
        cases hb
      · cases hl
        exact hn a (mem_cons_self ..) ha

theorem scan_miss_iff : scan f l = .miss ↔ ∀ a ∈ l, Outcome.of (f a) = .miss := by
  induction l with
  | nil => simp [scan_nil]
  | cons a l ih =>
    rw [scan_cons, forall_mem_cons, ← ih]
    by_cases ha : Outcome.of (f a) = .miss
    · rw [if_pos ha]
      exact ⟨fun h => ⟨ha, h⟩, fun h => h.2⟩
    · rw [if_neg ha]
      exact ⟨fun h => absurd h ha, fun h => absurd h.1 ha⟩

/-- A scan ends in what it may end in. -/
theorem mayEnd_scan : MayEnd f l (scan f l) := by
  induction l with
  | nil => simp [scan_nil, MayEnd]
  | cons a l ih =>
    rw [scan_cons]
    by_cases ha : Outcome.of (f a) = .miss
    · rw [if_pos ha]
      rcases hs : scan f l with _ | _ | _
      · rw [hs] at ih
        rcases ih with ⟨b, hb, hf⟩
        exact ⟨b, mem_cons_of_mem _ hb, hf⟩
      · rw [hs] at ih
        exact forall_mem_cons.mpr ⟨ha, ih⟩
      · rw [hs] at ih
        rcases ih with ⟨b, hb, hf⟩
        exact ⟨b, mem_cons_of_mem _ hb, hf⟩
    · rw [if_neg ha]
      rcases hs : Outcome.of (f a) with _ | _ | _
      · exact ⟨a, mem_cons_self .., hs⟩
      · exact absurd hs ha
      · exact ⟨a, mem_cons_self .., hs⟩

theorem MayEnd.exists_mem {f : α → Except ε Bool} {l : List α} {o : Outcome} (h : MayEnd f l o)
    (ho : o ≠ .miss) : ∃ a ∈ l, Outcome.of (f a) = o := by
  rcases o with _ | _ | _
  · exact h
  · exact absurd rfl ho
  · exact h

theorem mayEnd_perm (h : l.Perm l') (o : Outcome) : MayEnd f l o ↔ MayEnd f l' o := by
  rcases o with _ | _ | _
  · exact ⟨fun ⟨a, ha, hf⟩ => ⟨a, h.mem_iff.mp ha, hf⟩,
      fun ⟨a, ha, hf⟩ => ⟨a, h.mem_iff.mpr ha, hf⟩⟩
  · exact ⟨fun hm a ha => hm a (h.mem_iff.mpr ha), fun hm a ha => hm a (h.mem_iff.mp ha)⟩
  · exact ⟨fun ⟨a, ha, hf⟩ => ⟨a, h.mem_iff.mp ha, hf⟩,
      fun ⟨a, ha, hf⟩ => ⟨a, h.mem_iff.mpr ha, hf⟩⟩

theorem scan_of_head (a : α) (l : List α) (o : Outcome) (ha : Outcome.of (f a) = o)
    (ho : o ≠ .miss) : scan f (a :: l) = o := by
  rw [scan_cons, ha, if_neg ho]

theorem scan_of_mayEnd_miss (h : l.Perm l') (hm : MayEnd f l .miss) : scan f l' = .miss :=
  (scan_miss_iff f l').mpr ((mayEnd_perm f l l' h .miss).mp hm)

/-- Two scans of one list, of which the second matters only if the first one misses: every pair of
    outcomes they may end in comes from some order, among orders that can put any element first. -/
theorem exists_order {γ : Type} (g : α → Except ε Bool) (start : γ) (elements : γ → List α)
    (reach : γ → Prop) (hself : reach start)
    (hfirst : ∀ a ∈ elements start, ∃ c rest, reach c ∧ elements c = a :: rest)
    (hperm : ∀ c, reach c → (elements start).Perm (elements c)) (o o' : Outcome)
    (hf : MayEnd f (elements start) o) (hg : MayEnd g (elements start) o') :
    ∃ c, reach c ∧ scan f (elements c) = o ∧ (o = .miss → scan g (elements c) = o') := by
  by_cases ho : o = .miss
  · subst ho
    by_cases ho' : o' = .miss
    · subst ho'
      exact ⟨start, hself, scan_of_mayEnd_miss f _ _ (List.Perm.refl _) hf,
        fun _ => scan_of_mayEnd_miss g _ _ (List.Perm.refl _) hg⟩
    · rcases hg.exists_mem ho' with ⟨a, ha, hoa⟩
      rcases hfirst a ha with ⟨c, rest, hr, hc⟩
      refine ⟨c, hr, scan_of_mayEnd_miss f _ _ (hperm _ hr) hf, fun _ => ?_⟩
      rw [hc]
      exact scan_of_head g a _ o' hoa ho'
  · rcases hf.exists_mem ho with ⟨a, ha, hoa⟩
    rcases hfirst a ha with ⟨c, rest, hr, hc⟩
    refine ⟨c, hr, ?_, fun h => absurd h ho⟩
    rw [hc]
    exact scan_of_head f a _ o hoa ho

/-- A list with an element put in somewhere, or the list itself. -/
def Inserted (a : α) (l l' : List α) : Prop :=
  l' = l ∨ ∃ before after, l = before ++ after ∧ l' = before ++ a :: after

theorem Inserted.context {a : α} {l l' : List α} (h : Inserted a l l') (before after : List α) :
    Inserted a (before ++ l ++ after) (before ++ l' ++ after) := by
  rcases h with rfl | ⟨p, q, rfl, rfl⟩
  · exact Or.inl rfl
  · refine Or.inr ⟨before ++ p, q ++ after, ?_, ?_⟩
    · simp
    · simp

theorem Inserted.scan_eq {a : α} {l l' : List α} (h : Inserted a l l')
    (ha : Outcome.of (f a) = .miss) : scan f l' = scan f l := by
  rcases h with rfl | ⟨before, after, rfl, rfl⟩
  · rfl
  · rw [scan_append, scan_append, scan_cons, if_pos ha]

theorem Inserted.scan_miss {a : α} {l l' : List α} (h : Inserted a l l')
    (hm : scan f l' = .miss) : scan f l = .miss := by
  rcases h with rfl | ⟨before, after, rfl, rfl⟩
  · exact hm
  · rw [scan_miss_iff] at hm ⊢
    intro b hb
    rcases mem_append.mp hb with hb | hb
    · exact hm b (mem_append_left _ hb)
    · exact hm b (mem_append_right _ (mem_cons_of_mem _ hb))

/-! ### Decision chains -/

/-- What follows from an outcome of a scan: a decision, or the next scan. -/
structure Rule (δ : Type) where
  onHit : Option δ
  onMiss : Option δ

/-- The decision of a chain of scans, `none` if it raises. -/
def settle (last : δ) : List (Rule δ × Outcome) → Option δ
  | [] => some last
  | (rule, .hit) :: rest => rule.onHit.elim (settle last rest) some
  | (rule, .miss) :: rest => rule.onMiss.elim (settle last rest) some
  | (_, .raise) :: _ => none

theorem settle_ne (last d : δ) (steps : List (Rule δ × Outcome)) (hl : d ≠ last)
    (hs : ∀ step ∈ steps, step.1.onHit ≠ some d ∧ step.1.onMiss ≠ some d) :
    settle last steps ≠ some d := by
  induction steps with
  | nil =>
    intro h
    exact hl (Option.some.inj h).symm
  | cons step steps ih =>
    have hn := ih fun other ho => hs other (mem_cons_of_mem _ ho)
    rcases hs _ (mem_cons_self ..) with ⟨hh, hm⟩
    rcases step with ⟨rule, _ | _ | _⟩
    · rcases ho : rule.onHit with _ | d'
      · simpa [settle, ho] using hn
      · simpa [settle, ho] using hh
    · rcases ho : rule.onMiss with _ | d'
      · simpa [settle, ho] using hn
      · simpa [settle, ho] using hm
    · simp [settle]

/-- One scan of a chain: its rule, and what it may end in. It may end in
    something, and where it may miss every element is a miss. -/
structure Gate (δ : Type) where
  rule : Rule δ
  may : Outcome → Prop
  ends : ∃ o, may o
  only_miss : may .miss → ¬ may .hit ∧ ¬ may .raise

/-- The scan of a list, in any order. -/
def Gate.scanning (rule : Rule δ) (f : α → Except ε Bool) (l : List α) : Gate δ where
  rule := rule
  may := MayEnd f l
  ends := ⟨scan f l, mayEnd_scan f l⟩
  only_miss := by
    intro hm
    constructor
    · rintro ⟨a, ha, hf⟩
      rw [hm a ha] at hf
      cases hf
    · rintro ⟨a, ha, hf⟩
      rw [hm a ha] at hf
      cases hf

/-- A result of a chain for some choice of the outcomes. -/
def Possible (last : δ) : List (Gate δ) → Option δ → Prop
  | [], r => r = some last
  | gate :: rest, r =>
    (gate.may .hit ∧ gate.rule.onHit.elim (Possible last rest r) fun d => r = some d) ∨
    (gate.may .miss ∧ gate.rule.onMiss.elim (Possible last rest r) fun d => r = some d) ∨
    (gate.may .raise ∧ r = none)

def Doomed : List (Gate δ) → Prop
  | [] => False
  | gate :: rest =>
    (gate.may .hit → gate.rule.onHit.elim (Doomed rest) fun _ => False) ∧
    (gate.may .miss → gate.rule.onMiss.elim (Doomed rest) fun _ => False)

/-- A chain has the same result for every choice: no scan it reaches may both
    find something and raise, unless what follows raises in any case. -/
def Settled : List (Gate δ) → Prop
  | [] => True
  | gate :: rest =>
    (gate.may .hit → gate.may .raise →
      gate.rule.onHit.elim (Doomed rest) fun _ => False) ∧
    (gate.may .hit → gate.rule.onHit.elim (Settled rest) fun _ => True) ∧
    (gate.may .miss → gate.rule.onMiss.elim (Settled rest) fun _ => True)

/-- The scans of a chain end in what they may end in. -/
def Ends : List (Gate δ) → List (Rule δ × Outcome) → Prop :=
  List.Forall₂ fun gate step => step.1 = gate.rule ∧ gate.may step.2

/-- The possible results are those of the possible outcomes. -/
theorem possible_settle (last : δ) (gates : List (Gate δ)) (steps : List (Rule δ × Outcome))
    (h : Ends gates steps) : Possible last gates (settle last steps) := by
  induction h with
  | nil => rfl
  | @cons gate step gates steps hg _ ih =>
    rcases step with ⟨rule, o⟩
    rcases hg with ⟨hr, hm⟩
    replace hr : rule = gate.rule := hr
    subst hr
    rcases o with _ | _ | _
    · refine Or.inl ⟨hm, ?_⟩
      rcases hd : gate.rule.onHit with _ | d
      · simpa [settle, hd] using ih
      · simp [settle, hd]
    · refine Or.inr (Or.inl ⟨hm, ?_⟩)
      rcases hd : gate.rule.onMiss with _ | d
      · simpa [settle, hd] using ih
      · simp [settle, hd]
    · exact Or.inr (Or.inr ⟨hm, rfl⟩)

theorem exists_ends (gates : List (Gate δ)) : ∃ steps, Ends gates steps := by
  induction gates with
  | nil => exact ⟨[], List.Forall₂.nil⟩
  | cons gate gates ih =>
    rcases gate.ends with ⟨o, ho⟩
    rcases ih with ⟨steps, hs⟩
    exact ⟨(gate.rule, o) :: steps, List.Forall₂.cons ⟨rfl, ho⟩ hs⟩

/-- The steps after a decision do not matter, but there have to be some. -/
theorem exists_rest {last : δ} {gates : List (Gate δ)} {r : Option δ} {decision : Option δ}
    (ih : Possible last gates r → ∃ steps, Ends gates steps ∧ settle last steps = r)
    (h : decision.elim (Possible last gates r) fun d => r = some d) :
    ∃ steps, Ends gates steps ∧ decision.elim (settle last steps) some = r := by
  cases decision with
  | none => exact ih h
  | some d =>
    rcases exists_ends gates with ⟨steps, hs⟩
    exact ⟨steps, hs, h.symm⟩

theorem exists_outcomes (last : δ) (gates : List (Gate δ)) (r : Option δ)
    (h : Possible last gates r) : ∃ steps, Ends gates steps ∧ settle last steps = r := by
  induction gates generalizing r with
  | nil =>
    have hr : r = some last := h
    exact ⟨[], List.Forall₂.nil, hr.symm⟩
  | cons gate gates ih =>
    rcases h with ⟨hm, hp⟩ | ⟨hm, hp⟩ | ⟨hm, hr⟩
    · rcases exists_rest (ih r) hp with ⟨steps, hs, hr⟩
      exact ⟨(gate.rule, .hit) :: steps, List.Forall₂.cons ⟨rfl, hm⟩ hs, hr⟩
    · rcases exists_rest (ih r) hp with ⟨steps, hs, hr⟩
      exact ⟨(gate.rule, .miss) :: steps, List.Forall₂.cons ⟨rfl, hm⟩ hs, hr⟩
    · rcases exists_ends gates with ⟨steps, hs⟩
      exact ⟨(gate.rule, .raise) :: steps, List.Forall₂.cons ⟨rfl, hm⟩ hs, hr.symm⟩

theorem doomed_iff (last : δ) (gates : List (Gate δ)) :
    Doomed gates ↔ ∀ r, Possible last gates r → r = none := by
  induction gates with
  | nil => simp [Doomed, Possible]
  | cons gate gates ih =>
    constructor
    · rintro ⟨hh, hm⟩ r (⟨he, hp⟩ | ⟨he, hp⟩ | ⟨_, hr⟩)
      · have hd := hh he
        rcases ho : gate.rule.onHit with _ | d
        · rw [ho] at hd hp
          exact ih.mp hd r hp
        · rw [ho] at hd
          exact hd.elim
      · have hd := hm he
        rcases ho : gate.rule.onMiss with _ | d
        · rw [ho] at hd hp
          exact ih.mp hd r hp
        · rw [ho] at hd
          exact hd.elim
      · exact hr
    · intro hr
      constructor
      · intro he
        rcases ho : gate.rule.onHit with _ | d
        · exact ih.mpr fun r hp => hr r (Or.inl ⟨he, by rw [ho]; exact hp⟩)
        · exact absurd (hr _ (Or.inl ⟨he, by rw [ho]; rfl⟩)) (by simp)
      · intro he
        rcases ho : gate.rule.onMiss with _ | d
        · exact ih.mpr fun r hp => hr r (Or.inr (Or.inl ⟨he, by rw [ho]; exact hp⟩))
        · exact absurd (hr _ (Or.inr (Or.inl ⟨he, by rw [ho]; rfl⟩))) (by simp)

theorem Settled.hit_raise (last : δ) (gate : Gate δ) (gates : List (Gate δ)) (r : Option δ)
    (h : Settled (gate :: gates)) (hh : gate.may .hit) (hr : gate.may .raise)
    (hp : gate.rule.onHit.elim (Possible last gates r) fun d => r = some d) : r = none := by
  have hd := h.1 hh hr
  rcases ho : gate.rule.onHit with _ | d
  · rw [ho] at hd hp
    exact (doomed_iff _ _).mp hd r hp
  · rw [ho] at hd
    exact hd.elim

/-- A chain is settled if and only if no two results are possible. -/
theorem settled_iff (last : δ) (gates : List (Gate δ)) :
    Settled gates ↔ ∀ r r', Possible last gates r → Possible last gates r' → r = r' := by
  induction gates with
  | nil =>
    simp only [Settled, true_iff]
    intro r r' hr hr'
    exact Eq.trans hr (Eq.symm hr')
  | cons gate gates ih =>
    constructor
    · rintro h r r' (⟨he, hp⟩ | ⟨he, hp⟩ | ⟨he, hp⟩) (⟨he', hp'⟩ | ⟨he', hp'⟩ | ⟨he', hp'⟩)
      · have hs := h.2.1 he
        rcases ho : gate.rule.onHit with _ | d
        · rw [ho] at hs hp hp'
          exact ih.mp hs r r' hp hp'
        · rw [ho] at hp hp'
          exact Eq.trans hp (Eq.symm hp')
      · exact absurd he (gate.only_miss he').1
      · rw [hp', h.hit_raise _ _ _ r he he' hp]
      · exact absurd he' (gate.only_miss he).1
      · have hs := h.2.2 he
        rcases ho : gate.rule.onMiss with _ | d
        · rw [ho] at hs hp hp'
          exact ih.mp hs r r' hp hp'
        · rw [ho] at hp hp'
          exact Eq.trans hp (Eq.symm hp')
      · exact absurd he' (gate.only_miss he).2
      · rw [hp, h.hit_raise _ _ _ r' he' he hp']
      · exact absurd he (gate.only_miss he').2
      · rw [hp, hp']
    · intro hu
      refine ⟨fun hh hr => ?_, fun hh => ?_, fun hm => ?_⟩
      · rcases ho : gate.rule.onHit with _ | d
        · refine (doomed_iff last _).mpr fun r hp => ?_
          exact hu r _ (Or.inl ⟨hh, by rw [ho]; exact hp⟩) (Or.inr (Or.inr ⟨hr, rfl⟩))
        · have hn := hu _ none (Or.inl ⟨hh, by rw [ho]; rfl⟩) (Or.inr (Or.inr ⟨hr, rfl⟩))
          cases hn
      · rcases ho : gate.rule.onHit with _ | d
        · refine ih.mpr fun r r' hp hp' => ?_
          exact hu r r' (Or.inl ⟨hh, by rw [ho]; exact hp⟩) (Or.inl ⟨hh, by rw [ho]; exact hp'⟩)
        · trivial
      · rcases ho : gate.rule.onMiss with _ | d
        · refine ih.mpr fun r r' hp hp' => ?_
          exact hu r r' (Or.inr (Or.inl ⟨hm, by rw [ho]; exact hp⟩))
            (Or.inr (Or.inl ⟨hm, by rw [ho]; exact hp'⟩))
        · trivial

end LocalEmu
