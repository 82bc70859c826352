import Mathlib.Data.List.Infix
import Mathlib.Data.List.Nodup
import Mathlib.Data.List.Perm.Subperm

/-!
# Paging

A listing that is handed out in pages. Its items are in a fixed order, and an
item may be rolled up: all items with one label are shown as one entry, at the
place of the first of them. A client asks for a page, gets a token for the next
one, and goes on until there is no token.

The theory has two halves. The first is about the entries of a list of items:
`heads` are the items that open an entry, and where the items of a label are
together, the entries of a list are those of its first part followed by those
of its second. The second half is about the client: it sees exactly the entries
that it should if and only if every page it reaches starts in the right place.
-/

namespace LocalEmu.Paging

open List Option

/-- What is left of a list without duplicates is found by its members. -/
theorem eq_filter_of_sublist {α : Type} [DecidableEq α] {part whole : List α}
    (h : part.Sublist whole) (hnodup : whole.Nodup) :
    part = whole.filter fun a => decide (a ∈ part) := by
  have hpart : part.filter (fun a => decide (a ∈ part)) = part :=
    filter_eq_self.mpr fun a ha => decide_eq_true ha
  have hsub := h.filter fun a => decide (a ∈ part)
  rw [hpart] at hsub
  refine hsub.eq_of_length_le ((hnodup.filter _).subperm fun a ha => ?_).length_le
  exact of_decide_eq_true (mem_filter.mp ha).2

/-! ### Entries -/

section Entries

variable {α ρ : Type} [DecidableEq ρ] (label : α → Option ρ)

/-- The items that open an entry: those without a label, and the first of each
    label that was not seen before. -/
def heads (seen : List ρ) : List α → List α
  | [] => []
  | a :: l =>
    match label a with
    | none => a :: heads seen l
    | some r => if r ∈ seen then heads seen l else a :: heads (r :: seen) l

/-- The items of every label are together. -/
def Together (l : List α) : Prop :=
  ∀ x a y b z, l = x ++ a :: (y ++ b :: z) → ∀ r, label a = some r → label b = some r →
    ∀ c ∈ y, label c = some r

variable {label}

variable (seen : List ρ) (a : α) (l : List α)

theorem heads_cons_none (ha : label a = none) :
    heads label seen (a :: l) = a :: heads label seen l := by
  rw [heads, ha]

theorem heads_cons_seen (r : ρ) (ha : label a = some r)
    (hr : r ∈ seen) : heads label seen (a :: l) = heads label seen l := by
  rw [heads, ha]
  exact if_pos hr

theorem heads_cons_new (r : ρ) (ha : label a = some r)
    (hr : r ∉ seen) : heads label seen (a :: l) = a :: heads label (r :: seen) l := by
  rw [heads, ha]
  exact if_neg hr

variable (label) in
theorem exists_heads_cons (a : α) (l : List α) :
    ∃ l', heads label [] (a :: l) = a :: l' := by
  rcases ha : label a with _ | r
  · exact ⟨_, heads_cons_none _ _ _ ha⟩
  · exact ⟨_, heads_cons_new _ _ _ r ha not_mem_nil⟩

theorem heads_congr (seen seen' : List ρ) (l : List α)
    (h : ∀ a ∈ l, ∀ r, label a = some r → (r ∈ seen ↔ r ∈ seen')) :
    heads label seen l = heads label seen' l := by
  induction l generalizing seen seen' with
  | nil => rfl
  | cons a l ih =>
    have htail : ∀ b ∈ l, ∀ r, label b = some r → (r ∈ seen ↔ r ∈ seen') :=
      fun b hb => h b (mem_cons_of_mem a hb)
    rcases ha : label a with _ | r
    · rw [heads_cons_none _ _ _ ha, heads_cons_none _ _ _ ha, ih _ _ htail]
    · have hr := h a mem_cons_self r ha
      by_cases hseen : r ∈ seen
      · rw [heads_cons_seen _ _ _ r ha hseen, heads_cons_seen _ _ _ r ha (hr.mp hseen),
          ih _ _ htail]
      · rw [heads_cons_new _ _ _ r ha hseen, heads_cons_new _ _ _ r ha (mt hr.mpr hseen)]
        congr 1
        refine ih _ _ fun b hb s hs => ?_
        rw [mem_cons, mem_cons, htail b hb s hs]

theorem heads_append (seen : List ρ) (l l' : List α) :
    heads label seen (l ++ l') =
      heads label seen l ++ heads label (l.filterMap label ++ seen) l' := by
  induction l generalizing seen with
  | nil => rfl
  | cons a l ih =>
    rw [cons_append]
    rcases ha : label a with _ | r
    · rw [heads_cons_none _ _ _ ha, heads_cons_none _ _ _ ha, ih,
        filterMap_cons_none ha, cons_append]
    · rw [filterMap_cons_some ha]
      by_cases hr : r ∈ seen
      · rw [heads_cons_seen _ _ _ r ha hr, heads_cons_seen _ _ _ r ha hr, ih]
        congr 1
        refine heads_congr _ _ l' fun b _ s _ => ?_
        simp only [cons_append, mem_cons, mem_append]
        refine ⟨.inr, ?_⟩
        rintro (rfl | h)
        · exact .inr hr
        · exact h
      · rw [heads_cons_new _ _ _ r ha hr, heads_cons_new _ _ _ r ha hr, ih]
        congr 2
        refine heads_congr _ _ l' fun b _ s _ => ?_
        simp only [cons_append, mem_cons, mem_append]
        tauto

/-- The entries of two parts without a common label. -/
theorem heads_append_of_apart (l l' : List α)
    (h : ∀ a ∈ l, ∀ b ∈ l', ∀ r, label a = some r → label b ≠ some r) :
    heads label [] (l ++ l') = heads label [] l ++ heads label [] l' := by
  rw [heads_append]
  congr 1
  refine heads_congr _ _ l' fun b hb r hr => ?_
  rw [append_nil, mem_filterMap]
  refine ⟨?_, fun h' => absurd h' not_mem_nil⟩
  rintro ⟨a, ha, har⟩
  exact absurd hr (h a ha b hb r har)

variable (label) in
theorem heads_sublist (seen : List ρ) (l : List α) : (heads label seen l).Sublist l := by
  induction l generalizing seen with
  | nil => exact List.Sublist.refl _
  | cons a l ih =>
    rcases ha : label a with _ | r
    · rw [heads_cons_none _ _ _ ha]
      exact (ih seen).cons_cons a
    · by_cases hr : r ∈ seen
      · rw [heads_cons_seen _ _ _ r ha hr]
        exact (ih seen).cons a
      · rw [heads_cons_new _ _ _ r ha hr]
        exact (ih (r :: seen)).cons_cons a

variable (seen : List ρ) (l : List α)

variable (label) in
omit [DecidableEq ρ] in
theorem length_filter_add_filterMap :
    (l.filter fun a => (label a).isNone).length + (l.filterMap label).length = l.length := by
  induction l with
  | nil => rfl
  | cons a =>
    rcases ha : label a with _ | r
    · rw [filter_cons_of_pos (by rw [ha]; rfl), filterMap_cons_none ha,
        length_cons, length_cons]
      omega
    · rw [filter_cons_of_neg (by rw [ha]; exact Bool.false_ne_true),
        filterMap_cons_some ha, length_cons, length_cons]
      omega

theorem filter_heads : (heads label seen l).filter (fun a => (label a).isNone) =
      l.filter fun a => (label a).isNone := by
  induction l generalizing seen with
  | nil => rfl
  | cons a l ih =>
    rcases ha : label a with _ | r
    · rw [heads_cons_none _ _ _ ha, filter_cons_of_pos (by rw [ha]; rfl), ih,
        filter_cons_of_pos (by rw [ha]; rfl)]
    · rw [filter_cons_of_neg (by rw [ha]; exact Bool.false_ne_true)]
      by_cases hr : r ∈ seen
      · rw [heads_cons_seen _ _ _ r ha hr, ih]
      · rw [heads_cons_new _ _ _ r ha hr,
          filter_cons_of_neg (by rw [ha]; exact Bool.false_ne_true), ih]

theorem heads_filter (keep : α → Bool)
    (h : ∀ a ∈ l, keep a = false → ∃ r ∈ seen, label a = some r) :
    heads label seen (l.filter keep) = heads label seen l := by
  induction l generalizing seen with
  | nil => rfl
  | cons a l ih =>
    have htail : ∀ b ∈ l, keep b = false → ∃ r ∈ seen, label b = some r :=
      fun b hb => h b (mem_cons_of_mem a hb)
    rcases hk : keep a with _ | _
    · obtain ⟨r, hr, ha⟩ := h a mem_cons_self hk
      rw [filter_cons_of_neg (by simp [hk]), heads_cons_seen _ _ _ r ha hr, ih _ htail]
    · rw [filter_cons_of_pos hk]
      rcases ha : label a with _ | r
      · rw [heads_cons_none _ _ _ ha, heads_cons_none _ _ _ ha, ih _ htail]
      · by_cases hr : r ∈ seen
        · rw [heads_cons_seen _ _ _ r ha hr, heads_cons_seen _ _ _ r ha hr, ih _ htail]
        · rw [heads_cons_new _ _ _ r ha hr, heads_cons_new _ _ _ r ha hr, ih]
          intro b hb hkb
          obtain ⟨s, hs, hbs⟩ := htail b hb hkb
          exact ⟨s, mem_cons_of_mem r hs, hbs⟩

theorem heads_rename {σ : Type} [DecidableEq σ] (f : ρ → σ) (hf : Function.Injective f)
    (label' : α → Option σ) (seen : List ρ) (l : List α)
    (h : ∀ a ∈ l, label' a = (label a).map f) :
    heads label' (seen.map f) l = heads label seen l := by
  induction l generalizing seen with
  | nil => rfl
  | cons a l ih =>
    have htail : ∀ b ∈ l, label' b = (label b).map f := fun b hb => h b (mem_cons_of_mem a hb)
    have ha' := h a mem_cons_self
    rcases ha : label a with _ | r
    · rw [ha] at ha'
      rw [heads_cons_none _ _ _ ha, heads_cons_none _ _ _ ha', ih _ htail]
    · rw [ha] at ha'
      by_cases hr : r ∈ seen
      · rw [heads_cons_seen _ _ _ r ha hr,
          heads_cons_seen _ _ _ _ ha' (mem_map_of_mem hr), ih _ htail]
      · have hr' : f r ∉ seen.map f := fun h' => by
          obtain ⟨s, hs, hsr⟩ := mem_map.mp h'
          exact hr (hf hsr ▸ hs)
        rw [heads_cons_new _ _ _ r ha hr, heads_cons_new _ _ _ _ ha' hr', ← ih _ htail, map_cons]

theorem mem_labels_heads (r : ρ) :
    r ∈ (heads label seen l).filterMap label ↔ r ∉ seen ∧ r ∈ l.filterMap label := by
  induction l generalizing seen with
  | nil => exact ⟨fun h => absurd h not_mem_nil, fun h => absurd h.2 not_mem_nil⟩
  | cons a l ih =>
    rcases ha : label a with _ | s
    · rw [heads_cons_none _ _ _ ha, filterMap_cons_none ha, filterMap_cons_none ha,
        ih]
    · rw [filterMap_cons_some ha]
      by_cases hs : s ∈ seen
      · rw [heads_cons_seen _ _ _ s ha hs, ih, mem_cons]
        constructor
        · exact fun h => ⟨h.1, .inr h.2⟩
        · rintro ⟨hr, rfl | h⟩
          · exact absurd hs hr
          · exact ⟨hr, h⟩
      · rw [heads_cons_new _ _ _ s ha hs, filterMap_cons_some ha, mem_cons, ih,
          mem_cons, mem_cons]
        constructor
        · rintro (rfl | ⟨hr, h⟩)
          · exact ⟨hs, .inl rfl⟩
          · exact ⟨fun h' => hr (.inr h'), .inr h⟩
        · rintro ⟨hr, rfl | h⟩
          · exact .inl rfl
          · by_cases hrs : r = s
            · exact .inl hrs
            · exact .inr ⟨fun h' => h'.elim hrs hr, h⟩

theorem nodup_labels_heads : ((heads label seen l).filterMap label).Nodup := by
  induction l generalizing seen with
  | nil => exact nodup_nil
  | cons a l ih =>
    rcases ha : label a with _ | r
    · rw [heads_cons_none _ _ _ ha, filterMap_cons_none ha]
      exact ih _
    · by_cases hr : r ∈ seen
      · rw [heads_cons_seen _ _ _ r ha hr]
        exact ih _
      · rw [heads_cons_new _ _ _ r ha hr, filterMap_cons_some ha, nodup_cons]
        refine ⟨fun h => ?_, ih _⟩
        exact ((mem_labels_heads _ _ _).mp h).1 mem_cons_self

theorem exists_split (n : Nat) (t : α) (ht : (heads label seen l)[n]? = some t) :
    ∃ x y, l = x ++ t :: y ∧ heads label seen x = (heads label seen l).take n ∧
      ∀ r, label t = some r → ∀ a ∈ x, label a ≠ some r := by
  induction l generalizing seen n with
  | nil => cases ht
  | cons a l ih =>
    -- An item that opens no entry goes to the part before the head.
    have hskip : ∀ r, label a = some r → r ∈ seen → ∃ x y, a :: l = x ++ t :: y ∧
        heads label seen x = (heads label seen (a :: l)).take n ∧
        ∀ r, label t = some r → ∀ a ∈ x, label a ≠ some r := by
      intro r ha hr
      rw [heads_cons_seen _ _ _ r ha hr] at ht ⊢
      obtain ⟨x, y, rfl, hx, hfree⟩ := ih _ n ht
      refine ⟨a :: x, y, rfl, by rw [heads_cons_seen _ _ _ r ha hr, hx], ?_⟩
      intro s hs b hb
      rcases mem_cons.mp hb with rfl | hb
      · intro hbs
        have hmem : t ∈ heads label seen (x ++ t :: y) := mem_of_getElem? ht
        have hlabel := (mem_labels_heads _ _ s).mp (mem_filterMap.mpr ⟨t, hmem, hs⟩)
        rw [ha] at hbs
        exact hlabel.1 (some.inj hbs ▸ hr)
      · exact hfree s hs b hb
    -- One that opens an entry is the head, or its entry comes first.
    have hopen : ∀ seen', heads label seen (a :: l) = a :: heads label seen' l →
        (∀ x, heads label seen (a :: x) = a :: heads label seen' x) →
        (∀ s, label a = some s → s ∈ seen') → ∃ x y, a :: l = x ++ t :: y ∧
        heads label seen x = (heads label seen (a :: l)).take n ∧
        ∀ r, label t = some r → ∀ a ∈ x, label a ≠ some r := by
      intro seen' hl hcons hown
      rw [hl] at ht ⊢
      cases n with
      | zero =>
        obtain rfl : a = t := some.inj ht
        exact ⟨[], l, rfl, rfl, fun _ _ _ h => absurd h not_mem_nil⟩
      | succ n =>
        obtain ⟨x, y, rfl, hx, hfree⟩ := ih _ n ht
        refine ⟨a :: x, y, rfl, by rw [hcons, hx, take_succ_cons], ?_⟩
        intro s hs b hb
        rcases mem_cons.mp hb with rfl | hb
        · intro hbs
          have hmem : t ∈ heads label seen' (x ++ t :: y) := mem_of_getElem? ht
          have hlabel := (mem_labels_heads _ _ s).mp (mem_filterMap.mpr ⟨t, hmem, hs⟩)
          exact hlabel.1 (hown s hbs)
        · exact hfree s hs b hb
    rcases ha : label a with _ | r
    · exact hopen _ (heads_cons_none _ _ _ ha) (fun x => heads_cons_none _ _ _ ha)
        fun s hs => absurd (ha.symm.trans hs) (by simp)
    · by_cases hr : r ∈ seen
      · exact hskip r ha hr
      · refine hopen _ (heads_cons_new _ _ _ r ha hr)
          (fun x => heads_cons_new _ _ _ r ha hr) fun s hs => ?_
        rw [← some.inj (ha.symm.trans hs)]
        exact mem_cons_self

/-- A list whose items are together splits at each of its heads: the entries
    before the head are those of the items before it. -/
theorem heads_split (htog : Together label l) (n : Nat) (t : α)
    (ht : (heads label [] l)[n]? = some t) :
    ∃ x y, l = x ++ t :: y ∧ (∀ a ∈ x, ∀ b ∈ t :: y, ∀ r, label a = some r → label b ≠ some r) ∧
      heads label [] x = (heads label [] l).take n ∧
      heads label [] (t :: y) = (heads label [] l).drop n := by
  obtain ⟨x, y, rfl, hx, hfree⟩ := exists_split [] l n t ht
  have hapart : ∀ a ∈ x, ∀ b ∈ t :: y, ∀ r, label a = some r → label b ≠ some r := by
    intro a ha b hb r har hbr
    rcases mem_cons.mp hb with rfl | hb
    · exact hfree r hbr a ha har
    · -- The head is between the two, so it has their label.
      obtain ⟨x₁, x₂, rfl⟩ := append_of_mem ha
      obtain ⟨y₁, y₂, rfl⟩ := append_of_mem hb
      have hlabel := htog x₁ a (x₂ ++ t :: y₁) b y₂ (by simp) r har hbr t (by simp)
      exact hfree r hlabel a ha har
  refine ⟨x, y, rfl, hapart, hx, ?_⟩
  have hsplit := heads_append_of_apart x _ hapart
  rw [hx] at hsplit
  have hdrop := take_append_drop n (heads label [] (x ++ t :: y))
  exact (append_cancel_left (hdrop.trans hsplit)).symm

end Entries

/-! ### Walks -/

theorem perm_append_iff {ρ : Type} (a a' b b' : List ρ) (h : a.Perm a') :
    (a ++ b).Perm (a' ++ b') ↔ b.Perm b' := by
  have hb := h.append_right b
  refine Iff.trans ⟨fun h' => hb.symm.trans h', fun h' => hb.trans h'⟩ ?_
  exact perm_append_left_iff a'

section Walks

variable {τ π ε α : Type} (call : τ → Except ε π) (next : π → Option τ)

/-- The pages that a client gets that starts with a token and follows the tokens it gets back. -/
inductive Walk : τ → List π → Prop
  | last {t : τ} {p : π} : call t = .ok p → next p = none → Walk t [p]
  | more {t t' : τ} {p : π} {ps : List π} : call t = .ok p → next p = some t' → Walk t' ps →
      Walk t (p :: ps)

/-- How a page counts: `Shows p l` says that a page shows some entries, and
    `Complete ps l` that the pages together do. -/
structure PageCount (Shows : π → List α → Prop) (Complete : List π → List α → Prop) : Prop where
  single : ∀ p l, Shows p l → Complete [p] l
  cons : ∀ p ps l l', Shows p l → (Complete (p :: ps) (l ++ l') ↔ Complete ps l')

variable {call next} {Shows : π → List α → Prop} {Complete : List π → List α → Prop}

theorem exists_walk_more {t t' : τ} {p : π} (hcall : call t = .ok p) (hnext : next p = some t')
    (Q : List π → Prop) :
    (∃ ps, Walk call next t ps ∧ Q ps) ↔ ∃ ps, Walk call next t' ps ∧ Q (p :: ps) := by
  constructor
  · rintro ⟨ps, hwalk, hq⟩
    cases hwalk with
    | last hcall' hnext' =>
      obtain rfl := Except.ok.inj (hcall.symm.trans hcall')
      exact absurd (hnext.symm.trans hnext') (by simp)
    | more hcall' hnext' hwalk =>
      obtain rfl := Except.ok.inj (hcall.symm.trans hcall')
      obtain rfl := some.inj (hnext.symm.trans hnext')
      exact ⟨_, hwalk, hq⟩
  · rintro ⟨ps, hwalk, hq⟩
    exact ⟨p :: ps, .more hcall hnext hwalk, hq⟩

variable (call next) in
/-- A walk is complete if and only if every page it reaches starts in the right
    place. The token `tok n` stands for the place after `n` entries, where there
    is one, and `more n` says that the page there has a token. -/
theorem exists_complete_iff (hcount : PageCount Shows Complete) (entries : List α) (m : Nat)
    (hm : 0 < m) (tok : Nat → τ) (place good more : Nat → Prop)
    (hplace : ∀ n, place n → n ≤ entries.length)
    (hgood : ∀ n, place n → good n → ∃ p, call (tok n) = .ok p ∧
      Shows p ((entries.drop n).take m) ∧
      ((next p = some (tok (n + m)) ∧ more n ∧ place (n + m)) ∨
        (next p = none ∧ ¬more n ∧ entries.length ≤ n + m)))
    (hbad : ∀ n, place n → ¬good n → ∀ ps, Walk call next (tok n) ps →
      ¬Complete ps (entries.drop n)) (n : Nat) (hn : place n) :
    (∃ ps, Walk call next (tok n) ps ∧ Complete ps (entries.drop n)) ↔
      ∀ j, (∀ i < j, more (n + i * m)) → good (n + j * m) := by
  -- By induction on the number of entries that are left.
  induction hk : entries.length - n using Nat.strong_induction_on generalizing n with
  | _ k ih =>
    have hlength := hplace n hn
    by_cases hg : good n
    · obtain ⟨p, hcall, hshows, ⟨hnext, hmore, hle⟩ | ⟨hnext, hmore, hle⟩⟩ := hgood n hn hg
      · have hrest : ∀ ps, Complete (p :: ps) (entries.drop n) ↔
            Complete ps (entries.drop (n + m)) := by
          intro ps
          have hparts := take_append_drop m (entries.drop n)
          rw [drop_drop] at hparts
          rw [← hcount.cons p ps _ (entries.drop (n + m)) hshows, hparts]
        rw [exists_walk_more hcall hnext]
        simp only [hrest]
        have hlength' := hplace (n + m) hle
        rw [ih (entries.length - (n + m)) (by omega) (n + m) hle rfl]
        constructor
        · intro h j hj
          cases j with
          | zero => simpa using hg
          | succ j =>
            have hshift : ∀ i, n + m + i * m = n + (i + 1) * m := by
              intro i
              rw [Nat.succ_mul]
              omega
            rw [← hshift]
            exact h j fun i hi => hshift i ▸ hj (i + 1) (Nat.succ_lt_succ hi)
        · intro h j hj
          have hshift : ∀ i, n + m + i * m = n + (i + 1) * m := by
            intro i
            rw [Nat.succ_mul]
            omega
          rw [hshift]
          refine h (j + 1) fun i hi => ?_
          cases i with
          | zero => simpa using hmore
          | succ i => exact hshift i ▸ hj i (Nat.lt_of_succ_lt_succ hi)
      · refine iff_of_true ⟨[p], .last hcall hnext, hcount.single p _ ?_⟩ fun j hj => ?_
        · rwa [take_of_length_le (by rw [length_drop]; omega)] at hshows
        · cases j with
          | zero => simpa using hg
          | succ j => exact absurd (by simpa using hj 0 (Nat.succ_pos j)) hmore
    · refine iff_of_false (fun ⟨ps, hwalk, hps⟩ => hbad n hn hg ps hwalk hps) fun h => ?_
      exact hg (by simpa using h 0 fun i hi => absurd hi (Nat.not_lt_zero i))

end Walks

end LocalEmu.Paging
