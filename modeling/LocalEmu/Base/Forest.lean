import Mathlib.Data.List.Nodup
import Mathlib.Data.List.Perm.Basic

/-!
# Forests

A forest is a list of trees, and a tree is a label with the forest of its
children. The type below says this in one constructor: a first tree, by its
label and its children, and the rest of the forest. All functions over it are
then structurally recursive, and there is one induction principle.

What a program does to a tree is to change one node of it, to change a node with
all nodes below, or to cut a subtree off. The lemmas say what this does to the
list of all labels, so that a claim about the nodes of a forest is a claim about
a list.
-/

namespace LocalEmu

open List Option

/-- A forest: empty, or a tree and the rest of the forest. -/
inductive Forest (α : Type)
  | nil
  | cons (label : α) (children rest : Forest α)
  deriving DecidableEq

namespace Forest

variable {α : Type}

def tree (label : α) (children : Forest α) : Forest α := cons label children nil

/-- The trees of one forest and then those of another. -/
def append : Forest α → Forest α → Forest α
  | nil, g => g
  | cons a children rest, g => cons a children (rest.append g)

/-- Its labels, each before those of its children. -/
def labels : Forest α → List α
  | nil => []
  | cons a children rest => a :: (labels children ++ labels rest)

/-- Change every label. -/
def map (f : α → α) : Forest α → Forest α
  | nil => nil
  | cons a children rest => cons (f a) (map f children) (map f rest)

/-- Change the labels with a property, from the roots downwards. Below a label
    without the property, nothing is changed. -/
def mapWhile (q : α → Bool) (f : α → α) : Forest α → Forest α
  | nil => nil
  | cons a children rest =>
    if q a then cons (f a) (mapWhile q f children) (mapWhile q f rest)
    else cons a children (mapWhile q f rest)

def find (p : α → Bool) : Forest α → Option (α × Forest α)
  | nil => none
  | cons a children rest =>
    if p a then some (a, children) else (find p children).or (find p rest)

def update (p : α → Bool) (F : α → Forest α → α × Forest α) : Forest α → Forest α
  | nil => nil
  | cons a children rest =>
    if p a then cons (F a children).1 (F a children).2 rest
    else if (find p children).isSome then cons a (update p F children) rest
    else cons a children (update p F rest)

/-- Take the first tree whose root has a property out of the forest. -/
def extract (p : α → Bool) : Forest α → Option ((α × Forest α) × Forest α)
  | nil => none
  | cons a children rest =>
    if p a then some ((a, children), rest)
    else (extract p rest).map fun found => (found.1, cons a children found.2)

/-- Below a node without a property there is none with it. -/
def Closed (q : α → Bool) : Forest α → Prop
  | nil => True
  | cons a children rest =>
    (q a = false → ∀ b ∈ labels children, q b = false) ∧ Closed q children ∧ Closed q rest

@[simp]
theorem labels_nil : (nil : Forest α).labels = [] := rfl

@[simp]
theorem labels_cons (a : α) (children rest : Forest α) :
    (cons a children rest).labels = a :: (labels children ++ labels rest) := rfl

@[simp]
theorem labels_tree (a : α) (children : Forest α) :
    (tree a children).labels = a :: labels children := by
  rw [tree, labels_cons, labels_nil, append_nil]

theorem labels_append (f g : Forest α) : (f.append g).labels = f.labels ++ g.labels := by
  induction f with
  | nil => rfl
  | cons a children rest _ ih =>
    rw [append, labels_cons, labels_cons, ih, cons_append, append_assoc]

theorem append_nil (f : Forest α) : f.append nil = f := by
  induction f with
  | nil => rfl
  | cons a children rest _ ih => rw [append, ih]

theorem closed_append (q : α → Bool) (f g : Forest α) (hf : f.Closed q) (hg : g.Closed q) :
    (f.append g).Closed q := by
  induction f with
  | nil => exact hg
  | cons a children rest _ ih => exact ⟨hf.1, hf.2.1, ih hf.2.2⟩

/-! ### Changes to all nodes -/

theorem labels_map (f : α → α) (g : Forest α) : (g.map f).labels = g.labels.map f := by
  induction g with
  | nil => rfl
  | cons a children rest ihc ihr =>
    rw [map, labels_cons, labels_cons, ihc, ihr, map_cons, map_append]

theorem map_ite_of_forall (q : α → Bool) (f : α → α) (l : List α) (h : ∀ a ∈ l, q a = false) :
    l.map (fun a => if q a then f a else a) = l := by
  conv_rhs => rw [← map_id l]
  refine map_congr_left fun a ha => ?_
  rw [h a ha]
  rfl

/-- If there is no label with the property below one without it, then every
    label with the property is changed. -/
theorem labels_mapWhile (q : α → Bool) (f : α → α) (g : Forest α) (h : g.Closed q) :
    (g.mapWhile q f).labels = g.labels.map fun a => if q a then f a else a := by
  induction g with
  | nil => rfl
  | cons a children rest ihc ihr =>
    rcases h with ⟨hbelow, hchildren, hrest⟩
    by_cases ha : q a = true
    · rw [mapWhile, if_pos ha, labels_cons, labels_cons, ihc hchildren, ihr hrest,
        map_cons, map_append, if_pos ha]
    · rw [mapWhile, if_neg ha, labels_cons, labels_cons, ihr hrest, map_cons,
        map_append, if_neg ha,
        map_ite_of_forall q f _ (hbelow (Bool.not_eq_true _ ▸ ha))]

theorem closed_of_forall (q : α → Bool) (g : Forest α) (h : ∀ a ∈ g.labels, q a = false) :
    g.Closed q := by
  induction g with
  | nil => trivial
  | cons a children rest ihc ihr =>
    refine ⟨fun _ b hb => h b (by simp [hb]), ihc fun b hb => h b (by simp [hb]),
      ihr fun b hb => h b (by simp [hb])⟩

/-! ### Changes to one tree -/

variable {children g : Forest α} {a : α} {p q : α → Bool}

/-- A change to one tree, seen in the list of the labels. -/
theorem update_labels (h : g.find p = some (a, children)) :
    ∃ before after, g.labels = before ++ (a :: labels children) ++ after ∧
      ∀ F, (g.update p F).labels =
        before ++ ((F a children).1 :: labels (F a children).2) ++ after := by
  induction g with
  | nil => cases h
  | cons b below rest ihc ihr =>
    rw [find] at h
    by_cases hb : p b = true
    · rw [if_pos hb] at h
      rcases Prod.mk.inj (some.inj h) with ⟨rfl, rfl⟩
      refine ⟨[], labels rest, rfl, fun F => ?_⟩
      rw [update, if_pos hb]
      rfl
    · rw [if_neg hb] at h
      rcases hfound : find p below with _ | found
      · -- Not among the children of the first tree: it is in the rest.
        rw [hfound] at h
        rcases ihr h with ⟨before, after, hlabels, hupdate⟩
        refine ⟨b :: (labels below ++ before), after, ?_, fun F => ?_⟩
        · rw [labels_cons, hlabels]
          simp
        · rw [update, if_neg hb, hfound, if_neg (by simp), labels_cons, hupdate F]
          simp
      · rw [hfound] at h
        rcases ihc (hfound.trans h) with ⟨before, after, hlabels, hupdate⟩
        refine ⟨b :: before, after ++ labels rest, ?_, fun F => ?_⟩
        · rw [labels_cons, hlabels]
          simp
        · rw [update, if_neg hb, hfound, if_pos (by simp), labels_cons, hupdate F]
          simp

theorem update_cons {F : α → Forest α → α × Forest α} (rest : Forest α)
    (h : p a = true → (F a children).1 = a) :
    ∃ children' rest', (cons a children rest).update p F = cons a children' rest' := by
  rw [update]
  by_cases ha : p a = true
  · rw [if_pos ha, h ha]
    exact ⟨_, _, rfl⟩
  · rw [if_neg ha]
    split
    · exact ⟨_, _, rfl⟩
    · exact ⟨_, _, rfl⟩

theorem find_closed (hg : g.Closed q)
    (h : g.find p = some (a, children)) : (tree a children).Closed q := by
  induction g with
  | nil => cases h
  | cons b below rest ihc ihr =>
    rw [find] at h
    by_cases hb : p b = true
    · rw [if_pos hb] at h
      rcases Prod.mk.inj (some.inj h) with ⟨rfl, rfl⟩
      exact ⟨hg.1, hg.2.1, trivial⟩
    · rw [if_neg hb] at h
      rcases or_eq_some_iff.mp h with h | ⟨_, h⟩
      · exact ihc hg.2.1 h
      · exact ihr hg.2.2 h

/-- A change to the tree that is found preserves `Closed` if the new tree is
    closed, and has no label with the property where the old one had none. -/
theorem update_closed {F : α → Forest α → α × Forest α} (hg : g.Closed q)
    (h : g.find p = some (a, children))
    (hnew : (tree (F a children).1 (F a children).2).Closed q)
    (hnone : (∀ b ∈ a :: labels children, q b = false) →
      ∀ b ∈ (F a children).1 :: labels (F a children).2, q b = false) :
    (g.update p F).Closed q := by
  induction g with
  | nil => cases h
  | cons b below rest ihc ihr =>
    rw [find] at h
    by_cases hb : p b = true
    · rw [if_pos hb] at h
      rcases Prod.mk.inj (some.inj h) with ⟨rfl, rfl⟩
      rw [update, if_pos hb]
      exact ⟨hnew.1, hnew.2.1, hg.2.2⟩
    · rw [if_neg hb] at h
      rcases hfound : find p below with _ | found
      · rw [hfound] at h
        rw [update, if_neg hb, hfound]
        exact ⟨hg.1, hg.2.1, ihr hg.2.2 h⟩
      · rw [hfound] at h
        have h := hfound.trans h
        rw [update, if_neg hb, hfound]
        refine ⟨fun hq c hc => ?_, ihc hg.2.1 h, hg.2.2⟩
        -- Above a node without the property nothing is required, and below it
        -- the old labels had none.
        rcases update_labels h with ⟨before, after, hlabels, hupdate⟩
        have hold : ∀ c ∈ below.labels, q c = false := hg.1 hq
        rw [hlabels] at hold
        rw [hupdate F, mem_append, mem_append] at hc
        rcases hc with (hc | hc) | hc
        · exact hold c (by simp [hc])
        · exact hnone (fun d hd => hold d (by simp only [mem_append, hd, true_or, or_true]))
            c hc
        · exact hold c (by simp [hc])

/-! ### Taking a tree out -/

/-- The labels of what was taken out and of what is left. -/
theorem extract_perm {remaining : Forest α} (h : g.extract p = some ((a, children), remaining)) :
    g.labels.Perm ((a :: labels children) ++ labels remaining) := by
  induction g generalizing remaining with
  | nil => cases h
  | cons b below rest _ ih =>
    rw [extract] at h
    by_cases hb : p b = true
    · rw [if_pos hb] at h
      rcases Prod.mk.inj (some.inj h) with ⟨hfound, rfl⟩
      rcases Prod.mk.inj hfound with ⟨rfl, rfl⟩
      exact List.Perm.refl _
    · rw [if_neg hb] at h
      rcases map_eq_some_iff.mp h with ⟨⟨found, left⟩, hfound, heq⟩
      rcases Prod.mk.inj heq with ⟨rfl, rfl⟩
      rw [labels_cons, labels_cons]
      have hperm := (ih hfound).append_left (b :: labels below)
      refine hperm.trans ?_
      rw [← append_assoc, ← cons_append, ← append_assoc]
      exact perm_append_comm.append_right _

theorem extract_closed {remaining : Forest α} (hg : g.Closed q)
    (h : g.extract p = some ((a, children), remaining)) :
    (tree a children).Closed q ∧ remaining.Closed q := by
  induction g generalizing remaining with
  | nil => cases h
  | cons b below rest _ ih =>
    rw [extract] at h
    by_cases hb : p b = true
    · rw [if_pos hb] at h
      rcases Prod.mk.inj (some.inj h) with ⟨hfound, rfl⟩
      rcases Prod.mk.inj hfound with ⟨rfl, rfl⟩
      exact ⟨⟨hg.1, hg.2.1, trivial⟩, hg.2.2⟩
    · rw [if_neg hb] at h
      rcases map_eq_some_iff.mp h with ⟨⟨found, left⟩, hfound, heq⟩
      rcases Prod.mk.inj heq with ⟨rfl, rfl⟩
      rcases ih hg.2.2 hfound with ⟨htree, hleft⟩
      exact ⟨htree, hg.1, hg.2.1, hleft⟩

end Forest

end LocalEmu
