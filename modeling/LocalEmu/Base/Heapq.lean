import Mathlib.Data.List.Perm.Basic
import Mathlib.Order.Nat
import Mathlib.Order.Lattice

/-!
# Binary Heaps Over Lists

The binary min-heap of Python's `heapq`, over an arbitrary element type and
an arbitrary key into a linear order.

The algorithms are the ones of `heapq`, not a textbook heap. Popping does
not compare the displaced element on the way down: `siftup` walks the hole to
a leaf, always promoting the smaller child, and only then lets `siftdown`
carry the element back up. Which of two equal keys comes out first depends on
that, so nothing here is allowed to simplify it. Moving an element through a
hole is written as a chain of swaps, which leaves the same list.

The recursion is on a fuel argument so that a concrete heap can be evaluated.
The position shrinks by at least one per round of `siftdown` and grows by at
least one per round of `siftup`, so the position and the length are enough.

`HeapFrom lo` is the heap property restricted to the edges whose parent sits
at `lo` or later. `heapify` establishes it for a falling `lo`, and at zero it
is the heap property itself.
-/

namespace LocalEmu.Heapq

open List Option

variable {α κ : Type} [LinearOrder κ] (key : α → κ)

variable (heap rest : List α) (item : α) (l : List α)

/-- Exchange two positions, or nothing if one of them is out of bounds. -/
def swap (i j : Nat) : List α :=
  match l[i]?, l[j]? with
  | some a, some b => (l.set i b).set j a
  | _, _ => l

/-- Carry the element at `pos` up towards `startpos` while it is smaller than its parent. -/
def siftdownLoop (startpos : Nat) : Nat → Nat → List α → List α
  | 0, _, heap => heap
  | fuel + 1, pos, heap =>
    if startpos < pos then
      match heap[pos]?, heap[(pos - 1) / 2]? with
      | some newitem, some parent =>
        if key newitem < key parent then
          siftdownLoop startpos fuel ((pos - 1) / 2) (swap heap pos ((pos - 1) / 2))
        else heap
      | _, _ => heap
    else heap

/-- Carrying an element up towards a start position. -/
def siftdown (startpos pos : Nat) : List α :=
  siftdownLoop key startpos pos pos heap

/-- The child `siftup` promotes: the right one unless the left is strictly smaller. -/
def smallerChild (childpos : Nat) : Nat :=
  match heap[childpos]?, heap[childpos + 1]? with
  | some l, some r => if key l < key r then childpos else childpos + 1
  | _, _ => childpos

/-- Walk the hole at `pos` to a leaf, promoting the smaller child each time.
    The result is the list together with the leaf reached. -/
def siftupLoop : Nat → Nat → List α → List α × Nat
  | 0, pos, heap => (heap, pos)
  | fuel + 1, pos, heap =>
    if 2 * pos + 1 < heap.length then
      siftupLoop fuel (smallerChild key heap (2 * pos + 1))
        (swap heap pos (smallerChild key heap (2 * pos + 1)))
    else (heap, pos)

variable (pos : Nat)

/-- Walking a hole to a leaf, then carrying the element back up. -/
def siftup : List α :=
  siftdown key (siftupLoop key heap.length pos heap).1 pos
    (siftupLoop key heap.length pos heap).2

def heappush : List α :=
  siftdown key (heap ++ [item]) 0 heap.length

/-- `heapq.heappop`, or `none` where the original raises `IndexError`. -/
def heappop : Option (α × List α) :=
  match heap with
  | [] => none
  | [lastelt] => some (lastelt, [])
  | returnitem :: x :: rest =>
    some (returnitem, siftup key ((x :: rest).getLast (List.cons_ne_nil x rest) ::
      (x :: rest).dropLast) 0)

/-- The loop of `heapq.heapify`, over the positions still to be sifted. -/
def heapifyLoop : Nat → List α → List α
  | 0, heap => heap
  | n + 1, heap => heapifyLoop n (siftup key heap n)

def heapify : List α :=
  heapifyLoop key (heap.length / 2) heap

variable (lo : Nat)

/-- The heap property on the edges whose parent sits at `lo` or later. -/
def HeapFrom (heap : List α) : Prop :=
  ∀ i x p, 0 < i → lo ≤ (i - 1) / 2 → heap[i]? = some x → heap[(i - 1) / 2]? = some p →
    key p ≤ key x

/-- The heap property: no element is smaller than its parent. -/
def IsHeap : Prop := HeapFrom key 0 heap

/-! ### Rearrangement -/

theorem swap_perm (i j : Nat) : (swap l i j).Perm l := by
  unfold swap
  split
  · next a b hi hj =>
    rcases List.getElem?_eq_some_iff.mp hi with ⟨hil, rfl⟩
    rcases List.getElem?_eq_some_iff.mp hj with ⟨hjl, rfl⟩
    exact List.set_set_perm hil hjl
  · exact List.Perm.refl l

theorem swap_length (i j : Nat) : (swap l i j).length = l.length :=
  (swap_perm l i j).length_eq

theorem siftdownLoop_perm (startpos : Nat) : ∀ (fuel pos : Nat) (heap : List α),
    (siftdownLoop key startpos fuel pos heap).Perm heap := by
  intro fuel
  induction fuel with
  | zero => intro pos heap; exact List.Perm.refl heap
  | succ n ih =>
    intro pos heap
    unfold siftdownLoop
    split
    · split
      · split
        · exact (ih _ _).trans (swap_perm heap _ _)
        · exact List.Perm.refl heap
      · exact List.Perm.refl heap
    · exact List.Perm.refl heap

theorem siftdown_perm (startpos pos : Nat) : (siftdown key heap startpos pos).Perm heap :=
  siftdownLoop_perm _ _ _ _ heap

theorem siftupLoop_perm : ∀ (fuel pos : Nat) (heap : List α),
    (siftupLoop key fuel pos heap).1.Perm heap := by
  intro fuel
  induction fuel with
  | zero => intro pos heap; exact List.Perm.refl heap
  | succ n ih =>
    intro pos heap
    unfold siftupLoop
    split
    · exact (ih _ _).trans (swap_perm heap _ _)
    · exact List.Perm.refl heap

theorem siftup_perm : (siftup key heap pos).Perm heap :=
  (siftdown_perm _ _ _ _).trans (siftupLoop_perm _ _ _ _)

/-- The operations rearrange. -/
theorem heappush_perm : (heappush key heap item).Perm (item :: heap) :=
  (siftdown_perm _ _ _ _).trans (perm_append_singleton _ heap)

theorem heappop_perm (h : heappop key heap = some (item, rest)) : heap.Perm (item :: rest) := by
  match heap, h with
  | [a], h =>
    simp only [heappop, some.injEq, Prod.mk.injEq] at h
    rw [h.1, ← h.2]
  | a :: x :: tl, h =>
    simp only [heappop, some.injEq, Prod.mk.injEq] at h
    rw [h.1, ← h.2]
    refine List.Perm.cons item (List.Perm.trans ?_ (siftup_perm _ _ _).symm)
    -- The displaced last element moves to the front.
    have hsplit : (x :: tl).dropLast ++ [(x :: tl).getLast (cons_ne_nil x tl)] = x :: tl :=
      dropLast_append_getLast _
    have hmove := perm_append_singleton ((x :: tl).getLast (cons_ne_nil x tl)) (x :: tl).dropLast
    rwa [hsplit] at hmove

theorem heapifyLoop_perm : ∀ (n : Nat) (heap : List α), (heapifyLoop key n heap).Perm heap := by
  intro n
  induction n with
  | zero => intro heap; exact List.Perm.refl heap
  | succ k ih => intro heap; exact (ih _).trans (siftup_perm _ heap k)

theorem heapify_perm : (heapify key heap).Perm heap :=
  heapifyLoop_perm _ _ heap

theorem heappop_eq_none : heappop key heap = none ↔ heap = [] := by
  match heap with
  | [] => simp only [heappop]
  | [a] => simp only [heappop, reduceCtorEq]
  | a :: x :: tl => simp only [heappop, reduceCtorEq]

theorem heappop_head (h : heappop key heap = some (item, rest)) : heap[0]? = some item := by
  match heap, h with
  | [a], h =>
    simp only [heappop, some.injEq, Prod.mk.injEq] at h
    rw [h.1]; rfl
  | a :: x :: tl, h =>
    simp only [heappop, some.injEq, Prod.mk.injEq] at h
    rw [h.1]; rfl

theorem heappop_length
    (h : heappop key heap = some (item, rest)) : heap.length = rest.length + 1 := by
  rw [(heappop_perm _ heap _ _ h).length_eq, length_cons]

/-! ### The heap property -/

theorem getElem?_swap (i j k : Nat) (hi : i < l.length) (hj : j < l.length) :
    (swap l i j)[k]? = if k = j then l[i]? else if k = i then l[j]? else l[k]? := by
  have hgi : l[i]? = some l[i] := getElem?_eq_getElem hi
  have hgj : l[j]? = some l[j] := getElem?_eq_getElem hj
  unfold swap
  rw [hgi, hgj]
  simp only [getElem?_set, length_set]
  by_cases hkj : k = j
  · rw [if_pos hkj.symm, if_pos hkj, if_pos hj]
  · rw [if_neg (fun hc => hkj hc.symm), if_neg hkj]
    by_cases hki : k = i
    · rw [if_pos hki.symm, if_pos hki, if_pos hi]
    · rw [if_neg (fun hc => hki hc.symm), if_neg hki]

/-- `pos` is `lo` or one of its descendants. -/
inductive Below (lo : Nat) : Nat → Prop
  | refl : Below lo lo
  | child (pos : Nat) : 0 < pos → Below lo ((pos - 1) / 2) → Below lo pos

theorem Below.le {lo pos : Nat} (h : Below lo pos) : lo ≤ pos := by
  induction h with
  | refl => exact le_refl lo
  | child => omega

theorem Below.parent {lo pos : Nat} (h : Below lo pos) (hlt : lo < pos) :
    Below lo ((pos - 1) / 2) := by
  cases h with
  | refl => exact absurd hlt (lt_irrefl lo)
  | child _ _ hp => exact hp

theorem below_zero : Below 0 pos := by
  induction pos using Nat.strong_induction_on with
  | _ pos ih =>
    rcases Nat.eq_zero_or_pos pos with rfl | hpos
    · exact Below.refl
    · exact Below.child pos hpos (ih _ (by omega))

/-- What `siftdown` needs: only the edge entering `pos` may be out of order,
    and the children of `pos` are already no smaller than its parent. -/
structure SiftdownReady (lo pos : Nat) (heap : List α) : Prop where
  lt : pos < heap.length
  below : Below lo pos
  except : ∀ i x p, 0 < i → lo ≤ (i - 1) / 2 → i ≠ pos → heap[i]? = some x →
    heap[(i - 1) / 2]? = some p → key p ≤ key x
  grand : lo < pos → ∀ i x p, 0 < i → (i - 1) / 2 = pos → heap[i]? = some x →
    heap[(pos - 1) / 2]? = some p → key p ≤ key x

/-- What `siftup` keeps while the hole at `pos` descends: the edges touching
    `pos` are open, and its children are no smaller than its parent. -/
structure SiftupReady (lo pos : Nat) (heap : List α) : Prop where
  lt : pos < heap.length
  below : Below lo pos
  except : ∀ i x p, 0 < i → lo ≤ (i - 1) / 2 → i ≠ pos → (i - 1) / 2 ≠ pos →
    heap[i]? = some x → heap[(i - 1) / 2]? = some p → key p ≤ key x
  grand : lo < pos → ∀ i x p, 0 < i → (i - 1) / 2 = pos → heap[i]? = some x →
    heap[(pos - 1) / 2]? = some p → key p ≤ key x

theorem siftdownReady_swap (pos : Nat) (heap : List α) (newitem parent : α)
    (h : SiftdownReady key lo pos heap) (hlt : lo < pos) (hnew : heap[pos]? = some newitem)
    (hpar : heap[(pos - 1) / 2]? = some parent) (hkey : key newitem < key parent) :
    SiftdownReady key lo ((pos - 1) / 2) (swap heap pos ((pos - 1) / 2)) := by
  have hq : (pos - 1) / 2 < pos := by omega
  have hql : (pos - 1) / 2 < heap.length := lt_trans hq h.lt
  have hloq : lo ≤ (pos - 1) / 2 := (h.below.parent hlt).le
  have hget := fun k => getElem?_swap heap _ _ k h.lt hql
  refine ⟨by rw [swap_length]; exact hql, h.below.parent hlt, ?_, ?_⟩
  · intro i x p hi hlo hne hx hp
    rw [hget] at hx hp
    rw [if_neg hne] at hx
    by_cases hip : i = pos
    · -- The edge just repaired.
      subst hip
      rw [if_pos rfl, hpar, some.injEq] at hx
      rw [if_pos rfl, hnew, some.injEq] at hp
      rw [← hx, ← hp]
      exact le_of_lt hkey
    · rw [if_neg hip] at hx
      by_cases hpq : (i - 1) / 2 = (pos - 1) / 2
      · -- The sibling: below the old parent, hence below the smaller newcomer.
        rw [if_pos hpq, hnew, some.injEq] at hp
        rw [← hp]
        exact le_of_lt (lt_of_lt_of_le hkey
          (h.except i x _ hi hlo hip hx (by rw [hpq]; exact hpar)))
      · rw [if_neg hpq] at hp
        by_cases hpp : (i - 1) / 2 = pos
        · rw [if_pos hpp] at hp
          exact h.grand hlt i x p hi hpp hx hp
        · rw [if_neg hpp] at hp
          exact h.except i x p hi hlo hip hx hp
  · intro hloq' i x p hi hiq hx hp
    rw [hget] at hx hp
    have hloqq : lo ≤ ((pos - 1) / 2 - 1) / 2 := ((h.below.parent hlt).parent hloq').le
    rw [if_neg (by omega), if_neg (by omega)] at hp
    have hup : key p ≤ key parent := h.except _ _ p (by omega) hloqq (by omega) hpar hp
    rw [if_neg (by omega)] at hx
    by_cases hip : i = pos
    · rw [if_pos hip, hpar, some.injEq] at hx
      rw [← hx]
      exact hup
    · rw [if_neg hip] at hx
      exact le_trans hup (h.except i x _ hi (by omega) hip hx (by rw [hiq]; exact hpar))

theorem heapFrom_of_siftdownReady (pos : Nat) (heap : List α) (h : SiftdownReady key lo pos heap)
    (hstop : lo < pos → ∀ x p, heap[pos]? = some x → heap[(pos - 1) / 2]? = some p →
      key p ≤ key x) : HeapFrom key lo heap := by
  intro i x p hi hlo hx hp
  by_cases hip : i = pos
  · subst hip
    exact hstop (by omega) x p hx hp
  · exact h.except i x p hi hlo hip hx hp

theorem heapFrom_siftdownLoop (lo : Nat) : ∀ (fuel pos : Nat) (heap : List α), pos ≤ fuel →
    SiftdownReady key lo pos heap → HeapFrom key lo (siftdownLoop key lo fuel pos heap) := by
  intro fuel
  induction fuel with
  | zero =>
    intro pos heap hle h
    exact heapFrom_of_siftdownReady _ lo pos heap h (fun hlt => absurd hlt (by omega))
  | succ n ih =>
    intro pos heap hle h
    unfold siftdownLoop
    by_cases hlt : lo < pos
    · rw [if_pos hlt]
      have hnew := getElem?_eq_getElem h.lt
      have hpar := getElem?_eq_getElem (show (pos - 1) / 2 < heap.length by have := h.lt; omega)
      rw [hnew, hpar]
      simp
      split
      · next hkey =>
        exact ih _ _ (by omega) (siftdownReady_swap _ lo _ heap _ _ h hlt hnew hpar hkey)
      · next hkey =>
        refine heapFrom_of_siftdownReady _ lo _ heap h (fun _ x p hx hp => ?_)
        rw [hnew, some.injEq] at hx
        rw [hpar, some.injEq] at hp
        rw [← hx, ← hp]
        exact le_of_not_gt hkey
    · rw [if_neg hlt]
      exact heapFrom_of_siftdownReady _ lo _ heap h (fun hc => absurd hc hlt)

theorem heapFrom_siftdown (pos : Nat) (heap : List α) (h : SiftdownReady key lo pos heap) :
    HeapFrom key lo (siftdown key heap lo pos) :=
  heapFrom_siftdownLoop _ lo _ _ heap (le_refl _) h

theorem smallerChild_spec (hlt : 2 * pos + 1 < heap.length) :
    smallerChild key heap (2 * pos + 1) < heap.length ∧
      (smallerChild key heap (2 * pos + 1) = 2 * pos + 1 ∨
        smallerChild key heap (2 * pos + 1) = 2 * pos + 2) ∧
      ∀ i x c, 0 < i → (i - 1) / 2 = pos → heap[i]? = some x →
        heap[smallerChild key heap (2 * pos + 1)]? = some c → key c ≤ key x := by
  have hl := getElem?_eq_getElem hlt
  unfold smallerChild
  by_cases hr : 2 * pos + 1 + 1 < heap.length
  · have hrg := getElem?_eq_getElem hr
    rw [hl, hrg]
    simp only []
    split
    · next hkey =>
      refine ⟨hlt, Or.inl rfl, fun i x c hi hip hx hc => ?_⟩
      rw [hl, some.injEq] at hc
      rcases (by omega : i = 2 * pos + 1 ∨ i = 2 * pos + 1 + 1) with rfl | rfl
      · rw [hl, some.injEq] at hx
        rw [← hx, ← hc]
      · rw [hrg, some.injEq] at hx
        rw [← hx, ← hc]
        exact le_of_lt hkey
    · next hkey =>
      refine ⟨hr, Or.inr rfl, fun i x c hi hip hx hc => ?_⟩
      rw [hrg, some.injEq] at hc
      rcases (by omega : i = 2 * pos + 1 ∨ i = 2 * pos + 1 + 1) with rfl | rfl
      · rw [hl, some.injEq] at hx
        rw [← hx, ← hc]
        exact le_of_not_gt hkey
      · rw [hrg, some.injEq] at hx
        rw [← hx, ← hc]
  · have hrg : heap[2 * pos + 1 + 1]? = none := getElem?_eq_none_iff.mpr (by omega)
    rw [hl, hrg]
    simp only []
    refine ⟨hlt, Or.inl trivial, fun i x c hi hip hx hc => ?_⟩
    rw [hl, some.injEq] at hc
    rcases (by omega : i = 2 * pos + 1 ∨ i = 2 * pos + 1 + 1) with rfl | rfl
    · rw [hl, some.injEq] at hx
      rw [← hx, ← hc]
    · rw [hrg] at hx
      cases hx

theorem siftupReady_swap (pos c : Nat) (heap : List α) (h : SiftupReady key lo pos heap)
    (hcl : c < heap.length) (hcc : c = 2 * pos + 1 ∨ c = 2 * pos + 2)
    (hmin : ∀ i x y, 0 < i → (i - 1) / 2 = pos → heap[i]? = some x → heap[c]? = some y →
      key y ≤ key x) : SiftupReady key lo c (swap heap pos c) := by
  have hpc : (c - 1) / 2 = pos := by omega
  have hget := fun k => getElem?_swap heap pos c k h.lt hcl
  refine ⟨by rw [swap_length]; exact hcl, Below.child c (by omega) (by rw [hpc]; exact h.below),
    ?_, ?_⟩
  · intro i x p hi hlo hne hpne hx hp
    rw [hget] at hx hp
    rw [if_neg hne] at hx
    rw [if_neg hpne] at hp
    by_cases hip : i = pos
    · -- The promoted child arrives at `pos`, under the parent of `pos`.
      subst hip
      rw [if_pos rfl] at hx
      rw [if_neg (by omega)] at hp
      exact h.grand (by omega) c x p (by omega) hpc hx hp
    · rw [if_neg hip] at hx
      by_cases hpp : (i - 1) / 2 = pos
      · rw [if_pos hpp] at hp
        exact hmin i x p hi hpp hx hp
      · rw [if_neg hpp] at hp
        exact h.except i x p hi hlo hip hpp hx hp
  · intro hloc i x p hi hic hx hp
    rw [hget] at hx hp
    rw [hpc, if_neg (by omega), if_pos rfl] at hp
    rw [if_neg (by omega), if_neg (by omega)] at hx
    exact h.except i x p hi (by omega) (by omega) (by omega) hx (by rw [hic]; exact hp)

theorem siftdownReady_siftupLoop : ∀ (fuel pos : Nat) (heap : List α),
    heap.length - pos ≤ fuel → SiftupReady key lo pos heap →
      SiftdownReady key lo (siftupLoop key fuel pos heap).2 (siftupLoop key fuel pos heap).1 := by
  intro fuel
  induction fuel with
  | zero =>
    intro pos heap hle h
    have := h.lt
    omega
  | succ n ih =>
    intro pos heap hle h
    unfold siftupLoop
    by_cases hlt : 2 * pos + 1 < heap.length
    · rw [if_pos hlt]
      rcases smallerChild_spec key heap _ hlt with ⟨hcl, hcc, hmin⟩
      exact ih _ _ (by rw [swap_length]; omega) (siftupReady_swap _ lo _ _ heap h hcl hcc hmin)
    · -- A leaf: no edge leaves it, so only the one entering it is open.
      rw [if_neg hlt]
      refine ⟨h.lt, h.below, fun i x p hi hlo hne hx hp => ?_, h.grand⟩
      refine h.except i x p hi hlo hne (fun hc => ?_) hx hp
      rcases List.getElem?_eq_some_iff.mp hx with ⟨hil, _⟩
      simp only [] at hil hc
      omega

theorem heapFrom_siftup (heap : List α) (hlo : lo < heap.length)
    (h : HeapFrom key (lo + 1) heap) : HeapFrom key lo (siftup key heap lo) := by
  refine heapFrom_siftdown _ lo _ _
    (siftdownReady_siftupLoop _ lo heap.length lo heap (by omega) ⟨hlo, Below.refl, ?_, ?_⟩)
  · intro i x p hi hle _ hpne hx hp
    exact h i x p hi (by omega) hx hp
  · intro hc
    exact absurd hc (lt_irrefl lo)

theorem isHeap_congr (key' : α → κ) (heap : List α) (h : IsHeap key heap)
    (hkey : ∀ x ∈ heap, key' x = key x) : IsHeap key' heap := by
  intro i x p hi hlo hx hp
  rw [hkey x (mem_of_getElem? hx), hkey p (mem_of_getElem? hp)]
  exact h i x p hi hlo hx hp

theorem isHeap_nil : IsHeap key ([] : List α) := by
  intro i x p _ _ hx _
  simp only [getElem?_nil, reduceCtorEq] at hx

/-- They keep the heap property, and `heapify` establishes it. -/
theorem isHeap_heappush (h : IsHeap key heap) : IsHeap key (heappush key heap item) := by
  refine heapFrom_siftdown _ 0 _ _ ⟨?_, below_zero _, ?_, ?_⟩
  · rw [List.length_append, List.length_singleton]
    omega
  · intro i x p hi _ hne hx hp
    rcases List.getElem?_eq_some_iff.mp hx with ⟨hil, _⟩
    rw [List.length_append, List.length_singleton] at hil
    rw [List.getElem?_append_left (by omega)] at hx hp
    exact h i x p hi (Nat.zero_le _) hx hp
  · intro _ i x p hi hip hx _
    rcases List.getElem?_eq_some_iff.mp hx with ⟨hil, _⟩
    rw [List.length_append, List.length_singleton] at hil
    omega

theorem isHeap_heappop (h : IsHeap key heap)
    (hpop : heappop key heap = some (item, rest)) : IsHeap key rest := by
  match heap, hpop with
  | [a], hpop =>
    simp only [heappop, some.injEq, Prod.mk.injEq] at hpop
    rw [← hpop.2]
    exact isHeap_nil _
  | a :: x :: tl, hpop =>
    simp only [heappop, some.injEq, Prod.mk.injEq] at hpop
    rw [← hpop.2]
    refine heapFrom_siftup _ 0 _ (by simp only [length_cons]; omega) ?_
    -- Away from the root the list is the old heap without its last element.
    have hold : ∀ i y, 0 < i → ((x :: tl).getLast (cons_ne_nil x tl) ::
        (x :: tl).dropLast)[i]? = some y → (a :: x :: tl)[i]? = some y := by
      intro i y hi hy
      rcases Nat.exists_eq_succ_of_ne_zero (by omega : i ≠ 0) with ⟨k, rfl⟩
      simp only [Nat.succ_eq_add_one, getElem?_cons_succ] at hy ⊢
      rw [getElem?_dropLast] at hy
      split at hy
      · exact hy
      · cases hy
    intro i y p hi hlo hy hp
    exact h i y p hi (Nat.zero_le _) (hold i y hi hy) (hold _ p (by omega) hp)

theorem isHeap_heapifyLoop : ∀ (n : Nat) (heap : List α), n ≤ heap.length →
    HeapFrom key n heap → IsHeap key (heapifyLoop key n heap) := by
  intro n
  induction n with
  | zero => intro heap _ h; exact h
  | succ k ih =>
    intro heap hle h
    refine ih _ ?_ (heapFrom_siftup _ k heap (by omega) h)
    rw [(siftup_perm _ heap k).length_eq]
    omega

theorem isHeap_heapify : IsHeap key (heapify key heap) := by
  refine isHeap_heapifyLoop _ _ heap (by omega) (fun i x p hi hlo hx _ => ?_)
  -- No edge has its parent in the second half.
  rcases List.getElem?_eq_some_iff.mp hx with ⟨hil, _⟩
  omega

/-- The root is least. -/
theorem isHeap_root_le (root x : α) (h : IsHeap key heap) (hroot : heap[0]? = some root)
    (hx : x ∈ heap) : key root ≤ key x := by
  rcases mem_iff_getElem?.mp hx with ⟨i, hi⟩
  induction i using Nat.strong_induction_on generalizing x with
  | _ i ih =>
    rcases Nat.eq_zero_or_pos i with rfl | hpos
    · rw [hroot, some.injEq] at hi
      rw [hi]
    · rcases List.getElem?_eq_some_iff.mp hi with ⟨hil, _⟩
      have hp := List.getElem?_eq_getElem (show (i - 1) / 2 < heap.length by omega)
      have hle := ih _ (by omega) _ (List.mem_of_getElem? hp) hp
      exact le_trans hle (h i x _ hpos (Nat.zero_le _) hi hp)

theorem heappop_le (x : α) (h : IsHeap key heap) (hpop : heappop key heap = some (item, rest))
    (hx : x ∈ rest) : key item ≤ key x :=
  isHeap_root_le _ heap _ x h (heappop_head _ heap _ _ hpop)
    ((heappop_perm key heap rest item hpop).mem_iff.mpr (mem_cons_of_mem item hx))

/-! ### The order of removal -/

end LocalEmu.Heapq
