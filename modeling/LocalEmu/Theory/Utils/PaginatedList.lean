import Mathlib.Data.List.Nodup
import Mathlib.Data.List.Range
import LocalEmu.Core.Utils.PaginatedList

/-!
# The Pages of a List

A client who follows the tokens sees every item, if the tokens of the items differ. Where
items are removed between the calls, the page of a token that has gone starts at the first
item again. The client still comes to an end, since the list has got shorter then, but it sees
what it has seen before. As long as the items that the tokens name are there, it sees every
item that stays once.
-/

namespace LocalEmu.PaginatedList

open List Option

variable {α : Type} {items : List α} {tokenGenerator : α → Text}

theorem startIdx_none : startIdx items tokenGenerator none = 0 := by
  have hnone : (items.findIdx? fun item => decide (none = some (tokenGenerator item))) = none := by
    rw [findIdx?_eq_none_iff]
    intro item _
    rfl
  rw [startIdx, hnone]
  rfl

/-- Where the page of a token starts. -/
theorem startIdx_token (hnodup : (items.map tokenGenerator).Nodup) (i : Nat)
    (hi : i < items.length) :
    startIdx items tokenGenerator (some (tokenGenerator items[i])) = i := by
  have hfind : (items.findIdx? fun item =>
      decide (some (tokenGenerator items[i]) = some (tokenGenerator item))) = some i := by
    rw [findIdx?_eq_some_iff_getElem]
    refine ⟨hi, by simp, fun j hj => ?_⟩
    simp
    intro hsame
    have hlt : j < items.length := hj.trans hi
    have hmap (n : Nat) (hn : n < items.length) :
        (items.map tokenGenerator)[n]? = some (tokenGenerator items[n]) := by
      rw [getElem?_map, getElem?_eq_getElem hn, map_some]
    have hij := (nodup_iff_getElem?_ne_getElem?.mp hnodup) j i hj (by simpa using hi)
    exact hij (by rw [hmap i hi, hmap j hlt, hsame])
  rw [startIdx, hfind]
  rfl

/-- The client gets to the start of every page. -/
theorem exists_follows (hnodup : (items.map tokenGenerator).Nodup) (pageSize k : Nat)
    (hk : k = 0 ∨ k * pageSize < items.length) :
    ∃ marker, Follows (fun token => (getPage items tokenGenerator token pageSize).2) marker ∧
      startIdx items tokenGenerator marker = k * pageSize := by
  induction k with
  | zero => exact ⟨none, .first, by rw [startIdx_none, Nat.zero_mul]⟩
  | succ k ih =>
    have hlt : (k + 1) * pageSize < items.length := by omega
    have hnext : (k + 1) * pageSize = k * pageSize + pageSize := Nat.succ_mul k _
    rcases ih (.inr (by omega)) with ⟨marker, hfollows, hstart⟩
    refine ⟨some (tokenGenerator items[(k + 1) * pageSize]), .next marker _ hfollows ?_,
      startIdx_token hnodup _ hlt⟩
    simp only [getPage, hstart, ← hnext, getElem?_eq_getElem hlt, map_some]

/-- Every item is on one of the pages. -/
theorem exists_page (hnodup : (items.map tokenGenerator).Nodup) (pageSize : Nat)
    (hpageSize : 0 < pageSize) (item : α) (hitem : item ∈ items) :
    ∃ marker, Follows (fun token => (getPage items tokenGenerator token pageSize).2) marker ∧
      item ∈ (getPage items tokenGenerator marker pageSize).1 := by
  rcases getElem_of_mem hitem with ⟨i, hi, rfl⟩
  have hle : i / pageSize * pageSize ≤ i := Nat.div_mul_le_self i _
  have hrest : i - i / pageSize * pageSize < pageSize := by
    have hmod := Nat.mod_lt i hpageSize
    have hdiv := Nat.div_add_mod' i pageSize
    omega
  rcases exists_follows hnodup pageSize (i / pageSize) (.inr (by omega)) with
    ⟨marker, hfollows, hstart⟩
  refine ⟨marker, hfollows, ?_⟩
  simp only [getPage, hstart]
  refine mem_iff_getElem?.mpr ⟨i - i / pageSize * pageSize, ?_⟩
  rw [getElem?_take_of_lt hrest, getElem?_drop, Nat.add_sub_cancel' hle, getElem?_eq_getElem hi]

/-! ### Filters -/

variable {filterFunction : Option (α → Bool)} {n : Nat}

theorem getPageFiltered_eq (items : List α) (tokenGenerator : α → Text) (token : Option Text)
    (n : Nat) (filterFunction : Option (α → Bool)) :
    getPageFiltered items tokenGenerator token (some n) filterFunction =
      getPage (filtered items filterFunction) tokenGenerator token n := by
  have hpast (l : List α) (i : Nat) : (if i < l.length then l[i]? else none) = l[i]? := by
    by_cases hi : i < l.length
    · rw [if_pos hi]
    · rw [if_neg hi, getElem?_eq_none (by omega)]
  rw [getPageFiltered, getPage, getD_some]
  by_cases hall : (filtered items filterFunction).length ≤ n ∧ token = none
  · rcases hall with ⟨hlength, rfl⟩
    rw [if_pos ⟨hlength, rfl⟩, startIdx_none, Nat.zero_add, drop_zero,
      take_of_length_le hlength, getElem?_eq_none hlength]
    rfl
  · rw [if_neg hall]
    dsimp only
    rw [← hpast]
    split_ifs <;> rfl

theorem filtered_sublist {items items' : List α} (h : items.Sublist items')
    (filterFunction : Option (α → Bool)) :
    (filtered items filterFunction).Sublist (filtered items' filterFunction) := by
  cases filterFunction with
  | none => exact h
  | some => exact h.filter _

/-! ### Lists that get shorter -/

theorem sublist_append_cons {a b a' b' : List α} {y : α} (hnodup : (a ++ y :: b).Nodup)
    (h : (a' ++ y :: b').Sublist (a ++ y :: b)) : a'.Sublist a ∧ b'.Sublist b := by
  have hmem (c : List α) : y ∈ c ++ y :: b' := by simp
  induction a generalizing a' with
  | nil =>
    have hy : y ∉ b := (nodup_cons.mp hnodup).1
    rcases sublist_cons_iff.mp h with hb | ⟨r, hr, hb⟩
    · exact absurd (hb.subset (hmem a')) hy
    · cases a' with
      | nil =>
        rw [nil_append, cons.injEq] at hr
        exact ⟨nil_sublist _, hr.2 ▸ hb⟩
      | cons z a' =>
        rw [cons_append, cons.injEq] at hr
        exact absurd (hb.subset (hr.2 ▸ hmem a')) hy
  | cons c a ih =>
    have hrest := nodup_cons.mp hnodup
    rcases sublist_cons_iff.mp h with hb | ⟨r, hr, hb⟩
    · rcases ih hrest.2 hb with ⟨ha, hb⟩
      exact ⟨ha.cons c, hb⟩
    · cases a' with
      | nil =>
        rw [nil_append, cons.injEq] at hr
        exact absurd (by rw [← hr.1]; simp) hrest.1
      | cons z =>
        rw [cons_append, cons.injEq] at hr
        rcases ih hrest.2 (by rw [hr.2]; exact hb) with ⟨ha, hb⟩
        exact ⟨hr.1 ▸ ha.cons_cons z, hb⟩

/-- The item that the token names is still there. -/
def Call.TokenKept (tokenGenerator : α → Text) (filterFunction : Option (α → Bool))
    (call : Call α) : Prop :=
  ∀ marker, call.token = some marker →
    marker ∈ (filtered call.items filterFunction).map tokenGenerator

variable {token : Option Text} {calls : List (Call α)}

theorem startIdx_next {items items' : List α} {marker : Text} {p : List α}
    (hnodup : (items.map tokenGenerator).Nodup) (hsub : items'.Sublist items)
    (h : getPage items tokenGenerator token n = (p, some marker)) :
    (items' = items ∧ startIdx items tokenGenerator token + n < items.length ∧
      startIdx items' tokenGenerator (some marker) =
        startIdx items tokenGenerator token + n) ∨ items'.length < items.length := by
  rcases map_eq_some_iff.mp (congrArg Prod.snd h) with ⟨item, hitem, rfl⟩
  rcases List.getElem?_eq_some_iff.mp hitem with ⟨hlt, rfl⟩
  by_cases hlength : items'.length < items.length
  · exact .inr hlength
  · have heq : items' = items := hsub.eq_of_length_le (by omega)
    exact .inl ⟨heq, hlt, by rw [heq, startIdx_token hnodup _ hlt]⟩

/-- The client comes to an end, while the list gets shorter. -/
theorem exists_traversal (hn : 1 ≤ n) (L : Nat → List α)
    (hnodup : ((filtered (L 0) filterFunction).map tokenGenerator).Nodup)
    (hshrink : ∀ i, (L (i + 1)).Sublist (L i)) (token : Option Text) :
    ∃ calls, Traversal
      (fun items token => getPageFiltered items tokenGenerator token (some n) filterFunction)
      token calls ∧ calls.map Call.items = (List.range calls.length).map L := by
  cases hpage : getPageFiltered (L 0) tokenGenerator token (some n) filterFunction with
  | mk p next =>
    cases next with
    | none => exact ⟨_, .last (L 0) token p hpage, rfl⟩
    | some marker =>
      have hsub := filtered_sublist (hshrink 0) filterFunction
      have hstep := startIdx_next hnodup hsub (by rw [← getPageFiltered_eq, hpage])
      rcases exists_traversal hn (fun i => L (i + 1)) ((hsub.map _).nodup hnodup)
        (fun i => hshrink _) (some marker) with ⟨calls, hcalls, hitems⟩
      refine ⟨_, .next (L 0) token p marker calls hpage hcalls, ?_⟩
      rw [map_cons, hitems, length_cons, range_succ_eq_map, map_cons, List.map_map]
      rfl
-- Either the list gets shorter, or what is left of it after the start of the page does.
termination_by ((filtered (L 0) filterFunction).length,
  (filtered (L 0) filterFunction).length - startIdx (filtered (L 0) filterFunction) tokenGenerator
    token)
decreasing_by
  rcases hstep with ⟨heq, hlt, hstart⟩ | hlength
  · rw [heq] at hstart
    rw [heq]
    exact Prod.Lex.right _ (by omega)
  · exact Prod.Lex.left _ _ hlength

/-! ### What the client gets -/

theorem Traversal.getPage_eq (h : Traversal (fun items token =>
      getPageFiltered items tokenGenerator token (some n) filterFunction) token calls) :
    Traversal (fun items token =>
      getPage (filtered items filterFunction) tokenGenerator token n) token calls := by
  simpa only [getPageFiltered_eq] using h

theorem Traversal.length_page (h : Traversal (fun items token =>
      getPage (filtered items filterFunction) tokenGenerator token n) token calls) :
    ∀ call ∈ calls, call.page.length ≤ n := by
  have hpage (items : List α) (token : Option Text) :
      (getPage items tokenGenerator token n).1.length ≤ n := length_take_le _ _
  induction h with
  | last items token p h =>
    intro call hcall
    have hp := hpage (filtered items filterFunction) token
    rw [h] at hp
    rwa [mem_singleton.mp hcall]
  | next items token p marker calls h _ ih =>
    intro call hcall
    have hp := hpage (filtered items filterFunction) token
    rw [h] at hp
    rcases mem_cons.mp hcall with rfl | hcall
    · exact hp
    · exact ih _ hcall

theorem getPage_last {items : List α} {p : List α}
    (h : getPage items tokenGenerator token n = (p, none)) :
    p = items.drop (startIdx items tokenGenerator token) := by
  have hnone := map_eq_none_iff.mp (congrArg Prod.snd h)
  have hlength := getElem?_eq_none_iff.mp hnone
  have hp : (items.drop (startIdx items tokenGenerator token)).take n = p := congrArg Prod.fst h
  rw [← hp]
  exact take_of_length_le (by rw [length_drop]; omega)

theorem getPage_next {items : List α} {p : List α} {marker : Text}
    (h : getPage items tokenGenerator token n = (p, some marker)) :
    ∃ item, items[startIdx items tokenGenerator token + n]? = some item ∧
      marker = tokenGenerator item ∧
      items.drop (startIdx items tokenGenerator token) =
        p ++ items.drop (startIdx items tokenGenerator token + n) := by
  rcases map_eq_some_iff.mp (congrArg Prod.snd h) with ⟨item, hitem, hmarker⟩
  have hp : (items.drop (startIdx items tokenGenerator token)).take n = p := congrArg Prod.fst h
  refine ⟨item, hitem, hmarker.symm, ?_⟩
  rw [← hp, ← drop_drop]
  exact (take_append_drop n _).symm

/-- What it gets of a list that stays the same. -/
theorem Traversal.returned_eq {items : List α}
    (hnodup : ((filtered items filterFunction).map tokenGenerator).Nodup)
    (h : Traversal (fun items token =>
      getPage (filtered items filterFunction) tokenGenerator token n) token calls)
    (hitems : ∀ call ∈ calls, call.items = items) :
    returned calls = (filtered items filterFunction).drop
      (startIdx (filtered items filterFunction) tokenGenerator token) := by
  induction h with
  | last items' token p h =>
    obtain rfl : items' = items := hitems _ mem_cons_self
    rw [returned, map_singleton, flatten_singleton]
    exact getPage_last h
  | next items' token p marker calls h hrest ih =>
    obtain rfl : items' = items := hitems _ mem_cons_self
    rcases getPage_next h with ⟨item, hitem, rfl, hsplit⟩
    rcases List.getElem?_eq_some_iff.mp hitem with ⟨hlt, rfl⟩
    have hrec := ih fun call hcall => hitems call (mem_cons_of_mem _ hcall)
    rw [startIdx_token hnodup _ hlt] at hrec
    rw [hsplit, ← hrec]
    rfl

theorem mem_drop_iff {items items' : List α} (hnodup : (items.map tokenGenerator).Nodup)
    (hsub : items'.Sublist items) {k : Nat} {item : α} (hitem : items[k]? = some item)
    (hkept : tokenGenerator item ∈ items'.map tokenGenerator) (x : α) (hx : x ∈ items') :
    x ∈ items'.drop (startIdx items' tokenGenerator (some (tokenGenerator item))) ↔
      x ∈ items.drop k := by
  have hinj : ∀ a ∈ items, ∀ b ∈ items, tokenGenerator a = tokenGenerator b → a = b :=
    inj_on_of_nodup_map hnodup
  have hitem' : item ∈ items := mem_of_getElem? hitem
  rcases mem_map.mp hkept with ⟨same, hsame, htoken⟩
  obtain rfl : same = item := hinj _ (hsub.subset hsame) _ hitem' htoken
  rcases getElem_of_mem hsame with ⟨j, hj, hget⟩
  rcases List.getElem?_eq_some_iff.mp hitem with ⟨hk, hget'⟩
  have hnodup' := (hsub.map tokenGenerator).nodup hnodup
  have hstart : startIdx items' tokenGenerator (some (tokenGenerator same)) = j := by
    rw [← hget]
    exact startIdx_token hnodup' j hj
  have hsplit' : items' = items'.take j ++ same :: items'.drop (j + 1) := by
    rw [← hget, ← drop_eq_getElem_cons hj, take_append_drop]
  have hsplit : items = items.take k ++ same :: items.drop (k + 1) := by
    rw [← hget', ← drop_eq_getElem_cons hk, take_append_drop]
  have hone : (items.take k ++ same :: items.drop (k + 1)).Nodup :=
    hsplit ▸ List.Nodup.of_map _ hnodup
  have hparts : (items'.take j).Sublist (items.take k) ∧
      (items'.drop (j + 1)).Sublist (items.drop (k + 1)) :=
    sublist_append_cons hone (by rw [← hsplit', ← hsplit]; exact hsub)
  rw [hstart, drop_eq_getElem_cons hj, drop_eq_getElem_cons hk, hget, hget', mem_cons, mem_cons]
  constructor
  · exact Or.imp_right fun h => hparts.2.subset h
  · rintro (rfl | hafter)
    · exact .inl rfl
    · -- What is before the item in the shorter list is before it in the longer one.
      rw [hsplit', mem_append, mem_cons] at hx
      rcases hx with hbefore | h
      · have hdisjoint := disjoint_of_nodup_append hone
        exact absurd (mem_cons_of_mem _ hafter) (hdisjoint (hparts.1.subset hbefore))
      · exact h

/-- Of a list that gets shorter the client gets once what stays, if it was left after the
    first token and the items of the tokens stay as well. -/
theorem Traversal.count_returned [BEq α] [LawfulBEq α] {token : Option Text} {calls : List (Call α)}
    (h : Traversal (fun items token =>
      getPage (filtered items filterFunction) tokenGenerator token n) token calls)
    (hnodup : ∀ call ∈ calls, ((filtered call.items filterFunction).map tokenGenerator).Nodup)
    (hshrink : (calls.map Call.items).IsChain fun items items' => items'.Sublist items)
    (hkept : ∀ call ∈ calls, call.TokenKept tokenGenerator filterFunction) (x : α)
    (hx : ∀ call ∈ calls, x ∈ filtered call.items filterFunction) :
    ∃ call rest, calls = call :: rest ∧ call.token = token ∧ (returned calls).count x =
      ((filtered call.items filterFunction).drop
        (startIdx (filtered call.items filterFunction) tokenGenerator token)).count x := by
  induction h with
  | last items token p h =>
    refine ⟨_, _, rfl, rfl, ?_⟩
    rw [returned, map_singleton, flatten_singleton]
    exact congrArg (count x) (getPage_last h)
  | next items token p marker calls h hrest ih =>
    refine ⟨_, _, rfl, rfl, ?_⟩
    rw [forall_mem_cons] at hnodup hkept hx
    rcases ih hnodup.2 hshrink.tail hkept.2 hx.2 with ⟨call, rest, rfl, hcall, hcount⟩
    rcases getPage_next h with ⟨item, hitem, rfl, hsplit⟩
    rw [forall_mem_cons] at hnodup hkept hx
    have hsub : (filtered call.items filterFunction).Sublist (filtered items filterFunction) :=
      filtered_sublist (isChain_cons_cons.mp hshrink).1 _
    have hmem := mem_drop_iff hnodup.1 hsub hitem (hkept.2.1 _ hcall) x hx.2.1
    have hreturned : returned (⟨items, token, p⟩ :: call :: rest) =
        p ++ returned (call :: rest) := rfl
    have hnodup₁ : (filtered items filterFunction).Nodup := List.Nodup.of_map _ hnodup.1
    have hnodup₂ : (filtered call.items filterFunction).Nodup := List.Nodup.of_map _ hnodup.2.1
    rw [hreturned, hsplit, count_append, count_append, hcount,
      List.Nodup.count (hnodup₁.sublist (drop_sublist _ _)),
      List.Nodup.count (hnodup₂.sublist (drop_sublist _ _))]
    simp only [hmem]

/-- Following the tokens from none comes to an end. The pages are as long as asked for, those of
    a list that stays the same are its items in order, and where items are removed between the
    calls, but not those that the tokens name, every item that stays is returned once. -/
theorem pages_visit_once [BEq α] [LawfulBEq α] (tokenGenerator : α → Text)
    (filterFunction : Option (α → Bool)) (n : Nat) (hn : 1 ≤ n) (L : Nat → List α)
    (hnodup : ((L 0).map tokenGenerator).Nodup) (hshrink : ∀ i, (L (i + 1)).Sublist (L i)) :
    ∃ calls, Traversal
      (fun items token => getPageFiltered items tokenGenerator token (some n) filterFunction)
      none calls ∧
      calls.map Call.items = (List.range calls.length).map L ∧
      (∀ call ∈ calls, call.page.length ≤ n) ∧
      ((∀ i, L i = L 0) → returned calls = filtered (L 0) filterFunction) ∧
      ((∀ call ∈ calls, call.TokenKept tokenGenerator filterFunction) →
        ∀ x, (∀ call ∈ calls, x ∈ filtered call.items filterFunction) →
          (returned calls).count x = 1) := by
  have hfiltered (l : List α) : (filtered l filterFunction).Sublist l := by
    cases filterFunction with
    | none => exact List.Sublist.refl l
    | some => exact filter_sublist
  have hsub (i : Nat) : (L i).Sublist (L 0) := by
    induction i with
    | zero => exact List.Sublist.refl _
    | succ i ih => exact (hshrink i).trans ih
  have hnodup' (i : Nat) : ((filtered (L i) filterFunction).map tokenGenerator).Nodup :=
    (((hfiltered _).trans (hsub i)).map tokenGenerator).nodup hnodup
  rcases exists_traversal hn L (hnodup' 0) hshrink _ with ⟨calls, hcalls, hitems⟩
  have hlist (call : Call α) (hcall : call ∈ calls) : ∃ i, call.items = L i := by
    have hmem : call.items ∈ (range calls.length).map L := hitems ▸ mem_map_of_mem hcall
    rcases mem_map.mp hmem with ⟨i, _, hi⟩
    exact ⟨i, hi.symm⟩
  refine ⟨calls, hcalls, hitems, hcalls.getPage_eq.length_page, fun hconst => ?_,
    fun hkept x hx => ?_⟩
  · rw [hcalls.getPage_eq.returned_eq (hnodup' 0), startIdx_none, drop_zero]
    intro call hcall
    rcases hlist _ hcall with ⟨i, hi⟩
    rw [hi, hconst i]
  · have hchain : (calls.map Call.items).IsChain fun items items' => items'.Sublist items := by
      rw [hitems, isChain_map, isChain_range]
      exact fun i _ => hshrink i
    have hnodups : ∀ call ∈ calls,
        ((filtered call.items filterFunction).map tokenGenerator).Nodup := by
      intro call hcall
      rcases hlist _ hcall with ⟨i, hi⟩
      rw [hi]
      exact hnodup' i
    rcases hcalls.getPage_eq.count_returned hnodups hchain hkept x hx with
      ⟨call, rest, rfl, -, hcount⟩
    rw [hcount, startIdx_none]
    exact count_eq_one_of_mem
      (List.Nodup.of_map _ (hnodups call mem_cons_self)) (hx _ mem_cons_self)

def exampleLists (removed : Text) (i : Nat) : List Text :=
  if i = 0 then ["a".toList, "b".toList, "c".toList]
  else ["a".toList, "b".toList, "c".toList].erase removed

theorem exampleLists_sublist (removed : Text) (i : Nat) :
    (exampleLists removed (i + 1)).Sublist (exampleLists removed i) := by
  unfold exampleLists
  rw [if_neg (Nat.succ_ne_zero i)]
  by_cases hi : i = 0
  · rw [if_pos hi]
    exact erase_sublist
  · rw [if_neg hi]

/-- The item of the first page is removed. -/
theorem pages_visit_once_of_first :
    ∃ calls, Traversal (fun items token => getPageFiltered items id token (some 1) none)
      none calls ∧
      calls.map Call.items = (List.range calls.length).map (exampleLists "a".toList) ∧
      (∀ call ∈ calls, call.page.length ≤ 1) ∧
      ((∀ i, exampleLists "a".toList i = exampleLists "a".toList 0) →
        returned calls = filtered (exampleLists "a".toList 0) none) ∧
      ((∀ call ∈ calls, call.TokenKept id none) →
        ∀ x, (∀ call ∈ calls, x ∈ filtered call.items none) → (returned calls).count x = 1) :=
  pages_visit_once id _ 1 (Nat.le_refl 1) _ (by decide)
    (exampleLists_sublist _)

/-- The item of the second page is removed before it is asked for, so that the first page comes
    again. -/
theorem first_page_twice :
    ∃ calls, Traversal (fun items token => getPageFiltered items id token (some 1) none)
      none calls ∧
      calls.map Call.items = (List.range calls.length).map (exampleLists "b".toList) ∧
      (∀ call ∈ calls, "a".toList ∈ call.items) ∧ (returned calls).count "a".toList = 2 := by
  refine ⟨_, .next (exampleLists "b".toList 0) none ["a".toList] "b".toList _ (by decide)
    (.next (exampleLists "b".toList 1) _ ["a".toList] "c".toList _ (by decide)
      (.last (exampleLists "b".toList 2) _ ["c".toList] (by decide))), ?_, ?_, ?_⟩
  all_goals decide

end LocalEmu.PaginatedList
