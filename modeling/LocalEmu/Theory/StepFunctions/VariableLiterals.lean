import LocalEmu.Theory.StepFunctions.LexicalScopes

/-!
# Literals Of Variables

The values of variables are written into the declarations for JSONata expressions and into
the event history. All values but strings are encoded as JSON. A string is put between
quotation marks as it is, so that its literal is decoded to it exactly if none of its
characters would have to be escaped.
-/

namespace LocalEmu.StepFunctions

open List Option

open JsonText

variable {F V : Type}

/-- The value is not a string with a quotation mark, a backslash or a control character. -/
def Unescaped (v : JsonValue F) : Prop := ∀ s, v = .str s → ∀ c ∈ s, Plain c

/-- When the literal of a value is decoded to it. -/
theorem decode_valueLiteral_iff (floats : Floats F) (v : JsonValue F) :
    decode floats (valueLiteral floats v) = some v ↔ Unescaped v := by
  by_cases hstr : ∃ s, v = .str s
  · rcases hstr with ⟨s, rfl⟩
    refine (decode_quoted_iff _ s).trans ⟨?_, fun h => h s rfl⟩
    intro h s' heq
    cases heq
    exact h
  · have hliteral : valueLiteral floats v = encode floats v := by
      cases v with
      | str s => exact absurd ⟨s, rfl⟩ hstr
      | null | bool | int | float | arr | obj => rfl
    rw [hliteral, decode_encode]
    exact ⟨fun _ s hs => absurd ⟨s, hs⟩ hstr, fun _ => rfl⟩

namespace VariableStore

/-- The variables that go to the history are bound. -/
def Traced (store : VariableStore V) : Prop :=
  ∀ x ∈ store.declarationTracing, ∃ value, store.read x = some value

theorem traced_set {store store' : VariableStore V} (h : store.Traced) {x : Text} {value : V}
    (hset : store.set x value = .ok store') : store'.Traced := by
  intro y hy
  rw [(read_set hset y).2]
  by_cases hxy : x = y
  · rw [if_pos hxy]
    exact ⟨value, rfl⟩
  · rw [if_neg hxy]
    refine h y ?_
    unfold set at hset
    by_cases hx : x ∈ store.outerScope.keys
    · rw [if_pos hx] at hset
      cases hset
    · rw [if_neg hx] at hset
      cases hset
      by_cases htraced : x ∈ store.declarationTracing
      · rw [if_pos htraced] at hy
        exact hy
      · rw [if_neg htraced] at hy
        rcases mem_append.mp hy with hy | hy
        · exact hy
        · exact absurd (mem_singleton.mp hy).symm hxy

theorem mapM_literals (literal : V → Text) (store : VariableStore V) (l : List Text)
    (h : ∀ x ∈ l, ∃ value, store.read x = some value) :
    ∃ assigned, (l.mapM fun identifier =>
        (store.get identifier).map fun value => (identifier, literal value)) = .ok assigned ∧
      assigned.map Prod.fst = l ∧
      ∀ x text, (x, text) ∈ assigned → ∃ value, store.get x = .ok value ∧ text = literal value := by
  induction l with
  | nil => exact ⟨[], rfl, rfl, fun _ _ hmem => nomatch hmem⟩
  | cons y l ih =>
    rcases h y mem_cons_self with ⟨value, hvalue⟩
    have hget : store.get y = .ok value := by
      rw [get_eq_found, hvalue]
      rfl
    rcases ih fun x hx => h x (mem_cons_of_mem y hx) with ⟨assigned, hok, hfst, hall⟩
    refine ⟨(y, literal value) :: assigned, ?_, ?_, ?_⟩
    · rw [mapM_cons, hget, hok]
      rfl
    · rw [map_cons, hfst]
    · intro x text hmem
      rcases mem_cons.mp hmem with heq | hmem
      · cases heq
        exact ⟨value, hget, rfl⟩
      · exact hall x _ hmem

end VariableStore

/-! ### Runs -/

namespace Scopes

open VariableStore

/-- The variables that go to the history are bound in all stores. -/
def AllTraced (w : Scopes V) : Prop :=
  ∀ (number : Nat) (store : VariableStore V), w.stores[number]? = some store → store.Traced

theorem replace_traced {w : Scopes V} (h : AllTraced w) {env : Nat}
    {entry : Nat × VariableStore V} (hentry : w.storeOf env = some entry)
    {store' : VariableStore V} (htraced : store'.Traced) :
    AllTraced (w.replace entry.1 store') := by
  intro number store hstore
  have hlt : entry.1 < w.stores.length :=
    (List.getElem?_eq_some_iff.mp (storeOf_eq_some hentry).2).1
  rw [getElem?_replace _ _ hlt] at hstore
  by_cases heq : entry.1 = number
  · rw [if_pos heq, some.injEq] at hstore
    exact hstore ▸ htraced
  · rw [if_neg heq] at hstore
    exact h _ _ hstore

theorem step_traced (literal : V → Text) (s : Scopes V) (action : ScopeAction V) (t : Scopes V)
    (h : AllTraced s) (hstep : Takes (step literal) s action t) : AllTraced t := by
  cases action with
  | openFrame =>
    rcases map_eq_some_iff.mp hstep with ⟨entry, -, rfl⟩
    exact h
  | openInnerFrame =>
    rcases map_eq_some_iff.mp hstep with ⟨entry, -, rfl⟩
    intro number store hstore
    rcases mem_append.mp (mem_of_getElem? hstore) with hold | hnew
    · rcases mem_iff_getElem?.mp hold with ⟨i, hi⟩
      exact h i _ hi
    · rw [mem_singleton.mp hnew]
      exact fun x hx => nomatch hx
  | assign env x value raises =>
    rcases bind_eq_some_iff.mp hstep with ⟨result, hresult, hraises⟩
    rcases map_eq_some_iff.mp hresult with ⟨entry, hentry, hset⟩
    by_cases hsame : result.1 = raises
    · rw [if_pos hsame, some.injEq] at hraises
      rw [← hraises, ← hset]
      cases hcase : entry.2.set x value with
      | error => exact h
      | ok =>
        have htraced := h entry.1 entry.2 (storeOf_eq_some hentry).2
        exact replace_traced h hentry (traced_set htraced hcase)
    · rw [if_neg hsame] at hraises
      cases hraises
  | declarations =>
    rcases map_eq_some_iff.mp hstep with ⟨entry, hentry, rfl⟩
    refine replace_traced h hentry ?_
    have htraced := h entry.1 entry.2 (storeOf_eq_some hentry).2
    unfold getVariableDeclarations
    cases entry.2.variableDeclarationsCache <;> exact htraced
  | resetTracing =>
    rcases map_eq_some_iff.mp hstep with ⟨entry, hentry, rfl⟩
    exact replace_traced h hentry fun x hx => nomatch hx

theorem initial_traced : AllTraced (initial ([] : List (Text × V))) := by
  intro number store hstore
  rw [mem_singleton.mp (mem_of_getElem? hstore)]
  exact fun x hx => nomatch hx

/-- After every run, for every variable of every scope: what goes to the history for it, and what is
    declared for it, is decoded to its value exactly if no character of it had to be escaped. -/
theorem literals_decode_iff (floats : Floats F) (values : List (Text × JsonValue F))
    (actions : List (ScopeAction (JsonValue F))) (w : Scopes (JsonValue F))
    (h : Runs (Takes (step (valueLiteral floats))) (initial values) actions w) (number : Nat)
    (store : VariableStore (JsonValue F)) (hstore : w.stores[number]? = some store) :
    (∃ assigned, store.getAssignedVariables (valueLiteral floats) = .ok assigned ∧
      assigned.map Prod.fst = store.declarationTracing ∧
      ∀ x text, (x, text) ∈ assigned →
        ∃ v, store.get x = .ok v ∧ (decode floats text = some v ↔ Unescaped v)) ∧
    ∀ x v, store.get x = .ok v →
      (∃ before after, (store.getVariableDeclarations (valueLiteral floats)).1 =
        before ++ ('$' :: x ++ ":=".toList ++ valueLiteral floats v ++ ";".toList) ++ after) ∧
      (decode floats (valueLiteral floats v) = some v ↔ Unescaped v) := by
  have hrun := (runs_initial _).append h
  have htraced := hrun.invariant (step_traced _) initial_traced _ _ hstore
  have hcoherent := hrun.invariant step_coherent (initial_coherent _) _ _ hstore
  constructor
  · rcases mapM_literals _ _ _ htraced with ⟨assigned, hok, hfst, hall⟩
    refine ⟨assigned, hok, hfst, ?_⟩
    intro x text hmem
    rcases hall x _ hmem with ⟨v, hget, rfl⟩
    exact ⟨v, hget, decode_valueLiteral_iff _ v⟩
  · intro x v hget
    refine ⟨?_, decode_valueLiteral_iff _ v⟩
    rcases append_of_mem ((Scopes.mem_bindings hcoherent x _).mpr hget) with ⟨before, after, hsplit⟩
    refine ⟨encodeBindings (valueLiteral floats) before,
      encodeBindings (valueLiteral floats) after, ?_⟩
    rw [(getVariableDeclarations_spec hcoherent).1, hsplit, ← singleton_append,
      encodeBindings_append, encodeBindings_append, ← append_assoc]
    have hone : encodeBindings (valueLiteral floats) [(x, v)] =
        '$' :: x ++ ":=".toList ++ valueLiteral floats v ++ ";".toList := List.append_nil _
    rw [hone]

def oneHalf : Floats Unit where
  text _ := "0.5".toList
  ofText _ := ()
  isFloatLiteral_text _ := by decide
  ofText_text _ := rfl

def exampleStore (v : JsonValue Unit) : VariableStore (JsonValue Unit) := .new [(['x'], v)]

theorem literals_decode_iff_example :
    (exampleStore (.str ['a'])).get ['x'] = .ok (.str ['a']) ∧
      (decode oneHalf (valueLiteral oneHalf (.str ['a'])) = some (.str ['a']) ↔
        Unescaped (.str ['a'] : JsonValue Unit)) :=
  ⟨rfl, ((literals_decode_iff _ [(['x'], .str ['a'])] [] _
    (Runs.nil _) 0 _ rfl).2 ['x'] (.str ['a']) rfl).2⟩

/-- The literal of a quotation mark is three of them, which is no JSON. -/
theorem literal_of_quotation_mark :
    (exampleStore (.str ['"'])).get ['x'] = .ok (.str ['"']) ∧
      (exampleStore (.str ['"'])).getAssignedVariables (valueLiteral oneHalf) =
        .ok [(['x'], ['"', '"', '"'])] ∧
      ((exampleStore (.str ['"'])).getVariableDeclarations (valueLiteral oneHalf)).1 =
        ['$', 'x', ':', '=', '"', '"', '"', ';'] ∧
      (decode oneHalf ['"', '"', '"']).isNone :=
  ⟨rfl, rfl, rfl, rfl⟩

end Scopes

end LocalEmu.StepFunctions
