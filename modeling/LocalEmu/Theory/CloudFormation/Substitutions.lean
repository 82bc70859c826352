import LocalEmu.Core.CloudFormation.Substitution
import LocalEmu.Theory.CloudFormation.Deployments

/-!
# `Fn::Sub` Is One Substitution

The variables of a template should all be replaced at once: what comes for one of them is not
looked at again, and the result is a string.

The variables are replaced one after the other in the same text. So a variable is also replaced
where it stands in the value of another one, or where a value and the text around it make up its
text. A literal is looked up like a variable and is not found. And the result may be read as a
number.
-/

namespace LocalEmu.CloudFormation

open List

open Iam (Json)
open Replace (replaceAll render places count)

/-! ### Templates -/

/-- What was read and may still become a variable. -/
def Scanning.pending : Scanning → List Char
  | .outside => []
  | .dollar => ['$']
  | .inside name => '$' :: '{' :: name

/-- A template as characters and variables. -/
def pieces : Scanning → List Char → List (Char ⊕ String)
  | scanning, [] => scanning.pending.map .inl
  | .outside, '$' :: rest => pieces .dollar rest
  | .outside, c :: rest => .inl c :: pieces .outside rest
  | .dollar, '{' :: rest => pieces (.inside []) rest
  | .dollar, '$' :: rest => .inl '$' :: pieces .dollar rest
  | .dollar, c :: rest => .inl '$' :: .inl c :: pieces .outside rest
  | .inside [], '}' :: rest => .inl '$' :: .inl '{' :: .inl '}' :: pieces .outside rest
  | .inside name, '}' :: rest => .inr (String.ofList name) :: pieces .outside rest
  | .inside name, c :: rest => pieces (.inside (name ++ [c])) rest

def piecesOf (template : String) : List (Char ⊕ String) := pieces .outside template.toList

/-- The variables of a template, in their order and as often as they occur. -/
def variablesOf (template : String) : List String := templateVariables .outside template.toList

/-- A text that is not a variable but stands for the rest of itself. -/
def IsLiteral (name : String) : Prop := name.toList.head? = some '!'

instance : DecidablePred IsLiteral := fun name =>
  inferInstanceAs (Decidable (name.toList.head? = some '!'))

variable (binding : String → String)

/-- What should come for a variable or a literal. -/
def replacement (name : String) : List Char :=
  match name.toList with
  | '!' :: literal => '$' :: '{' :: (literal ++ ['}'])
  | _ => (binding name).toList

variable (template : String)

/-- The template with all its variables replaced at once. -/
def substituted : List Char :=
  (piecesOf template).flatMap fun piece =>
    match piece with
    | .inl c => [c]
    | .inr name => replacement binding name

/-- The template with some variables replaced, and the others as they are. -/
def partly (done : List String) (template : String) : List Char :=
  (piecesOf template).flatMap fun piece =>
    match piece with
    | .inl c => [c]
    | .inr name => if name ∈ done then (binding name).toList else variablePart name

variable (scanning : Scanning) (text : List Char)

theorem flatMap_pieces : ((pieces scanning text).flatMap fun piece =>
      match piece with
      | .inl c => [c]
      | .inr name => variablePart name) = scanning.pending ++ text := by
  induction scanning, text using pieces.induct with
  | case1 => simp [pieces, flatMap_map]
  | _ => simp_all [pieces, Scanning.pending, variablePart]

theorem filterMap_pieces :
    (pieces scanning text).filterMap Sum.getRight? = templateVariables scanning text := by
  induction scanning, text using pieces.induct with
  | case1 scanning => cases scanning <;> simp [pieces, Scanning.pending, templateVariables]
  | _ => simp_all [pieces, templateVariables, filterMap_cons, Sum.getRight?]

/-- A name that is being read has no closing brace. -/
def Scanning.Open : Scanning → Prop
  | .inside name => '}' ∉ name
  | _ => True

theorem brace_not_mem (hopen : scanning.Open) :
    ∀ name ∈ templateVariables scanning text, '}' ∉ name.toList := by
  induction scanning, text using pieces.induct with
  | case1 => simp [templateVariables]
  | case9 name c rest hname hbrace ih =>
    rw [templateVariables]
    · refine ih fun hmem => ?_
      rcases List.mem_append.mp hmem with hname' | hc
      · exact hopen hname'
      · exact hbrace (List.mem_singleton.mp hc).symm
    · exact hname
    · exact hbrace
  | _ => simp_all [templateVariables, Scanning.Open]

theorem mem_variablesOf (name : String) :
    name ∈ variablesOf template ↔ Sum.inr name ∈ piecesOf template := by
  rw [variablesOf, ← filterMap_pieces, mem_filterMap]
  constructor
  · rintro ⟨piece, hpiece, hname⟩
    cases piece with
    | inl => cases hname
    | inr =>
      cases hname
      exact hpiece
  · exact fun hmem => ⟨_, hmem, rfl⟩

@[simp]
theorem partly_nil : partly binding [] template = template.toList := by
  have hpieces := flatMap_pieces .outside template.toList
  simpa [partly, piecesOf, Scanning.pending] using hpieces

theorem partly_variablesOf (h : ∀ name ∈ variablesOf template, ¬IsLiteral name) :
    partly binding (variablesOf template) template = substituted binding template := by
  refine flatMap_congr fun piece hpiece => ?_
  cases piece with
  | inl => rfl
  | inr =>
    have hmem := (mem_variablesOf _ _).mpr hpiece
    dsimp only
    rw [if_pos hmem, replacement]
    split
    · next literal hname =>
        exact absurd (by rw [IsLiteral, hname]; rfl) (h _ hmem)
    · rfl

/-! ### One variable -/

section Variable

variable (done : List String) (name : String)

variable (template : String)

/-- The template with some variables replaced, and the places of the next one. -/
def placesOf : List (Replace.Piece Char) :=
  (piecesOf template).flatMap fun piece =>
    match piece with
    | .inl c => [some c]
    | .inr name' =>
      if name' ∈ done then (binding name').toList.map some
      else if name' = name then [none]
      else (variablePart name').map some

theorem render_flatMap {β : Type} (new : List Char) (l : List β)
    (f : β → List (Replace.Piece Char)) :
    render new (l.flatMap f) = l.flatMap fun b => render new (f b) :=
  flatMap_assoc

theorem render_placesOf : render (variablePart name) (placesOf binding done name template) =
      partly binding done template := by
  rw [placesOf, render_flatMap]
  refine flatMap_congr fun piece _ => ?_
  cases piece with
  | inl => rfl
  | inr name' =>
    dsimp only
    by_cases hdone : name' ∈ done
    · rw [if_pos hdone, if_pos hdone, Replace.render_map_some]
    · rw [if_neg hdone, if_neg hdone]
      by_cases hname : name' = name
      · rw [if_pos hname, hname]
        exact append_nil _
      · rw [if_neg hname, Replace.render_map_some]

theorem render_placesOf_binding :
    render (binding name).toList (placesOf binding done name template) =
      partly binding (done ++ [name]) template := by
  rw [placesOf, render_flatMap]
  refine flatMap_congr fun piece _ => ?_
  cases piece with
  | inl => rfl
  | inr name' =>
    dsimp only
    by_cases hdone : name' ∈ done
    · rw [if_pos hdone, if_pos (mem_append_left _ hdone), Replace.render_map_some]
    · rw [if_neg hdone]
      by_cases hname : name' = name
      · rw [if_pos hname, if_pos (by rw [hname]; simp), hname]
        exact append_nil _
      · rw [if_neg hname, if_neg (by simp [hdone, hname]), Replace.render_map_some]

theorem places_placesOf : places (placesOf binding done name template) =
      if name ∈ done then 0 else (variablesOf template).count name := by
  rw [variablesOf, ← filterMap_pieces, placesOf]
  change _ = if name ∈ done then 0 else ((piecesOf template).filterMap Sum.getRight?).count name
  induction piecesOf template with
  | nil => simp [places]
  | cons piece rest ih =>
    rw [flatMap_cons, Replace.places_append, ih]
    cases piece with
    | inl => exact Nat.zero_add _
    | inr name' =>
      dsimp only
      have hcons : (Sum.inr name' :: rest).filterMap Sum.getRight? =
          name' :: rest.filterMap Sum.getRight? := rfl
      rw [hcons, count_cons]
      by_cases hdone : name' ∈ done
      · rw [if_pos hdone, Replace.places_map_some, Nat.zero_add]
        by_cases hname : name ∈ done
        · rw [if_pos hname, if_pos hname]
        · have hne : (name' == name) = false := beq_false_of_ne fun heq => hname (heq ▸ hdone)
          rw [if_neg hname, if_neg hname, hne]
          rfl
      · rw [if_neg hdone]
        by_cases heq : name' = name
        · subst heq
          rw [if_neg hdone, if_neg hdone, if_pos rfl, beq_self_eq_true, Nat.add_comm]
          rfl
        · rw [if_neg heq, Replace.places_map_some, Nat.zero_add, beq_false_of_ne heq]
          rfl

/-- When just a variable of the template is replaced. -/
theorem replaceVariables_partly_iff (hbrace : '}' ∉ name.toList) :
    replaceAll (variablePart name) (binding name).toList (partly binding done template) =
        partly binding (done ++ [name]) template ↔
      (binding name).toList = variablePart name ∨
      count (variablePart name) (partly binding done template) =
        if name ∈ done then 0 else (variablesOf template).count name := by
  have hlast : '}' ∉ '$' :: '{' :: name.toList := by simp [hbrace]
  have hiff := Replace.replaceAll_render_iff hlast (binding name).toList
    (placesOf binding done name template)
  have hpart : ('$' :: '{' :: name.toList) ++ ['}'] = variablePart name := rfl
  rw [hpart, render_placesOf, render_placesOf_binding, places_placesOf] at hiff
  exact hiff

end Variable

/-! ### The function -/

section Function

variable (env : Environment) (cb : Callbacks) (parameters : List (String × Json))
  (selectBefore : Bool)

/-- The variables have strings as their values, in their order and from a state on, and a literal
    is not the name of anything. -/
def Bound : List String → State → Prop
  | [], _ => True
  | name :: names, s =>
    if IsLiteral name then ∀ value t,
      (templateVariableValue env cb parameters selectBefore name).exec s ≠ (.ok (some value), t)
    else ∃ t, (templateVariableValue env cb parameters selectBefore name).exec s =
      (.ok (some (.str (binding name))), t) ∧ Bound names t

variable {env} {cb} {parameters} {selectBefore} {binding}

theorem exec_templateVariableValues (names : List String) (s : State)
    (hnames : ∀ name ∈ names, ¬IsLiteral name)
    (h : Bound binding env cb parameters selectBefore names s) :
    ∃ t, (templateVariableValues env cb parameters selectBefore names).exec s =
      (.ok (names.map fun name => (name, .str (binding name))), t) := by
  induction names generalizing s with
  | nil => exact ⟨s, rfl⟩
  | cons name names ih =>
    rw [Bound, if_neg (hnames _ mem_cons_self)] at h
    rcases h with ⟨t, ht, hrest⟩
    rcases ih t (fun name' hname' => hnames name' (mem_cons_of_mem _ hname')) hrest with ⟨u, hu⟩
    refine ⟨u, ?_⟩
    rw [templateVariableValues, Action.exec_bind_of_ok _ _ _ _ _ ht]
    rw [Action.exec_bind_of_ok _ _ _ _ _ hu]
    rfl

theorem exec_templateVariableValues_of_literal (names : List String) (s : State)
    (hliteral : ∃ name ∈ names, IsLiteral name)
    (h : Bound binding env cb parameters selectBefore names s) :
    ∃ e t, (templateVariableValues env cb parameters selectBefore names).exec s =
      (.error e, t) := by
  induction names generalizing s with
  | nil =>
    rcases hliteral with ⟨name, hname, -⟩
    exact absurd hname not_mem_nil
  | cons name names ih =>
    rw [templateVariableValues]
    by_cases hname : IsLiteral name
    · rw [Bound, if_pos hname] at h
      rcases hvalue : (templateVariableValue env cb parameters selectBefore name).exec s with
        ⟨e | value, t⟩
      · exact ⟨e, t, Action.exec_bind_of_error _ _ _ _ _ hvalue⟩
      · cases value with
        | some => exact absurd hvalue (h _ t)
        | none =>
          rw [Action.exec_bind_of_ok _ _ _ _ _ hvalue]
          exact ⟨_, _, rfl⟩
    · rw [Bound, if_neg hname] at h
      rcases h with ⟨t, ht, hrest⟩
      have hlater : ∃ name' ∈ names, IsLiteral name' := by
        rcases hliteral with ⟨name', hmem, hname'⟩
        rcases mem_cons.mp hmem with rfl | hmem
        · exact absurd hname' hname
        · exact ⟨name', hmem, hname'⟩
      rcases ih t hlater hrest with ⟨e, u, hu⟩
      refine ⟨e, u, ?_⟩
      rw [Action.exec_bind_of_ok _ _ _ _ _ ht]
      rw [Action.exec_bind_of_error _ _ _ _ _ hu]

def ArgumentsAre (args : Json) (template : String) (parameters : List (String × Json)) : Prop :=
  (args = .str template ∧ parameters = []) ∨ args = .arr [.str template, .obj parameters]

variable (env) (cb) (selectBefore) in
theorem exec_computeSub {args : Json} {template : String}
    (hargs : ArgumentsAre args template parameters) (s : State) :
    (computeSub env cb selectBefore args).exec s =
      (templateVariableValues env cb parameters selectBefore (variablesOf template) >>=
        fun values => do return some (← check (env.builtins.substitute template values)) :
          Visit (Maybe Json)).exec s := by
  rcases hargs with ⟨rfl, rfl⟩ | rfl
  · rfl
  · rfl

variable (env) (cb) (selectBefore) (binding)

/-- What `Fn::Sub` should do: it yields the template with all its variables replaced at once, as a
    string. Whenever some of the variables are replaced, nothing else was. -/
structure SubstitutesOnce (args : Json) (template : String) (s : State) : Prop where
  result : ∃ t, (computeSub env cb selectBefore args).exec s =
    (.ok (some (.str (String.ofList (substituted binding template)))), t)
  once : ∀ before after, variablesOf template = before ++ after →
    replaceVariables env.builtins template.toList
      (before.map fun name => (name, .str (binding name))) = partly binding before template

/-- A string that is not read as a number. -/
def IsText (numerals : Numerals) (text : List Char) : Prop :=
  text = numerals.accountId.toList ∨
    (numerals.isDigit text = true ∧ text.length = numerals.accountId.toList.length) ∨
    (numerals.isDigit text = false ∧ numerals.float text = none)

/-- A template that has no literals, in which each variable that comes next is found only where it
    stands for itself, and whose substitution is not read as a number. -/
structure Plain (numerals : Numerals) (template : String) : Prop where
  noLiterals : ∀ name ∈ variablesOf template, ¬IsLiteral name
  apart : ∀ before name after, variablesOf template = before ++ name :: after →
    (binding name).toList = variablePart name ∨
    count (variablePart name) (partly binding before template) =
      if name ∈ before then 0 else (variablesOf template).count name
  text : IsText numerals (substituted binding template)

variable {env} {cb} {selectBefore} {binding}

theorem reduceType_eq_str_iff (numerals : Numerals) (text : List Char) :
    reduceType numerals text = .ok (.str (String.ofList text)) ↔ IsText numerals text := by
  unfold reduceType IsText
  by_cases haccount : text = numerals.accountId.toList ∨
      (numerals.isDigit text = true ∧ text.length = numerals.accountId.toList.length)
  · rw [if_pos haccount, ← or_assoc]
    exact ⟨fun _ => .inl haccount, fun _ => rfl⟩
  · rw [if_neg haccount, ← or_assoc, or_iff_right haccount]
    cases hdigit : numerals.isDigit text with
    | true => cases numerals.int text <;> simp [Except.map]
    | false => cases numerals.float text <;> simp

theorem replaceVariables_concat (builtins : Builtins) (text : List Char)
    (values : List (String × Json)) (name value : String) :
    replaceVariables builtins text (values ++ [(name, .str value)]) =
      replaceAll (variablePart name) value.toList (replaceVariables builtins text values) := by
  rw [replaceVariables, foldl_append]
  rfl

variable (env) in
/-- Each variable is replaced just where it stands for itself, if this is so for the next variable
    whenever some are replaced. -/
theorem once_iff (template : String) :
    (∀ before after, variablesOf template = before ++ after →
      replaceVariables env.builtins template.toList
        (before.map fun name => (name, .str (binding name))) =
          partly binding before template) ↔
    ∀ before name after, variablesOf template = before ++ name :: after →
      (binding name).toList = variablePart name ∨
      count (variablePart name) (partly binding before template) =
        if name ∈ before then 0 else (variablesOf template).count name := by
  have hstep (before : List String) (name : String) (after : List String)
      (heq : variablesOf template = before ++ name :: after) :=
    replaceVariables_partly_iff binding before name template
      (brace_not_mem .outside template.toList trivial name (by
        have hmem : name ∈ variablesOf template := by
          rw [heq]
          simp
        exact hmem))
  constructor
  · intro honce before name after heq
    rw [← hstep before name after heq, ← honce before (name :: after) heq,
      ← replaceVariables_concat]
    have hnext := honce (before ++ [name]) after (by rw [heq, append_assoc]; rfl)
    rwa [map_append] at hnext
  · intro hapart before
    induction before using reverseRecOn with
    | nil =>
      intro after _
      exact (partly_nil binding template).symm
    | append_singleton before name ih =>
      intro after heq
      rw [append_assoc, singleton_append] at heq
      rw [map_append, map_singleton, replaceVariables_concat, ih (name :: after) heq]
      exact (hstep before name after heq).mpr (hapart before name after heq)

end Function

/-- `Fn::Sub` is one substitution exactly on plain templates. -/
theorem computeSub_iff (env : Environment) (numerals : Numerals) (cb : Callbacks)
    (selectBefore : Bool) (args : Json) (template : String) (parameters : List (String × Json))
    (hargs : ArgumentsAre args template parameters) (binding : String → String) (s : State)
    (hbound : Bound binding (env.withSubstitution numerals) cb parameters selectBefore
      (variablesOf template) s) :
    SubstitutesOnce binding (env.withSubstitution numerals) cb selectBefore args template s ↔
      Plain binding numerals template := by
  have hexec := exec_computeSub (env.withSubstitution numerals) cb selectBefore hargs s
  have hresult (hvariables : ∀ name ∈ variablesOf template, ¬IsLiteral name)
      (honce : replaceVariables env.builtins template.toList
        ((variablesOf template).map fun name => (name, .str (binding name))) =
          partly binding (variablesOf template) template) :
      ∃ t, (computeSub (env.withSubstitution numerals) cb selectBefore args).exec s =
        (do return some (← check (reduceType numerals (substituted binding template))) :
          Visit (Maybe Json)).exec t := by
    rcases exec_templateVariableValues _ s hvariables hbound with ⟨t, ht⟩
    refine ⟨t, ?_⟩
    rw [hexec, Action.exec_bind_of_ok _ _ _ _ _ ht, ← partly_variablesOf _ _ hvariables, ← honce]
    rfl
  constructor
  · rintro ⟨⟨t, ht⟩, honce⟩
    have hvariables : ∀ name ∈ variablesOf template, ¬IsLiteral name := by
      intro name hname hliteral
      rcases exec_templateVariableValues_of_literal _ s ⟨name, hname, hliteral⟩ hbound with
        ⟨e, u, hu⟩
      rw [hexec, Action.exec_bind_of_error _ _ _ _ _ hu] at ht
      cases ht
    refine ⟨hvariables, (once_iff _ _).mp honce, ?_⟩
    rcases hresult hvariables (honce _ [] (append_nil _).symm) with ⟨u, hu⟩
    rw [ht] at hu
    cases hreduced : reduceType numerals (substituted binding template) with
    | error =>
      rw [hreduced] at hu
      cases congrArg Prod.fst hu
    | ok =>
      rw [hreduced] at hu
      cases congrArg Prod.fst hu
      exact (reduceType_eq_str_iff _ _).mp hreduced
  · rintro ⟨hvariables, hapart, htext⟩
    have honce := (once_iff env _).mpr hapart
    rcases hresult hvariables (honce _ [] (append_nil _).symm) with ⟨t, ht⟩
    refine ⟨⟨t, ?_⟩, honce⟩
    rw [ht, (reduceType_eq_str_iff _ _).mpr htext]
    rfl

/-! ### A variable in a value -/

def digitNumerals : Numerals where
  accountId := "000000000000"
  isDigit text := text ≠ [] && text.all Char.isDigit
  int text := .ok (Nat.ofDigitChars 10 text 0)
  float _ := none

/-- Visits for templates without resources. -/
def noResources : Callbacks where
  visitResource node := raise (unresolvedDependencies node.name)
  visitProperty node _ := raise (unresolvedDependencies node.name)

/-- Before anything was visited. -/
def initialState : State := ⟨deployedStack [], .empty, .empty, .empty, .empty, [], [], []⟩

/-- A value without a dollar sign. -/
theorem computeSub_iff_of_word :
    SubstitutesOnce (fun _ => "b") ((plainTemplates []).withSubstitution digitNumerals) noResources
      false (.arr [.str "a-$\x7bA\x7d", .obj [("A", .str "b")]]) "a-$\x7bA\x7d" initialState := by
  have hvariables : variablesOf "a-$\x7bA\x7d" = ["A"] := by decide +kernel
  refine (computeSub_iff _ _ _ _ _ _ [("A", .str "b")]
    (.inr rfl) _ _ ?_).mpr ⟨?_, ?_, ?_⟩
  · rw [hvariables, Bound]
    exact ⟨_, rfl, trivial⟩
  · rw [hvariables]
    decide
  · intro before name after heq
    rw [hvariables] at heq
    cases before with
    | nil =>
      rw [nil_append, cons.injEq] at heq
      rw [← heq.1]
      exact .inr (by decide +kernel)
    | cons =>
      have hlength := congrArg length heq
      simp at hlength
  · exact .inr (.inr ⟨by decide +kernel, rfl⟩)

/-- A variable that stands in the value of another one is replaced as well. -/
theorem value_substituted : ¬∀ (env : Environment) (numerals : Numerals) (cb : Callbacks)
    (selectBefore : Bool) (args : Json) (template : String) (parameters : List (String × Json)),
    ArgumentsAre args template parameters → ∀ (binding : String → String) (s : State),
    Bound binding (env.withSubstitution numerals) cb parameters selectBefore
      (variablesOf template) s →
    SubstitutesOnce binding (env.withSubstitution numerals) cb selectBefore args template s := by
  intro hall
  have hvariables : variablesOf "$\x7bA\x7d-$\x7bB\x7d" = ["A", "B"] := by decide +kernel
  have hsub := hall (plainTemplates []) digitNumerals noResources false _
    "$\x7bA\x7d-$\x7bB\x7d" [("A", .str "$\x7bB\x7d"), ("B", .str "x")] (.inr rfl)
    (fun name => if name = "A" then "$\x7bB\x7d" else "x") initialState (by
      rw [hvariables, Bound]
      refine ⟨_, rfl, ?_⟩
      exact ⟨_, rfl, trivial⟩)
  exact absurd (hsub.once ["A", "B"] [] (by rw [hvariables]; rfl)) (by decide +kernel)

end LocalEmu.CloudFormation
