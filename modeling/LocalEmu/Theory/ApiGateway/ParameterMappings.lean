import LocalEmu.Core.ApiGateway.ParametersMapping

/-!
# Parameter Mappings Are Independent

Each mapping should set its own target to the value of its source, and only if there is one, no
matter what the other mappings are.

A mapping is split at its dots, and it is an error if there are other dots in a name. It is an
error, too, if a parameter with several values is absent, or if there are no stage variables. An
error ends all the mappings. What is there but empty is not set, and quotes around a text are
removed together with the quotes that the text itself has at its ends.
-/

namespace LocalEmu.ApiGateway

open List Option

variable {F : Type}

/-! ### Mappings -/

/-- Where a parameter of the integration request is. -/
inductive Location
  | header
  | path
  | querystring
  deriving DecidableEq

def Location.text : Location → Text
  | .header => "header".toList
  | .path => "path".toList
  | .querystring => "querystring".toList

/-- A parameter of the integration request. -/
structure Target where
  location : Location
  name : Text
  deriving DecidableEq

variable (out : RequestDataMapping F) (target : Target)

/-- `integration.request.LOCATION.NAME`. -/
def Target.text : Text :=
  "integration.request.".toList ++ (target.location.text ++ '.' :: target.name)

/-- What a mapping reads. -/
inductive Source
  | path (name : Text)
  | querystring (name : Text)
  | multivaluequerystring (name : Text)
  | header (name : Text)
  | multivalueheader (name : Text)
  | body
  | context (expr : Text)
  | stageVariables (name : Text)
  | static (text : Text)

/-- `method.request.KIND.NAME`. -/
def named (kind name : Text) : Text := "method.request.".toList ++ (kind ++ '.' :: name)

def Source.text : Source → Text
  | .path name => named "path".toList name
  | .querystring name => named "querystring".toList name
  | .multivaluequerystring name => named "multivaluequerystring".toList name
  | .header name => named "header".toList name
  | .multivalueheader name => named "multivalueheader".toList name
  | .body => "method.request.".toList ++ "body".toList
  | .context expr => "context.".toList ++ expr
  | .stageVariables name => "stageVariables.".toList ++ name
  | .static text => '\'' :: (text ++ ['\''])

/-- The values of a header, whose name is compared as it is written. -/
def headerValues (headers : Headers) (name : Text) : List Text :=
  (headers.filter fun header => decide (header.1 = name)).map Prod.snd

/-- What the matches in the context stand for. -/
def contextValue : List (JsonValue F) → Option (JsonValue F)
  | [] | [.null] => none
  | [value] => some value
  | values => some (.arr values)

/-- What a source stands for. A parameter with one value is that text. -/
def Source.value (library : JsonLibrary F) (input : MappingInput F) :
    Source → Option (JsonValue F)
  | .path name => (input.request.pathParameters.get? name).map .str
  | .querystring name =>
    ((input.request.multiValueQueryStringParameters.get? name).bind List.getLast?).map .str
  | .multivaluequerystring name =>
    (input.request.multiValueQueryStringParameters.get? name).map fun values =>
      match values with
      | [value] => .str value
      | values => .arr (values.map .str)
  | .header name => (headerValues input.request.headers name).getLast?.map .str
  | .multivalueheader name =>
    if headerValues input.request.headers name = [] then none
    else some (.str ([','].intercalate (headerValues input.request.headers name)))
  | .body => (Text.decode (bodyOf input.request)).map .str
  | .context expr =>
    match library.find input.contextVariables ("$.".toList ++ expr) with
    | .error _ => none
    | .ok found => contextValue found
  | .stageVariables name =>
    (input.stageVariables.bind fun values => values.get? name).map .str
  | .static text => some (.str text)

/-- The parameter that a mapping has written. -/
def RequestDataMapping.get : Option (JsonValue F) :=
  match target.location with
  | .header => out.header.get? target.name
  | .path => out.path.get? target.name
  | .querystring => out.querystring.get? target.name

def RequestDataMapping.put (value : JsonValue F) : RequestDataMapping F :=
  match target.location with
  | .header => { out with header := out.header.set target.name value }
  | .path => { out with path := out.path.set target.name value }
  | .querystring => { out with querystring := out.querystring.set target.name value }

theorem get_put (t : Target) (value : JsonValue F) :
    (out.put target value).get t = if t = target then some value else out.get t := by
  rcases target with ⟨location, name⟩
  rcases t with ⟨location', name'⟩
  cases location <;> cases location' <;>
    simp [RequestDataMapping.put, RequestDataMapping.get, Dict.get?_set]

theorem store_eq (value : JsonValue F) :
    out.store target.location.text target.name value = .ok (out.put target value) := by
  rcases target with ⟨location, name⟩
  unfold RequestDataMapping.store RequestDataMapping.put
  cases location with
  | header => exact if_pos rfl
  | path =>
    have hheader : Location.path.text ≠ "header".toList := by decide
    rw [if_neg hheader]
    exact if_pos rfl
  | querystring =>
    have hheader : Location.querystring.text ≠ "header".toList := by decide
    have hpath : Location.querystring.text ≠ "path".toList := by decide
    rw [if_neg hheader, if_neg hpath]
    exact if_pos rfl

/-! ### Texts -/

theorem removeStart_append (start text : Text) : removeStart start (start ++ text) = text := by
  rw [removeStart, if_pos <| isPrefixOf_iff_prefix.mpr (prefix_append start text), drop_left]

theorem not_isPrefixOf {start text : Text} {a b : Char} (hstart : start.head? = some a)
    (htext : text.head? = some b) (hne : a ≠ b) : start.isPrefixOf text = false := by
  cases start with
  | nil => cases hstart
  | cons =>
    cases text with
    | nil => cases htext
    | cons =>
      rw [head?_cons, some.injEq] at hstart htext
      rw [isPrefixOf_cons_cons, hstart, htext, beq_false_of_ne hne, Bool.false_and]

theorem splitDot_append (kind name : Text) (hkind : '.' ∉ kind) :
    splitDot (kind ++ '.' :: name) =
      if '.' ∈ name then .error .valueError else .ok (kind, name) := by
  unfold splitDot
  rw [splitOn_append_cons_self_of_not_mem hkind]
  by_cases hdot : '.' ∈ name
  · rcases eq_append_cons_of_mem hdot with ⟨before, after, rfl, hbefore⟩
    rw [if_pos hdot, splitOn_append_cons_self_of_not_mem hbefore]
    cases hsplit : after.splitOn '.' with
    | nil => exact absurd hsplit (splitOn_ne_nil _ _)
    | cons => rfl
  · rw [if_neg hdot, splitOn_eq_singleton hdot]

theorem dot_not_mem_location (location : Location) : '.' ∉ location.text := by
  cases location <;> decide

theorem splitDot_target : splitDot (removeStart "integration.request.".toList target.text) =
      if '.' ∈ target.name then .error .valueError
      else .ok (target.location.text, target.name) := by
  have hrest : removeStart "integration.request.".toList target.text =
      target.location.text ++ '.' :: target.name := removeStart_append _ _
  rw [hrest]
  exact splitDot_append _ _ (dot_not_mem_location _)

theorem location_text_injective : Function.Injective Location.text := by
  have hall : ∀ l l' : Location, l.text.head? = l'.text.head? → l = l' := by
    intro l l'
    cases l <;> cases l' <;> decide +kernel
  exact fun l l' h => hall l l' (congrArg head? h)

theorem target_text_injective : Function.Injective Target.text := by
  intro t t' h
  have hrest := append_cancel_left h
  have hsplit := congrArg (splitOn '.') hrest
  rw [splitOn_append_cons_self_of_not_mem (dot_not_mem_location _),
    splitOn_append_cons_self_of_not_mem (dot_not_mem_location _)] at hsplit
  have hlocation := location_text_injective (cons.inj hsplit).1
  rw [hlocation] at hrest
  have hname := (cons.inj (append_cancel_left hrest)).2
  rcases t with ⟨location, name⟩
  rcases t' with ⟨location', name'⟩
  cases hlocation
  cases hname
  rfl

theorem stripQuotes_ends (text : Text) :
    (stripQuotes text).head? ≠ some '\'' ∧ (stripQuotes text).getLast? ≠ some '\'' := by
  unfold stripQuotes
  constructor
  · intro hhead
    have hfirst := head?_dropWhile_not (fun c => c == '\'') text
    rcases rdropWhile_prefix (fun c => c == '\'') (text.dropWhile fun c => c == '\'') with
      ⟨rest, hrest⟩
    rw [← hrest, head?_append, hhead] at hfirst
    cases hfirst
  · intro hlast
    have hne : (text.dropWhile fun c => c == '\'').rdropWhile (fun c => c == '\'') ≠ [] := by
      intro hnil
      rw [hnil] at hlast
      cases hlast
    rw [getLast?_eq_some_getLast hne, some.injEq] at hlast
    refine rdropWhile_last_not _ _ hne ?_
    rw [hlast]
    rfl

theorem stripQuotes_quoted (text : Text) (hhead : text.head? ≠ some '\'')
    (hlast : text.getLast? ≠ some '\'') : stripQuotes ('\'' :: (text ++ ['\''])) = text := by
  unfold stripQuotes
  rw [dropWhile_cons_of_pos (by rfl)]
  cases text with
  | nil => rfl
  | cons c text =>
    have hc : ¬(c == '\'') = true := by
      rw [beq_iff_eq]
      rintro rfl
      exact hhead rfl
    have hdrop : (c :: text ++ ['\'']).dropWhile (fun c => c == '\'') = c :: text ++ ['\''] :=
      dropWhile_cons_of_neg hc
    rw [hdrop, rdropWhile_concat_pos _ _ _ (by rfl), rdropWhile_eq_self_iff]
    intro hne hquote
    rw [beq_iff_eq] at hquote
    exact hlast (by rw [getLast?_eq_some_getLast hne, hquote])

/-! ### The values of expressions -/

theorem get?_buildMultiValueHeaders (headers : Headers) (name : Text) :
    (buildMultiValueHeaders headers).get? name =
      if headerValues headers name = [] then none else some (headerValues headers name) := by
  unfold buildMultiValueHeaders headerValues
  rw [Dict.get?_mapValues, Dict.get?_group]
  by_cases hnil : headers.filter (fun header => decide (header.1 = name)) = []
  · simp [hnil]
  · simp [hnil]

/-- When what an expression yields is what its source stands for, if it is not empty. -/
def KeptSource (library : JsonLibrary F) (input : MappingInput F) : Source → Prop
  | .path name | .querystring name | .header name | .multivalueheader name => '.' ∉ name
  | .multivaluequerystring name =>
    '.' ∉ name ∧ input.request.multiValueQueryStringParameters.get? name ≠ none
  | .body => True
  | .context expr =>
    match library.find input.contextVariables ("$.".toList ++ expr) with
    | .error failure => failure = .keyError
    | .ok found => ∀ v, contextValue found = some v → ∃ text, v = .str text
  | .stageVariables _ => input.stageVariables ≠ none
  | .static text => text.head? ≠ some '\'' ∧ text.getLast? ≠ some '\''

/-- A body that is empty, or a text that is JSON if it starts like JSON. -/
def Parseable (library : JsonLibrary F) (body : Bytes) : Prop :=
  body = [] ∨ ((Text.decode (stripBytes body)).isSome = true ∧
    ∃ value, jsonLoad library (stripBytes body) = .ok value)

section Retrieve

variable (library : JsonLibrary F) (input : MappingInput F)

theorem isPrefixOf_method (rest : Text) :
    "method.request.".toList.isPrefixOf ("method.request.".toList ++ rest) = true :=
  isPrefixOf_iff_prefix.mpr (prefix_append _ _)

theorem retrieveParameter_named (kind name : Text) {c : Char} (hhead : kind.head? = some c)
    (hc : 'b' ≠ c) (hkind : '.' ∉ kind) :
    retrieveParameter library input (named kind name) =
      if '.' ∈ name then .error .valueError
      else if kind = "path".toList then .ok ((input.request.pathParameters.get? name).map .str)
      else if kind = "querystring".toList then
        .ok (((input.request.multiValueQueryStringParameters.get? name).bind
          List.getLast?).map .str)
      else if kind = "multivaluequerystring".toList then
        match input.request.multiValueQueryStringParameters.get? name with
        | none => .error .typeError
        | some [value] => .ok (some (.str value))
        | some values => .ok (some (.arr (values.map .str)))
      else if kind = "header".toList then
        .ok ((((buildMultiValueHeaders input.request.headers).get? name).bind
          List.getLast?).map .str)
      else if kind = "multivalueheader".toList then
        .ok ((((buildMultiValueHeaders input.request.headers).get? name).filter
          fun values => !values.isEmpty).map fun values => .str ([','].intercalate values))
      else .ok none := by
  have hstart : (kind ++ '.' :: name).head? = some c := by
    rw [head?_append, hhead]
    rfl
  have hbody : "body".toList.head? = some 'b' := by decide
  unfold retrieveParameter named
  rw [if_pos (isPrefixOf_method _), removeStart_append]
  unfold retrieveParameterFromInvocationRequest
  rw [not_isPrefixOf hbody hstart hc, if_neg Bool.false_ne_true, splitDot_append _ _ hkind]
  by_cases hdot : '.' ∈ name
  · rw [if_pos hdot, if_pos hdot]
  · rw [if_neg hdot, if_neg hdot]
    try rfl

/-- A mapping is given what its source stands for. -/
def Yields (source : Source) : Prop :=
  ∃ w, retrieveParameter library input source.text = .ok w ∧
    w.filter (truthy library) = source.value library input

/-- The source is one of those that are kept, and its value is not empty. -/
def Arrives (source : Source) : Prop :=
  KeptSource library input source ∧
    ∀ v, source.value library input = some v → truthy library v = true

theorem filter_eq_self_iff (w : Option (JsonValue F)) :
    w.filter (truthy library) = w ↔ ∀ v, w = some v → truthy library v = true := by
  cases w with
  | none => simp
  | some v =>
    by_cases htrue : truthy library v = true
    · simp [htrue]
    · simp [htrue]

variable {library} {input}

variable (name : Text) {source : Source}

theorem not_yields_of_error {failure : Failure}
    (h : retrieveParameter library input source.text = .error failure) :
    ¬Yields library input source := by
  rintro ⟨w, hw, -⟩
  rw [h] at hw
  cases hw

theorem yields_iff_of_ok {w : Option (JsonValue F)}
    (h : retrieveParameter library input source.text = .ok w) :
    Yields library input source ↔ w.filter (truthy library) = source.value library input := by
  constructor
  · rintro ⟨w', hw', hvalue⟩
    rw [h, Except.ok.injEq] at hw'
    rw [hw', hvalue]
  · exact fun hvalue => ⟨w, h, hvalue⟩

theorem yields_iff_of_value
    (h : retrieveParameter library input source.text = .ok (source.value library input)) :
    Yields library input source ↔
      ∀ v, source.value library input = some v → truthy library v = true := by
  rw [yields_iff_of_ok h, filter_eq_self_iff]

-- An expression with a name, which yields just what its source stands for if the name has no dots.
theorem yields_iff_of_named {name : Text} (h : retrieveParameter library input source.text =
      if '.' ∈ name then .error .valueError else .ok (source.value library input)) :
    Yields library input source ↔
      '.' ∉ name ∧ ∀ v, source.value library input = some v → truthy library v = true := by
  by_cases hdot : '.' ∈ name
  · rw [if_pos hdot] at h
    exact ⟨fun hyields => absurd hyields (not_yields_of_error h), fun hkept => absurd hdot hkept.1⟩
  · rw [if_neg hdot] at h
    rw [yields_iff_of_value h, and_iff_right hdot]

theorem yields_path : Yields library input (.path name) ↔ Arrives library input (.path name) := by
  have hhead : "path".toList.head? = some 'p' := by decide
  have hretrieve := retrieveParameter_named library input _ name hhead (by decide) (by decide)
  exact yields_iff_of_named hretrieve

theorem yields_querystring : Yields library input (.querystring name) ↔
    Arrives library input (.querystring name) := by
  have hhead : "querystring".toList.head? = some 'q' := by decide
  have hretrieve := retrieveParameter_named library input _ name hhead (by decide) (by decide)
  exact yields_iff_of_named hretrieve

theorem yields_header : Yields library input (.header name) ↔
    Arrives library input (.header name) := by
  have hhead : "header".toList.head? = some 'h' := by decide
  have hretrieve := retrieveParameter_named library input _ name hhead (by decide) (by decide)
  rw [get?_buildMultiValueHeaders] at hretrieve
  refine yields_iff_of_named (hretrieve.trans ?_)
  by_cases hnil : headerValues input.request.headers name = []
  · simp [hnil, Source.value]
  · simp [hnil, Source.value]

theorem yields_multivalueheader : Yields library input (.multivalueheader name) ↔
    Arrives library input (.multivalueheader name) := by
  have hhead : "multivalueheader".toList.head? = some 'm' := by decide
  have hretrieve := retrieveParameter_named library input _ name hhead (by decide) (by decide)
  rw [get?_buildMultiValueHeaders] at hretrieve
  refine yields_iff_of_named (hretrieve.trans ?_)
  by_cases hnil : headerValues input.request.headers name = []
  · simp [hnil, Source.value]
  · simp [hnil, Source.value, filter_some]

theorem yields_multivaluequerystring : Yields library input (.multivaluequerystring name) ↔
    Arrives library input (.multivaluequerystring name) := by
  have hhead : "multivaluequerystring".toList.head? = some 'm' := by decide
  have hretrieve := retrieveParameter_named library input "multivaluequerystring".toList name hhead
    (by decide) (by decide)
  rw [if_neg (by decide : "multivaluequerystring".toList ≠ "path".toList),
    if_neg (by decide : "multivaluequerystring".toList ≠ "querystring".toList)] at hretrieve
  cases hvalues : input.request.multiValueQueryStringParameters.get? name with
  | none =>
    rw [hvalues] at hretrieve
    have herror : ∃ failure, retrieveParameter library input
        (Source.multivaluequerystring name).text = .error failure := by
      by_cases hdot : '.' ∈ name
      · rw [if_pos hdot] at hretrieve
        exact ⟨_, hretrieve⟩
      · rw [if_neg hdot] at hretrieve
        exact ⟨_, hretrieve⟩
    rcases herror with ⟨failure, herror⟩
    exact ⟨fun hyields => absurd hyields (not_yields_of_error herror),
      fun hkept => absurd hvalues hkept.1.2⟩
  | some values =>
    have hnamed : Yields library input (.multivaluequerystring name) ↔ '.' ∉ name ∧
        ∀ v, Source.value library input (.multivaluequerystring name) = some v →
          truthy library v = true := by
      refine yields_iff_of_named (hretrieve.trans ?_)
      rw [Source.value, hvalues]
      cases values with
      | nil => rfl
      | cons value values => cases values <;> rfl
    have hkept : KeptSource library input (.multivaluequerystring name) ↔ '.' ∉ name := by
      rw [KeptSource, hvalues]
      exact and_iff_left (some_ne_none _)
    rw [hnamed, Arrives, hkept]

variable (library) (input) in
theorem retrieveParameter_other {text : Text} {c : Char} (hhead : text.head? = some c)
    (hc : 'm' ≠ c) : retrieveParameter library input text =
      retrieveParameterFromVariablesAndStatic library text input.contextVariables
        input.stageVariables := by
  have hmethod : "method.request.".toList.head? = some 'm' := by decide
  unfold retrieveParameter
  rw [not_isPrefixOf hmethod hhead hc, if_neg Bool.false_ne_true]

theorem head?_append_of_some {start rest : Text} {c : Char} (h : start.head? = some c) :
    (start ++ rest).head? = some c := by
  rw [head?_append, h, some_or]

theorem yields_stageVariables (name : Text) : Yields library input (.stageVariables name) ↔
    Arrives library input (.stageVariables name) := by
  have hstart : ("stageVariables.".toList ++ name).head? = some 's' :=
    head?_append_of_some (by decide)
  have hcontext : "context.".toList.head? = some 'c' := by decide
  have hretrieve := retrieveParameter_other library input hstart (by decide)
  unfold retrieveParameterFromVariablesAndStatic at hretrieve
  rw [not_isPrefixOf hcontext hstart (by decide),
    if_pos <| isPrefixOf_iff_prefix.mpr (prefix_append _ _)]
    at hretrieve
  cases hvariables : input.stageVariables with
  | none =>
    rw [hvariables] at hretrieve
    exact ⟨fun hyields => absurd hyields (not_yields_of_error hretrieve),
      fun hkept => absurd hvariables hkept.1⟩
  | some =>
    have hkept : KeptSource library input (.stageVariables name) := by
      rw [KeptSource, hvariables]
      exact some_ne_none _
    rw [Arrives, and_iff_right hkept]
    refine yields_iff_of_value (hretrieve.trans ?_)
    rw [Source.value, hvariables]
    rfl

theorem yields_static (text : Text) : Yields library input (.static text) ↔
    Arrives library input (.static text) := by
  have hstart : ('\'' :: (text ++ ['\''])).head? = some '\'' := rfl
  have hend : ('\'' :: (text ++ ['\''])).getLast? = some '\'' := by
    rw [← cons_append, getLast?_append]
    rfl
  have hcontext : "context.".toList.head? = some 'c' := by decide
  have hstage : "stageVariables.".toList.head? = some 's' := by decide
  have hretrieve := retrieveParameter_other library input hstart (by decide)
  unfold retrieveParameterFromVariablesAndStatic at hretrieve
  rw [not_isPrefixOf hcontext hstart (by decide), if_neg Bool.false_ne_true,
    not_isPrefixOf hstage hstart (by decide), if_neg Bool.false_ne_true,
    if_pos ⟨hstart, hend⟩] at hretrieve
  constructor
  · intro hyields
    have hvalue := (yields_iff_of_ok hretrieve).mp hyields
    rw [Source.value, filter_some] at hvalue
    by_cases htrue : truthy library (.str (stripQuotes ('\'' :: (text ++ ['\''])))) = true
    · rw [if_pos htrue, some.injEq, JsonValue.str.injEq] at hvalue
      refine ⟨hvalue ▸ stripQuotes_ends _, fun v hv => ?_⟩
      rw [Source.value, some.injEq] at hv
      rw [← hv, ← hvalue]
      exact htrue
    · rw [if_neg htrue] at hvalue
      cases hvalue
  · rintro ⟨⟨hhead, hlast⟩, htrue⟩
    rw [stripQuotes_quoted text hhead hlast] at hretrieve
    exact (yields_iff_of_value hretrieve).mpr htrue

/-- A match in the context that is used: a single text that is not empty. -/
def textValue : List (JsonValue F) → Option (JsonValue F)
  | [.str (c :: text)] => some (.str (c :: text))
  | _ => none

theorem retrieveContext_of_found {found : List (JsonValue F)} {expr : Text}
    (h : library.find input.contextVariables ("$.".toList ++ expr) = .ok found) :
    retrieveParameterFromContextVariables library expr input.contextVariables =
      .ok (textValue found) := by
  unfold retrieveParameterFromContextVariables getJsonPathFromDict
  rw [h]
  cases found with
  | nil => rfl
  | cons value rest =>
    cases rest with
    | cons | nil =>
      cases value with
      | str text => cases text <;> rfl
      | _ => rfl

theorem retrieveContext_of_error {failure : Failure} {expr : Text}
    (h : library.find input.contextVariables ("$.".toList ++ expr) = .error failure) :
    retrieveParameterFromContextVariables library expr input.contextVariables =
      if failure = .keyError then .ok none else .error failure := by
  unfold retrieveParameterFromContextVariables getJsonPathFromDict
  rw [h]
  cases failure <;> rfl

theorem filter_textValue_iff (found : List (JsonValue F)) :
    (textValue found).filter (truthy library) = contextValue found ↔
      (∀ v, contextValue found = some v → ∃ text, v = .str text) ∧
      ∀ v, contextValue found = some v → truthy library v = true := by
  cases found with
  | nil => simp [textValue, contextValue]
  | cons value rest =>
    cases rest with
    | cons => simp [textValue, contextValue]
    | nil =>
      cases value with
      | str text => cases text <;> simp [textValue, contextValue, truthy, filter_some]
      | _ => simp [textValue, contextValue]

theorem yields_context (expr : Text) : Yields library input (.context expr) ↔
    Arrives library input (.context expr) := by
  have hstart : ("context.".toList ++ expr).head? = some 'c' := head?_append_of_some (by decide)
  have hretrieve := retrieveParameter_other library input hstart (by decide)
  unfold retrieveParameterFromVariablesAndStatic at hretrieve
  rw [removeStart_append]
    at hretrieve
  have hkept : KeptSource library input (.context expr) =
      match library.find input.contextVariables ("$.".toList ++ expr) with
      | .error failure => failure = .keyError
      | .ok found => ∀ v, contextValue found = some v → ∃ text, v = .str text := rfl
  rw [Arrives, hkept]
  cases hfind : library.find input.contextVariables ("$.".toList ++ expr) with
  | error failure =>
    have hvalue : Source.value library input (.context expr) = none := by rw [Source.value, hfind]
    rw [retrieveContext_of_error hfind] at hretrieve
    by_cases hkey : failure = .keyError
    · rw [if_pos hkey, ← hvalue] at hretrieve
      rw [yields_iff_of_value hretrieve]
      exact (and_iff_right hkey).symm
    · rw [if_neg hkey] at hretrieve
      exact ⟨fun hyields => absurd hyields (not_yields_of_error hretrieve),
        fun hboth => absurd hboth.1 hkey⟩
  | ok found =>
    have hvalue : Source.value library input (.context expr) = contextValue found := by
      rw [Source.value, hfind]
    rw [retrieveContext_of_found hfind] at hretrieve
    rw [yields_iff_of_ok hretrieve, hvalue]
    exact filter_textValue_iff _

theorem emptyObject_decode : Text.decode [0x7B, 0x7D] = some ['\x7b', '\x7d'] := by
  have hutf8 : Text.utf8 ['\x7b', '\x7d'] = [0x7B, 0x7D] := by decide +kernel
  rw [← hutf8, Text.decode_utf8]

theorem yields_body (hbody : Parseable library input.request.body) :
    Yields library input .body ↔ Arrives library input .body := by
  have hread : (∃ value, jsonLoad library (bodyOf input.request) = .ok value) ∧
      ∃ text, Text.decode (bodyOf input.request) = some text := by
    unfold bodyOf
    by_cases hnil : input.request.body = []
    · have hstrip : stripBytes [0x7B, 0x7D] = [0x7B, 0x7D] := by decide
      rw [if_pos hnil, hstrip]
      refine ⟨⟨.obj [], ?_⟩, ⟨_, emptyObject_decode⟩⟩
      rw [jsonLoad, library.loads_empty]
    · rw [if_neg hnil]
      rcases hbody with hempty | ⟨hdecode, hparse⟩
      · exact absurd hempty hnil
      · exact ⟨hparse, isSome_iff_exists.mp hdecode⟩
  rcases hread with ⟨⟨value, hparse⟩, text, hdecode⟩
  have hretrieve : retrieveParameter library input (Source.body).text = .ok (some (.str text)) := by
    unfold retrieveParameter Source.text
    rw [if_pos (isPrefixOf_method _), removeStart_append]
    unfold retrieveParameterFromInvocationRequest retrieveBody
    rw [if_pos <| isPrefixOf_iff_prefix.mpr (prefix_refl _), hparse]
    dsimp only
    rw [if_pos rfl, hdecode]
  have hkept : KeptSource library input .body := trivial
  rw [Arrives, and_iff_right hkept]
  refine yields_iff_of_value (hretrieve.trans ?_)
  rw [Source.value, hdecode]
  rfl

/-- The value of an expression is what its source stands for, exactly if the source is one of those
    that are kept and the value is not empty. -/
theorem retrieveParameter_iff (hbody : Parseable library input.request.body) (source : Source) :
    Yields library input source ↔ KeptSource library input source ∧
      ∀ v, source.value library input = some v → truthy library v = true := by
  cases source with
  | path => exact yields_path _
  | querystring => exact yields_querystring _
  | multivaluequerystring => exact yields_multivaluequerystring _
  | header => exact yields_header _
  | multivalueheader => exact yields_multivalueheader _
  | body => exact yields_body hbody
  | context => exact yields_context _
  | stageVariables => exact yields_stageVariables _
  | static => exact yields_static _

end Retrieve

/-! ### The loop -/

section Loop

variable (library : JsonLibrary F) (input : MappingInput F)

/-- A mapping that has exactly the effect it should have. -/
structure Faithful (target : Target) (source : Source) : Prop where
  name : '.' ∉ target.name
  kept : KeptSource library input source
  nonempty : ∀ v, source.value library input = some v → truthy library v = true

/-- The parameters of an integration, as texts. -/
def texts (mappings : Dict Target Source) : Dict Text Text where
  entries := mappings.entries.map fun m => (m.1.text, m.2.text)
  nodup := by
    rw [List.map_map]
    have hnodup := mappings.nodup.map target_text_injective
    rwa [List.map_map] at hnodup

def only (m : Target × Source) : Dict Target Source := ⟨[m], List.nodup_singleton m.1⟩

/-- What the mappings should do: each one sets its target to what its source stands for, if there
    is something, and together they do what each one does. -/
structure Applied (mappings : Dict Target Source) : Prop where
  single : ∀ m ∈ mappings.entries, ∃ out,
    mapIntegrationRequest library (texts (only m)) input = .ok out ∧
    ∀ target, out.get target = if target = m.1 then m.2.value library input else none
  union : ∃ out, mapIntegrationRequest library (texts mappings) input = .ok out ∧
    ∀ target v, out.get target = some v ↔ ∃ m ∈ mappings.entries, ∃ o,
      mapIntegrationRequest library (texts (only m)) input = .ok o ∧ o.get target = some v

variable (out : RequestDataMapping F)

def write (target : Target) (value : Option (JsonValue F)) : RequestDataMapping F :=
  (value.map (out.put target)).getD out

theorem get_write (target t : Target) (value : Option (JsonValue F)) :
    (write out target value).get t = if t = target then value.or (out.get t) else out.get t := by
  cases value with
  | none => exact (ite_self _).symm
  | some => exact get_put _ _ t _

theorem mapParameter_eq (target : Target) (text : Text) :
    mapParameter library input out (target.text, text) =
      if '.' ∈ target.name then .error .valueError
      else (retrieveParameter library input text).map fun value =>
        write out target (value.filter (truthy library)) := by
  unfold mapParameter
  rw [splitDot_target]
  by_cases hdot : '.' ∈ target.name
  · rw [if_pos hdot, if_pos hdot]
  · rw [if_neg hdot, if_neg hdot]
    cases retrieveParameter library input text with
    | error => rfl
    | ok value =>
      dsimp only [Except.map]
      cases value.filter (truthy library) with
      | none => rfl
      | some => exact store_eq _ _ _

variable {library} {input}

theorem mapParameter_of_faithful (hbody : Parseable library input.request.body)
    {m : Target × Source} (h : Faithful library input m.1 m.2) (out : RequestDataMapping F) :
    mapParameter library input out (m.1.text, m.2.text) =
      .ok (write out m.1 (m.2.value library input)) := by
  rcases (retrieveParameter_iff hbody m.2).mpr ⟨h.kept, h.nonempty⟩ with ⟨w, hw, hvalue⟩
  rw [mapParameter_eq, if_neg h.name, hw, ← hvalue]
  rfl

theorem foldlM_of_faithful (hbody : Parseable library input.request.body)
    (l : List (Target × Source)) (h : ∀ m ∈ l, Faithful library input m.1 m.2)
    (out : RequestDataMapping F) :
    (l.map fun m => (m.1.text, m.2.text)).foldlM (mapParameter library input) out =
      .ok (l.foldl (fun out m => write out m.1 (m.2.value library input)) out) := by
  induction l generalizing out with
  | nil => rfl
  | cons m l ih =>
    rw [map_cons, foldlM_cons, mapParameter_of_faithful hbody (h m mem_cons_self)]
    exact ih (fun m' hm' => h m' (mem_cons_of_mem m hm')) _

theorem get_foldl_write (l : List (Target × Source)) (hl : (l.map Prod.fst).Nodup)
    (value : Source → Option (JsonValue F)) (out : RequestDataMapping F)
    (hout : ∀ m ∈ l, out.get m.1 = none) (target : Target) (v : JsonValue F) :
    (l.foldl (fun out m => write out m.1 (value m.2)) out).get target = some v ↔
      (∃ m ∈ l, m.1 = target ∧ value m.2 = some v) ∨ out.get target = some v := by
  induction l generalizing out with
  | nil => simp
  | cons m l ih =>
    rw [map_cons, nodup_cons] at hl
    have hfresh : ∀ m' ∈ l, m'.1 ≠ m.1 := fun m' hm' heq =>
      hl.1 (heq ▸ mem_map_of_mem hm')
    have hrest : ∀ m' ∈ l, (write out m.1 (value m.2)).get m'.1 = none := by
      intro m' hm'
      rw [get_write, if_neg (hfresh m' hm')]
      exact hout m' (mem_cons_of_mem m hm')
    rw [foldl_cons, ih hl.2 _ hrest, get_write, exists_mem_cons_iff]
    by_cases heq : target = m.1
    · have hnone : out.get target = none := by
        rw [heq]
        exact hout m mem_cons_self
      rw [hnone]
      subst heq
      simp [or_comm]
    · rw [if_neg heq]
      simp [Ne.symm heq]

theorem get_nothing (target : Target) :
    (⟨.empty, .empty, .empty⟩ : RequestDataMapping F).get target = none := by
  unfold RequestDataMapping.get
  cases target.location <;> rfl

theorem mapIntegrationRequest_only (m : Target × Source) :
    mapIntegrationRequest library (texts (only m)) input =
      mapParameter library input ⟨.empty, .empty, .empty⟩ (m.1.text, m.2.text) := by
  change (mapParameter library input _ (m.1.text, m.2.text) >>= pure) = _
  exact bind_pure _

theorem faithful_of_single (hbody : Parseable library input.request.body) {m : Target × Source}
    {out : RequestDataMapping F}
    (hout : mapIntegrationRequest library (texts (only m)) input = .ok out)
    (hget : out.get m.1 = m.2.value library input) : Faithful library input m.1 m.2 := by
  rw [mapIntegrationRequest_only, mapParameter_eq] at hout
  by_cases hdot : '.' ∈ m.1.name
  · rw [if_pos hdot] at hout
    cases hout
  · rw [if_neg hdot] at hout
    cases hretrieve : retrieveParameter library input m.2.text with
    | error =>
      rw [hretrieve] at hout
      cases hout
    | ok w =>
      rw [hretrieve, Except.map, Except.ok.injEq] at hout
      rw [← hout, get_write, if_pos rfl, get_nothing, or_none] at hget
      have hyields := (retrieveParameter_iff hbody m.2).mp ⟨w, hretrieve, hget⟩
      exact ⟨hdot, hyields.1, hyields.2⟩

theorem single_of_faithful (hbody : Parseable library input.request.body) {m : Target × Source}
    (h : Faithful library input m.1 m.2) :
    ∃ out, mapIntegrationRequest library (texts (only m)) input = .ok out ∧
      ∀ target, out.get target = if target = m.1 then m.2.value library input else none := by
  rw [mapIntegrationRequest_only, mapParameter_of_faithful hbody h]
  refine ⟨_, rfl, fun target => ?_⟩
  rw [get_write, get_nothing, or_none]

end Loop

/-- The mappings of an integration do what they should exactly if each of them is faithful: there
    are no dots in its names, what it reads can be read, and what is there is not empty. -/
theorem mapIntegrationRequest_iff (library : JsonLibrary F) (input : MappingInput F)
    (mappings : Dict Target Source) (hbody : Parseable library input.request.body) :
    Applied library input mappings ↔
      ∀ m ∈ mappings.entries, Faithful library input m.1 m.2 := by
  constructor
  · intro happlied m hm
    rcases happlied.single m hm with ⟨out, hout, hget⟩
    exact faithful_of_single hbody hout ((hget m.1).trans (if_pos rfl))
  · intro hfaithful
    have hsingle := fun m hm => single_of_faithful hbody (hfaithful m hm)
    refine ⟨hsingle, _, foldlM_of_faithful hbody _ hfaithful _, fun target v => ?_⟩
    rw [get_foldl_write _ mappings.nodup _ _ (fun m _ => get_nothing m.1), get_nothing]
    constructor
    · rintro (⟨m, hm, rfl, hv⟩ | hnone)
      · rcases hsingle m hm with ⟨o, ho, hget⟩
        exact ⟨m, hm, o, ho, by rw [hget, if_pos rfl, hv]⟩
      · cases hnone
    · rintro ⟨m, hm, o, ho, hv⟩
      rcases hsingle m hm with ⟨o', ho', hget⟩
      rw [ho, Except.ok.injEq] at ho'
      subst ho'
      rw [hget] at hv
      by_cases heq : target = m.1
      · rw [if_pos heq] at hv
        exact .inl ⟨m, hm, heq.symm, hv⟩
      · rw [if_neg heq] at hv
        cases hv

/-! ### An absent parameter -/

/-- A library that decodes only the object without members, and finds nothing. -/
def emptyJson : JsonLibrary Unit where
  loads body := if body = [0x7B, 0x7D] then some (.obj []) else none
  find _ _ := .ok []
  isTrue _ := true
  loads_empty := rfl

/-- A request without parameters and without a body. -/
def plainRequest : InvocationRequest :=
  ⟨"GET".toList, "/".toList, "/".toList, .empty, .empty, [], .empty, []⟩

/-- That request without stage variables. -/
def plainInput : MappingInput Unit := ⟨plainRequest, .obj [], none⟩

/-- A text is mapped to a header. -/
theorem mapIntegrationRequest_iff_of_text :
    Applied emptyJson plainInput
      (only (⟨.header, "x-stage".toList⟩, .static "test".toList)) := by
  refine (mapIntegrationRequest_iff _ _ _ (.inl rfl)).mpr fun m hm => ?_
  rw [mem_singleton.mp hm]
  exact ⟨by decide, ⟨by decide, by decide⟩, fun v hv => by cases hv; rfl⟩

/-- A query parameter with several values that is absent ends all the mappings. -/
theorem absent_values_raise : ¬∀ (library : JsonLibrary Unit) (input : MappingInput Unit)
    (mappings : Dict Target Source), Parseable library input.request.body →
    Applied library input mappings := by
  intro hall
  rcases (hall emptyJson plainInput (only (⟨.querystring, "a".toList⟩,
    .multivaluequerystring "a".toList)) (.inl rfl)).single _ List.mem_cons_self with
    ⟨out, hout, hget⟩
  have hfaithful := faithful_of_single (.inl rfl) hout ((hget _).trans (if_pos rfl))
  exact hfaithful.kept.2 rfl

end LocalEmu.ApiGateway
