import LocalEmu.Core.CloudFront.Edge

/-!
# Results of Edge Functions

A function at the edge should change only what its result mentions. What it received and returns
as it is changes nothing, what it leaves out stays as it was, and a response at a request stage
ends the chain.

For responses this holds. A request is not kept by what is left out of it: its method, URI and
query string are replaced by defaults. And the event of a function does not show a method in small
letters, or a URI without a slash, as they are.
-/

namespace LocalEmu.CloudFront.Edge

open List

variable {F : Type} (library : Library F)

/-! ### Texts -/

theorem upper_nil : library.upper [] = [] :=
  library.upper_ascii [] fun _ hc => absurd hc not_mem_nil

theorem upper_get : library.upper "GET".toList = "GET".toList := by
  rw [library.upper_ascii _ (by decide)]
  decide

theorem lower_text : library.lower "text".toList = "text".toList := by
  rw [library.lower_ascii _ (by decide)]
  decide

theorem lower_base64 : library.lower "base64".toList = "base64".toList := by
  rw [library.lower_ascii _ (by decide)]
  decide

/-! ### Members -/

theorem get_membersOf (members : List (String × JsonValue F)) (key : String) :
    get (membersOf members) key = members.lookup key := by
  unfold get membersOf
  induction members with
  | nil => rfl
  | cons member members ih =>
    rw [map_cons, lookup_cons, lookup_cons, ih]
    have hkey : (key.toList == member.1.toList) = (key == member.1) := by
      rw [Bool.eq_iff_iff, beq_iff_eq, beq_iff_eq, String.toList_inj]
    rw [hkey]

theorem entryText_headerEntry (header : Text × Text) :
    entryText "value" (headerEntry header : JsonValue F) = .ok header.2 := by
  have hget : get (membersOf [("key", JsonValue.str (F := F) header.1), ("value", .str header.2)])
      "value" = some (.str header.2) := by
    rw [get_membersOf]
    simp [lookup_cons]
  simp only [entryText, headerEntry, objectOf, hget]

theorem textOr_getTrue_str (members : List (Text × JsonValue F)) (key : String)
    (text default : Text) (h : get members key = some (.str text)) :
    textOr default (getTrue library members key) = .ok (if text = [] then default else text) := by
  unfold getTrue
  rw [h]
  by_cases htext : text = []
  · simp [Option.filter_some, truthy, textOr, htext]
  · simp [Option.filter_some, truthy, textOr, htext]

/-! ### Headers -/

def cfMember (header : Text × List (Text × Text)) : Text × JsonValue F :=
  (header.1, .arr (header.2.map headerEntry))

variable (headers : List (Text × List (Text × Text)))

def cfValue : JsonValue F :=
  .obj (headers.map cfMember)

/-- A header with all its values. -/
def flatten : Text × List (Text × Text) → Option (Text × Text)
  | (_, []) => none
  | (_, first :: rest) => some (first.1, [','].intercalate ((first :: rest).map Prod.snd))

/-- The headers of an event with one text for each name. -/
def flatHeaders : Dict Text Text :=
  Dict.ofEntries (headers.filterMap flatten)

theorem entryKey_headerEntry (header : Text × Text) :
    entryKey library (headerEntry header) = .ok header.1 := by
  have hget : get (membersOf [("key", JsonValue.str (F := F) header.1), ("value", .str header.2)])
      "key" = some (.str header.1) := by
    rw [get_membersOf]
    simp
  have h := textOr_getTrue_str library _ "key" header.1 [] hget
  rw [ite_eq_right_iff.mpr Eq.symm] at h
  exact h

theorem addHeader_cfMember (out : Dict Text Text) (header : Text × List (Text × Text)) :
    addHeader library out (cfMember header) =
      .ok (((flatten header).map fun e => out.set e.1 e.2).getD out) := by
  rcases header with ⟨name, entries⟩
  cases entries with
  | nil => rfl
  | cons first rest =>
    have hvalues : (headerEntry first :: rest.map headerEntry).mapM (entryText (F := F) "value") =
        .ok ((first :: rest).map Prod.snd) := by
      rw [← map_cons, mapM_map]
      have hfun : (entryText "value" ∘ headerEntry (F := F)) =
          fun header : Text × Text => (pure header.2 : Except Failure Text) :=
        funext entryText_headerEntry
      rw [hfun, mapM_pure]
      rfl
    change (entryKey library (headerEntry first) >>= fun name =>
      ((headerEntry first :: rest.map headerEntry).mapM (entryText "value") >>= fun values =>
        pure (out.set name ([','].intercalate values)))) = _
    rw [entryKey_headerEntry]
    change ((headerEntry first :: rest.map headerEntry).mapM (entryText "value") >>= fun values =>
        pure (out.set first.1 ([','].intercalate values))) = _
    rw [hvalues]
    rfl

theorem foldlM_addHeader (out : Dict Text Text) :
    (headers.map cfMember).foldlM (addHeader library) out =
      .ok ((headers.filterMap flatten).foldl (fun out e => out.set e.1 e.2) out) := by
  induction headers generalizing out with
  | nil => rfl
  | cons header headers ih =>
    rw [map_cons, foldlM_cons, addHeader_cfMember]
    change foldlM _ _ _ = _
    rw [ih, filterMap_cons]
    cases flatten header <;> rfl

theorem headersFromCf_cfValue :
    headersFromCf library (some (cfValue headers)) = .ok (flatHeaders headers) :=
  foldlM_addHeader _ headers .empty

theorem headersToCf_eq (headers : Dict Text Text) (h : (headers.keys.map library.lower).Nodup) :
    headersToCf library headers =
      (cfValue (headers.entries.map fun e => (library.lower e.1, [e])) : JsonValue F) := by
  have hfold (l : List (Text × Text)) (out : Dict Text (List (JsonValue F)))
      (hnew : (out.keys ++ l.map fun e => library.lower e.1).Nodup) :
      (l.foldl (fun out header => out.set (library.lower header.1)
        ((out.get? (library.lower header.1)).getD [] ++ [headerEntry header])) out).entries =
      out.entries ++ l.map fun e => (library.lower e.1, [headerEntry e]) := by
    induction l generalizing out with
    | nil => exact (append_nil _).symm
    | cons e l ih =>
      have hfresh : library.lower e.1 ∉ out.keys := fun hmem =>
        (List.nodup_append.mp hnew).2.2 _ hmem _ mem_cons_self rfl
      have hset := Dict.entries_set_new _ _ [headerEntry e] hfresh
      rw [foldl_cons, (Dict.get?_eq_none_iff _ _).mpr hfresh, Option.getD_none,
        nil_append, ih, hset, append_assoc, map_cons, singleton_append]
      rw [Dict.keys, hset, map_append, append_assoc]
      exact hnew
  have hentries := hfold headers.entries .empty (by
    simpa [Dict.keys, Dict.empty, Function.comp_def] using h)
  unfold headersToCf cfValue
  dsimp only
  rw [hentries]
  simp [Dict.empty, cfMember, Function.comp_def]

/-- Headers go through an event unchanged. -/
theorem headersFromCf_headersToCf (headers : Dict Text Text)
    (h : (headers.keys.map library.lower).Nodup) :
    headersFromCf library (some (headersToCf library headers)) = .ok headers := by
  have hflat : (headers.entries.map fun e => (library.lower e.1, [e])).filterMap flatten =
      headers.entries := by
    rw [filterMap_map]
    have hfun : (flatten ∘ fun e : Text × Text => (library.lower e.1, [e])) = some := by
      ext e : 1
      simp [flatten]
    rw [hfun, filterMap_some]
  rw [headersToCf_eq _ headers h, headersFromCf_cfValue, flatHeaders, hflat, Dict.ofEntries_entries]

theorem headersOr_headersToCf (headers : Dict Text Text)
    (h : (headers.keys.map library.lower).Nodup) :
    headersOr library headers (some (headersToCf library headers)) = .ok headers := by
  rw [headersOr, headersFromCf_headersToCf _ headers h]
  exact congrArg Except.ok (ite_self headers)

/-! ### What results stand for -/

section Results

variable (output payload : JsonValue F) (members r : List (Text × JsonValue F))

/-- A result without its envelope. -/
def Unwraps : Prop :=
  (∃ top, output = .obj top ∧ getTrue library top "Records" = none ∧ payload = output) ∨
  ∃ top record rest, output = .obj top ∧
    getTrue library top "Records" = some (.arr (.obj record :: rest)) ∧
    getTrue library record "cf" = some payload

def HasObject (key : String) : Prop := ∃ object, get members key = some (.obj object)

/-- A request, under its key or as it is. -/
inductive RequestIn : Prop
  | wrapped (hresponse : ¬HasObject members "response")
      (hrequest : get members "request" = some (.obj r))
  | bare (hresponse : ¬HasObject members "response") (hrequest : ¬HasObject members "request")
      (hstatus : get members "status" = none) (hr : r = members)

/-- A request that is recognized: one under its key, or with a URI or a method. -/
def Recognized : Prop :=
  HasObject members "request" ∨ (get members "uri").isSome = true ∨
    (get members "method").isSome = true

/-- The function returns a request. -/
def ReturnsRequest : Prop :=
  ∃ members, Unwraps library output (.obj members) ∧ RequestIn members r

/-- The function returns a request, which is recognized. -/
def AppliesRequest : Prop :=
  ∃ members, Unwraps library output (.obj members) ∧ RequestIn members r ∧ Recognized members

def TextOrAbsent (key : String) : Prop :=
  get members key = none ∨ ∃ text, get members key = some (.str text)

/-- The headers are left out, or as in an event. -/
def HeadersOrAbsent : Prop :=
  get members "headers" = none ∨ ∃ headers, get members "headers" = some (cfValue headers)

/-- A request whose fields are of the right types. -/
structure ReadableRequest : Prop where
  method : TextOrAbsent members "method"
  uri : TextOrAbsent members "uri"
  querystring : TextOrAbsent members "querystring"
  headers : HeadersOrAbsent members

def BodyIs (text : Text) (body : Bytes) : Prop :=
  ((get members "bodyEncoding" = none ∨
      get members "bodyEncoding" = some (.str "text".toList)) ∧ body = text.utf8) ∨
    (get members "bodyEncoding" = some (.str "base64".toList) ∧
      text = Base64.encodeStandard body)

/-- The status, the headers and the body of a response. -/
structure Describes (short : ShortCircuit) : Prop where
  status : (short.status ≠ 0 ∧ get members "status" = some (.int short.status)) ∨
    get members "status" = some (.str (JsonText.intText short.status))
  headers : (get members "headers" = none ∧ short.headers = .empty) ∨
    ∃ headers, get members "headers" = some (cfValue headers) ∧
      short.headers = flatHeaders headers
  body : (get members "body" = none ∧ short.body = []) ∨
    ∃ text, get members "body" = some (.str text) ∧ BodyIs members text short.body

/-- The function returns a response at a request stage. -/
def ReturnsResponse (short : ShortCircuit) : Prop :=
  ∃ members r, Unwraps library output (.obj members) ∧
    (get members "response" = some (.obj r) ∨
      (¬HasObject members "response" ∧ ¬HasObject members "request" ∧
        (get members "status").isSome = true ∧ r = members)) ∧
    Describes r short

/-- The function returns a response at a response stage. -/
def MutatesResponse : Prop :=
  ∃ members, Unwraps library output (.obj members) ∧
    (get members "response" = some (.obj r) ∨ (¬HasObject members "response" ∧ r = members))

/-- A response whose fields are of the right types. -/
structure ReadableResponse : Prop where
  headers : HeadersOrAbsent members
  body : TextOrAbsent members "body"
  bodyEncoding : TextOrAbsent members "bodyEncoding"

end Results

/-! ### What results should do -/

/-- What is left out of a request stays as it was. -/
structure KeepsRequest (r : List (Text × JsonValue F)) (s s' : RequestState) : Prop where
  method : get r "method" = none → s'.method = s.method
  uri : get r "uri" = none → s'.uri = s.uri
  querystring : get r "querystring" = none → s'.querystring = s.querystring
  headers : get r "headers" = none → s'.headers = s.headers
  body : s'.body = s.body

/-- What is left out of a response stays as it was. -/
structure KeepsResponse (r : List (Text × JsonValue F)) (s s' : ResponseState) : Prop where
  status : get r "status" = none → s'.status = s.status
  headers : get r "headers" = none → s'.headers = s.headers
  body : get r "body" = none → s'.body = s.body

/-- The function returns the request that it received. -/
def EchoesRequest (call : Call) (a : Association F) (s : RequestState) (event : JsonValue F) :
    Prop :=
  ∃ r, requestValue library call a.includeBody s = .obj r ∧
    ReturnsRequest library (a.function event) r

/-- The function returns the response that it received. -/
def EchoesResponse (a : Association F) (s : ResponseState) (event : JsonValue F) : Prop :=
  ∃ r, responseValue library s = .obj r ∧ MutatesResponse library (a.function event) r

/-- What a function should do at a request stage. -/
structure RequestLaw (call : Call) (a : Association F) (s : RequestState) (event : JsonValue F) :
    Prop where
  unchanged : (s.headers.keys.map library.lower).Nodup → EchoesRequest library call a s event →
    requestStep library s (a.function event) = .ok (.inr s)
  omitted : ∀ r, ReturnsRequest library (a.function event) r → ReadableRequest r →
    ∃ s', requestStep library s (a.function event) = .ok (.inr s') ∧ KeepsRequest r s s'
  response : ∀ short, ReturnsResponse library (a.function event) short →
    requestStep library s (a.function event) = .ok (.inl short)

/-- What a function should do at a response stage. -/
structure ResponseLaw (a : Association F) (s : ResponseState) (event : JsonValue F) : Prop where
  unchanged : (s.headers.keys.map library.lower).Nodup → EchoesResponse library a s event →
    responseStep library s (a.function event) = .ok s
  omitted : ∀ r, MutatesResponse library (a.function event) r → ReadableResponse r →
    ∃ s', responseStep library s (a.function event) = .ok s' ∧ KeepsResponse r s s'

/-- When a function does it at a request stage: what it is shown of the request is the request,
    and what it leaves out has the default. -/
structure RequestKept (call : Call) (a : Association F) (s : RequestState)
    (event : JsonValue F) : Prop where
  shown : (s.headers.keys.map library.lower).Nodup → EchoesRequest library call a s event →
    library.upper (library.upper s.method) = s.method ∧ s.method ≠ [] ∧ ['/'] <+: s.uri
  defaults : ∀ r, AppliesRequest library (a.function event) r → ReadableRequest r →
    (get r "method" = none → s.method = "GET".toList) ∧
    (get r "uri" = none → s.uri = "/".toList) ∧
    (get r "querystring" = none → s.querystring = [])

/-! ### Reading results -/

section Reading

variable {library} {output payload : JsonValue F} {members r : List (Text × JsonValue F)}

theorem unwrapCfOutput_of_unwraps (h : Unwraps library output (.obj members)) :
    unwrapCfOutput library output = .ok (.obj members) := by
  rcases h with ⟨top, rfl, hrecords, hpayload⟩ | ⟨top, record, rest, rfl, hrecords, hcf⟩
  · rw [JsonValue.obj.injEq] at hpayload
    simp only [unwrapCfOutput, hrecords, hpayload]
  · simp only [unwrapCfOutput, hrecords, hcf, Option.getD_some]

theorem getTrue_of_none {key : String} (h : get r key = none) : getTrue library r key = none := by
  rw [getTrue, h]
  rfl

variable (library) in
theorem textOr_of_textOrAbsent {key : String} (default : Text) (h : TextOrAbsent r key) :
    ∃ text, textOr default (getTrue library r key) = .ok text ∧
      (get r key = none → text = default) := by
  rcases h with hnone | ⟨text, htext⟩
  · exact ⟨default, by rw [getTrue_of_none hnone]; rfl, fun _ => rfl⟩
  · refine ⟨_, textOr_getTrue_str library r key text default htext, fun hnone => ?_⟩
    rw [htext] at hnone
    cases hnone

variable (library) in
theorem headersOr_of_headersOrAbsent (current : Dict Text Text) (h : HeadersOrAbsent r) :
    ∃ headers, headersOr library current (get r "headers") = .ok headers ∧
      (get r "headers" = none → headers = current) := by
  rcases h with hnone | ⟨cf, hcf⟩
  · refine ⟨current, ?_, fun _ => rfl⟩
    rw [hnone]
    rfl
  · refine ⟨_, by rw [hcf, headersOr, headersFromCf_cfValue]; rfl, fun hnone => ?_⟩
    rw [hcf] at hnone
    cases hnone

/-- The query string that is read: only `null` and nothing give the default. -/
def querystringOf (r : List (Text × JsonValue F)) : Option (JsonValue F) :=
  (get r "querystring").filter fun value =>
    match value with
    | .null => false
    | _ => true

theorem textOr_querystringOf (h : TextOrAbsent r "querystring") :
    ∃ text, textOr [] (querystringOf r) = .ok text ∧
      (get r "querystring" = none → text = []) ∧
      ∀ t, get r "querystring" = some (.str t) → text = t := by
  unfold querystringOf
  rcases h with hnone | ⟨text, htext⟩
  · rw [hnone]
    exact ⟨[], rfl, fun _ => rfl, fun t ht => (by cases ht)⟩
  · rw [htext]
    refine ⟨text, rfl, fun hnone => (by cases hnone), fun t ht => ?_⟩
    rw [Option.some.injEq, JsonValue.str.injEq] at ht
    exact ht

variable (library) in
theorem applyRequestMutations_of_readable (current : Dict Text Text) (h : ReadableRequest r) :
    ∃ headers method uri querystring,
      applyRequestMutations library current r = .ok (headers, method, uri, querystring) ∧
      (get r "headers" = none → headers = current) ∧
      (get r "method" = none → method = "GET".toList) ∧
      (get r "uri" = none → uri = "/".toList) ∧
      (get r "querystring" = none → querystring = []) := by
  rcases headersOr_of_headersOrAbsent library current h.headers with ⟨headers, hheaders, hheaders'⟩
  rcases textOr_of_textOrAbsent library [] h.method with ⟨method, hmethod, hmethod'⟩
  rcases textOr_of_textOrAbsent library "/".toList h.uri with ⟨uri, huri, huri'⟩
  rcases textOr_querystringOf h.querystring with ⟨querystring, hquery, hquery', -⟩
  refine ⟨headers, if library.upper method = [] then "GET".toList else library.upper method, uri,
    querystring, ?_, hheaders', fun hnone => ?_, huri', hquery'⟩
  · unfold applyRequestMutations
    rw [hheaders, hmethod, huri]
    change (textOr [] (querystringOf r) >>= _) = _
    rw [hquery]
    rfl
  · rw [hmethod' hnone, upper_nil]
    rfl

theorem parseRequestStageOutput_of_wrapped (hresponse : ¬HasObject members "response")
    (hrequest : get members "request" = some (.obj r)) :
    parseRequestStageOutput (.obj members) = .mutateRequest r := by
  unfold parseRequestStageOutput
  dsimp only
  split
  · next heq => exact absurd ⟨_, heq⟩ hresponse
  · next heq _ =>
      rw [hrequest, Option.some.injEq, JsonValue.obj.injEq] at heq
      rw [heq]
  · next h => exact absurd hrequest (h r)

theorem parseRequestStageOutput_of_bare (hresponse : ¬HasObject members "response")
    (hrequest : ¬HasObject members "request") :
    parseRequestStageOutput (.obj members) =
      if (get members "status").isSome then .shortCircuit members
      else if (get members "uri").isSome ∨ (get members "method").isSome then
        .mutateRequest members
      else .continueUnchanged := by
  unfold parseRequestStageOutput
  dsimp only
  split
  · next heq => exact absurd ⟨_, heq⟩ hresponse
  · next heq _ => exact absurd ⟨_, heq⟩ hrequest
  · rfl

theorem requestStep_eq (s : RequestState) (h : Unwraps library output (.obj members)) :
    requestStep library s output =
      (match parseRequestStageOutput (.obj members) with
      | .shortCircuit response => do return .inl (← synthesizeResponse library response)
      | .mutateRequest mutated => do
        let (headers, method, uri, querystring) ←
          applyRequestMutations library s.headers mutated
        return .inr { s with headers, method, uri, querystring }
      | _ => return .inr s) := by
  unfold requestStep
  rw [unwrapCfOutput_of_unwraps h]
  rfl

theorem requestStep_of_requestIn (s : RequestState) (h : Unwraps library output (.obj members))
    (hr : RequestIn members r) :
    (Recognized members → ∀ headers method uri querystring,
      applyRequestMutations library s.headers r = .ok (headers, method, uri, querystring) →
      requestStep library s output =
        .ok (.inr { s with headers, method, uri, querystring })) ∧
    (¬Recognized members → requestStep library s output = .ok (.inr s)) := by
  rw [requestStep_eq s h]
  cases hr with
  | wrapped hresponse hrequest =>
    rw [parseRequestStageOutput_of_wrapped hresponse hrequest]
    refine ⟨fun _ headers method uri querystring happly => ?_,
      fun hno => absurd (.inl ⟨r, hrequest⟩) hno⟩
    dsimp only
    rw [happly]
    rfl
  | bare hresponse hrequest hstatus hr =>
    rw [parseRequestStageOutput_of_bare hresponse hrequest, hstatus, Option.isSome_none,
      if_neg Bool.false_ne_true]
    constructor
    · intro hknown headers method uri querystring happly
      rw [if_pos (hknown.resolve_left hrequest), ← hr]
      dsimp only
      rw [happly]
      rfl
    · intro hunknown
      rw [if_neg fun h => hunknown (.inr h)]
      rfl

theorem requestStep_of_returnsResponse (s : RequestState) {short : ShortCircuit}
    (h : ReturnsResponse library output short) :
    requestStep library s output = .ok (.inl short) := by
  rcases h with ⟨members, r, hunwraps, hr, hdescribes⟩
  have hparse : parseRequestStageOutput (.obj members) = .shortCircuit r := by
    rcases hr with hr | ⟨hresponse, hrequest, hstatus, hr⟩
    · simp only [parseRequestStageOutput, hr]
    · rw [parseRequestStageOutput_of_bare hresponse hrequest, if_pos hstatus, hr]
  have hstatus : statusOr library 200 r = short.status := by
    unfold statusOr getTrue
    rcases hdescribes.status with ⟨hne, hint⟩ | htext
    · rw [hint, Option.filter_some, truthy, decide_eq_true hne]
      rfl
    · have hne : JsonText.intText short.status ≠ [] := by
        cases short.status with
        | ofNat n => exact JsonText.toDigits_ne_nil n
        | negSucc => exact cons_ne_nil _ _
      rw [htext, Option.filter_some, truthy, decide_eq_true hne, if_pos rfl]
      dsimp only [intOf]
      rw [library.parseInt_intText, Option.getD_some]
  have hheaders : headersFromCf library (get r "headers") = .ok short.headers := by
    rcases hdescribes.headers with ⟨hnone, hempty⟩ | ⟨cf, hcf, hflat⟩
    · rw [hnone, hempty]
      rfl
    · rw [hcf, hflat, headersFromCf_cfValue]
  have hbody : bodyOr library [] [] r = .ok short.body := by
    unfold bodyOr
    rcases hdescribes.body with ⟨hnone, hempty⟩ | ⟨text, htext, hbody⟩
    · rw [hnone, hempty]
    · rw [htext]
      dsimp only
      have hraw : (if truthy library (.str text) then JsonValue.str (F := F) text else .str []) =
          .str text := by
        by_cases hnil : text = []
        · simp [truthy, hnil]
        · simp [truthy, hnil]
      rw [hraw]
      rcases hbody with ⟨hencoding, hutf8⟩ | ⟨hencoding, hbase64⟩
      · have htextOr : textOr "text".toList (getTrue library r "bodyEncoding") =
            .ok "text".toList := by
          rcases hencoding with hnone | hsome
          · rw [getTrue_of_none hnone]
            rfl
          · rw [textOr_getTrue_str _ r _ _ _ hsome, ite_self]
        rw [htextOr, hutf8]
        dsimp only [bind, Except.bind]
        rw [lower_text]
        rfl
      · have htextOr : textOr "text".toList (getTrue library r "bodyEncoding") =
            .ok "base64".toList := by
          rw [textOr_getTrue_str _ r _ _ _ hencoding, if_neg (by decide)]
        rw [htextOr, hbase64]
        dsimp only [bind, Except.bind]
        rw [lower_base64, Base64.decodeStandard_encodeStandard]
        rfl
  have hsynthesize : synthesizeResponse library r = .ok short := by
    unfold synthesizeResponse
    rw [hheaders, hbody, hstatus]
    rfl
  rw [requestStep_eq s hunwraps, hparse]
  dsimp only
  rw [hsynthesize]
  rfl

theorem parseResponseStageOutput_eq {members : List (Text × JsonValue F)} :
    (∀ r, get members "response" = some (.obj r) →
      parseResponseStageOutput (.obj members) = .mutateResponse r) ∧
    (¬HasObject members "response" → parseResponseStageOutput (.obj members) =
      if (get members "status").isSome then .mutateResponse members else .continueUnchanged) := by
  constructor
  · intro r hr
    simp only [parseResponseStageOutput, hr]
  · intro hresponse
    unfold parseResponseStageOutput
    dsimp only
    split
    · next heq => exact absurd ⟨_, heq⟩ hresponse
    · rfl

theorem responseStep_eq (s : ResponseState) (h : Unwraps library output (.obj members)) :
    responseStep library s output =
      (match parseResponseStageOutput (.obj members) with
      | .mutateResponse mutated => applyResponseMutations library s mutated
      | _ => return s) := by
  unfold responseStep
  rw [unwrapCfOutput_of_unwraps h]
  rfl

variable (library) in
theorem bodyOr_of_readable (current : Bytes) (hbody : TextOrAbsent r "body")
    (hencoding : TextOrAbsent r "bodyEncoding") :
    ∃ body, bodyOr library current current r = .ok body ∧
      (get r "body" = none → body = current) := by
  unfold bodyOr
  rcases hbody with hnone | ⟨text, htext⟩
  · rw [hnone]
    exact ⟨current, rfl, fun _ => rfl⟩
  · rw [htext]
    rcases textOr_of_textOrAbsent library "text".toList hencoding with ⟨encoding, hencoding, -⟩
    dsimp only
    rw [hencoding]
    have hraw : ∃ t, (if truthy library (.str text) then JsonValue.str (F := F) text
        else .str []) = .str t := by
      by_cases htrue : truthy library (.str text) = true
      · exact ⟨text, if_pos htrue⟩
      · exact ⟨[], if_neg htrue⟩
    rcases hraw with ⟨t, ht⟩
    rw [ht]
    dsimp only [bind, Except.bind]
    by_cases hbase64 : library.lower encoding = "base64".toList
    · rw [if_pos hbase64]
      exact ⟨_, rfl, fun hnone => by cases hnone⟩
    · rw [if_neg hbase64]
      exact ⟨_, rfl, fun hnone => by cases hnone⟩

theorem applyResponseMutations_of_readable (s : ResponseState) (h : ReadableResponse r) :
    ∃ s', applyResponseMutations library s r = .ok s' ∧ KeepsResponse r s s' := by
  rcases headersOr_of_headersOrAbsent _ _ h.headers with ⟨headers, hheaders, hheaders'⟩
  rcases bodyOr_of_readable _ _ h.body h.bodyEncoding with ⟨body, hbody, hbody'⟩
  refine ⟨⟨statusOr library s.status r, headers, body⟩, ?_, ⟨fun hnone => ?_, hheaders', hbody'⟩⟩
  · unfold applyResponseMutations
    rw [hheaders, hbody]
    rfl
  · change statusOr library s.status r = s.status
    rw [statusOr, getTrue_of_none hnone]

end Reading

/-! ### One function -/

section Step

variable {call : Call} {a : Association F} {event : JsonValue F}

theorem requestValue_eq (call : Call) (includeBody : Bool) (s : RequestState) :
    ∃ r : List (Text × JsonValue F), requestValue library call includeBody s = .obj r ∧
      get r "method" = some (.str (library.upper s.method)) ∧
      get r "uri" =
        some (.str (if ['/'].isPrefixOf s.uri then s.uri else '/' :: s.uri)) ∧
      get r "querystring" = some (.str s.querystring) ∧
      get r "headers" = some (headersToCf library s.headers) := by
  have hmembers (more : List (String × JsonValue F)) :
      get (membersOf (requestMembers library call s ++ more)) "method" =
          some (.str (library.upper s.method)) ∧
      get (membersOf (requestMembers library call s ++ more)) "uri" =
          some (.str (if ['/'].isPrefixOf s.uri then s.uri else '/' :: s.uri)) ∧
      get (membersOf (requestMembers library call s ++ more)) "querystring" =
          some (.str s.querystring) ∧
      get (membersOf (requestMembers library call s ++ more)) "headers" =
          some (headersToCf library s.headers) := by
    simp only [get_membersOf, requestMembers, cons_append, nil_append]
    refine ⟨?_, ?_, ?_, ?_⟩ <;> simp [lookup_cons]
  unfold requestValue
  split
  · exact ⟨_, rfl, hmembers _⟩
  · exact ⟨_, rfl, by simpa using hmembers []⟩

theorem isPrefixOf_shown (uri : Text) :
    (if ['/'].isPrefixOf uri then uri else '/' :: uri) = uri ↔ ['/'] <+: uri := by
  rw [← isPrefixOf_iff_prefix]
  by_cases hslash : ['/'].isPrefixOf uri = true
  · rw [if_pos hslash]
    exact ⟨fun _ => hslash, fun _ => rfl⟩
  · rw [if_neg hslash]
    refine ⟨fun heq => ?_, fun h => absurd h hslash⟩
    have hlength := congrArg length heq
    rw [length_cons] at hlength
    omega

theorem shown_ne_nil (uri : Text) :
    (if ['/'].isPrefixOf uri then uri else '/' :: uri) ≠ [] := by
  split
  · next h =>
      intro hnil
      rw [hnil] at h
      exact Bool.false_ne_true h
  · exact cons_ne_nil _ _

variable (s : RequestState)

theorem applyRequestMutations_echo (hheaders : (s.headers.keys.map
    library.lower).Nodup) {r : List (Text × JsonValue F)}
    (hr : requestValue library call a.includeBody s = .obj r) :
    applyRequestMutations library s.headers r = .ok (s.headers,
      if library.upper (library.upper s.method) = [] then "GET".toList
        else library.upper (library.upper s.method),
      if ['/'].isPrefixOf s.uri then s.uri else '/' :: s.uri, s.querystring) := by
  rcases requestValue_eq _ _ _ s with ⟨r', hr', hmethod, huri, hquery, hcf⟩
  rw [hr, JsonValue.obj.injEq] at hr'
  subst hr'
  have hmethodText := textOr_getTrue_str library r _ _ [] hmethod
  have huriText := textOr_getTrue_str library r _ _ "/".toList huri
  rw [ite_eq_right_iff.mpr Eq.symm] at hmethodText
  rw [if_neg (shown_ne_nil _)] at huriText
  have hqueryText : textOr [] (querystringOf r) = .ok s.querystring := by
    rw [querystringOf, hquery]
    rfl
  unfold applyRequestMutations
  rw [hcf, headersOr_headersToCf _ _ hheaders, hmethodText, huriText]
  change (textOr [] (querystringOf r) >>= _) = _
  rw [hqueryText]
  rfl

theorem recognized_echo {members r : List (Text × JsonValue F)}
    (hr : requestValue library call a.includeBody s = .obj r) (hin : RequestIn members r) :
    Recognized members := by
  rcases requestValue_eq _ _ _ s with ⟨r', hr', hmethod, -⟩
  rw [hr, JsonValue.obj.injEq] at hr'
  subst hr'
  cases hin with
  | wrapped hresponse hrequest => exact .inl ⟨r, hrequest⟩
  | bare hresponse hrequest hstatus heq =>
    rw [← heq, Recognized, hmethod]
    exact .inr (.inr rfl)

theorem requestStep_echo_iff (hheaders : (s.headers.keys.map
    library.lower).Nodup) (hecho : EchoesRequest library call a s event) :
    requestStep library s (a.function event) = .ok (.inr s) ↔
      library.upper (library.upper s.method) = s.method ∧ s.method ≠ [] ∧ ['/'] <+: s.uri := by
  rcases hecho with ⟨r, hr, members, hunwraps, hin⟩
  rw [(requestStep_of_requestIn s hunwraps hin).1 (recognized_echo _ s hr hin) _ _ _ _
    (applyRequestMutations_echo _ s hheaders hr), Except.ok.injEq, Sum.inr.injEq,
    RequestState.mk.injEq, isPrefixOf_shown]
  constructor
  · rintro ⟨hmethod, huri, -⟩
    by_cases hnil : library.upper (library.upper s.method) = []
    · rw [if_pos hnil] at hmethod
      rw [← hmethod, upper_get, upper_get] at hnil
      cases hnil
    · rw [if_neg hnil] at hmethod
      exact ⟨hmethod, by rwa [hmethod] at hnil, huri⟩
  · rintro ⟨hmethod, hne, huri⟩
    rw [hmethod, if_neg hne]
    exact ⟨rfl, huri, rfl, rfl, rfl⟩

/-- What a function returns as a request has its effect exactly if what it leaves out has the
    defaults, and what it receives is shown as it is. -/
theorem requestLaw_iff :
    RequestLaw library call a s event ↔ RequestKept library call a s event := by
  constructor
  · intro hlaw
    refine ⟨fun hheaders hecho => (requestStep_echo_iff _ s hheaders hecho).mp
      (hlaw.unchanged hheaders hecho), ?_⟩
    rintro r ⟨members, hunwraps, hin, hknown⟩ hreadable
    rcases hlaw.omitted r ⟨members, hunwraps, hin⟩ hreadable with ⟨s', hs', hkeeps⟩
    rcases applyRequestMutations_of_readable _ _ hreadable with
      ⟨headers, method, uri, querystring, happly, -, hmethod, huri, hquery⟩
    rw [(requestStep_of_requestIn s hunwraps hin).1 hknown _ _ _ _ happly, Except.ok.injEq,
      Sum.inr.injEq] at hs'
    subst hs'
    exact ⟨fun hnone => (hkeeps.method hnone).symm.trans (hmethod hnone),
      fun hnone => (hkeeps.uri hnone).symm.trans (huri hnone),
      fun hnone => (hkeeps.querystring hnone).symm.trans (hquery hnone)⟩
  · intro hkept
    refine ⟨fun hheaders hecho => (requestStep_echo_iff _ s hheaders hecho).mpr
      (hkept.shown hheaders hecho), ?_, fun short => requestStep_of_returnsResponse s⟩
    rintro r ⟨members, hunwraps, hin⟩ hreadable
    by_cases hknown : Recognized members
    · rcases applyRequestMutations_of_readable _ _ hreadable with
        ⟨headers, method, uri, querystring, happly, hheaders, hmethod, huri, hquery⟩
      rcases hkept.defaults r ⟨members, hunwraps, hin, hknown⟩ hreadable with
        ⟨hmethod', huri', hquery'⟩
      exact ⟨_, (requestStep_of_requestIn s hunwraps hin).1 hknown _ _ _ _ happly,
        ⟨fun hnone => (hmethod hnone).trans (hmethod' hnone).symm,
          fun hnone => (huri hnone).trans (huri' hnone).symm,
          fun hnone => (hquery hnone).trans (hquery' hnone).symm, hheaders, rfl⟩⟩
    · exact ⟨s, (requestStep_of_requestIn s hunwraps hin).2 hknown,
        ⟨fun _ => rfl, fun _ => rfl, fun _ => rfl, fun _ => rfl, rfl⟩⟩

theorem responseValue_eq (s : ResponseState) :
    ∃ r : List (Text × JsonValue F), responseValue library s = .obj r ∧
      get r "status" = some (.str (JsonText.intText s.status)) ∧
      get r "headers" = some (headersToCf library s.headers) ∧ get r "body" = none := by
  refine ⟨_, rfl, ?_, ?_, ?_⟩ <;>
    · rw [get_membersOf]
      simp [lookup_cons]

theorem applyResponseMutations_echo (s : ResponseState) (hheaders : (s.headers.keys.map
    library.lower).Nodup) {r : List (Text × JsonValue F)} (hr : responseValue library s = .obj r) :
    applyResponseMutations library s r = .ok s := by
  rcases responseValue_eq _ s with ⟨r', hr', hstatus, hcf, hbody⟩
  rw [hr, JsonValue.obj.injEq] at hr'
  subst hr'
  have hsame : statusOr library s.status r = s.status := by
    rw [statusOr, getTrue, hstatus, Option.filter_some]
    split
    · next heq =>
        split at heq
        · rw [Option.some.injEq] at heq
          rw [← heq, intOf, library.parseInt_intText, Option.getD_some]
        · cases heq
    · rfl
  unfold applyResponseMutations bodyOr
  rw [hcf, headersOr_headersToCf _ _ hheaders, hbody, hsame]
  rfl

/-- What the result of one function does. -/
theorem responseLaw (s : ResponseState) : ResponseLaw library a s event := by
  constructor
  · rintro hheaders ⟨r, hr, members, hunwraps, hin⟩
    rw [responseStep_eq s hunwraps]
    rcases hin with hresponse | ⟨hresponse, rfl⟩
    · rw [parseResponseStageOutput_eq.1 r hresponse]
      exact applyResponseMutations_echo _ s hheaders hr
    · rcases responseValue_eq _ s with ⟨r', hr', hstatus, -⟩
      rw [hr, JsonValue.obj.injEq] at hr'
      subst hr'
      rw [parseResponseStageOutput_eq.2 hresponse, hstatus, Option.isSome_some]
      exact applyResponseMutations_echo _ s hheaders hr
  · rintro r ⟨members, hunwraps, hin⟩ hreadable
    rw [responseStep_eq s hunwraps]
    rcases hin with hresponse | ⟨hresponse, rfl⟩
    · rw [parseResponseStageOutput_eq.1 r hresponse]
      exact applyResponseMutations_of_readable s hreadable
    · rw [parseResponseStageOutput_eq.2 hresponse]
      by_cases hstatus : (get r "status").isSome = true
      · rw [if_pos hstatus]
        exact applyResponseMutations_of_readable s hreadable
      · rw [if_neg hstatus]
        exact ⟨s, rfl, ⟨fun _ => rfl, fun _ => rfl, fun _ => rfl⟩⟩

end Step

/-! ### Chains -/

section Chain

variable (call : Call) (behavior : List (Association F))

/-- A function is called with an event at a request stage. -/
def ReachesRequest (enabled : Bool) (request : RequestState) (a : Association F)
    (s : RequestState) (event : JsonValue F) : Prop :=
  enabled = true ∧ ∃ before after, associationsFor behavior call.eventType = before ++ a :: after ∧
    requestChain library call before request = .ok (none, s) ∧
    buildRequestEvent library call a.includeBody s = some event

/-- A function is called with an event at a response stage. -/
def ReachesResponse (enabled : Bool) (request : RequestState) (response : ResponseState)
    (a : Association F) (s : ResponseState) (event : JsonValue F) : Prop :=
  enabled = true ∧ ∃ before after, associationsFor behavior call.eventType = before ++ a :: after ∧
    responseChain library call request before response = .ok s ∧
    buildResponseEvent library call request s = some event

/-- What a request stage should do: each function has its effect, functions that return what they
    received leave the request as it was, and the first response ends the chain. -/
structure RequestChainLaw (enabled : Bool) (request : RequestState) : Prop where
  step : ∀ a s event, ReachesRequest library call behavior enabled request a s event →
    RequestLaw library call a s event
  unchanged : (request.headers.keys.map library.lower).Nodup →
    (∀ a ∈ associationsFor behavior call.eventType, ∀ event,
      buildRequestEvent library call a.includeBody request = some event →
      EchoesRequest library call a request event) →
    runRequestChain library enabled call behavior request = .ok (none, request)
  response : ∀ a s event short,
    ReachesRequest library call behavior enabled request a s event →
    ReturnsResponse library (a.function event) short →
    runRequestChain library enabled call behavior request = .ok (some short, s)

/-- What a response stage should do: each function has its effect, and functions that return what
    they received leave the response as it was. -/
structure ResponseChainLaw (enabled : Bool) (request : RequestState) (response : ResponseState) :
    Prop where
  step : ∀ a s event, ReachesResponse library call behavior enabled request response a s event →
    ResponseLaw library a s event
  unchanged : (response.headers.keys.map library.lower).Nodup →
    (∀ a ∈ associationsFor behavior call.eventType, ∀ event,
      buildResponseEvent library call request response = some event →
      EchoesResponse library a response event) →
    runResponseChain library enabled call behavior request response = .ok response

variable {call} {behavior}

theorem requestChain_cons (a : Association F) (rest : List (Association F)) (s : RequestState) :
    requestChain library call (a :: rest) s =
      match buildRequestEvent library call a.includeBody s with
      | none => requestChain library call rest s
      | some event =>
        match requestStep library s (a.function event) with
        | .error failure => .error failure
        | .ok (.inl short) => .ok (some short, s)
        | .ok (.inr s') => requestChain library call rest s' := by
  rw [requestChain]
  cases buildRequestEvent library call a.includeBody s with
  | none => rfl
  | some event =>
    dsimp only
    generalize a.function event = output
    cases output <;> rfl

theorem requestChain_append (before after : List (Association F)) (s s' : RequestState)
    (h : requestChain library call before s = .ok (none, s')) :
    requestChain library call (before ++ after) s = requestChain library call after s' := by
  induction before generalizing s with
  | nil =>
    cases h
    rfl
  | cons a before ih =>
    rw [requestChain_cons] at h
    rw [cons_append, requestChain_cons]
    cases hevent : buildRequestEvent library call a.includeBody s with
    | none =>
      rw [hevent] at h
      exact ih s h
    | some event =>
      rw [hevent] at h
      dsimp only at h ⊢
      cases hstep : requestStep library s (a.function event) with
      | error =>
        rw [hstep] at h
        cases h
      | ok result =>
        rw [hstep] at h
        cases result with
        | inl => cases h
        | inr => exact ih _ h

theorem requestChain_of_steps (associations : List (Association F)) (s : RequestState)
    (h : ∀ before a after event, associations = before ++ a :: after →
      requestChain library call before s = .ok (none, s) →
      buildRequestEvent library call a.includeBody s = some event →
      requestStep library s (a.function event) = .ok (.inr s)) :
    requestChain library call associations s = .ok (none, s) := by
  induction associations with
  | nil => rfl
  | cons a associations ih =>
    have hfirst : ∀ rest, requestChain library call (a :: rest) s =
        requestChain library call rest s := by
      intro rest
      rw [requestChain_cons]
      cases hevent : buildRequestEvent library call a.includeBody s with
      | none => rfl
      | some =>
        dsimp only
        rw [h [] a _ _ rfl rfl hevent]
    rw [hfirst]
    refine ih fun before b after event heq hbefore => ?_
    refine h (a :: before) b after event (congrArg (a :: ·) heq) ?_
    rw [hfirst]
    exact hbefore

theorem responseChain_cons (request : RequestState) (a : Association F)
    (rest : List (Association F)) (s : ResponseState) :
    responseChain library call request (a :: rest) s =
      match buildResponseEvent library call request s with
      | none => responseChain library call request rest s
      | some event =>
        match responseStep library s (a.function event) with
        | .error failure => .error failure
        | .ok s' => responseChain library call request rest s' := by
  rw [responseChain]
  cases buildResponseEvent library call request s with
  | none => rfl
  | some event =>
    dsimp only
    generalize a.function event = output
    cases output <;> rfl

theorem responseChain_of_steps (request : RequestState) (associations : List (Association F))
    (s : ResponseState)
    (h : ∀ a ∈ associations, ∀ event, buildResponseEvent library call request s = some event →
      responseStep library s (a.function event) = .ok s) :
    responseChain library call request associations s = .ok s := by
  induction associations with
  | nil => rfl
  | cons a associations ih =>
    have hrest := ih fun b hb => h b (mem_cons_of_mem _ hb)
    rw [responseChain_cons]
    cases hevent : buildResponseEvent library call request s with
    | none => exact hrest
    | some =>
      dsimp only
      rw [h a mem_cons_self _ hevent]
      exact hrest

theorem responseChainLaw (enabled : Bool) (request : RequestState) (response : ResponseState) :
    ResponseChainLaw library call behavior enabled request response := by
  refine ⟨fun a s event _ => responseLaw _ s, fun hheaders hecho => ?_⟩
  cases enabled with
  | false => rfl
  | true =>
    exact responseChain_of_steps _ _ _ _ fun a ha event hevent =>
      (responseLaw _ _).unchanged hheaders (hecho a ha _ hevent)

/-- A request stage does what it should exactly if each request is shown to the functions as it
    is, and has the defaults where a function leaves something out. -/
theorem requestChainLaw_iff (enabled : Bool) (request : RequestState) :
    RequestChainLaw library call behavior enabled request ↔
      ∀ a s event, ReachesRequest library call behavior enabled request a s event →
        RequestKept library call a s event := by
  constructor
  · intro hlaw a s event hreach
    exact (requestLaw_iff _ s).mp (hlaw.step a s _ hreach)
  · intro hkept
    have hlaw : ∀ a s event, ReachesRequest library call behavior enabled request a s event →
        RequestLaw library call a s event :=
      fun a s event hreach => (requestLaw_iff _ s).mpr (hkept a s _ hreach)
    refine ⟨hlaw, fun hheaders hecho => ?_, ?_⟩
    · unfold runRequestChain
      cases enabled with
      | false => rfl
      | true =>
        refine requestChain_of_steps _ _ _ fun before a after event heq hbefore hevent => ?_
        have hmem : a ∈ associationsFor behavior call.eventType :=
          heq ▸ mem_append_right _ mem_cons_self
        exact (hlaw a _ _ ⟨rfl, before, after, heq, hbefore, hevent⟩).unchanged
          hheaders (hecho a hmem event hevent)
    · rintro a s event short ⟨rfl, before, after, heq, hbefore, hevent⟩ hreturns
      unfold runRequestChain
      rw [if_pos rfl, heq, requestChain_append _ _ _ _ s hbefore, requestChain_cons, hevent]
      dsimp only
      rw [requestStep_of_returnsResponse s hreturns]

/-- The functions of a behaviour change only what they mention, exactly if at the request stages
    each request is shown as it is and has the defaults where a function leaves something out. -/
theorem edge_chains_iff (library : Library F) (call : Call) (behavior : List (Association F))
    (enabled : Bool) (request : RequestState) :
    (RequestChainLaw library call behavior enabled request ∧
      ∀ response, ResponseChainLaw library call behavior enabled request response) ↔
    ∀ a s event, ReachesRequest library call behavior enabled request a s event →
      RequestKept library call a s event := by
  rw [requestChainLaw_iff]
  exact and_iff_left fun response => responseChainLaw _ _ _ _

end Chain

/-! ### A request whose method is replaced -/

def oneFloat : JsonText.Floats Unit where
  text _ := "0.5".toList
  ofText _ := ()
  isFloatLiteral_text _ := by decide +kernel
  ofText_text _ := rfl

/-- A library that reads only whole numbers as they are written. -/
def plainLibrary : Library Unit where
  upper text := text.map Char.toUpper
  lower text := text.map Char.toLower
  dumpsLength _ := 0
  parseInt text :=
    match JsonText.readNumber oneFloat text with
    | some (.int n) => some n
    | _ => none
  intOfFloat _ := some 0
  isTrue _ := true
  bytesOf _ := .ok []
  upper_ascii _ _ := rfl
  lower_ascii _ _ := rfl
  parseInt_intText n := by rw [JsonText.readNumber_intText]

def exampleCall : Call :=
  ⟨.viewerRequest, "E1".toList, "r1".toList, "127.0.0.1".toList⟩

def rewriting : Association Unit :=
  ⟨.viewerRequest, "arn".toList, false, fun _ => objectOf [("uri", .str "/new".toList)]⟩

def posted : RequestState :=
  ⟨"POST".toList, "/old".toList, "q=1".toList, .empty, some [1]⟩

theorem appliesRequest_rewriting (event : JsonValue Unit) :
    AppliesRequest plainLibrary (rewriting.function event)
      (membersOf [("uri", .str "/new".toList)]) := by
  have hget (key : String) : get (membersOf [("uri", JsonValue.str (F := Unit) "/new".toList)])
      key = [("uri", JsonValue.str "/new".toList)].lookup key := get_membersOf _ _
  refine ⟨_, .inl ⟨_, rfl, ?_, rfl⟩, .bare ?_ ?_ ?_ rfl, .inr (.inl ?_)⟩
  · apply getTrue_of_none
    rw [hget]
    simp [lookup_cons]
  · rintro ⟨object, hobject⟩
    rw [hget] at hobject
    simp [lookup_cons] at hobject
  · rintro ⟨object, hobject⟩
    rw [hget] at hobject
    simp [lookup_cons] at hobject
  · rw [hget]
    simp [lookup_cons]
  · rw [hget]
    simp

/-- A function that rewrites the URI of a request makes a POST into a GET. -/
theorem method_replaced : ¬∀ (library : Library Unit) (call : Call)
    (behavior : List (Association Unit)) (enabled : Bool) (request : RequestState),
    (request.headers.keys.map library.lower).Nodup →
    RequestChainLaw library call behavior enabled request ∧
      ∀ response, ResponseChainLaw library call behavior enabled request response := by
  intro hall
  have hlaw := (hall plainLibrary exampleCall [rewriting] true posted nodup_nil).1
  have hevent : ∃ event, buildRequestEvent plainLibrary exampleCall false posted = some event :=
    ⟨_, rfl⟩
  rcases hevent with ⟨event, hevent⟩
  have hkept := (requestLaw_iff _ _).mp (hlaw.step _ _ _ ⟨rfl, [], [], rfl, rfl, hevent⟩)
  have hmethod := (hkept.defaults _ (appliesRequest_rewriting _) ?_).1 ?_
  · cases hmethod
  · refine ⟨.inl ?_, .inr ⟨"/new".toList, ?_⟩, .inl ?_, .inl ?_⟩ <;>
      · rw [get_membersOf]
        simp [lookup_cons]
  · rw [get_membersOf]
    simp [lookup_cons]

end LocalEmu.CloudFront.Edge
