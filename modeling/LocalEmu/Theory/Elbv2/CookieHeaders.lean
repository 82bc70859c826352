import LocalEmu.Core.Elbv2.Stickiness

/-!
# Cookies in Headers

The parser finds the first cookie of the name in a `Cookie` header. If there is one at most,
this is the cookie that the header carries, wherever it stands and whatever blanks there are
around it. What a client sends back of a `Set-Cookie` header is such a cookie.
-/

namespace LocalEmu.Elbv2

open List

/-! ### Blanks -/

variable {p : Char → Bool} (part : Text) {c : Char}

theorem dropWhile_append_cons (hc : p c = false) (s t : Text) :
    (s ++ c :: t).dropWhile p = s.dropWhile p ++ c :: t := by
  induction s with
  | nil => simp [hc]
  | cons d s ih =>
    by_cases hd : p d = true
    · simp [hd, ih]
    · simp [hd]

theorem rdropWhile_append_cons (hc : p c = false) (s t : Text) :
    (s ++ c :: t).rdropWhile p = s ++ c :: t.rdropWhile p := by
  have hreverse : (s ++ c :: t).reverse = t.reverse ++ c :: s.reverse := by simp
  rw [rdropWhile, hreverse, dropWhile_append_cons hc, rdropWhile]
  simp

theorem rdropWhile_append_of_forall (s t : Text) (ht : ∀ c ∈ t, p c = true) :
    (s ++ t).rdropWhile p = s.rdropWhile p := by
  have hreverse : (s ++ t).reverse = t.reverse ++ s.reverse := reverse_append
  rw [rdropWhile, hreverse, dropWhile_append_of_pos (by simpa using ht), rdropWhile]

theorem strip_dropWhile (text : Text) : strip (text.dropWhile isSpace) = strip text := by
  rw [strip, dropWhile_idempotent, strip]

theorem strip_rdropWhile (text : Text) : strip (text.rdropWhile isSpace) = strip text := by
  have hblank : ∀ c ∈ text.rtakeWhile isSpace, isSpace c = true := fun c hc => mem_rtakeWhile_imp hc
  have htext : text.rdropWhile isSpace ++ text.rtakeWhile isSpace = text :=
    rdropWhile_append_rtakeWhile ..
  rw [strip, strip]
  by_cases hall : ∀ c ∈ text.rdropWhile isSpace, isSpace c = true
  · have hevery : ∀ c ∈ text, isSpace c = true := by
      intro c hc
      rw [← htext] at hc
      exact (mem_append.mp hc).elim (hall c) (hblank c)
    rw [dropWhile_eq_nil_iff.mpr hall, dropWhile_eq_nil_iff.mpr hevery]
  · have hsplit : text.dropWhile isSpace =
        (text.rdropWhile isSpace).dropWhile isSpace ++ text.rtakeWhile isSpace := by
      conv_lhs => rw [← htext]
      rw [dropWhile_append, if_neg]
      rw [List.isEmpty_iff, List.dropWhile_eq_nil_iff]
      exact hall
    rw [hsplit, rdropWhile_append_of_forall _ _ hblank]

theorem strip_of_forall {text : Text} (h : ∀ c ∈ text, isSpace c = false) : strip text = text := by
  have hdrop : text.dropWhile isSpace = text := by
    rw [dropWhile_eq_self_iff]
    intro hpos
    rw [h _ (getElem_mem _)]
    exact Bool.false_ne_true
  rw [strip, hdrop, rdropWhile_eq_self_iff]
  intro hne
  rw [h _ (getLast_mem hne)]
  exact Bool.false_ne_true

/-! ### Parts -/

theorem splitEquals_append {name : Text} (hname : '=' ∉ name) (value : Text) :
    splitEquals (name ++ '=' :: value) = some (name, value) := by
  have hne : ∀ c ∈ name, (c != '=') = true := by
    intro c hc
    rw [bne_iff_ne]
    rintro rfl
    exact hname hc
  have hdrop : (name ++ '=' :: value).dropWhile (fun c => c != '=') = '=' :: value := by
    rw [dropWhile_append_of_pos hne]
    rfl
  have htake : (name ++ '=' :: value).takeWhile (fun c => c != '=') = name := by
    rw [takeWhile_append_of_pos hne]
    simp
  rw [splitEquals, hdrop, htake]

theorem splitEquals_eq_some {part name value : Text}
    (h : splitEquals part = some (name, value)) : part = name ++ '=' :: value ∧ '=' ∉ name := by
  unfold splitEquals at h
  cases hdrop : part.dropWhile fun c => c != '=' with
  | nil =>
    rw [hdrop] at h
    cases h
  | cons c =>
    rw [hdrop] at h
    cases h
    have hc : (c != '=') = false := by
      have hhead := head?_dropWhile_not (fun c => c != '=') part
      rw [hdrop] at hhead
      simpa using hhead
    have heq : c = '=' := by simpa using hc
    refine ⟨?_, fun hmem => ?_⟩
    · conv_lhs => rw [← takeWhile_append_dropWhile (p := fun c => c != '=') (l := part)]
      rw [hdrop, heq]
    · exact absurd (mem_takeWhile_imp hmem) (by simp)

theorem splitEquals_eq_none {part : Text} (h : splitEquals part = none) : '=' ∉ part := by
  intro hmem
  rcases append_of_mem hmem with ⟨s, t, rfl⟩
  have hne : (s ++ '=' :: t).dropWhile (fun c => c != '=') ≠ [] := by simp
  unfold splitEquals at h
  split at h
  · next hnil => exact hne hnil
  · cases h

/-- Blanks around a part do not matter. -/
theorem splitEquals_strip : splitEquals (strip part) = (splitEquals part).map fun kv =>
      (kv.1.dropWhile isSpace, kv.2.rdropWhile isSpace) := by
  cases hsplit : splitEquals part with
  | none =>
    cases hstrip : splitEquals (strip part) with
    | none => rfl
    | some =>
      have hmem : '=' ∈ strip part := by
        rw [(splitEquals_eq_some hstrip).1]
        simp
      have hstrip' : strip part <+: part.dropWhile isSpace := rdropWhile_prefix _ _
      have hpart : '=' ∈ part := (dropWhile_sublist _).subset (hstrip'.subset hmem)
      exact absurd hpart (splitEquals_eq_none hsplit)
  | some kv =>
    rcases kv with ⟨name, value⟩
    rcases splitEquals_eq_some hsplit with ⟨rfl, hname⟩
    have hdrop : '=' ∉ name.dropWhile isSpace := fun hmem =>
      hname ((dropWhile_sublist _).subset hmem)
    rw [strip, dropWhile_append_cons (by rfl), rdropWhile_append_cons (by rfl),
      splitEquals_append hdrop]
    rfl

/-! ### Headers -/

/-- A part of a header is a cookie of the name, with some value. -/
def IsAwsalb (value : Text) : Prop :=
  ∃ name raw, part = name ++ '=' :: raw ∧ '=' ∉ name ∧ strip name = awsalbCookie ∧
    strip raw = value

/-- A part of a header is a cookie of the name. -/
def namesAwsalb : Bool :=
  (splitEquals part).any fun kv => strip kv.1 = awsalbCookie

/-- A header has a cookie of the name with that value. -/
def Carries (header value : Text) : Prop :=
  value ≠ [] ∧ ∃ part ∈ header.splitOn ';', IsAwsalb part value

/-- A header has no more than one cookie of the name. -/
def SingleAwsalb (header : Text) : Prop := (header.splitOn ';').countP namesAwsalb ≤ 1

instance (header : Text) : Decidable (SingleAwsalb header) := inferInstanceAs (Decidable (_ ≤ _))

theorem IsAwsalb.names {part value : Text} (h : IsAwsalb part value) : namesAwsalb part = true := by
  rcases h with ⟨name, raw, rfl, hname, hstrip, -⟩
  rw [namesAwsalb, splitEquals_append hname]
  simpa using hstrip

theorem isAwsalb_iff {part name raw value : Text} (h : splitEquals part = some (name, raw))
    (hname : strip name = awsalbCookie) : IsAwsalb part value ↔ strip raw = value := by
  constructor
  · rintro ⟨name', raw', rfl, hname', -, hvalue⟩
    rw [splitEquals_append hname'] at h
    cases h
    exact hvalue
  · intro hvalue
    exact ⟨name, raw, (splitEquals_eq_some h).1, (splitEquals_eq_some h).2, hname, hvalue⟩

variable (parts : List Text)

theorem firstAwsalb_cons :
    (namesAwsalb part = false ∧ firstAwsalb (part :: parts) = firstAwsalb parts) ∨
    (namesAwsalb part = true ∧ ∀ value, firstAwsalb (part :: parts) = some value ↔
      value ≠ [] ∧ IsAwsalb part value) := by
  rw [firstAwsalb, splitEquals_strip]
  cases hsplit : splitEquals part with
  | none => exact .inl ⟨by rw [namesAwsalb, hsplit]; rfl, rfl⟩
  | some kv =>
    rcases kv with ⟨name, raw⟩
    simp only [Option.map_some, strip_dropWhile, strip_rdropWhile]
    by_cases hname : strip name = awsalbCookie
    · refine .inr ⟨by simp [namesAwsalb, hsplit, hname], fun value => ?_⟩
      rw [if_pos hname, isAwsalb_iff hsplit hname]
      by_cases hnil : strip raw = []
      · rw [if_pos hnil]
        constructor
        · intro h
          cases h
        · rintro ⟨hne, hvalue⟩
          exact absurd (hvalue.symm.trans hnil) hne
      · rw [if_neg hnil, Option.some.injEq]
        constructor
        · rintro rfl
          exact ⟨hnil, rfl⟩
        · exact fun h => h.2
    · exact .inl ⟨by simp [namesAwsalb, hsplit, hname], if_neg hname⟩

theorem firstAwsalb_eq_some_iff (h : parts.countP namesAwsalb ≤ 1) (value : Text) :
    firstAwsalb parts = some value ↔ value ≠ [] ∧ ∃ part ∈ parts, IsAwsalb part value := by
  induction parts with
  | nil => simp [firstAwsalb]
  | cons part parts ih =>
    rcases firstAwsalb_cons part _ with ⟨hnot, hfirst⟩ | ⟨hnames, hfirst⟩
    · rw [countP_cons_of_neg (by simp [hnot])] at h
      rw [hfirst, ih h]
      refine and_congr_right fun _ => ⟨?_, ?_⟩
      · rintro ⟨p, hp, hvalue⟩
        exact ⟨p, mem_cons_of_mem part hp, hvalue⟩
      · rintro ⟨p, hp, hvalue⟩
        rcases mem_cons.mp hp with rfl | hp
        · exact absurd hvalue.names (by simp [hnot])
        · exact ⟨p, hp, hvalue⟩
    · -- There is no other cookie of the name.
      rw [countP_cons_of_pos hnames] at h
      have hnone : ∀ p ∈ parts, ¬namesAwsalb p = true := countP_eq_zero.mp (by omega)
      rw [hfirst]
      refine and_congr_right fun _ => ⟨fun hvalue => ⟨part, mem_cons_self, hvalue⟩, ?_⟩
      rintro ⟨p, hp, hvalue⟩
      rcases mem_cons.mp hp with rfl | hp
      · exact hvalue
      · exact absurd hvalue.names (hnone p hp)

/-- What the parser finds. -/
theorem parseAwsalbCookie_eq_some_iff {header : Text} (h : SingleAwsalb header) (value : Text) :
    parseAwsalbCookie header = some value ↔ Carries header value := by
  rw [parseAwsalbCookie]
  by_cases hnil : header = []
  · subst hnil
    constructor
    · intro h
      cases h
    · rintro ⟨_, part, hpart, name, raw, hsplit, -⟩
      rw [mem_singleton.mp hpart] at hsplit
      exact absurd hsplit.symm (by simp)
  · rw [if_neg hnil]
    exact firstAwsalb_eq_some_iff _ h _

/-! ### Cookies that are sent back -/

/-- What a client keeps of a `Set-Cookie` header. -/
def cookiePair (setCookie : Text) : Text := setCookie.takeWhile fun c => c != ';'

/-- A `Cookie` header with some cookies. -/
def cookieHeader (cookies : List Text) : Text := "; ".toList.intercalate cookies

theorem tokenChars_spec (h : c ∈ tokenChars) : c ≠ ';' ∧ c ≠ '=' ∧ isSpace c = false := by
  have hall : (tokenChars.all fun c => c != ';' && (c != '=' && !isSpace c)) = true := by
    decide +kernel
  simpa using all_eq_true.mp hall c h

variable (cookie : CookieId)

theorem cookiePair_buildSetCookie (duration : Int) (secure : Bool) :
    cookiePair (buildSetCookie cookie.text duration secure) =
      awsalbCookie ++ '=' :: cookie.text := by
  have hne : ∀ c ∈ awsalbCookie ++ '=' :: cookie.text, (c != ';') = true := by
    intro c hc
    rw [mem_append, mem_cons] at hc
    rcases hc with hc | rfl | hc
    · have hall : (awsalbCookie.all fun c => c != ';') = true := by decide +kernel
      exact all_eq_true.mp hall c hc
    · rfl
    · simpa using (tokenChars_spec (cookie.isToken c hc)).1
  have hsplit : ∃ rest, buildSetCookie cookie.text duration secure =
      (awsalbCookie ++ '=' :: cookie.text) ++ ';' :: rest := by
    rw [buildSetCookie]
    simp only [append_assoc, cons_append]
    exact ⟨_, rfl⟩
  rcases hsplit with ⟨rest, hrest⟩
  rw [cookiePair, hrest, takeWhile_append_of_pos hne, takeWhile_cons_of_neg (by decide), append_nil]

theorem splitOn_cookieHeader (first : Text) (rest : List Text)
    (h : ∀ cookie ∈ first :: rest, ';' ∉ cookie) :
    (cookieHeader (first :: rest)).splitOn ';' = first :: rest.map (' ' :: ·) := by
  have hjoin : cookieHeader (first :: rest) =
      [';'].intercalate (first :: rest.map (' ' :: ·)) := by
    clear h
    unfold cookieHeader
    induction rest generalizing first with
    | nil => rfl
    | cons second rest ih =>
      rw [intercalate_cons_cons, ih]
      cases rest with
      | nil | cons => simp
  rw [hjoin]
  refine splitOn_intercalate ';' (fun cookie hcookie => ?_) (cons_ne_nil _ _)
  rcases mem_cons.mp hcookie with rfl | hcookie
  · exact h _ mem_cons_self
  · rcases mem_map.mp hcookie with ⟨c, hc, rfl⟩
    intro hmem
    rcases mem_cons.mp hmem with heq | hmem
    · cases heq
    · exact h c (mem_cons_of_mem _ hc) hmem

/-- A cookie that is sent back among others is carried. -/
theorem carries_cookiePair (duration : Int) (secure : Bool) (before after : List Text)
    (h : ∀ c ∈ before ++ after, ';' ∉ c) :
    Carries (cookieHeader (before ++
      cookiePair (buildSetCookie cookie.text duration secure) :: after)) cookie.text := by
  have hvalue : ∀ c ∈ cookie.text, isSpace c = false := fun c hc =>
    (tokenChars_spec (cookie.isToken c hc)).2.2
  have hpart (blank : Text) (hblank : blank = [] ∨ blank = [' ']) :
      IsAwsalb (blank ++ (awsalbCookie ++ '=' :: cookie.text)) cookie.text := by
    refine ⟨blank ++ awsalbCookie, cookie.text, by rw [append_assoc], ?_, ?_,
      strip_of_forall hvalue⟩
    · rcases hblank with rfl | rfl <;> decide
    · rcases hblank with rfl | rfl <;> decide
  have hnot : ∀ c ∈ before ++ (awsalbCookie ++ '=' :: cookie.text) :: after, ';' ∉ c := by
    intro c hc
    rw [mem_append, mem_cons] at hc
    rcases hc with hc | rfl | hc
    · exact h c (mem_append_left _ hc)
    · intro hmem
      rw [mem_append, mem_cons] at hmem
      rcases hmem with hmem | hmem | hmem
      · exact absurd hmem (by decide)
      · cases hmem
      · exact (tokenChars_spec (cookie.isToken _ hmem)).1 rfl
    · exact h c (mem_append_right _ hc)
  rw [cookiePair_buildSetCookie]
  refine ⟨cookie.ne_nil, ?_⟩
  cases before with
  | nil =>
    rw [nil_append] at hnot ⊢
    rw [splitOn_cookieHeader _ _ hnot]
    exact ⟨_, mem_cons_self, hpart [] (.inl rfl)⟩
  | cons =>
    rw [cons_append] at hnot ⊢
    rw [splitOn_cookieHeader _ _ hnot]
    refine ⟨' ' :: (awsalbCookie ++ '=' :: cookie.text), ?_, hpart [' '] (.inr rfl)⟩
    exact mem_cons_of_mem _ (mem_map_of_mem (by simp))

end LocalEmu.Elbv2
