import LocalEmu.Base.Text
import Mathlib.Data.List.TakeWhile

/-!
# URLs

The part of `urllib.parse` that finds the path of a URL: what is left of it without the scheme,
the authority, the query, the fragment, and the parameters of the last segment. And where a
separator occurs first in a text, which can not be across a character that is not in it.
-/

namespace LocalEmu

open List Option

/-! ### Separators -/

namespace Text

section Separators

variable {α : Type} [DecidableEq α]

/-- The last part of `text.partition(separator)`, if the separator occurs. -/
def after (separator : List α) : List α → Option (List α)
  | [] => if separator = [] then some [] else none
  | c :: text =>
    if separator.isPrefixOf (c :: text) then some ((c :: text).drop separator.length)
    else after separator text

variable {separator : List α}

end Separators

end Text

namespace Url

/-! ### Parts of a URL -/

/-- `scheme_chars`. -/
def isSchemeChar (c : Char) : Bool := c.isAlphanum || c == '+' || c == '-' || c == '.'

/-- The part before a colon is a scheme. -/
def isScheme (text : Text) : Bool := text.head?.any Char.isAlpha && text.all isSchemeChar

variable (netlocOk : Text → Bool) (url : Text)

/-- The scheme of a URL, and the rest. -/
def splitScheme : Text × Text :=
  let head := url.takeWhile (· ≠ ':')
  if ':' ∈ url ∧ isScheme head = true then (head.map Char.toLower, url.drop (head.length + 1))
  else ([], url)

/-- `_splitnetloc`, and the checks of what it finds. -/
def splitNetloc : Option Text :=
  match url with
  | '/' :: '/' :: rest =>
    let netloc := rest.takeWhile fun c => c ≠ '/' && c ≠ '?' && c ≠ '#'
    if netlocOk netloc then some (rest.drop netloc.length) else none
  | _ => some url

/-- The part before the fragment and the query. -/
def beforeQuery : Text := (url.takeWhile (· ≠ '#')).takeWhile (· ≠ '?')

/-- `_splitparams`: what comes before the first semicolon of the last segment. -/
def dropParams : Text → Text
  | [] => []
  | c :: rest => if c = ';' ∧ '/' ∉ rest then [] else c :: dropParams rest

def usesParams : List Text :=
  ["", "ftp", "hdl", "prospero", "http", "https", "shttp", "rtsp", "rtsps", "rtspu", "sip",
    "sips", "mms", "sftp", "tel"].map String.toList

/-- What is removed from the front of a URL: `_WHATWG_C0_CONTROL_OR_SPACE`. -/
def isControlOrSpace (c : Char) : Bool := c.toNat ≤ 32

/-- What is removed everywhere: `_UNSAFE_URL_BYTES_TO_REMOVE`. -/
def isUnsafe (c : Char) : Bool := c == '\t' || c == '\r' || c == '\n'

/-- `urlparse(url).path`, or nothing if the authority is refused. -/
def urlparsePath : Option Text :=
  let (scheme, rest) := splitScheme ((url.dropWhile isControlOrSpace).filter (!isUnsafe ·))
  (splitNetloc netlocOk rest).map fun rest =>
    if scheme ∈ usesParams then dropParams (beforeQuery rest) else beforeQuery rest

/-- `urlparse(url).netloc`. -/
def urlparseNetloc : Text :=
  match (splitScheme ((url.dropWhile isControlOrSpace).filter (!isUnsafe ·))).2 with
  | '/' :: '/' :: rest => rest.takeWhile fun c => c ≠ '/' && c ≠ '?' && c ≠ '#'
  | _ => []

/-! ### Parameters -/

theorem dropParams_eq_self_iff : dropParams url = url ↔ ¬∃ a b, url = a ++ ';' :: b ∧ '/' ∉ b := by
  induction url with
  | nil => simp [dropParams]
  | cons c rest ih =>
    rw [dropParams]
    by_cases hcut : c = ';' ∧ '/' ∉ rest
    · rw [if_pos hcut]
      refine iff_of_false (by simp) fun h => h ⟨[], rest, by rw [hcut.1]; rfl, hcut.2⟩
    · rw [if_neg hcut, cons.injEq, eq_self_iff_true, true_and, ih, not_iff_not]
      constructor
      · rintro ⟨a, b, hrest, hb⟩
        exact ⟨c :: a, b, by rw [hrest]; rfl, hb⟩
      · rintro ⟨a, b, hrest, hb⟩
        cases a with
        | nil =>
          rw [nil_append, cons.injEq] at hrest
          exact absurd ⟨hrest.1, hrest.2 ▸ hb⟩ hcut
        | cons d a =>
          rw [cons_append, cons.injEq] at hrest
          exact ⟨a, b, hrest.2, hb⟩

/-! ### The path -/

/-- The characters of a URL as it is sent: no controls, and no spaces. -/
def Visible : Prop := ∀ c ∈ url, 32 < c.toNat

theorem clean_of_visible {url : Text} (h : Visible url) :
    (url.dropWhile isControlOrSpace).filter (!isUnsafe ·) = url := by
  have hdrop : url.dropWhile isControlOrSpace = url := by
    cases url with
    | nil => rfl
    | cons c =>
      have hc := h c mem_cons_self
      rw [dropWhile_cons, if_neg]
      simp only [isControlOrSpace, decide_eq_true_eq]
      omega
  rw [hdrop, filter_eq_self]
  intro c hc
  have hvisible := h c hc
  by_contra hunsafe
  simp only [isUnsafe, Bool.not_eq_true', Bool.not_eq_false, Bool.or_eq_true, beq_iff_eq]
    at hunsafe
  rcases hunsafe with (rfl | rfl) | rfl <;> exact absurd hvisible (by decide)

theorem clean_append_newline {url : Text} (h : Visible url) :
    ((url ++ ['\n']).dropWhile isControlOrSpace).filter (!isUnsafe ·) = url := by
  have hclean := clean_of_visible h
  cases url with
  | nil => rfl
  | cons c url =>
    have hc : isControlOrSpace c = false := by
      simpa [isControlOrSpace] using h c mem_cons_self
    rw [dropWhile_cons_of_neg (by simp [hc])] at hclean
    rw [cons_append, dropWhile_cons_of_neg (by simp [hc]), ← cons_append, filter_append, hclean]
    exact append_nil _

theorem not_mem_of_isScheme {scheme : Text} (h : isScheme scheme = true) {c : Char}
    (hc : isSchemeChar c = false) : c ∉ scheme := by
  intro hmem
  have hall := all_eq_true.mp (Bool.and_eq_true_iff.mp h).2 c hmem
  rw [hc] at hall
  cases hall

theorem splitScheme_of_isScheme {scheme : Text} (h : isScheme scheme = true) (rest : Text) :
    splitScheme (scheme ++ ':' :: rest) = (scheme.map Char.toLower, rest) := by
  have hcolon := not_mem_of_isScheme h (c := ':') rfl
  have hhead : (scheme ++ ':' :: rest).takeWhile (· ≠ ':') = scheme := by
    rw [takeWhile_append_of_pos]
    · simp
    · intro c hc
      simpa using fun heq : c = ':' => hcolon (heq ▸ hc)
  have hdrop : (scheme ++ ':' :: rest).drop (scheme.length + 1) = rest := by simp
  unfold splitScheme
  simp only [hhead, hdrop]
  exact if_pos ⟨by simp, h⟩

def queryTail : Option Text → Text
  | none => []
  | some query => '?' :: query

theorem beforeQuery_append {a : Text} (ha : ∀ c ∈ a, c ≠ '?' ∧ c ≠ '#') (query : Option Text) :
    beforeQuery (a ++ queryTail query) = a := by
  have hfragment : ∀ c ∈ a, decide (c ≠ '#') = true := fun c hc => decide_eq_true (ha c hc).2
  have hquery : ∀ c ∈ a, decide (c ≠ '?') = true := fun c hc => decide_eq_true (ha c hc).1
  unfold beforeQuery
  rw [takeWhile_append_of_pos hfragment, takeWhile_append_of_pos hquery]
  cases query <;> simp [queryTail]

abbrev IsNetloc (text : Text) : Prop := ∀ c ∈ text, 32 < c.toNat ∧ c ≠ '/' ∧ c ≠ '?' ∧ c ≠ '#'

theorem urlparse_of_netloc {url scheme netloc path : Text} (hscheme : isScheme scheme = true)
    (hnetloc : IsNetloc netloc) (hpath : ∀ c ∈ path, c ≠ '?' ∧ c ≠ '#' ∧ c ≠ ';')
    (hclean : (url.dropWhile isControlOrSpace).filter (!isUnsafe ·) =
      scheme ++ ':' :: '/' :: '/' :: (netloc ++ '/' :: path)) :
    urlparseNetloc url = netloc ∧
      urlparsePath netlocOk url = if netlocOk netloc then some ('/' :: path) else none := by
  have htake : (netloc ++ '/' :: path).takeWhile (fun c => c ≠ '/' && c ≠ '?' && c ≠ '#') =
      netloc := by
    rw [takeWhile_append_of_pos]
    · simp
    · intro c hc
      simpa [and_assoc] using (hnetloc c hc).2
  have hparams : dropParams ('/' :: path) = '/' :: path := by
    rw [dropParams_eq_self_iff]
    rintro ⟨a, b, heq, -⟩
    have hmem : ';' ∈ '/' :: path := heq ▸ mem_append_right a mem_cons_self
    rcases mem_cons.mp hmem with h | h
    · cases h
    · exact (hpath _ h).2.2 rfl
  have hbefore : beforeQuery ('/' :: path) = '/' :: path := by
    have hquery : ∀ c ∈ '/' :: path, c ≠ '?' ∧ c ≠ '#' := by
      intro c hc
      rcases mem_cons.mp hc with rfl | hc
      · decide
      · exact ⟨(hpath c hc).1, (hpath c hc).2.1⟩
    simpa [queryTail] using beforeQuery_append hquery none
  rw [urlparseNetloc, urlparsePath, hclean, splitScheme_of_isScheme hscheme]
  refine ⟨htake, ?_⟩
  simp only [splitNetloc, htake, drop_left]
  by_cases hok : netlocOk netloc = true
  · simp [hok, hbefore, hparams]
  · simp [hok]

end Url

end LocalEmu
