import LocalEmu.Core.Sqs.QueueUrl

/-!
# Queue URLs are read back

A queue URL is read back unless the name of the queue ends with a newline, or the domain
strategy writes a host that is read in another way: without a region in front, every `.queue.`
in the host is taken for the one after the region.
-/

namespace LocalEmu.Sqs.QueueUrl

open List

/-- The characters of regions, accounts and names. -/
def isWordChar (c : Char) : Bool := isNameChar c || c == '.'

theorem isWordChar_plain {c : Char} (h : isWordChar c = true) :
    (32 < c.toNat ∧ c ≠ '/' ∧ c ≠ '?' ∧ c ≠ '#') ∧ c ≠ ';' ∧ c ≠ '\n' := by
  have hlow : ∀ n < 33, isWordChar (Char.ofNat n) = false := by decide
  have hstop : ∀ d, isWordChar d = false → c ≠ d := by
    rintro d hd rfl
    exact Bool.noConfusion (h.symm.trans hd)
  have hlt : 32 < c.toNat := by
    by_contra hle
    exact hstop _ (hlow c.toNat (by omega)) (Char.ofNat_toNat c).symm
  exact ⟨⟨hlt, hstop _ rfl, hstop _ rfl, hstop _ rfl⟩, hstop _ rfl, hstop _ rfl⟩

theorem slash_not_mem {t : Text} (h : ∀ c ∈ t, isWordChar c = true) : '/' ∉ t :=
  fun hc => (isWordChar_plain (h _ hc)).1.2.1 rfl

theorem standardName_cases {name : Text} (h : standardName name = true) :
    ∃ line tail, name = line ++ tail ∧ (tail = [] ∨ tail = ['\n']) ∧ line ≠ [] ∧
      ∀ c ∈ line, isWordChar c = true := by
  simp only [standardName, Bool.and_eq_true, decide_eq_true_eq, all_eq_true] at h
  by_cases hlast : name.getLast? = some '\n'
  · rw [if_pos hlast] at h
    exact ⟨_, _, (dropLast_append_getLast? _ hlast).symm, .inr rfl, h.1.1,
      fun c hc => by rw [isWordChar, h.2 c hc]; rfl⟩
  · rw [if_neg hlast] at h
    exact ⟨_, [], (append_nil _).symm, .inl rfl, h.1.1,
      fun c hc => by rw [isWordChar, h.2 c hc]; rfl⟩

variable (e : Endpoint) (context : RequestContext) (q : Queue) (netlocOk : Text → Bool)

namespace Queue

theorem region_word : ∀ c ∈ q.region, isWordChar c = true := fun c hc => by
  rw [isWordChar, q.region_valid.2 c hc]
  rfl

theorem accountId_word : ∀ c ∈ q.accountId, isWordChar c = true := fun c hc => by
  simp [isWordChar, isNameChar, Char.isAlphanum, q.accountId_valid.2 c hc]

theorem name_cases : ∃ line tail, q.name = line ++ tail ∧ (tail = [] ∨ tail = ['\n']) ∧
    line ≠ [] ∧ ∀ c ∈ line, isWordChar c = true := by
  rcases q.name_valid with h | h
  · exact standardName_cases h
  · rw [fifoName, Bool.and_eq_true, isSuffixOf_iff_suffix] at h
    rcases h with ⟨⟨s, hs⟩, h⟩
    have htake : q.name.take (q.name.length - 5) = s := by simp [← hs]
    rw [htake] at h
    rcases standardName_cases h with ⟨line, tail, heq, rfl | rfl, -, hline⟩
    · rw [append_nil] at heq
      have hword := (forall_mem_append.mp (heq ▸ hline)).1
      exact ⟨q.name, [], (append_nil _).symm, .inl rfl, by simp [← hs],
        hs ▸ forall_mem_append.mpr ⟨hword, by decide⟩⟩
    · have := congrArg getLast? heq
      simp at this

end Queue

/-! ### Hosts -/

theorem authority_isNetloc (strategy : Strategy) {host : Text} (h : Url.IsNetloc host) :
    Url.IsNetloc (authority q strategy host) := by
  have hregion : Url.IsNetloc q.region := fun c hc => (isWordChar_plain (q.region_word c hc)).1
  have hqueue : Url.IsNetloc ("queue.".toList ++ host) := forall_mem_append.mpr ⟨by decide, h⟩
  cases strategy with
  | standard =>
    exact forall_mem_append.mpr ⟨forall_mem_append.mpr ⟨by decide, hregion⟩,
      forall_mem_cons.mpr ⟨by decide, h⟩⟩
  | domain =>
    by_cases hdefault : q.region = "us-east-1".toList
    · rwa [authority, if_pos hdefault, nil_append]
    · rw [authority, if_neg hdefault]
      exact forall_mem_append.mpr ⟨forall_mem_append.mpr ⟨hregion, by decide⟩, hqueue⟩
  | _ => exact h

/-- When the region of a host is read back. -/
theorem regionOfNetloc_authority_iff {strategy : Strategy} (host : Text)
    (h : strategy = .standard ∨ strategy = .domain) :
    regionOfNetloc (authority q strategy host) = some (some q.region) ↔
      (strategy = .domain → q.region ≠ "sqs".toList ∧
        (q.region = "us-east-1".toList → ¬".queue.".toList <:+: "queue.".toList ++ host)) := by
  have hdot : '.' ∉ q.region := fun hc => absurd (q.region_valid.2 _ hc) (by decide)
  have hsplit (rest : Text) :
      (q.region ++ '.' :: rest).splitOn '.' = q.region :: rest.splitOn '.' :=
    splitOn_append_cons_self_of_not_mem hdot _
  have hqueue : ("queue.".toList ++ host).splitOn '.' = "queue".toList :: host.splitOn '.' :=
    splitOn_append_cons_self_of_not_mem (by decide : '.' ∉ "queue".toList) _
  have hsqs (rest : Text) :
      ("sqs.".toList ++ rest).splitOn '.' = "sqs".toList :: rest.splitOn '.' :=
    splitOn_append_cons_self_of_not_mem (by decide : '.' ∉ "sqs".toList) _
  rcases h with rfl | rfl
  · rw [authority, append_assoc, regionOfNetloc, if_pos (prefix_append _ _), hsqs, hsplit]
    exact iff_of_true rfl nofun
  · by_cases hdefault : q.region = "us-east-1".toList
    · rw [authority, if_pos hdefault, nil_append, regionOfNetloc, if_neg (by simp), hqueue,
        hdefault]
      by_cases hmid : ".queue.".toList <:+: "queue.".toList ++ host
      · -- The first label is taken for the region.
        refine iff_of_false ?_ fun h => (h rfl).2 rfl hmid
        rw [if_pos hmid]
        split
        · exact nofun
        · simp
      · rw [if_neg hmid, if_pos (by simp)]
        exact iff_of_true rfl fun _ => ⟨by decide, fun _ => hmid⟩
    · rw [authority, if_neg hdefault, append_assoc, singleton_append, regionOfNetloc, hsplit,
        hqueue]
      by_cases hregion : q.region = "sqs".toList
      · rw [hregion, if_pos ⟨_, rfl⟩]
        exact iff_of_false (by simp) fun h => (h rfl).1 rfl
      · have hstart : ¬"sqs.".toList <+: q.region ++ '.' :: ("queue.".toList ++ host) := by
          rintro ⟨rest, hrest⟩
          have hfirst := hsqs rest
          rw [hrest, hsplit, cons.injEq] at hfirst
          exact hregion hfirst.1
        have hmid : ".queue.".toList <:+: q.region ++ '.' :: ("queue.".toList ++ host) :=
          ⟨q.region, host, append_assoc _ _ _⟩
        rw [if_neg hstart, if_pos hmid, if_neg (by simp)]
        exact iff_of_true rfl fun _ => ⟨hregion, fun h => absurd h hdefault⟩

theorem intercalate_drop_suffix (l : List Text) (k : Nat) :
    intercalate ['.'] (l.drop k) <:+ intercalate ['.'] l := by
  induction l generalizing k with
  | nil => rw [drop_nil]
  | cons a l ih =>
    cases k with
    | zero => exact suffix_rfl
    | succ k =>
      refine (ih k).trans ?_
      cases l with
      | nil => exact nil_suffix
      | cons b l =>
        rw [intercalate_cons_cons]
        exact suffix_append _ _

theorem strategyAndHost_cases (h : e.strategy ≠ .off) :
    Url.IsNetloc (strategyAndHost e context).2 ∧
      ((strategyAndHost e context).1 = .path ∨ (strategyAndHost e context).1 = .standard ∨
        (strategyAndHost e context).1 = .domain) := by
  have hdrop (k : Nat) :
      Url.IsNetloc (intercalate ['.'] ((context.host.splitOn '.').drop k)) := by
    intro c hc
    have hmem := (intercalate_drop_suffix _ k).subset hc
    rw [intercalate_splitOn] at hmem
    exact context.host_valid c hmem
  by_cases hdynamic : e.strategy = .dynamic
  · rw [strategyAndHost, if_pos hdynamic, guessEndpointStrategyAndHost]
    split_ifs
    · exact ⟨hdrop 2, by simp⟩
    · exact ⟨hdrop 1, by simp⟩
    · exact ⟨hdrop 2, by simp⟩
    · exact ⟨context.host_valid, by simp⟩
  · rw [strategyAndHost, if_neg hdynamic]
    refine ⟨e.host_valid, ?_⟩
    cases hs : e.strategy <;> simp_all

/-! ### Paths -/

def location (strategy : Strategy) (name : Text) : Text :=
  (if strategy = .path then "queue".toList ++ '/' :: (q.region ++ ['/']) else []) ++
    (q.accountId ++ '/' :: name)

theorem location_word (strategy : Strategy) {line : Text}
    (hline : ∀ c ∈ line, isWordChar c = true) :
    ∀ c ∈ location q strategy line, isWordChar c = true ∨ c = '/' := by
  have hword {t : Text} (h : ∀ c ∈ t, isWordChar c = true) :
      ∀ c ∈ t, isWordChar c = true ∨ c = '/' := fun c hc => .inl (h c hc)
  refine forall_mem_append.mpr ⟨?_, forall_mem_append.mpr
    ⟨hword q.accountId_word, forall_mem_cons.mpr ⟨.inr rfl, hword hline⟩⟩⟩
  by_cases hpath : strategy = .path
  · rw [if_pos hpath]
    exact forall_mem_append.mpr ⟨by decide, forall_mem_cons.mpr
      ⟨.inr rfl, forall_mem_append.mpr ⟨hword q.region_word, by decide⟩⟩⟩
  · rw [if_neg hpath]
    exact forall_mem_nil _

theorem splitOn_location (strategy : Strategy) {line : Text} (hline : '/' ∉ line) :
    (('/' :: location q strategy line).dropWhile (· == '/')).splitOn '/' =
      if strategy = .path then ["queue".toList, q.region, q.accountId, line]
      else [q.accountId, line] := by
  have haccount := slash_not_mem q.accountId_word
  have hlast : (q.accountId ++ '/' :: line).splitOn '/' = [q.accountId, line] := by
    rw [splitOn_append_cons_self_of_not_mem haccount, splitOn_eq_singleton hline]
  by_cases hpath : strategy = .path
  · rw [if_pos hpath, location, if_pos hpath, append_assoc, cons_append, append_assoc]
    have hdrop (rest : Text) :
        ('/' :: ("queue".toList ++ rest)).dropWhile (· == '/') = "queue".toList ++ rest := rfl
    rw [hdrop, splitOn_append_cons_self_of_not_mem (by decide), singleton_append,
      splitOn_append_cons_self_of_not_mem (slash_not_mem q.region_word), hlast]
  · rw [if_neg hpath, location, if_neg hpath, nil_append, dropWhile_cons_of_pos rfl, ← hlast]
    rcases exists_cons_of_length_eq_add_one q.accountId_valid.1 with ⟨d, ds, hd⟩
    have hslash : ¬(d == '/') = true := fun h => haccount (by simp [hd, eq_of_beq h])
    rw [hd, cons_append, dropWhile_cons, if_neg hslash]

theorem rdropWhile_append {a b : Text} (hb : b ≠ []) (h : '/' ∉ b) :
    (a ++ b).rdropWhile (· == '/') = a ++ b := by
  rw [rdropWhile_eq_self_iff]
  intro hne
  rw [getLast_append_of_ne_nil hne hb]
  simpa using fun heq : b.getLast hb = '/' => h (heq ▸ getLast_mem hb)

/-- A URL with a scheme, an authority and a path. -/
def assemble (ssl : Bool) (strategy : Strategy) (host name : Text) : Text :=
  scheme ssl ++ ':' :: '/' :: '/' ::
    (authority q strategy host ++ '/' :: location q strategy name)

theorem assemble_append (ssl : Bool) (strategy : Strategy) (host name tail : Text) :
    assemble q ssl strategy host (name ++ tail) = assemble q ssl strategy host name ++ tail := by
  simp [assemble, location]

theorem url_eq {strategy : Strategy} {host : Text}
    (hs : strategyAndHost e context = (strategy, host)) (hhost : Url.IsNetloc host)
    (h : strategy = .path ∨ strategy = .standard ∨ strategy = .domain) :
    ∃ ssl, url e context q = assemble q ssl strategy host q.name := by
  have hauthority : '/' ∉ authority q strategy host := fun hc =>
    (authority_isNetloc q strategy hhost _ hc).2.1 rfl
  unfold url assemble
  simp only [hs]
  refine ⟨if e.strategy = .dynamic ∨ strategy = .standard then context.ssl else e.ssl, ?_⟩
  rcases h with rfl | h
  · rw [if_pos rfl, ← append_assoc, ← append_assoc,
      rdropWhile_append q.region_valid.1 (slash_not_mem q.region_word)]
    simp [location]
  · have hpath : strategy ≠ .path := by rcases h with rfl | rfl <;> decide
    have hne : authority q strategy host ≠ [] := by
      rcases h with rfl | rfl
      · exact nofun
      · exact append_ne_nil_of_right_ne_nil _ nofun
    rw [if_neg hpath, append_nil, rdropWhile_append hne hauthority]
    simp [location, hpath]

theorem parseQueueUrl_assemble (ssl : Bool) {strategy : Strategy} {host line tail : Text}
    (hhost : Url.IsNetloc host) (hline : ∀ c ∈ line, isWordChar c = true) (hne : line ≠ [])
    (htail : tail = [] ∨ tail = ['\n']) :
    parseQueueUrl netlocOk (assemble q ssl strategy host (line ++ tail)) =
      if netlocOk (authority q strategy host) then
        (if strategy = .path then some (some q.region) else
          regionOfNetloc (authority q strategy host)).map fun region => (q.accountId, region, line)
      else none := by
  have hauthority := authority_isNetloc q strategy hhost
  have hlocation := location_word q strategy hline
  have hvisible : Url.Visible (assemble q ssl strategy host line) := by
    refine forall_mem_append.mpr ⟨by cases ssl <;> decide, forall_mem_cons.mpr
      ⟨by decide, forall_mem_cons.mpr ⟨by decide, forall_mem_cons.mpr ⟨by decide,
      forall_mem_append.mpr ⟨fun c hc => (hauthority c hc).1, forall_mem_cons.mpr
      ⟨by decide, fun c hc => ?_⟩⟩⟩⟩⟩⟩
    rcases hlocation c hc with h | rfl
    · exact (isWordChar_plain h).1.1
    · decide
  have hclean : ((assemble q ssl strategy host line ++ tail).dropWhile
      Url.isControlOrSpace).filter (!Url.isUnsafe ·) = assemble q ssl strategy host line := by
    rcases htail with rfl | rfl
    · rw [append_nil, Url.clean_of_visible hvisible]
    · exact Url.clean_append_newline hvisible
  have hstrip : (assemble q ssl strategy host (line ++ tail)).rdropWhile (· == '/') =
      assemble q ssl strategy host (line ++ tail) := by
    have hslash : '/' ∉ line ++ tail := by
      rcases htail with rfl | rfl <;> simp [slash_not_mem hline]
    rw [← nil_append (line ++ tail), assemble_append,
      rdropWhile_append (append_ne_nil_of_left_ne_nil hne tail) hslash]
  rcases Url.urlparse_of_netloc netlocOk (by cases ssl <;> decide) hauthority (fun c hc => by
    rcases hlocation c hc with h | rfl
    · exact ⟨(isWordChar_plain h).1.2.2.1, (isWordChar_plain h).1.2.2.2, (isWordChar_plain h).2.1⟩
    · decide) hclean with ⟨hnetloc, hpath⟩
  rw [parseQueueUrl, hstrip, assemble_append, hnetloc, hpath]
  by_cases hok : netlocOk (authority q strategy host) = true
  · rw [if_pos hok, if_pos hok, Option.bind_some]
    simp only [splitOn_location q strategy (slash_not_mem hline)]
    by_cases hpath : strategy = .path
    · simp [hpath]
    · simp [hpath]
  · simp [hok]

/-- When a queue URL is read back. -/
theorem parse_url_iff (h : e.strategy ≠ .off) :
    parseQueueUrl netlocOk (url e context q) = some (q.accountId, some q.region, q.name) ↔
      '\n' ∉ q.name ∧
        netlocOk (authority q (strategyAndHost e context).1 (strategyAndHost e context).2) = true ∧
        ((strategyAndHost e context).1 = .domain → q.region ≠ "sqs".toList ∧
          (q.region = "us-east-1".toList →
            ¬".queue.".toList <:+: "queue.".toList ++ (strategyAndHost e context).2)) := by
  have hcases := strategyAndHost_cases e context h
  rcases hs : strategyAndHost e context with ⟨strategy, host⟩
  rw [hs] at hcases
  rcases hcases with ⟨hhost, hstrategy⟩
  rcases url_eq e context q hs hhost hstrategy with ⟨ssl, hurl⟩
  rcases q.name_cases with ⟨line, tail, hname, htail, hne, hline⟩
  have hend : '\n' ∉ q.name ↔ line = q.name := by
    have hnl : '\n' ∉ line := fun hc => (isWordChar_plain (hline _ hc)).2.2 rfl
    rcases htail with rfl | rfl <;> simp [hname, hnl]
  rw [hurl, hend]
  nth_rw 1 [hname]
  rw [parseQueueUrl_assemble q netlocOk ssl hhost hline hne htail]
  by_cases hok : netlocOk (authority q strategy host) = true
  · rw [if_pos hok]
    rcases hstrategy with rfl | hstrategy
    · simp [hok]
    · have hpath : strategy ≠ .path := by rcases hstrategy with rfl | rfl <;> decide
      rw [if_neg hpath, ← regionOfNetloc_authority_iff q host hstrategy]
      cases regionOfNetloc (authority q strategy host) <;> simp [hok, and_comm]
  · simp [hok]

/-- A queue of the default region, on a host that has a label `queue` itself. -/
def labelled (strategy : Strategy) : Endpoint × RequestContext × Queue :=
  let host := "my.queue.localhost:4566".toList
  (⟨false, host, strategy, by decide⟩, ⟨false, host, by decide⟩,
    ⟨"us-east-1".toList, "000000000000".toList, "q".toList, by decide, by decide, by decide⟩)

theorem parse_url_of_standard :
    parseQueueUrl (fun _ => true) (url (labelled .standard).1 (labelled .standard).2.1
      (labelled .standard).2.2) =
      some ("000000000000".toList, some "us-east-1".toList, "q".toList) :=
  (parse_url_iff (labelled .standard).1 (labelled .standard).2.1 (labelled .standard).2.2
    (fun _ => true) nofun).mpr ⟨by decide, rfl, nofun⟩

/-- The URL of a queue of the default region is refused. -/
theorem second_queue_label :
    parseQueueUrl (fun _ => true) (url (labelled .domain).1 (labelled .domain).2.1
      (labelled .domain).2.2) = none := by
  decide

end LocalEmu.Sqs.QueueUrl
