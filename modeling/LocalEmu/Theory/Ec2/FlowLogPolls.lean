import LocalEmu.Core.Ec2.FlowLog

/-!
# What The Flow Log Poller Records

An observer of the file remembers what it held at the last successful poll since
it was truncated. The lines that were completed then are what the poller should
have recorded.

The poller keeps up with the observer if the file ends with a newline whenever it
is polled and does not change during a poll, and if every truncation is noticed
and followed by two polls: the first one only resets the offset.
-/

namespace LocalEmu.Ec2

open List Option

variable {py : Builtins} {accountId : Text}

/-! ### The lines of a poll -/

theorem before_of_searchLogPrefix (line : Text) (h : searchLogPrefix line ≠ none) :
    (Text.before flowLogMarker line).isSome = true := by
  induction line with
  | nil => exact absurd rfl h
  | cons c line ih =>
    rw [Text.before]
    split
    · rfl
    · next hmarker =>
        rw [searchLogPrefix, matchLogPrefix, if_neg hmarker] at h
        rw [isSome_map]
        exact ih h

/-- A line without the marker has no entry. -/
theorem entryOf_eq (line : Text) :
    entryOf py accountId line = parseIptablesLogLine py accountId line := by
  rw [entryOf]
  split
  · rfl
  · next hmarker =>
      have hnone : searchLogPrefix line = none := by
        by_contra hsome
        exact hmarker (before_of_searchLogPrefix _ hsome)
      rw [parseIptablesLogLine, hnone, bind_none]

theorem toNat_of_isDigit {c : Char} (h : c.isDigit = true) : 48 ≤ c.toNat ∧ c.toNat ≤ 57 := by
  rw [Char.isDigit, Bool.and_eq_true, decide_eq_true_eq, decide_eq_true_eq] at h
  exact ⟨h.1, h.2⟩

variable (size : Nat)

theorem sizeLine_chars : ∀ c ∈ sizeMarker ++ Nat.toDigits 10 size,
    c.toNat < 128 ∧ Text.endsLine c = false := by
  intro c hc
  rcases mem_append.mp hc with hc | hc
  · have hall : sizeMarker.all (fun c => decide (c.toNat < 128) && !Text.endsLine c) = true := rfl
    simpa using all_eq_true.mp hall c hc
  · have hdigit := toNat_of_isDigit (Nat.isDigit_of_mem_toDigits (by decide) (by decide) hc)
    refine ⟨by omega, decide_eq_false ?_⟩
    simp
    omega

variable (readBytes : Int) (content : List UInt8)

theorem linesOf_probeOutput : Text.linesOf (probeOutput size readBytes content) =
      (sizeMarker ++ Nat.toDigits 10 size) :: Text.linesOf (tailFrom readBytes content) := by
  rw [probeOutput, Text.linesOf, Text.decodeUtf8_newline,
    Text.decodeUtf8_asciiBytes _ fun c hc => (sizeLine_chars _ c hc).1,
    Text.splitlines_line _ _ fun c hc => (sizeLine_chars _ c hc).2, Text.linesOf]

/-- No line of the file looks like the line with the size. -/
def Unmarked : Prop :=
  ∀ line ∈ Text.linesOf content, sizeMarker.isPrefixOf line = false

instance (content : List UInt8) : Decidable (Unmarked content) :=
  inferInstanceAs (Decidable (∀ line ∈ Text.linesOf content, sizeMarker.isPrefixOf line = false))

theorem foldl_splitLine (size : Option Int) (lines before : List Text)
    (h : ∀ line ∈ lines, sizeMarker.isPrefixOf line = false) :
    lines.foldl (splitLine py) (size, before) = (size, before ++ lines) := by
  induction lines generalizing before with
  | nil => rw [foldl_nil, append_nil]
  | cons line lines ih =>
    rw [foldl_cons, splitLine, h _ mem_cons_self, if_neg (by simp),
      ih _ fun l hl => h l (mem_cons_of_mem line hl), append_assoc,
      singleton_append]

theorem foldl_probeOutput (h : Unmarked (tailFrom readBytes content)) :
    (Text.linesOf (probeOutput size readBytes content)).foldl (splitLine py) (none, []) =
      (some (size : Int), Text.linesOf (tailFrom readBytes content)) := by
  have hmarker : sizeMarker.isPrefixOf (sizeMarker ++ Nat.toDigits 10 size) = true :=
    isPrefixOf_iff_prefix.mpr (prefix_append _ _)
  rw [linesOf_probeOutput, foldl_cons, splitLine, if_pos hmarker, drop_left,
    py.int_digits, foldl_splitLine _ _ _ h, nil_append]

/-- What a poll does. -/
theorem pollOnce_of_reset (h : Unmarked (tailFrom readBytes content))
    (hsize : (size : Int) < readBytes) :
    pollOnce py accountId readBytes (probeOutput size readBytes content) = (0, []) := by
  rw [pollOnce, foldl_probeOutput _ _ _ h]
  simp [hsize]

theorem pollOnce_of_grown (h : Unmarked (tailFrom readBytes content)) (hsize : readBytes ≤ size) :
    pollOnce py accountId readBytes (probeOutput size readBytes content) =
      ((size : Int), (Text.linesOf (tailFrom readBytes content)).filterMap
        (parseIptablesLogLine py accountId)) := by
  have hentries : entryOf py accountId = parseIptablesLogLine py accountId := funext entryOf_eq
  rw [pollOnce, foldl_probeOutput _ _ _ h]
  simp [hsize, hentries]

/-! ### The observer -/

/-- The part of a file up to its last newline. -/
def completed : List UInt8 :=
  (content.reverse.dropWhile fun b => decide (b ≠ 10)).reverse

/-- The entries of the completed lines of a file. -/
def entriesOf (py : Builtins) (accountId : Text) (content : List UInt8) : List FlowLogEntry :=
  (Text.linesOf (completed content)).filterMap (parseIptablesLogLine py accountId)

theorem completed_eq {content : List UInt8} (h : Text.Complete content) :
    completed content = content := by
  rcases h with rfl | ⟨start, rfl⟩
  · rfl
  · rw [completed]
    simp

namespace FlowLog

/-- What an observer remembers: the entries of the completed lines that were there at a poll and
    were truncated since, and the file at the last successful poll since then. -/
structure Observer where
  past : List FlowLogEntry
  seen : List UInt8

namespace Observer

/-- Before the first poll. -/
def initial : Observer := ⟨[], []⟩

/-- The entries of the lines that were completed and there at some poll. -/
def expected (py : Builtins) (accountId : Text) (o : Observer) : List FlowLogEntry :=
  o.past ++ entriesOf py accountId o.seen

def observe (py : Builtins) (accountId : Text) (s : FlowLog) (o : Observer) :
    FlowLogEvent → Observer
  | .truncate => ⟨o.expected py accountId, []⟩
  | .poll => { o with seen := s.content }
  | _ => o

end Observer

def watch (py : Builtins) (accountId : Text) (s : FlowLog × Observer) (event : FlowLogEvent) :
    Option (FlowLog × Observer) :=
  (s.1.step py accountId event).map fun s' => (s', s.2.observe py accountId s.1 event)

/-- A file is truncated only if all that was seen at the last poll is recorded. A
    poll finds a file that has not changed since the size was printed, that ends
    with a newline, and none of whose lines looks like the one with the size. The
    first poll after a truncation finds it shorter than the offset. -/
def Fair (s : FlowLog × Observer) : FlowLogEvent → Prop
  | .truncate => s.2.seen = [] ∨ s.1.readBytes = s.2.seen.length
  | .poll => s.1.probed = some s.1.content.length ∧ Text.Complete s.1.content ∧
      Unmarked s.1.content ∧
      (s.2.seen = [] → s.1.readBytes = 0 ∨ (s.1.content.length : Int) < s.1.readBytes)
  | _ => True

/-- The poller has recorded the start of the file up to its offset. -/
structure Reading (py : Builtins) (accountId : Text) (s : FlowLog) (o : Observer)
    (read : List UInt8) : Prop where
  offset : s.readBytes = read.length
  start : read <+: s.content
  complete : Text.Complete read
  recorded : s.recorded = o.past ++ entriesOf py accountId read

/-- The poller has recorded what was seen, or it has read nothing of the file since
    it was truncated. -/
inductive Following (py : Builtins) (accountId : Text) (s : FlowLog × Observer) : Prop
  | current (h : Reading py accountId s.1 s.2 s.2.seen)
  | restarted (h : Reading py accountId s.1 s.2 [])
  | behind (seen : s.2.seen = []) (offset : 0 < s.1.readBytes) (recorded : s.1.recorded = s.2.past)

theorem entriesOf_nil : entriesOf py accountId [] = [] := rfl

theorem reading_poll {s : FlowLog} {o : Observer} {read : List UInt8}
    (h : Reading py accountId s o read) (hcomplete : Text.Complete s.content)
    (hunmarked : Unmarked s.content) :
    pollOnce py accountId s.readBytes (probeOutput s.content.length s.readBytes s.content) =
      ((s.content.length : Int), (Text.linesOf (s.content.drop read.length)).filterMap
        (parseIptablesLogLine py accountId)) ∧
    o.past ++ entriesOf py accountId s.content = s.recorded ++
      (Text.linesOf (s.content.drop read.length)).filterMap
        (parseIptablesLogLine py accountId) := by
  rcases h.start with ⟨rest, hrest⟩
  have hdrop : s.content.drop read.length = rest := by rw [← hrest, drop_left]
  have htail : tailFrom s.readBytes s.content = rest := by
    rw [tailFrom, if_neg (by rw [h.offset]; omega), h.offset, Int.toNat_natCast, hdrop]
  have hlines : Text.linesOf s.content = Text.linesOf read ++ Text.linesOf rest := by
    rw [← hrest, Text.linesOf_append _ _ h.complete]
  have hrestUnmarked : Unmarked (tailFrom s.readBytes s.content) := by
    intro line hline
    rw [htail] at hline
    exact hunmarked _ (hlines ▸ mem_append_right _ hline)
  constructor
  · rw [pollOnce_of_grown _ _ _ hrestUnmarked, htail, hdrop]
    rw [h.offset, ← hrest, length_append]
    omega
  · rw [hdrop, h.recorded, append_assoc, entriesOf, completed_eq hcomplete, hlines,
      filterMap_append,
      entriesOf, completed_eq h.complete]

theorem following_poll {s : FlowLog} {o : Observer} {read : List UInt8}
    (h : Reading py accountId s o read) (hcomplete : Text.Complete s.content)
    (hunmarked : Unmarked s.content) (hprobed : s.probed = some s.content.length)
    {s' : FlowLog × Observer} (hstep : watch py accountId (s, o) .poll = some s') :
    Reading py accountId s'.1 s'.2 s'.2.seen ∧ s'.1.recorded = s'.2.expected py accountId := by
  rcases reading_poll h hcomplete hunmarked with ⟨hpoll, hentries⟩
  simp only [watch, step, hprobed, map_some, some.injEq] at hstep
  subst hstep
  rw [hpoll]
  refine ⟨⟨rfl, prefix_refl _, hcomplete, hentries.symm⟩, ?_⟩
  exact hentries.symm

/-- The invariant is preserved. -/
theorem step_following {s s' : FlowLog × Observer} {event : FlowLogEvent} (hfair : Fair s event)
    (hs : Following py accountId s) (hstep : Takes (watch py accountId) s event s') :
    Following py accountId s' := by
  rcases s with ⟨s, o⟩
  rw [Takes] at hstep
  cases event with
  | append =>
    rw [watch, step, map_some, some.injEq] at hstep
    subst hstep
    cases hs with
    | current h =>
      exact .current ⟨h.offset, h.start.trans (prefix_append _ _), h.complete, h.recorded⟩
    | restarted h =>
      exact .restarted ⟨h.offset, nil_prefix, h.complete, h.recorded⟩
    | behind seen offset recorded => exact .behind seen offset recorded
  | truncate =>
    rw [watch, step, map_some, some.injEq] at hstep
    subst hstep
    -- All that was seen is recorded, or nothing was seen.
    have hrecorded : s.recorded = o.expected py accountId := by
      rw [Observer.expected]
      cases hs with
      | current h => exact h.recorded
      | restarted h =>
        have hseen : o.seen = [] := by
          rcases hfair with hnil | hoffset
          · exact hnil
          · rw [h.offset] at hoffset
            exact length_eq_zero_iff.mp (by simpa using hoffset.symm)
        rw [hseen]
        exact h.recorded
      | behind seen offset recorded =>
        rw [show o.seen = [] from seen, entriesOf_nil, append_nil]
        exact recorded
    by_cases hzero : s.readBytes = 0
    · refine .restarted ⟨hzero, nil_prefix, .inl rfl, ?_⟩
      rw [entriesOf_nil, append_nil]
      exact hrecorded
    · refine .behind rfl ?_ hrecorded
      have hle : 0 ≤ s.readBytes := by
        cases hs with
        | current h => rw [h.offset]; omega
        | restarted h => rw [h.offset]; omega
        | behind seen offset => exact le_of_lt offset
      show 0 < s.readBytes
      omega
  | probe =>
    rw [watch, step] at hstep
    cases hprobed : s.probed with
    | some =>
      rw [hprobed] at hstep
      cases hstep
    | none =>
      rw [hprobed, map_some, some.injEq] at hstep
      subst hstep
      cases hs with
      | current h => exact .current ⟨h.offset, h.start, h.complete, h.recorded⟩
      | restarted h => exact .restarted ⟨h.offset, h.start, h.complete, h.recorded⟩
      | behind seen offset recorded => exact .behind seen offset recorded
  | poll =>
    rcases hfair with ⟨hprobed, hcomplete, hunmarked, hnoticed⟩
    cases hs with
    | current h => exact .current (following_poll h hcomplete hunmarked hprobed hstep).1
    | restarted h => exact .current (following_poll h hcomplete hunmarked hprobed hstep).1
    | behind seen offset recorded =>
      -- The poll only resets the offset.
      have hshort : (s.content.length : Int) < s.readBytes :=
        (hnoticed seen).resolve_left (by show s.readBytes ≠ 0; exact ne_of_gt offset)
      have htail : tailFrom s.readBytes s.content = [] := by
        rw [tailFrom]
        split
        · rfl
        · exact drop_eq_nil_of_le (by omega)
      have hunmarked : Unmarked (tailFrom s.readBytes s.content) := by
        rw [htail]
        exact fun line hline => absurd hline not_mem_nil
      replace hprobed : s.probed = some s.content.length := hprobed
      simp only [watch, step, hprobed, map_some, some.injEq] at hstep
      subst hstep
      rw [pollOnce_of_reset _ _ _ hunmarked hshort]
      exact .restarted ⟨rfl, nil_prefix, .inl rfl, by
        rw [entriesOf_nil, append_nil, append_nil]
        exact recorded⟩
  | fail =>
    rw [watch, step, map_some, some.injEq] at hstep
    subst hstep
    cases hs with
    | current h => exact .current ⟨h.offset, h.start, h.complete, h.recorded⟩
    | restarted h => exact .restarted ⟨h.offset, h.start, h.complete, h.recorded⟩
    | behind seen offset recorded => exact .behind seen offset recorded

theorem initial_following : Following py accountId (initial, Observer.initial) :=
  .current ⟨rfl, nil_prefix, .inl rfl, rfl⟩

/-- In every run whose steps are all fair, and at whose end a poll finds a file
    that is not shorter than the offset, the entries that are recorded are those of
    the lines that were completed and there at some poll, in their order. -/
theorem recorded_exactly_once (labels : List FlowLogEvent) (u w : FlowLog × Observer)
    (hrun : Runs (Takes (watch py accountId)) (initial, Observer.initial) labels u)
    (hlast : Runs (Takes (watch py accountId)) u [.probe, .poll] w)
    (hfair : Along (Takes (watch py accountId)) Fair (initial, Observer.initial)
      (labels ++ [.probe, .poll]))
    (hcaught : u.1.readBytes ≤ u.1.content.length) :
    w.1.recorded = w.2.expected py accountId := by
  have hu : Following py accountId u :=
    hrun.invariant_along (fun _ _ _ hC hs hstep => step_following hC hs hstep)
      (Runs.along_left hfair) initial_following
  have hfairLast := Runs.along_append hfair hrun
  cases hlast with
  | cons _ v _ _ _ hprobe hrest =>
    have hv := step_following (Runs.along_head hfairLast) hu hprobe
    have hfairPoll := Runs.along_head (Runs.along_tail hfairLast hprobe)
    cases hrest with
    | cons _ t _ _ _ hpoll hnil =>
      cases hnil
      rcases hfairPoll with ⟨hprobed, hcomplete, hunmarked, hnoticed⟩
      cases hv with
      | current h => exact (following_poll h hcomplete hunmarked hprobed hpoll).2
      | restarted h => exact (following_poll h hcomplete hunmarked hprobed hpoll).2
      | behind seen offset =>
        -- The probe does not change the offset or the file.
        have hsame : v.1.readBytes = u.1.readBytes ∧ v.1.content = u.1.content := by
          rw [Takes, watch, step] at hprobe
          cases hu' : u.1.probed with
          | some =>
            rw [hu'] at hprobe
            cases hprobe
          | none =>
            rw [hu', map_some, some.injEq] at hprobe
            rw [← hprobe]
            exact ⟨rfl, rfl⟩
        have hshort : (v.1.content.length : Int) < v.1.readBytes :=
          (hnoticed seen).resolve_left (ne_of_gt offset)
        rw [hsame.2] at hshort
        omega

instance (s : FlowLog × Observer) : ∀ event : FlowLogEvent, Decidable (Fair s event)
  | .append _ => inferInstanceAs (Decidable True)
  | .truncate => inferInstanceAs (Decidable (s.2.seen = [] ∨ s.1.readBytes = s.2.seen.length))
  | .probe => inferInstanceAs (Decidable True)
  | .poll => inferInstanceAs (Decidable (s.1.probed = some s.1.content.length ∧
      Text.Complete s.1.content ∧ Unmarked s.1.content ∧
      (s.2.seen = [] → s.1.readBytes = 0 ∨ (s.1.content.length : Int) < s.1.readBytes)))
  | .fail => inferInstanceAs (Decidable True)

/-- `int` on a text of decimal digits. -/
def intOfDigits (text : Text) : Option Int :=
  if text ≠ [] ∧ text.all Char.isDigit = true then some (Nat.ofDigitChars 10 text 0 : Int) else none

theorem intOfDigits_toDigits (n : Nat) : intOfDigits (Nat.toDigits 10 n) = some (n : Int) := by
  have hdigits : (Nat.toDigits 10 n).all Char.isDigit = true := by
    rw [List.all_eq_true]
    exact fun c hc => Nat.isDigit_of_mem_toDigits (by decide) (by decide) hc
  rw [intOfDigits, if_pos ⟨Nat.toDigits_ne_nil, hdigits⟩,
    Nat.ofDigitChars_toDigits (by decide) (by decide)]

def asciiBuiltins : Builtins := ⟨List.map Char.toUpper, intOfDigits, intOfDigits_toDigits⟩

/-- The bytes of a line for a packet that is accepted. -/
def packetLine (src : String) : List UInt8 :=
  Text.asciiBytes ("LE-FL:0a1b2c3d:I:A: SRC=".toList ++ src.toList ++
    " DST=10.0.0.2 PROTO=TCP SPT=40000 DPT=80\n".toList)

/-- Two packets, a truncation after they were read, and one packet more. -/
def fairLabels : List FlowLogEvent :=
  [.append (packetLine "10.0.0.1"), .probe, .poll, .append (packetLine "10.0.0.3"), .probe, .fail,
    .probe, .poll, .truncate, .probe, .poll, .append (packetLine "10.0.0.4")]

theorem recorded_exactly_once_of_fairLabels :
    ∃ u w : FlowLog × Observer,
      Runs (Takes (watch asciiBuiltins [])) (initial, Observer.initial) fairLabels u ∧
      w.1.recorded.length = 3 ∧ w.1.recorded = w.2.expected asciiBuiltins [] := by
  have hu : (takeAll (watch asciiBuiltins []) (initial, Observer.initial) fairLabels).isSome =
      true := by
    decide +kernel
  rcases isSome_iff_exists.mp hu with ⟨u, hu⟩
  have hrun := Runs.of_takeAll _ _ u hu
  have hcaught : ((takeAll (watch asciiBuiltins []) (initial, Observer.initial)
      fairLabels).any fun u => decide (u.1.readBytes ≤ u.1.content.length)) = true := by
    decide +kernel
  have hw : ((takeAll (watch asciiBuiltins []) (initial, Observer.initial) fairLabels).any fun u =>
      (takeAll (watch asciiBuiltins []) u [.probe, .poll]).any fun w =>
        decide (w.1.recorded.length = 3)) = true := by
    decide +kernel
  rw [hu, any_some] at hcaught hw
  rcases (any_eq_true _ _).mp hw with ⟨w, hw, hthree⟩
  have hfair := Runs.along_of_check (C := fun s event => decide (Fair s event))
    (fairLabels ++ [.probe, .poll]) (initial, Observer.initial)
    (show checkAlong (watch asciiBuiltins []) _ _ _ = true by decide +kernel)
  refine ⟨u, w, hrun, of_decide_eq_true hthree, ?_⟩
  exact recorded_exactly_once _ u w hrun (Runs.of_takeAll _ u w hw)
    (fun before event after t hsplit hbefore =>
      of_decide_eq_true (hfair _ _ _ t hsplit hbefore))
    (of_decide_eq_true hcaught)

/-- A line that is appended between the size and the rest is recorded twice. -/
theorem recorded_twice :
    ¬∀ (labels : List FlowLogEvent) (w : FlowLog × Observer),
      Runs (Takes (watch asciiBuiltins [])) (initial, Observer.initial)
        (labels ++ [.probe, .poll]) w →
      w.1.recorded.Perm (w.2.expected asciiBuiltins []) := by
  intro h
  have htwice : ((takeAll (watch asciiBuiltins []) (initial, Observer.initial)
      [.probe, .append (packetLine "10.0.0.1"), .poll, .probe, .poll]).any fun w =>
        decide (w.1.recorded.length = 2 ∧ (w.2.expected asciiBuiltins []).length = 1)) = true := by
    decide +kernel
  rcases (any_eq_true _ _).mp htwice with ⟨w, hw, hlengths⟩
  have hperm := h [.probe, .append (packetLine "10.0.0.1"), .poll] w (Runs.of_takeAll _ _ w hw)
  have hlength := hperm.length_eq
  rw [(of_decide_eq_true hlengths).1, (of_decide_eq_true hlengths).2] at hlength
  cases hlength

end FlowLog

end LocalEmu.Ec2
