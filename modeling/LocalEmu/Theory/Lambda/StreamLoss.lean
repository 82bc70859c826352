import Mathlib.Data.List.TakeWhile
import LocalEmu.Base.Run
import LocalEmu.Core.Lambda.StreamPoller

/-!
# Records A Stream Poller Loses

An event leaves the loop in one of three ways: the processor is done with it, it
is set aside because of its age, or it is still there when the loop ends. Two
turns of the loop lose events. If the attempts are used up while events are set
aside, these are sent to the dead-letter queue and the ones that are still there
are not. And if the lowest item of a report is not among the events any more,
because it was done before or set aside, then no event is tried again. These are
the only turns in which an event is lost.
-/

namespace LocalEmu.Lambda.StreamPoller

open List Option

variable {ρ ε η : Type} (poller : StreamPoller ρ ε)

/-- The report of a call names items, and the lowest of them is this one. -/
def Reports (validItemIds : List String) (outcome : Outcome η) (lowest : String) : Prop :=
  ∃ payload error failed, outcome = .partialFailure payload error ∧
    getBatchItemFailures payload validItemIds = some failed ∧
    minBy poller.int failed = some lowest

/-- The call was a success and had the event, or the event comes before the lowest
    item that the call says has failed. -/
def Settles (validItemIds : List String) (call : List ε × Outcome η) (event : ε) : Prop :=
  (call.2 = .success ∧ event ∈ call.1) ∨
  ∃ lowest before item after, poller.Reports validItemIds call.2 lowest ∧
    call.1 = before ++ item :: after ∧ poller.sequenceNumber item = lowest ∧ event ∈ before

/-- The processor is done with the event, or it was sent to the dead-letter queue. -/
def Kept (validItemIds : List String) (result : Forwarded ε η) (event : ε) : Prop :=
  (∃ call ∈ result.calls, poller.Settles validItemIds call event) ∨
  ∃ letter, result.deadLetter = some letter ∧ event ∈ letter.events

/-- If the attempts are used up, then no event was set aside, and the lowest item
    of a report is among the events of the attempt. -/
def Safe (validItemIds : List String) (s : Loop ε η) (tick : Tick η) : Prop :=
  s.events ≠ [] →
    if poller.maxRetriesExceeded s.attempts then s.discardedEventsForDlq = []
    else (poller.splitByAge tick.now s.events).2 = [] →
      ∀ lowest, poller.Reports validItemIds tick.outcome lowest →
        ∃ event ∈ s.events, poller.sequenceNumber event = lowest

/-- A turn after which the loop goes on. -/
def turn (validItemIds : List String) (s : Loop ε η) (tick : Tick η) : Option (Loop ε η) :=
  match poller.iterate validItemIds s tick with
  | (_, some _) => none
  | (s', none) => some s'

/-! ### Splitting the events -/

theorem splitByAge_append (now : Int) (events : List ε) :
    (poller.splitByAge now events).2 ++ (poller.splitByAge now events).1 = events := by
  rw [splitByAge]
  split
  · exact nil_append _
  · exact take_append_drop _ _

theorem bisectEvents_of_split {events before after : List ε} {item : ε}
    (hn : (events.map poller.sequenceNumber).Nodup) (h : events = before ++ item :: after) :
    poller.bisectEvents (poller.sequenceNumber item) events = (before, item :: after) := by
  have hbefore : ∀ event ∈ before, decide (poller.sequenceNumber event ≠
      poller.sequenceNumber item) = true := by
    intro event hevent
    rw [h, map_append, nodup_append] at hn
    have hne := hn.2.2 _ (mem_map_of_mem hevent) _ (mem_map_of_mem mem_cons_self)
    exact decide_eq_true hne
  rw [bisectEvents, h, takeWhile_append_of_pos hbefore, dropWhile_append_of_pos hbefore]
  simp

theorem bisectEvents_of_absent {events : List ε} {lowest : String}
    (h : ¬∃ event ∈ events, poller.sequenceNumber event = lowest) :
    (poller.bisectEvents lowest events).2 = [] := by
  rw [bisectEvents, dropWhile_eq_nil_iff]
  intro event hevent
  exact decide_eq_true fun heq => h ⟨event, hevent, heq⟩

/-! ### A turn of the loop -/

/-- What a turn can do. -/
theorem iterate_cases (validItemIds : List String) (s : Loop ε η) (tick : Tick η)
    (htick : tick.shutdown = false) :
    (s.events = [] ∧ poller.iterate validItemIds s tick = (s, some .finished)) ∨
    (s.events ≠ [] ∧ poller.maxRetriesExceeded s.attempts = true ∧
      poller.iterate validItemIds s tick = (s, some .retryAttemptsExhausted)) ∨
    (s.events ≠ [] ∧ poller.maxRetriesExceeded s.attempts = false ∧
      (poller.splitByAge tick.now s.events).2 ≠ [] ∧
      poller.iterate validItemIds s tick =
        ({ s with
          events := (poller.splitByAge tick.now s.events).1
          discardedEventsForDlq :=
            s.discardedEventsForDlq ++ (poller.splitByAge tick.now s.events).2 }, none)) ∨
    (s.events ≠ [] ∧ poller.maxRetriesExceeded s.attempts = false ∧
      (poller.splitByAge tick.now s.events).2 = [] ∧
      poller.iterate validItemIds s tick = poller.processed validItemIds s tick.outcome) := by
  by_cases hevents : s.events = []
  · exact .inl ⟨hevents, by rw [iterate, if_pos (.inl (by rw [hevents]; rfl))]⟩
  have hcond : ¬(s.events.length = 0 ∨ tick.shutdown = true) := by simp [htick, hevents]
  by_cases hexceeded : poller.maxRetriesExceeded s.attempts = true
  · exact .inr (.inl ⟨hevents, hexceeded, by rw [iterate, if_neg hcond, if_pos hexceeded]⟩)
  have hattempts : poller.maxRetriesExceeded s.attempts = false := Bool.eq_false_iff.mpr hexceeded
  by_cases hexpired : (poller.splitByAge tick.now s.events).2 = []
  · -- Nothing has expired, so that all of the events are valid.
    have hvalid : (poller.splitByAge tick.now s.events).1 = s.events := by
      have happend := poller.splitByAge_append tick.now s.events
      rw [hexpired] at happend
      exact happend
    refine .inr (.inr (.inr ⟨hevents, hattempts, hexpired, ?_⟩))
    rw [iterate, if_neg hcond, if_neg hexceeded]
    simp only [hexpired, hvalid, length_nil, ne_eq, not_true_eq_false, if_false]
  · refine .inr (.inr (.inl ⟨hevents, hattempts, hexpired, ?_⟩))
    rw [iterate, if_neg hcond, if_neg hexceeded]
    simp only [if_pos (show (poller.splitByAge tick.now s.events).2.length ≠ 0 by
      simpa using hexpired)]

theorem processed_cases (validItemIds : List String) (s : Loop ε η) (outcome : Outcome η) :
    (outcome = .success ∧ ∃ s', poller.processed validItemIds s outcome = (s', some .processed) ∧
      s'.calls = s.calls ++ [(s.events, outcome)] ∧
      s'.discardedEventsForDlq = s.discardedEventsForDlq) ∨
    (∃ s', poller.processed validItemIds s outcome = (s', some .assertionError)) ∨
    (outcome ≠ .success ∧ (∀ lowest, ¬poller.Reports validItemIds outcome lowest) ∧
      ∃ s', poller.processed validItemIds s outcome = (s', none) ∧ s'.events = s.events ∧
        s'.attempts = s.attempts + 1 ∧ s'.calls = s.calls ++ [(s.events, outcome)] ∧
        s'.discardedEventsForDlq = s.discardedEventsForDlq) ∨
    (∃ lowest, poller.Reports validItemIds outcome lowest ∧
      ∃ s', poller.processed validItemIds s outcome = (s', none) ∧
        s'.events = (poller.bisectEvents lowest s.events).2 ∧ s'.attempts = s.attempts + 1 ∧
        s'.calls = s.calls ++ [(s.events, outcome)] ∧
        s'.discardedEventsForDlq = s.discardedEventsForDlq) := by
  cases outcome with
  | success => exact .inl ⟨rfl, _, rfl, rfl, rfl⟩
  | partialFailure payload error =>
    cases hfailed : getBatchItemFailures payload validItemIds with
    | none =>
      have hprocessed : poller.processed validItemIds s (.partialFailure payload error) =
          (⟨s.events, s.attempts + 1, s.discardedEventsForDlq, error,
            s.calls ++ [(s.events, .partialFailure payload error)]⟩, none) := by
        simp only [processed, hfailed]
      refine .inr (.inr (.inl ⟨by simp, ?_, _, hprocessed, rfl, rfl, rfl, rfl⟩))
      rintro lowest ⟨payload', error', failed, heq, hsome, -⟩
      rcases Outcome.partialFailure.inj heq with ⟨rfl, rfl⟩
      rw [hfailed] at hsome
      exact absurd hsome (by simp)
    | some failed =>
      cases hlowest : minBy poller.int failed with
      | none =>
        refine .inr (.inl
          ⟨(poller.processed validItemIds s (.partialFailure payload error)).1,
            Prod.ext rfl ?_⟩)
        simp only [processed, hfailed, hlowest]
      | some lowest =>
        have hprocessed : poller.processed validItemIds s (.partialFailure payload error) =
            (⟨(poller.bisectEvents lowest s.events).2, s.attempts + 1,
              s.discardedEventsForDlq, error,
              s.calls ++ [(s.events, .partialFailure payload error)]⟩, none) := by
          simp only [processed, hfailed, hlowest]
        exact .inr (.inr (.inr ⟨lowest, ⟨payload, error, failed, rfl, hfailed, hlowest⟩, _,
          hprocessed, rfl, rfl, rfl, rfl⟩))
  | batchFailure | unexpectedError =>
    refine .inr (.inr (.inl ⟨by simp, ?_, _, rfl, rfl, rfl, rfl, rfl⟩))
    rintro lowest ⟨payload, error', failed, heq, -⟩
    cases heq

variable {outcome : Outcome η}

theorem lowest_unique {validItemIds : List String} {lowest lowest' : String}
    (h : poller.Reports validItemIds outcome lowest)
    (h' : poller.Reports validItemIds outcome lowest') : lowest = lowest' := by
  rcases h with ⟨payload, error, failed, rfl, hfailed, hlowest⟩
  rcases h' with ⟨payload', error', failed', heq, hfailed', hlowest'⟩
  rcases Outcome.partialFailure.inj heq with ⟨rfl, rfl⟩
  rw [hfailed, some.injEq] at hfailed'
  subst hfailed'
  exact some.inj (hlowest.symm.trans hlowest')

/-- Where the events of the batch are: still there, set aside, or settled by a
    call. Those that are still there are none of the others. -/
structure Ledger (validItemIds : List String) (events : List ε) (s : Loop ε η) : Prop where
  nodup : (s.events.map poller.sequenceNumber).Nodup
  subset : ∀ event ∈ s.events, event ∈ events
  apart : ∀ event ∈ s.events, event ∉ s.discardedEventsForDlq
  unsettled : ∀ event ∈ s.events, ∀ call ∈ s.calls, ¬poller.Settles validItemIds call event
  accounted : ∀ event ∈ events, event ∈ s.events ∨ event ∈ s.discardedEventsForDlq ∨
    ∃ call ∈ s.calls, poller.Settles validItemIds call event

variable {poller} {validItemIds : List String} {events : List ε} {s s' : Loop ε η}

theorem ledger_expired (h : poller.Ledger validItemIds events s) {expired valid : List ε}
    (hsplit : expired ++ valid = s.events) :
    poller.Ledger validItemIds events { s with
      events := valid
      discardedEventsForDlq := s.discardedEventsForDlq ++ expired } := by
  have hvalid : ∀ event ∈ valid, event ∈ s.events := fun event hevent =>
    hsplit ▸ mem_append_right _ hevent
  have hnodup := h.nodup
  rw [← hsplit, map_append, nodup_append] at hnodup
  refine ⟨hnodup.2.1, fun event hevent => h.subset _ (hvalid _ hevent), ?_, ?_, ?_⟩
  · intro event hevent hmem
    rcases mem_append.mp hmem with hmem | hmem
    · exact h.apart _ (hvalid _ hevent) hmem
    · exact hnodup.2.2 _ (mem_map_of_mem hmem) _ (mem_map_of_mem hevent) rfl
  · exact fun event hevent call hcall => h.unsettled _ (hvalid _ hevent) _ hcall
  · intro event hevent
    rcases h.accounted _ hevent with hmem | hmem | hcall
    · rw [← hsplit] at hmem
      rcases mem_append.mp hmem with hmem | hmem
      · exact .inr (.inl (mem_append_right _ hmem))
      · exact .inl hmem
    · exact .inr (.inl (mem_append_left _ hmem))
    · exact .inr (.inr hcall)

theorem ledger_failed (h : poller.Ledger validItemIds events s)
    (hsuccess : outcome ≠ .success)
    (hreports : ∀ lowest, ¬poller.Reports validItemIds outcome lowest)
    (hevents : s'.events = s.events) (hcalls : s'.calls = s.calls ++ [(s.events, outcome)])
    (hdiscarded : s'.discardedEventsForDlq = s.discardedEventsForDlq) :
    poller.Ledger validItemIds events s' := by
  refine ⟨hevents ▸ h.nodup, hevents ▸ h.subset, ?_, ?_, ?_⟩
  · rw [hevents, hdiscarded]
    exact h.apart
  · rw [hevents, hcalls]
    intro event hevent call hcall hsettles
    rcases mem_append.mp hcall with hcall | hcall
    · exact h.unsettled _ hevent _ hcall hsettles
    · rw [mem_singleton.mp hcall] at hsettles
      rcases hsettles with ⟨hs, -⟩ | ⟨lowest, -, -, -, hlowest, -⟩
      · exact hsuccess hs
      · exact hreports _ hlowest
  · rw [hevents, hcalls, hdiscarded]
    intro event hevent
    rcases h.accounted _ hevent with hmem | hmem | ⟨call, hcall, hsettles⟩
    · exact .inl hmem
    · exact .inr (.inl hmem)
    · exact .inr (.inr ⟨call, mem_append_left _ hcall, hsettles⟩)

theorem ledger_reported (h : poller.Ledger validItemIds events s)
    {lowest : String} (hreports : poller.Reports validItemIds outcome lowest)
    (hpresent : ∃ event ∈ s.events, poller.sequenceNumber event = lowest)
    (hevents : s'.events = (poller.bisectEvents lowest s.events).2)
    (hcalls : s'.calls = s.calls ++ [(s.events, outcome)])
    (hdiscarded : s'.discardedEventsForDlq = s.discardedEventsForDlq) :
    poller.Ledger validItemIds events s' := by
  rcases hpresent with ⟨item, hitem, rfl⟩
  rcases append_of_mem hitem with ⟨before, after, hsplit⟩
  rw [bisectEvents_of_split _ h.nodup hsplit] at hevents
  have hsub : ∀ event ∈ s'.events, event ∈ s.events := by
    intro event hevent
    rw [hevents] at hevent
    rw [hsplit]
    exact mem_append_right _ hevent
  have hnodup := h.nodup
  rw [hsplit, map_append, nodup_append] at hnodup
  refine ⟨hevents ▸ hnodup.2.1, fun event hevent => h.subset _ (hsub _ hevent), ?_, ?_, ?_⟩
  · rw [hdiscarded]
    exact fun event hevent => h.apart _ (hsub _ hevent)
  · rw [hcalls]
    intro event hevent call hcall hsettles
    rcases mem_append.mp hcall with hcall | hcall
    · exact h.unsettled _ (hsub _ hevent) _ hcall hsettles
    · rw [mem_singleton.mp hcall] at hsettles
      rcases hsettles with ⟨hsuccess, -⟩ |
        ⟨lowest', before', item', after', hlowest', hsplit', heq, hmem⟩
      · rcases hreports with ⟨payload, error, failed, heq, -⟩
        exact absurd (hsuccess.symm.trans heq) (by simp)
      · -- The lowest item splits the events in one way only.
        rw [lowest_unique _ hlowest' hreports] at heq
        have hsame := (bisectEvents_of_split _ h.nodup hsplit).symm.trans
          (heq ▸ bisectEvents_of_split _ h.nodup hsplit')
        rw [(Prod.mk.inj hsame).1.symm] at hmem
        rw [hevents] at hevent
        exact hnodup.2.2 _ (mem_map_of_mem hmem) _ (mem_map_of_mem hevent) rfl
  · rw [hevents, hcalls, hdiscarded]
    intro event hevent
    rcases h.accounted _ hevent with hmem | hmem | ⟨call, hcall, hsettles⟩
    · rw [hsplit] at hmem
      rcases mem_append.mp hmem with hmem | hmem
      · refine .inr (.inr ⟨(s.events, outcome),
          mem_append_right _ (mem_singleton.mpr rfl), .inr ?_⟩)
        exact ⟨_, before, item, after, hreports, hsplit, rfl, hmem⟩
      · exact .inl hmem
    · exact .inr (.inl hmem)
    · exact .inr (.inr ⟨call, mem_append_left _ hcall, hsettles⟩)

/-! ### The loop -/

theorem finish_calls (s : Loop ε η) (ending : Ending) : (finish s ending).calls = s.calls := by
  rw [finish]
  split
  · rfl
  · split
    · rfl
    · rfl

variable {tick : Tick η} (ticks : List (Tick η)) {ending : Ending}

theorem kept_of_discarded {event : ε} (h : event ∈ s.discardedEventsForDlq) :
    poller.Kept validItemIds (finish s ending) event := by
  have hne : s.discardedEventsForDlq.length ≠ 0 := by
    intro hzero
    rw [length_eq_zero_iff.mp hzero] at h
    exact absurd h not_mem_nil
  exact .inr ⟨_, by rw [finish, if_pos hne], h⟩

theorem kept_of_ledger (h : poller.Ledger validItemIds events s) (hevents : s.events = [])
    (ending : Ending) : ∀ event ∈ events, poller.Kept validItemIds (finish s ending) event := by
  intro event hevent
  rcases h.accounted _ hevent with hmem | hmem | ⟨call, hcall, hsettles⟩
  · rw [hevents] at hmem
    exact absurd hmem not_mem_nil
  · exact kept_of_discarded hmem
  · exact .inl ⟨call, by rw [finish_calls]; exact hcall, hsettles⟩

theorem not_kept {event : ε} (hdiscarded : event ∉ s.discardedEventsForDlq)
    (hcalls : ∀ call ∈ s.calls, ¬poller.Settles validItemIds call event)
    (hending : s.discardedEventsForDlq ≠ [] ∨ ending ≠ .retryAttemptsExhausted) :
    ¬poller.Kept validItemIds (finish s ending) event := by
  rintro (⟨call, hcall, hsettles⟩ | ⟨letter, hletter, hmem⟩)
  · rw [finish_calls] at hcall
    exact hcalls _ hcall hsettles
  · rw [finish] at hletter
    split at hletter
    · rw [← some.inj hletter] at hmem
      exact hdiscarded hmem
    · next hnil =>
        rw [not_not, length_eq_zero_iff] at hnil
        rw [if_neg (hending.resolve_left (not_not.mpr hnil))] at hletter
        cases hletter

theorem kept_exhausted_iff (h : poller.Ledger validItemIds events s) (hevents : s.events ≠ []) :
    (∀ event ∈ events, poller.Kept validItemIds (finish s .retryAttemptsExhausted) event) ↔
      s.discardedEventsForDlq = [] := by
  constructor
  · intro hkept
    by_contra hne
    rcases exists_mem_of_ne_nil _ hevents with ⟨event, hevent⟩
    exact not_kept (h.apart _ hevent) (h.unsettled _ hevent) (.inl hne)
      (hkept _ (h.subset event hevent))
  · intro hnil event hevent
    rcases h.accounted _ hevent with hmem | hmem | ⟨call, hcall, hsettles⟩
    · refine .inr ⟨⟨s.events, .retryAttemptsExhausted, s.errorPayload, s.attempts⟩, ?_, hmem⟩
      rw [finish, hnil, if_neg (by simp), if_pos rfl]
    · rw [hnil] at hmem
      exact absurd hmem not_mem_nil
    · exact .inl ⟨call, by rw [finish_calls]; exact hcall, hsettles⟩

theorem kept_processed (h : poller.Ledger validItemIds events s)
    (hcalls : s'.calls = s.calls ++ [(s.events, .success)])
    (hdiscarded : s'.discardedEventsForDlq = s.discardedEventsForDlq) (ending : Ending) :
    ∀ event ∈ events, poller.Kept validItemIds (finish s' ending) event := by
  intro event hevent
  rcases h.accounted _ hevent with hmem | hmem | ⟨call, hcall, hsettles⟩
  · refine .inl ⟨(s.events, .success), ?_, .inl ⟨rfl, hmem⟩⟩
    rw [finish_calls, hcalls]
    exact mem_append_right _ (mem_singleton.mpr rfl)
  · exact kept_of_discarded (hdiscarded ▸ hmem)
  · refine .inl ⟨call, ?_, hsettles⟩
    rw [finish_calls, hcalls]
    exact mem_append_left _ hcall

theorem not_kept_absent (h : poller.Ledger validItemIds events s) (hevents : s.events ≠ [])
    {lowest : String} (hreports : poller.Reports validItemIds outcome lowest)
    (habsent : ¬∃ event ∈ s.events, poller.sequenceNumber event = lowest)
    (hcalls : s'.calls = s.calls ++ [(s.events, outcome)])
    (hdiscarded : s'.discardedEventsForDlq = s.discardedEventsForDlq) :
    ¬∀ event ∈ events, poller.Kept validItemIds (finish s' .finished) event := by
  intro hkept
  rcases exists_mem_of_ne_nil _ hevents with ⟨event, hevent⟩
  refine not_kept (hdiscarded ▸ h.apart _ hevent) ?_ (.inr (by simp))
    (hkept _ (h.subset event hevent))
  rw [hcalls]
  intro call hcall hsettles
  rcases mem_append.mp hcall with hcall | hcall
  · exact h.unsettled _ hevent _ hcall hsettles
  · rw [mem_singleton.mp hcall] at hsettles
    rcases hsettles with ⟨hsuccess, -⟩ | ⟨lowest', before, item, after, hlowest, hsplit, heq, -⟩
    · rcases hreports with ⟨payload, error, failed, heq, -⟩
      exact absurd (hsuccess.symm.trans heq) (by simp)
    · refine habsent ⟨item, ?_, heq.trans (lowest_unique _ hlowest hreports)⟩
      rw [show s.events = before ++ item :: after from hsplit]
      exact mem_append_right _ mem_cons_self

theorem turn_next (h : poller.iterate validItemIds s tick = (s', none)) :
    poller.turn validItemIds s tick = some s' := by
  rw [turn, h]

theorem turn_last (h : poller.iterate validItemIds s tick = (s', some ending)) :
    poller.turn validItemIds s tick = none := by
  rw [turn, h]

theorem loop_next (h : poller.iterate validItemIds s tick = (s', none)) :
    poller.loop validItemIds s (tick :: ticks) = poller.loop validItemIds s' ticks := by
  rw [loop, h]

theorem loop_last (h : poller.iterate validItemIds s tick = (s', some ending)) :
    poller.loop validItemIds s (tick :: ticks) = some (s', ending) := by
  rw [loop, h]

theorem along_next {C : Loop ε η → Tick η → Prop} {ticks : List (Tick η)}
    (h : poller.iterate validItemIds s tick = (s', none)) (hC : C s tick) :
    Along (Takes (poller.turn validItemIds)) C s (tick :: ticks) ↔
      Along (Takes (poller.turn validItemIds)) C s' ticks := by
  rw [Runs.along_cons_iff]
  refine ⟨fun hall => hall.2 s' (turn_next h), fun hrest => ⟨hC, fun t ht => ?_⟩⟩
  rw [Takes, turn_next h, some.injEq] at ht
  exact ht ▸ hrest

theorem along_last {C : Loop ε η → Tick η → Prop} {ticks : List (Tick η)}
    (h : poller.iterate validItemIds s tick = (s', some ending)) :
    Along (Takes (poller.turn validItemIds)) C s (tick :: ticks) ↔ C s tick := by
  rw [Runs.along_cons_iff]
  refine ⟨fun hall => hall.1, fun hhead => ⟨hhead, fun t ht => ?_⟩⟩
  rw [Takes, turn_last h] at ht
  cases ht

theorem safe_of_reports (hexceeded : poller.maxRetriesExceeded s.attempts = false)
    (h : (poller.splitByAge tick.now s.events).2 = [] →
      ∀ lowest, poller.Reports validItemIds tick.outcome lowest →
        ∃ event ∈ s.events, poller.sequenceNumber event = lowest) :
    poller.Safe validItemIds s tick := by
  intro _
  rw [hexceeded]
  exact h

/-- The loop loses no event if and only if all of its turns are safe. -/
theorem loop_kept_iff (hticks : ∀ tick ∈ ticks, tick.shutdown = false) (s : Loop ε η)
    (h : poller.Ledger validItemIds events s)
    (hloop : poller.loop validItemIds s ticks = some (s', ending))
    (hending : ending ≠ .assertionError) :
    (∀ event ∈ events, poller.Kept validItemIds (finish s' ending) event) ↔
      Along (Takes (poller.turn validItemIds)) (poller.Safe validItemIds) s ticks := by
  induction ticks generalizing s with
  | nil => cases hloop
  | cons tick ticks ih =>
    have htick := hticks _ mem_cons_self
    have hrest : ∀ tick ∈ ticks, tick.shutdown = false := fun t ht =>
      hticks t (mem_cons_of_mem tick ht)
    rcases poller.iterate_cases validItemIds s tick htick with ⟨hnil, hiterate⟩ |
      ⟨hevents, hexceeded, hiterate⟩ | ⟨hevents, hexceeded, hexpired, hiterate⟩ |
      ⟨hevents, hexceeded, hexpired, hiterate⟩
    · -- No event is left.
      rw [loop_last _ hiterate, some.injEq] at hloop
      rcases hloop with ⟨rfl, rfl⟩
      rw [along_last hiterate]
      exact ⟨fun _ hne => absurd hnil hne, fun _ => kept_of_ledger h hnil _⟩
    · -- The attempts are used up.
      rw [loop_last _ hiterate, some.injEq] at hloop
      rcases hloop with ⟨rfl, rfl⟩
      rw [along_last hiterate, kept_exhausted_iff h hevents, Safe, if_pos hexceeded]
      exact ⟨fun hnil _ => hnil, fun hsafe => hsafe hevents⟩
    · -- Some events have expired.
      rw [loop_next _ hiterate] at hloop
      rw [along_next hiterate (safe_of_reports hexceeded fun hnil => absurd hnil hexpired)]
      exact ih hrest _ (ledger_expired h (poller.splitByAge_append tick.now s.events)) hloop
    · rcases poller.processed_cases validItemIds s tick.outcome with
        ⟨hsuccess, s₁, hprocessed, hcalls, hdiscarded⟩ | ⟨s₁, hprocessed⟩ |
        ⟨hsuccess, hreports, s₁, hprocessed, hs₁, -, hcalls, hdiscarded⟩ |
        ⟨lowest, hreports, s₁, hprocessed, hs₁, -, hcalls, hdiscarded⟩
      · rw [hprocessed] at hiterate
        rw [loop_last _ hiterate, some.injEq] at hloop
        rcases hloop with ⟨rfl, rfl⟩
        rw [along_last hiterate]
        refine ⟨fun _ => safe_of_reports hexceeded ?_,
          fun _ => kept_processed h (hsuccess ▸ hcalls) hdiscarded _⟩
        rintro - lowest ⟨payload, error, failed, hc, -⟩
        exact absurd (hsuccess.symm.trans hc) (by simp)
      · rw [hprocessed] at hiterate
        rw [loop_last _ hiterate, some.injEq, Prod.mk.injEq] at hloop
        exact absurd hloop.2.symm hending
      · rw [hprocessed] at hiterate
        rw [loop_next _ hiterate] at hloop
        rw [along_next hiterate (safe_of_reports hexceeded fun _ lowest hlowest =>
          absurd hlowest (hreports _))]
        exact ih hrest _ (ledger_failed h hsuccess hreports hs₁ hcalls hdiscarded) hloop
      · rw [hprocessed] at hiterate
        rw [loop_next _ hiterate] at hloop
        by_cases hpresent : ∃ event ∈ s.events, poller.sequenceNumber event = lowest
        · rw [along_next hiterate (safe_of_reports hexceeded fun _ lowest' hlowest' =>
            lowest_unique _ hreports hlowest' ▸ hpresent)]
          exact ih hrest _ (ledger_reported h hreports hpresent hs₁ hcalls hdiscarded) hloop
        · -- The next turn finds no events.
          have hnil : s₁.events = [] := hs₁.trans (bisectEvents_of_absent _ hpresent)
          refine ⟨fun hkept => absurd hkept ?_, fun hall => absurd ?_ hpresent⟩
          · cases ticks with
            | nil => cases hloop
            | cons tick' =>
              have hlast : poller.iterate validItemIds s₁ tick' = (s₁, some .finished) := by
                rw [iterate, if_pos (.inl (by rw [hnil]; rfl))]
              rw [loop_last _ hlast, some.injEq] at hloop
              rcases hloop with ⟨rfl, rfl⟩
              exact not_kept_absent h hevents hreports hpresent hcalls hdiscarded
          · have hsafe := Runs.along_head hall hevents
            rw [hexceeded] at hsafe
            exact hsafe hexpired _ hreports

/-! ### The end of the loop -/

theorem le_of_not_exceeded (hretries : 0 ≤ poller.maximumRetryAttempts) {attempts : Nat}
    (h : poller.maxRetriesExceeded attempts = false) :
    attempts ≤ poller.maximumRetryAttempts.toNat := by
  rw [maxRetriesExceeded, if_neg (by omega), decide_eq_false_iff_not] at h
  omega

theorem iterate_decreases (hretries : 0 ≤ poller.maximumRetryAttempts)
    (htick : tick.shutdown = false) (h : poller.iterate validItemIds s tick = (s', none)) :
    poller.maximumRetryAttempts.toNat + 1 - s'.attempts + s'.events.length <
      poller.maximumRetryAttempts.toNat + 1 - s.attempts + s.events.length := by
  rcases poller.iterate_cases validItemIds s tick htick with ⟨-, hiterate⟩ | ⟨-, -, hiterate⟩ |
    ⟨-, -, hexpired, hiterate⟩ | ⟨-, hexceeded, -, hiterate⟩
  · rw [h] at hiterate
    exact absurd (congrArg Prod.snd hiterate) (by simp)
  · rw [h] at hiterate
    exact absurd (congrArg Prod.snd hiterate) (by simp)
  · rw [h, Prod.mk.injEq] at hiterate
    have happend := congrArg length (poller.splitByAge_append tick.now s.events)
    have hpos := length_pos_iff.mpr hexpired
    rw [length_append] at happend
    rw [hiterate.1]
    show poller.maximumRetryAttempts.toNat + 1 - s.attempts +
      (poller.splitByAge tick.now s.events).1.length < _
    omega
  · have hle := le_of_not_exceeded hretries hexceeded
    rw [h] at hiterate
    rcases poller.processed_cases validItemIds s tick.outcome with ⟨-, s₁, hprocessed, -⟩ |
      ⟨s₁, hprocessed⟩ | ⟨-, -, s₁, hprocessed, hs₁, hattempts, -⟩ |
      ⟨lowest, -, s₁, hprocessed, hs₁, hattempts, -⟩
    · exact absurd (congrArg Prod.snd (hiterate.trans hprocessed)) (by simp)
    · exact absurd (congrArg Prod.snd (hiterate.trans hprocessed)) (by simp)
    · rw [(Prod.mk.inj (hiterate.trans hprocessed)).1, hs₁]
      omega
    · have hlength : (poller.bisectEvents lowest s.events).2.length ≤ s.events.length :=
        (dropWhile_sublist _).length_le
      rw [(Prod.mk.inj (hiterate.trans hprocessed)).1, hs₁]
      omega

/-- The loop ends. -/
theorem loop_returns (hretries : 0 ≤ poller.maximumRetryAttempts) (ticks : List (Tick η))
    (hticks : ∀ tick ∈ ticks, tick.shutdown = false) (s : Loop ε η)
    (hlength : poller.maximumRetryAttempts.toNat + 1 - s.attempts + s.events.length <
      ticks.length) : ∃ result, poller.loop validItemIds s ticks = some result := by
  induction ticks generalizing s with
  | nil => exact absurd hlength (Nat.not_lt_zero _)
  | cons tick ticks ih =>
    rcases hiterate : poller.iterate validItemIds s tick with ⟨s', _ | ending⟩
    · have hless := iterate_decreases hretries (hticks _ mem_cons_self) hiterate
      rw [loop_next _ hiterate]
      refine ih (fun t ht => hticks t (mem_cons_of_mem tick ht)) s' ?_
      rw [length_cons] at hlength
      omega
    · exact ⟨_, loop_last _ hiterate⟩

theorem minBy_ne_none {payload : List (Option String)} {failed : List String}
    (hpayload : payload ≠ []) (h : getBatchItemFailures payload validItemIds = some failed) :
    minBy poller.int failed ≠ none := by
  cases payload with
  | nil => exact absurd rfl hpayload
  | cons item payload =>
    rw [getBatchItemFailures, parseBatchItemFailures, mapM_cons] at h
    intro hnone
    have hnil : failed = [] := by
      cases failed with
      | nil => rfl
      | cons => cases hnone
    subst hnil
    rcases hitem : parseItem validItemIds item with e | id
    · rw [hitem] at h
      cases h
    · rcases hrest : payload.mapM (parseItem validItemIds) with e | ids
      · rw [hitem, hrest] at h
        cases h
      · rw [hitem, hrest] at h
        cases h

theorem loop_ne_assertionError (hticks : ∀ tick ∈ ticks, tick.shutdown = false ∧
      ∀ payload error, tick.outcome = .partialFailure payload error → payload ≠ [])
    (s : Loop ε η) (h : poller.loop validItemIds s ticks = some (s', ending)) :
    ending ≠ .assertionError := by
  induction ticks generalizing s with
  | nil => cases h
  | cons tick ticks ih =>
    rcases hticks _ mem_cons_self with ⟨htick, hpayload⟩
    rcases hiterate : poller.iterate validItemIds s tick with ⟨s₁, _ | ending'⟩
    · rw [loop_next _ hiterate] at h
      exact ih (fun t ht => hticks t (mem_cons_of_mem tick ht)) s₁ h
    · rw [loop_last _ hiterate, some.injEq, Prod.mk.injEq] at h
      rw [← h.2]
      rintro rfl
      rcases poller.iterate_cases validItemIds s tick htick with ⟨-, heq⟩ | ⟨-, -, heq⟩ |
        ⟨-, -, -, heq⟩ | ⟨-, -, -, heq⟩
      · exact absurd (congrArg Prod.snd (hiterate.symm.trans heq)) (by simp)
      · exact absurd (congrArg Prod.snd (hiterate.symm.trans heq)) (by simp)
      · exact absurd (congrArg Prod.snd (hiterate.symm.trans heq)) (by simp)
      · have hsnd := congrArg Prod.snd (heq.symm.trans hiterate)
        cases houtcome : tick.outcome with
        | success | batchFailure | unexpectedError =>
          exact absurd hsnd (by simp [houtcome, processed])
        | partialFailure payload =>
          cases hfailed : getBatchItemFailures payload validItemIds with
          | none => exact absurd hsnd (by simp [houtcome, processed, hfailed])
          | some failed =>
            cases hlowest : minBy poller.int failed with
            | none => exact minBy_ne_none (hpayload _ _ houtcome) hfailed hlowest
            | some =>
              exact absurd hsnd (by simp [houtcome, processed, hfailed, hlowest])

/-! ### The batch -/

theorem filterMap_number_sublist (poller : StreamPoller ρ ε) (events : List ε) :
    ((events.filterMap poller.preFilter).map poller.sequenceNumber).Sublist
      (events.map poller.sequenceNumber) := by
  induction events with
  | nil => exact List.Sublist.slnil
  | cons event events ih =>
    cases h : poller.preFilter event with
    | none =>
      rw [filterMap_cons_none h]
      exact ih.cons _
    | some event' =>
      rw [filterMap_cons_some h, map_cons, poller.preFilter_number event event' h]
      exact ih.cons_cons _

theorem eventsOf_nodup (poller : StreamPoller ρ ε) (records : List ρ)
    (h : (records.map poller.recordNumber).Nodup) :
    ((poller.eventsOf records).map poller.sequenceNumber).Nodup := by
  have hpost : (poller.eventsOf records).map poller.sequenceNumber =
      (poller.matchingEvents records).map poller.sequenceNumber := by
    rw [eventsOf, List.map_map, List.map_map]
    refine map_congr_left fun event _ => ?_
    simp only [Function.comp_apply, poller.metadata_number, poller.postFilter_number]
  have hfilter : ((poller.matchingEvents records).map poller.sequenceNumber).Sublist
      (((records.map poller.transformIntoEvent).filterMap poller.preFilter).map
        poller.sequenceNumber) := by
    refine List.Sublist.map _ ?_
    rw [matchingEvents, filterEvents]
    split
    · exact List.Sublist.refl _
    · exact filter_sublist
  have hrecords : (records.map poller.transformIntoEvent).map poller.sequenceNumber =
      records.map poller.recordNumber := by
    rw [List.map_map]
    exact map_congr_left fun record _ => poller.transform_number record
  rw [hpost]
  exact ((hfilter.trans (filterMap_number_sublist _ _)).nodup (hrecords ▸ h))

theorem ledger_start (hnodup : (events.map poller.sequenceNumber).Nodup) :
    poller.Ledger validItemIds events (start events : Loop ε η) where
  nodup := hnodup
  subset := fun _ h => h
  apart := fun _ _ => not_mem_nil
  unsettled := fun _ _ _ h => absurd h not_mem_nil
  accounted := fun _ h => .inl h

/-- For a batch of records with different sequence numbers, and as long as there is
    no shutdown and every report names an item, the method returns, and no event is
    lost if and only if all turns of the loop are safe. -/
theorem no_record_lost_iff (poller : StreamPoller ρ ε) (records : List ρ) (ticks : List (Tick η))
    (hrecords : (records.map poller.recordNumber).Nodup)
    (hretries : 0 ≤ poller.maximumRetryAttempts)
    (hticks : ∀ tick ∈ ticks, tick.shutdown = false ∧
      ∀ payload error, tick.outcome = .partialFailure payload error → payload ≠ [])
    (hlength : poller.maximumRetryAttempts.toNat + 1 + (poller.eventsOf records).length <
      ticks.length) :
    ∃ result, poller.forwardEventsToTarget records ticks = some result ∧
      ((∀ event ∈ poller.eventsOf records,
          poller.Kept (poller.batchSequenceNumbers records) result event) ↔
        Along (Takes (poller.turn (poller.batchSequenceNumbers records)))
          (poller.Safe (poller.batchSequenceNumbers records)) (start (poller.eventsOf records))
          ticks) := by
  have hshutdown : ∀ tick ∈ ticks, tick.shutdown = false := fun tick ht => (hticks _ ht).1
  have hledger : poller.Ledger (poller.batchSequenceNumbers records) (poller.eventsOf records)
      (start (poller.eventsOf records) : Loop ε η) :=
    ledger_start (eventsOf_nodup _ _ hrecords)
  rcases loop_returns hretries _ hshutdown (start (poller.eventsOf records)) hlength with
    ⟨⟨s', ending⟩, hloop⟩
  have hending := loop_ne_assertionError _ hticks _ hloop
  have hiff := loop_kept_iff _ hshutdown _ hledger hloop hending
  by_cases hempty : (poller.eventsOf records).length = 0
  · refine ⟨_, by rw [forwardEventsToTarget, if_pos hempty], ?_⟩
    rw [← hiff, length_eq_zero_iff.mp hempty]
    exact ⟨fun _ _ h => absurd h not_mem_nil, fun _ _ h => absurd h not_mem_nil⟩
  · refine ⟨finish s' ending, ?_, hiff⟩
    rw [forwardEventsToTarget, if_neg hempty, hloop, bind_some, if_neg hending]

def examplePoller (maximumRetryAttempts maximumRecordAgeInSeconds : Int) :
    StreamPoller (String × Int) (String × Int) where
  recordNumber := Prod.fst
  sequenceNumber := Prod.fst
  arrivalTime := Prod.snd
  transformIntoEvent := id
  preFilter := some
  filterPatterns := []
  postFilter := id
  addSourceMetadata := id
  maximumRetryAttempts := maximumRetryAttempts
  maximumRecordAgeInSeconds := maximumRecordAgeInSeconds
  int := fun number => if number = "1" then 1 else 2
  transform_number := fun _ => rfl
  preFilter_number := fun _ _ h => by rw [Option.some.inj h]
  postFilter_number := fun _ => rfl
  metadata_number := fun _ => rfl

def exampleTicks : List (Tick String) :=
  [⟨false, 0, .partialFailure [some "2"] none⟩, ⟨false, 0, .success⟩, ⟨false, 0, .success⟩,
    ⟨false, 0, .success⟩, ⟨false, 0, .success⟩]

theorem no_record_lost_of_exampleTicks : ∃ result,
    (examplePoller 1 (-1)).forwardEventsToTarget [("1", 0), ("2", 0)] exampleTicks = some result ∧
    result.calls.length = 2 ∧
    ∀ event ∈ (examplePoller 1 (-1)).eventsOf [("1", 0), ("2", 0)],
      (examplePoller 1 (-1)).Kept ["1", "2"] result event := by
  have hticks : ∀ tick ∈ exampleTicks, tick.shutdown = false ∧
      ∀ payload error, tick.outcome = .partialFailure payload error → payload ≠ [] := by
    intro tick htick
    simp only [exampleTicks, mem_cons, not_mem_nil, or_false] at htick
    rcases htick with rfl | rfl | rfl | rfl | rfl
    · refine ⟨rfl, fun payload error h => ?_⟩
      rw [← (Outcome.partialFailure.inj h).1]
      simp
    all_goals exact ⟨rfl, fun payload error h => absurd h (by simp)⟩
  rcases no_record_lost_iff (examplePoller 1 (-1)) [("1", 0), ("2", 0)] _ (by decide)
    (by decide) hticks (by decide) with ⟨result, hresult, hiff⟩
  refine ⟨result, hresult, ?_, hiff.mpr ?_⟩
  · rw [show result = ⟨[([("1", 0), ("2", 0)], .partialFailure [some "2"] none),
      ([("2", 0)], .success)], none⟩ from (Option.some.inj hresult).symm]
    rfl
  · have hfirst : (examplePoller 1 (-1)).iterate ["1", "2"] (start [("1", 0), ("2", 0)])
        ⟨false, 0, .partialFailure [some "2"] (none : Option String)⟩ =
        (⟨[("2", 0)], 1, [], none, [([("1", 0), ("2", 0)], .partialFailure [some "2"] none)]⟩,
          none) := rfl
    refine (along_next hfirst (safe_of_reports rfl fun _ lowest hlowest => ?_)).mpr
      ((along_last rfl).mpr (safe_of_reports rfl fun _ lowest hlowest => ?_))
    · have hreports : (examplePoller 1 (-1)).Reports ["1", "2"]
          (.partialFailure [some "2"] (none : Option String)) "2" := ⟨_, _, ["2"], rfl, rfl, rfl⟩
      rw [lowest_unique _ hlowest hreports]
      exact ⟨("2", 0), by decide, rfl⟩
    · rcases hlowest with ⟨payload, error, failed, h, -⟩
      cases h

/-- The first record expires, and the second one fails in the only attempt. -/
def lossyTicks : List (Tick String) :=
  [⟨false, 2000000, .success⟩, ⟨false, 2000000, .batchFailure none⟩, ⟨false, 2000000, .success⟩]

/-- The second record is in no successful attempt and is not sent to the dead-letter queue. -/
theorem record_lost : ∃ result,
    (examplePoller 0 1).forwardEventsToTarget [("1", 0), ("2", 1500000)] lossyTicks = some result ∧
    ("2", 1500000) ∈ (examplePoller 0 1).eventsOf [("1", 0), ("2", 1500000)] ∧
    ¬(examplePoller 0 1).Kept ["1", "2"] result ("2", 1500000) := by
  refine ⟨⟨[([("2", 1500000)], .batchFailure none)],
    some ⟨[("1", 0)], .recordAgeExceeded, none, 1⟩⟩, rfl, by decide, ?_⟩
  rintro (⟨call, hcall, hsettles⟩ | ⟨letter, hletter, hmem⟩)
  · rw [mem_singleton.mp hcall] at hsettles
    rcases hsettles with ⟨h, -⟩ | ⟨lowest, before, item, after, ⟨payload, error, failed, h, -⟩, -⟩
    · cases h
    · cases h
  · rw [← some.inj hletter] at hmem
    exact absurd hmem (by decide)

end LocalEmu.Lambda.StreamPoller
