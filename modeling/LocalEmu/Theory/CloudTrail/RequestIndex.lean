import LocalEmu.Base.Run
import LocalEmu.Core.CloudTrail.EventStore

/-!
# The Index of Request Ids

The index of a store finds its events by their request ids, as long as no event is recorded
in the wrong moment. That is when the store is full and the event supersedes another one
than the oldest. The oldest event loses its entry in the index, because it is about to be
evicted, but it is not: there is room after the other event is removed.

What a store has is compared with everything that was recorded, with what is superseded
left out.
-/

namespace LocalEmu.CloudTrail

open List Option
open CloudTrailEventStore (appendleft getByRequestId removeStale unindexOldest)

variable {δ : Type} [DecidableEq δ]

/-! ### Superseded events -/

/-- Two events are from one request, which has an id. -/
def SameRequest (event event' : CloudTrailEvent δ) : Prop :=
  event.requestId = event'.requestId ∧ event.requestId ≠ []

instance (event event' : CloudTrailEvent δ) : Decidable (SameRequest event event') :=
  inferInstanceAs (Decidable (_ ∧ _))

/-- The events that a new one does not supersede. -/
def supersede (event : CloudTrailEvent δ) (events : List (CloudTrailEvent δ)) :
    List (CloudTrailEvent δ) :=
  events.filter fun event' => decide (¬SameRequest event event')

/-- The events that no newer one supersedes, the newest first. -/
def latest : List (CloudTrailEvent δ) → List (CloudTrailEvent δ)
  | [] => []
  | event :: older => event :: supersede event (latest older)

/-- No two events are from one request. -/
def Unique (events : List (CloudTrailEvent δ)) : Prop :=
  events.Pairwise fun event event' => ¬SameRequest event event'

variable {events : List (CloudTrailEvent δ)}

omit [DecidableEq δ] in
theorem supersede_eq_self {event : CloudTrailEvent δ}
    (h : ∀ event' ∈ events, ¬SameRequest event event') : supersede event events = events :=
  filter_eq_self.mpr fun event' hevent' => decide_eq_true (h event' hevent')

omit [DecidableEq δ] in
theorem mem_supersede {event event' : CloudTrailEvent δ} :
    event' ∈ supersede event events ↔ event' ∈ events ∧ ¬SameRequest event event' := by
  rw [supersede, mem_filter, decide_eq_true_eq]

omit [DecidableEq δ] in
theorem supersede_cons (event event' : CloudTrailEvent δ) (events : List (CloudTrailEvent δ)) :
    supersede event (event' :: events) =
      if SameRequest event event' then supersede event events
      else event' :: supersede event events := by
  unfold supersede
  by_cases hsame : SameRequest event event'
  · rw [if_pos hsame, filter_cons_of_neg (by simpa using hsame)]
  · rw [if_neg hsame, filter_cons_of_pos (by simpa using hsame)]

omit [DecidableEq δ] in
theorem not_sameRequest_of {event stale event' : CloudTrailEvent δ}
    (hsame : SameRequest event stale) (h : ¬SameRequest stale event') :
    ¬SameRequest event event' :=
  fun hsame' => h ⟨hsame.1.symm.trans hsame'.1, hsame.1 ▸ hsame.2⟩

omit [DecidableEq δ] in
theorem unique_cons_supersede {event : CloudTrailEvent δ}
    (h : Unique events) : Unique (event :: supersede event events) :=
  pairwise_cons.mpr ⟨fun _ hevent' => (mem_supersede.mp hevent').2, h.filter _⟩

omit [DecidableEq δ] in
theorem unique_latest (events : List (CloudTrailEvent δ)) : Unique (latest events) := by
  induction events with
  | nil => exact List.Pairwise.nil
  | cons event older ih => exact unique_cons_supersede ih

omit [DecidableEq δ] in
theorem latest_eq_self (h : Unique events) :
    latest events = events := by
  induction events with
  | nil => rfl
  | cons event older ih =>
    rw [Unique, pairwise_cons] at h
    rw [latest, ih h.2, supersede_eq_self h.1]

theorem erase_eq_supersede {event stale : CloudTrailEvent δ}
    (hunique : Unique events) (hmem : stale ∈ events) (hsame : SameRequest event stale) :
    events.erase stale = supersede event events := by
  induction events with
  | nil => cases hmem
  | cons event' events ih =>
    rw [Unique, pairwise_cons] at hunique
    rw [supersede_cons]
    by_cases heq : event' = stale
    · subst heq
      rw [erase_cons_head, if_pos hsame, supersede_eq_self]
      exact fun other hother => not_sameRequest_of hsame (hunique.1 _ hother)
    · have hrest : stale ∈ events := (mem_cons.mp hmem).resolve_left (Ne.symm heq)
      rw [erase_cons_tail (by simpa using heq), if_neg, ih hunique.2 hrest]
      intro hsame'
      exact hunique.1 _ hrest ⟨hsame'.1.symm.trans hsame.1, hsame'.1 ▸ hsame'.2⟩

omit [DecidableEq δ] in
/-- It makes no difference to the newest events if the others are evicted before an event is
    superseded or after that. -/
theorem take_supersede (event : CloudTrailEvent δ)
    (h : Unique events) (n : Nat) :
    (supersede event (events.take (n + 1))).take n = (supersede event events).take n := by
  induction events generalizing n with
  | nil => rfl
  | cons event' events ih =>
    rw [Unique, pairwise_cons] at h
    rw [take_succ_cons, supersede_cons, supersede_cons]
    by_cases hsame : SameRequest event event'
    · have hrest : ∀ other ∈ events, ¬SameRequest event other :=
        fun other hother => not_sameRequest_of hsame (h.1 other hother)
      rw [if_pos hsame, if_pos hsame, supersede_eq_self hrest, supersede_eq_self
        fun other hother => hrest other (mem_of_mem_take hother), take_take, min_self]
    · rw [if_neg hsame, if_neg hsame]
      cases n with
      | zero => rfl
      | succ => rw [take_succ_cons, take_succ_cons, ih h.2]

/-! ### Processes -/

/-- A store, and the files that were saved by a store. -/
structure Process (δ : Type) where
  store : CloudTrailEventStore δ
  files : List (List (CloudTrailEvent δ))

/-- What is done with a store. A process may be started again, with an empty store. -/
inductive Label (δ : Type)
  | recorded (event : CloudTrailEvent δ)
  | reset
  | saved
  | loaded (file : List (CloudTrailEvent δ))
  | restarted

/-- A process with an empty store, and without files. -/
def Process.new (maxEvents : Nat) : Process δ := ⟨.new maxEvents, []⟩

def Process.next (process : Process δ) : Label δ → Option (Process δ)
  | .recorded event => some { process with store := (process.store.record event).2 }
  | .reset => some { process with store := process.store.reset }
  | .saved => some { process with files := process.store.events :: process.files }
  | .loaded file =>
    if file ∈ process.files then some { process with store := process.store.loadFromDisk file }
    else none
  | .restarted => some { process with store := .new process.store.maxEvents }

/-- What was recorded since the store was empty, the newest first. A file counts as its events,
    if it is loaded into an empty store. -/
def remember (history : List (CloudTrailEvent δ)) : Label δ → List (CloudTrailEvent δ)
  | .recorded event => event :: history
  | .reset => []
  | .saved => history
  | .loaded file => if history = [] then file else history
  | .restarted => []

omit [DecidableEq δ] in
theorem remember_loaded (past file : List (CloudTrailEvent δ)) :
    remember past (.loaded file) = if past = [] then file else past := rfl

/-- What was recorded by some steps. -/
def history (labels : List (Label δ)) : List (CloudTrailEvent δ) := labels.foldl remember []

/-- The deque is bounded and has no two events from one request, the index finds exactly its
    events, and these are the latest ones. -/
structure Agrees (history : List (CloudTrailEvent δ)) (store : CloudTrailEventStore δ) : Prop where
  bounded : store.events.length ≤ store.maxEvents
  unique : Unique store.events
  indexed : ∀ requestId, requestId ≠ [] → ∀ event,
    store.getByRequestId requestId = some event ↔
      event ∈ store.events ∧ event.requestId = requestId
  latest : store.events = (latest history).take store.maxEvents

/-- An event is recorded when the store is full, the oldest event has a request id, and another
    event has that of the new one. -/
def Misses (store : CloudTrailEventStore δ) : Label δ → Prop
  | .recorded event =>
    store.events.length = store.maxEvents ∧
      (∃ oldest ∈ store.events.getLast?, oldest.requestId ≠ [] ∧ ¬SameRequest event oldest) ∧
      ∃ stale ∈ store.events, SameRequest event stale
  | _ => False

instance (store : CloudTrailEventStore δ) (label : Label δ) : Decidable (Misses store label) :=
  match label with
  | .recorded _ => inferInstanceAs (Decidable (_ ∧ (∃ oldest ∈ store.events.getLast?, _) ∧ _))
  | .reset => inferInstanceAs (Decidable False)
  | .saved => inferInstanceAs (Decidable False)
  | .loaded _ => inferInstanceAs (Decidable False)
  | .restarted => inferInstanceAs (Decidable False)

/-! ### Recording -/

omit [DecidableEq δ] in
@[simp] theorem events_unindexOldest (store : CloudTrailEventStore δ) :
    store.unindexOldest.events = store.events := by
  unfold unindexOldest
  split
  · split
    · rfl
    · rfl
  · rfl

variable (store : CloudTrailEventStore δ)

omit [DecidableEq δ] in
@[simp] theorem maxEvents_unindexOldest : store.unindexOldest.maxEvents = store.maxEvents := by
  unfold unindexOldest
  split
  · split
    · rfl
    · rfl
  · rfl

variable (event : CloudTrailEvent δ)

@[simp] theorem maxEvents_removeStale : (store.removeStale event).maxEvents = store.maxEvents := by
  unfold removeStale
  split
  · rfl
  · split
    · rfl
    · rfl

@[simp] theorem byRequestId_removeStale :
    (store.removeStale event).byRequestId = store.byRequestId := by
  unfold removeStale
  split
  · rfl
  · split
    · rfl
    · rfl

/-- The store has its oldest event, with some request id, where it will be evicted. -/
def OldestHas (requestId : Text) : Prop :=
  store.events.length = store.maxEvents ∧
    ∃ oldest ∈ store.events.getLast?, oldest.requestId = requestId

omit [DecidableEq δ] in
theorem get?_unindexOldest_of {store : CloudTrailEventStore δ} {requestId : Text}
    (h : OldestHas store requestId) :
    store.unindexOldest.byRequestId.get? requestId = none := by
  rcases h with ⟨hfull, oldest, holdest, rfl⟩
  unfold unindexOldest
  rw [if_pos hfull, mem_def.mp holdest]
  exact (Dict.get?_erase _ _ _).trans (if_pos rfl)

omit [DecidableEq δ] in
theorem get?_unindexOldest {store : CloudTrailEventStore δ} {requestId : Text}
    (h : ¬OldestHas store requestId) :
    store.unindexOldest.byRequestId.get? requestId = store.byRequestId.get? requestId := by
  unfold unindexOldest
  split
  · next hfull =>
    split
    · next oldest holdest =>
      refine (Dict.get?_erase _ _ _).trans (if_neg fun hsame => ?_)
      exact h ⟨hfull, oldest, holdest, hsame.symm⟩
    · rfl
  · rfl

theorem record_eq :
    (store.record event).2.events = appendleft store.maxEvents event
      (store.unindexOldest.removeStale event).events ∧
    (store.record event).2.byRequestId = (if event.requestId = [] then
      store.unindexOldest.byRequestId
      else store.unindexOldest.byRequestId.set event.requestId event) ∧
    (store.record event).2.maxEvents = store.maxEvents := by
  unfold CloudTrailEventStore.record
  dsimp only
  split
  · simp [CloudTrailEventStore.add]
  · simp [CloudTrailEventStore.add]

variable {store : CloudTrailEventStore δ} {past : List (CloudTrailEvent δ)}
  {event : CloudTrailEvent δ}

omit [DecidableEq δ] in
theorem supersede_of_empty (h : event.requestId = [])
    (events : List (CloudTrailEvent δ)) : supersede event events = events :=
  supersede_eq_self fun _ _ hsame => hsame.2 h

theorem events_record (h : Agrees past store) (event : CloudTrailEvent δ) :
    (store.record event).2.events =
      (event :: supersede event store.events).take store.maxEvents := by
  rw [(record_eq _ _).1, appendleft]
  unfold removeStale
  by_cases hempty : event.requestId = []
  · rw [if_pos hempty, events_unindexOldest, supersede_of_empty hempty]
  · rw [if_neg hempty]
    by_cases holdest : OldestHas store event.requestId
    · -- The oldest event is from the same request, and it is evicted.
      rw [get?_unindexOldest_of holdest]
      rw [events_unindexOldest]
      rcases holdest with ⟨hfull, oldest, hlast, hsame⟩
      rcases getLast?_eq_some_iff.mp hlast with ⟨init, hinit⟩
      have hunique := h.unique
      rw [hinit] at hfull hunique
      have hrest : ∀ other ∈ init, ¬SameRequest event other := by
        intro other hother hsame'
        refine (pairwise_append.mp hunique).2.2 other hother oldest mem_cons_self ?_
        exact ⟨(hsame.trans hsame'.1).symm, fun hnil => hempty (hsame'.1.trans hnil)⟩
      have hkept : supersede event (init ++ [oldest]) = init := by
        rw [supersede, filter_append, ← supersede, supersede_eq_self hrest,
          filter_cons_of_neg, filter_nil, append_nil]
        simpa using ⟨hsame.symm, hempty⟩
      rw [length_append, length_singleton] at hfull
      rw [hinit, hkept, ← hfull, take_succ_cons, take_succ_cons, take_left, take_length]
    · rw [get?_unindexOldest holdest]
      cases hstale : store.byRequestId.get? event.requestId with
      | none =>
        rw [events_unindexOldest, supersede_eq_self]
        intro other hother hsame
        have hindexed := (h.indexed _ hempty _).mpr ⟨hother, hsame.1.symm⟩
        rw [getByRequestId, hstale] at hindexed
        cases hindexed
      | some =>
        dsimp only
        rcases (h.indexed _ hempty _).mp hstale with ⟨hmem, hid⟩
        rw [events_unindexOldest, erase_eq_supersede h.unique hmem ⟨hid.symm, hempty⟩]

theorem get?_record {requestId : Text} (hne : requestId ≠ event.requestId) :
    (store.record event).2.getByRequestId requestId =
      store.unindexOldest.byRequestId.get? requestId := by
  rw [getByRequestId, (record_eq _ _).2.1]
  split
  · rfl
  · rw [Dict.get?_set, if_neg hne]

theorem indexed_record (h : Agrees past store) (hpos : 0 < store.maxEvents)
    (hmisses : ¬Misses store (.recorded event)) (requestId : Text) (hid : requestId ≠ [])
    (found : CloudTrailEvent δ) :
    (store.record event).2.getByRequestId requestId = some found ↔
      found ∈ (store.record event).2.events ∧ found.requestId = requestId := by
  rw [events_record h]
  rcases Nat.exists_eq_add_one.mpr hpos with ⟨room, hroom⟩
  by_cases hsame : requestId = event.requestId
  · subst hsame
    rw [getByRequestId, (record_eq _ _).2.1, if_neg hid, Dict.get?_set,
      if_pos rfl, some.injEq]
    constructor
    · intro heq
      subst heq
      rw [hroom]
      exact ⟨mem_cons_self, rfl⟩
    · rintro ⟨hmem, hfound⟩
      rcases mem_cons.mp (mem_of_mem_take hmem) with heq | hmem
      · exact heq.symm
      · exact absurd ⟨hfound.symm, hid⟩ (mem_supersede.mp hmem).2
  · rw [get?_record hsame]
    by_cases hstale : ∃ stale ∈ store.events, SameRequest event stale
    · -- There is room for all the others.
      have hall : (event :: supersede event store.events).take store.maxEvents =
          event :: supersede event store.events := by
        refine take_of_length_le ?_
        have hless : (supersede event store.events).length < store.events.length :=
          length_filter_lt_length_iff_exists.mpr
            (hstale.imp fun stale hs => ⟨hs.1, by simpa using hs.2⟩)
        have hbounded := h.bounded
        rw [length_cons]
        omega
      have holdest : ¬OldestHas store requestId := by
        rintro ⟨hfull, oldest, hlast, rfl⟩
        exact hmisses ⟨hfull, ⟨oldest, hlast, hid, fun hs => hsame hs.1.symm⟩, hstale⟩
      rw [get?_unindexOldest holdest, ← getByRequestId, h.indexed _ hid, hall]
      refine and_congr_left fun hfound => ?_
      subst hfound
      rw [mem_cons, mem_supersede]
      constructor
      · exact fun hmem => .inr ⟨hmem, fun hs => hsame hs.1.symm⟩
      · rintro (heq | hmem)
        · exact absurd (congrArg CloudTrailEvent.requestId heq) hsame
        · exact hmem.1
    · have hkept : supersede event store.events = store.events :=
        supersede_eq_self fun other hother hs => hstale ⟨other, hother, hs⟩
      rw [hkept]
      by_cases holdest : OldestHas store requestId
      · -- The oldest event is evicted, and the index entry goes with it.
        rw [get?_unindexOldest_of holdest]
        rcases holdest with ⟨hfull, oldest, hlast, rfl⟩
        rcases getLast?_eq_some_iff.mp hlast with ⟨init, hinit⟩
        have hunique := h.unique
        rw [hinit] at hfull hunique
        rw [length_append, length_singleton] at hfull
        rw [hinit, ← hfull, take_succ_cons, take_left]
        refine ⟨nofun, fun hmem => ?_⟩
        rcases mem_cons.mp hmem.1 with heq | hfound
        · exact absurd (hmem.2.symm.trans (congrArg CloudTrailEvent.requestId heq)) hsame
        · exact absurd ⟨hmem.2, hmem.2 ▸ hid⟩
            ((pairwise_append.mp hunique).2.2 found hfound oldest mem_cons_self)
      · rw [get?_unindexOldest holdest, ← getByRequestId, h.indexed _ hid]
        refine and_congr_left fun hfound => ?_
        subst hfound
        rw [hroom, take_succ_cons, mem_cons]
        have hne : found ≠ event := fun heq => hsame (congrArg CloudTrailEvent.requestId heq)
        rw [or_iff_right hne]
        by_cases hfull : store.events.length = store.maxEvents
        · -- Only the oldest event is evicted, and it is another one.
          rcases eq_nil_or_concat store.events with hnil | ⟨init, oldest, hinit⟩
          · rw [hnil, take_nil]
          · rw [concat_eq_append] at hinit
            have hother : found ≠ oldest := by
              rintro rfl
              exact holdest ⟨hfull, found, by rw [hinit, getLast?_concat]; rfl, rfl⟩
            rw [hinit, length_append, length_singleton, hroom] at hfull
            rw [hinit, ← Nat.succ.inj hfull, take_left, mem_append, mem_singleton,
              or_iff_left hother]
        · have hbounded := h.bounded
          rw [take_of_length_le (by omega)]

/-- When an event may be recorded. -/
theorem agrees_record (h : Agrees past store) (hpos : 0 < store.maxEvents)
    (hmisses : ¬Misses store (.recorded event)) :
    Agrees (event :: past) (store.record event).2 := by
  have hcapacity := (record_eq store event).2.2
  constructor
  · rw [events_record h, hcapacity]
    exact length_take_le _ _
  · rw [events_record h]
    exact (unique_cons_supersede h.unique).sublist (take_sublist _ _)
  · exact indexed_record h hpos hmisses
  · rcases Nat.exists_eq_add_one.mpr hpos with ⟨room, hroom⟩
    rw [events_record h, hcapacity, CloudTrail.latest, h.latest, hroom, take_succ_cons,
      take_succ_cons, take_supersede _ (unique_latest _)]

theorem not_agrees_record {past' : List (CloudTrailEvent δ)} (h : Agrees past store)
    (hmisses : Misses store (.recorded event)) : ¬Agrees past' (store.record event).2 := by
  rcases hmisses with ⟨hfull, ⟨oldest, hlast, hid, hother⟩, stale, hstale, hsame⟩
  intro hagrees
  have hne : oldest.requestId ≠ event.requestId := fun heq => hother ⟨heq.symm, heq ▸ hid⟩
  have hlost : (store.record event).2.getByRequestId oldest.requestId = none := by
    rw [get?_record hne]
    exact get?_unindexOldest_of ⟨hfull, oldest, hlast, rfl⟩
  have hkept : oldest ∈ (store.record event).2.events := by
    rw [events_record h, take_of_length_le]
    · have hmem := mem_of_getLast? hlast
      exact mem_cons_of_mem _ (mem_supersede.mpr ⟨hmem, hother⟩)
    · have hless : (supersede event store.events).length < store.events.length :=
        length_filter_lt_length_iff_exists.mpr ⟨stale, hstale, by simpa using hsame⟩
      rw [length_cons]
      omega
  have hfound := (hagrees.indexed _ hid _).mpr ⟨hkept, rfl⟩
  rw [hlost] at hfound
  cases hfound

/-! ### Loading -/

omit [DecidableEq δ] in
theorem foldr_add (hevents : store.events = [])
    (hindex : ∀ requestId, requestId ≠ [] → store.getByRequestId requestId = none)
    {file : List (CloudTrailEvent δ)} (hbounded : file.length ≤ store.maxEvents)
    (hunique : Unique file) :
    let loaded := file.foldr (fun event store => store.add event) store
    loaded.events = file ∧ loaded.maxEvents = store.maxEvents ∧
      ∀ requestId, requestId ≠ [] → ∀ event, loaded.getByRequestId requestId = some event ↔
        event ∈ file ∧ event.requestId = requestId := by
  induction file with
  | nil =>
    refine ⟨hevents, rfl, fun requestId hid event => ?_⟩
    rw [foldr_nil, hindex requestId hid]
    exact ⟨nofun, fun hmem => absurd hmem.1 not_mem_nil⟩
  | cons event file ih =>
    rw [length_cons] at hbounded
    rw [Unique, pairwise_cons] at hunique
    rcases ih (by omega) hunique.2 with ⟨hfile, hcapacity, hindexed⟩
    rw [foldr_cons]
    refine ⟨?_, hcapacity, fun requestId hid found => ?_⟩
    · rw [CloudTrailEventStore.add, appendleft, hfile, hcapacity]
      exact take_of_length_le hbounded
    · rw [CloudTrailEventStore.add, getByRequestId, mem_cons]
      have hold := hindexed requestId hid found
      rw [getByRequestId] at hold
      by_cases hsame : requestId = event.requestId
      · subst hsame
        rw [if_neg hid, Dict.get?_set, if_pos rfl, some.injEq]
        constructor
        · exact fun heq => ⟨.inl heq.symm, congrArg _ heq.symm⟩
        · rintro ⟨heq | hmem, hfound⟩
          · exact heq.symm
          · exact absurd ⟨hfound.symm, hid⟩ (hunique.1 found hmem)
      · have hnot : found.requestId = requestId → found ≠ event :=
          fun hfound heq => hsame (hfound.symm.trans (congrArg _ heq))
        have hindex' : (if event.requestId = [] then
            (file.foldr (fun event store => store.add event) store).byRequestId
            else (file.foldr (fun event store => store.add event) store).byRequestId.set
              event.requestId event).get? requestId =
            (file.foldr (fun event store => store.add event) store).byRequestId.get?
              requestId := by
          split
          · rfl
          · rw [Dict.get?_set, if_neg hsame]
        rw [hindex', hold]
        exact and_congr_left fun hfound => (or_iff_right (hnot hfound)).symm

omit [DecidableEq δ] in
theorem agrees_loadFromDisk (h : Agrees past store) (hpos : 0 < store.maxEvents)
    {file : List (CloudTrailEvent δ)}
    (hbounded : file.length ≤ store.maxEvents) (hunique : Unique file) :
    Agrees (remember past (.loaded file)) (store.loadFromDisk file) ∧
      (store.loadFromDisk file).maxEvents = store.maxEvents := by
  rcases Nat.exists_eq_add_one.mpr hpos with ⟨room, hroom⟩
  unfold CloudTrailEventStore.loadFromDisk
  cases past with
  | cons =>
    have hevents : 0 < store.events.length := by
      rw [h.latest, latest, hroom, take_succ_cons, length_cons]
      exact Nat.succ_pos _
    rw [if_pos hevents, remember_loaded, if_neg (cons_ne_nil _ _)]
    exact ⟨h, rfl⟩
  | nil =>
    have hevents : store.events = [] := by rw [h.latest, latest, take_nil]
    have hindex : ∀ requestId, requestId ≠ [] → store.getByRequestId requestId = none := by
      intro requestId hid
      cases hget : store.getByRequestId requestId with
      | none => rfl
      | some event =>
        have hmem := ((h.indexed _ hid event).mp hget).1
        rw [hevents] at hmem
        cases hmem
    have hempty : ¬0 < store.events.length := by rw [hevents]; exact Nat.lt_irrefl _
    rw [if_neg hempty, remember_loaded, if_pos rfl, foldl_reverse]
    rcases foldr_add hevents hindex hbounded hunique with ⟨hfile, hcapacity, hindexed⟩
    refine ⟨⟨?_, ?_, ?_, ?_⟩, hcapacity⟩
    · rw [hfile, hcapacity]
      exact hbounded
    · rw [hfile]
      exact hunique
    · rw [hfile]
      exact hindexed
    · rw [hfile, hcapacity, latest_eq_self hunique, take_of_length_le hbounded]

/-! ### Runs -/

/-- The store agrees with what was recorded, and the files are such as it can load. -/
structure Sound (maxEvents : Nat) (past : List (CloudTrailEvent δ)) (process : Process δ) :
    Prop where
  agrees : Agrees past process.store
  capacity : process.store.maxEvents = maxEvents
  files : ∀ file ∈ process.files, file.length ≤ maxEvents ∧ Unique file

omit [DecidableEq δ] in
theorem agrees_empty (maxEvents count : Nat) :
    Agrees [] (⟨[], .empty, maxEvents, count⟩ : CloudTrailEventStore δ) :=
  ⟨Nat.zero_le _, List.Pairwise.nil, fun _ _ _ =>
    ⟨fun h => (by cases h), fun h => absurd h.1 not_mem_nil⟩, take_nil.symm⟩

theorem sound_next {maxEvents : Nat} (hpos : 0 < maxEvents) {p q : Process δ} {label : Label δ}
    (h : Sound maxEvents past p)
    (hstep : Takes Process.next p label q) (hmisses : ¬Misses p.store label) :
    Sound maxEvents (remember past label) q := by
  have hpos' : 0 < p.store.maxEvents := h.capacity ▸ hpos
  cases label with
  | recorded =>
    cases some.inj hstep
    exact ⟨agrees_record h.agrees hpos' hmisses, (record_eq _ _).2.2.trans h.capacity, h.files⟩
  | reset | restarted =>
    cases some.inj hstep
    exact ⟨agrees_empty _ _, h.capacity, h.files⟩
  | saved =>
    cases some.inj hstep
    refine ⟨h.agrees, h.capacity, fun file hfile => ?_⟩
    rcases mem_cons.mp hfile with rfl | hfile
    · exact ⟨h.capacity ▸ h.agrees.bounded, h.agrees.unique⟩
    · exact h.files _ hfile
  | loaded file =>
    have hloaded : (if file ∈ p.files then
        some { p with store := p.store.loadFromDisk file } else none) = some q := hstep
    by_cases hfile : file ∈ p.files
    · rw [if_pos hfile, some.injEq] at hloaded
      subst hloaded
      rcases h.files _ hfile with ⟨hbounded, hunique⟩
      rcases agrees_loadFromDisk h.agrees hpos' (h.capacity ▸ hbounded) hunique with
        ⟨hagrees, hcapacity⟩
      exact ⟨hagrees, hcapacity.trans h.capacity, h.files⟩
    · rw [if_neg hfile] at hloaded
      cases hloaded

omit [DecidableEq δ] in
theorem history_concat (labels : List (Label δ)) (label : Label δ) :
    history (labels ++ [label]) = remember (history labels) label := by
  rw [history, foldl_append]
  rfl

theorem sound_of_runs {maxEvents : Nat} (hpos : 0 < maxEvents) {labels : List (Label δ)}
    {p : Process δ} (hrun : Runs (Takes Process.next) (.new maxEvents) labels p)
    (halong : Along (Takes Process.next) (fun p label => ¬Misses p.store label) (.new maxEvents)
      labels) : Sound maxEvents (history labels) p := by
  induction labels using reverseRecOn generalizing p with
  | nil =>
    cases hrun
    exact ⟨agrees_empty _ _, rfl, nofun⟩
  | append_singleton labels label ih =>
    rcases hrun.split with ⟨q, hbefore, hlast⟩
    rw [Runs.along_concat_iff] at halong
    rw [history_concat]
    cases hlast with
    | cons _ r _ _ _ hstep hnil =>
      cases hnil
      exact sound_next hpos (ih hbefore halong.1) hstep (halong.2 q hbefore)

/-- The index and the deque agree in all states of a run if and only if no event is recorded in
    the wrong moment. -/
theorem request_index_agrees (maxEvents : Nat) (hpos : 0 < maxEvents) (labels : List (Label δ))
    (p : Process δ) (hrun : Runs (Takes Process.next) (.new maxEvents) labels p) :
    (∀ before after q, labels = before ++ after →
      Runs (Takes Process.next) (.new maxEvents) before q → Agrees (history before) q.store) ↔
    Along (Takes Process.next) (fun p label => ¬Misses p.store label) (.new maxEvents) labels := by
  constructor
  · intro hagrees before label after q hlabels hbefore hmisses
    subst hlabels
    rcases hrun.split with ⟨q', hbefore', hrest⟩
    cases Runs.unique hbefore hbefore'
    cases hrest with
    | cons _ r _ _ _ hstep _ =>
      have hnow := hagrees _ _ q rfl hbefore
      have hnext := hagrees _ _ r
        (by rw [append_assoc, singleton_append])
        (hbefore.append (.cons _ _ _ _ _ hstep (.nil _)))
      cases label with
      | recorded =>
        cases some.inj hstep
        exact not_agrees_record hnow hmisses hnext
      | _ => exact hmisses
  · intro halong before after q hlabels hbefore
    subst hlabels
    exact (sound_of_runs hpos hbefore (Runs.along_left halong)).agrees

/-! ### Examples -/

def exampleEvent (id : Char) (requestId : String) : CloudTrailEvent Unit :=
  ⟨⟨[id], List.cons_ne_nil _ _⟩, 0, [], [], false, [], [], [], requestId.toList,
    "Management".toList, ()⟩

def exampleLabels : List (Label Unit) :=
  [.recorded (exampleEvent 'a' "r1"), .recorded (exampleEvent 'b' "r2"),
    .recorded (exampleEvent 'c' "r1"), .saved, .restarted,
    .loaded [exampleEvent 'c' "r1", exampleEvent 'b' "r2"]]

theorem request_index_agrees_of_exampleLabels :
    ∃ p, Runs (Takes Process.next) (.new 2) exampleLabels p ∧
      Agrees (history exampleLabels) p.store := by
  cases hall : takeAll Process.next (Process.new 2) exampleLabels with
  | none =>
    have hsome : (takeAll Process.next (Process.new 2) exampleLabels).isSome = true := by
      decide +kernel
    rw [hall] at hsome
    cases hsome
  | some p =>
    have hrun := Runs.of_takeAll _ _ _ hall
    have halong : Along (Takes Process.next) (fun p label => ¬Misses p.store label) (.new 2)
        exampleLabels := by
      intro before label after q hlabels hbefore
      exact of_decide_eq_true (Runs.along_of_check
        (C := fun p label => decide (¬Misses p.store label)) _ _
        (by decide +kernel) _ _ _ q hlabels hbefore)
    exact ⟨p, hrun, (request_index_agrees 2 (by decide) _ p hrun).mpr halong
      exampleLabels [] p (append_nil _).symm hrun⟩

/-- The oldest event of a full store is not found any more, when another one is superseded. -/
theorem lost_index_of_exampleEvent :
    ((takeAll Process.next (Process.new 2) [.recorded (exampleEvent 'a' "r1"),
      .recorded (exampleEvent 'b' "r2"), .recorded (exampleEvent 'c' "r2")]).map
        fun p => (p.store.events, p.store.getByRequestId "r1".toList)) =
      some ([exampleEvent 'c' "r2", exampleEvent 'a' "r1"], none) := by
  decide +kernel

end LocalEmu.CloudTrail
