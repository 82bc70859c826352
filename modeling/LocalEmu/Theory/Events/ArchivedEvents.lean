import LocalEmu.Core.Events.Archive

/-!
# Archived Events

A formatted event has its time as a text, and the archive takes it for a point in
time. So the archive raises as soon as it has an event.
-/

namespace LocalEmu.Events

variable {V : Type} (lib : EventLibrary V)

variable (events : List (FormattedEvent V)) (event : FormattedEvent V)

def Formatted : Prop :=
  ∃ now uid entry region accountId eventBusName,
    formatEvent lib now uid entry region accountId eventBusName = some event

/-- The archive after the events were put to it, one by one. -/
def archiveOf : Archive V :=
  events.foldl (fun archive event => archive.putEvents [event]) ⟨Dict.empty⟩

/-- The time of the event, rounded down to the minute, is between the bounds. -/
def Within (startTime endTime : Int) (event : FormattedEvent V) : Prop :=
  ∃ t, (event.time = .datetime t ∨ event.time = .text (lib.strftime t)) ∧
    normalizeDatetime startTime ≤ normalizeDatetime t ∧
    normalizeDatetime t ≤ normalizeDatetime endTime

/-- The entry of a replay is formatted to the same event. -/
def Restores (entry : PutEventsRequestEntry) : Prop :=
  ∀ now uid region accountId eventBusName, ∃ restored,
    formatEvent lib now uid entry region accountId eventBusName = some restored ∧
      restored.source = event.source ∧ restored.detailType = event.detailType ∧
      restored.detail = event.detail ∧ restored.resources = event.resources ∧
      restored.time = event.time

variable (archive : Archive V)

/-- The archive returns the events of the window, and they are restored. -/
def Replays (startTime endTime : Int) : Prop :=
  ∃ events, archive.getEvents startTime endTime = some events ∧
    (∀ event, event ∈ events ↔
      event ∈ archive.events.values ∧ Within lib startTime endTime event) ∧
    ∀ event ∈ events, ∀ eventBusName replayName, ∃ entry,
      reFormatEventsFromArchive lib event eventBusName replayName = some entry ∧
        Restores lib event entry

/-- The time of a formatted event is a text. -/
theorem time_of_formatEvent (h : Formatted lib event) : ∃ s, event.time = .text s := by
  obtain ⟨now, uid, entry, region, accountId, eventBusName, h⟩ := h
  simp only [formatEvent, Option.bind_eq_some_iff, Option.map_eq_some_iff] at h
  obtain ⟨message, -, eventTime, -, detail, -, rfl⟩ := h
  exact ⟨_, rfl⟩

theorem values_archiveOf : (∀ event ∈ (archiveOf events).events.values, event ∈ events) ∧
      ((archiveOf events).events.entries = [] ↔ events = []) := by
  induction events using List.reverseRecOn with
  | nil => simp [archiveOf, Dict.empty, Dict.values]
  | append_singleton events last ih =>
    have hset : (archiveOf (events ++ [last])).events =
        (archiveOf events).events.set last.id last := by
      rw [archiveOf, List.foldl_append]
      rfl
    rw [hset]
    constructor
    · intro event hevent
      obtain ⟨entry, hentry, rfl⟩ := List.mem_map.mp hevent
      rcases (Dict.mem_entries_set _ _ _ _).mp hentry with rfl | ⟨-, hold⟩
      · simp
      · exact List.mem_append_left _ (ih.1 _ (List.mem_map_of_mem hold))
    · simp [Dict.set_ne_nil]

/-- What an archive of such events returns. -/
theorem getEvents_of_texts (startTime endTime : Int)
    (h : ∀ event ∈ archive.events.values, ∃ s, event.time = .text s) :
    archive.getEvents startTime endTime =
      if archive.events.entries = [] then some [] else none := by
  rw [Archive.getEvents]
  cases hentries : archive.events.entries with
  | nil => simp [Dict.values, hentries]
  | cons entry =>
    obtain ⟨s, hs⟩ := h entry.2 (by simp [Dict.values, hentries])
    simp [Dict.values, hentries, Archive.normalizedTime, hs, List.mapM_cons]

/-- The events of a window are replayed if and only if none was put to the archive. -/
theorem replays_iff (hevents : ∀ event ∈ events, Formatted lib event) (startTime endTime : Int) :
    Replays lib (archiveOf events) startTime endTime ↔ events = [] := by
  obtain ⟨hvalues, hnil⟩ := values_archiveOf _
  have hget := getEvents_of_texts _ startTime endTime fun event hevent =>
    time_of_formatEvent _ _ (hevents _ (hvalues event hevent))
  by_cases hempty : events = []
  · rw [Replays, hget]
    subst hempty
    simp [archiveOf, Dict.empty, Dict.values]
  · rw [Replays, hget, if_neg (hnil.not.mpr hempty)]
    simp [hempty]

/-! ### An archived event -/

/-- There is one time, and details are empty. -/
def emptyLibrary : EventLibrary Unit where
  loads _ := some ()
  dumps _ := ['\x7b', '\x7d']
  strftime _ := "1970-01-01T00:00:00Z".toList
  origin _ := none

def orderPlaced : FormattedEvent Unit :=
  ⟨['1'], some ['o'], some ['s'], [], .text "1970-01-01T00:00:00Z".toList, [], [], (), [], none⟩

theorem formatted_orderPlaced : Formatted emptyLibrary orderPlaced :=
  ⟨0, ['1'], ⟨some ['s'], some ['o'], some ['\x7b', '\x7d'], none, some (.datetime 0), none, none,
    none⟩, [], [], [], rfl⟩

theorem not_replays_orderPlaced : ¬Replays emptyLibrary (archiveOf [orderPlaced]) 0 0 := fun h =>
  List.cons_ne_nil _ _ ((replays_iff _ [orderPlaced] (fun event hevent => by
    cases List.mem_singleton.mp hevent
    exact formatted_orderPlaced) 0 0).mp h)

theorem getEvents_orderPlaced :
    Formatted emptyLibrary orderPlaced ∧ (archiveOf [orderPlaced]).getEvents 0 0 = none :=
  ⟨formatted_orderPlaced, rfl⟩

end LocalEmu.Events
