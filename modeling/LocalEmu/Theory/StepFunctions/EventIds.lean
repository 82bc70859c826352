import Mathlib.Data.List.Basic
import LocalEmu.Core.StepFunctions.EventHistory

/-!
# Ids In Event Histories

The ids of the events of a history count up from one, and every event follows an earlier one
or the start of the execution, in whatever order the threads of the execution get to run.

Every id that some thread can get hold of was taken from the generator: the ids in the
contexts of open and closed frames, those that a call of `integrate` has read, and the one
that the event underway follows. Only the event that holds the lock can have an id that is
not in the history yet, and no other event is added before it.
-/

namespace LocalEmu.StepFunctions

open List Option

variable {τ δ : Type}

/-- The ids count up from one, and each event follows the start or an earlier event. -/
def WellFormed (history : List (HistoryEvent τ δ)) : Prop :=
  history.map HistoryEvent.id = List.range' 1 history.length ∧
    ∀ (i : Nat) (event : HistoryEvent τ δ), history[i]? = some event →
      event.previousEventId = 0 ∨
        ∃ (j : Nat) (earlier : HistoryEvent τ δ),
          j < i ∧ history[j]? = some earlier ∧ earlier.id = event.previousEventId

/-- The ids that a call of `integrate` has read are below a bound. -/
def IntegratePhase.Below (bound : Nat) : IntegratePhase → Prop
  | .readOwn _ => True
  | .readOther _ own => own < bound
  | .write _ value => value < bound

namespace Histories

/-- Every id that a thread can read was issued, and so were those of the history. -/
structure Numbered (w : Histories τ δ) : Prop where
  contexts : ∀ context ∈ w.contexts, ∀ field, context.get field < w.nextId
  integrating : ∀ i ∈ w.integrating, i.phase.Below w.nextId
  adding : ∀ adding, w.adding = some adding →
    adding.eventId + 1 = w.nextId ∧ adding.sourceEventId < adding.eventId
  nextId : w.nextId = w.historyEventList.length + 1 + w.adding.toList.length
  ids : w.historyEventList.map HistoryEvent.id = List.range' 1 w.historyEventList.length
  previous : ∀ (i : Nat) (event : HistoryEvent τ δ), w.historyEventList[i]? = some event →
    event.previousEventId ≤ i

variable {w : Histories τ δ}

theorem Numbered.wellFormed (h : w.Numbered) : WellFormed w.historyEventList := by
  refine ⟨h.ids, ?_⟩
  intro i event hevent
  have hprevious := h.previous i _ hevent
  have hi : i < w.historyEventList.length := (List.getElem?_eq_some_iff.mp hevent).1
  cases hp : event.previousEventId with
  | zero => exact .inl rfl
  | succ j =>
    have hj : j < w.historyEventList.length := by omega
    have hid := congrArg (fun ids => ids[j]?) h.ids
    rw [getElem?_map, getElem?_range' hj, getElem?_eq_getElem hj, map_some, some.injEq] at hid
    refine .inr ⟨j, w.historyEventList[j], by omega, getElem?_eq_getElem hj, ?_⟩
    omega

theorem initial_numbered : (initial : Histories τ δ).Numbered where
  contexts := by
    intro context hcontext field
    rw [mem_singleton.mp hcontext]
    cases field <;> exact Nat.zero_lt_one
  integrating := by simp [initial]
  adding := by simp [initial]
  nextId := rfl
  ids := rfl
  previous := by simp [initial]

/-! ### Reading and writing contexts -/

theorem nextId_pos (h : w.Numbered) : 0 < w.nextId := by
  have := h.nextId
  omega

theorem read_lt (h : w.Numbered) (env : Nat) (field : ContextField) :
    w.read env field < w.nextId := by
  unfold read
  cases hcontext : w.contexts[env]? with
  | none => exact nextId_pos h
  | some => exact h.contexts _ (mem_of_getElem? hcontext) _

theorem get_set_lt {context : EventHistoryContext} {bound value : Nat}
    (h : ∀ field, context.get field < bound) (hvalue : value < bound)
    (written field : ContextField) : (context.set written value).get field < bound := by
  have hfield := h field
  cases written <;> cases field <;> assumption

theorem mem_modify {α : Type} (f : α → α) (l : List α) (i : Nat) (a : α)
    (h : a ∈ l.modify i f) : a ∈ l ∨ ∃ b ∈ l, a = f b := by
  rcases mem_iff_getElem?.mp h with ⟨j, hj⟩
  rw [getElem?_modify] at hj
  cases hb : l[j]? with
  | none => rw [hb] at hj; cases hj
  | some b =>
    have hmem : b ∈ l := mem_of_getElem? hb
    rw [hb, Option.map_eq_map, Option.map_some, Option.some.injEq] at hj
    by_cases hij : i = j
    · rw [if_pos hij] at hj
      exact .inr ⟨b, hmem, hj.symm⟩
    · rw [if_neg hij] at hj
      exact .inl (hj ▸ hmem)

theorem write_numbered (h : w.Numbered) (env : Nat) (field : ContextField) {value : Nat}
    (hvalue : value < w.nextId) : (w.write env field value).Numbered where
  contexts := by
    intro context hcontext
    rcases mem_modify _ _ _ _ hcontext with hold | ⟨before, hbefore, rfl⟩
    · exact h.contexts _ hold
    · exact get_set_lt (h.contexts _ hbefore) hvalue _
  integrating := h.integrating
  adding := h.adding
  nextId := h.nextId
  ids := h.ids
  previous := h.previous

theorem goOn_numbered (h : w.Numbered) (index : Nat) {phase : IntegratePhase}
    (hphase : phase.Below w.nextId) : (w.goOn index phase).Numbered where
  contexts := h.contexts
  integrating := by
    intro i hi
    rcases mem_modify _ _ _ _ hi with hold | ⟨before, -, rfl⟩
    · exact h.integrating i hold
    · exact hphase
  adding := h.adding
  nextId := h.nextId
  ids := h.ids
  previous := h.previous

/-! ### Adding events -/

variable {t : Histories τ δ}

theorem addEvent_numbered (h : w.Numbered) (call : AddEvent τ δ)
    (hstep : w.addEvent call = some t) : t.Numbered := by
  unfold addEvent at hstep
  cases hadding : w.adding with
  | some => rw [hadding] at hstep; cases hstep
  | none =>
    cases hcontext : w.contexts[call.env]? with
    | none => rw [hadding, hcontext] at hstep; cases hstep
    | some =>
      rw [hadding, hcontext] at hstep
      cases hstep
      -- The new id is above all that were issued, the source event among them.
      have hnext := h.nextId
      rw [hadding] at hnext
      exact {
        contexts := fun c hc field => Nat.lt_succ_of_lt (h.contexts c hc _)
        integrating := by
          intro i hi
          have hbelow := h.integrating i hi
          cases hphase : i.phase with
          | readOwn => trivial
          | readOther | write =>
            rw [hphase] at hbelow
            exact Nat.lt_succ_of_lt hbelow
        adding := by
          intro adding heq
          cases heq
          exact ⟨rfl, h.contexts _ (mem_of_getElem? hcontext) .sourceEventId⟩
        nextId := by simpa using hnext
        ids := h.ids
        previous := h.previous }

theorem setPhase_numbered (h : w.Numbered) {adding : Adding τ δ} (hadding : w.adding = some adding)
    (phase : AddPhase) :
    Numbered { w with adding := some { adding with phase := phase } } where
  contexts := h.contexts
  integrating := h.integrating
  adding := by
    intro later heq
    cases heq
    exact h.adding adding hadding
  nextId := by
    have hnext := h.nextId
    rw [hadding] at hnext
    exact hnext
  ids := h.ids
  previous := h.previous

theorem publish_numbered (h : w.Numbered) {adding : Adding τ δ} (hadding : w.adding = some adding) :
    Numbered { w with
      historyEventList := w.historyEventList ++ [adding.createHistoryEvent]
      adding := none } where
  contexts := h.contexts
  integrating := h.integrating
  adding := by simp
  nextId := by
    have hnext := h.nextId
    rw [hadding] at hnext
    simpa using hnext
  ids := by
    have hnext := h.nextId
    have hid := (h.adding _ hadding).1
    rw [hadding, toList_some, length_singleton] at hnext
    have hlength : adding.eventId = 1 + w.historyEventList.length := by omega
    rw [map_append, h.ids, length_append, length_singleton, range'_concat]
    simp only [map_cons, map_nil, Adding.createHistoryEvent, hlength, Nat.one_mul]
  previous := by
    intro i event hevent
    have hnext := h.nextId
    have hids := h.adding _ hadding
    rw [hadding, toList_some, length_singleton] at hnext
    by_cases hi : i < w.historyEventList.length
    · rw [getElem?_append_left hi] at hevent
      exact h.previous i _ hevent
    · rw [getElem?_append_right (by omega), getElem?_singleton] at hevent
      by_cases hlast : i - w.historyEventList.length = 0
      · rw [if_pos hlast, some.injEq] at hevent
        rw [← hevent]
        simp only [Adding.createHistoryEvent]
        omega
      · rw [if_neg hlast] at hevent
        cases hevent

theorem continueAdd_numbered (h : w.Numbered) (hstep : w.continueAdd = some t) : t.Numbered := by
  unfold continueAdd at hstep
  cases hadding : w.adding with
  | none => rw [hadding] at hstep; cases hstep
  | some adding =>
    have hissued : adding.eventId < w.nextId := by
      have := (h.adding _ hadding).1
      omega
    rw [hadding, map_some, some.injEq] at hstep
    rw [← hstep]
    cases hphase : adding.phase with
    | writeLastPublished =>
      exact setPhase_numbered
        (write_numbered h _ .lastPublishedEventId hissued) hadding .writeSource
    | writeSource =>
      by_cases hupdate : adding.call.updateSourceEventId = true
      · simp only [hupdate, if_true]
        exact setPhase_numbered (write_numbered h _ .sourceEventId hissued) hadding .publish
      · simp only [hupdate]
        exact setPhase_numbered h hadding .publish
    | publish => exact publish_numbered h hadding

/-! ### Opening and closing frames -/

theorem asInnerFrameOf_numbered (h : w.Numbered) (env : Nat)
    (hstep : w.asInnerFrameOf env = some t) : t.Numbered := by
  unfold asInnerFrameOf at hstep
  by_cases hlocked : w.locked env = true
  · rw [if_pos hlocked] at hstep
    cases hstep
  · rw [if_neg hlocked, map_eq_some_iff] at hstep
    rcases hstep with ⟨context, hcontext, rfl⟩
    have hsource := h.contexts _ (mem_of_getElem? hcontext) .sourceEventId
    exact { h with
      contexts := by
        intro c hc field
        rcases mem_append.mp hc with hold | hnew
        · exact h.contexts c hold _
        · rw [mem_singleton.mp hnew]
          cases field <;> exact hsource }

theorem closeFrame_numbered (h : w.Numbered) (env frame : Nat)
    (hstep : w.closeFrame env frame = some t) : t.Numbered := by
  unfold closeFrame at hstep
  by_cases hlocked : w.locked env = true
  · rw [if_pos hlocked] at hstep
    cases hstep
  · rw [if_neg hlocked] at hstep
    by_cases hmem : (env, frame) ∈ w.frames
    · rw [if_pos hmem, some.injEq] at hstep
      rw [← hstep]
      exact { h with
        integrating := by
          intro i hi
          rcases mem_append.mp hi with hold | hnew
          · exact h.integrating i hold
          · rw [mem_singleton.mp hnew]
            trivial }
    · rw [if_neg hmem, some.injEq] at hstep
      exact hstep ▸ h

theorem deleteFrame_numbered (h : w.Numbered) (env frame : Nat)
    (hstep : w.deleteFrame env frame = some t) : t.Numbered := by
  unfold deleteFrame at hstep
  by_cases hlocked : w.locked env = true
  · rw [if_pos hlocked] at hstep
    cases hstep
  · rw [if_neg hlocked, some.injEq] at hstep
    rw [← hstep]
    exact { h with }

theorem continueIntegrate_numbered (h : w.Numbered) (index : Nat)
    (hstep : w.continueIntegrate index = some t) : t.Numbered := by
  unfold continueIntegrate at hstep
  rw [map_eq_some_iff] at hstep
  rcases hstep with ⟨i, hi, rfl⟩
  have hbelow := h.integrating i (mem_of_getElem? hi)
  cases hphase : i.phase with
  | readOwn => exact goOn_numbered h _ (read_lt h _ _)
  | readOther =>
    rw [hphase] at hbelow
    exact goOn_numbered h _ (Nat.max_lt.mpr ⟨hbelow, read_lt h _ _⟩)
  | write field =>
    rw [hphase] at hbelow
    have hwritten := write_numbered h i.env field hbelow
    cases field with
    | sourceEventId => exact goOn_numbered hwritten _ trivial
    | lastPublishedEventId =>
      exact { hwritten with integrating := fun j hj => h.integrating j (mem_of_mem_eraseIdx hj) }

theorem abort_numbered (h : w.Numbered) (env : Nat)
    (hstep : w.abort env = some t) : t.Numbered := by
  unfold abort at hstep
  rw [map_eq_some_iff] at hstep
  rcases hstep with ⟨-, -, rfl⟩
  exact write_numbered h _ .sourceEventId (nextId_pos h)

theorem adoptPublished_numbered (h : w.Numbered) (env frame : Nat)
    (hstep : w.adoptPublished env frame = some t) : t.Numbered := by
  unfold adoptPublished at hstep
  cases henv : w.contexts[env]? with
  | none => rw [henv] at hstep; cases hstep
  | some =>
    cases hframe : w.contexts[frame]? with
    | none => rw [henv, hframe] at hstep; cases hstep
    | some =>
      rw [henv, hframe, some.injEq] at hstep
      rw [← hstep]
      exact write_numbered h _ .sourceEventId
        (h.contexts _ (mem_of_getElem? hframe) .lastPublishedEventId)

/-! ### Runs -/

/-- Every step preserves the invariant. -/
theorem step_numbered (w : Histories τ δ) (label : HistoryStep τ δ) (t : Histories τ δ)
    (h : w.Numbered) (hstep : Takes step w label t) : t.Numbered := by
  cases label with
  | addEvent => exact addEvent_numbered h _ hstep
  | continueAdd => exact continueAdd_numbered h hstep
  | openFrame | openInnerFrame => exact asInnerFrameOf_numbered h _ hstep
  | closeFrame => exact closeFrame_numbered h _ _ hstep
  | continueIntegrate => exact continueIntegrate_numbered h _ hstep
  | deleteFrame => exact deleteFrame_numbered h _ _ hstep
  | abort => exact abort_numbered h _ hstep
  | adoptPublished => exact adoptPublished_numbered h _ _ hstep

/-- The history is well formed after every run. -/
theorem history_wellFormed (labels : List (HistoryStep τ δ)) (w : Histories τ δ)
    (h : Runs (Takes step) initial labels w) : WellFormed w.historyEventList :=
  (h.invariant step_numbered initial_numbered).wellFormed

def exampleSteps : List (HistoryStep Unit Unit) :=
  let event (env : Nat) : AddEvent Unit Unit := ⟨env, (), none, none, true, 0⟩
  [.addEvent (event 0), .continueAdd, .continueAdd, .continueAdd, .openInnerFrame 0,
    .addEvent (event 1), .continueAdd, .closeFrame 0 1, .continueIntegrate 0, .continueAdd,
    .continueIntegrate 0, .continueAdd]

def exampleHistories : Histories Unit Unit := (takeAll step initial exampleSteps).getD initial

theorem wellFormed_exampleHistories :
    exampleHistories.historyEventList.map HistoryEvent.previousEventId = [0, 1] ∧
      WellFormed exampleHistories.historyEventList :=
  ⟨by decide, history_wellFormed exampleSteps _
    (Runs.of_takeAll _ _ _ (by decide))⟩

end Histories

end LocalEmu.StepFunctions
