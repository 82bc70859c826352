import LocalEmu.Base.Pool
import LocalEmu.Core.Lambda.EsmWorker

/-!
# The State An Event Source Mapping Is Left In

The thread of a worker does what the last call asks for if it is in its loop when
the call is made. If it still waits for the mapping to be enabled, it returns at
once and the mapping stays as it is, and if it has ended, nobody is there to do
it. A worker that is started while a thread is there has two of them.

Apart from that a worker is in one of a few situations: no thread is there, or
one is being started, or there is one and the state fits to where it is.
-/

namespace LocalEmu.Lambda

open List Option

namespace Phase

/-- The thread will still see that the worker was stopped. -/
def heedsStop : Phase → Bool
  | .looping | .polling | .sleeping | .closing | .readEnabled | .readState => true
  | .readDisabled | .readDisabling | .disabling | .storing => true
  | _ => false

/-- The thread will still see that the mapping is to be deleted. -/
def heedsDelete : Phase → Bool
  | .looping | .polling | .sleeping | .closing | .readEnabled | .readState | .deleting => true
  | _ => false

/-- The mapping is not enabled yet. -/
def early : Phase → Bool
  | .provisioning | .enteringWait | .waiting false | .enabling => true
  | _ => false

def inLoop : Phase → Bool
  | .looping | .polling | .sleeping => true
  | _ => false

end Phase

namespace EsmWorker

/-- `create` and `start` are called when no thread is there and the mapping is
    stored, and `stop` and `delete` when there is one that heeds them, `delete` not
    after `stop`. A mapping that was deleted may be deleted again. -/
def Orderly (w : EsmWorker) : Label → Prop
  | .call .create => (∀ t ∈ w.threads, t = .ended) ∧ w.stored ≠ none
  | .call .start => (∀ t ∈ w.threads, t = .ended) ∧ w.stored ≠ none
  | .call .stop => ∃ t ∈ w.threads, t.heedsStop = true
  | .call .delete =>
    w.stored = none ∨ (w.enabled = true ∧ ∃ t ∈ w.threads, t.heedsDelete = true)
  | .resume => True
  | .thread _ => True

instance (w : EsmWorker) : (label : Label) → Decidable (w.Orderly label)
  | .call .create => inferInstanceAs (Decidable (_ ∧ _))
  | .call .start => inferInstanceAs (Decidable (_ ∧ _))
  | .call .stop => inferInstanceAs (Decidable (∃ t ∈ w.threads, _))
  | .call .delete => inferInstanceAs (Decidable (_ ∨ _))
  | .resume => inferInstanceAs (Decidable True)
  | .thread _ => inferInstanceAs (Decidable True)

/-- All threads have ended and no call is on its way. -/
def Quiescent (w : EsmWorker) : Prop := w.control = .idle ∧ ∀ t ∈ w.threads, t = .ended

/-- The stored state is not one on the way to another. -/
def Settled (w : EsmWorker) : Prop := w.stored ≠ some .deleting ∧ w.stored ≠ some .disabling

/-- What is claimed. -/
structure AsRequested (w : EsmWorker) : Prop where
  polling : ∀ i j : Nat, w.threads[i]? = some .polling → w.threads[j]? = some .polling → i = j
  deleted : w.Quiescent → w.lastCall = some .delete → w.stored = none
  stopped : w.Quiescent → w.lastCall = some .stop → w.stored = some .disabled
  settled : w.Quiescent → w.Settled

/-! ### The situations -/

/-- No thread is there. -/
structure Quiet (w : EsmWorker) : Prop where
  threads : ∀ t ∈ w.threads, t = .ended
  stored : w.stored ≠ none
  settled : w.Settled
  control : w.control = .idle ∨ w.control = .createStore ∨ w.control = .stopSet
  lastCall : w.lastCall ≠ some .delete
  stopped : w.lastCall = some .stop → w.stored = some .disabled

/-- A thread is being started. -/
structure Starting (w : EsmWorker) : Prop where
  threads : ∀ t ∈ w.threads, t = .ended
  stored : w.stored ≠ none
  settled : w.Settled
  lastCall : w.lastCall ≠ some .delete ∧ w.lastCall ≠ some .stop
  control : (w.control = .createStart ∧ w.currentState = .creating) ∨
    ((w.control = .startClear ∨ w.control = .startThread ∧ w.shutdownEvent = false) ∧
      w.enabled = true ∧ (w.currentState = .creating ∨ w.currentState = .enabling))

/-- The mapping was deleted. -/
structure Gone (w : EsmWorker) : Prop where
  threads : ∀ t ∈ w.threads, t = .ended
  stored : w.stored = none
  lastCall : w.lastCall = some .delete
  control : w.control = .idle ∨ w.control = .deleteSet

/-- One thread is there, and it has nothing to heed yet. -/
structure Running (w : EsmWorker) (phase : Phase) : Prop where
  place : (phase.early = true ∧ (w.currentState = .creating ∨ w.currentState = .enabling)) ∨
    phase.inLoop = true
  settled : w.Settled
  enabled : w.enabled = true
  event : w.shutdownEvent = false
  control : w.control = .idle
  lastCall : w.lastCall ≠ some .delete ∧ w.lastCall ≠ some .stop

/-- One thread is there that heeds a stop. -/
structure Stopping (w : EsmWorker) (phase : Phase) : Prop where
  heeds : phase.heedsStop = true
  state : w.currentState = .disabling ∨ phase = .disabling ∨ phase = .storing
  enabled : w.enabled = false
  control : w.control = .stopSet ∨ w.control = .idle ∧ w.shutdownEvent = true
  lastCall : w.lastCall = some .stop

/-- One thread is there that heeds a deletion. -/
structure Deleting (w : EsmWorker) (phase : Phase) : Prop where
  heeds : phase.heedsDelete = true
  state : w.currentState = .deleting
  enabled : w.enabled = true
  control : w.control = .deleteSet ∨ w.control = .idle ∧ w.shutdownEvent = true
  lastCall : w.lastCall = some .delete

/-- All threads but one have ended. -/
structure OnlyLive (threads : List Phase) (n : Nat) (phase : Phase) : Prop where
  live : threads[n]? = some phase
  others : ∀ i t, threads[i]? = some t → i ≠ n → t = .ended
  alive : phase ≠ .ended

/-- One of the situations. -/
inductive Sound (w : EsmWorker) : Prop
  | quiet (h : w.Quiet)
  | starting (h : w.Starting)
  | gone (h : w.Gone)
  | live (n : Nat) (phase : Phase) (threads : OnlyLive w.threads n phase)
      (stored : w.stored ≠ none) (h : w.Running phase ∨ w.Stopping phase ∨ w.Deleting phase)

/-! ### The one thread -/

variable {w : EsmWorker} {threads : List Phase} {w' : EsmWorker} {phase : Phase} {n : Nat}

theorem OnlyLive.not_all_ended {phase : Phase}
    (h : OnlyLive threads n phase) : ¬∀ t ∈ threads, t = .ended :=
  fun hall => h.alive (hall _ (mem_of_getElem? h.live))

theorem OnlyLive.eq_of_mem {phase t : Phase} (h : OnlyLive threads n phase) (ht : t ∈ threads)
    (hne : t ≠ .ended) : t = phase := by
  rcases mem_iff_getElem?.mp ht with ⟨i, hi⟩
  by_cases hin : i = n
  · rw [hin, h.live] at hi
    exact (some.inj hi).symm
  · exact absurd (h.others i t hi hin) hne

theorem OnlyLive.set {phase phase' : Phase} (h : OnlyLive threads n phase)
    (halive : phase' ≠ .ended) :
    OnlyLive (threads.set n phase') n phase' where
  live := by
    have hlt : n < threads.length := (List.getElem?_eq_some_iff.mp h.live).1
    rw [getElem?_set_self hlt]
  others := by
    intro i t ht hne
    rcases Pool.getElem?_set_cases ht with ⟨heq, -⟩ | ⟨-, ht⟩
    · exact absurd heq hne
    · exact h.others i t ht hne
  alive := halive

theorem OnlyLive.set_ended {phase : Phase}
    (h : OnlyLive threads n phase) : ∀ t ∈ threads.set n .ended, t = .ended := by
  intro t ht
  rcases mem_iff_getElem?.mp ht with ⟨i, hi⟩
  rcases Pool.getElem?_set_cases hi with ⟨-, heq⟩ | ⟨hne, hi⟩
  · exact heq
  · exact h.others i t hi hne

theorem setEvent_threads (w : EsmWorker) (h : ∀ t ∈ w.threads, ∀ b, t ≠ .waiting b) :
    w.setEvent.threads = w.threads := by
  refine (map_congr_left fun t ht => ?_).trans (map_id _)
  cases t with
  | waiting b => exact absurd rfl (h _ ht b)
  | _ => rfl

/-! ### The steps -/

theorem Sound.settled_of_ended (hw : w.Sound) (hended : ∀ t ∈ w.threads, t = .ended)
    (hstored : w.stored ≠ none) : w.Settled := by
  cases hw with
  | quiet h => exact h.settled
  | starting h => exact h.settled
  | gone h => exact absurd h.stored hstored
  | live n phase threads => exact absurd hended threads.not_all_ended

/-- The steps lead from one situation to another. -/
theorem call_sound (hw : w.Sound) (c : EsmCall)
    (horderly : w.Orderly (.call c)) : (w.call c).Sound := by
  cases c with
  | create =>
    rcases horderly with ⟨hended, hstored⟩
    have hsettled := hw.settled_of_ended hended hstored
    by_cases henabled : w.enabled = true
    · rw [call, if_pos henabled]
      exact .starting ⟨hended, hstored, hsettled, by simp, .inl ⟨rfl, rfl⟩⟩
    · rw [call, if_neg henabled]
      exact .quiet ⟨hended, hstored, hsettled, .inr (.inl rfl), by simp, by simp⟩
  | start =>
    rcases horderly with ⟨hended, hstored⟩
    have hsettled := hw.settled_of_ended hended hstored
    refine .starting ⟨hended, hstored, hsettled, by simp [call], .inr ⟨.inl rfl, rfl, ?_⟩⟩
    show (if w.currentState = .creating then EsmState.creating else .enabling) = .creating ∨
      (if w.currentState = .creating then EsmState.creating else .enabling) = .enabling
    split
    · exact .inl rfl
    · exact .inr rfl
  | stop =>
    rcases horderly with ⟨t, ht, hheeds⟩
    have hne : t ≠ .ended := by
      rintro rfl
      cases hheeds
    cases hw with
    | quiet h => exact absurd (h.threads t ht) hne
    | starting h => exact absurd (h.threads t ht) hne
    | gone h => exact absurd (h.threads t ht) hne
    | live n phase threads stored =>
      rw [threads.eq_of_mem ht hne] at hheeds
      refine .live n phase threads ?_ (.inr (.inl ⟨hheeds, .inl rfl, rfl, .inl rfl, rfl⟩))
      simpa [call, updateEsmStateInStore] using stored
  | delete =>
    rcases horderly with hnone | ⟨henabled, t, ht, hheeds⟩
    · cases hw with
      | quiet h => exact absurd hnone h.stored
      | starting h => exact absurd hnone h.stored
      | gone h =>
        refine .gone ⟨h.threads, ?_, rfl, .inr rfl⟩
        simp [call, updateEsmStateInStore, hnone]
      | live n phase threads stored => exact absurd hnone stored
    · have hne : t ≠ .ended := by
        rintro rfl
        cases hheeds
      cases hw with
      | quiet h => exact absurd (h.threads t ht) hne
      | starting h => exact absurd (h.threads t ht) hne
      | gone h => exact absurd (h.threads t ht) hne
      | live n phase threads stored =>
        rw [threads.eq_of_mem ht hne] at hheeds
        refine .live n phase threads ?_ (.inr (.inr ⟨hheeds, rfl, henabled, .inl rfl, rfl⟩))
        simpa [call, updateEsmStateInStore] using stored

theorem resume_sound (hw : w.Sound) (h : w.resume = some w') : w'.Sound := by
  cases hw with
  | quiet hq =>
    rcases hq.control with hc | hc | hc
    · rw [resume, hc] at h
      cases h
    · rw [resume, hc, some.injEq] at h
      subst h
      refine .quiet ⟨hq.threads, ?_, ?_, .inl rfl, hq.lastCall, fun _ => ?_⟩
      · simpa [updateEsmStateInStore] using hq.stored
      · cases hstored : w.stored with
        | none => exact absurd hstored hq.stored
        | some => simp [Settled, updateEsmStateInStore, hstored]
      · cases hstored : w.stored with
        | none => exact absurd hstored hq.stored
        | some => simp [updateEsmStateInStore, hstored]
    · rw [resume, hc, some.injEq] at h
      subst h
      have hthreads : w.setEvent.threads = w.threads :=
        setEvent_threads w fun t ht b => by rw [hq.threads t ht]; simp
      exact .quiet ⟨fun t ht => hq.threads t (hthreads ▸ ht), hq.stored, hq.settled, .inl rfl,
        hq.lastCall, hq.stopped⟩
  | starting hs =>
    rcases hs.control with ⟨hc, hstate⟩ | ⟨hc | ⟨hc, hevent⟩, henabled, hstate⟩
    · rw [resume, hc, some.injEq] at h
      subst h
      refine .starting ⟨hs.threads, hs.stored, hs.settled, hs.lastCall,
        .inr ⟨.inl rfl, rfl, .inl ?_⟩⟩
      simp [enable, hstate]
    · rw [resume, hc, some.injEq] at h
      subst h
      exact .starting ⟨hs.threads, hs.stored, hs.settled, hs.lastCall,
        .inr ⟨.inr ⟨rfl, rfl⟩, henabled, hstate⟩⟩
    · rw [resume, hc, some.injEq] at h
      subst h
      refine .live w.threads.length .provisioning ⟨?_, ?_, by simp⟩ hs.stored (.inl
        ⟨.inl ⟨rfl, hstate⟩, hs.settled, henabled, hevent, rfl, hs.lastCall⟩)
      · simp
      · intro i t ht hne
        rw [getElem?_append] at ht
        split at ht
        · exact hs.threads t (mem_of_getElem? ht)
        · next hlt =>
            have hi : i - w.threads.length ≠ 0 := by omega
            rw [getElem?_singleton, if_neg hi] at ht
            cases ht
  | gone hg =>
    rcases hg.control with hc | hc
    · rw [resume, hc] at h
      cases h
    · rw [resume, hc, some.injEq] at h
      subst h
      have hthreads : w.setEvent.threads = w.threads :=
        setEvent_threads w fun t ht b => by rw [hg.threads t ht]; simp
      exact .gone ⟨fun t ht => hg.threads t (hthreads ▸ ht), hg.stored, hg.lastCall, .inl rfl⟩
  | live n phase threads stored hlive =>
    -- A thread that heeds the shutdown event does not wait for it.
    have hevent (hheeds : (phase.heedsStop || phase.heedsDelete) = true) :
        w.setEvent.threads = w.threads := by
      refine setEvent_threads w fun t ht b heq => ?_
      rw [(threads.eq_of_mem ht (by rw [heq]; simp)).symm.trans heq] at hheeds
      cases hheeds
    rcases hlive with hr | hs | hd
    · rw [resume, hr.control] at h
      cases h
    · rcases hs.control with hc | ⟨hc, -⟩
      · rw [resume, hc, some.injEq] at h
        subst h
        exact .live n phase ((hevent (by rw [hs.heeds]; rfl)).symm ▸ threads) stored
          (.inr (.inl ⟨hs.heeds, hs.state, hs.enabled, .inr ⟨rfl, rfl⟩, hs.lastCall⟩))
      · rw [resume, hc] at h
        cases h
    · rcases hd.control with hc | ⟨hc, -⟩
      · rw [resume, hc, some.injEq] at h
        subst h
        exact .live n phase ((hevent (by rw [hd.heeds, Bool.or_true])).symm ▸ threads) stored
          (.inr (.inr ⟨hd.heeds, hd.state, hd.enabled, .inr ⟨rfl, rfl⟩, hd.lastCall⟩))
      · rw [resume, hc] at h
        cases h

theorem updateEsmStateInStore_settled (hstored : w.stored ≠ none) {state : EsmState}
    (hstate : state ≠ .deleting ∧ state ≠ .disabling) :
    (w.updateEsmStateInStore state).stored = some state ∧
      (w.updateEsmStateInStore state).Settled := by
  cases hget : w.stored with
  | none => exact absurd hget hstored
  | some =>
    have hset : (w.updateEsmStateInStore state).stored = some state := by
      rw [updateEsmStateInStore, hget, map_some]
    refine ⟨hset, ?_⟩
    rw [Settled, hset]
    simpa using hstate

theorem Running.alive (h : w.Running phase) : phase ≠ .ended := by
  rintro rfl
  rcases h.place with ⟨hearly, -⟩ | hloop
  · cases hearly
  · cases hloop

theorem Running.to {next : Phase} (h : w.Running phase)
    (hplace : (next.early = true ∧ (w.currentState = .creating ∨ w.currentState = .enabling)) ∨
      next.inLoop = true) : w.Running next :=
  ⟨hplace, h.settled, h.enabled, h.event, h.control, h.lastCall⟩

theorem advance_running (hstored : w.stored ≠ none)
    (h : w.Running phase) : ∃ w' phase', w.advance phase = some (w', phase') ∧
      w'.threads = w.threads ∧ w'.stored ≠ none ∧ w'.Running phase' := by
  rcases h.place with ⟨hearly, hstate⟩ | hloop
  · cases phase with
    | provisioning =>
      have hkind : w.currentState ≠ .deleting ∧ w.currentState ≠ .disabling := by
        rcases hstate with hs | hs
        · rw [hs]; decide
        · rw [hs]; decide
      rcases updateEsmStateInStore_settled hstored hkind with ⟨hset, hsettled⟩
      refine ⟨w.updateEsmStateInStore w.currentState, .enteringWait, ?_, rfl, ?_,
        ⟨.inl ⟨rfl, hstate⟩, hsettled, h.enabled, h.event, h.control, h.lastCall⟩⟩
      · rw [advance, if_pos hstate]
      · rw [hset]
        exact some_ne_none _
    | enteringWait =>
      refine ⟨w, .waiting false, ?_, rfl, hstored, h.to (.inl ⟨rfl, hstate⟩)⟩
      rw [advance, h.event]
      rfl
    | waiting notified =>
      cases notified with
      | true => cases hearly
      | false => exact ⟨w, .enabling, rfl, rfl, hstored, h.to (.inl ⟨rfl, hstate⟩)⟩
    | enabling =>
      have hset := updateEsmStateInStore_settled
        (show ({ w with currentState := .enabled } : EsmWorker).stored ≠ none from hstored)
        (show EsmState.enabled ≠ .deleting ∧ EsmState.enabled ≠ .disabling by decide)
      refine ⟨_, .looping, rfl, rfl, ?_,
        ⟨.inr rfl, hset.2, h.enabled, h.event, h.control, h.lastCall⟩⟩
      rw [hset.1]
      exact some_ne_none _
    | _ => cases hearly
  · cases phase with
    | looping =>
      refine ⟨w, .polling, ?_, rfl, hstored, h.to (.inr rfl)⟩
      rw [advance, h.event]
      rfl
    | polling => exact ⟨w, .sleeping, rfl, rfl, hstored, h.to (.inr rfl)⟩
    | sleeping => exact ⟨w, .looping, rfl, rfl, hstored, h.to (.inr rfl)⟩
    | _ => cases hloop

theorem Stopping.alive (h : w.Stopping phase) : phase ≠ .ended := by
  rintro rfl
  cases h.heeds

theorem Stopping.disabling (h : w.Stopping phase)
    (hphase : phase ≠ .disabling ∧ phase ≠ .storing) : w.currentState = .disabling :=
  h.state.resolve_right (not_or.mpr hphase)

theorem Stopping.to {next : Phase} (h : w.Stopping phase) (hheeds : next.heedsStop = true)
    (hphase : phase ≠ .disabling ∧ phase ≠ .storing) : w.Stopping next :=
  ⟨hheeds, .inl (h.disabling hphase), h.enabled, h.control, h.lastCall⟩

theorem advance_stopping (hstored : w.stored ≠ none)
    (h : w.Stopping phase) : ∃ w' phase', w.advance phase = some (w', phase') ∧
      w'.threads = w.threads ∧ w'.stored ≠ none ∧ (w'.Stopping phase' ∨
        (phase' = .ended ∧ w'.stored = some .disabled ∧ w'.control = w.control ∧
          w'.lastCall = w.lastCall)) := by
  cases phase with
  | looping =>
    refine ⟨w, if w.shutdownEvent then .closing else .polling, rfl, rfl, hstored, .inl ?_⟩
    split
    · exact h.to rfl (by decide)
    · exact h.to rfl (by decide)
  | polling => exact ⟨w, .sleeping, rfl, rfl, hstored, .inl (h.to rfl (by decide))⟩
  | sleeping => exact ⟨w, .looping, rfl, rfl, hstored, .inl (h.to rfl (by decide))⟩
  | closing => exact ⟨w, .readEnabled, rfl, rfl, hstored, .inl (h.to rfl (by decide))⟩
  | readEnabled =>
    refine ⟨w, .readDisabled, ?_, rfl, hstored, .inl (h.to rfl (by decide))⟩
    rw [advance, h.enabled]
    rfl
  | readState =>
    refine ⟨w, .readDisabled, ?_, rfl, hstored, .inl (h.to rfl (by decide))⟩
    rw [advance, h.disabling (by decide)]
    rfl
  | readDisabled =>
    refine ⟨w, .readDisabling, ?_, rfl, hstored, .inl (h.to rfl (by decide))⟩
    rw [advance, h.enabled]
    rfl
  | readDisabling =>
    refine ⟨w, .disabling, ?_, rfl, hstored, .inl (h.to rfl (by decide))⟩
    rw [advance, h.disabling (by decide)]
    rfl
  | disabling =>
    exact ⟨_, .storing, rfl, rfl, hstored,
      .inl ⟨rfl, .inr (.inr rfl), h.enabled, h.control, h.lastCall⟩⟩
  | storing =>
    have hset := updateEsmStateInStore_settled hstored
      (show EsmState.disabled ≠ .deleting ∧ EsmState.disabled ≠ .disabling by decide)
    refine ⟨_, .ended, rfl, rfl, ?_, .inr ⟨rfl, hset.1, rfl, rfl⟩⟩
    rw [hset.1]
    exact some_ne_none _
  | _ => cases h.heeds

theorem Deleting.alive (h : w.Deleting phase) : phase ≠ .ended := by
  rintro rfl
  cases h.heeds

theorem Deleting.to {next : Phase} (h : w.Deleting phase) (hheeds : next.heedsDelete = true) :
    w.Deleting next :=
  ⟨hheeds, h.state, h.enabled, h.control, h.lastCall⟩

theorem advance_deleting (h : w.Deleting phase) :
    ∃ w' phase', w.advance phase = some (w', phase') ∧ w'.threads = w.threads ∧
      ((w'.stored = w.stored ∧ w'.Deleting phase') ∨
        (phase' = .ended ∧ w'.stored = none ∧ w'.control = w.control ∧
          w'.lastCall = w.lastCall)) := by
  cases phase with
  | looping =>
    refine ⟨w, if w.shutdownEvent then .closing else .polling, rfl, rfl, .inl ⟨rfl, ?_⟩⟩
    split
    · exact h.to rfl
    · exact h.to rfl
  | polling => exact ⟨w, .sleeping, rfl, rfl, .inl ⟨rfl, h.to rfl⟩⟩
  | sleeping => exact ⟨w, .looping, rfl, rfl, .inl ⟨rfl, h.to rfl⟩⟩
  | closing => exact ⟨w, .readEnabled, rfl, rfl, .inl ⟨rfl, h.to rfl⟩⟩
  | readEnabled =>
    refine ⟨w, .readState, ?_, rfl, .inl ⟨rfl, h.to rfl⟩⟩
    rw [advance, h.enabled]
    rfl
  | readState =>
    refine ⟨w, .deleting, ?_, rfl, .inl ⟨rfl, h.to rfl⟩⟩
    rw [advance, if_pos h.state]
  | deleting => exact ⟨_, .ended, rfl, rfl, .inr ⟨rfl, rfl, rfl, rfl⟩⟩
  | _ => cases h.heeds

theorem thread_sound (hw : w.Sound) (n : Nat) (h : w.step (.thread n) = some w') : w'.Sound := by
  rcases bind_eq_some_iff.mp h with ⟨phase, hphase, hmap⟩
  rcases map_eq_some_iff.mp hmap with ⟨⟨w₁, phase'⟩, hadvance, rfl⟩
  have hended : phase ≠ .ended := by
    rintro rfl
    cases hadvance
  have hmem := mem_of_getElem? hphase
  cases hw with
  | quiet hq => exact absurd (hq.threads _ hmem) hended
  | starting hs => exact absurd (hs.threads _ hmem) hended
  | gone hg => exact absurd (hg.threads _ hmem) hended
  | live m live threads stored hlive =>
    have hn : n = m := by
      by_contra hne
      exact hended (threads.others n phase hphase hne)
    subst hn
    have heq : phase = live := threads.eq_of_mem hmem hended
    subst heq
    rcases hlive with hr | hs | hd
    · rcases advance_running stored hr with ⟨w₂, phase₂, hadv, -, hstored, hr'⟩
      rw [hadvance, some.injEq] at hadv
      rcases hadv with ⟨rfl, rfl⟩
      exact .live n phase' (threads.set hr'.alive) hstored (.inl
        ⟨hr'.place, hr'.settled, hr'.enabled, hr'.event, hr'.control, hr'.lastCall⟩)
    · rcases advance_stopping stored hs with ⟨w₂, phase₂, hadv, -, hstored, hcases⟩
      rw [hadvance, some.injEq] at hadv
      rcases hadv with ⟨rfl, rfl⟩
      rcases hcases with hs' | ⟨rfl, hdisabled, hcontrol, hlast⟩
      · exact .live n phase' (threads.set hs'.alive) hstored (.inr (.inl
          ⟨hs'.heeds, hs'.state, hs'.enabled, hs'.control, hs'.lastCall⟩))
      · have hcall : w₁.lastCall = some .stop := hlast.trans hs.lastCall
        refine .quiet ⟨threads.set_ended, hstored, ?_, ?_, ?_, fun _ => hdisabled⟩
        · rw [Settled]
          simp [hdisabled]
        · rcases hs.control with hc | ⟨hc, -⟩
          · exact .inr (.inr (hcontrol.trans hc))
          · exact .inl (hcontrol.trans hc)
        · simp [hcall]
    · rcases advance_deleting hd with ⟨w₂, phase₂, hadv, -, hcases⟩
      rw [hadvance, some.injEq] at hadv
      rcases hadv with ⟨rfl, rfl⟩
      rcases hcases with ⟨hstored, hd'⟩ | ⟨rfl, hnone, hcontrol, hlast⟩
      · exact .live n phase' (threads.set hd'.alive) (hstored.symm ▸ stored) (.inr (.inr
          ⟨hd'.heeds, hd'.state, hd'.enabled, hd'.control, hd'.lastCall⟩))
      · refine .gone ⟨threads.set_ended, hnone, hlast.trans hd.lastCall, ?_⟩
        rcases hd.control with hc | ⟨hc, -⟩
        · exact .inr (hcontrol.trans hc)
        · exact .inl (hcontrol.trans hc)

theorem step_sound (hw : w.Sound) (label : Label) (horderly : w.Orderly label)
    (h : Takes step w label w') : w'.Sound := by
  cases label with
  | call c =>
    rw [Takes, step] at h
    split at h
    · rw [← some.inj h]
      exact call_sound hw c horderly
    · cases h
  | resume => exact resume_sound hw h
  | thread n => exact thread_sound hw n h

theorem initial_sound (enabled : Bool) : (initial enabled).Sound := by
  refine .quiet ⟨fun t ht => absurd ht not_mem_nil, ?_, ?_, .inl rfl, ?_, ?_⟩
  · simp [initial]
  · cases enabled with
    | false | true => simp [Settled, initial]
  · simp [initial]
  · simp [initial]

theorem Sound.asRequested (hw : w.Sound) : w.AsRequested := by
  cases hw with
  | quiet hq =>
    refine ⟨fun i j hi _ => ?_, fun _ hlast => absurd hlast hq.lastCall, fun _ => hq.stopped,
      fun _ => hq.settled⟩
    exact absurd (hq.threads _ (mem_of_getElem? hi)) (by simp)
  | starting hs =>
    refine ⟨fun i j hi _ => ?_, fun _ hlast => absurd hlast hs.lastCall.1,
      fun _ hlast => absurd hlast hs.lastCall.2, fun _ => hs.settled⟩
    exact absurd (hs.threads _ (mem_of_getElem? hi)) (by simp)
  | gone hg =>
    refine ⟨fun i j hi _ => ?_, fun _ _ => hg.stored, fun _ hlast => ?_, fun _ => ?_⟩
    · exact absurd (hg.threads _ (mem_of_getElem? hi)) (by simp)
    · exact absurd (hg.lastCall.symm.trans hlast) (by simp)
    · simp [Settled, hg.stored]
  | live n phase threads =>
    have hnot : ¬w.Quiescent := fun hq => threads.not_all_ended hq.2
    refine ⟨fun i j hi hj => ?_, fun hq => absurd hq hnot, fun hq => absurd hq hnot,
      fun hq => absurd hq hnot⟩
    have hplace : ∀ k : Nat, w.threads[k]? = some .polling → k = n := by
      intro k hk
      by_contra hne
      exact absurd (threads.others k _ hk hne) (by simp)
    rw [hplace i hi, hplace j hj]

/-- In every run whose calls are made in order, the worker is as requested. -/
theorem ends_as_requested (enabled : Bool) (labels : List Label) (w : EsmWorker)
    (hrun : Runs (Takes step) (initial enabled) labels w)
    (horderly : Along (Takes step) Orderly (initial enabled) labels) : w.AsRequested :=
  (hrun.invariant_along (fun _ label _ hC hw hstep => step_sound hw label hC hstep) horderly
    (initial_sound _)).asRequested

/-- A worker is created and runs, and is stopped while it polls. -/
def stoppedLabels : List Label :=
  [.call .create, .resume, .resume, .resume, .thread 0, .thread 0, .thread 0, .thread 0, .thread 0,
    .call .stop, .thread 0, .resume, .thread 0, .thread 0, .thread 0, .thread 0, .thread 0,
    .thread 0, .thread 0, .thread 0]

theorem ends_as_requested_of_stoppedLabels : ∃ w,
    Runs (Takes step) (initial true) stoppedLabels w ∧ w.Quiescent ∧ w.stored = some .disabled ∧
    w.AsRequested := by
  have hrun := Runs.of_takeAll (f := step) stoppedLabels (initial true) _ rfl
  have horderly : Along (Takes step) Orderly (initial true) stoppedLabels := by
    intro before label after w hlabels hw
    exact of_decide_eq_true (Runs.along_of_check (f := step)
      (C := fun w label => decide (w.Orderly label)) _ _ (by decide)
      _ _ _ w hlabels hw)
  exact ⟨_, hrun, ⟨by decide, by decide⟩, by decide, ends_as_requested _ _ _ hrun horderly⟩

/-- A worker is stopped before it is enabled. -/
def stuckLabels : List Label :=
  [.call .create, .resume, .resume, .resume, .thread 0, .thread 0, .call .stop, .resume, .thread 0]

/-- The mapping is left in `Disabling`. -/
theorem left_in_disabling : ∃ w, Runs (Takes step) (initial true) stuckLabels w ∧
    w.Quiescent ∧ w.lastCall = some .stop ∧ w.stored = some .disabling ∧ ¬w.AsRequested := by
  have hrun : Runs (Takes step) (initial true) stuckLabels
      ⟨false, .disabling, true, some .disabling, .idle, some .stop, [.ended]⟩ :=
    Runs.of_takeAll _ _ _ (by decide)
  exact ⟨_, hrun, ⟨rfl, by simp⟩, rfl, rfl, fun h => (h.settled ⟨rfl, by simp⟩).2 rfl⟩

end EsmWorker

end LocalEmu.Lambda
