import LocalEmu.Base.Run
import LocalEmu.Core.StepFunctions.Environment

/-!
# Terminal States

An environment that has ended or was stopped, that failed or timed out, should
stay so. Two of the four setters ask whether the environment is running before
they change it, and two do not. The latter overwrite whatever is there, so that
an execution that was stopped is reported as failed if its worker raises
afterwards.

The theorem is about runs in which no call does that: no environment is failed
or timed out that is in another terminal state already, neither directly nor as
a frame of another. In these runs the terminal states are absorbing and reach
all running frames.
-/

namespace LocalEmu.StepFunctions

open List Option

/-- The terminal states, without their data. -/
inductive TerminalKind
  | ended
  | stopped
  | error
  | timedOut
  deriving DecidableEq

def ProgramState.kind : ProgramState → Option TerminalKind
  | .ended => some .ended
  | .stopped _ _ _ => some .stopped
  | .running _ _ => none
  | .error _ => some .error
  | .timedOut => some .timedOut

variable {k : TerminalKind}

namespace Environment

variable (forced : Bool) (state : ProgramState) (env : Environment)

/-- The kind of the terminal state of an environment. -/
def kind : Option TerminalKind := env.programState.bind ProgramState.kind

theorem kind_finish : (env.finish state).kind = state.kind := rfl

theorem kind_of_isRunning (h : env.isRunning = true) : env.kind = none := by
  rw [isRunning] at h
  rw [kind]
  split at h
  · next hstate =>
      rw [hstate]
      rfl
  · exact absurd h Bool.false_ne_true

theorem isRunning_finish {state : ProgramState} (hk : state.kind = some k)
    (env : Environment) : (env.finish state).isRunning = false := by
  cases state with
  | running => cases hk
  | ended | stopped | error | timedOut => rfl

/-- What a setter does to one environment of the tree it is called on. -/
def ended : Environment :=
  if forced || env.isRunning then env.finish state else env

theorem id_ended : (env.ended forced state).id = env.id := by
  rw [ended]
  split
  · rfl
  · rfl

/-- Both ways of the setters, in one definition. -/
def settle : Environment → Forest Environment → Environment × Forest Environment :=
  if forced then terminate state else terminateRunning state

theorem settle_labels (frames : Forest Environment)
    (h : (Forest.tree env frames).Closed isRunning) :
    (settle forced state env frames).1 :: (settle forced state env frames).2.labels =
      (env :: frames.labels).map (ended forced state) := by
  cases forced with
  | true =>
    have hended : ended true state = finish state := by
      funext e
      simp [ended]
    rw [settle, if_pos rfl, terminate, Forest.labels_map, map_cons, hended]
  | false =>
    have hended : ended false state = fun e => if e.isRunning then finish state e else e := by
      funext e
      simp [ended]
    rw [settle, if_neg Bool.false_ne_true, terminateRunning]
    by_cases hrunning : env.isRunning = true
    · rw [if_pos hrunning, Forest.labels_mapWhile _ _ _ h.2.1, map_cons]
      exact congrArg (· :: _) (if_pos hrunning).symm
    · -- A frame of an environment that is not running is not running either.
      rw [if_neg hrunning, map_cons, hended,
        Forest.map_ite_of_forall _ _ _ (h.1 (Bool.not_eq_true _ ▸ hrunning))]
      exact congrArg (· :: _) (if_neg hrunning).symm

theorem settle_closed {state : ProgramState} (hk : state.kind = some k)
    (env : Environment) (frames : Forest Environment)
    (h : (Forest.tree env frames).Closed isRunning) :
    ∀ e ∈ (settle forced state env frames).1 :: (settle forced state env frames).2.labels,
      e.isRunning = false := by
  intro e he
  rw [settle_labels _ _ _ _ h] at he
  rcases mem_map.mp he with ⟨d, _, rfl⟩
  rw [ended]
  split
  · exact isRunning_finish hk d
  · next hd =>
      rw [Bool.not_eq_true, Bool.or_eq_false_iff] at hd
      exact hd.2

end Environment

open Environment

namespace Frames

/-! ### Calls -/

/-- A setter: whether it asks for a running environment, and the state it sets. -/
def setter : Call → Option (Nat × Bool × ProgramState)
  | .setEnded env => some (env, false, .ended)
  | .setError env error => some (env, true, .error error)
  | .setTimedOut env => some (env, true, .timedOut)
  | .setStop env stopDate cause error => some (env, false, .stopped stopDate error cause)
  | _ => none

variable {w v : Frames} {call : Call}

theorem setter_kind {env : Nat} {forced : Bool} {state : ProgramState}
    (h : setter call = some (env, forced, state)) : ∃ k, state.kind = some k := by
  cases call with
  | setEnded env' | setError env' error | setTimedOut env'
  | setStop =>
    cases h
    exact ⟨_, rfl⟩
  | openFrame | openInnerFrame | closeFrame =>
    cases h

variable {frames : Forest Environment} {id : Nat}

theorem change_cases {f : Environment → Forest Environment → Environment × Forest Environment}
    (h : w.change id f = some v) :
    ∃ env frames, w.forest.find (hasId id) = some (env, frames) ∧
      v = { w with forest := w.forest.update (hasId id) f } := by
  rcases map_eq_some_iff.mp h with ⟨⟨env, frames⟩, hfind, rfl⟩
  exact ⟨env, frames, hfind, rfl⟩

theorem openAs_cases {frameOf : Environment → Nat → Environment}
    (h : w.openAs id frameOf = some v) :
    ∃ env frames, w.forest.find (hasId id) = some (env, frames) ∧
      v = ⟨w.nextId + 1, w.forest.update (hasId id) fun env frames =>
        (env, frames.append (.tree (frameOf env w.nextId) .nil))⟩ := by
  rcases map_eq_some_iff.mp h with ⟨u, hu, rfl⟩
  rcases change_cases hu with ⟨env, frames, hfind, rfl⟩
  exact ⟨env, frames, hfind, rfl⟩

theorem step_cases (h : Takes step w call v) :
    (∃ id forced state env frames, setter call = some (id, forced, state) ∧
      w.forest.find (hasId id) = some (env, frames) ∧
      v = { w with forest := w.forest.update (hasId id) (Environment.settle forced state) }) ∨
    (∃ id env frames, w.forest.find (hasId id) = some (env, frames) ∧
      v = ⟨w.nextId + 1, w.forest.update (hasId id) fun env frames =>
        (env, frames.append (.tree (asInnerFrameOf env w.nextId) .nil))⟩) ∨
    (∃ id frame env frames closed below remaining,
      w.forest.find (hasId id) = some (env, frames) ∧
      frames.extract (hasId frame) = some ((closed, below), remaining) ∧
      v = { w with
        forest := (w.forest.update (hasId id) fun env _ => (env, remaining)).append
          (.tree closed below) }) ∨
    v = w := by
  cases call with
  | setEnded id =>
    rcases change_cases h with ⟨env, frames, hfind, hv⟩
    exact .inl ⟨id, false, .ended, env, frames, rfl, hfind, hv⟩
  | setError id error =>
    rcases change_cases h with ⟨env, frames, hfind, hv⟩
    exact .inl ⟨id, true, .error error, env, frames, rfl, hfind, hv⟩
  | setTimedOut id =>
    rcases change_cases h with ⟨env, frames, hfind, hv⟩
    exact .inl ⟨id, true, .timedOut, env, frames, rfl, hfind, hv⟩
  | setStop id stopDate cause error =>
    rcases change_cases h with ⟨env, frames, hfind, hv⟩
    exact .inl ⟨id, false, .stopped stopDate error cause, env, frames, rfl, hfind, hv⟩
  | openFrame id =>
    rcases openAs_cases h with ⟨env, frames, hfind, hv⟩
    exact .inr (.inl ⟨id, env, frames, hfind, hv⟩)
  | openInnerFrame id =>
    rcases openAs_cases h with ⟨env, frames, hfind, hv⟩
    exact .inr (.inl ⟨id, env, frames, hfind, hv⟩)
  | closeFrame id frame =>
    rcases map_eq_some_iff.mp h with ⟨⟨env, frames⟩, hfind, hv⟩
    rcases hextract : frames.extract (hasId frame) with _ | ⟨⟨closed, below⟩, remaining⟩
    · simp only [hextract] at hv
      exact .inr (.inr (.inr hv.symm))
    · simp only [hextract] at hv
      exact .inr (.inr (.inl ⟨id, frame, env, frames, closed, below, remaining, hfind, hextract,
        hv.symm⟩))

/-! ### Invariants -/

/-- The environments of a forest are told apart by their identifiers, and there
    is no running one below one that is not running. -/
structure Sound (w : Frames) : Prop where
  distinct : (w.forest.labels.map Environment.id).Nodup
  known : ∀ env ∈ w.forest.labels, env.id < w.nextId
  closed : w.forest.Closed isRunning

theorem initial_sound (state : Option ProgramState) : (initial state).Sound where
  distinct := by simp [initial]
  known := by simp [initial]
  closed := ⟨fun _ b hb => absurd hb not_mem_nil, trivial, trivial⟩

theorem open_perm {env : Environment} (hfind : w.forest.find (hasId id) = some (env, frames))
    (frame : Environment → Environment) :
    (w.forest.update (hasId id) fun env frames =>
      (env, frames.append (.tree (frame env) .nil))).labels.Perm
        (frame env :: w.forest.labels) := by
  rcases Forest.update_labels hfind with ⟨before, after, hlabels, hupdate⟩
  rw [hupdate, hlabels, Forest.labels_append, Forest.labels_tree, Forest.labels_nil,
    ← cons_append, ← append_assoc, append_assoc _ [frame env]]
  exact perm_middle

theorem close_perm {frame : Nat} {env closed : Environment} {below remaining : Forest Environment}
    (hfind : w.forest.find (hasId id) = some (env, frames))
    (hextract : frames.extract (hasId frame) = some ((closed, below), remaining)) :
    ((w.forest.update (hasId id) fun env _ => (env, remaining)).append
      (.tree closed below)).labels.Perm w.forest.labels := by
  rcases Forest.update_labels hfind with ⟨before, after, hlabels, hupdate⟩
  have hperm := (Forest.extract_perm hextract).cons env
  rw [Forest.labels_append, hupdate, Forest.labels_tree, hlabels]
  refine List.Perm.trans ?_ ((hperm.symm.append_left _).append_right after)
  simp
  refine List.Perm.append_left _ (List.Perm.cons env ?_)
  rw [← append_assoc]
  exact perm_append_comm

theorem setter_labels (hw : w.Sound) {env : Environment}
    (hfind : w.forest.find (hasId id) = some (env, frames))
    (forced : Bool) (state : ProgramState) :
    ∃ before after, w.forest.labels = before ++ (env :: frames.labels) ++ after ∧
      (w.forest.update (hasId id) (Environment.settle forced state)).labels =
        before ++ (env :: frames.labels).map (ended forced state) ++ after := by
  rcases Forest.update_labels hfind with ⟨before, after, hlabels, hupdate⟩
  refine ⟨before, after, hlabels, ?_⟩
  rw [hupdate, settle_labels _ _ _ _ (Forest.find_closed hw.closed hfind)]

/-- What every call preserves. -/
theorem step_sound (w : Frames) (call : Call) (v : Frames) (hw : w.Sound)
    (hstep : Takes step w call v) : v.Sound := by
  rcases step_cases hstep with ⟨id, forced, state, env, frames, hsetter, hfind, rfl⟩ |
    ⟨id, env, frames, hfind, rfl⟩ |
    ⟨id, frame, env, frames, closed, below, remaining, hfind, hextract, rfl⟩ | rfl
  · rcases setter_kind hsetter with ⟨k, hk⟩
    rcases setter_labels hw hfind _ _ with ⟨before, after, hlabels, hupdate⟩
    have htree := Forest.find_closed hw.closed hfind
    have hids :
        (w.forest.update (hasId id) (Environment.settle forced state)).labels.map Environment.id =
        w.forest.labels.map Environment.id := by
      rw [hupdate, hlabels, map_append, map_append, map_append, map_append, List.map_map]
      refine congrArg (fun l => _ ++ l ++ _) (map_congr_left fun e _ => ?_)
      exact id_ended _ _ e
    have hnone := settle_closed forced hk _ _ htree
    refine ⟨hids ▸ hw.distinct, fun e he => ?_, ?_⟩
    · have hmem : e.id ∈ w.forest.labels.map Environment.id :=
        hids ▸ mem_map_of_mem he
      rcases mem_map.mp hmem with ⟨d, hd, heq⟩
      exact heq ▸ hw.known d hd
    · refine Forest.update_closed hw.closed hfind
        (Forest.closed_of_forall _ _ ?_) fun _ => hnone
      rw [Forest.labels_tree]
      exact hnone
  · have hperm := open_perm hfind fun env => asInnerFrameOf env w.nextId
    refine ⟨?_, fun e he => ?_, ?_⟩
    · rw [(hperm.map _).nodup_iff, map_cons, nodup_cons]
      refine ⟨fun hmem => ?_, hw.distinct⟩
      rcases mem_map.mp hmem with ⟨d, hd, heq⟩
      exact absurd (hw.known d hd) (by rw [heq]; exact Nat.lt_irrefl _)
    · rcases mem_cons.mp (hperm.mem_iff.mp he) with rfl | he
      · exact Nat.lt_succ_self _
      · exact Nat.lt_succ_of_lt (hw.known e he)
    · -- The new frame is in the state of its parent.
      have htree := Forest.find_closed hw.closed hfind
      refine Forest.update_closed hw.closed hfind ⟨fun hrunning b hb => ?_, ?_, trivial⟩
        fun hall b hb => ?_
      · rw [Forest.labels_append] at hb
        rcases mem_append.mp hb with hb | hb
        · exact htree.1 hrunning b hb
        · rw [mem_singleton.mp hb]
          exact hrunning
      · exact Forest.closed_append _ _ _ htree.2.1
          ⟨fun _ c hc => absurd hc not_mem_nil, trivial, trivial⟩
      · rw [Forest.labels_append, ← cons_append] at hb
        rcases mem_append.mp hb with hb | hb
        · exact hall b hb
        · rw [mem_singleton.mp hb]
          exact hall env mem_cons_self
  · have hperm := close_perm hfind hextract
    have htree := Forest.find_closed hw.closed hfind
    have hextracted := Forest.extract_closed htree.2.1 hextract
    have hsubset : ∀ b ∈ remaining.labels, b ∈ frames.labels := fun b hb =>
      (Forest.extract_perm hextract).mem_iff.mpr (mem_append_right _ hb)
    refine ⟨?_, fun e he => hw.known e (hperm.mem_iff.mp he), ?_⟩
    · rw [(hperm.map _).nodup_iff]
      exact hw.distinct
    · refine Forest.closed_append _ _ _ (Forest.update_closed hw.closed hfind
        ⟨fun hrunning b hb => htree.1 hrunning b (hsubset b hb), hextracted.2, trivial⟩
        fun hall b hb => ?_) hextracted.1
      rcases mem_cons.mp hb with rfl | hb
      · exact hall b mem_cons_self
      · exact hall b (mem_cons_of_mem _ (hsubset b hb))
  · exact hw

theorem eq_of_id (hw : w.Sound) {e d : Environment} (he : e ∈ w.forest.labels)
    (hd : d ∈ w.forest.labels) (h : e.id = d.id) : e = d :=
  inj_on_of_nodup_map hw.distinct he hd h

/-! ### Terminal states -/

/-- No call sets an error or a timeout where there is another terminal state. -/
def Clear (w : Frames) (call : Call) : Prop :=
  ∀ id state env frames, setter call = some (id, true, state) →
    w.forest.find (hasId id) = some (env, frames) →
    ∀ e ∈ env :: frames.labels, e.kind = none ∨ e.kind = state.kind

/-- Where the environments after a call come from. -/
theorem step_origin (hw : w.Sound) (hclear : w.Clear call) (hstep : Takes step w call v) :
    w.nextId ≤ v.nextId ∧ ∀ e ∈ v.forest.labels, e.id = w.nextId ∨
      ∃ d ∈ w.forest.labels, e.id = d.id ∧ ∀ k, d.kind = some k → e.kind = some k := by
  rcases step_cases hstep with ⟨id, forced, state, env, frames, hsetter, hfind, rfl⟩ |
    ⟨id, env, frames, hfind, rfl⟩ |
    ⟨id, frame, env, frames, closed, below, remaining, hfind, hextract, rfl⟩ | rfl
  · refine ⟨Nat.le_refl _, fun e he => .inr ?_⟩
    rcases setter_labels hw hfind _ _ with ⟨before, after, hlabels, hupdate⟩
    change e ∈ (w.forest.update (hasId id) (Environment.settle forced state)).labels at he
    rw [hupdate, mem_append, mem_append] at he
    rcases he with (he | he) | he
    · exact ⟨e, by rw [hlabels]; simp [he], rfl, fun k hk => hk⟩
    · rcases mem_map.mp he with ⟨d, hd, rfl⟩
      refine ⟨d, ?_, id_ended _ _ d, fun k hk => ?_⟩
      · rw [hlabels]
        exact mem_append_left _ (mem_append_right _ hd)
      · cases forced with
        | false =>
          -- An environment in a terminal state is not running.
          have hrunning : d.isRunning = false := by
            by_contra h
            rw [Bool.not_eq_false] at h
            rw [kind_of_isRunning d h] at hk
            cases hk
          simpa [ended, hrunning] using hk
        | true =>
          rcases hclear id _ env _ hsetter hfind d hd with h | h
          · exact absurd (h.symm.trans hk) (by simp)
          · rw [ended, Bool.true_or, if_pos rfl, kind_finish, ← h]
            exact hk
    · exact ⟨e, by rw [hlabels]; simp [he], rfl, fun k hk => hk⟩
  · refine ⟨Nat.le_succ _, fun e he => ?_⟩
    have hperm := open_perm hfind fun env => asInnerFrameOf env w.nextId
    rcases mem_cons.mp (hperm.mem_iff.mp he) with rfl | he
    · exact .inl rfl
    · exact .inr ⟨e, he, rfl, fun k hk => hk⟩
  · refine ⟨Nat.le_refl _, fun e he => .inr ⟨e, ?_, rfl, fun k hk => hk⟩⟩
    exact (close_perm hfind hextract).mem_iff.mp he
  · exact ⟨Nat.le_refl _, fun e he => .inr ⟨e, he, rfl, fun k hk => hk⟩⟩

theorem step_attached (hw : w.Sound) (hstep : Takes step w call v) {root root' : Environment}
    {frames' rest rest' : Forest Environment}
    (hforest : w.forest = .cons root frames rest) (hforest' : v.forest = .cons root' frames' rest')
    (hroot : root.kind = none) (hk : root'.kind = some k) :
    ∀ e ∈ frames.labels, e.isRunning = true → ∀ e' ∈ v.forest.labels, e'.id = e.id →
      e'.kind = some k := by
  have hv := step_sound w _ v hw hstep
  have hchanged : root' ≠ root := by
    rintro rfl
    exact absurd (hroot.symm.trans hk) (by simp)
  -- The environment of the execution changes only if the call is on it.
  have hkept : ∀ id F, (hasId id root = true → (F root frames).1 = root) → ∀ g : Forest Environment,
      ((Forest.cons root frames rest).update (hasId id) F).append g ≠
        .cons root' frames' rest' := by
    intro id F hF g heq
    rcases Forest.update_cons _ hF with ⟨c, r, hupdate⟩
    rw [hupdate] at heq
    injection heq with hlabel
    exact hchanged hlabel.symm
  intro e he hrunning e' he' hid
  rcases step_cases hstep with ⟨id, forced, state, env, below, hsetter, hfind, rfl⟩ |
    ⟨id, env, below, hfind, rfl⟩ |
    ⟨id, frame, env, children, closed, below, remaining, hfind, hextract, rfl⟩ | rfl
  · change w.forest.update (hasId id) (Environment.settle forced state) = _ at hforest'
    rw [hforest] at hforest'
    by_cases htarget : hasId id root = true
    · rw [Forest.update, if_pos htarget] at hforest'
      injection hforest' with hlabel hframes hrest
      have htree : (Forest.tree root frames).Closed isRunning := by
        have hclosed := hw.closed
        rw [hforest] at hclosed
        exact ⟨hclosed.1, hclosed.2.1, trivial⟩
      have hlabels := settle_labels forced state _ _ htree
      injection hlabels with hlabel' hframes'
      -- The frame was changed as the environment itself.
      have hended : ended forced state e = e.finish state := by simp [ended, hrunning]
      have hmem : e.finish state ∈
          (w.forest.update (hasId id) (Environment.settle forced state)).labels := by
        rw [hforest, Forest.update, if_pos htarget, Forest.labels_cons, hframes', ← hended]
        exact mem_cons_of_mem _ (mem_append_left _ (mem_map_of_mem he))
      have hroot' : root'.kind = state.kind := by
        rw [← hlabel, hlabel', ended]
        split
        · rfl
        · next h =>
            rw [ended, if_neg h] at hlabel'
            exact absurd (hlabel.symm.trans hlabel') hchanged
      rw [eq_of_id hv he' hmem hid, kind_finish, ← hroot', hk]
    · refine absurd ?_ (hkept id (Environment.settle forced state) (fun h => absurd h htarget) .nil)
      rw [Forest.append_nil]
      exact hforest'
  · change w.forest.update (hasId id) _ = _ at hforest'
    rw [hforest] at hforest'
    refine absurd ?_ (hkept id (fun env frames =>
      (env, frames.append (.tree (asInnerFrameOf env w.nextId) .nil))) (fun _ => rfl) .nil)
    rw [Forest.append_nil]
    exact hforest'
  · change (w.forest.update (hasId id) _).append _ = _ at hforest'
    rw [hforest] at hforest'
    exact absurd hforest' (hkept id _ (fun _ => rfl) _)
  · rw [hforest] at hforest'
    injection hforest' with hlabel
    exact absurd hlabel.symm hchanged

/-! ### Runs -/

/-- Terminal states are absorbing along a run. -/
structure Absorbing (start : Frames) (calls : List Call) : Prop where
  /-- An environment stays in its terminal state. -/
  absorbing : ∀ before after u v, calls = before ++ after → Runs (Takes step) start before u →
    Runs (Takes step) u after v → ∀ e ∈ u.forest.labels, ∀ k, e.kind = some k →
      ∀ e' ∈ v.forest.labels, e'.id = e.id → e'.kind = some k ∧ e'.isRunning = false
  /-- The state that the environment of the execution reaches is reached by all
      running frames that are attached to it. -/
  attached : ∀ before call after u v root root' frames frames' rest rest' k,
    calls = before ++ call :: after → Runs (Takes step) start before u →
    Takes step u call v → u.forest = .cons root frames rest →
    v.forest = .cons root' frames' rest' → root.kind = none → root'.kind = some k →
    ∀ e ∈ frames.labels, e.isRunning = true → ∀ e' ∈ v.forest.labels, e'.id = e.id →
      e'.kind = some k
  /-- An execution that was aborted or has timed out is not reported as failed. -/
  reported : ∀ before after u v, calls = before ++ after → Runs (Takes step) start before u →
    Runs (Takes step) u after v → ∀ e ∈ u.forest.labels,
      e.kind = some .stopped ∨ e.kind = some .timedOut →
      ∀ e' ∈ v.forest.labels, e'.id = e.id →
        e'.executionStatus ≠ some .failed ∧ e'.terminationEvent ≠ some .executionFailed

theorem kind_of_failed (e : Environment)
    (h : e.executionStatus = some .failed ∨ e.terminationEvent = some .executionFailed) :
    e.kind = some .error := by
  rcases e with ⟨id, isFrame, _ | state⟩
  · rcases h with h | h
    · cases h
    · cases isFrame <;> exact absurd h (by simp [terminationEvent])
  · cases state with
    | error => rfl
    | ended | stopped | running | timedOut =>
      rcases h with h | h
      · cases h
      · cases isFrame <;> exact absurd h (by simp [terminationEvent])

theorem runs_sound {calls : List Call} (h : Runs (Takes step) w calls v) (hw : w.Sound) : v.Sound :=
  h.invariant step_sound hw

theorem runs_keep {u v : Frames} {calls : List Call} (h : Runs (Takes step) u calls v)
    (hclear : Along (Takes step) Clear u calls) (hu : u.Sound) {e : Environment}
    (he : e ∈ u.forest.labels) (hk : e.kind = some k) :
    ∀ e' ∈ v.forest.labels, e'.id = e.id → e'.kind = some k := by
  refine (h.invariant_along (P := fun w => w.Sound ∧ e.id < w.nextId ∧
    ∀ e' ∈ w.forest.labels, e'.id = e.id → e'.kind = some k) ?_ hclear
    ⟨hu, hu.known e he, fun e' he' hid => by rw [eq_of_id hu he' he hid, hk]⟩).2.2
  intro w call w' hcall hw hstep
  rcases hw with ⟨hsound, hlt, hkind⟩
  rcases step_origin hsound hcall hstep with ⟨hle, horigin⟩
  refine ⟨step_sound w _ w' hsound hstep, Nat.lt_of_lt_of_le hlt hle, fun e' he' hid => ?_⟩
  rcases horigin e' he' with hnew | ⟨d, hd, hsame, hkeep⟩
  · -- A new frame has a new identifier.
    omega
  · exact hkeep k (hkind d hd (hsame.symm.trans hid))

/-- If no call sets an error or a timeout where there is another terminal state, then terminal
    states are absorbing, reach all running frames, and are reported as what they are. -/
theorem terminal_absorbing (state : Option ProgramState) (calls : List Call)
    (hclear : Along (Takes step) Clear (initial state) calls) :
    Absorbing (initial state) calls := by
  have hsound : ∀ before u, Runs (Takes step) (initial state) before u → u.Sound :=
    fun before u h => runs_sound h (initial_sound _)
  refine ⟨?_, ?_, ?_⟩
  · intro before after u v hcalls hu hv e he k hk e' he' hid
    subst hcalls
    have hkind := runs_keep hv (Runs.along_append hclear hu) (hsound _ u hu) he hk e' he' hid
    refine ⟨hkind, ?_⟩
    by_contra hrunning
    rw [Bool.not_eq_false] at hrunning
    exact absurd ((kind_of_isRunning e' hrunning).symm.trans hkind) (by simp)
  · intro before call after u v root root' frames frames' rest rest' k _ hu hstep hforest hforest'
      hroot hk
    exact step_attached (hsound _ u hu) hstep hforest hforest' hroot hk
  · intro before after u v hcalls hu hv e he hkinds e' he' hid
    subst hcalls
    have hne : e'.kind ≠ some .error := by
      rcases hkinds with hk | hk
      · rw [runs_keep hv (Runs.along_append hclear hu) (hsound _ u hu) he hk e' he' hid]
        simp
      · rw [runs_keep hv (Runs.along_append hclear hu) (hsound _ u hu) he hk e' he' hid]
        simp
    exact ⟨fun h => hne (kind_of_failed e' (.inl h)), fun h => hne (kind_of_failed e' (.inr h))⟩

def endedCalls : List Call := [.openFrame 0, .setEnded 0, .setStop 0 0 none none]

theorem terminal_absorbing_of_endedCalls :
    Along (Takes step) Clear (initial (some (.running none none))) endedCalls ∧
      Absorbing (initial (some (.running none none))) endedCalls := by
  have hclear : Along (Takes step) Clear (initial (some (.running none none))) endedCalls := by
    intro before call after u hcalls _ id final env frames hsetter
    have hmem : call ∈ endedCalls := by
      rw [hcalls]
      exact mem_append_right _ mem_cons_self
    simp only [endedCalls, mem_cons, not_mem_nil, or_false] at hmem
    rcases hmem with rfl | rfl | rfl
    · cases hsetter
    · cases hsetter
    · cases hsetter
  exact ⟨hclear, terminal_absorbing _ _ hclear⟩

/-- An execution is stopped, and then its worker raises. -/
def overwritingCalls : List Call := [.setStop 0 0 none none, .setError 0 none]

/-- The environment was stopped and is reported as failed. -/
theorem terminal_overwritten :
    ¬Absorbing (initial (some (.running none none))) overwritingCalls := by
  intro h
  have hu : Runs (Takes step) (initial (some (.running none none))) [.setStop 0 0 none none]
      ⟨1, .tree ⟨0, false, some (.stopped 0 none none)⟩ .nil⟩ :=
    Runs.of_takeAll _ _ _ (by decide)
  have hv : Runs (Takes step) ⟨1, .tree ⟨0, false, some (.stopped 0 none none)⟩ .nil⟩
      [.setError 0 none] ⟨1, .tree ⟨0, false, some (.error none)⟩ .nil⟩ :=
    Runs.of_takeAll _ _ _ (by decide)
  have hreported := h.reported _ _ _ _ rfl hu hv ⟨0, false, some (.stopped 0 none none)⟩
    (by decide) (.inl rfl) ⟨0, false, some (.error none)⟩ (by decide) rfl
  exact hreported.1 rfl

end Frames

end LocalEmu.StepFunctions
