import Mathlib.Data.List.Rotate
import LocalEmu.Base.Pool
import LocalEmu.Core.Elbv2.ListenerRouter
import LocalEmu.Theory.Elbv2.CookieHeaders

/-!
# Sticky Sessions

What a load balancer with sticky cookies owes to its clients, whatever order the steps of the
requests and the registrations of targets come in. A cookie that was issued is a session with
a target, until it expires. A request that brings the cookie of a session is due to its target
if that is registered, and any other request to a target that is picked, with a new session.

The listener keeps its promise if the clock does not go back, and if no target comes back that
a request did not find: the listener has forgotten its session then. And it tells the client
of a new session only if it forwards the request as plain HTTP.
-/

namespace LocalEmu.Elbv2

open List

/-! ### Sessions -/

/-- A session: the key of its target, and when it expires. -/
structure Session where
  key : Text
  expiresAt : Int

/-- What is due to a request. -/
inductive Due
  -- Nothing as yet.
  | waiting
  -- It has brought the cookie of a session.
  | candidate (cookie : Text)
  -- The target of the session.
  | pinned (key : Text)
  -- Any target, and a new session.
  | free

/-- The sessions, those of them whose target a request did not find, the keys that are registered,
    the last reading of the clock, and what is due to the requests. -/
structure Spec where
  port : Nat
  sessions : Text → Option Session
  dropped : Text → Bool
  registered : Text → Bool
  clock : Option Int
  requests : List (Serving × Due)

def keyOf (port : Nat) (description : Text × Option Nat) : Text :=
  description.1 ++ ':' :: (toString ((description.2.filter (· ≠ 0)).getD port)).toList

/-- A request brings the cookie of a session that has not expired. -/
def Spec.Valid (σ : Spec) (serving : Serving) (now : Int) (cookie : Text) : Prop :=
  Carries (serving.request.header "Cookie") cookie ∧
    ∃ session, σ.sessions cookie = some session ∧ now < session.expiresAt ∧
      σ.dropped cookie = false

namespace Spec

open Classical in
/-- What is due to a request when its cookie is looked up. -/
noncomputable def dueAt (σ : Spec) (serving : Serving) (now : Int) : Due :=
  if h : ∃ cookie, σ.Valid serving now cookie then .candidate h.choose else .free

/-- The target of a session is not registered. -/
def absent (σ : Spec) (cookie : Text) : Bool :=
  match σ.sessions cookie with
  | some session => !σ.registered session.key
  | none => true

/-- What is due to a request when the target of its session is looked up. -/
def resolve (σ : Spec) : Due → Due
  | .candidate cookie =>
    match σ.sessions cookie with
    | some session => if σ.registered session.key then .pinned session.key else .free
    | none => .free
  | due => due

def setDue (σ : Spec) (n : Nat) (due : Serving × Due → Due) : Spec :=
  { σ with requests := σ.requests.modify n fun r => (r.1, due r) }

/-- Whether a request does not find the target of a session. -/
def misses (σ : Spec) (n : Nat) (cookie : Text) : Bool :=
  match σ.requests[n]? with
  | some (_, .candidate brought) => decide (brought = cookie) && σ.absent cookie
  | _ => false

def begin (σ : Spec) (n : Nat) (cookie key : Text) (now : Int) : Spec :=
  match σ.requests[n]? with
  | none => σ
  | some (serving, _) =>
    { σ with
      clock := some now
      sessions := fun other =>
        if other = cookie then some ⟨key, now + serving.config.cookieDuration * second⟩
        else σ.sessions other
      dropped := fun other => decide (other ≠ cookie) && σ.dropped other }

/-- How they change. -/
noncomputable def after (σ : Spec) : Event → Spec
  | .addTargets descriptions =>
    { σ with registered := fun key =>
        σ.registered key || decide (key ∈ descriptions.map (keyOf σ.port)) }
  | .removeTargets descriptions =>
    { σ with registered := fun key =>
        σ.registered key && !decide (key ∈ descriptions.map (keyOf σ.port)) }
  | .setHealth _ _ => σ
  | .arrive serving => { σ with requests := σ.requests ++ [(serving, .waiting)] }
  | .act n (.lookup now) => { σ.setDue n fun r => σ.dueAt r.1 now with clock := some now }
  | .act n .targetByKey =>
    { σ.setDue n fun r => σ.resolve r.2 with
      dropped := fun cookie => σ.dropped cookie || σ.misses n cookie }
  | .act n (.remember cookie key now) => σ.begin n cookie.text key now
  | .act _ _ => σ

/-- Before everything. -/
def initial (port : Nat) : Spec := ⟨port, fun _ => none, fun _ => false, fun _ => false, none, []⟩

end Spec

/-- What an event has to meet. Stickiness is on, and the cookies that are drawn are new. The clock
    does not go back, no target comes back that a request did not find, and a request has at most
    one cookie of the name. -/
def Admissible (σ : Spec) : Event → Prop
  | .addTargets descriptions => ∀ d ∈ descriptions, ∀ cookie session,
      σ.sessions cookie = some session → session.key = keyOf σ.port d → σ.dropped cookie = false
  | .arrive serving => serving.stickyActive = true ∧ 1 ≤ serving.config.cookieDuration ∧
      SingleAwsalb (serving.request.header "Cookie")
  | .act _ (.lookup now) => ∀ t ∈ σ.clock, t ≤ now
  | .act _ (.remember cookie _ now) =>
    (∀ t ∈ σ.clock, t ≤ now) ∧ σ.sessions cookie.text = none
  | _ => True

def AllAdmissible (σ : Spec) : List Event → Prop
  | [] => True
  | e :: es => Admissible σ e ∧ AllAdmissible (σ.after e) es

/-! ### Steps of a request -/

variable {group group' : TargetGroup} {handler : Handler} {phase : Phase} {act : Act}

/-- The steps of a request. -/
theorem Handler.next_cases (h : handler.next group act = some (group', phase)) :
    (∃ now, act = .lookup now ∧ handler.phase = .arrived ∧
      ((parseAwsalbCookie (handler.serving.request.header "Cookie") = none ∧ group' = group ∧
        phase = .picking) ∨
      ∃ cookie, parseAwsalbCookie (handler.serving.request.header "Cookie") = some cookie ∧
        group' = group.setStore (group.stickyStore.lookup cookie now).2 ∧
        ((∃ pin, (group.stickyStore.lookup cookie now).1 = some pin ∧
            phase = .found cookie pin) ∨
          (group.stickyStore.lookup cookie now).1 = none ∧ phase = .picking))) ∨
    (∃ cookie pin, act = .targetByKey ∧ handler.phase = .found cookie pin ∧ group' = group ∧
      ((∃ target, group.targets.get? pin.targetKey = some target ∧ phase = .chosen target none) ∨
        group.targets.get? pin.targetKey = none ∧ phase = .stale cookie)) ∨
    (∃ cookie, act = .forget ∧ handler.phase = .stale cookie ∧
      group' = group.setStore (group.stickyStore.forget cookie) ∧ phase = .picking) ∨
    (act = .pick ∧ handler.phase = .picking ∧ group' = group.pickTarget.2 ∧
      ((group.pickTarget.1 = none ∧ phase = .answered none none (.error 503)) ∨
        ∃ target, group.pickTarget.1 = some target ∧
          phase = if handler.serving.stickyActive then .picked target
            else .chosen target none)) ∨
    (∃ target cookie now, act = .remember cookie target.key now ∧
      handler.phase = .picked target ∧ phase = .chosen target (some cookie.text) ∧
      group' = group.setStore (group.stickyStore.remember cookie.text target.key
        handler.serving.config.cookieDuration now)) ∨
    (∃ target cookie upstream, act = .answer upstream ∧ handler.phase = .chosen target cookie ∧
      group' = group ∧
      phase = .answered (some target) cookie
        (handler.serving.respond target cookie upstream)) := by
  unfold Handler.next at h
  split at h
  · next now hphase =>
      refine .inl ⟨now, rfl, hphase, ?_⟩
      cases hparse : parseAwsalbCookie (handler.serving.request.header "Cookie") with
      | none =>
        rw [hparse] at h
        cases h
        exact .inl ⟨rfl, rfl, rfl⟩
      | some cookie =>
        rw [hparse] at h
        dsimp only at h
        cases hfound : (group.stickyStore.lookup cookie now).1 with
        | none =>
          rw [hfound] at h
          cases h
          exact .inr ⟨cookie, rfl, rfl, .inr ⟨hfound, rfl⟩⟩
        | some pin =>
          rw [hfound] at h
          cases h
          exact .inr ⟨cookie, rfl, rfl, .inl ⟨pin, hfound, rfl⟩⟩
  · next cookie pin hphase =>
      refine .inr (.inl ⟨cookie, pin, rfl, hphase, ?_⟩)
      cases hget : group.targets.get? pin.targetKey with
      | none =>
        rw [hget] at h
        cases h
        exact ⟨rfl, .inr ⟨rfl, rfl⟩⟩
      | some target =>
        rw [hget] at h
        cases h
        exact ⟨rfl, .inl ⟨target, rfl, rfl⟩⟩
  · next cookie hphase =>
      cases h
      exact .inr (.inr (.inl ⟨cookie, rfl, hphase, rfl, rfl⟩))
  · next hphase =>
      refine .inr (.inr (.inr (.inl ⟨rfl, hphase, ?_⟩)))
      dsimp only at h
      cases hpick : group.pickTarget.1 with
      | none =>
        rw [hpick] at h
        cases h
        exact ⟨rfl, .inl ⟨rfl, rfl⟩⟩
      | some target =>
        rw [hpick] at h
        dsimp only at h
        by_cases hactive : handler.serving.stickyActive = true
        · rw [if_pos hactive] at h
          cases h
          exact ⟨rfl, .inr ⟨target, rfl, by rw [if_pos hactive]⟩⟩
        · rw [if_neg hactive] at h
          cases h
          exact ⟨rfl, .inr ⟨target, rfl, by rw [if_neg hactive]⟩⟩
  · next target cookie key now hphase =>
      by_cases hkey : key = target.key
      · rw [if_pos hkey] at h
        cases h
        exact .inr (.inr (.inr (.inr (.inl ⟨target, cookie, now, by rw [hkey], hphase, rfl, rfl⟩))))
      · rw [if_neg hkey] at h
        cases h
  · next target cookie upstream hphase =>
      cases h
      exact .inr (.inr (.inr (.inr (.inr ⟨target, cookie, upstream, rfl, hphase, rfl, rfl⟩))))
  · cases h

/-! ### Due -/

variable {σ σ' : Spec} {serving : Serving} {now : Int}

variable {cookie : Text}

theorem dueAt_of_valid (hsingle : SingleAwsalb (serving.request.header "Cookie"))
    (h : σ.Valid serving now cookie) : σ.dueAt serving now = .candidate cookie := by
  have hex : ∃ cookie, σ.Valid serving now cookie := ⟨cookie, h⟩
  have hchoose := (parseAwsalbCookie_eq_some_iff hsingle _).mpr hex.choose_spec.1
  rw [(parseAwsalbCookie_eq_some_iff hsingle _).mpr h.1] at hchoose
  rw [Spec.dueAt, dif_pos hex, ← Option.some.inj hchoose]

theorem dueAt_of_not_valid (h : ∀ cookie, ¬σ.Valid serving now cookie) :
    σ.dueAt serving now = .free :=
  dif_neg fun ⟨cookie, hvalid⟩ => h cookie hvalid

theorem lookup_cases (store : StickyStore) (hne : cookie ≠ []) (now : Int) :
    (∃ pin, store.get? cookie = some pin ∧ now < pin.expiresAt ∧
      store.lookup cookie now = (some pin, store)) ∨
    (store.get? cookie = none ∧ store.lookup cookie now = (none, store)) ∨
    ∃ pin, store.get? cookie = some pin ∧ pin.expiresAt ≤ now ∧
      store.lookup cookie now = (none, store.erase cookie) := by
  rw [StickyStore.lookup, if_neg hne]
  cases hget : store.get? cookie with
  | none => exact .inr (.inl ⟨rfl, rfl⟩)
  | some pin =>
    by_cases hexpired : pin.expiresAt ≤ now
    · exact .inr (.inr ⟨pin, rfl, hexpired, if_pos hexpired⟩)
    · exact .inl ⟨pin, rfl, by omega, if_neg hexpired⟩

/-! ### The store and the sessions -/

/-- Targets are kept under their keys. Every pin is a session, and every session that is neither
    dropped nor expired is a pin. The target of a dropped session is not registered. -/
structure StoreMatches (group : TargetGroup) (σ : Spec) : Prop where
  port : group.port = σ.port
  keyed : ∀ key target, group.targets.get? key = some target → target.key = key
  registered : ∀ key, σ.registered key = (group.targets.get? key).isSome
  pin : ∀ cookie pin, group.stickyStore.get? cookie = some pin →
    ∃ session, σ.sessions cookie = some session ∧ session.key = pin.targetKey ∧
      session.expiresAt = pin.expiresAt
  session_pin : ∀ cookie session, σ.sessions cookie = some session → σ.dropped cookie = false →
    (∀ t ∈ σ.clock, t < session.expiresAt) →
    group.stickyStore.get? cookie = some ⟨session.key, session.expiresAt⟩
  dropped : ∀ cookie session, σ.sessions cookie = some session → σ.dropped cookie = true →
    σ.registered session.key = false

theorem newTarget_key (group : TargetGroup) (description : Text × Option Nat) :
    (group.newTarget description).key = keyOf group.port description := by
  unfold TargetGroup.newTarget
  split <;> rfl

theorem addTargets_spec (group : TargetGroup) (descriptions : List (Text × Option Nat))
    (targets : Dict Text Target)
    (hkeyed : ∀ key target, targets.get? key = some target → target.key = key) :
    let registered := descriptions.foldl (fun targets d =>
      targets.set (group.newTarget d).key (group.newTarget d)) targets
    (∀ key target, registered.get? key = some target → target.key = key) ∧
    ∀ key, (registered.get? key).isSome = true ↔
      (targets.get? key).isSome = true ∨ key ∈ descriptions.map (keyOf group.port) := by
  induction descriptions generalizing targets with
  | nil => exact ⟨hkeyed, fun _ => by simp⟩
  | cons d descriptions ih =>
    have hset (key : Text) : (targets.set (group.newTarget d).key (group.newTarget d)).get? key =
        if key = (group.newTarget d).key then some (group.newTarget d)
        else targets.get? key := Dict.get?_set _ _ _ _
    have hkeyed' : ∀ key target,
        (targets.set (group.newTarget d).key (group.newTarget d)).get? key = some target →
        target.key = key := by
      intro key target h
      rw [hset] at h
      by_cases hkey : key = (group.newTarget d).key
      · rw [if_pos hkey] at h
        rw [← Option.some.inj h, hkey]
      · rw [if_neg hkey] at h
        exact hkeyed _ _ h
    rcases ih _ hkeyed' with ⟨hkept, hiff⟩
    refine ⟨hkept, fun key => (hiff _).trans ?_⟩
    rw [hset, newTarget_key, map_cons]
    by_cases hkey : key = keyOf group.port d
    · simp [hkey]
    · simp [hkey]

theorem StoreMatches.addTargets (h : StoreMatches group σ)
    {descriptions : List (Text × Option Nat)}
    (hadm : Admissible σ (.addTargets descriptions)) :
    StoreMatches (group.addTargets descriptions) (σ.after (.addTargets descriptions)) := by
  rcases addTargets_spec _ _ _ h.keyed with ⟨hkeyed, hiff⟩
  have hregistered (key : Text) : (σ.after (.addTargets descriptions)).registered key =
      (σ.registered key || decide (key ∈ descriptions.map (keyOf σ.port))) := rfl
  refine ⟨h.port, hkeyed, fun key => ?_, h.pin, h.session_pin, fun cookie session hs hdropped => ?_⟩
  · rw [hregistered, h.registered, Bool.eq_iff_iff, Bool.or_eq_true, decide_eq_true_iff, ← h.port]
    exact (hiff _).symm
  · rw [hregistered, h.dropped _ _ hs hdropped, Bool.false_or, decide_eq_false_iff_not]
    intro hmem
    rcases List.mem_map.mp hmem with ⟨d, hd, hkey⟩
    have hnot := hadm d hd _ _ hs hkey.symm
    rw [show σ.dropped cookie = true from hdropped] at hnot
    cases hnot

theorem removeTargets_get? (group : TargetGroup) (descriptions : List (Text × Option Nat))
    (key : Text) :
    (group.removeTargets descriptions).targets.get? key =
      if key ∈ descriptions.map (keyOf group.port) then none else group.targets.get? key := by
  have hfold : (group.removeTargets descriptions).targets =
      (descriptions.map (keyOf group.port)).foldl (fun d k => d.erase k) group.targets := by
    rw [foldl_map, TargetGroup.removeTargets]
    simp only [newTarget_key]
  rw [hfold, Dict.get?_foldl_erase]
  by_cases hkey : key ∈ descriptions.map (keyOf group.port)
  · rw [if_pos hkey, if_pos hkey]
  · rw [if_neg hkey, if_neg hkey]

theorem StoreMatches.removeTargets (h : StoreMatches group σ)
    (descriptions : List (Text × Option Nat)) :
    StoreMatches (group.removeTargets descriptions) (σ.after (.removeTargets descriptions)) := by
  have hget := removeTargets_get? group descriptions
  rw [h.port] at hget
  have hregistered (key : Text) : (σ.after (.removeTargets descriptions)).registered key =
      (σ.registered key && !decide (key ∈ descriptions.map (keyOf σ.port))) := rfl
  refine ⟨h.port, fun key target htarget => ?_, fun key => ?_, h.pin, h.session_pin,
    fun cookie session hs hdropped => ?_⟩
  · rw [hget] at htarget
    split_ifs at htarget
    exact h.keyed _ _ htarget
  · rw [hregistered, h.registered, hget]
    by_cases hkey : key ∈ descriptions.map (keyOf σ.port)
    · rw [if_pos hkey, decide_eq_true hkey, Bool.not_true, Bool.and_false]
      rfl
    · rw [if_neg hkey, decide_eq_false hkey, Bool.not_false, Bool.and_true]
  · rw [hregistered, h.dropped _ _ hs hdropped, Bool.false_and]

theorem setHealth_get? (group : TargetGroup) (key : Text) (health : Health) (other : Text) :
    ((group.setHealth key health).targets.get? other).isSome =
      (group.targets.get? other).isSome ∧
    ∀ target, (group.setHealth key health).targets.get? other = some target →
      ∃ old, group.targets.get? other = some old ∧ target.key = old.key := by
  unfold TargetGroup.setHealth
  cases hget : group.targets.get? key with
  | none => exact ⟨rfl, fun target h => ⟨target, h, rfl⟩⟩
  | some found =>
    have hset : (group.targets.set key { found with health := health }).get? other =
        if other = key then some { found with health := health }
        else group.targets.get? other := Dict.get?_set _ _ _ _
    rw [hset]
    by_cases hkey : other = key
    · rw [if_pos hkey, hkey, hget]
      refine ⟨rfl, fun target h => ⟨found, rfl, ?_⟩⟩
      rw [← Option.some.inj h]
      rfl
    · rw [if_neg hkey]
      exact ⟨rfl, fun target h => ⟨target, h, rfl⟩⟩

theorem setHealth_eq (group : TargetGroup) (key : Text) (health : Health) :
    (group.setHealth key health).port = group.port ∧
      (group.setHealth key health).stickyStore = group.stickyStore := by
  unfold TargetGroup.setHealth
  split <;> exact ⟨rfl, rfl⟩

theorem StoreMatches.setHealth (h : StoreMatches group σ) (key : Text) (health : Health) :
    StoreMatches (group.setHealth key health) σ := by
  have hget := setHealth_get? group key health
  rcases setHealth_eq _ _ health with ⟨hport, hstore⟩
  refine ⟨hport.trans h.port, fun other target htarget => ?_, fun other => ?_, ?_, ?_, h.dropped⟩
  · rcases (hget _).2 target htarget with ⟨old, hold, hkey⟩
    rw [hkey, h.keyed _ _ hold]
  · rw [(hget _).1, h.registered]
  · rw [hstore]
    exact h.pin
  · rw [hstore]
    exact h.session_pin

theorem StoreMatches.setDue (h : StoreMatches group σ) (n : Nat) (due : Serving × Due → Due) :
    StoreMatches group (σ.setDue n due) :=
  ⟨h.port, h.keyed, h.registered, h.pin, h.session_pin, h.dropped⟩

theorem StoreMatches.setClock (h : StoreMatches group σ) (hclock : ∀ t ∈ σ.clock, t ≤ now) :
    StoreMatches group { σ with clock := some now } := by
  refine ⟨h.port, h.keyed, h.registered, h.pin, fun cookie session hs hdropped hlater => ?_,
    h.dropped⟩
  refine h.session_pin _ _ hs hdropped fun t ht => ?_
  have hle := hclock t ht
  have hlt := hlater _ rfl
  omega

theorem StoreMatches.erase (h : StoreMatches group σ)
    (hended : ∀ session, σ.sessions cookie = some session → σ.dropped cookie = false →
      ∃ t ∈ σ.clock, session.expiresAt ≤ t) :
    StoreMatches (group.setStore (group.stickyStore.erase cookie)) σ := by
  have hget (other : Text) : (group.stickyStore.erase cookie).get? other =
      if other = cookie then none else group.stickyStore.get? other := Dict.get?_erase _ _ _
  refine ⟨h.port, h.keyed, h.registered, fun other pin hpin => ?_, ?_, h.dropped⟩
  · have hpin' : (group.stickyStore.erase cookie).get? other = some pin := hpin
    rw [hget] at hpin'
    split_ifs at hpin'
    exact h.pin _ _ hpin'
  · intro other session hs hdropped hclock
    have hne : other ≠ cookie := by
      rintro rfl
      rcases hended _ hs hdropped with ⟨t, ht, hexpired⟩
      have hlt := hclock t ht
      omega
    have hpin := h.session_pin _ _ hs hdropped hclock
    change (group.stickyStore.erase cookie).get? other = _
    rw [hget, if_neg hne, hpin]

variable {n : Nat}

theorem begin_eq {due : Due} {key : Text}
    (hrequest : σ.requests[n]? = some (serving, due)) :
    σ.begin n cookie key now =
      { σ with
        clock := some now
        sessions := fun other =>
          if other = cookie then some ⟨key, now + serving.config.cookieDuration * second⟩
          else σ.sessions other
        dropped := fun other => decide (other ≠ cookie) && σ.dropped other } := by
  rw [Spec.begin, hrequest]

theorem StoreMatches.begin (h : StoreMatches group σ) {due : Due} {key : Text}
    (hrequest : σ.requests[n]? = some (serving, due))
    (hduration : 1 ≤ serving.config.cookieDuration) (hclock : ∀ t ∈ σ.clock, t ≤ now) :
    StoreMatches (group.setStore (group.stickyStore.remember cookie key
      serving.config.cookieDuration now)) (σ.begin n cookie key now) := by
  have hmax : max serving.config.cookieDuration 1 = serving.config.cookieDuration :=
    max_eq_left hduration
  have hget (other : Text) : (group.stickyStore.remember cookie key serving.config.cookieDuration
      now).get? other =
      if other = cookie then some ⟨key, now + serving.config.cookieDuration * second⟩
      else group.stickyStore.get? other := by
    rw [StickyStore.remember, hmax]
    exact Dict.get?_set _ _ _ _
  have hold := h.setClock hclock
  rw [begin_eq hrequest]
  refine ⟨h.port, h.keyed, h.registered, ?_, ?_, ?_⟩
  · intro other pin hpin
    have hpin' : (group.stickyStore.remember cookie key serving.config.cookieDuration now).get?
        other = some pin := hpin
    rw [hget] at hpin'
    dsimp only
    by_cases hother : other = cookie
    · rw [if_pos hother] at hpin' ⊢
      exact ⟨_, rfl, by rw [← Option.some.inj hpin'], by rw [← Option.some.inj hpin']⟩
    · rw [if_neg hother] at hpin' ⊢
      exact h.pin _ _ hpin'
  · intro other session hs hdropped hlater
    change (group.stickyStore.remember cookie key serving.config.cookieDuration now).get?
      other = _
    dsimp only at hs hdropped
    rw [hget]
    by_cases hother : other = cookie
    · rw [if_pos hother] at hs ⊢
      rw [← Option.some.inj hs]
    · rw [if_neg hother] at hs ⊢
      rw [decide_eq_true hother] at hdropped
      exact hold.session_pin _ _ hs hdropped hlater
  · intro other session hs hdropped
    dsimp only at hs hdropped
    by_cases hother : other = cookie
    · rw [decide_eq_false (not_not.mpr hother)] at hdropped
      cases hdropped
    · rw [if_neg hother] at hs
      rw [decide_eq_true hother] at hdropped
      exact h.dropped _ session hs hdropped

/-! ### Requests and what is due to them -/

/-- A request has picked a target at some moment. -/
def PickedIn (port : Nat) (events : List Event) (n : Nat) (target : Option Target) : Prop :=
  ∃ before after s, events = before ++ .act n .pick :: after ∧
    Runs (Takes step) (State.initial port) before s ∧ s.group.pickTarget.1 = target

theorem PickedIn.append {port : Nat} {events : List Event} {target : Option Target}
    (h : PickedIn port events n target) (e : Event) : PickedIn port (events ++ [e]) n target := by
  rcases h with ⟨before, after, s, rfl, hrun, hpick⟩
  exact ⟨before, after ++ [e], s, by simp, hrun, hpick⟩

/-- A cookie is that of a session with a target. -/
def SessionWith (σ : Spec) (cookie : Text) (target : Target) : Prop :=
  ∃ session, σ.sessions cookie = some session ∧ session.key = target.key

/-- A request did not find the target of a session. -/
def Dropped (σ : Spec) (cookie : Text) : Prop :=
  (∃ session, σ.sessions cookie = some session) ∧ σ.dropped cookie = true

/-- What a request has got. It is the target of the session that it has brought, whatever its
    health, or one that was picked. A new session is told to the client if the request was
    forwarded as plain HTTP. -/
def Served (σ : Spec) (picked : Option Target → Prop) (serving : Serving)
    (target : Option Target) (cookie : Option Text) (response : Response) (due : Due) : Prop :=
  (∃ t, target = some t ∧ due = .pinned t.key ∧ cookie = none) ∨
  (due = .free ∧ picked target ∧ ∀ t, target = some t → ∃ new, cookie = some new ∧
    SessionWith σ new t ∧ (serving.isPlain t = true → ∀ status headers body,
      response = .forwarded status headers body → serving.setCookie new ∈ headers))

/-- How far a request is, and what is due to it. -/
def Fits (σ : Spec) (picked : Option Target → Prop) (serving : Serving) : Phase → Due → Prop
  | .arrived, due => due = .waiting
  | .found cookie pin, due =>
    (∃ session, σ.sessions cookie = some session ∧ session.key = pin.targetKey) ∧
      (due = .candidate cookie ∨ due = .free ∧ Dropped σ cookie)
  | .stale cookie, due => due = .free ∧ Dropped σ cookie
  | .picking, due => due = .free
  | .picked target, due => due = .free ∧ picked (some target)
  | .chosen target none, due => due = .pinned target.key
  | .chosen target (some cookie), due =>
    due = .free ∧ picked (some target) ∧ SessionWith σ cookie target
  | .answered target cookie response, due =>
    Served σ picked serving target cookie response due

/-- Sessions stay as they are, and stay dropped. -/
structure Extends (σ σ' : Spec) : Prop where
  session : ∀ cookie session, σ.sessions cookie = some session →
    σ'.sessions cookie = some session
  dropped : ∀ cookie session, σ.sessions cookie = some session → σ.dropped cookie = true →
    σ'.dropped cookie = true

theorem Extends.of_eq (hsessions : σ'.sessions = σ.sessions) (hdropped : σ'.dropped = σ.dropped) :
    Extends σ σ' :=
  ⟨fun _ _ hs => by rw [hsessions]; exact hs, fun _ _ _ hd => by rw [hdropped]; exact hd⟩

theorem Extends.drops (h : Extends σ σ') (hd : Dropped σ cookie) : Dropped σ' cookie := by
  rcases hd with ⟨⟨session, hs⟩, hdropped⟩
  exact ⟨⟨session, h.session _ _ hs⟩, h.dropped _ _ hs hdropped⟩

theorem Extends.sessionWith (h : Extends σ σ') {target : Target}
    (hw : SessionWith σ cookie target) : SessionWith σ' cookie target := by
  rcases hw with ⟨session, hs, hkey⟩
  exact ⟨session, h.session _ _ hs, hkey⟩

theorem Fits.mono {picked picked' : Option Target → Prop} {due : Due} (hσ : Extends σ σ')
    (hpicked : ∀ target, picked target → picked' target)
    (h : Fits σ picked serving phase due) : Fits σ' picked' serving phase due := by
  cases phase with
  | arrived | picking => exact h
  | found =>
    rcases h with ⟨⟨session, hs, hkey⟩, hdue⟩
    exact ⟨⟨session, hσ.session _ _ hs, hkey⟩, hdue.imp_right fun hd => ⟨hd.1, hσ.drops hd.2⟩⟩
  | stale => exact ⟨h.1, hσ.drops h.2⟩
  | picked => exact ⟨h.1, hpicked _ h.2⟩
  | chosen target cookie =>
    cases cookie with
    | none => exact h
    | some => exact ⟨h.1, hpicked _ h.2.1, hσ.sessionWith h.2.2⟩
  | answered =>
    rcases h with hpinned | ⟨hdue, hpick, hall⟩
    · exact .inl hpinned
    · refine .inr ⟨hdue, hpicked _ hpick, fun t ht => ?_⟩
      rcases hall t ht with ⟨new, hcookie, hsession, htold⟩
      exact ⟨new, hcookie, hσ.sessionWith hsession, htold⟩

/-- A request that stickiness is on for, and that brings one cookie of the name at most. -/
structure Proper (serving : Serving) : Prop where
  active : serving.stickyActive = true
  duration : 1 ≤ serving.config.cookieDuration
  single : SingleAwsalb (serving.request.header "Cookie")

/-- The listener and the sessions after some events. -/
structure Matches (port : Nat) (events : List Event) (s : State) (σ : Spec) : Prop where
  store : StoreMatches s.group σ
  length : s.handlers.length = σ.requests.length
  request : ∀ n handler, s.handlers[n]? = some handler → Proper handler.serving ∧
    ∃ due, σ.requests[n]? = some (handler.serving, due) ∧
      Fits σ (PickedIn port events n) handler.serving handler.phase due

theorem matches_initial (port : Nat) : Matches port [] (.initial port) (.initial port) where
  store := by
    refine ⟨rfl, fun _ _ h => ?_, fun _ => rfl, fun _ _ h => ?_, fun _ _ h => ?_, fun _ _ h => ?_⟩
    all_goals cases h
  length := rfl
  request n handler h := by cases h

/-! ### Events -/

variable {port : Nat} {events : List Event} {s s' : State}

theorem Matches.environment (h : Matches port events s σ) (e : Event)
    (hstore : StoreMatches group' σ') (hσ : Extends σ σ') (hrequests : σ'.requests = σ.requests) :
    Matches port (events ++ [e]) ⟨group', s.handlers⟩ σ' where
  store := hstore
  length := by rw [hrequests]; exact h.length
  request n handler hn := by
    rcases h.request n handler hn with ⟨hproper, due, hdue, hfits⟩
    exact ⟨hproper, due, by rw [hrequests]; exact hdue, hfits.mono hσ fun _ hpick => hpick.append e⟩

theorem Matches.arrive (h : Matches port events s σ) (hproper : Proper serving) :
    Matches port (events ++ [.arrive serving]) { s with handlers := s.handlers ++ [.new serving] }
      { σ with requests := σ.requests ++ [(serving, .waiting)] } where
  store := ⟨h.store.port, h.store.keyed, h.store.registered, h.store.pin, h.store.session_pin,
    h.store.dropped⟩
  length := by
    rw [List.length_append, List.length_append, h.length]
    rfl
  request n handler hn := by
    have hnew : (Handler.new serving).phase = .arrived := if_pos hproper.active
    rcases Nat.lt_or_ge n s.handlers.length with hlt | hge
    · rw [List.getElem?_append_left hlt] at hn
      rcases h.request n handler hn with ⟨hproper', due, hdue, hfits⟩
      have hlt' : n < σ.requests.length := h.length ▸ hlt
      refine ⟨hproper', due, by rw [List.getElem?_append_left hlt']; exact hdue, ?_⟩
      exact hfits.mono (Extends.of_eq rfl rfl) fun _ hpick => hpick.append _
    · rw [List.getElem?_append_right hge] at hn
      have hge' : σ.requests.length ≤ n := h.length ▸ hge
      rcases List.getElem?_eq_some_iff.mp hn with ⟨hlt, hget⟩
      have hzero : n - s.handlers.length = 0 := by
        have := hlt
        rw [List.length_singleton] at this
        omega
      have hhandler : handler = .new serving := by
        rw [← hget]
        simp [hzero]
      rw [hhandler]
      refine ⟨hproper, .waiting, ?_, ?_⟩
      · rw [List.getElem?_append_right hge', ← h.length, hzero]
        rfl
      · rw [hnew]
        exact rfl

theorem Matches.request_step (h : Matches port events s σ) (e : Event) {due : Due}
    (hhandler : s.handlers[n]? = some handler) (hstore : StoreMatches group' σ')
    (hσ : Extends σ σ') (hlength : σ'.requests.length = σ.requests.length)
    (hothers : ∀ m, m ≠ n → σ'.requests[m]? = σ.requests[m]?)
    (hdue : σ'.requests[n]? = some (handler.serving, due))
    (hfits : Fits σ' (PickedIn port (events ++ [e]) n) handler.serving phase due) :
    Matches port (events ++ [e]) ⟨group', s.handlers.set n ⟨handler.serving, phase⟩⟩ σ' where
  store := hstore
  length := by rw [length_set, hlength]; exact h.length
  request m other hm := by
    rcases Pool.getElem?_set_cases hm with ⟨rfl, rfl⟩ | ⟨hne, hm⟩
    · exact ⟨(h.request m handler hhandler).1, due, hdue, hfits⟩
    · rcases h.request m _ hm with ⟨hproper, due', hdue', hfits'⟩
      refine ⟨hproper, due', by rw [hothers m hne]; exact hdue', ?_⟩
      exact hfits'.mono hσ fun _ hpick => hpick.append e

theorem setDue_requests (σ : Spec) (n : Nat) (due : Serving × Due → Due) :
    (σ.setDue n due).requests.length = σ.requests.length ∧
    (∀ m, m ≠ n → (σ.setDue n due).requests[m]? = σ.requests[m]?) ∧
    ∀ r, σ.requests[n]? = some r → (σ.setDue n due).requests[n]? = some (r.1, due r) := by
  refine ⟨length_modify _ _ _, fun m hm => ?_, fun r hr => ?_⟩
  · exact getElem?_modify_ne _ _ (Ne.symm hm)
  · exact (getElem?_modify_eq _ n _).trans (by rw [hr]; rfl)

theorem Matches.lookup (h : Matches port events s σ)
    (hclock : ∀ t ∈ σ.clock, t ≤ now) (hhandler : s.handlers[n]? = some handler)
    (hnext : (parseAwsalbCookie (handler.serving.request.header "Cookie") = none ∧
        group' = s.group ∧ phase = .picking) ∨
      ∃ cookie, parseAwsalbCookie (handler.serving.request.header "Cookie") = some cookie ∧
        group' = s.group.setStore (s.group.stickyStore.lookup cookie now).2 ∧
        ((∃ pin, (s.group.stickyStore.lookup cookie now).1 = some pin ∧
            phase = .found cookie pin) ∨
          (s.group.stickyStore.lookup cookie now).1 = none ∧ phase = .picking)) :
    Matches port (events ++ [.act n (.lookup now)])
      ⟨group', s.handlers.set n ⟨handler.serving, phase⟩⟩
      (σ.after (.act n (.lookup now))) := by
  rcases h.request n handler hhandler with ⟨hproper, due, hdue, -⟩
  rcases setDue_requests σ n (fun r => σ.dueAt r.1 now) with ⟨hlength, hothers, hself⟩
  have hparse (cookie : Text) := parseAwsalbCookie_eq_some_iff hproper.single cookie
  have hstore : StoreMatches s.group (σ.after (.act n (.lookup now))) :=
    (h.store.setDue n _).setClock hclock
  -- It is enough to know the store, and what is due.
  have hact (hgroup : StoreMatches group' (σ.after (.act n (.lookup now))))
      (hfits : Fits (σ.after (.act n (.lookup now)))
        (PickedIn port (events ++ [.act n (.lookup now)]) n) handler.serving phase
        (σ.dueAt handler.serving now)) :=
    h.request_step _ hhandler hgroup (Extends.of_eq rfl rfl) hlength hothers
      (hself _ hdue) hfits
  rcases hnext with ⟨hnone, rfl, rfl⟩ | ⟨cookie, hsome, rfl, hfound⟩
  · refine hact hstore (dueAt_of_not_valid fun cookie hvalid => ?_)
    rw [(hparse _).mpr hvalid.1] at hnone
    cases hnone
  · have hcarries := (hparse _).mp hsome
    -- No other cookie is that of a session.
    have hfree (hnot : ¬σ.Valid handler.serving now cookie) :
        σ.dueAt handler.serving now = .free := by
      refine dueAt_of_not_valid fun other hvalid => ?_
      have hother := (hparse _).mpr hvalid.1
      rw [hsome, Option.some.injEq] at hother
      rw [hother] at hnot
      exact hnot hvalid
    rcases lookup_cases _ hcarries.1 _ with ⟨pin, hpin, hlt, hlookup⟩ |
      ⟨hpin, hlookup⟩ | ⟨pin, hpin, hle, hlookup⟩
    · rw [hlookup] at hact hfound ⊢
      rcases hfound with ⟨_, hsame, rfl⟩ | ⟨hnone, -⟩
      · cases hsame
        rcases h.store.pin _ _ hpin with ⟨session, hs, hkey, hexpires⟩
        refine hact hstore ⟨⟨session, hs, hkey⟩, ?_⟩
        cases hdropped : σ.dropped cookie with
        | false =>
          refine .inl (dueAt_of_valid hproper.single ⟨hcarries, session, hs, ?_, hdropped⟩)
          omega
        | true =>
          refine .inr ⟨hfree ?_, ⟨session, hs⟩, hdropped⟩
          rintro ⟨-, -, -, -, hnot⟩
          rw [hdropped] at hnot
          cases hnot
      · cases hnone
    · rw [hlookup] at hact hfound ⊢
      rcases hfound with ⟨_, hsome', -⟩ | ⟨-, rfl⟩
      · cases hsome'
      · refine hact hstore (hfree ?_)
        rintro ⟨-, session, hs, hlater, hdropped⟩
        have hsession := h.store.session_pin _ _ hs hdropped fun t ht => by
          have hle := hclock t ht
          omega
        rw [hpin] at hsession
        cases hsession
    · rw [hlookup] at hact hfound ⊢
      rcases h.store.pin _ _ hpin with ⟨session, hs, -, hexpires⟩
      rcases hfound with ⟨_, hsome', -⟩ | ⟨-, rfl⟩
      · cases hsome'
      · refine hact (hstore.erase fun session' hs' _ => ?_) (hfree ?_)
        · have hs'' : σ.sessions cookie = some session' := hs'
          rw [hs] at hs''
          cases hs''
          exact ⟨now, rfl, by omega⟩
        · rintro ⟨-, session', hs', hlater, -⟩
          rw [hs] at hs'
          cases hs'
          omega

theorem Matches.targetByKey (h : Matches port events s σ) {cookie : Text}
    {pin : StickyPin} (hhandler : s.handlers[n]? = some handler)
    (hphase : handler.phase = .found cookie pin)
    (hnext : (∃ target, s.group.targets.get? pin.targetKey = some target ∧
        phase = .chosen target none) ∨
      s.group.targets.get? pin.targetKey = none ∧ phase = .stale cookie) :
    Matches port (events ++ [.act n .targetByKey])
      ⟨s.group, s.handlers.set n ⟨handler.serving, phase⟩⟩ (σ.after (.act n .targetByKey)) := by
  rcases h.request n handler hhandler with ⟨hproper, due, hdue, hfits⟩
  rw [hphase] at hfits
  rcases hfits with ⟨⟨session, hs, hkey⟩, hcases⟩
  rcases setDue_requests σ n (fun r => σ.resolve r.2) with ⟨hlength, hothers, hself⟩
  have hdropped (other : Text) : (σ.after (.act n .targetByKey)).dropped other =
      (σ.dropped other || σ.misses n other) := rfl
  have hmisses (other : Text) (hmiss : σ.misses n other = true) :
      σ.absent other = true := by
    unfold Spec.misses at hmiss
    split at hmiss
    · exact (Bool.and_eq_true_iff.mp hmiss).2
    · cases hmiss
  have hstore : StoreMatches s.group (σ.after (.act n .targetByKey)) := by
    refine ⟨h.store.port, h.store.keyed, h.store.registered, h.store.pin,
      fun other session' hs' hnot hclock => ?_, fun other session' hs' hdrop => ?_⟩
    · rw [hdropped, Bool.or_eq_false_iff] at hnot
      exact h.store.session_pin _ _ hs' hnot.1 hclock
    · rw [hdropped, Bool.or_eq_true] at hdrop
      rcases hdrop with hdrop | hmiss
      · exact h.store.dropped _ _ hs' hdrop
      · have habsent := hmisses _ hmiss
        rw [Spec.absent, show σ.sessions other = some session' from hs',
          Bool.not_eq_true'] at habsent
        exact habsent
  have hextends : Extends σ (σ.after (.act n .targetByKey)) :=
    ⟨fun _ _ hs => hs, fun other _ _ hd => by rw [hdropped, hd, Bool.true_or]⟩
  refine h.request_step _ hhandler hstore hextends hlength hothers (hself _ hdue) ?_
  have hregistered := h.store.registered session.key
  rw [hkey] at hregistered
  rcases hnext with ⟨target, htarget, rfl⟩ | ⟨hnone, rfl⟩
  · rw [htarget] at hregistered
    rcases hcases with rfl | ⟨rfl, -, hdrop⟩
    · have hresolve : σ.resolve (.candidate cookie) = .pinned session.key := by
        rw [Spec.resolve, hs]
        exact if_pos (by rw [hkey]; exact hregistered)
      rw [hresolve, hkey, ← h.store.keyed _ _ htarget]
      exact rfl
    · -- Its target would not be registered.
      have hnot := h.store.dropped _ _ hs hdrop
      rw [hkey, hregistered] at hnot
      cases hnot
  · rw [hnone] at hregistered
    rcases hcases with rfl | ⟨rfl, hdrop⟩
    · have hresolve : σ.resolve (.candidate cookie) = .free := by
        rw [Spec.resolve, hs]
        exact if_neg (by rw [hkey, hregistered]; exact Bool.false_ne_true)
      have habsent : σ.absent cookie = true := by
        rw [Spec.absent, hs]
        dsimp only
        rw [hkey, hregistered]
        rfl
      rw [hresolve]
      refine ⟨rfl, ⟨session, hs⟩, ?_⟩
      rw [hdropped, Spec.misses, hdue]
      simp [habsent]
    · exact ⟨rfl, hextends.drops hdrop⟩

theorem pickTarget_eq (group : TargetGroup) :
    group.pickTarget.2.port = group.port ∧ group.pickTarget.2.targets = group.targets ∧
      group.pickTarget.2.stickyStore = group.stickyStore := by
  unfold TargetGroup.pickTarget
  dsimp only
  split <;> exact ⟨rfl, rfl, rfl⟩

theorem Matches.pick (h : Matches port events s σ)
    (hrun : Runs (Takes step) (State.initial port) events s)
    (hhandler : s.handlers[n]? = some handler) (hphase : handler.phase = .picking)
    (hnext : (s.group.pickTarget.1 = none ∧ phase = .answered none none (.error 503)) ∨
      ∃ target, s.group.pickTarget.1 = some target ∧
        phase = if handler.serving.stickyActive then .picked target else .chosen target none) :
    Matches port (events ++ [.act n .pick])
      ⟨s.group.pickTarget.2, s.handlers.set n ⟨handler.serving, phase⟩⟩
      (σ.after (.act n .pick)) := by
  rcases h.request n handler hhandler with ⟨hproper, due, hdue, hfits⟩
  rw [hphase] at hfits
  obtain rfl : due = .free := hfits
  rcases pickTarget_eq _ with ⟨hport, htargets, hstore⟩
  have hgroup : StoreMatches s.group.pickTarget.2 σ := by
    refine ⟨hport.trans h.store.port, ?_, ?_, ?_, ?_, h.store.dropped⟩
    · rw [htargets]
      exact h.store.keyed
    · rw [htargets]
      exact h.store.registered
    · rw [hstore]
      exact h.store.pin
    · rw [hstore]
      exact h.store.session_pin
  have hpicked (target : Option Target) (htarget : s.group.pickTarget.1 = target) :
      PickedIn port (events ++ [.act n .pick]) n target := ⟨events, [], s, rfl, hrun, htarget⟩
  refine h.request_step _ hhandler hgroup (Extends.of_eq rfl rfl) rfl (fun _ _ => rfl) hdue ?_
  rcases hnext with ⟨hnone, rfl⟩ | ⟨target, htarget, rfl⟩
  · exact .inr ⟨rfl, hpicked _ hnone, fun t ht => by cases ht⟩
  · rw [if_pos hproper.active]
    exact ⟨rfl, hpicked _ htarget⟩

theorem Matches.remember (h : Matches port events s σ) {cookie : CookieId}
    {target : Target} (hclock : ∀ t ∈ σ.clock, t ≤ now) (hnew : σ.sessions cookie.text = none)
    (hhandler : s.handlers[n]? = some handler) (hphase : handler.phase = .picked target) :
    Matches port (events ++ [.act n (.remember cookie target.key now)])
      ⟨s.group.setStore (s.group.stickyStore.remember cookie.text target.key
        handler.serving.config.cookieDuration now),
        s.handlers.set n ⟨handler.serving, .chosen target (some cookie.text)⟩⟩
      (σ.after (.act n (.remember cookie target.key now))) := by
  rcases h.request n handler hhandler with ⟨hproper, due, hdue, hfits⟩
  rw [hphase] at hfits
  rcases hfits with ⟨rfl, hpicked⟩
  have hbegin : σ.after (.act n (.remember cookie target.key now)) = _ := begin_eq hdue
  have hextends : Extends σ (σ.after (.act n (.remember cookie target.key now))) := by
    have hne (other : Text) (session : Session) (hs : σ.sessions other = some session) :
        other ≠ cookie.text := by
      rintro rfl
      rw [hnew] at hs
      cases hs
    rw [hbegin]
    refine ⟨fun other session hs => ?_, fun other session hs hdrop => ?_⟩
    · dsimp only
      rw [if_neg (hne _ _ hs), hs]
    · dsimp only
      rw [decide_eq_true (hne _ _ hs), hdrop]
      rfl
  have hstore : StoreMatches (s.group.setStore (s.group.stickyStore.remember cookie.text target.key
      handler.serving.config.cookieDuration now)) (σ.begin n cookie.text target.key now) :=
    h.store.begin hdue hproper.duration hclock
  have hrequests : (σ.after (.act n (.remember cookie target.key now))).requests = σ.requests := by
    rw [hbegin]
  have hdue' := hdue
  rw [← hrequests] at hdue'
  refine h.request_step _ hhandler hstore hextends ?_ ?_ hdue' ?_
  · rw [hrequests]
  · rw [hrequests]
    exact fun _ _ => rfl
  · refine ⟨rfl, hpicked.append _, ?_⟩
    rw [hbegin]
    exact ⟨_, if_pos rfl, rfl⟩

theorem setCookie_mem_respond {target : Target} {cookie : Text} {upstream : Upstream}
    (hplain : serving.isPlain target = true) {status : Nat} {headers : List (Text × Text)}
    {body : Bytes}
    (h : serving.respond target (some cookie) upstream = .forwarded status headers body) :
    serving.setCookie cookie ∈ headers := by
  rw [Serving.isPlain, Bool.and_eq_true, Bool.not_eq_true', decide_eq_true_iff] at hplain
  cases upstream with
  | fails => cases h
  | answers =>
    rw [Serving.respond, if_neg (by rw [hplain.1]; exact Bool.false_ne_true),
      if_neg (not_not.mpr hplain.2)] at h
    cases h
    simp

/-- Every event keeps the invariant. -/
theorem matches_of_takes (h : Matches port events s σ)
    (hrun : Runs (Takes step) (State.initial port) events s) {e : Event} (hadm : Admissible σ e)
    (hstep : Takes step s e s') : Matches port (events ++ [e]) s' (σ.after e) := by
  cases e with
  | addTargets =>
    cases hstep
    exact h.environment _ (h.store.addTargets hadm) (Extends.of_eq rfl rfl) rfl
  | removeTargets =>
    cases hstep
    exact h.environment _ (h.store.removeTargets _) (Extends.of_eq rfl rfl) rfl
  | setHealth key health =>
    cases hstep
    exact h.environment _ (h.store.setHealth _ health) (Extends.of_eq rfl rfl) rfl
  | arrive =>
    cases hstep
    exact h.arrive ⟨hadm.1, hadm.2.1, hadm.2.2⟩
  | act n =>
    rcases Option.bind_eq_some_iff.mp hstep with ⟨handler, hhandler, hmap⟩
    rcases Option.map_eq_some_iff.mp hmap with ⟨⟨group', phase⟩, hnext, rfl⟩
    rcases Handler.next_cases hnext with ⟨now, rfl, -, hcases⟩ |
      ⟨cookie, pin, rfl, hphase, rfl, hcases⟩ | ⟨cookie, rfl, hphase, rfl, rfl⟩ |
      ⟨rfl, hphase, rfl, hcases⟩ | ⟨target, cookie, now, rfl, hphase, rfl, rfl⟩ |
      ⟨target, cookie, upstream, rfl, hphase, rfl, rfl⟩
    · exact h.lookup hadm hhandler hcases
    · exact h.targetByKey hhandler hphase hcases
    · rcases h.request n handler hhandler with ⟨-, due, hdue, hfits⟩
      rw [hphase] at hfits
      rcases hfits with ⟨rfl, -, hdrop⟩
      refine h.request_step _ hhandler (h.store.erase fun _ _ hnot => ?_)
        (Extends.of_eq rfl rfl) rfl (fun _ _ => rfl) hdue rfl
      rw [hdrop] at hnot
      cases hnot
    · exact h.pick hrun hhandler hphase hcases
    · exact h.remember hadm.1 hadm.2 hhandler hphase
    · rcases h.request n handler hhandler with ⟨-, due, hdue, hfits⟩
      rw [hphase] at hfits
      refine h.request_step _ hhandler h.store (Extends.of_eq rfl rfl) rfl (fun _ _ => rfl) hdue ?_
      cases cookie with
      | none => exact .inl ⟨target, rfl, hfits, rfl⟩
      | some cookie =>
        rcases hfits with ⟨rfl, hpicked, hsession⟩
        refine .inr ⟨rfl, hpicked.append _, fun t ht => ?_⟩
        cases ht
        exact ⟨cookie, rfl, hsession, fun hplain status headers body hforwarded =>
          setCookie_mem_respond hplain hforwarded⟩

theorem allAdmissible_append {σ : Spec} {events : List Event} {e : Event} {rest : List Event}
    (h : AllAdmissible σ (events ++ e :: rest)) : Admissible (events.foldl Spec.after σ) e := by
  induction events generalizing σ with
  | nil => exact h.1
  | cons first events ih => exact ih h.2

theorem matches_of_runs (port : Nat) (events : List Event) (s : State)
    (hrun : Runs (Takes step) (State.initial port) events s)
    (hadm : AllAdmissible (Spec.initial port) events) :
    Matches port events s (events.foldl Spec.after (.initial port)) := by
  have hpoint := hrun.history (P := fun before t => before <+: events →
    Runs (Takes step) (State.initial port) before t ∧
      Matches port before t (before.foldl Spec.after (.initial port))) ?_ [] ?_
  · exact (hpoint prefix_rfl).2
  · rintro before t e u ih hstep ⟨rest, hrest⟩
    rcases ih ⟨e :: rest, by rw [← hrest]; simp⟩ with ⟨hbefore, hmatches⟩
    have hsplit : events = before ++ e :: rest := by rw [← hrest]; simp
    refine ⟨hbefore.append (Runs.cons _ _ _ _ _ hstep (Runs.nil u)), ?_⟩
    rw [foldl_append]
    exact matches_of_takes hmatches hbefore (allAdmissible_append (hsplit ▸ hadm)) hstep
  · exact fun _ => ⟨Runs.nil _, matches_initial _⟩

/-- In every run whose events are admissible a request is served as it is due to it: it gets the
    target of its session, whatever its health, or a target that was picked, and then a new
    session that the client is told of if the request was forwarded as plain HTTP. And a cookie
    is carried by a header in which a client sends it back. -/
theorem sticky_sessions (port : Nat) (events : List Event) (s : State)
    (hrun : Runs (Takes step) (State.initial port) events s)
    (hadm : AllAdmissible (Spec.initial port) events) :
    (∀ n handler target cookie response, s.handlers[n]? = some handler →
      handler.phase = .answered target cookie response →
      ∃ due, (events.foldl Spec.after (.initial port)).requests[n]? =
          some (handler.serving, due) ∧
        Served (events.foldl Spec.after (.initial port)) (PickedIn port events n)
          handler.serving target cookie response due) ∧
    ∀ (cookie : CookieId) duration secure before after,
      (∀ c ∈ before ++ after, ';' ∉ c) →
      Carries (cookieHeader (before ++
        cookiePair (buildSetCookie cookie.text duration secure) :: after)) cookie.text := by
  refine ⟨fun n handler target cookie response hhandler hphase => ?_, carries_cookiePair⟩
  rcases (matches_of_runs _ _ s hrun hadm).request n handler hhandler with ⟨-, due, hdue, hfits⟩
  rw [hphase] at hfits
  exact ⟨due, hdue, hfits⟩

/-! ### Examples -/

def exampleCookie : CookieId := ⟨"abc".toList, by decide, by decide⟩

def exampleServing (headers : List (Text × Text)) : Serving :=
  ⟨⟨headers⟩, ⟨true, 60, "lb_cookie".toList⟩, false⟩

/-- A target is registered, and picked and remembered for a request. -/
def firstVisit (targetId : Text) (serving : Serving) : List Event :=
  [.addTargets [(targetId, none)], .arrive serving, .act 0 (.lookup 0), .act 0 .pick,
    .act 0 (.remember exampleCookie (targetId ++ ":80".toList) 0),
    .act 0 (.answer (.answers 200 [] []))]

theorem allAdmissible_firstVisit (targetId : Text) (serving : Serving) (h : Proper serving) :
    AllAdmissible (.initial 80) (firstVisit targetId serving) := by
  refine ⟨fun _ _ _ _ hs => absurd hs (by simp [Spec.initial]), ?_⟩
  refine ⟨⟨h.active, h.duration, h.single⟩, ?_⟩
  refine ⟨fun _ ht => absurd ht (by simp [Spec.after, Spec.initial]), ?_⟩
  refine ⟨trivial, ?_⟩
  refine ⟨⟨fun t ht => ?_, rfl⟩, ?_⟩
  · cases ht
    exact Int.le_refl 0
  · exact ⟨trivial, trivial⟩

theorem proper_exampleServing : Proper (exampleServing []) :=
  ⟨by decide +kernel, by decide, by unfold SingleAwsalb; decide +kernel⟩

def exampleState (targetId : Text) : State :=
  (takeAll step (State.initial 80) (firstVisit targetId (exampleServing []))).getD (.initial 80)

/-- A request is forwarded to a host. -/
theorem sticky_sessions_of_firstVisit :
    (∀ n handler target cookie response,
      (exampleState "10.0.0.1".toList).handlers[n]? = some handler →
      handler.phase = .answered target cookie response →
      ∃ due, ((firstVisit "10.0.0.1".toList (exampleServing [])).foldl Spec.after
          (.initial 80)).requests[n]? = some (handler.serving, due) ∧
        Served ((firstVisit "10.0.0.1".toList (exampleServing [])).foldl Spec.after (.initial 80))
          (PickedIn 80 (firstVisit "10.0.0.1".toList (exampleServing [])) n)
          handler.serving target cookie response due) ∧
    ∀ (cookie : CookieId) duration secure before after,
      (∀ c ∈ before ++ after, ';' ∉ c) →
      Carries (cookieHeader (before ++
        cookiePair (buildSetCookie cookie.text duration secure) :: after)) cookie.text :=
  sticky_sessions 80 _ _
    (Runs.of_takeAll _ _ _ (Option.eq_some_of_isSome (by decide +kernel)))
    (allAdmissible_firstVisit _ _ proper_exampleServing)

def exampleFunction : Text := "arn:aws:lambda:us-east-1:000000000000:function:f".toList

/-- A request is forwarded to a function: the target is remembered, and the client is not told. -/
theorem function_without_cookie :
    AllAdmissible (.initial 80) (firstVisit exampleFunction (exampleServing [])) ∧
    ∃ s target, takeAll step (State.initial 80) (firstVisit exampleFunction (exampleServing [])) =
        some s ∧
      s.handlers = [⟨exampleServing [], .answered (some target) (some exampleCookie.text)
        (.forwarded 200 [("Content-Length".toList, "0".toList)] [])⟩] ∧
      s.group.stickyStore.get? exampleCookie.text = some ⟨target.key, 60 * second⟩ := by
  refine ⟨allAdmissible_firstVisit _ _ proper_exampleServing, _,
    ⟨exampleFunction, 80, [], .initial, some exampleFunction⟩, rfl, ?_, ?_⟩
  · decide +kernel
  · decide +kernel

/-! ### Round robin -/

namespace TargetGroup

variable (group : TargetGroup)

/-- The targets that are picked from: the healthy ones, if there are any. -/
def pool : List Target :=
  let healthy := group.targets.values.filter fun target => target.health = .healthy
  if healthy = [] then group.targets.values else healthy

/-- Some picks in a row, while the targets stay as they are. -/
def picks (group : TargetGroup) : Nat → List (Option Target)
  | 0 => []
  | n + 1 => group.pickTarget.1 :: picks group.pickTarget.2 n

theorem picks_eq (n : Nat) : group.picks n = (range n).map fun i =>
    group.pool[(group.rrCounter + i) % group.pool.length]? := by
  induction n generalizing group with
  | zero => rfl
  | succ n ih =>
    rw [picks, ih, range_succ_eq_map, map_cons, map_map]
    -- Without targets the counter stays where it is, but nothing is picked.
    by_cases hall : group.targets.values = []
    · simp [pickTarget, pool, hall, Function.comp_def]
    · have hpick : group.pickTarget = (group.pool[group.rrCounter % group.pool.length]?,
          { group with rrCounter := group.rrCounter + 1 }) := if_neg hall
      rw [hpick]
      refine congrArg₂ _ rfl (map_congr_left fun i _ => ?_)
      rw [Function.comp_apply, Nat.succ_eq_add_one, Nat.add_right_comm, Nat.add_assoc]
      rfl

theorem picks_add (m n : Nat) : group.picks (m + n) =
    group.picks m ++ { group with rrCounter := group.rrCounter + m }.picks n := by
  rw [picks_eq, picks_eq, picks_eq, range_add, map_append, map_map]
  refine congrArg _ (map_congr_left fun i _ => ?_)
  rw [Function.comp_apply, ← Nat.add_assoc]
  rfl

/-- In every round each target of the pool is picked once. -/
theorem picks_rounds (k : Nat) :
    (group.picks (k * group.pool.length)).Perm (replicate k (group.pool.map some)).flatten := by
  induction k generalizing group with
  | zero => simp [picks]
  | succ k ih =>
    -- The first round goes through the pool once, from where the counter stands.
    have hround : group.picks group.pool.length = (group.pool.rotate group.rrCounter).map some := by
      refine ext_getElem (by simp [picks_eq]) fun i hi _ => ?_
      have hi : i < group.pool.length := by simpa [picks_eq] using hi
      simp only [picks_eq, getElem_map, getElem_range, getElem_rotate, Nat.add_comm i]
      exact getElem?_eq_getElem (Nat.mod_lt _ (by omega))
    rw [Nat.succ_mul, Nat.add_comm, picks_add, hround, replicate_succ, flatten_cons]
    exact ((rotate_perm _ _).map _).append (ih _)

end TargetGroup

end LocalEmu.Elbv2
