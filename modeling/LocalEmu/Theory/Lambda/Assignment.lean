import LocalEmu.Core.Lambda.Assignment
import LocalEmu.Theory.Lambda.LifeCycle

/-!
# Environments For Concurrent Invocations

An invocation that starts an environment enters it into the table before it
reserves it. Another invocation that finds it there may reserve it first, and
then the one that started it fails. If no invocation tries an environment at
that moment, none fails: an environment that is not reserved yet by the thread
that started it is known to no other thread, so that it is still ready.
-/

namespace LocalEmu.Lambda

open List Option

variable {env : String}

namespace Thread

/-- The environment that the thread started and has not reserved yet. -/
def fresh : Thread → Option String
  | .starting env => some env
  | .releaseSemaphore env => some env
  | .publish env => some env
  | .reserveNew env => some env
  | _ => none

/-- The environment that the thread started and has not entered into the table yet. -/
def hidden : Thread → Option String
  | .starting env => some env
  | .releaseSemaphore env => some env
  | .publish env => some env
  | _ => none

/-- The environment whose status the thread changes. -/
def uses : Thread → Option String
  | .starting env => some env
  | .releaseSemaphore env => some env
  | .publish env => some env
  | .reserveNew env => some env
  | .yielded env => some env
  | .restoring env => some env
  | .stopping env => some env
  | .removing env => some env
  | .keepalive env => some env
  | .keepaliveStop env => some env
  | .onTimeout env => some env
  | _ => none

/-- The environments that the thread has still to try. -/
def remaining : Thread → List String
  | .scan remaining => remaining
  | _ => []

theorem uses_of_fresh {t : Thread} (h : t.fresh = some env) : t.uses = some env := by
  cases t <;> first | exact h | cases h

theorem fresh_of_hidden {t : Thread} (h : t.hidden = some env) :
    t.fresh = some env := by
  cases t <;> first | exact h | cases h

theorem hidden_or_reserveNew {t : Thread} (h : t.fresh = some env) :
    t.hidden = some env ∨ t = .reserveNew env := by
  cases t with
  | starting | releaseSemaphore | publish => exact .inl h
  | reserveNew => exact .inr (by rw [some.inj h])
  | _ => cases h

variable {capacityProvider : Bool} {s s' : Assignments} {t t' : Thread} {choice : Choice}

theorem after_cases {result : Option (Except InvalidStatusException Assignments)} {ok : Thread}
    {error : InvalidStatusException → Thread} (h : after s result ok error = some (s', t')) :
    (result = some (.ok s') ∧ t' = ok) ∨
    (∃ e, result = some (.error e) ∧ s' = s ∧ t' = error e) := by
  rcases map_eq_some_iff.mp h with ⟨r, hr, heq⟩
  cases r with
  | error e =>
    rcases Prod.mk.inj heq with ⟨rfl, rfl⟩
    exact .inr ⟨e, hr, rfl, rfl⟩
  | ok =>
    rcases Prod.mk.inj heq with ⟨rfl, rfl⟩
    exact .inl ⟨hr, rfl⟩

theorem attempt_cases
    {method : ExecutionEnvironment → Except InvalidStatusException ExecutionEnvironment}
    {result : Except InvalidStatusException Assignments}
    (h : s.attempt env method = some result) :
    ∃ object, s.objects.get? env = some object ∧
      ((∃ object', method object = .ok object' ∧
        result = .ok { s with objects := s.objects.set env object' }) ∨
      (∃ e, method object = .error e ∧ result = .error e)) := by
  rcases map_eq_some_iff.mp h with ⟨object, hget, heq⟩
  refine ⟨object, hget, ?_⟩
  rcases hmethod : method object with e | object'
  · rw [hmethod] at heq
    exact .inr ⟨e, rfl, heq.symm⟩
  · rw [hmethod] at heq
    exact .inl ⟨object', rfl, heq.symm⟩

/-- A section that changes no environment, of a thread without a new one. -/
structure Quiet (s : Assignments) (t : Thread) (s' : Assignments) (t' : Thread) : Prop where
  objects : s'.objects = s.objects
  environments : ∀ env ∈ s'.environments, env ∈ s.environments
  fresh : t'.fresh = none
  uses : t'.uses = none ∨ (t'.uses = t.uses ∧ t.fresh = none)
  remaining : ∀ env ∈ t'.remaining, env ∈ s.environments ∨ env ∈ t.remaining
  raised : ∀ e, t' ≠ .raised e

/-- A section that changes the environment the thread uses, which is not new. -/
structure Changes (s : Assignments) (t : Thread) (s' : Assignments) (t' : Thread)
    (env : String) : Prop where
  old : t.uses = some env ∧ t.fresh = none
  objects : ∃ object, s.objects.get? env ≠ none ∧ s'.objects = s.objects.set env object
  environments : s'.environments = s.environments
  fresh : t'.fresh = none
  uses : t'.uses = none ∨ t'.uses = some env
  remaining : t'.remaining = []
  raised : ∀ e, t' ≠ .raised e

theorem changes_of_attempt
    {method : ExecutionEnvironment → Except InvalidStatusException ExecutionEnvironment}
    {ok : Thread} {error : InvalidStatusException → Thread}
    (h : after s (s.attempt env method) ok error = some (s', t'))
    (hold : t.uses = some env ∧ t.fresh = none)
    (hok : ok.fresh = none ∧ (ok.uses = none ∨ ok.uses = some env) ∧ ok.remaining = [] ∧
      ∀ e, ok ≠ .raised e)
    (herror : ∀ e, (error e).fresh = none ∧ ((error e).uses = none ∨ (error e).uses = some env) ∧
      (error e).remaining = [] ∧ ∀ e', error e ≠ .raised e') :
    Quiet s t s' t' ∨ Changes s t s' t' env := by
  rcases after_cases h with ⟨hresult, rfl⟩ | ⟨e, -, rfl, rfl⟩
  · rcases attempt_cases hresult with ⟨object, hget, ⟨object', -, heq⟩ | ⟨e, -, heq⟩⟩
    · have hs' := Except.ok.inj heq
      exact .inr ⟨hold, ⟨object', by simp [hget], by rw [hs']⟩, by rw [hs'], hok.1, hok.2.1,
        hok.2.2.1, hok.2.2.2⟩
    · cases heq
  · rcases herror e with ⟨hfresh, huses, hremaining, hraised⟩
    have huses := huses.imp_right fun hsome => And.intro (hsome.trans hold.1.symm) hold.2
    exact .inl ⟨rfl, fun _ h => h, hfresh, huses, fun env henv => by
      rw [hremaining] at henv
      exact absurd henv not_mem_nil, hraised⟩

/-- What a section can do. -/
inductive Change (s : Assignments) (choice : Choice) : Thread → Assignments → Thread → Prop
  | quiet {t t' : Thread} {s' : Assignments} (h : Quiet s t s' t') : Change s choice t s' t'
  | changes {t t' : Thread} {s' : Assignments} (env : String) (h : Changes s t s' t' env) :
      Change s choice t s' t'
  | scan (env : String) (rest : List String) (object : ExecutionEnvironment) :
      Change s choice (.scan (env :: rest)) { s with objects := s.objects.set env object }
        (.yielded env)
  | create (id : String) (object : ExecutionEnvironment) (hchoice : choice = .create id)
      (hkeepalive : object.keepaliveStarted = false) :
      Change s choice .start { s with objects := s.objects.set id object } (.starting id)
  | starting (env : String) (object : ExecutionEnvironment)
      (hget : s.objects.get? env = some object) :
      Change s choice (.starting env)
        { s with objects := s.objects.set env object.startCompleted } (.releaseSemaphore env)
  | releaseSemaphore (env : String) (s' : Assignments) (hobjects : s'.objects = s.objects)
      (henvironments : s'.environments = s.environments) :
      Change s choice (.releaseSemaphore env) s' (.publish env)
  | publish (env : String) : Change s choice (.publish env)
      { s with environments := s.environments ++ [env] } (.reserveNew env)
  | reserved (env : String) (object : ExecutionEnvironment) :
      Change s choice (.reserveNew env) { s with objects := s.objects.set env object }
        (.yielded env)
  | raised (env : String) (object : ExecutionEnvironment) (e : InvalidStatusException)
      (hget : s.objects.get? env = some object) (herror : object.reserve = .error e) :
      Change s choice (.reserveNew env) s (.raised e)

/-- What a section can do. -/
theorem change_of_next (h : next capacityProvider s t choice = some (s', t')) :
    Change s choice t s' t' := by
  cases t with
  | snapshot =>
    cases choice <;> simp only [next, some.injEq, Prod.mk.injEq, reduceCtorEq] at h
    rcases h with ⟨rfl, rfl⟩
    refine .quiet ⟨rfl, fun _ h => h, rfl, .inl rfl, fun env henv => .inl ?_, by simp⟩
    exact (mem_filter.mp henv).1
  | scan remaining =>
    cases remaining with
    | nil =>
      cases choice <;> simp only [next, some.injEq, Prod.mk.injEq, reduceCtorEq] at h
      rcases h with ⟨rfl, rfl⟩
      exact .quiet ⟨rfl, fun _ h => h, rfl, .inl rfl, by simp [Thread.remaining], by simp⟩
    | cons env rest =>
      cases choice <;> simp only [next, reduceCtorEq] at h
      rcases after_cases h with ⟨hresult, rfl⟩ | ⟨e, -, rfl, rfl⟩
      · rcases attempt_cases hresult with ⟨object, hget, ⟨object', -, heq⟩ | ⟨e, -, heq⟩⟩
        · cases heq
          exact .scan env rest object'
        · cases heq
      · exact .quiet ⟨rfl, fun _ h => h, rfl, .inl rfl,
          fun env' henv => .inr (mem_cons_of_mem env henv), by simp⟩
  | acquire =>
    cases choice <;> simp only [next, reduceCtorEq] at h
    split at h
    · rcases Prod.mk.inj (some.inj h) with ⟨rfl, rfl⟩
      exact .quiet ⟨rfl, fun _ h => h, rfl, .inl rfl, by simp [Thread.remaining], by simp⟩
    · cases h
  | start =>
    cases choice <;> simp only [next, some.injEq, Prod.mk.injEq, reduceCtorEq] at h
    rcases h with ⟨rfl, rfl⟩
    exact .create _ _ rfl rfl
  | starting env =>
    cases choice <;> simp only [next, reduceCtorEq] at h
    rcases map_eq_some_iff.mp h with ⟨object, hget, heq⟩
    rcases Prod.mk.inj heq with ⟨rfl, rfl⟩
    exact .starting env object hget
  | releaseSemaphore env =>
    cases choice <;> simp only [next, some.injEq, Prod.mk.injEq, reduceCtorEq] at h
    rcases h with ⟨rfl, rfl⟩
    exact .releaseSemaphore env _ rfl rfl
  | publish env =>
    cases choice <;> simp only [next, some.injEq, Prod.mk.injEq, reduceCtorEq] at h
    rcases h with ⟨rfl, rfl⟩
    exact .publish env
  | reserveNew env =>
    cases choice <;> simp only [next, reduceCtorEq] at h
    rcases after_cases h with ⟨hresult, rfl⟩ | ⟨e, hresult, rfl, rfl⟩
    · rcases attempt_cases hresult with ⟨object, hget, ⟨object', hreserve, heq⟩ | ⟨e, -, heq⟩⟩
      · cases heq
        exact .reserved env object'
      · cases heq
    · rcases attempt_cases hresult with ⟨object, hget, ⟨object', -, heq⟩ | ⟨e', hreserve, heq⟩⟩
      · cases heq
      · cases heq
        exact .raised env object e hget hreserve
  | yielded =>
    cases choice <;> simp only [next, some.injEq, Prod.mk.injEq, reduceCtorEq] at h
    · exact (changes_of_attempt h ⟨rfl, rfl⟩ ⟨rfl, .inl rfl, rfl, by simp⟩
        fun _ => ⟨rfl, .inl rfl, rfl, by simp⟩).elim .quiet (.changes _)
    · rcases map_eq_some_iff.mp h with ⟨object, -, heq⟩
      rcases Prod.mk.inj heq with ⟨rfl, rfl⟩
      split
      · exact .quiet ⟨rfl, fun _ h => h, rfl, .inr ⟨rfl, rfl⟩, by simp [Thread.remaining], by simp⟩
      · exact .quiet ⟨rfl, fun _ h => h, rfl, .inr ⟨rfl, rfl⟩, by simp [Thread.remaining], by simp⟩
    · rcases h with ⟨rfl, rfl⟩
      exact .quiet ⟨rfl, fun _ h => h, rfl, .inl rfl, by simp [Thread.remaining], by simp⟩
  | restoring =>
    cases choice <;> simp only [next, reduceCtorEq] at h
    exact (changes_of_attempt h ⟨rfl, rfl⟩ ⟨rfl, .inl rfl, rfl, by simp⟩
      fun _ => ⟨rfl, .inr rfl, rfl, by simp⟩).elim .quiet (.changes _)
  | stopping | keepaliveStop =>
    cases choice <;> simp only [next, reduceCtorEq] at h
    exact (changes_of_attempt h ⟨rfl, rfl⟩ ⟨rfl, .inr rfl, rfl, by simp⟩
      fun _ => ⟨rfl, .inl rfl, rfl, by simp⟩).elim .quiet (.changes _)
  | removing | onTimeout =>
    cases choice <;> simp only [next, some.injEq, Prod.mk.injEq, reduceCtorEq] at h
    rcases h with ⟨rfl, rfl⟩
    exact .quiet ⟨rfl, fun _ h => mem_of_mem_erase h, rfl, .inl rfl,
      by simp [Thread.remaining], by simp⟩
  | keepalive env =>
    cases choice <;> simp only [next, reduceCtorEq] at h
    rcases map_eq_some_iff.mp h with ⟨object, hget, heq⟩
    rcases Prod.mk.inj heq with ⟨rfl, rfl⟩
    refine .changes env ⟨⟨rfl, rfl⟩, ⟨_, by simp [hget], rfl⟩, rfl, ?_, ?_, ?_, ?_⟩
    all_goals split <;> simp [Thread.fresh, Thread.uses, Thread.remaining]
  | returned | bodyRaised | raised | timerDone =>
    exact absurd h (by cases choice <;> simp [next])

end Thread

namespace AssignmentPool

open Thread

/-- What every section preserves if no invocation tries a new environment. -/
structure Orderly (p : AssignmentPool) : Prop where
  tabled : ∀ env ∈ p.shared.environments, p.shared.objects.get? env ≠ none
  scanned : ∀ (i : Nat) (t : Thread), p.threads[i]? = some t → ∀ env ∈ t.remaining,
    p.shared.objects.get? env ≠ none
  used : ∀ (i : Nat) (t : Thread), p.threads[i]? = some t → ∀ env, t.uses = some env →
    p.shared.objects.get? env ≠ none
  /-- A new environment is ready once it has started. -/
  ready : ∀ (i : Nat) (t : Thread), p.threads[i]? = some t → ∀ env, t.fresh = some env →
    ∃ object, p.shared.objects.get? env = some object ∧ object.keepaliveStarted = false ∧
      (t ≠ .starting env → object.status = .ready)
  /-- Nobody finds a new environment before it is in the table. -/
  hidden : ∀ (i : Nat) (t : Thread), p.threads[i]? = some t → ∀ env, t.hidden = some env →
    env ∉ p.shared.environments ∧
      ∀ (j : Nat) (u : Thread), p.threads[j]? = some u → env ∉ u.remaining
  /-- A new environment is used by no other thread. -/
  alone : ∀ (i j : Nat) (t u : Thread), p.threads[i]? = some t → p.threads[j]? = some u →
    i ≠ j → ∀ env, t.fresh = some env → u.uses ≠ some env
  raised : ∀ (i : Nat) (t : Thread), p.threads[i]? = some t → ∀ e, t ≠ .raised e

variable {p : AssignmentPool}

variable {label : Pool.Label Thread Choice} {object : ExecutionEnvironment} {n : Nat}

theorem orderly_set (hp : p.Orderly) {s' : Assignments} {t' : Thread}
    (hgrow : ∀ env, p.shared.objects.get? env ≠ none → s'.objects.get? env ≠ none)
    (htabled : ∀ env ∈ s'.environments, s'.objects.get? env ≠ none)
    (hscanned : ∀ env ∈ t'.remaining, s'.objects.get? env ≠ none)
    (hused : ∀ env, t'.uses = some env → s'.objects.get? env ≠ none)
    (hready : ∀ env, t'.fresh = some env → ∃ object, s'.objects.get? env = some object ∧
      object.keepaliveStarted = false ∧ (t' ≠ .starting env → object.status = .ready))
    (hothers : ∀ (i : Nat) (v : Thread), i ≠ n → p.threads[i]? = some v →
      ∀ env, v.fresh = some env →
      s'.objects.get? env = p.shared.objects.get? env ∧ t'.uses ≠ some env)
    (hhidden : ∀ env, t'.hidden = some env → env ∉ s'.environments ∧ env ∉ t'.remaining ∧
      ∀ (i : Nat) (v : Thread), i ≠ n → p.threads[i]? = some v → env ∉ v.remaining)
    (hunseen : ∀ (i : Nat) (v : Thread), i ≠ n → p.threads[i]? = some v →
      ∀ env, v.hidden = some env →
      env ∉ s'.environments ∧ env ∉ t'.remaining)
    (halone : ∀ env, t'.fresh = some env → ∀ (i : Nat) (v : Thread), i ≠ n →
      p.threads[i]? = some v →
      v.uses ≠ some env)
    (hraised : ∀ e, t' ≠ .raised e) :
    AssignmentPool.Orderly (Pool.mk s' (p.threads.set n t')) where
  tabled := htabled
  scanned := by
    intro i u hu env henv
    rcases Pool.getElem?_set_cases hu with ⟨rfl, rfl⟩ | ⟨-, hu⟩
    · exact hscanned _ henv
    · exact hgrow _ (hp.scanned i u hu _ henv)
  used := by
    intro i u hu env henv
    rcases Pool.getElem?_set_cases hu with ⟨rfl, rfl⟩ | ⟨-, hu⟩
    · exact hused _ henv
    · exact hgrow _ (hp.used i u hu _ henv)
  ready := by
    intro i u hu env henv
    rcases Pool.getElem?_set_cases hu with ⟨rfl, rfl⟩ | ⟨hne, hu⟩
    · exact hready _ henv
    · rw [(hothers i u hne hu _ henv).1]
      exact hp.ready i u hu _ henv
  hidden := by
    intro i u hu env henv
    rcases Pool.getElem?_set_cases hu with ⟨rfl, rfl⟩ | ⟨hne, hu⟩
    · refine ⟨(hhidden _ henv).1, fun j v hv => ?_⟩
      rcases Pool.getElem?_set_cases hv with ⟨rfl, rfl⟩ | ⟨hne, hv⟩
      · exact (hhidden _ henv).2.1
      · exact (hhidden _ henv).2.2 j v hne hv
    · have hu' : p.threads[i]? = some u := hu
      refine ⟨(hunseen i u hne hu' _ henv).1, fun j v hv => ?_⟩
      rcases Pool.getElem?_set_cases hv with ⟨rfl, rfl⟩ | ⟨-, hv⟩
      · exact (hunseen i u hne hu' _ henv).2
      · exact (hp.hidden i u hu' _ henv).2 j v hv
  alone := by
    intro i j u v hu hv hij env henv
    rcases Pool.getElem?_set_cases hu with ⟨rfl, rfl⟩ | ⟨hne, hu'⟩
    · rcases Pool.getElem?_set_cases hv with ⟨rfl, rfl⟩ | ⟨hne, hv⟩
      · exact absurd rfl hij
      · exact halone _ henv j v hne hv
    · rcases Pool.getElem?_set_cases hv with ⟨rfl, rfl⟩ | ⟨-, hv⟩
      · exact (hothers i u hne hu' _ henv).2
      · exact hp.alone i j u v hu' hv hij _ henv
  raised := by
    intro i u hu e
    rcases Pool.getElem?_set_cases hu with ⟨rfl, rfl⟩ | ⟨-, hu⟩
    · exact hraised e
    · exact hp.raised i u hu e

/-- No invocation tries to reserve an environment that is in the table and that
    the thread that started it has not reserved yet. -/
def Untouched (p : AssignmentPool) : Pool.Label Thread Choice → Prop
  | .act n _ => ∀ env rest, p.threads[n]? = some (.scan (env :: rest)) →
      .reserveNew env ∉ p.threads
  | .spawn _ => True

theorem get?_set_ne_none (objects : Dict String ExecutionEnvironment) (env : String)
    (object : ExecutionEnvironment) (env' : String) (h : objects.get? env' ≠ none) :
    (objects.set env object).get? env' ≠ none := by
  rw [Dict.get?_set]
  split
  · simp
  · exact h

theorem orderly_quiet (hp : p.Orderly) {s' : Assignments} {t t' : Thread}
    (ht : p.threads[n]? = some t) (h : Quiet p.shared t s' t') :
    AssignmentPool.Orderly (Pool.mk s' (p.threads.set n t')) := by
  have huses : ∀ env, t'.uses = some env → t.uses = some env := by
    intro env henv
    rcases h.uses with hnone | ⟨hsame, -⟩
    · rw [hnone] at henv
      cases henv
    · rw [← hsame]
      exact henv
  have hnew (env : String) : t'.fresh ≠ some env := by simp [h.fresh]
  have hremaining : ∀ env ∈ t'.remaining, p.shared.objects.get? env ≠ none := by
    intro env henv
    rcases h.remaining _ henv with henv | henv
    · exact hp.tabled _ henv
    · exact hp.scanned n t ht _ henv
  refine orderly_set hp ?_ ?_ ?_ ?_ ?_ ?_ ?_ ?_ ?_ h.raised
  · rw [h.objects]
    exact fun _ henv => henv
  · rw [h.objects]
    exact fun env henv => hp.tabled _ (h.environments _ henv)
  · rw [h.objects]
    exact hremaining
  · rw [h.objects]
    exact fun env henv => hp.used n t ht _ (huses _ henv)
  · exact fun env henv => absurd henv (hnew _)
  · intro i v hne hv env henv
    exact ⟨by rw [h.objects], fun huse => hp.alone i n v t hv ht hne _ henv (huses _ huse)⟩
  · exact fun env henv => absurd (fresh_of_hidden henv) (hnew _)
  · intro i v _ hv env henv
    rcases hp.hidden i v hv _ henv with ⟨htable, hscan⟩
    refine ⟨fun hmem => htable (h.environments _ hmem), fun hmem => ?_⟩
    rcases h.remaining _ hmem with hmem | hmem
    · exact htable hmem
    · exact hscan n t ht hmem
  · exact fun env henv => absurd henv (hnew _)

theorem orderly_change (hp : p.Orderly) {t' : Thread} {s' : Assignments}
    (hobjects : s'.objects = p.shared.objects.set env object)
    (henvironments : s'.environments = p.shared.environments)
    (hold : ∀ (i : Nat) (v : Thread), i ≠ n → p.threads[i]? = some v → v.fresh ≠ some env)
    (hfresh : t'.fresh = none) (huses : t'.uses = none ∨ t'.uses = some env)
    (hremaining : t'.remaining = []) (hraised : ∀ e, t' ≠ .raised e) :
    AssignmentPool.Orderly (Pool.mk s' (p.threads.set n t')) := by
  have hgrow : ∀ env', p.shared.objects.get? env' ≠ none → s'.objects.get? env' ≠ none := by
    rw [hobjects]
    exact get?_set_ne_none _ _ _
  have hnew (env' : String) : t'.fresh ≠ some env' := by simp [hfresh]
  have huse : ∀ env', t'.uses = some env' → env' = env := by
    intro env' henv'
    rcases huses with hnone | hsome
    · rw [hnone] at henv'
      cases henv'
    · exact some.inj (henv'.symm.trans hsome)
  refine orderly_set hp hgrow ?_ ?_ ?_ ?_ ?_ ?_ ?_ ?_ hraised
  · intro env' henv'
    rw [henvironments] at henv'
    exact hgrow _ (hp.tabled _ henv')
  · rw [hremaining]
    simp
  · intro env' henv'
    rw [huse _ henv', hobjects, Dict.get?_set]
    simp
  · exact fun env' henv' => absurd henv' (hnew _)
  · intro i v hne hv env' henv'
    have hother : env' ≠ env := fun heq => hold i v hne hv (heq ▸ henv')
    refine ⟨?_, fun hsome => hother (huse _ hsome)⟩
    rw [hobjects, Dict.get?_set, if_neg hother]
  · exact fun env' henv' => absurd (fresh_of_hidden henv') (hnew _)
  · intro i v _ hv env' henv'
    rw [henvironments, hremaining]
    exact ⟨(hp.hidden i v hv _ henv').1, not_mem_nil⟩
  · exact fun env' henv' => absurd henv' (hnew _)

theorem orderly_fresh (hp : p.Orderly) {t t' : Thread} {s' : Assignments}
    (ht : p.threads[n]? = some t) (htfresh : t.hidden = some env) (hfresh : t'.fresh = some env)
    (huses : t'.uses = some env) (hremaining : t'.remaining = [])
    (hhidden : t'.hidden = none ∨ (t'.hidden = some env ∧
      s'.environments = p.shared.environments))
    (henvironments : ∀ env' ∈ s'.environments, env' ∈ p.shared.environments ∨ env' = env)
    (hgrow : ∀ env', p.shared.objects.get? env' ≠ none → s'.objects.get? env' ≠ none)
    (hget : s'.objects.get? env = some object)
    (hother : ∀ env', env' ≠ env → s'.objects.get? env' = p.shared.objects.get? env')
    (hkeepalive : object.keepaliveStarted = false) (hready : object.status = .ready)
    (hraised : ∀ e, t' ≠ .raised e) :
    AssignmentPool.Orderly (Pool.mk s' (p.threads.set n t')) := by
  have htuses : t.uses = some env := uses_of_fresh (fresh_of_hidden htfresh)
  have hsome : ∀ env', some env = some env' → env' = env := fun env' h => (some.inj h).symm
  have hne : ∀ (i : Nat) (v : Thread), i ≠ n → p.threads[i]? = some v → ∀ env',
      v.fresh = some env' → env' ≠ env := by
    intro i v hi hv env' henv' heq
    exact hp.alone i n v t hv ht hi _ henv' (heq ▸ htuses)
  refine orderly_set hp hgrow ?_ ?_ ?_ ?_ ?_ ?_ ?_ ?_ hraised
  · intro env' henv'
    rcases henvironments _ henv' with hold | rfl
    · exact hgrow _ (hp.tabled _ hold)
    · rw [hget]
      simp
  · rw [hremaining]
    simp
  · intro env' henv'
    rw [hsome env' (huses ▸ henv'), hget]
    simp
  · intro env' henv'
    rw [hsome env' (hfresh ▸ henv')]
    exact ⟨object, hget, hkeepalive, fun _ => hready⟩
  · intro i v hi hv env' henv'
    refine ⟨hother _ (hne i v hi hv _ henv'), fun huse => ?_⟩
    exact hne i v hi hv _ henv' (hsome _ (huses ▸ huse))
  · intro env' henv'
    rcases hhidden with hnone | ⟨hhid, hsame⟩
    · rw [hnone] at henv'
      cases henv'
    · rw [hsome env' (hhid ▸ henv'), hsame, hremaining]
      rcases hp.hidden n t ht _ htfresh with ⟨htable, hscan⟩
      exact ⟨htable, not_mem_nil, fun i v _ hv => hscan i v hv⟩
  · intro i v hi hv env' henv'
    rw [hremaining]
    refine ⟨fun hmem => ?_, not_mem_nil⟩
    rcases henvironments _ hmem with hold | heq
    · exact (hp.hidden i v hv _ henv').1 hold
    · exact hne i v hi hv _ (fresh_of_hidden henv') heq
  · intro env' henv' i v hi hv huse
    rw [hsome env' (hfresh ▸ henv')] at huse
    exact hp.alone n i t v ht hv (fun h => hi h.symm) _ (fresh_of_hidden htfresh) huse

theorem orderly_create (hp : p.Orderly) {id : String} (hid : p.shared.objects.get? id = none)
    (hkeepalive : object.keepaliveStarted = false) :
    AssignmentPool.Orderly (Pool.mk { p.shared with objects := p.shared.objects.set id object }
      (p.threads.set n (.starting id))) := by
  have hgrow := get?_set_ne_none p.shared.objects id object
  have hself : (p.shared.objects.set id object).get? id = some object := by
    rw [Dict.get?_set, if_pos rfl]
  have hsome : ∀ env, some id = some env → env = id := fun env h => (some.inj h).symm
  have hunknown : ∀ (i : Nat) (v : Thread), p.threads[i]? = some v → v.uses ≠ some id :=
    fun i v hv huse => hp.used i v hv id huse hid
  refine orderly_set hp hgrow ?_ ?_ ?_ ?_ ?_ ?_ ?_ ?_ (by simp)
  · exact fun env henv => hgrow _ (hp.tabled _ henv)
  · simp [Thread.remaining]
  · intro env henv
    rw [hsome _ henv, hself]
    simp
  · intro env henv
    rw [hsome _ henv]
    exact ⟨object, hself, hkeepalive, fun h => absurd rfl h⟩
  · intro i v _ hv env henv
    have hne : env ≠ id := fun heq => hunknown i v hv (heq ▸ uses_of_fresh henv)
    refine ⟨?_, fun huse => hne (hsome _ huse)⟩
    rw [Dict.get?_set, if_neg hne]
  · intro env henv
    rw [hsome _ henv]
    refine ⟨fun hmem => hp.tabled id hmem hid, not_mem_nil, fun i v _ hv hmem => ?_⟩
    exact hp.scanned i v hv id hmem hid
  · intro i v _ hv env henv
    exact ⟨(hp.hidden i v hv _ henv).1, not_mem_nil⟩
  · intro env henv i v _ hv
    rw [hsome _ henv]
    exact hunknown i v hv

theorem orderly_spawn (hp : p.Orderly) {label : Thread} (hlabel : p.Admissible (.spawn label)) :
    AssignmentPool.Orderly (Pool.mk p.shared (p.threads ++ [label])) := by
  have hnot : label.fresh = none ∧ label.remaining = [] ∧ (∀ e, label ≠ .raised e) ∧
      ∀ env, label.uses = some env →
        (p.shared.objects.get? env).any ExecutionEnvironment.keepaliveStarted = true := by
    cases label with
    | snapshot => exact ⟨rfl, rfl, by simp, by simp [Thread.uses]⟩
    | keepalive =>
      refine ⟨rfl, rfl, by simp, fun env' henv' => ?_⟩
      rw [← some.inj henv']
      exact hlabel
    | _ => exact hlabel.elim
  rcases hnot with ⟨hfresh, hremaining, hraised, huses⟩
  have hnew (env : String) : label.fresh ≠ some env := by simp [hfresh]
  refine ⟨hp.tabled, ?_, ?_, ?_, ?_, ?_, ?_⟩
  · intro i t ht env henv
    rcases Pool.getElem?_append_cases ht with rfl | ht
    · rw [hremaining] at henv
      exact absurd henv not_mem_nil
    · exact hp.scanned i t ht _ henv
  · intro i t ht env henv hget
    rcases Pool.getElem?_append_cases ht with rfl | ht
    · have hany := huses _ henv
      rw [hget] at hany
      cases hany
    · exact hp.used i t ht _ henv hget
  · intro i t ht env henv
    rcases Pool.getElem?_append_cases ht with rfl | ht
    · exact absurd henv (hnew _)
    · exact hp.ready i t ht _ henv
  · intro i t ht env henv
    rcases Pool.getElem?_append_cases ht with rfl | ht
    · exact absurd (fresh_of_hidden henv) (hnew _)
    · refine ⟨(hp.hidden i t ht _ henv).1, fun j u hu => ?_⟩
      rcases Pool.getElem?_append_cases hu with rfl | hu
      · rw [hremaining]
        exact not_mem_nil
      · exact (hp.hidden i t ht _ henv).2 j u hu
  · intro i j t u ht hu hij env henv huse
    rcases Pool.getElem?_append_cases ht with rfl | ht'
    · exact hnew _ henv
    · rcases Pool.getElem?_append_cases hu with rfl | hu
      · -- The timer of a new environment was not started.
        rcases hp.ready i t ht' _ henv with ⟨object, hget, hkeepalive, -⟩
        have hany := huses _ huse
        rw [hget, any_some, hkeepalive] at hany
        cases hany
      · exact hp.alone i j t u ht' hu hij _ henv huse
  · intro i t ht e
    rcases Pool.getElem?_append_cases ht with rfl | ht
    · exact hraised e
    · exact hp.raised i t ht e

/-- The invariant is preserved. -/
theorem step_orderly {capacityProvider : Bool} {p q : AssignmentPool} (hlabel : p.Admissible label)
    (huntouched : p.Untouched label)
    (hp : p.Orderly) (h : Takes (step capacityProvider) p label q) : q.Orderly := by
  rcases Pool.step_cases h with ⟨thread, rfl, rfl⟩ | ⟨n, choice, t, s', t', rfl, ht, hnext, rfl⟩
  · exact orderly_spawn hp hlabel
  cases change_of_next hnext with
  | quiet hquiet => exact orderly_quiet hp ht hquiet
  | changes env hchange =>
    rcases hchange.objects with ⟨object, -, hobjects⟩
    refine orderly_change hp hobjects hchange.environments ?_ hchange.fresh hchange.uses
      hchange.remaining hchange.raised
    exact fun i v hne hv hfresh => hp.alone i n v t hv ht hne _ hfresh hchange.old.1
  | scan =>
    -- The environment the invocation finds is new to no other thread.
    refine orderly_change hp rfl rfl ?_ rfl (.inr rfl) rfl (by simp)
    intro i v _ hv hfresh
    rcases hidden_or_reserveNew hfresh with hhidden | rfl
    · exact (hp.hidden i v hv _ hhidden).2 n _ ht mem_cons_self
    · exact huntouched _ _ ht (mem_of_getElem? hv)
  | create id object hchoice hkeepalive =>
    cases hchoice
    exact orderly_create hp hlabel hkeepalive
  | starting env object hget =>
    rcases hp.ready n _ ht _ rfl with ⟨object', hget', hkeepalive, -⟩
    rw [hget, some.injEq] at hget'
    have hself : (p.shared.objects.set env object.startCompleted).get? env =
        some object.startCompleted := by
      rw [Dict.get?_set, if_pos rfl]
    refine orderly_fresh hp ht rfl rfl rfl rfl (.inr ⟨rfl, rfl⟩) (fun _ h => .inl h)
      (get?_set_ne_none _ _ _) hself ?_ (hget' ▸ hkeepalive) rfl (by simp)
    intro env' hne
    rw [Dict.get?_set, if_neg hne]
  | releaseSemaphore _ _ hobjects henvironments =>
    rcases hp.ready n _ ht _ rfl with ⟨object, hget, hkeepalive, hready⟩
    exact orderly_fresh hp ht rfl rfl rfl rfl (.inr ⟨rfl, henvironments⟩)
      (fun env' henv' => .inl (henvironments ▸ henv'))
      (fun env' henv' => by rw [hobjects]; exact henv')
      (by rw [hobjects]; exact hget) (fun env' _ => by rw [hobjects]) hkeepalive (hready (by simp))
      (by simp)
  | publish =>
    rcases hp.ready n _ ht _ rfl with ⟨object, hget, hkeepalive, hready⟩
    refine orderly_fresh hp ht rfl rfl rfl rfl (.inl rfl) (fun env' henv' => ?_) (fun _ h => h) hget
      (fun _ _ => rfl) hkeepalive (hready (by simp)) (by simp)
    rcases mem_append.mp henv' with hmem | hmem
    · exact .inl hmem
    · exact .inr (mem_singleton.mp hmem)
  | reserved =>
    refine orderly_change hp rfl rfl ?_ rfl (.inr rfl) rfl (by simp)
    exact fun i v hne hv hfresh => hp.alone i n v _ hv ht hne _ hfresh rfl
  | raised env object e hget herror =>
    rcases hp.ready n _ ht _ rfl with ⟨object', hget', -, hready⟩
    rw [hget, some.injEq] at hget'
    rw [ExecutionEnvironment.reserve, if_pos (hget' ▸ hready (by simp))] at herror
    cases herror

theorem orderly_initial : initial.Orderly where
  tabled := by simp [initial, Assignments.initial]
  scanned := by simp [initial]
  used := by simp [initial]
  ready := by simp [initial]
  hidden := by simp [initial]
  alone := by simp [initial]
  raised := by simp [initial]

/-- Whether an invocation tries no new environment. -/
def untouched (p : AssignmentPool) : Pool.Label Thread Choice → Bool
  | .act n _ =>
    match p.threads[n]? with
    | some (.scan (env :: _)) => decide (.reserveNew env ∉ p.threads)
    | _ => true
  | .spawn _ => true

/-- Whether a step can be taken from outside. -/
def admissible (p : AssignmentPool) : Pool.Label Thread Choice → Bool
  | .spawn .snapshot => true
  | .spawn (.keepalive env) =>
    (p.shared.objects.get? env).any ExecutionEnvironment.keepaliveStarted
  | .spawn _ => false
  | .act _ (.create id) => (p.shared.objects.get? id).isNone
  | .act _ _ => true

theorem untouched_of_eq_true (h : p.untouched label = true) : p.Untouched label := by
  cases label with
  | spawn => trivial
  | act =>
    intro env rest hthread
    rw [untouched, hthread] at h
    exact of_decide_eq_true h

theorem admissible_of_eq_true (h : p.admissible label = true) : p.Admissible label := by
  cases label with
  | spawn thread =>
    cases thread with
    | snapshot => trivial
    | keepalive => exact h
    | _ => cases h
  | act n choice =>
    cases choice with
    | create => exact isNone_iff_eq_none.mp h
    | _ => trivial

end AssignmentPool

/-- Runs of an environment in which every `start` ends while the environment is starting keep to its
    life cycle. In runs of the assignment service in which no invocation tries an environment before
    the one that started it has reserved it, no invocation fails. -/
theorem life_cycle_of_orderly_runs (env : ExecutionEnvironment) (ops : List Operation)
    (hops : Along (Takes ExecutionEnvironment.apply) ExecutionEnvironment.InOrder env ops)
    (capacityProvider : Bool) (labels : List (Pool.Label Thread Choice)) (p : AssignmentPool)
    (hrun : Runs (Takes (AssignmentPool.step capacityProvider)) AssignmentPool.initial labels p)
    (hlabels : Along (Takes (AssignmentPool.step capacityProvider))
      (fun q label => q.Admissible label ∧ q.Untouched label) AssignmentPool.initial labels) :
    ExecutionEnvironment.LifeCycle env ops ∧ ∀ e, .raised e ∉ p.threads := by
  refine ⟨ExecutionEnvironment.lifeCycle_of_inOrder _ _ hops, fun e hmem => ?_⟩
  have horderly : p.Orderly := hrun.invariant_along
    (fun q label q' hC hq hstep => AssignmentPool.step_orderly hC.1 hC.2 hq hstep) hlabels
    AssignmentPool.orderly_initial
  rcases mem_iff_getElem?.mp hmem with ⟨i, hi⟩
  exact horderly.raised i _ hi e rfl

/-- An environment that is used once and then times out. -/
def usedOnce : List Operation :=
  [.start, .startCompleted, .reserve, .release, .keepalivePassed, .stop]

/-- Two invocations, of which the second one finds the environment that the first
    one has started and released. -/
def orderlyLabels : List (Pool.Label Thread Choice) :=
  [.spawn .snapshot, .act 0 .proceed, .act 0 .proceed, .act 0 .proceed, .act 0 (.create "a"),
    .act 0 .proceed, .act 0 .proceed, .act 0 .proceed, .act 0 .proceed, .act 0 .proceed,
    .spawn .snapshot, .act 1 .proceed, .act 1 .proceed, .act 1 .proceed]

theorem life_cycle_of_orderlyLabels : ∃ p,
    Runs (Takes (AssignmentPool.step false)) AssignmentPool.initial orderlyLabels p ∧
    p.threads = [.returned, .returned] ∧
    ExecutionEnvironment.LifeCycle (.new "a" .onDemand) usedOnce ∧ ∀ e, .raised e ∉ p.threads := by
  have hrun := Runs.of_takeAll (f := AssignmentPool.step false) orderlyLabels
    AssignmentPool.initial _ rfl
  refine ⟨_, hrun, by decide, life_cycle_of_orderly_runs _ _ ?_ _ _ _ hrun ?_⟩
  · intro before op after u hops hu
    exact of_decide_eq_true (Runs.along_of_check (f := ExecutionEnvironment.apply)
      (C := fun env op => decide (env.InOrder op)) _ _ (by decide)
      _ op _ u hops hu)
  · intro before label after q hlabels hq
    have hcheck := Bool.and_eq_true_iff.mp (Runs.along_of_check (f := AssignmentPool.step false)
      (C := fun q label => q.admissible label && q.untouched label) _
      _ (by decide) _ _ _ q hlabels hq)
    exact ⟨AssignmentPool.admissible_of_eq_true hcheck.1,
      AssignmentPool.untouched_of_eq_true hcheck.2⟩

/-- An environment that is stopped while it starts. -/
def stoppedWhileStarting : List Operation := [.start, .stop, .startCompleted]

/-- Two invocations, of which the second one reserves the environment that the
    first one has just entered into the table. -/
def crossedLabels : List (Pool.Label Thread Choice) :=
  [.spawn .snapshot, .act 0 .proceed, .act 0 .proceed, .act 0 .proceed, .act 0 (.create "a"),
    .act 0 .proceed, .act 0 .proceed, .act 0 .proceed,
    .spawn .snapshot, .act 1 .proceed, .act 1 .proceed, .act 0 .proceed]

/-- The environment is ready again after it was stopped, and the first invocation fails. -/
theorem life_cycle_broken :
    ¬ExecutionEnvironment.LifeCycle (.new "a" .onDemand) stoppedWhileStarting ∧
    Along (Takes (AssignmentPool.step false)) AssignmentPool.Admissible AssignmentPool.initial
      crossedLabels ∧
    ∃ p e, Runs (Takes (AssignmentPool.step false)) AssignmentPool.initial crossedLabels p ∧
      .raised e ∈ p.threads := by
  refine ⟨fun h => ?_, ?_, ?_⟩
  · have hu : Runs (Takes ExecutionEnvironment.apply) (.new "a" .onDemand) [.start, .stop]
        ⟨"a", .onDemand, .stopped, true, false⟩ := Runs.of_takeAll _ _ _ (by decide)
    have hfinal := h.final [.start, .stop] .startCompleted [] _
      ⟨"a", .onDemand, .ready, false, false⟩ rfl hu rfl (by decide)
    exact absurd hfinal (by decide)
  · intro before label after q hlabels hq
    exact AssignmentPool.admissible_of_eq_true (Runs.along_of_check
      (f := AssignmentPool.step false) (C := AssignmentPool.admissible) _
      _ (by decide) _ _ _ q hlabels hq)
  · have hrun := Runs.of_takeAll (f := AssignmentPool.step false) crossedLabels
      AssignmentPool.initial _ rfl
    exact ⟨_, _, hrun, mem_cons_self⟩

end LocalEmu.Lambda
