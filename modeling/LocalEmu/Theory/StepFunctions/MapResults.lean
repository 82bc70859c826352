import LocalEmu.Core.StepFunctions.JobPool
import Mathlib.Algebra.Order.Group.Multiset
import Mathlib.Data.List.Sort

/-!
# Results Of Map States

A Map state returns one result per item, in order, whatever the order is in which its
workers take their steps.

The jobs that were handed out are always a first part of all jobs. Each of them is in
the hands of one worker or is closed, as long as no failure was recorded: a worker asks
for the next job before it closes the one it has, but both are counted as in its hands.
So the pool terminates exactly when the last job is closed, or with the first failure
that is recorded.
-/

namespace LocalEmu.StepFunctions

open List Option

variable {Item Output Failure : Type}

/-! ### What a step can do -/

namespace JobPool

variable (pool : JobPool Item Output Failure)

/-- What a step can do. -/
theorem nextJob_cases :
    (pool.nextJob = (none, pool) ∧ (pool.workerException = none → pool.openJobs = [])) ∨
    ∃ job jobs, pool.workerException = none ∧ pool.openJobs = job :: jobs ∧
      pool.nextJob = (some job, { pool with openJobs := jobs }) := by
  rcases pool with ⟨event, exception, number, openJobs, closedJobs⟩
  cases exception with
  | some => exact .inl ⟨rfl, fun h => by cases h⟩
  | none =>
    cases openJobs with
    | nil => exact .inl ⟨rfl, fun _ => rfl⟩
    | cons job jobs => exact .inr ⟨job, jobs, rfl, rfl, rfl⟩

theorem isTerminated_iff : pool.isTerminated = true ↔
      pool.closedJobs.length = pool.jobsNumber ∨ pool.workerException ≠ none := by
  rw [isTerminated, Bool.or_eq_true, beq_iff_eq, isSome_iff_ne_none]

theorem closeJob_cases (job : Job Item) (jobOutput : Except Failure Output) :
    (pool.isTerminated = true ∧ pool.closeJob job jobOutput = pool) ∨
    (pool.isTerminated = false ∧ ∃ failure, jobOutput = .error failure ∧
      pool.closeJob job jobOutput =
        { pool with workerException := some failure, terminationEvent := true }) ∨
    (pool.isTerminated = false ∧ ∃ output, jobOutput = .ok output ∧
      pool.closeJob job jobOutput =
        { pool with
          closedJobs := pool.closedJobs ++ [⟨job.jobIndex, output⟩]
          terminationEvent := pool.terminationEvent ||
            (pool.closedJobs.length + 1 == pool.jobsNumber || pool.workerException.isSome) }) := by
  unfold closeJob
  cases hterminated : pool.isTerminated with
  | true => exact .inl ⟨rfl, rfl⟩
  | false =>
    cases jobOutput with
    | error failure =>
      refine .inr (.inl ⟨rfl, failure, rfl, ?_⟩)
      simp [notifyOnTermination, isTerminated]
    | ok output =>
      refine .inr (.inr ⟨rfl, output, rfl, ?_⟩)
      simp [notifyOnTermination, isTerminated]

end JobPool

namespace Worker

/-- The indices of the jobs that a worker has taken and not closed. -/
def hands : Worker Item Output Failure → Multiset Nat
  | .evaluating job => {job.jobIndex}
  | .evaluated job _ => {job.jobIndex}
  | .closing job _ nextJob => {job.jobIndex} + (nextJob.map Job.jobIndex).toList
  | _ => 0

/-- The jobs that a worker has taken and not evaluated. -/
def pending : Worker Item Output Failure → Multiset (Job Item)
  | .evaluating job => {job}
  | .closing _ _ nextJob => nextJob.toList
  | _ => 0

/-- The worker has found no other job. -/
def isStopping : Worker Item Output Failure → Bool
  | .closing _ _ none => true
  | .done => true
  | _ => false

def report : Worker Item Output Failure → Option (Job Item × Except Failure Output)
  | .evaluated job jobOutput => some (job, jobOutput)
  | .closing job output _ => some (job, .ok output)
  | _ => none

end Worker

namespace MapState

variable (pool : JobPool Item Output Failure) {state state' : MapState Item Output Failure}
  {items : List Item} {label : MapStep Output Failure}

/-- A worker that asks for a job, and what it does with the answer. -/
inductive Asks (nextJob : Option (Job Item)) :
    Worker Item Output Failure → Worker Item Output Failure → Prop
  | start : Asks nextJob .starting (goOn nextJob)
  | evaluated (job : Job Item) (output : Output) :
      Asks nextJob (.evaluated job (.ok output)) (.closing job output nextJob)

/-- A worker that closes its job, and goes on with the one it has asked for. -/
inductive Closes (job : Job Item) : Except Failure Output →
    Worker Item Output Failure → Worker Item Output Failure → Prop
  | failed (failure : Failure) : Closes job (.error failure) (.evaluated job (.error failure)) .done
  | closed (output : Output) (nextJob : Option (Job Item)) :
      Closes job (.ok output) (.closing job output nextJob) (goOn nextJob)

/-- Everything that a step can do. -/
theorem step_cases (h : state.step label = some state') :
    (∃ number old new, state.workers[number]? = some old ∧ Asks state.pool.nextJob.1 old new ∧
      state' = (state.handOut number).become number new) ∨
    (∃ number old new job jobOutput, state.workers[number]? = some old ∧
      Closes job jobOutput old new ∧
      state' = { state with pool := state.pool.closeJob job jobOutput }.become number new) ∨
    (∃ number job jobOutput, state.workers[number]? = some (.evaluating job) ∧
      state' = { state with evaluated := state.evaluated ++ [(job, jobOutput)] }.become number
        (.evaluated job jobOutput)) ∨
    (state.waiter = .entered ∧ state' =
      { state with waiter := if state.pool.isTerminated then .returned else .waiting }) ∨
    (state.waiter = .waiting ∧ state.pool.terminationEvent = true ∧
      state' = { state with waiter := .returned }) := by
  cases label with
  | work number =>
    simp only [step] at h
    split at h
    next hworker => exact .inl ⟨number, _, _, hworker, .start, (some.inj h).symm⟩
    next job output hworker =>
      exact .inl ⟨number, _, _, hworker, .evaluated job output, (some.inj h).symm⟩
    next job failure hworker =>
      exact .inr (.inl ⟨number, _, _, _, _, hworker, .failed failure, (some.inj h).symm⟩)
    next job output nextJob hworker =>
      exact .inr (.inl ⟨number, _, _, _, _, hworker, .closed output nextJob, (some.inj h).symm⟩)
    next => cases h
  | evaluate number jobOutput =>
    simp only [step] at h
    split at h
    next job hworker =>
      exact .inr (.inr (.inl ⟨number, job, jobOutput, hworker, (some.inj h).symm⟩))
    next => cases h
  | await =>
    simp only [step] at h
    split at h
    next hwaiter => exact .inr (.inr (.inr (.inl ⟨hwaiter, (some.inj h).symm⟩)))
    next hwaiter =>
      split_ifs at h with hevent
      exact .inr (.inr (.inr (.inr ⟨hwaiter, hevent, (some.inj h).symm⟩)))
    next => cases h

section Workers

variable {nextJob : Option (Job Item)} {old new : Worker Item Output Failure}

theorem goOn_pending :
    Worker.pending (goOn nextJob : Worker Item Output Failure) = nextJob.toList := by
  cases nextJob with
  | none | some => rfl

theorem goOn_hands : Worker.hands (goOn nextJob : Worker Item Output Failure) =
      (nextJob.map Job.jobIndex).toList := by
  cases nextJob with
  | none | some => rfl

theorem goOn_report : Worker.report (goOn nextJob : Worker Item Output Failure) = none := by
  cases nextJob with
  | none | some => rfl

theorem Asks.pending (h : Asks nextJob old new) :
    new.pending = (nextJob.toList : Multiset (Job Item)) + old.pending := by
  cases h with
  | start => exact goOn_pending.trans (add_zero _).symm
  | evaluated => exact (add_zero _).symm

theorem Asks.hands (h : Asks nextJob old new) :
    new.hands = ((nextJob.map Job.jobIndex).toList : Multiset Nat) + old.hands := by
  cases h with
  | start => exact goOn_hands.trans (add_zero _).symm
  | evaluated => exact add_comm _ _

theorem Asks.stopping (h : Asks nextJob old new) (hstopping : new.isStopping = true) :
    nextJob = none := by
  cases nextJob with
  | none => rfl
  | some => cases h with | start | evaluated => cases hstopping

theorem Asks.report (h : Asks nextJob old new) : new.report = old.report := by
  cases h with
  | start => exact goOn_report
  | evaluated => rfl

theorem Asks.not_failed (h : Asks nextJob old new) (job : Job Item) (failure : Failure) :
    old ≠ .evaluated job (.error failure) := by
  cases h with
  | start | evaluated => simp

variable {job : Job Item} {jobOutput : Except Failure Output}

theorem Closes.pending (h : Closes job jobOutput old new) : new.pending = old.pending := by
  cases h with
  | failed => rfl
  | closed => exact goOn_pending

theorem Closes.report (h : Closes job jobOutput old new) :
    old.report = some (job, jobOutput) ∧ new.report = none := by
  cases h with
  | failed => exact ⟨rfl, rfl⟩
  | closed => exact ⟨rfl, goOn_report⟩

end Workers

/-! ### Jobs are handed out once -/

/-- The indices of the jobs that were handed out. -/
def handedIndices (state : MapState Item Output Failure) : List Nat :=
  state.handed.map fun entry => entry.2.jobIndex

def handedJobs (state : MapState Item Output Failure) : List (Job Item) :=
  state.handed.map Prod.snd

def evaluatedJobs (state : MapState Item Output Failure) : List (Job Item) :=
  state.evaluated.map Prod.fst

/-- What was handed out is a first part of the jobs, and is evaluated or pending. -/
structure Handing (items : List Item) (state : MapState Item Output Failure) : Prop where
  all : state.handedJobs ++ state.pool.openJobs = jobsOf items
  jobsNumber : state.pool.jobsNumber = items.length
  pending : (state.handedJobs : Multiset (Job Item)) =
    state.evaluatedJobs + (state.workers.map Worker.pending).sum

theorem closeJob_openJobs (job : Job Item) (jobOutput : Except Failure Output) :
    (pool.closeJob job jobOutput).openJobs = pool.openJobs ∧
      (pool.closeJob job jobOutput).jobsNumber = pool.jobsNumber := by
  rcases pool.closeJob_cases job jobOutput with ⟨_, h⟩ | ⟨_, _, _, h⟩ | ⟨_, _, _, h⟩
  · rw [h]
    exact ⟨rfl, rfl⟩
  · rw [h]
    exact ⟨rfl, rfl⟩
  · rw [h]
    exact ⟨rfl, rfl⟩

theorem handOut_all (h : Handing items state) (number : Nat) :
    (state.handOut number).handedJobs ++ (state.handOut number).pool.openJobs = jobsOf items ∧
    (state.handOut number).pool.jobsNumber = items.length ∧
    (state.handOut number).handedJobs = state.handedJobs ++ state.pool.nextJob.1.toList ∧
    (state.handOut number).handedIndices =
      state.handedIndices ++ (state.pool.nextJob.1.map Job.jobIndex).toList := by
  have hall := h.all
  unfold handOut handedIndices handedJobs
  rcases state.pool.nextJob_cases with ⟨hnext, _⟩ | ⟨job, jobs, _, hopen, hnext⟩
  · rw [hnext]
    simpa using ⟨hall, h.jobsNumber⟩
  · rw [hnext]
    rw [hopen] at hall
    simpa using ⟨hall, h.jobsNumber⟩

theorem balance_shift {α : Type} {total settled sum sum' old new : Multiset α}
    (taken passed : Multiset α) (h : total = settled + sum) (hsum : sum' + old = sum + new)
    (hbalance : passed + new = taken + old) : total + taken = settled + passed + sum' := by
  have hboth : total + taken + old = settled + passed + sum' + old := by
    rw [h, add_assoc, ← hbalance, add_assoc (settled + passed), hsum]
    ac_rfl
  exact add_right_cancel hboth

theorem balance_keep {α : Type} {total settled sum sum' old new : Multiset α}
    (h : total = settled + sum) (hsum : sum' + old = sum + new) (hbalance : new = old) :
    total = settled + sum' := by
  rw [hbalance] at hsum
  rw [h, add_right_cancel hsum]

/-- The step lemmas. -/
theorem step_handing (h : Handing items state)
    (hstep : state.step label = some state') : Handing items state' := by
  rcases step_cases hstep with ⟨number, old, new, hworker, hasks, rfl⟩ |
    ⟨number, old, new, job, jobOutput, hworker, hcloses, rfl⟩ |
    ⟨number, job, jobOutput, hworker, rfl⟩ | ⟨_, rfl⟩ | ⟨_, _, rfl⟩
  · rcases handOut_all h number with ⟨hall, hnumber, hjobs, _⟩
    refine ⟨hall, hnumber, ?_⟩
    have hsum := Pool.sum_act Worker.pending _ _ _ new hworker
    have hshift := balance_shift state.pool.nextJob.1.toList 0 h.pending hsum
      (by rw [zero_add, hasks.pending])
    rw [add_zero, Multiset.coe_add, ← hjobs] at hshift
    exact hshift
  · rcases closeJob_openJobs state.pool _ _ with ⟨hopen, hnumber⟩
    refine ⟨by rw [← h.all, ← hopen]; rfl, by rw [← h.jobsNumber, ← hnumber]; rfl, ?_⟩
    exact balance_keep h.pending (Pool.sum_act Worker.pending _ _ _ new hworker) hcloses.pending
  · refine ⟨h.all, h.jobsNumber, ?_⟩
    have hsum := Pool.sum_act Worker.pending _ _ _ (.evaluated job jobOutput) hworker
    have hshift := balance_shift 0 {job} h.pending hsum (add_comm _ _)
    have hjobs : (evaluatedJobs (become { state with
        evaluated := state.evaluated ++ [(job, jobOutput)] } number (.evaluated job jobOutput)) :
        Multiset (Job Item)) = state.evaluatedJobs + {job} := by
      simp only [evaluatedJobs, become, map_append, map_cons, map_nil,
        ← Multiset.coe_add, Multiset.coe_singleton]
    rw [hjobs]
    rw [add_zero] at hshift
    exact hshift
  · exact ⟨h.all, h.jobsNumber, h.pending⟩
  · exact ⟨h.all, h.jobsNumber, h.pending⟩

/-! ### Jobs are closed once -/

/-- As long as no failure was recorded, what was handed out is closed or in the hands of
    a worker, and a worker stops only if there are no open jobs. -/
structure Accounted (state : MapState Item Output Failure) : Prop where
  hands : state.pool.workerException = none → (state.handedIndices : Multiset Nat) =
    (state.pool.closedJobs.map JobClosed.jobIndex) + (state.workers.map Worker.hands).sum
  stopping : state.pool.workerException = none →
    ∀ worker ∈ state.workers, worker.isStopping = true → state.pool.openJobs = []

theorem not_terminated_of_hands {number : Nat} {worker : Worker Item Output Failure} {index : Nat}
    (hhanding : Handing items state) (haccounted : Accounted state)
    (hexception : state.pool.workerException = none)
    (hworker : state.workers[number]? = some worker) (hindex : index ∈ worker.hands) :
    state.pool.isTerminated = false := by
  rw [← Bool.not_eq_true, state.pool.isTerminated_iff, hhanding.jobsNumber]
  rintro (hlength | hexception')
  · have hhands := congrArg Multiset.card (haccounted.hands hexception)
    rw [Multiset.card_add, Multiset.coe_card, Multiset.coe_card, length_map, handedIndices,
      length_map] at hhands
    have hall := congrArg length hhanding.all
    rw [length_append, handedJobs, length_map, jobsOf, length_map, length_zipIdx] at hall
    -- The worker holds at least one of the jobs that were handed out.
    have hsum := Pool.sum_act Worker.hands _ _ _ .done hworker
    have hdone : Worker.hands (.done : Worker Item Output Failure) = 0 := rfl
    rw [hdone, add_zero] at hsum
    rw [← hsum, Multiset.card_add] at hhands
    have hone : 0 < worker.hands.card := Multiset.card_pos_iff_exists_mem.mpr ⟨index, hindex⟩
    omega
  · exact hexception' hexception

theorem stopping_goOn (hexception : pool.workerException = none) (h : pool.nextJob.1 = none) :
    pool.openJobs = [] := by
  rcases pool.nextJob_cases with ⟨_, hopen⟩ | ⟨job, jobs, _, _, hnext⟩
  · exact hopen hexception
  · rw [hnext] at h
    cases h

theorem nextJob_frame : pool.nextJob.2.workerException = pool.workerException ∧
    pool.nextJob.2.closedJobs = pool.closedJobs ∧
    pool.nextJob.2.jobsNumber = pool.jobsNumber ∧
    pool.nextJob.2.terminationEvent = pool.terminationEvent ∧
    (pool.openJobs = [] → pool.nextJob.2.openJobs = []) ∧
    (pool.nextJob.1 = none → pool.nextJob.2 = pool) := by
  rcases pool.nextJob_cases with ⟨hnext, _⟩ | ⟨job, jobs, _, hopen, hnext⟩
  · rw [hnext]
    exact ⟨rfl, rfl, rfl, rfl, id, fun _ => rfl⟩
  · rw [hnext]
    refine ⟨rfl, rfl, rfl, rfl, fun hnil => ?_, fun h => by cases h⟩
    rw [hopen] at hnil
    cases hnil

theorem openJobs_of_stopping {number : Nat} {new worker : Worker Item Output Failure}
    (haccounted : Accounted state)
    (hexception : state.pool.workerException = none)
    (hnew : new.isStopping = true → state.pool.nextJob.1 = none)
    (hworker : worker ∈ state.workers.set number new) (hstopping : worker.isStopping = true) :
    state.pool.nextJob.2.openJobs = [] := by
  rcases nextJob_frame _ with ⟨_, _, _, _, hopen, hsame⟩
  rcases Pool.mem_set hworker with rfl | hworker
  · have hnone := hnew hstopping
    rw [hsame hnone]
    exact stopping_goOn _ hexception hnone
  · exact hopen (haccounted.stopping hexception _ hworker hstopping)

theorem recorded_of_failure {number : Nat} {job : Job Item} {failure : Failure}
    (hhanding : Handing items state) (haccounted : Accounted state)
    (hworker : state.workers[number]? = some (.evaluated job (.error failure))) :
    (state.pool.closeJob job (.error failure)).workerException ≠ none := by
  rcases state.pool.closeJob_cases job (.error failure) with ⟨hterminated, hclose⟩ |
    ⟨_, _, _, hclose⟩ | ⟨_, _, hok, _⟩
  · intro hexception
    rw [hclose] at hexception
    rw [not_terminated_of_hands hhanding haccounted hexception hworker
      (Multiset.mem_singleton_self _)] at hterminated
    cases hterminated
  · simp [hclose]
  · cases hok

theorem step_accounted (hhanding : Handing items state) (h : Accounted state)
    (hstep : state.step label = some state') : Accounted state' := by
  rcases step_cases hstep with ⟨number, old, new, hworker, hasks, rfl⟩ |
    ⟨number, _, _, job, _, hworker, ⟨failure⟩ | ⟨output, nextJob⟩, rfl⟩ |
    ⟨number, job, jobOutput, hworker, rfl⟩ | ⟨_, rfl⟩ | ⟨_, _, rfl⟩
  · rcases handOut_all hhanding number with ⟨_, _, _, hindices⟩
    rcases nextJob_frame _ with ⟨hexception', hclosed, _⟩
    refine ⟨fun hexception => ?_, fun hexception worker hmem hstopping => ?_⟩
    · have hsum := Pool.sum_act Worker.hands _ _ _ new hworker
      have hshift := balance_shift (state.pool.nextJob.1.map Job.jobIndex).toList 0
        (h.hands (hexception'.symm.trans hexception)) hsum (by rw [zero_add, hasks.hands])
      rw [add_zero, Multiset.coe_add, ← hindices, ← hclosed] at hshift
      exact hshift
    · exact openJobs_of_stopping h (hexception'.symm.trans hexception) hasks.stopping hmem
        hstopping
  · have hrecorded := recorded_of_failure hhanding h hworker
    exact ⟨fun hexception => absurd hexception hrecorded,
      fun hexception => absurd hexception hrecorded⟩
  · rcases state.pool.closeJob_cases job (.ok output) with ⟨hterminated, hclose⟩ |
      ⟨_, _, herror, _⟩ | ⟨_, output', hok, hclose⟩
    · -- The pool has terminated with a failure, so that nothing is left to show.
      have hrecorded : (state.pool.closeJob job (.ok output)).workerException ≠ none := by
        intro hexception
        rw [hclose] at hexception
        rw [not_terminated_of_hands hhanding h hexception hworker
          (Multiset.mem_add.mpr (.inl (Multiset.mem_singleton_self _)))] at hterminated
        cases hterminated
      exact ⟨fun hexception => absurd hexception hrecorded,
        fun hexception => absurd hexception hrecorded⟩
    · cases herror
    · cases hok
      have hsame : (state.pool.closeJob job (.ok output)).workerException =
          state.pool.workerException := by
        rw [hclose]
      refine ⟨fun hexception => ?_, fun hexception worker hmem hstopping => ?_⟩
      · have hsum := Pool.sum_act Worker.hands _ _ _ (goOn nextJob) hworker
        rw [goOn_hands] at hsum
        have hshift := balance_shift 0 {job.jobIndex} (h.hands (hsame.symm.trans hexception)) hsum
          (by rw [zero_add]; rfl)
        have hclosed : ((state.pool.closeJob job (.ok output)).closedJobs.map
            JobClosed.jobIndex : Multiset Nat) =
            (state.pool.closedJobs.map JobClosed.jobIndex : List Nat) + {job.jobIndex} := by
          rw [hclose]
          simp only [map_append, map_cons, map_nil, ← Multiset.coe_add, Multiset.coe_singleton]
        rw [add_zero, ← hclosed] at hshift
        exact hshift
      · have hopen := (closeJob_openJobs state.pool job (.ok output)).1
        refine hopen.trans ?_
        rcases Pool.mem_set hmem with rfl | hmem
        · refine h.stopping (hsame.symm.trans hexception) _ (mem_of_getElem? hworker) ?_
          cases nextJob with
          | none => rfl
          | some => cases hstopping
        · exact h.stopping (hsame.symm.trans hexception) _ hmem hstopping
  · refine ⟨fun hexception => ?_, fun hexception worker hmem hstopping => ?_⟩
    · exact balance_keep (h.hands hexception)
        (Pool.sum_act _ _ _ _ _ hworker) rfl
    · rcases Pool.mem_set hmem with rfl | hmem
      · cases hstopping
      · exact h.stopping hexception _ hmem hstopping
  · exact ⟨h.hands, h.stopping⟩
  · exact ⟨h.hands, h.stopping⟩

/-! ### What is recorded -/

/-- What the workers and the pool say is what the evaluations resulted in, and a failure
    is recorded unless its worker is about to do so. -/
structure Reports (state : MapState Item Output Failure) : Prop where
  workers : ∀ worker ∈ state.workers, ∀ entry, worker.report = some entry →
    entry ∈ state.evaluated
  closed : ∀ closed ∈ state.pool.closedJobs, ∃ job, job.jobIndex = closed.jobIndex ∧
    (job, .ok closed.jobOutput) ∈ state.evaluated
  exception : ∀ failure, state.pool.workerException = some failure →
    ∃ job, (job, .error failure) ∈ state.evaluated
  failed : ∀ job failure, (job, .error failure) ∈ state.evaluated →
    state.pool.workerException ≠ none ∨ .evaluated job (.error failure) ∈ state.workers

-- A worker goes on with something that it has the evaluation for.
theorem reports_become {number : Nat} {old new : Worker Item Output Failure} (h : Reports state)
    (hworker : state.workers[number]? = some old)
    (hreport : ∀ entry, new.report = some entry → entry ∈ state.evaluated)
    (hold : state.pool.workerException ≠ none ∨
      ∀ job failure, old ≠ .evaluated job (.error failure)) :
    Reports (state.become number new) := by
  refine ⟨?_, h.closed, h.exception, ?_⟩
  · intro worker hmem entry hentry
    rcases Pool.mem_set hmem with rfl | hmem
    · exact hreport _ hentry
    · exact h.workers worker hmem entry hentry
  · intro job failure hfailed
    rcases h.failed _ _ hfailed with hexception | hmem
    · exact .inl hexception
    · rcases hold with hexception | hold
      · exact .inl hexception
      · refine .inr ?_
        rcases getElem?_of_mem hmem with ⟨i, hi⟩
        have hne : number ≠ i := by
          rintro rfl
          rw [hworker, some.injEq] at hi
          exact hold _ _ hi
        exact mem_of_getElem? (i := i) (by rw [become, getElem?_set_ne hne]; exact hi)

theorem reports_nextJob (h : Reports state) (number : Nat) : Reports (state.handOut number) := by
  rcases nextJob_frame _ with ⟨hexception, hclosed, _⟩
  refine ⟨h.workers, ?_, ?_, ?_⟩
  · intro closed hmem
    exact h.closed _ (hclosed ▸ hmem)
  · intro failure hfailure
    exact h.exception _ (hexception.symm.trans hfailure)
  · intro job failure hfailed
    rcases h.failed _ _ hfailed with hrecorded | hmem
    · exact .inl fun hnone => hrecorded (hexception.symm.trans hnone)
    · exact .inr hmem

theorem reports_closeJob (h : Reports state) {job : Job Item} {jobOutput : Except Failure Output}
    (hevaluated : (job, jobOutput) ∈ state.evaluated) :
    Reports { state with pool := state.pool.closeJob job jobOutput } := by
  rcases state.pool.closeJob_cases job jobOutput with ⟨_, hclose⟩ | ⟨_, failure, rfl, hclose⟩ |
    ⟨_, output, rfl, hclose⟩
  · rw [hclose]
    exact h
  · rw [hclose]
    refine ⟨h.workers, h.closed, ?_, fun _ _ _ => .inl (by simp)⟩
    intro failure' hfailure
    cases hfailure
    exact ⟨job, hevaluated⟩
  · rw [hclose]
    refine ⟨h.workers, ?_, h.exception, h.failed⟩
    intro closed hmem
    rcases mem_append.mp hmem with hmem | hmem
    · exact h.closed _ hmem
    · rw [mem_singleton.mp hmem]
      exact ⟨job, rfl, hevaluated⟩

theorem step_reports (hhanding : Handing items state) (haccounted : Accounted state)
    (h : Reports state)
    (hstep : state.step label = some state') : Reports state' := by
  rcases step_cases hstep with ⟨number, old, new, hworker, hasks, rfl⟩ |
    ⟨number, old, new, job, jobOutput, hworker, hcloses, rfl⟩ |
    ⟨number, job, jobOutput, hworker, rfl⟩ | ⟨_, rfl⟩ | ⟨_, _, rfl⟩
  · refine reports_become (reports_nextJob h _) hworker (fun entry hentry => ?_)
      (.inr hasks.not_failed)
    exact h.workers _ (mem_of_getElem? hworker) _ (hasks.report ▸ hentry)
  · have hevaluated := h.workers _ (mem_of_getElem? hworker) _ hcloses.report.1
    refine reports_become (reports_closeJob h hevaluated) hworker (fun entry hentry => ?_) ?_
    · rw [hcloses.report.2] at hentry
      cases hentry
    · cases hcloses with
      | failed => exact .inl (recorded_of_failure hhanding haccounted hworker)
      | closed => exact .inr (by simp)
  · refine ⟨?_, ?_, ?_, ?_⟩
    · intro worker hmem entry hentry
      refine mem_append.mpr ?_
      rcases Pool.mem_set hmem with rfl | hmem
      · cases hentry
        exact .inr (mem_singleton_self _)
      · exact .inl (h.workers worker hmem entry hentry)
    · intro closed hmem
      rcases h.closed _ hmem with ⟨job', hindex, hevaluated⟩
      exact ⟨job', hindex, mem_append.mpr (.inl hevaluated)⟩
    · intro failure hfailure
      rcases h.exception _ hfailure with ⟨job', hevaluated⟩
      exact ⟨job', mem_append.mpr (.inl hevaluated)⟩
    · intro job' failure hfailed
      rcases mem_append.mp hfailed with hfailed | hfailed
      · rcases h.failed _ _ hfailed with hexception | hmem
        · exact .inl hexception
        · refine .inr ?_
          rcases getElem?_of_mem hmem with ⟨i, hi⟩
          have hne : number ≠ i := by
            rintro rfl
            rw [hworker] at hi
            cases hi
          exact mem_of_getElem? (i := i) (by rw [become, getElem?_set_ne hne]; exact hi)
      · rw [mem_singleton] at hfailed
        cases hfailed
        refine .inr (mem_of_getElem? (i := number) ?_)
        exact List.getElem?_set_self (List.getElem?_eq_some_iff.mp hworker).1
  · exact ⟨h.workers, h.closed, h.exception, h.failed⟩
  · exact ⟨h.workers, h.closed, h.exception, h.failed⟩

/-! ### Termination is signalled -/

/-- The event is set when the pool has terminated. If there are no jobs, the Map state
    finds this out at once and does not wait for it. -/
structure Signals (state : MapState Item Output Failure) : Prop where
  event : state.pool.isTerminated = true →
    state.pool.terminationEvent = true ∨ state.pool.jobsNumber = 0
  sound : state.pool.terminationEvent = true → state.pool.isTerminated = true
  empty : state.pool.jobsNumber = 0 → state.pool.isTerminated = true
  waiting : state.waiter = .waiting → state.pool.jobsNumber ≠ 0
  returned : state.waiter = .returned → state.pool.isTerminated = true

theorem signals_congr (h : Signals state)
    (hterminated : state'.pool.isTerminated = state.pool.isTerminated)
    (hevent : state'.pool.terminationEvent = state.pool.terminationEvent)
    (hnumber : state'.pool.jobsNumber = state.pool.jobsNumber)
    (hwaiter : state'.waiter = state.waiter) : Signals state' := by
  refine ⟨?_, ?_, ?_, ?_, ?_⟩
  · rw [hterminated, hevent, hnumber]
    exact h.event
  · rw [hterminated, hevent]
    exact h.sound
  · rw [hterminated, hnumber]
    exact h.empty
  · rw [hnumber, hwaiter]
    exact h.waiting
  · rw [hterminated, hwaiter]
    exact h.returned

theorem signals_handOut (h : Signals state) (number : Nat) (worker : Worker Item Output Failure) :
    Signals ((state.handOut number).become number worker) := by
  rcases nextJob_frame _ with ⟨hexception, hclosed, hnumber, hevent, _⟩
  refine signals_congr h ?_ hevent hnumber rfl
  simp only [become, handOut, JobPool.isTerminated, hexception, hclosed, hnumber]

theorem signals_closeJob (h : Signals state) (job : Job Item) (jobOutput : Except Failure Output)
    (number : Nat)
    (worker : Worker Item Output Failure) :
    Signals ({ state with pool := state.pool.closeJob job jobOutput }.become number worker) := by
  have hreturned : state.pool.isTerminated = false → state.waiter ≠ .returned := by
    intro hterminated hwaiter
    rw [h.returned hwaiter] at hterminated
    cases hterminated
  rcases state.pool.closeJob_cases job jobOutput with ⟨_, hclose⟩ | ⟨hterminated, failure, _,
    hclose⟩ | ⟨hterminated, output, _, hclose⟩
  · rw [hclose]
    exact signals_congr h rfl rfl rfl rfl
  · rw [hclose]
    have hnow : JobPool.isTerminated { state.pool with
        workerException := some failure, terminationEvent := true } = true :=
      (JobPool.isTerminated_iff _).mpr (.inr (by simp))
    exact ⟨fun _ => .inl rfl, fun _ => hnow, fun _ => hnow, h.waiting,
      fun hwaiter => absurd hwaiter (hreturned hterminated)⟩
  · rw [hclose]
    refine ⟨fun hnow => .inl ?_, fun hevent => ?_, fun hnumber => ?_, h.waiting,
      fun hwaiter => absurd hwaiter (hreturned hterminated)⟩
    · simp only [become, JobPool.isTerminated, length_append, length_singleton] at hnow
      simp only [become, hnow, Bool.or_true]
    · simp only [become, Bool.or_eq_true] at hevent
      rcases hevent with hevent | hevent
      · rw [h.sound hevent] at hterminated
        cases hterminated
      · simpa [become, JobPool.isTerminated] using hevent
    · rw [h.empty hnumber] at hterminated
      cases hterminated

theorem step_signals (h : Signals state)
    (hstep : state.step label = some state') : Signals state' := by
  rcases step_cases hstep with ⟨_, _, _, _, _, rfl⟩ | ⟨_, _, _, _, _, _, _, rfl⟩ |
    ⟨_, _, _, _, rfl⟩ | ⟨_, rfl⟩ | ⟨_, hevent, rfl⟩
  · exact signals_handOut h _ _
  · exact signals_closeJob h _ _ _ _
  · exact signals_congr h rfl rfl rfl rfl
  · refine ⟨h.event, h.sound, h.empty, fun hwaiting hnumber => ?_, fun hreturned => ?_⟩
    · -- A pool without jobs has terminated, so that the Map state does not wait.
      replace hwaiting : (if state.pool.isTerminated = true then Waiter.returned else .waiting) =
        .waiting := hwaiting
      rw [if_pos (h.empty hnumber)] at hwaiting
      cases hwaiting
    · by_contra hterminated
      replace hreturned : (if state.pool.isTerminated = true then Waiter.returned else .waiting) =
        .returned := hreturned
      rw [if_neg hterminated] at hreturned
      cases hreturned
  · refine ⟨h.event, h.sound, h.empty, fun hwaiting => ?_, fun _ => h.sound hevent⟩
    cases hwaiting

/-! ### Runs are bounded -/

def workerFuel : Worker Item Output Failure → Nat
  | .starting => 1
  | .evaluating _ => 3
  | .evaluated _ _ => 2
  | .closing _ _ nextJob => 1 + 3 * nextJob.toList.length
  | .done => 0

def waiterFuel : Waiter → Nat
  | .entered => 2
  | .waiting => 1
  | .returned => 0

/-- A bound for the steps that are left. -/
def fuel (state : MapState Item Output Failure) : Nat :=
  4 * state.pool.openJobs.length + (state.workers.map workerFuel).sum + waiterFuel state.waiter

theorem fuel_nextJob :
    pool.nextJob.2.openJobs.length + pool.nextJob.1.toList.length = pool.openJobs.length := by
  rcases pool.nextJob_cases with ⟨hnext, _⟩ | ⟨job, jobs, _, hopen, hnext⟩
  · rw [hnext]
    rfl
  · rw [hnext, hopen]
    rfl

theorem workerFuel_goOn (nextJob : Option (Job Item)) :
    workerFuel (goOn nextJob : Worker Item Output Failure) = 3 * nextJob.toList.length := by
  cases nextJob with
  | none | some => rfl

/-- Every step uses up some of the bound. -/
theorem step_fuel (hstep : state.step label = some state') : state'.fuel < state.fuel := by
  have hnext := fuel_nextJob state.pool
  rcases step_cases hstep with ⟨number, old, new, hworker, hasks, rfl⟩ |
    ⟨number, old, new, job, jobOutput, hworker, hcloses, rfl⟩ |
    ⟨number, job, jobOutput, hworker, rfl⟩ | ⟨hwaiter, rfl⟩ | ⟨hwaiter, _, rfl⟩
  · have hsum := Pool.sum_act workerFuel _ _ _ new hworker
    have hnew : workerFuel new + 1 = workerFuel old + 3 * state.pool.nextJob.1.toList.length := by
      cases hasks with
      | start =>
        rw [workerFuel_goOn]
        exact add_comm _ _
      | evaluated =>
        simp only [workerFuel]
        omega
    simp only [fuel, become, handOut] at hsum ⊢
    omega
  · have hsum := Pool.sum_act workerFuel _ _ _ new hworker
    have hopen := (closeJob_openJobs state.pool job jobOutput).1
    have hnew : workerFuel new < workerFuel old := by
      cases hcloses with
      | failed => exact Nat.zero_lt_two
      | closed =>
        rw [workerFuel_goOn]
        exact Nat.lt_one_add_iff.mpr le_rfl
    simp only [fuel, become, hopen] at hsum ⊢
    omega
  · have hsum := Pool.sum_act workerFuel _ _ _ (.evaluated job jobOutput) hworker
    simp only [fuel, become, workerFuel] at hsum ⊢
    omega
  · simp only [fuel, hwaiter]
    split_ifs
    · simp only [waiterFuel]
      omega
    · simp only [waiterFuel]
      omega
  · simp only [fuel, hwaiter, waiterFuel]
    omega

theorem length_le_fuel {labels : List (MapStep Output Failure)}
    (h : Runs (Takes step) state labels state') :
    labels.length + state'.fuel ≤ state.fuel := by
  induction h with
  | nil => simp
  | cons s t u label labels hstep =>
    have hless := step_fuel hstep
    rw [length_cons]
    omega

/-! ### Results -/

/-- All invariants together. -/
structure Sound (items : List Item) (state : MapState Item Output Failure) : Prop where
  handing : Handing items state
  accounted : Accounted state
  reports : Reports state
  signals : Signals state
  workers : state.workers ≠ []

theorem step_sound (h : Sound items state)
    (hstep : state.step label = some state') : Sound items state' := by
  refine ⟨step_handing h.handing hstep, step_accounted h.handing h.accounted hstep,
    step_reports h.handing h.accounted h.reports hstep, step_signals h.signals hstep, ?_⟩
  have hset : ∀ number worker, state.workers.set number worker ≠ [] := by
    intro number worker hnil
    exact h.workers ((set_eq_nil_iff _ _).mp hnil)
  rcases step_cases hstep with ⟨_, _, _, _, _, rfl⟩ | ⟨_, _, _, _, _, _, _, rfl⟩ |
    ⟨_, _, _, _, rfl⟩ | ⟨_, rfl⟩ | ⟨_, _, rfl⟩
  · exact hset _ _
  · exact hset _ _
  · exact hset _ _
  · exact h.workers
  · exact h.workers

theorem initial_sound (items : List Item) (workers : Nat) (hworkers : 1 ≤ workers) :
    Sound items (initial items workers : MapState Item Output Failure) := by
  have hstarting : ∀ worker ∈ (initial items workers : MapState Item Output Failure).workers,
      worker = .starting := fun worker hmem => eq_of_mem_replicate hmem
  have hzero : ∀ {α : Type} (weight : Worker Item Output Failure → Multiset α),
      weight .starting = 0 →
      ((initial items workers : MapState Item Output Failure).workers.map weight).sum = 0 := by
    intro α weight hweight
    simp [initial, hweight]
  refine ⟨⟨rfl, rfl, ?_⟩, ⟨fun _ => ?_, ?_⟩, ⟨?_, ?_, ?_, ?_⟩, ⟨?_, ?_, ?_, ?_, ?_⟩, ?_⟩
  · rw [hzero _ rfl]
    rfl
  · rw [hzero _ rfl]
    rfl
  · intro _ worker hmem hstopping
    rw [hstarting _ hmem] at hstopping
    cases hstopping
  · intro worker hmem entry hentry
    rw [hstarting _ hmem] at hentry
    cases hentry
  · intro closed hmem
    cases hmem
  · intro failure hfailure
    cases hfailure
  · intro job failure hfailed
    cases hfailed
  · intro hterminated
    rcases (JobPool.isTerminated_iff _).mp hterminated with hlength | hexception
    · exact .inr hlength.symm
    · exact absurd rfl hexception
  · intro hevent
    cases hevent
  · intro hnumber
    exact (JobPool.isTerminated_iff _).mpr (.inl hnumber.symm)
  · intro hwaiter
    cases hwaiter
  · intro hwaiter
    cases hwaiter
  · simp only [initial, ne_eq, replicate_eq_nil_iff]
    omega

theorem jobsOf_indices (items : List Item) :
    (jobsOf items).map Job.jobIndex = List.range items.length := by
  rw [jobsOf, List.map_map, List.range_eq_range']
  exact zipIdx_map_snd 0 _

theorem jobsOf_nodup (items : List Item) : (jobsOf items).Nodup := by
  have hindices : ((jobsOf items).map Job.jobIndex).Nodup := by
    rw [jobsOf_indices]
    exact nodup_range
  exact hindices.of_map _

theorem getClosedJobs_indices (count : Nat)
    (h : (pool.closedJobs.map JobClosed.jobIndex).Perm (List.range count)) :
    pool.getClosedJobs.map JobClosed.jobIndex = List.range count := by
  have hsorted : (pool.getClosedJobs.map JobClosed.jobIndex).Pairwise (· ≤ ·) := by
    rw [pairwise_map]
    have hpairwise := @pairwise_mergeSort (JobClosed Output)
      (fun a b => decide (a.jobIndex ≤ b.jobIndex))
      (fun a b c hab hbc => decide_eq_true
        (Nat.le_trans (of_decide_eq_true hab) (of_decide_eq_true hbc)))
      (fun a b => by
        rcases Nat.le_total a.jobIndex b.jobIndex with hle | hle
        · simp [hle]
        · simp [hle]) pool.closedJobs
    exact hpairwise.imp fun hle => of_decide_eq_true hle
  have hperm : (pool.getClosedJobs.map JobClosed.jobIndex).Perm (range count) :=
    ((mergeSort_perm _ _).map _).trans h
  exact hperm.eq_of_pairwise (fun a b _ _ hab hba => Nat.le_antisymm hab hba) hsorted
    (pairwise_lt_range.imp fun hlt => Nat.le_of_lt hlt)

theorem closed_of_terminated (h : Sound items state)
    (hexception : state.pool.workerException = none)
    (hterminated : state.pool.isTerminated = true) :
    state.handedJobs = jobsOf items ∧
      (state.pool.closedJobs.map JobClosed.jobIndex).Perm (List.range items.length) := by
  rcases (JobPool.isTerminated_iff _).mp hterminated with hlength | hexception'
  · have hhands := h.accounted.hands hexception
    have hcard := congrArg Multiset.card hhands
    rw [Multiset.card_add, Multiset.coe_card, Multiset.coe_card, length_map, hlength,
      h.handing.jobsNumber] at hcard
    have hall := h.handing.all
    have hlengths := congrArg length hall
    rw [length_append, jobsOf, length_map, length_zipIdx] at hlengths
    have hsame : state.handedIndices.length = state.handedJobs.length := by
      rw [handedIndices, handedJobs, length_map, length_map]
    have hopen : state.pool.openJobs = [] := eq_nil_of_length_eq_zero (by omega)
    rw [hopen, append_nil] at hall
    refine ⟨hall, ?_⟩
    have hzero : (state.workers.map Worker.hands).sum = 0 := Multiset.card_eq_zero.mp (by omega)
    rw [hzero, add_zero, Multiset.coe_eq_coe] at hhands
    have hindices : state.handedIndices = range items.length := by
      rw [← jobsOf_indices, ← hall, handedJobs, List.map_map]
      rfl
    rw [← hindices]
    exact hhands.symm
  · exact absurd hexception hexception'

theorem terminated_of_done (h : Sound items state)
    (hdone : ∀ worker ∈ state.workers, worker = .done) :
    state.pool.isTerminated = true := by
  rw [JobPool.isTerminated_iff]
  by_cases hexception : state.pool.workerException = none
  · refine .inl ?_
    rcases exists_mem_of_ne_nil _ h.workers with ⟨worker, hworker⟩
    have hopen := h.accounted.stopping hexception _ hworker (by rw [hdone _ hworker]; rfl)
    have hall := congrArg length h.handing.all
    rw [hopen, append_nil, jobsOf, length_map, length_zipIdx] at hall
    have hzero : (state.workers.map Worker.hands).sum = 0 := by
      refine sum_eq_zero fun hands hmem => ?_
      rcases mem_map.mp hmem with ⟨worker', hworker', rfl⟩
      rw [hdone _ hworker']
      rfl
    have hhands := congrArg Multiset.card (h.accounted.hands hexception)
    rw [hzero, add_zero, Multiset.coe_card, Multiset.coe_card, length_map, handedIndices,
      length_map] at hhands
    rw [handedJobs, length_map] at hall
    rw [h.handing.jobsNumber]
    omega
  · exact .inr hexception

theorem step_failed {failure : Failure} (h : state.pool.workerException = some failure)
    (hstep : state.step label = some state') :
    state'.handed = state.handed ∧ state'.pool.workerException = some failure := by
  have hnext : state.pool.nextJob = (none, state.pool) := by
    rcases state.pool.nextJob_cases with ⟨hnext, _⟩ | ⟨_, _, hexception, _⟩
    · exact hnext
    · rw [h] at hexception
      cases hexception
  have hterminated : state.pool.isTerminated = true :=
    (JobPool.isTerminated_iff _).mpr (.inr (by rw [h]; simp))
  have hclose : ∀ job jobOutput, state.pool.closeJob job jobOutput = state.pool := by
    intro job jobOutput
    unfold JobPool.closeJob
    rw [if_pos hterminated]
  rcases step_cases hstep with ⟨_, _, _, _, _, rfl⟩ | ⟨_, _, _, _, _, _, _, rfl⟩ |
    ⟨_, _, _, _, rfl⟩ | ⟨_, rfl⟩ | ⟨_, _, rfl⟩
  · simpa [become, handOut, hnext] using h
  · simpa [become, hclose] using h
  · exact ⟨rfl, h⟩
  · exact ⟨rfl, h⟩
  · exact ⟨rfl, h⟩

/-- What a Map state promises about a state that its workers have brought it to. -/
structure ReturnsResults (items : List Item) (state : MapState Item Output Failure) : Prop where
  /-- No job is handed to two workers, and each is evaluated once. -/
  handed : state.handedJobs <+: jobsOf items ∧ state.handedJobs.Nodup ∧
    state.evaluatedJobs.Nodup
  /-- If no job fails, then every job was handed to a worker by the time that `await_jobs`
      returns, and there is one output per item, in the order of the items. -/
  results : (∀ job failure, (job, .error failure) ∉ state.evaluated) →
    state.waiter = .returned →
    state.handedJobs = jobsOf items ∧
    state.pool.getClosedJobs.map JobClosed.jobIndex = List.range items.length ∧
    ∀ closed ∈ state.pool.getClosedJobs, ∃ job ∈ jobsOf items, job.jobIndex = closed.jobIndex ∧
      (job, .ok closed.jobOutput) ∈ state.evaluated
  /-- What is recorded is one of the failures, and after it no job is handed out. -/
  failure : ∀ failure, state.pool.workerException = some failure →
    (∃ job, (job, .error failure) ∈ state.evaluated) ∧
    ∀ labels state', Runs (Takes step) state labels state' →
      state'.handed = state.handed ∧ state'.pool.workerException = some failure
  /-- A failure is recorded by the time that `await_jobs` returns or the workers are done. -/
  recorded : (∃ job failure, (job, .error failure) ∈ state.evaluated) →
    (state.waiter = .returned ∨ ∀ worker ∈ state.workers, worker = .done) →
    state.pool.workerException ≠ none
  /-- `await_jobs` returns once a failure is recorded or the workers are done. -/
  returns : (state.pool.workerException ≠ none ∨ ∀ worker ∈ state.workers, worker = .done) →
    state.step .await = none → state.waiter = .returned

theorem Sound.returnsResults (h : Sound items state) : ReturnsResults items state := by
  have hnodup : state.handedJobs.Nodup := by
    have hall := jobsOf_nodup items
    rw [← h.handing.all] at hall
    exact hall.of_append_left
  have hevaluated : ∀ job ∈ state.evaluatedJobs, job ∈ jobsOf items := by
    intro job hjob
    rw [← h.handing.all]
    refine mem_append.mpr (.inl ?_)
    rw [← Multiset.mem_coe, h.handing.pending]
    exact Multiset.mem_add.mpr (.inl (Multiset.mem_coe.mpr hjob))
  refine ⟨⟨⟨_, h.handing.all⟩, hnodup, ?_⟩, ?_, ?_, ?_, ?_⟩
  · have hpending := Multiset.coe_nodup.mpr hnodup
    rw [h.handing.pending] at hpending
    exact Multiset.coe_nodup.mp (Multiset.nodup_add.mp hpending).1
  · intro hsucceeded hreturned
    have hexception : state.pool.workerException = none := by
      by_contra hne
      rcases ne_none_iff_exists'.mp hne with ⟨failure, hfailure⟩
      rcases h.reports.exception _ hfailure with ⟨job, hjob⟩
      exact hsucceeded _ _ hjob
    rcases closed_of_terminated h hexception (h.signals.returned hreturned) with ⟨hall, hclosed⟩
    refine ⟨hall, getClosedJobs_indices _ _ hclosed, ?_⟩
    intro closed hmem
    rcases h.reports.closed _ (mem_mergeSort.mp hmem) with ⟨job, hindex, hjob⟩
    exact ⟨job, hevaluated _ (mem_map.mpr ⟨_, hjob, rfl⟩), hindex, hjob⟩
  · intro failure hfailure
    refine ⟨h.reports.exception _ hfailure, fun labels state' hrun => ?_⟩
    refine hrun.invariant (P := fun later => later.handed = state.handed ∧
      later.pool.workerException = some failure) ?_ ⟨rfl, hfailure⟩
    intro earlier label later hearlier hstep
    rcases step_failed hearlier.2 hstep with ⟨hhanded, hexception⟩
    exact ⟨hhanded.trans hearlier.1, hexception⟩
  · rintro ⟨job, failure, hfailed⟩ hend hexception
    rcases h.reports.failed _ _ hfailed with hrecorded | hmem
    · exact hrecorded hexception
    · rcases hend with hreturned | hdone
      · rcases getElem?_of_mem hmem with ⟨number, hworker⟩
        have hopen := not_terminated_of_hands h.handing h.accounted hexception hworker
          (Multiset.mem_singleton_self job.jobIndex)
        rw [h.signals.returned hreturned] at hopen
        cases hopen
      · cases hdone _ hmem
  · intro hstop hstuck
    have hterminated : state.pool.isTerminated = true := by
      rcases hstop with hexception | hdone
      · exact (JobPool.isTerminated_iff _).mpr (.inr hexception)
      · exact terminated_of_done h hdone
    cases hwaiter : state.waiter with
    | entered =>
      simp only [step, hwaiter] at hstuck
      cases hstuck
    | waiting =>
      rcases h.signals.event hterminated with hevent | hnumber
      · simp only [step, hwaiter, hevent, if_true] at hstuck
        cases hstuck
      · exact absurd hnumber (h.signals.waiting hwaiter)
    | returned => rfl

/-- For every list of items, every number of workers and every order of their steps, a Map
    state returns one result per item, in order, or a failure. No run is longer than
    its items and workers allow, and a worker that is not done can always go on. -/
theorem map_returns_results (items : List Item) (workers : Nat) (hworkers : 1 ≤ workers)
    (labels : List (MapStep Output Failure)) (state : MapState Item Output Failure)
    (hrun : Runs (Takes step) (initial items workers) labels state) :
    ReturnsResults items state ∧ labels.length ≤ 4 * items.length + workers + 2 ∧
      ∀ number worker, state.workers[number]? = some worker → worker = .done ∨
        (∃ job, worker = .evaluating job ∧
          ∀ jobOutput, (state.step (.evaluate number jobOutput)).isSome = true) ∨
        (state.step (.work number)).isSome = true := by
  have hsound : Sound items state :=
    hrun.invariant (P := Sound items) (fun _ _ _ h hstep => step_sound h hstep)
      (initial_sound _ _ hworkers)
  refine ⟨hsound.returnsResults, ?_, ?_⟩
  · have hlength := length_le_fuel hrun
    have hfuel : fuel (initial items workers : MapState Item Output Failure) =
        4 * items.length + workers + 2 := by
      simp [fuel, initial, JobPool.ofItems, jobsOf, workerFuel, waiterFuel]
    omega
  · intro number worker hworker
    cases worker with
    | starting | closing => exact .inr (.inr (by simp [step, hworker]))
    | evaluating job => exact .inr (.inl ⟨job, rfl, fun _ => by simp [step, hworker]⟩)
    | evaluated job jobOutput =>
      cases jobOutput with
      | error | ok => exact .inr (.inr (by simp [step, hworker]))
    | done => exact .inl rfl

/-- Two workers evaluate three items; the second item is done before the first. -/
def threeItemSteps : List (MapStep String Unit) :=
  [.work 0, .work 1, .await, .evaluate 1 (.ok "b"), .work 1, .work 1, .evaluate 0 (.ok "a"),
    .work 0, .work 0, .evaluate 1 (.ok "c"), .work 1, .work 1, .await]

theorem map_returns_results_of_threeItemSteps :
    ∃ state : MapState Nat String Unit,
      Runs (Takes step) (initial [10, 20, 30] 2) threeItemSteps state ∧
      state.pool.closedJobs = [⟨1, "b"⟩, ⟨0, "a"⟩, ⟨2, "c"⟩] ∧ state.waiter = .returned ∧
      ReturnsResults [10, 20, 30] state := by
  have hsome : (takeAll (step : MapState Nat String Unit → _) (initial [10, 20, 30] 2)
      threeItemSteps).any (fun state => decide (state.pool.closedJobs =
        [⟨1, "b"⟩, ⟨0, "a"⟩, ⟨2, "c"⟩] ∧ state.waiter = .returned)) = true := by
    decide +kernel
  rcases (any_eq_true _ _).mp hsome with ⟨state, hstate, hclosed⟩
  have hrun := Runs.of_takeAll _ _ _ hstate
  exact ⟨state, hrun, (of_decide_eq_true hclosed).1, (of_decide_eq_true hclosed).2,
    (map_returns_results [10, 20, 30] 2 (by decide) _ _ hrun).1⟩

end MapState

end LocalEmu.StepFunctions
