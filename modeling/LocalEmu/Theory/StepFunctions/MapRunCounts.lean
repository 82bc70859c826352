import Mathlib.Tactic.Ring
import LocalEmu.Core.StepFunctions.MapRun

/-!
# When The Counters Of A Map Run Balance

What the counters show and what the workers have still to count is what the jobs
count from their start to their end, at every moment of a run. So once no worker
is inside a job, the counters are the sums of what the jobs count alone, in
whatever order the workers got to run.

A job that succeeds counts what it should. Every other one leaves the counter of the
running executions one too high, and nothing takes it down again.
-/

namespace LocalEmu.StepFunctions.MapRun

open List Option

variable (labels : List (Nat × Action)) (run : Pool Counts Worker)

/-- A step of a run: one of the workers does something. -/
def step (label : Nat × Action) : Option (Pool Counts Worker) :=
  Pool.step Worker.act run (.act label.1 label.2)

/-- The number of jobs that were started. -/
def jobsStarted : Nat :=
  labels.countP fun label => decide (label.2 = .enter)

/-- How a job ended, if this is what happens. -/
def jobEnd? : Action → Option JobEnd
  | .evaluate jobEnd => some jobEnd
  | _ => none

/-- How the jobs ended. -/
def jobEnds : List JobEnd :=
  labels.filterMap fun label => jobEnd? label.2

/-- The job has counted as one that succeeded. -/
def JobEnd.succeeded : JobEnd → Bool
  | .program (.error _) => false
  | .program (.stopped _ _ _) => false
  | .program _ => true
  | _ => false

/-- The counters are right for a number of jobs, none of which is running. -/
def Balanced (counts : Counts) (jobs : Nat) : Prop :=
  ∀ record : Record,
    counts ⟨record, .total⟩ =
      counts ⟨record, .running⟩ + counts ⟨record, .succeeded⟩ + counts ⟨record, .failed⟩ +
        counts ⟨record, .aborted⟩ + counts ⟨record, .timedOut⟩ ∧
    counts ⟨record, .running⟩ = 0 ∧
    counts ⟨record, .total⟩ = jobs ∧
    counts ⟨record, .resultsWritten⟩ = counts ⟨record, .succeeded⟩

/-! ### What a step preserves -/

def sumOf (updates : List Update) (counter : Counter) : Int :=
  (updates.map fun update => update.adds counter).sum

variable (counter : Counter)

def Worker.pending : Worker → Int
  | .outside => 0
  | .inside updates _ => sumOf updates counter

def Action.adds : Action → Int
  | .enter => sumOf startCounts counter
  | .evaluate jobEnd => sumOf (endCounts jobEnd) counter
  | _ => 0

/-- The worker is inside a job that is not evaluated yet. -/
def Worker.evaluating : Worker → Bool
  | .inside _ false => true
  | _ => false

variable {counts counts' : Counts} {worker worker' : Worker}

/-- What a worker can do. -/
theorem act_cases {action : Action}
    (h : worker.act counts action = some (counts', worker')) :
    (action = .enter ∧ worker = .outside ∧ worker' = .inside startCounts false ∧
      counts' = counts) ∨
    (∃ update updates evaluated, action = .update ∧ worker = .inside (update :: updates) evaluated ∧
      worker' = .inside updates evaluated ∧ counts' = update.apply counts) ∨
    (∃ jobEnd, action = .evaluate jobEnd ∧ worker = .inside [] false ∧
      worker' = .inside (endCounts jobEnd) true ∧ counts' = counts) ∨
    (action = .leave ∧ worker = .inside [] true ∧ worker' = .outside ∧ counts' = counts) := by
  unfold Worker.act at h
  split at h
  · simp only [some.injEq, Prod.mk.injEq] at h
    exact .inl ⟨rfl, rfl, h.2.symm, h.1.symm⟩
  · simp only [some.injEq, Prod.mk.injEq] at h
    exact .inr (.inl ⟨_, _, _, rfl, rfl, h.2.symm, h.1.symm⟩)
  · simp only [some.injEq, Prod.mk.injEq] at h
    exact .inr (.inr (.inl ⟨_, rfl, rfl, h.2.symm, h.1.symm⟩))
  · simp only [some.injEq, Prod.mk.injEq] at h
    exact .inr (.inr (.inr ⟨rfl, rfl, h.2.symm, h.1.symm⟩))
  · cases h

theorem act_booked {action : Action}
    (h : worker.act counts action = some (counts', worker')) (counter : Counter) :
    counts' counter + worker'.pending counter =
      counts counter + worker.pending counter + action.adds counter := by
  rcases act_cases h with ⟨rfl, rfl, rfl, rfl⟩ | ⟨update, updates, evaluated, rfl, rfl, rfl, rfl⟩ |
    ⟨jobEnd, rfl, rfl, rfl, rfl⟩ | ⟨rfl, rfl, rfl, rfl⟩
  · simp only [Worker.pending, Action.adds]
    omega
  · simp only [Worker.pending, Action.adds, Update.apply, sumOf, map_cons, sum_cons]
    omega
  · simp only [Worker.pending, Action.adds, sumOf, map_nil, sum_nil]
    omega
  · simp only [Worker.pending, Action.adds, sumOf, map_nil, sum_nil]
    omega

theorem act_evaluating {action : Action}
    (h : worker.act counts action = some (counts', worker')) :
    worker'.evaluating.toNat + (jobEnd? action).toList.length =
      worker.evaluating.toNat + (decide (action = .enter)).toNat := by
  rcases act_cases h with ⟨rfl, rfl, rfl, rfl⟩ | ⟨update, updates, evaluated, rfl, rfl, rfl, rfl⟩ |
    ⟨jobEnd, rfl, rfl, rfl, rfl⟩ | ⟨rfl, rfl, rfl, rfl⟩
  · rfl
  · cases evaluated with
    | true | false => rfl
  · rfl
  · rfl

/-- What the counters show and what the workers have still to count is what was taken on. -/
def Booked : Prop :=
  ∀ counter, run.shared counter + (run.threads.map (Worker.pending counter)).sum =
    (labels.map fun label => label.2.adds counter).sum

/-- Every job that was started has ended or is being evaluated. -/
def Entered : Prop :=
  jobsStarted labels = (jobEnds labels).length + run.threads.countP Worker.evaluating

/-- What a step preserves. -/
theorem step_booked {labels : List (Nat × Action)} {run run' : Pool Counts Worker}
    {label : Nat × Action} (h : Booked labels run) (hstep : Takes step run label run') :
    Booked (labels ++ [label]) run' := by
  intro counter
  rcases Pool.step_cases hstep with ⟨thread, hlabel, -⟩ |
    ⟨n, action, worker, counts, worker', hlabel, hget, hact, rfl⟩
  · cases hlabel
  · simp only [Pool.Label.act.injEq] at hlabel
    have hsum := Pool.sum_act (Worker.pending counter) _ n _ worker' hget
    have hadds := act_booked hact counter
    have hbefore := h counter
    simp only [map_append, map_singleton, sum_append, sum_singleton, hlabel.2]
    omega

theorem step_entered {labels : List (Nat × Action)} {run run' : Pool Counts Worker}
    {label : Nat × Action} (h : Entered labels run) (hstep : Takes step run label run') :
    Entered (labels ++ [label]) run' := by
  rcases Pool.step_cases hstep with ⟨thread, hlabel, -⟩ |
    ⟨n, action, worker, counts, worker', hlabel, hget, hact, rfl⟩
  · cases hlabel
  · simp only [Pool.Label.act.injEq] at hlabel
    have hcount := Pool.count_act Worker.evaluating _ n _ worker' hget
    have hadds := act_evaluating hact
    have hends : (jobEnds (labels ++ [label])).length =
        (jobEnds labels).length + (jobEnd? action).toList.length := by
      rw [jobEnds, jobEnds]
      cases hend : jobEnd? action with
      | none | some => simp [hlabel.2, hend]
    have hstarted : jobsStarted (labels ++ [label]) =
        jobsStarted labels + (decide (action = .enter)).toNat := by
      rw [jobsStarted, Pool.count_spawn, hlabel.2, jobsStarted]
    rw [Entered] at h ⊢
    show _ = _ + (run.threads.set n worker').countP Worker.evaluating
    omega

/-! ### No worker is inside a job -/

/-- What a job counts from its start to its end. -/
def jobCounts (jobEnd : JobEnd) (counter : Counter) : Int :=
  sumOf startCounts counter + sumOf (endCounts jobEnd) counter

theorem sum_adds : (labels.map fun label => label.2.adds counter).sum =
      jobsStarted labels * sumOf startCounts counter +
        ((jobEnds labels).map fun jobEnd => sumOf (endCounts jobEnd) counter).sum := by
  induction labels with
  | nil => simp [jobsStarted, jobEnds]
  | cons label labels ih =>
    rcases label with ⟨n, action⟩
    rw [map_cons, sum_cons, ih]
    cases action with
    | enter =>
      simp [jobsStarted, jobEnds, jobEnd?, Action.adds]
      ring
    | update | leave => simp [jobsStarted, jobEnds, jobEnd?, Action.adds]
    | evaluate jobEnd =>
      simp [jobsStarted, jobEnds, jobEnd?, Action.adds]
      ring

theorem quiescent_workers {workers : List Worker} (h : ∀ worker ∈ workers, worker = .outside) :
    workers.countP Worker.evaluating = 0 ∧
      ∀ counter, (workers.map (Worker.pending counter)).sum = 0 := by
  constructor
  · rw [countP_eq_zero]
    intro worker hworker
    rw [h _ hworker]
    exact Bool.false_ne_true
  · intro counter
    refine sum_eq_zero fun n hn => ?_
    rcases mem_map.mp hn with ⟨worker, hworker, rfl⟩
    rw [h _ hworker, Worker.pending]

/-- The counters when no worker is inside a job. -/
theorem counts_of_quiescent {workers : Nat} {labels : List (Nat × Action)}
    {run : Pool Counts Worker} (hrun : Runs (Takes step) (start workers) labels run)
    (hquiet : ∀ worker ∈ run.threads, worker = .outside) :
    jobsStarted labels = (jobEnds labels).length ∧ ∀ counter, run.shared counter =
      ((jobEnds labels).map fun jobEnd => jobCounts jobEnd counter).sum := by
  have houtside : ∀ worker ∈ (start workers).threads, worker = .outside :=
    fun worker hworker => eq_of_mem_replicate hworker
  have hnone := quiescent_workers houtside
  have hstart : Booked [] (start workers) ∧ Entered [] (start workers) := by
    constructor
    · intro counter
      rw [hnone.2]
      rfl
    · rw [Entered, hnone.1]
      rfl
  have hlast : Booked labels run ∧ Entered labels run :=
    hrun.history (P := fun labels run => Booked labels run ∧ Entered labels run)
      (fun _ _ _ _ h hstep => ⟨step_booked h.1 hstep, step_entered h.2 hstep⟩) [] hstart
  have hempty := quiescent_workers hquiet
  have hstarted : jobsStarted labels = (jobEnds labels).length := by
    have hentered := hlast.2
    rw [Entered, hempty.1] at hentered
    exact hentered
  refine ⟨hstarted, fun counter => ?_⟩
  have hbooked := hlast.1 counter
  rw [sum_adds, hstarted, hempty.2, add_zero] at hbooked
  simp only [hbooked, jobCounts]
  rw [sum_map_add, map_const', sum_replicate, nsmul_eq_mul]

/-! ### The balance -/

theorem jobCounts_of_succeeded {jobEnd : JobEnd} (h : jobEnd.succeeded = true)
    (counter : Counter) : jobCounts jobEnd counter = jobCounts (.program .ended) counter := by
  cases jobEnd with
  | program state =>
    cases state with
    | ended | running | timedOut => rfl
    | error | stopped => exact absurd h Bool.false_ne_true
  | timeoutError | failureEvent | exception => exact absurd h Bool.false_ne_true

theorem jobCounts_ended (record : Record) :
    jobCounts (.program .ended) ⟨record, .total⟩ = 1 ∧
    jobCounts (.program .ended) ⟨record, .running⟩ = 0 ∧
    jobCounts (.program .ended) ⟨record, .succeeded⟩ = 1 ∧
    jobCounts (.program .ended) ⟨record, .failed⟩ = 0 ∧
    jobCounts (.program .ended) ⟨record, .aborted⟩ = 0 ∧
    jobCounts (.program .ended) ⟨record, .timedOut⟩ = 0 ∧
    jobCounts (.program .ended) ⟨record, .resultsWritten⟩ = 1 := by
  cases record with
  | item | execution => decide

theorem jobCounts_running (jobEnd : JobEnd) :
    jobCounts jobEnd ⟨.execution, .running⟩ = if jobEnd.succeeded then 0 else 1 := by
  cases jobEnd with
  | program state => cases state <;> rfl
  | timeoutError | failureEvent | exception => rfl

/-- The counters of a run balance, whenever no worker is inside a job, exactly if
    every job has succeeded so far. -/
theorem balanced_iff {workers : Nat} {labels : List (Nat × Action)} {run : Pool Counts Worker}
    (hrun : Runs (Takes step) (start workers) labels run)
    (hquiet : ∀ worker ∈ run.threads, worker = .outside) :
    Balanced run.shared (jobsStarted labels) ↔
      ∀ jobEnd ∈ jobEnds labels, jobEnd.succeeded = true := by
  rcases counts_of_quiescent hrun hquiet with ⟨hstarted, hcounts⟩
  constructor
  · intro hbalanced jobEnd hjobEnd
    by_contra hfailed
    -- The executions that did not succeed are still counted as running.
    have hzero := (hbalanced .execution).2.1
    rw [hcounts] at hzero
    have hnonneg : ∀ n ∈ (jobEnds labels).map fun jobEnd =>
        jobCounts jobEnd ⟨.execution, .running⟩, 0 ≤ n := by
      intro n hn
      rcases mem_map.mp hn with ⟨other, -, rfl⟩
      rw [jobCounts_running]
      split
      · exact le_refl 0
      · exact zero_le_one
    have hone : jobCounts jobEnd ⟨.execution, .running⟩ = 1 := by
      rw [jobCounts_running, if_neg hfailed]
    have hle := single_le_sum hnonneg _ (mem_map_of_mem hjobEnd)
    rw [hzero, hone] at hle
    cases hle
  · intro hall record
    have hsum : ∀ counter, run.shared counter =
        (jobEnds labels).length * jobCounts (.program .ended) counter := by
      intro counter
      have hmap : ((jobEnds labels).map fun jobEnd => jobCounts jobEnd counter) =
          replicate (jobEnds labels).length (jobCounts (.program .ended) counter) := by
        rw [← map_const']
        exact map_congr_left fun jobEnd hjobEnd =>
          jobCounts_of_succeeded (hall _ hjobEnd) _
      rw [hcounts, hmap, sum_replicate, nsmul_eq_mul]
    rcases jobCounts_ended _ with
      ⟨htotal, hrunning, hsucceeded, hfailed, haborted, htimedOut, hwritten⟩
    refine ⟨?_, ?_, ?_, ?_⟩
    · rw [hsum, hsum, hsum, hsum, hsum, hsum, htotal, hrunning, hsucceeded, hfailed, haborted,
        htimedOut]
      ring
    · rw [hsum, hrunning, mul_zero]
    · rw [hsum, htotal, hstarted, mul_one]
    · rw [hsum, hsum, hwritten, hsucceeded]

/-- A worker takes a job from its start to its end. -/
def oneJob (worker : Nat) (jobEnd : JobEnd) : List (Nat × Action) :=
  (worker, .enter) :: List.replicate 4 (worker, .update) ++ (worker, .evaluate jobEnd) ::
    List.replicate (endCounts jobEnd).length (worker, .update) ++ [(worker, .leave)]

theorem balanced_of_two_jobs :
    ∃ run, Runs (Takes step) (start 2) (oneJob 0 (.program .ended) ++ oneJob 1 (.program .ended))
        run ∧
      Balanced run.shared 2 := by
  have hsome : ((takeAll step (start 2) (oneJob 0 (.program .ended) ++
      oneJob 1 (.program .ended))).any fun run => decide (run.threads = [.outside, .outside])) =
        true := by
    decide
  rcases (any_eq_true _ _).mp hsome with ⟨run, hrun, hthreads⟩
  have hruns := Runs.of_takeAll _ _ _ hrun
  refine ⟨run, hruns, (balanced_iff hruns ?_).mpr (by decide)⟩
  rw [of_decide_eq_true hthreads]
  decide

/-- After a job whose program ended with an error, the execution is counted as
    running and as failed. -/
theorem unbalanced_after_error :
    ∃ run, Runs (Takes step) (start 1) (oneJob 0 (.program (.error none))) run ∧
      (∀ worker ∈ run.threads, worker = .outside) ∧ ¬Balanced run.shared 1 := by
  have hsome : ((takeAll step (start 1) (oneJob 0 (.program (.error none)))).any fun run =>
      decide (run.threads = [.outside]) && decide (run.shared ⟨.execution, .running⟩ = 1)) =
        true := by
    decide
  rcases (any_eq_true _ _).mp hsome with ⟨run, hrun, hfacts⟩
  rw [Bool.and_eq_true, decide_eq_true_eq, decide_eq_true_eq] at hfacts
  refine ⟨run, Runs.of_takeAll _ _ _ hrun, ?_, ?_⟩
  · rw [hfacts.1]
    decide
  · intro hbalanced
    have hzero := (hbalanced .execution).2.1
    rw [hfacts.2] at hzero
    cases hzero

end LocalEmu.StepFunctions.MapRun
