import Mathlib.Data.Int.CardIntervalMod
import LocalEmu.Base.Run
import LocalEmu.Core.Sns.Executor

/-!
# The Order Of The Tasks Of A Topic

A worker has, in this order, the tasks that have run, the one that runs and those that wait,
and these are the tasks of its topics in the order of their submission. Every step keeps
this, whatever the tasks do. The topics go to the workers in turn, in the order of their first
tasks, so that the submissions alone say which worker a topic has.

A task ends its worker if what it raises is no `Exception`, or is one and its function has no
name. The tasks behind it, of whichever topic, are never taken. A topic has run to its end just
if no task of the same worker ended it before.
-/

namespace LocalEmu.Sns

open List Option

variable {α : Type}

/-- What the task raises does not leave `_WorkItem.run`. -/
def WorkItem.Contained (item : WorkItem α) : Prop :=
  item.raised = none ∨ item.raised = some .exception ∧ item.fn.isSome

theorem WorkItem.contained_iff (item : WorkItem α) : item.Contained ↔ ∃ e, item.run = .ok e := by
  rw [Contained, WorkItem.run]
  rcases item.raised with _ | _ | _ <;> rcases item.fn with _ | _ <;> simp

/-- The tasks of a worker: those that have run, the one that runs, and those that wait. -/
def Worker.items (w : Worker α) : List (WorkItem α) :=
  w.finished ++ w.running.toList ++ w.workQueue

/-- A worker has ended just if its last task ended it. -/
structure Worker.Kept (w : Worker α) : Prop where
  contained : w.ended = false → ∀ item ∈ w.finished, item.Contained
  last : w.ended = true → w.running = none ∧ ∃ front item, w.finished = front ++ [item] ∧
    (∀ other ∈ front, other.Contained) ∧ ¬item.Contained

def submitted (events : List (Event α)) : List (WorkItem α) :=
  events.filterMap fun
    | .submit item => some item
    | _ => none

def ofTopic (topic : String) (items : List (WorkItem α)) : List (WorkItem α) :=
  items.filter fun item => decide (item.topic = topic)

/-- The topics after a task of this one. -/
def seen (topics : List String) (topic : String) : List String :=
  if topic ∈ topics then topics else topics ++ [topic]

/-- The topics of the tasks, in the order of their first tasks. -/
def topicsOf (items : List (WorkItem α)) : List String :=
  items.foldl (fun topics item => seen topics item.topic) []

/-- The index of the worker of a topic: the topics are dealt out in turn. -/
def workerOf (maxWorkers : Nat) (topics : List String) (topic : String) : Nat :=
  topics.idxOf topic % maxWorkers

/-- No task of the topic is behind one that ends the worker. -/
def Undisturbed (maxWorkers : Nat) (items : List (WorkItem α)) (topic : String) : Prop :=
  ∀ before item after, items = before ++ item :: after →
    workerOf maxWorkers (topicsOf items) item.topic =
      workerOf maxWorkers (topicsOf items) topic →
    ¬item.Contained → ofTopic topic after = []

theorem mem_seen (topics : List String) (topic : String) : topic ∈ seen topics topic := by
  rw [seen]
  split
  · assumption
  · exact mem_append_right _ mem_cons_self

/-- A topic keeps its place, and so its worker. -/
theorem workerOf_seen (maxWorkers : Nat) {topics : List String} (topic : String) {other : String}
    (hother : other ∈ topics) :
    workerOf maxWorkers (seen topics topic) other = workerOf maxWorkers topics other := by
  rw [seen]
  split
  · rfl
  · rw [workerOf, idxOf_append_of_mem hother, workerOf]

theorem mem_seen_of_mem {topics : List String} (topic : String) {other : String}
    (hother : other ∈ topics) : other ∈ seen topics topic := by
  rw [seen]
  split
  · exact hother
  · exact mem_append_left _ hother

namespace Worker

variable {w w' : Worker α}

/-- A worker that has not ended takes the first task of its queue. -/
theorem get_eq_some (h : w.get = some w') :
    ∃ item rest, w.ended = false ∧ w.running = none ∧ w.workQueue = item :: rest ∧
      w' = { w with running := some item, workQueue := rest } := by
  rw [Worker.get] at h
  split at h
  · next hended hrunning hqueue =>
      cases h
      exact ⟨_, _, hended, hrunning, hqueue, rfl⟩
  · cases h

theorem items_get (h : w.get = some w') : w'.items = w.items := by
  obtain ⟨item, rest, -, hrunning, hqueue, rfl⟩ := get_eq_some h
  simp [Worker.items, hrunning, hqueue]

theorem Kept.get (hkept : w.Kept) (h : w.get = some w') : w'.Kept := by
  obtain ⟨item, rest, hended, -, -, rfl⟩ := get_eq_some h
  refine ⟨hkept.contained, fun htrue => ?_⟩
  rw [hended] at htrue
  cases htrue

/-- A task has run, and the worker goes on just if the task is contained. -/
theorem run_eq_some (h : w.run = some w') :
    ∃ item, w.running = some item ∧ w'.finished = w.finished ++ [item] ∧ w'.running = none ∧
      w'.workQueue = w.workQueue ∧
      (item.Contained ∧ w'.ended = w.ended ∨ ¬item.Contained ∧ w'.ended = true) := by
  obtain ⟨item, hrunning, rfl⟩ := map_eq_some_iff.mp h
  refine ⟨item, hrunning, ?_⟩
  rw [item.contained_iff]
  rcases item.run with (_ | _) | _ <;> simp

theorem items_run (h : w.run = some w') : w'.items = w.items := by
  obtain ⟨item, hrunning, hfinished, hnone, hqueue, -⟩ := run_eq_some h
  simp [Worker.items, hrunning, hfinished, hnone, hqueue]

theorem Kept.run (hkept : w.Kept) (h : w.run = some w') : w'.Kept := by
  obtain ⟨item, hrunning, hfinished, hnone, -, hend⟩ := run_eq_some h
  -- a worker that has ended has no task that runs
  have hended : w.ended = false := by
    by_contra htrue
    rw [(hkept.last ((Bool.not_eq_false _).mp htrue)).1] at hrunning
    cases hrunning
  have hbefore := hkept.contained hended
  rcases hend with ⟨hcontained, heq⟩ | ⟨hcontained, heq⟩
  · refine ⟨fun _ other hother => ?_, fun htrue => ?_⟩
    · rw [hfinished] at hother
      rcases mem_append.mp hother with hother | hother
      · exact hbefore other hother
      · rw [mem_singleton.mp hother]
        exact hcontained
    · rw [heq, hended] at htrue
      cases htrue
  · refine ⟨fun hfalse => ?_, fun _ => ⟨hnone, w.finished, item, hfinished, hbefore, hcontained⟩⟩
    rw [heq] at hfalse
    cases hfalse

end Worker

namespace Executor

/-- There are as many queues as indices have been given out, until there are enough. Every
    worker has the tasks of its topics, and goes on as long as they are contained. -/
structure Ledger (maxWorkers : Nat) (topics : List String) (items : List (WorkItem α))
    (s : Executor α) : Prop where
  running : s.shutdown = false
  size : s.maxWorkers = maxWorkers
  turns : s.cycle = topics.length
  count : s.workers.length = min s.cycle maxWorkers
  pool : ∀ topic, s.pool.get? topic =
    if topic ∈ topics then some (workerOf maxWorkers topics topic) else none
  known : ∀ item ∈ items, item.topic ∈ topics
  workers : ∀ i w, s.workers[i]? = some w →
    w.items = items.filter fun item => decide (workerOf maxWorkers topics item.topic = i)
  kept : ∀ w ∈ s.workers, w.Kept

section

variable {maxWorkers : Nat} {topics : List String} {items : List (WorkItem α)} {s : Executor α}

/-- The worker of a topic has been started. -/
theorem Ledger.workerOf_lt (h : Ledger maxWorkers topics items s) (hpos : 1 ≤ maxWorkers)
    {topic : String} (htopic : topic ∈ topics) :
    workerOf maxWorkers topics topic < s.workers.length := by
  have hplace := idxOf_lt_length_of_mem htopic
  have hmod := Nat.mod_lt (topics.idxOf topic) hpos
  have hle := Nat.mod_le (topics.idxOf topic) maxWorkers
  have hcount := h.count
  have hturns := h.turns
  rw [workerOf]
  omega

/-- The index is the one of the worker of the topic, which it keeps. -/
theorem Ledger.getWorkQueue (h : Ledger maxWorkers topics items s) (hpos : 1 ≤ maxWorkers)
    (topic : String) : ∃ t,
      s.getWorkQueue topic = .ok (workerOf maxWorkers (seen topics topic) topic, t) ∧
      Ledger maxWorkers (seen topics topic) items t := by
  rw [Executor.getWorkQueue, h.pool, h.size]
  by_cases htopic : topic ∈ topics
  · have hseen : seen topics topic = topics := if_pos htopic
    rw [if_pos htopic, hseen]
    exact ⟨s, rfl, h⟩
  · have hseen : seen topics topic = topics ++ [topic] := if_neg htopic
    have hplace : workerOf maxWorkers (seen topics topic) topic = s.cycle % maxWorkers := by
      rw [workerOf, hseen, idxOf_append_of_notMem htopic, idxOf_cons_self, h.turns, Nat.add_zero]
    have hcount := h.count
    have hmod := Nat.mod_lt s.cycle hpos
    have hle := Nat.mod_le s.cycle maxWorkers
    rw [if_neg htopic, hplace]
    generalize hworkers : (if s.workers.length < maxWorkers then s.workers ++ [.new]
      else s.workers) = workers
    have hlength : workers.length = min (s.cycle + 1) maxWorkers := by
      rw [← hworkers]
      split
      · rw [length_append, length_singleton]
        omega
      · omega
    rw [if_pos (by omega : s.cycle % maxWorkers < workers.length)]
    have hold : ∀ other ∈ topics, workerOf maxWorkers (seen topics topic) other =
        workerOf maxWorkers topics other := fun other => workerOf_seen maxWorkers topic
    refine ⟨_, rfl, h.running, rfl, ?_, hlength, fun other => ?_,
      fun item hitem => mem_seen_of_mem _ (h.known item hitem), fun i w hw => ?_, fun w hw => ?_⟩
    · rw [hseen, length_append, length_singleton, h.turns]
    · rw [Dict.get?_set]
      by_cases heq : other = topic
      · rw [heq, if_pos rfl, if_pos (mem_seen _ _), hplace]
      · rw [if_neg heq, h.pool]
        by_cases hother : other ∈ topics
        · rw [if_pos hother, if_pos (mem_seen_of_mem _ hother), hold _ hother]
        · rw [if_neg hother, if_neg (by simp [hseen, hother, heq])]
    · rw [filter_congr fun item hitem => by rw [hold _ (h.known item hitem)]]
      by_cases hi : i < s.workers.length
      · refine h.workers i w ?_
        rw [← hw, ← hworkers]
        split
        · rw [getElem?_append_left hi]
        · rfl
      · -- a new worker has no tasks, and no topic had its index
        have hnone : (items.filter fun item =>
            decide (workerOf maxWorkers topics item.topic = i)) = [] := by
          rw [filter_eq_nil_iff]
          intro item hitem heq
          have hlt := h.workerOf_lt hpos (h.known item hitem)
          rw [of_decide_eq_true heq] at hlt
          exact hi hlt
        rw [hnone]
        rw [← hworkers] at hw
        split at hw
        · rw [getElem?_append_right (by omega), getElem?_singleton] at hw
          split at hw
          · cases hw
            rfl
          · cases hw
        · rw [getElem?_eq_none (Nat.le_of_not_lt hi)] at hw
          cases hw
    · have hnew : (Worker.new : Worker α).Kept := ⟨fun _ _ hitem => absurd hitem not_mem_nil, nofun⟩
      have hmem : w ∈ s.workers ∨ w = .new := by
        rw [← hworkers] at hw
        split at hw
        · exact (mem_append.mp hw).imp_right mem_singleton.mp
        · exact .inl hw
      exact hmem.elim (h.kept w) fun heq => heq ▸ hnew

/-- A task goes to the end of the queue of its topic. -/
theorem Ledger.put (h : Ledger maxWorkers topics items s) (item : WorkItem α)
    (htopic : item.topic ∈ topics) : Ledger maxWorkers topics (items ++ [item])
      (s.put (workerOf maxWorkers topics item.topic) item) := by
  have hworker : ∀ i w, (s.put (workerOf maxWorkers topics item.topic) item).workers[i]? = some w →
      ∃ old, s.workers[i]? = some old ∧
        w = if workerOf maxWorkers topics item.topic = i then
          { old with workQueue := old.workQueue ++ [item] } else old := by
    intro i w hw
    rw [Executor.put, getElem?_modify] at hw
    obtain ⟨old, hold, rfl⟩ := map_eq_some_iff.mp hw
    exact ⟨old, hold, by split <;> rfl⟩
  refine ⟨h.running, h.size, h.turns, by simpa [Executor.put] using h.count, h.pool, ?_,
    fun i w hw => ?_, fun w hw => ?_⟩
  · intro other hother
    rcases mem_append.mp hother with hother | hother
    · exact h.known _ hother
    · rw [mem_singleton.mp hother]
      exact htopic
  · obtain ⟨old, hold, rfl⟩ := hworker i w hw
    rw [filter_append, ← h.workers i old hold]
    by_cases hi : workerOf maxWorkers topics item.topic = i
    · simp [Worker.items, hi]
    · simp [hi]
  · obtain ⟨i, hi, rfl⟩ := mem_iff_getElem.mp hw
    obtain ⟨old, hold, heq⟩ := hworker i _ (getElem?_eq_getElem hi)
    have hkept := h.kept old (mem_of_getElem? hold)
    rw [heq]
    split
    · exact ⟨hkept.contained, hkept.last⟩
    · exact hkept

/-- A worker goes on with its tasks. -/
theorem Ledger.set (h : Ledger maxWorkers topics items s) (n : Nat) (old new : Worker α)
    (hold : s.workers[n]? = some old) (heq : new.items = old.items) (hkept : new.Kept) :
    Ledger maxWorkers topics items { s with workers := s.workers.set n new } := by
  refine ⟨h.running, h.size, h.turns, by simpa using h.count, h.pool, h.known, fun i w hw => ?_,
    fun w hw => ?_⟩
  · rw [getElem?_set] at hw
    split at hw
    · next hn =>
        subst hn
        split at hw
        · cases hw
          rw [heq]
          exact h.workers n _ hold
        · cases hw
    · exact h.workers i w hw
  · rcases mem_or_eq_of_mem_set hw with hw | rfl
    · exact h.kept w hw
    · exact hkept

theorem Ledger.submit (h : Ledger maxWorkers topics items s) (hpos : 1 ≤ maxWorkers)
    (item : WorkItem α) : ∃ t, s.submit item = .ok t ∧
      Ledger maxWorkers (seen topics item.topic) (items ++ [item]) t := by
  obtain ⟨t, heq, ht⟩ := h.getWorkQueue hpos item.topic
  refine ⟨_, ?_, ht.put item (mem_seen _ _)⟩
  rw [Executor.submit, heq]
  simp [Except.bind, ht.running]

theorem topicsOf_append (items : List (WorkItem α)) (item : WorkItem α) :
    topicsOf (items ++ [item]) = seen (topicsOf items) item.topic := foldl_append

/-- So does a run. -/
theorem ledger_of_runs (maxWorkers : Nat) (hpos : 1 ≤ maxWorkers) (events : List (Event α))
    (hruns : Runs (Takes step) (initial maxWorkers) events s) :
    Ledger maxWorkers (topicsOf (submitted events)) (submitted events) s := by
  have hstart : Ledger maxWorkers [] (submitted []) (initial maxWorkers : Executor α) :=
    ⟨rfl, rfl, rfl, by simp [initial], by simp [initial, Dict.get?_empty], by simp [submitted],
      by simp [initial], by simp [initial]⟩
  refine hruns.history
    (P := fun events s => Ledger maxWorkers (topicsOf (submitted events)) (submitted events) s)
    (fun events s event t h hstep => ?_) [] hstart
  have hlast : submitted (events ++ [event]) = submitted events ++ submitted [event] :=
    filterMap_append
  rw [hlast]
  cases event with
  | submit item =>
    obtain ⟨t', heq, ht'⟩ := h.submit hpos item
    rw [Takes, step, heq] at hstep
    cases hstep
    have hone : submitted [Event.submit item] = [item] := rfl
    rw [hone, topicsOf_append]
    exact ht'
  | get n =>
    obtain ⟨w', hw', rfl⟩ := map_eq_some_iff.mp hstep
    obtain ⟨w, hw, hget⟩ := bind_eq_some_iff.mp hw'
    exact (append_nil _).symm ▸ h.set n w w' hw (Worker.items_get hget)
      ((h.kept w (mem_of_getElem? hw)).get hget)
  | run n =>
    obtain ⟨w', hw', rfl⟩ := map_eq_some_iff.mp hstep
    obtain ⟨w, hw, hrun⟩ := bind_eq_some_iff.mp hw'
    exact (append_nil _).symm ▸ h.set n w w' hw (Worker.items_run hrun)
      ((h.kept w (mem_of_getElem? hw)).run hrun)

theorem ofTopic_append (topic : String) (items items' : List (WorkItem α)) :
    ofTopic topic (items ++ items') = ofTopic topic items ++ ofTopic topic items' :=
  filter_append ..

/-- The tasks of a topic are among those of its worker. -/
theorem ofTopic_filter (maxWorkers : Nat) (topics : List String) (topic : String)
    (items : List (WorkItem α)) : ofTopic topic (items.filter fun item =>
      decide (workerOf maxWorkers topics item.topic = workerOf maxWorkers topics topic)) =
        ofTopic topic items := by
  rw [ofTopic, List.filter_filter]
  refine filter_congr fun item _ => ?_
  by_cases heq : item.topic = topic
  · simp [heq]
  · simp [heq]

/-- Where a worker has run contained tasks, and then one that ended it, a topic is undisturbed
    just if none of its tasks is left. -/
theorem undisturbed_iff (topic : String) {front rest : List (WorkItem α)} {last : WorkItem α}
    (hitems : (items.filter fun item => decide (workerOf maxWorkers (topicsOf items) item.topic =
      workerOf maxWorkers (topicsOf items) topic)) = front ++ last :: rest)
    (hfront : ∀ item ∈ front, item.Contained) (hlast : ¬last.Contained) :
    Undisturbed maxWorkers items topic ↔ ofTopic topic rest = [] := by
  constructor
  · intro h
    obtain ⟨before, tail, rfl, -, htail⟩ := filter_eq_append_iff.mp hitems
    obtain ⟨skipped, after, rfl, -, hworker, rfl⟩ := filter_eq_cons_iff.mp htail
    rw [ofTopic_filter]
    exact h (before ++ skipped) last after (append_assoc ..).symm (of_decide_eq_true hworker) hlast
  · intro hrest before item after heq hworker hcontained
    rw [← ofTopic_filter maxWorkers (topicsOf items)]
    rw [heq, filter_append, filter_cons, if_pos (by rw [← heq]; exact decide_eq_true hworker),
      ← heq] at hitems
    generalize (before.filter _) = before', (after.filter _) = after' at hitems ⊢
    -- the task is not in front of the last one, so what is behind it is left
    rcases append_eq_append_iff.mp hitems with ⟨mid, hmid, htail⟩ | ⟨mid, hmid, htail⟩
    · cases mid with
      | nil =>
        cases htail
        exact hrest
      | cons =>
        cases htail
        exact absurd (hfront item (hmid ▸ mem_append_right _ mem_cons_self)) hcontained
    · cases mid with
      | nil =>
        cases htail
        exact hrest
      | cons _ mid =>
        cases htail
        have hboth : ofTopic topic (mid ++ item :: after') =
            ofTopic topic (mid ++ [item]) ++ ofTopic topic after' := by
          rw [← ofTopic_append, append_assoc, singleton_append]
        exact (append_eq_nil_iff.mp (hboth.symm.trans hrest)).2

/-- Where no worker can go on, one has run all its tasks, or has ended. -/
theorem quiet_of_stuck {w : Worker α} {i : Nat} (hw : s.workers[i]? = some w)
    (hstuck : s.step (.get i) = none ∧ s.step (.run i) = none) :
    w.running = none ∧ (w.ended = false → w.workQueue = []) := by
  obtain ⟨hget, hrun⟩ := hstuck
  simp only [step, hw, bind_some, map_eq_none_iff] at hget hrun
  have hrunning : w.running = none := map_eq_none_iff.mp hrun
  refine ⟨hrunning, fun hended => ?_⟩
  cases hqueue : w.workQueue with
  | nil => rfl
  | cons => simp [Worker.get, hended, hrunning, hqueue] at hget

/-- A topic has run to its end just if it is undisturbed. -/
theorem finished_iff (h : Ledger maxWorkers (topicsOf items) items s) (topic : String)
    {w : Worker α} (hw : s.workers[workerOf maxWorkers (topicsOf items) topic]? = some w)
    (hrunning : w.running = none) (hqueue : w.ended = false → w.workQueue = []) :
    ofTopic topic w.finished = ofTopic topic items ↔ Undisturbed maxWorkers items topic := by
  have hall := h.workers _ _ hw
  have hkept := h.kept w (mem_of_getElem? hw)
  rw [← ofTopic_filter maxWorkers (topicsOf items) topic items, ← hall]
  cases hended : w.ended with
  | false =>
    have hfinished : w.items = w.finished := by
      rw [Worker.items, hrunning, hqueue hended, toList_none, append_nil, append_nil]
    rw [hfinished]
    refine iff_of_true rfl fun before item after heq hworker hcontained => ?_
    have hmem : item ∈ w.items := by
      rw [hall, mem_filter, heq]
      exact ⟨mem_append_right _ mem_cons_self, by rw [← heq]; exact decide_eq_true hworker⟩
    exact absurd (hkept.contained hended item (hfinished ▸ hmem)) hcontained
  | true =>
    obtain ⟨-, front, last, hfinished, hfront, hlast⟩ := hkept.last hended
    have hsplit : w.items = w.finished ++ w.workQueue := by
      rw [Worker.items, hrunning, toList_none, append_nil]
    have hlist : w.items = front ++ last :: w.workQueue := by
      rw [hsplit, hfinished, append_assoc, singleton_append]
    rw [undisturbed_iff topic (hall.symm.trans hlist) hfront hlast, hsplit, ofTopic_append,
      self_eq_append_right]

end

/-- Every submission succeeds. The tasks of a topic are those of one worker, which runs them in
    the order of their submission. When no worker can go on, it has run them all just if no task
    before one of them ended it. -/
theorem tasks_run_in_order (maxWorkers : Nat) (hpos : 1 ≤ maxWorkers) (events : List (Event α))
    (s : Executor α) (hruns : Runs (Takes step) (initial maxWorkers) events s) :
    (∀ item, ∃ t, s.submit item = .ok t) ∧
    ∀ topic, ofTopic topic (submitted events) ≠ [] → ∃ i w,
      i = workerOf maxWorkers (topicsOf (submitted events)) topic ∧
      s.pool.get? topic = some i ∧ s.workers[i]? = some w ∧
      ofTopic topic (submitted events) = ofTopic topic w.finished ++
        ofTopic topic w.running.toList ++ ofTopic topic w.workQueue ∧
      (∀ j w', s.workers[j]? = some w' → j ≠ i → ofTopic topic w'.items = []) ∧
      ((∀ n, s.step (.get n) = none ∧ s.step (.run n) = none) →
        (ofTopic topic w.finished = ofTopic topic (submitted events) ↔
          Undisturbed maxWorkers (submitted events) topic)) := by
  have h := ledger_of_runs _ hpos _ hruns
  refine ⟨fun item => (h.submit hpos item).imp fun t ht => ht.1, fun topic htopic => ?_⟩
  obtain ⟨item, hitem⟩ := exists_mem_of_ne_nil _ htopic
  rw [ofTopic, mem_filter, decide_eq_true_iff] at hitem
  have hknown := h.known _ hitem.1
  rw [hitem.2] at hknown
  have hw := getElem?_eq_getElem (h.workerOf_lt hpos hknown)
  refine ⟨_, _, rfl, (h.pool topic).trans (if_pos hknown), hw, ?_, fun j w' hw' hne => ?_,
    fun hstuck => ?_⟩
  · rw [← ofTopic_append, ← ofTopic_append]
    exact (ofTopic_filter maxWorkers _ topic _).symm.trans (congrArg _ (h.workers _ _ hw).symm)
  · rw [h.workers j w' hw', ofTopic, List.filter_filter, List.filter_eq_nil_iff]
    intro item _ hitem
    simp only [Bool.and_eq_true, decide_eq_true_eq] at hitem
    exact hne (hitem.2.symm.trans (congrArg _ hitem.1))
  · obtain ⟨hrunning, hqueue⟩ := quiet_of_stuck hw (hstuck _)
    exact finished_iff h topic hw hrunning hqueue

def exampleEvents : List (Event Nat) :=
  [.submit ⟨"a", "publish", 1, some .exception⟩, .submit ⟨"b", "publish", 2, none⟩, .get 0,
    .submit ⟨"a", "publish", 3, none⟩, .run 0, .get 0, .run 0]

theorem order_of_exampleEvents : ∃ s, Runs (Takes step) (initial 1) exampleEvents s ∧
    ∃ i w, s.pool.get? "a" = some i ∧ s.workers[i]? = some w ∧
      ofTopic "a" (submitted exampleEvents) = ofTopic "a" w.finished ++
        ofTopic "a" w.running.toList ++ ofTopic "a" w.workQueue := by
  have hrun : (takeAll step (initial 1) exampleEvents).isSome := by decide +kernel
  obtain ⟨s, hs⟩ := isSome_iff_exists.mp hrun
  have hruns := Runs.of_takeAll _ _ _ hs
  obtain ⟨i, w, -, hi, hw, horder, -⟩ :=
    (tasks_run_in_order 1 (Nat.le_refl 1) _ s hruns).2 "a"
      (by simp [exampleEvents, submitted, ofTopic])
  exact ⟨s, hruns, i, w, hi, hw, horder⟩

/-- A task that exits, and one more of its topic. -/
def exitEvents : List (Event Nat) :=
  [.submit ⟨"a", "publish", 1, some .baseException⟩, .submit ⟨"a", "publish", 2, none⟩, .get 0,
    .run 0]

/-- The first task ends the worker. The second one is never taken. -/
theorem second_task_never_runs : ∃ s, Runs (Takes step) (initial 1) exitEvents s ∧
    (∀ n, s.step (.get n) = none ∧ s.step (.run n) = none) ∧
    ∃ w, s.workers = [w] ∧
      (ofTopic "a" w.finished).map WorkItem.args = [1] ∧
      (ofTopic "a" (submitted exitEvents)).map WorkItem.args = [1, 2] := by
  refine ⟨_, Runs.of_takeAll exitEvents _ _ rfl, fun n => ?_, _, rfl, rfl, rfl⟩
  cases n <;> exact ⟨rfl, rfl⟩

/-! ### The topics of the workers -/

def topics (s : Executor α) (i : Nat) : Nat := s.pool.entries.countP fun e => decide (e.2 = i)

/-- The indices go round: every worker has as many topics as it had turns. -/
def Balanced (maxWorkers : Nat) (s : Executor α) : Prop :=
  s.maxWorkers = maxWorkers ∧ ∀ i, s.topics i = Nat.count (fun k => k % maxWorkers = i) s.cycle

theorem Balanced.getWorkQueue {maxWorkers : Nat} {s t : Executor α} {topic : String} {i : Nat}
    (h : Balanced maxWorkers s) (hget : s.getWorkQueue topic = .ok (i, t)) :
    Balanced maxWorkers t := by
  rw [Executor.getWorkQueue] at hget
  cases hpool : s.pool.get? topic with
  | some =>
    rw [hpool] at hget
    cases hget
    exact h
  | none =>
    rw [hpool] at hget
    dsimp only at hget
    -- The turn passes on, whether or not a worker is added.
    generalize (if s.workers.length < s.maxWorkers then s.workers ++ [.new]
      else s.workers) = workers at hget
    split at hget
    · cases hget
      refine ⟨h.1, fun j => ?_⟩
      have hkeys : topic ∉ s.pool.keys := (Dict.get?_eq_none_iff _ _).mp hpool
      rw [topics, Dict.entries_set_new _ _ _ hkeys, countP_append, countP_singleton, Nat.count_succ,
        ← h.2, topics, h.1]
      simp
    · cases hget

/-- The numbers of topics of two workers differ by one at most. -/
theorem topics_balanced (maxWorkers : Nat) (events : List (Event α)) (s : Executor α)
    (hruns : Runs (Takes step) (initial maxWorkers) events s) (i j : Nat) (hi : i < maxWorkers)
    (hj : j < maxWorkers) : s.topics i ≤ s.topics j + 1 := by
  have hstart : Balanced maxWorkers (initial maxWorkers : Executor α) :=
    ⟨rfl, fun i => by simp [topics, initial, Dict.empty]⟩
  have h := hruns.invariant (P := Balanced maxWorkers) (fun s event t h hstep => ?_) hstart
  · -- A worker had a turn in every full round, and one more if the last round came to it.
    have hcount {i : Nat} (hi : i < maxWorkers) : s.topics i =
        s.cycle / maxWorkers + if i < s.cycle % maxWorkers then 1 else 0 := by
      have hturn := Nat.count_modEq_card s.cycle (by omega : 0 < maxWorkers) i
      rw [Nat.mod_eq_of_lt hi] at hturn
      rw [h.2, ← hturn]
      simp only [Nat.ModEq, Nat.mod_eq_of_lt hi]
    rw [hcount hi, hcount hj]
    split <;> split <;> omega
  · cases event with
    | submit item =>
      rw [Takes, step, submit] at hstep
      cases hget : s.getWorkQueue item.topic with
      | error => simp [hget, Except.bind, Except.toOption] at hstep
      | ok r =>
        simp only [hget, Except.bind] at hstep
        split at hstep
        · cases hstep
        · cases hstep
          exact (h.getWorkQueue hget : Balanced maxWorkers r.2)
    | get n =>
      obtain ⟨w', -, rfl⟩ := map_eq_some_iff.mp hstep
      exact h
    | run n =>
      obtain ⟨w', -, rfl⟩ := map_eq_some_iff.mp hstep
      exact h

theorem topics_balanced_of_exampleEvents : ∃ s,
    Runs (Takes step) (initial 2) exampleEvents s ∧ s.topics 0 ≤ s.topics 1 + 1 := by
  have hrun : (takeAll step (initial 2) exampleEvents).isSome := by decide +kernel
  obtain ⟨s, hs⟩ := isSome_iff_exists.mp hrun
  have hruns := Runs.of_takeAll _ _ _ hs
  exact ⟨s, hruns, topics_balanced 2 _ s hruns 0 1 (by decide) (by decide)⟩

end Executor

end LocalEmu.Sns
