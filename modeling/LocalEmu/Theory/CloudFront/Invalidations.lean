import Mathlib.Tactic.Abel
import LocalEmu.Core.CloudFront.InvalidationQueue
import LocalEmu.Theory.CloudFront.Transparency

/-!
# Invalidations Are Final

An entry of the queue is in the heap, or a worker has it, or it is completed. It is in one
of these places only, and it passes a purge on the way, so it is purged once and completed
once, in this order; and the workers can always go on until everything is completed
that is due.

What is left in the cache after a purge was fetched after the invalidation was created. It
stays like that, unless a request comes along that had fetched its answer before, and
stores it now. Nothing in the code prevents this.
-/

namespace LocalEmu.CloudFront

open List Option

/-! ### Labels -/

def Label.pushed? : Label → Option PendingCompletion
  | pushed entry => some entry
  | _ => none

def Label.purged? : Label → Option PendingCompletion
  | purged entry => some entry
  | _ => none

def Label.completed? : Label → Option PendingCompletion
  | completed entry => some entry
  | _ => none

variable (labels : List Label)

/-- The entries that were pushed. -/
def pushes : List PendingCompletion := labels.filterMap Label.pushed?

/-- The entries that the cache was purged for. -/
def purges : List PendingCompletion := labels.filterMap Label.purged?

/-- The entries that were set to completed. -/
def completes : List PendingCompletion := labels.filterMap Label.completed?

def Label.IsDrain : Label → Prop
  | popped _ => True
  | purged _ => True
  | completed _ => True
  | _ => False

variable {entry : PendingCompletion}

theorem mem_purges {labels : List Label} :
    entry ∈ purges labels ↔ .purged entry ∈ labels := by
  have hpurged (label : Label) : label.purged? = some entry ↔ label = .purged entry := by
    cases label <;> simp [Label.purged?]
  simp only [purges, mem_filterMap, hpurged, exists_eq_right]

theorem mem_completes {labels : List Label} :
    entry ∈ completes labels ↔ .completed entry ∈ labels := by
  have hcompleted (label : Label) : label.completed? = some entry ↔ label = .completed entry := by
    cases label <;> simp [Label.completed?]
  simp only [completes, mem_filterMap, hcompleted, exists_eq_right]

/-! ### The places of the entries -/

variable {distributions : Text → Option Distribution}

variable (drains : Dict Nat Drain)

def held : Multiset PendingCompletion :=
  (drains.values : Multiset Drain).map Drain.entry

def heldPurged : Multiset PendingCompletion :=
  ((drains.values : Multiset Drain).filter fun d => d.purged = true).map Drain.entry

/-- Every entry that was pushed is in the heap, or a worker has it, or it is completed. It is
    purged for before it is completed. -/
structure Accounts (labels : List Label) (s : System) : Prop where
  places : (s.queue.heap : Multiset PendingCompletion) + held s.drains + completes labels =
    pushes labels
  purged : (purges labels : Multiset PendingCompletion) = heldPurged s.drains + completes labels
  heap : Heapq.IsHeap PendingCompletion.order s.queue.heap
  seqs : ((pushes labels).map PendingCompletion.seq).Nodup
  bound : ∀ entry ∈ pushes labels, entry.seq ≤ s.queue.seq
  created : ∀ entry ∈ pushes labels, .created entry.invalidation ∈ labels
  creations : ∀ id invalidation stage, s.creations.get? id = some (invalidation, stage) →
    .created invalidation ∈ labels

theorem held_of_get? {drains : Dict Nat Drain} {worker : Nat} {d : Drain}
    (h : drains.get? worker = some d) : held drains = d.entry ::ₘ held (drains.erase worker) := by
  rw [held, drains.coe_values_of_get? worker d h, Multiset.map_cons, held]

theorem held_set (worker : Nat) (d : Drain) :
    held (drains.set worker d) = d.entry ::ₘ held (drains.erase worker) := by
  rw [held, Dict.coe_values_set, Multiset.map_cons, held]

theorem values_erase_of_none {drains : Dict Nat Drain} {worker : Nat}
    (h : drains.get? worker = none) : (drains.erase worker).values = drains.values := by
  rw [Dict.values, drains.erase_of_get?_none worker h, Dict.values]

theorem map_filter_purged (d : Drain) (rest : Multiset Drain) :
    ((d ::ₘ rest).filter fun d => d.purged = true).map Drain.entry =
      if d.purged = true then d.entry ::ₘ (rest.filter fun d => d.purged = true).map Drain.entry
      else (rest.filter fun d => d.purged = true).map Drain.entry := by
  by_cases hd : d.purged = true
  · rw [if_pos hd, Multiset.filter_cons_of_pos (p := fun d : Drain => d.purged = true) _ hd,
      Multiset.map_cons]
  · rw [if_neg hd, Multiset.filter_cons_of_neg (p := fun d : Drain => d.purged = true) _ hd]

theorem heldPurged_set (worker : Nat) (d : Drain) : heldPurged (drains.set worker d) =
      if d.purged = true then d.entry ::ₘ heldPurged (drains.erase worker)
      else heldPurged (drains.erase worker) := by
  rw [heldPurged, Dict.coe_values_set, map_filter_purged, heldPurged]

theorem heldPurged_of_get? {drains : Dict Nat Drain} {worker : Nat} {d : Drain}
    (h : drains.get? worker = some d) : heldPurged drains =
      if d.purged = true then d.entry ::ₘ heldPurged (drains.erase worker)
      else heldPurged (drains.erase worker) := by
  rw [heldPurged, drains.coe_values_of_get? worker d h, map_filter_purged, heldPurged]

theorem filterMap_concat {β : Type} (f : Label → Option β) (labels : List Label) (label : Label) :
    (labels ++ [label]).filterMap f = labels.filterMap f ++ (f label).toList := by
  rw [filterMap_append]
  cases h : f label with
  | none => rw [filterMap_cons_none h, filterMap_nil, toList_none]
  | some => rw [filterMap_cons_some h, filterMap_nil, toList_some]

variable (labels : List Label) (label : Label)

theorem pushes_concat : pushes (labels ++ [label]) = pushes labels ++ label.pushed?.toList :=
  filterMap_concat _ _ _

theorem purges_concat : purges (labels ++ [label]) = purges labels ++ label.purged?.toList :=
  filterMap_concat _ _ _

theorem completes_concat :
    completes (labels ++ [label]) = completes labels ++ label.completed?.toList :=
  filterMap_concat _ _ _

theorem mem_concat {label label' : Label} {labels : List Label} (h : label ∈ labels) :
    label ∈ labels ++ [label'] := mem_append.mpr (.inl h)

theorem Accounts.of_places {labels : List Label} {s t : System} {label : Label}
    (h : Accounts labels s) (hpushed : label.pushed? = none) (hseq : t.queue.seq = s.queue.seq)
    (hplaces : (t.queue.heap : Multiset PendingCompletion) + held t.drains +
      Multiset.ofList (completes labels ++ label.completed?.toList) = pushes labels)
    (hpurged : Multiset.ofList (purges labels ++ label.purged?.toList) =
      heldPurged t.drains + Multiset.ofList (completes labels ++ label.completed?.toList))
    (hheap : Heapq.IsHeap PendingCompletion.order t.queue.heap)
    (hcreations : ∀ id invalidation stage, t.creations.get? id = some (invalidation, stage) →
      .created invalidation ∈ labels ++ [label]) : Accounts (labels ++ [label]) t := by
  have hpushes : pushes (labels ++ [label]) = pushes labels := by
    rw [pushes_concat, hpushed, toList_none, append_nil]
  constructor
  · rw [hpushes, completes_concat]
    exact hplaces
  · rw [purges_concat, completes_concat]
    exact hpurged
  · exact hheap
  · rw [hpushes]
    exact h.seqs
  · rw [hpushes, hseq]
    exact h.bound
  · rw [hpushes]
    exact fun entry hentry => mem_concat (h.created _ hentry)
  · exact hcreations

theorem Accounts.frame {labels : List Label} {s t : System} {label : Label}
    (h : Accounts labels s) (hqueue : t.queue = s.queue) (hdrains : t.drains = s.drains)
    (hpushed : label.pushed? = none) (hpurged : label.purged? = none)
    (hcompleted : label.completed? = none)
    (hcreations : ∀ id invalidation stage, t.creations.get? id = some (invalidation, stage) →
      .created invalidation ∈ labels ++ [label]) : Accounts (labels ++ [label]) t := by
  refine h.of_places hpushed (by rw [hqueue]) ?_ ?_ (by rw [hqueue]; exact h.heap) hcreations
  · rw [hqueue, hdrains, hcompleted, toList_none, append_nil]
    exact h.places
  · rw [hdrains, hpurged, hcompleted, toList_none, append_nil, append_nil]
    exact h.purged

theorem popIfDue_eq_some {queue queue' : InvalidationQueue} {now : Int}
    (h : queue.popIfDue now = some (entry, queue')) : ∃ heap,
      Heapq.heappop PendingCompletion.order queue.heap = some (entry, heap) ∧
        queue' = { queue with heap := heap } := by
  unfold InvalidationQueue.popIfDue at h
  split at h
  · cases h
  · split at h
    · cases h
    · rcases map_eq_some_iff.mp h with ⟨popped, hpop, hsame⟩
      cases hsame
      exact ⟨popped.2, hpop, rfl⟩

/-- Every step keeps the accounts. -/
theorem accounts_step {labels : List Label} {s t : System} {label : Label}
    (hstep : Step distributions s label t) (h : Accounts labels s) :
    Accounts (labels ++ [label]) t := by
  have hold : ∀ id invalidation stage, s.creations.get? id = some (invalidation, stage) →
      .created invalidation ∈ labels ++ [label] :=
    fun id invalidation stage hget => mem_concat (h.creations id _ _ hget)
  -- A call that goes on is about the same invalidation.
  have hset (id : Nat) (invalidation : Invalidation) (stage : Stage)
      (hcreated : .created invalidation ∈ labels ++ [label]) :
      ∀ id' invalidation' stage',
        (s.creations.set id (invalidation, stage)).get? id' = some (invalidation', stage') →
          .created invalidation' ∈ labels ++ [label] := by
    intro id' invalidation' stage' hget
    rcases Dict.get?_set_eq_some _ _ _ hget with ⟨-, hvalue⟩ | ⟨-, hget⟩
    · cases hvalue
      exact hcreated
    · exact hold id' _ _ hget
  cases hstep with
  | originChanges content | refused request status response hroute
  | hit request status now routed entry hroute hfound
  | missed request status now routed hroute hfound | fetched id request routed hget
  | stored => exact h.frame rfl rfl rfl rfl rfl hold
  | created id =>
    exact h.frame rfl rfl rfl rfl rfl (hset id _ .created (mem_append.mpr (.inr mem_cons_self)))
  | marked id invalidation hget =>
    exact h.frame rfl rfl rfl rfl rfl (hset id _ .marked (hold _ _ _ hget))
  | remarked =>
    refine h.frame rfl rfl rfl rfl rfl fun id' invalidation' stage' hget' => ?_
    rw [Dict.get?_erase] at hget'
    split at hget'
    · cases hget'
    · exact hold _ _ _ hget'
  | pushed id invalidation now delaySeconds hget =>
    -- The new entry goes into the queue, and its number is above all that were drawn.
    have hpushes : pushes (labels ++ [.pushed (s.queue.newEntry invalidation now delaySeconds)]) =
        pushes labels ++ [s.queue.newEntry invalidation now delaySeconds] :=
      pushes_concat _ _
    have hpurges : purges (labels ++ [.pushed (s.queue.newEntry invalidation now delaySeconds)]) =
        purges labels := by
      rw [purges_concat]
      exact append_nil _
    have hcompletes :
        completes (labels ++ [.pushed (s.queue.newEntry invalidation now delaySeconds)]) =
          completes labels := by
      rw [completes_concat]
      exact append_nil _
    constructor
    · have hheap := Multiset.coe_eq_coe.mpr (Heapq.heappush_perm PendingCompletion.order
        s.queue.heap (s.queue.newEntry invalidation now delaySeconds))
      dsimp only [InvalidationQueue.push]
      rw [hheap, hpushes, hcompletes, ← Multiset.cons_coe, ← Multiset.coe_add, ← h.places,
        Multiset.coe_singleton, Multiset.cons_add, Multiset.cons_add, ← Multiset.singleton_add,
        add_comm]
    · rw [hpurges, hcompletes]
      exact h.purged
    · exact Heapq.isHeap_heappush _ _ _ h.heap
    · rw [hpushes, map_append, nodup_append]
      refine ⟨h.seqs, nodup_singleton _, fun seq hseq seq' hseq' hsame => ?_⟩
      rcases mem_map.mp hseq with ⟨entry, hentry, rfl⟩
      have hbound := h.bound _ hentry
      rw [mem_singleton.mp hseq'] at hsame
      dsimp only [InvalidationQueue.newEntry] at hsame
      omega
    · intro entry hentry
      rw [hpushes] at hentry
      dsimp only [InvalidationQueue.push]
      rcases mem_append.mp hentry with hentry | hentry
      · have hbound := h.bound entry hentry
        omega
      · rw [mem_singleton.mp hentry]
        exact Nat.le_refl _
    · intro entry hentry
      rw [hpushes] at hentry
      rcases mem_append.mp hentry with hentry | hentry
      · exact mem_concat (h.created _ hentry)
      · rw [mem_singleton.mp hentry]
        exact hold _ _ _ hget
    · exact hset id _ .pushed (hold _ _ _ hget)
  | popped worker now entry queue hworker hpop =>
    -- The entry goes from the heap to the worker, which had none.
    rcases popIfDue_eq_some hpop with ⟨heap, hheappop, rfl⟩
    have hvalues := values_erase_of_none hworker
    refine h.of_places rfl rfl ?_ ?_ (Heapq.isHeap_heappop _ _ _ _ h.heap hheappop) hold
    · have hheap := Multiset.coe_eq_coe.mpr
        (Heapq.heappop_perm _ _ _ _ hheappop)
      have hheld : held (s.drains.erase worker) = held s.drains := by rw [held, hvalues, held]
      dsimp only [Label.completed?, toList_none]
      rw [append_nil, held_set, hheld, ← h.places, hheap, ← Multiset.cons_coe,
        Multiset.add_cons, Multiset.cons_add, Multiset.cons_add, Multiset.cons_add]
    · have hheld : heldPurged (s.drains.erase worker) = heldPurged s.drains := by
        rw [heldPurged, hvalues, heldPurged]
      dsimp only [Label.completed?, Label.purged?, toList_none]
      rw [append_nil, append_nil, heldPurged_set, hheld]
      exact h.purged
  | purged worker entry hget =>
    -- The entry stays with the worker, and is purged from now on.
    refine h.of_places rfl rfl ?_ ?_ h.heap hold
    · dsimp only [Label.completed?, toList_none]
      rw [append_nil, held_set, ← held_of_get? hget]
      exact h.places
    · have hpurged := h.purged
      rw [heldPurged_of_get? hget, if_neg (by simp)] at hpurged
      dsimp only [Label.completed?, Label.purged?, toList_none, toList_some]
      rw [append_nil, heldPurged_set, if_pos rfl, ← Multiset.coe_add, hpurged,
        Multiset.coe_singleton, Multiset.cons_add, ← Multiset.singleton_add, add_comm]
  | completed worker entry hget =>
    -- The entry leaves the worker that has purged it.
    refine h.of_places rfl rfl ?_ ?_ h.heap hold
    · dsimp only [Label.completed?, toList_some]
      rw [← h.places, held_of_get? hget, ← Multiset.coe_add, ← Multiset.singleton_add]
      abel
    · have hpurged := h.purged
      rw [heldPurged_of_get? hget, if_pos rfl] at hpurged
      dsimp only [Label.completed?, Label.purged?, toList_none, toList_some]
      rw [append_nil, hpurged, ← Multiset.coe_add, Multiset.coe_singleton, ← Multiset.singleton_add]
      abel

theorem accounts_initial (content : Content) (byteCap : Nat) :
    Accounts [] (.initial content byteCap) :=
  ⟨rfl, rfl, Heapq.isHeap_nil _, nodup_nil, nofun, nofun, fun _ _ _ h => by cases h⟩

variable {s : System}

/-- Every entry of the queue is in one place. -/
theorem accounts_of_runs {content : Content} {byteCap : Nat} {labels : List Label}
    (hrun : Runs (Step distributions) (.initial content byteCap) labels s) : Accounts labels s :=
  Runs.history (P := Accounts) (fun _ _ _ _ hs hstep => accounts_step hstep hs) hrun []
    (accounts_initial _ _)

/-! ### Progress -/

theorem drains_empty (s : System) : ∃ more t, Runs (Step distributions) s more t ∧
    (∀ label ∈ more, label.IsDrain) ∧ t.queue = s.queue ∧ t.drains.keys = [] := by
  generalize hlength : s.drains.keys.length = length
  induction length using Nat.strong_induction_on generalizing s with
  | _ length ih =>
    cases hkeys : s.drains.keys with
    | nil => exact ⟨[], s, .nil s, nofun, rfl, hkeys⟩
    | cons worker =>
      have hmem : worker ∈ s.drains.keys := hkeys ▸ mem_cons_self
      -- The last step of the worker takes it out of the drains.
      have hlast (u : System) (entry : PendingCompletion) (hqueue : u.queue = s.queue)
          (hother : u.drains.keys = s.drains.keys)
          (hget : u.drains.get? worker = some ⟨entry, true⟩) :
          ∃ more t, Runs (Step distributions) u more t ∧ (∀ label ∈ more, label.IsDrain) ∧
            t.queue = s.queue ∧ t.drains.keys = [] := by
        have hless : (u.drains.erase worker).keys.length < length := by
          rw [Dict.keys_erase, hother, ← hlength]
          exact length_filter_lt_length_iff_exists.mpr ⟨worker, hmem, by simp⟩
        rcases ih _ hless { u with
          drains := u.drains.erase worker
          statuses := setInvalidationStatus u.statuses entry.invalidation .completed }
          rfl with ⟨more, t, hrun, hdrain, hsame, hempty⟩
        refine ⟨.completed entry :: more, t, .cons _ _ _ _ _ (.completed u worker entry hget)
          hrun, fun label hlabel => ?_, hsame.trans hqueue, hempty⟩
        rcases mem_cons.mp hlabel with rfl | hlabel
        · exact trivial
        · exact hdrain _ hlabel
      cases hget : s.drains.get? worker with
      | none => exact absurd hmem ((Dict.get?_eq_none_iff _ _).mp hget)
      | some d =>
        rcases d with ⟨entry, purged⟩
        cases purged with
        | true => exact hlast s _ rfl rfl hget
        | false =>
          rcases hlast { s with
            cache := purgeCacheEntries s.cache entry.invalidation
            drains := s.drains.set worker ⟨entry, true⟩ } _ rfl
            ((Dict.keys_set _ _ _).trans (if_pos hmem))
            ((Dict.get?_set _ _ _ _).trans (if_pos rfl)) with
            ⟨more, t, hrun, hdrain, hsame, hempty⟩
          refine ⟨.purged entry :: more, t, .cons _ _ _ _ _ (.purged s worker entry hget)
            hrun, fun label hlabel => ?_, hsame, hempty⟩
          rcases mem_cons.mp hlabel with rfl | hlabel
          · exact trivial
          · exact hdrain _ hlabel

theorem popIfDue_eq_none {queue : InvalidationQueue} {now : Int}
    (hheap : Heapq.IsHeap PendingCompletion.order queue.heap) (h : queue.popIfDue now = none) :
    ∀ entry ∈ queue.heap, now < entry.targetTime := by
  intro entry hentry
  unfold InvalidationQueue.popIfDue at h
  cases hqueue : queue.heap with
  | nil =>
    rw [hqueue] at hentry
    cases hentry
  | cons root =>
    rw [hqueue] at h hheap hentry
    dsimp only at h
    by_cases hdue : now < root.targetTime
    · have hle := Heapq.isHeap_root_le _ _ _ _ hheap rfl hentry
      rw [PendingCompletion.order, PendingCompletion.order, Prod.Lex.toLex_le_toLex] at hle
      omega
    · rw [if_neg hdue, map_eq_none_iff, Heapq.heappop_eq_none] at h
      cases h

/-- The workers can go on until nothing is left that is due. -/
theorem drains_finish (now : Int) (s : System)
    (hheap : Heapq.IsHeap PendingCompletion.order s.queue.heap) :
    ∃ more t, Runs (Step distributions) s more t ∧ (∀ label ∈ more, label.IsDrain) ∧
      t.drains.keys = [] ∧ ∀ entry ∈ t.queue.heap, now < entry.targetTime := by
  generalize hlength : s.queue.heap.length = length
  induction length using Nat.strong_induction_on generalizing s with
  | _ length ih =>
    rcases drains_empty s with ⟨more, t, hrun, hdrain, hqueue, hempty⟩
    cases hpop : t.queue.popIfDue now with
    | none => exact ⟨more, t, hrun, hdrain, hempty, popIfDue_eq_none (hqueue ▸ hheap) hpop⟩
    | some popped =>
      rcases popped with ⟨entry, queue⟩
      rcases popIfDue_eq_some hpop with ⟨heap, hheappop, rfl⟩
      rw [hqueue] at hheappop
      have hless : heap.length < length := by
        have hlengths := Heapq.heappop_length _ _ _ _ hheappop
        omega
      have hworker : t.drains.get? 0 = none := by
        rw [Dict.get?_eq_none_iff, hempty]
        exact not_mem_nil
      rcases ih _ hless { t with
        queue := { t.queue with heap := heap }
        drains := t.drains.set 0 ⟨entry, false⟩ }
        (Heapq.isHeap_heappop _ _ _ _ hheap hheappop) rfl with
        ⟨more', u, hrun', hdrain', hempty', hdue⟩
      refine ⟨more ++ .popped entry :: more', u, hrun.append
        (.cons _ _ _ _ _ (.popped t 0 now entry _ hworker hpop) hrun'),
        fun label hlabel => ?_, hempty', hdue⟩
      rcases mem_append.mp hlabel with hlabel | hlabel
      · exact hdrain _ hlabel
      · rcases mem_cons.mp hlabel with rfl | hlabel
        · exact trivial
        · exact hdrain' _ hlabel

/-! ### Paths -/

theorem collapseSlashes_cons (text : Text) :
    collapseSlashes ('/' :: text) = collapseSlashes ('/' :: lstripSlash text) := by
  induction text with
  | nil => rfl
  | cons c rest ih =>
    by_cases hc : c = '/'
    · subst hc
      rw [collapseSlashes, ih]
      rfl
    · rw [lstripSlash, dropWhile_cons_of_neg (by simpa using hc)]

theorem normalizedUriForCache_lstripSlash (request : Request) :
    normalizedUriForCache (lstripSlash request.uri) = normalizedUriForCache request.uri := by
  have hslash (path : Text) :
      normalizedUriForCache (lstripSlash ('/' :: path)) = normalizedUriForCache ('/' :: path) := by
    have hstrip : lstripSlash ('/' :: path) = lstripSlash path := rfl
    have huri : normalizedUriForCache ('/' :: path) = collapseSlashes ('/' :: path) := by
      rw [normalizedUriForCache, if_neg (cons_ne_nil _ _), if_pos (by simp)]
    rw [hstrip, huri, collapseSlashes_cons]
    unfold normalizedUriForCache
    cases hpath : lstripSlash path with
    | nil => rfl
    | cons c rest =>
      have hc : c ≠ '/' := by
        have hhead := head?_dropWhile_not (fun c => c == '/') path
        rw [show path.dropWhile (fun c => c == '/') = c :: rest from hpath] at hhead
        simpa using hhead
      rw [if_neg (cons_ne_nil _ _), if_neg]
      simpa [isPrefixOf] using Ne.symm hc
  unfold Request.uri
  split
  · exact hslash []
  · exact hslash _

/-! ### What is left after a purge -/

variable {cache : DistributionCache CacheKey} (invalidation : Invalidation)

/-- An invalidation is about a path of a distribution. -/
def Covers (distributionId path : Text) : Prop :=
  invalidation.distributionId = distributionId ∧ Invalidates invalidation.paths path

/-- An invalidation of a distribution with a name, by paths without closed brackets. -/
def Regular : Prop :=
  invalidation.distributionId ≠ [] ∧ Plain invalidation.paths

theorem storedEntry_purge {distributionId distributionId' : Text} {pathPatterns : List Text}
    {key : CacheKey} {entry : CacheEntry}
    (h : (cache.purge distributionId pathPatterns).2.storedEntry distributionId' key = some entry) :
    cache.storedEntry distributionId' key = some entry ∧
      (distributionId' = distributionId → Shard.isPurged pathPatterns entry = false) := by
  unfold DistributionCache.purge at h
  cases hshard : cache.shards.get? distributionId with
  | none =>
    rw [hshard] at h
    refine ⟨h, fun hsame => ?_⟩
    unfold DistributionCache.storedEntry at h
    rw [hsame, hshard] at h
    cases h
  | some =>
    rw [hshard] at h
    unfold DistributionCache.storedEntry at h ⊢
    rw [Dict.get?_set] at h
    by_cases hsame : distributionId' = distributionId
    · rw [if_pos hsame, bind_some, Dict.get?_eq_some_iff, entries_purge,
        mem_filter, Bool.not_eq_true'] at h
      rw [hsame, hshard, bind_some, Dict.get?_eq_some_iff]
      exact ⟨h.1, fun _ => h.2⟩
    · rw [if_neg hsame] at h
      exact ⟨h, fun heq => absurd heq hsame⟩

theorem storedEntry_purgeCacheEntries {invalidation : Invalidation} {distributionId : Text}
    {key : CacheKey} {entry : CacheEntry}
    (h : (purgeCacheEntries cache invalidation).storedEntry distributionId key = some entry) :
    cache.storedEntry distributionId key = some entry ∧
      (Regular invalidation → ¬Covers invalidation distributionId entry.uriPath) := by
  unfold purgeCacheEntries at h
  by_cases hnone : invalidation.distributionId = [] ∨ invalidation.paths = []
  · rw [if_pos hnone] at h
    refine ⟨h, fun hregular hcovers => ?_⟩
    rcases hcovers.2 with ⟨pattern, hpattern, -⟩
    rcases hnone with hnone | hnone
    · exact hregular.1 hnone
    · rw [hnone] at hpattern
      cases hpattern
  · rw [if_neg hnone] at h
    rcases storedEntry_purge h with ⟨hold, hkept⟩
    refine ⟨hold, fun hregular hcovers => ?_⟩
    have hpurged := (isPurged_iff hregular.2 _).mpr hcovers.2
    rw [hkept hcovers.1.symm] at hpurged
    cases hpurged

/-! ### Where entries are from -/

variable (distributions) in
/-- No request stores an answer when an invalidation of its path was created and purged for since
    it was fetched. -/
def Timely (labels : List Label) : Prop :=
  ∀ before id request answer middle after routed status invalidation seq targetTime,
    labels = before ++ .fetched id request answer :: (middle ++ .stored id request :: after) →
    route distributions request status = .ok routed → isCacheable routed answer = true →
    .created invalidation ∈ middle → .purged ⟨targetTime, seq, invalidation⟩ ∈ middle →
    ¬Covers invalidation request.distributionId (normalizedUriForCache request.uri)

/-- An answer was fetched, and every invalidation of its path that was purged for was created
    before. -/
def FetchedAfter (labels : List Label) (request : Request) (answer : OriginResponse) : Prop :=
  ∃ before id after, labels = before ++ .fetched id request answer :: after ∧
    ∀ entry ∈ purges labels, Regular entry.invalidation →
      Covers entry.invalidation request.distributionId (normalizedUriForCache request.uri) →
      .created entry.invalidation ∈ before

/-- An entry is for a request and has what an answer has. -/
structure HasAnswer (distributionId : Text) (key : CacheKey) (entry : CacheEntry)
    (request : Request) (answer : OriginResponse) : Prop where
  distributionId : request.distributionId = distributionId
  key : request.cacheKey = key
  status : entry.status = answer.status
  headers : entry.headers = answer.headers
  body : entry.body = answer.body
  uriPath : entry.uriPath = normalizedUriForCache request.uri

variable (distributions) in
/-- Where the entries of the cache and the answers of the requests are from. -/
structure Fetched (labels : List Label) (s : System) : Prop where
  cache : ∀ distributionId key entry, s.cache.storedEntry distributionId key = some entry →
    ∃ request answer, HasAnswer distributionId key entry request answer ∧
      FetchedAfter labels request answer
  routed : ∀ id flight, s.requests.get? id = some flight →
    ∃ status, route distributions flight.request status = .ok flight.routed
  answers : ∀ id flight, s.requests.get? id = some flight → ∀ answer ∈ flight.answer,
    ∃ before after, labels = before ++ .fetched id flight.request answer :: after

variable {labels : List Label}

theorem FetchedAfter.concat {request : Request} {answer : OriginResponse} {label : Label}
    (h : FetchedAfter labels request answer)
    (hlabel : ∀ entry ∈ label.purged?, Regular entry.invalidation →
      ¬Covers entry.invalidation request.distributionId (normalizedUriForCache request.uri)) :
    FetchedAfter (labels ++ [label]) request answer := by
  rcases h with ⟨before, id, after, hlabels, hcreated⟩
  refine ⟨before, id, after ++ [label], by rw [hlabels, append_assoc, cons_append],
    fun entry hentry hregular hcovers => ?_⟩
  rw [purges_concat, mem_append] at hentry
  rcases hentry with hentry | hentry
  · exact hcreated _ hentry hregular hcovers
  · exact absurd hcovers (hlabel _ (mem_toList.mp hentry) hregular)

theorem Fetched.concat {s t : System} {label : Label} (h : Fetched distributions labels s)
    (hcache : ∀ distributionId key entry, t.cache.storedEntry distributionId key = some entry →
      (s.cache.storedEntry distributionId key = some entry ∧ ∀ purged ∈ label.purged?,
        Regular purged.invalidation →
          ¬Covers purged.invalidation distributionId entry.uriPath) ∨
        ∃ request answer, HasAnswer distributionId key entry request answer ∧
          FetchedAfter (labels ++ [label]) request answer)
    (hrequests : ∀ id flight, t.requests.get? id = some flight →
      s.requests.get? id = some flight ∨
        (∃ status, route distributions flight.request status = .ok flight.routed) ∧
          ∀ answer ∈ flight.answer, label = .fetched id flight.request answer) :
    Fetched distributions (labels ++ [label]) t := by
  constructor
  · intro distributionId key entry hentry
    rcases hcache _ _ _ hentry with ⟨hold, hkept⟩ | hnew
    · rcases h.cache _ _ _ hold with ⟨request, answer, hanswer, hafter⟩
      refine ⟨request, answer, hanswer, hafter.concat ?_⟩
      rw [hanswer.distributionId, ← hanswer.uriPath]
      exact hkept
    · exact hnew
  · intro id flight hget
    rcases hrequests id _ hget with hold | hnew
    · exact h.routed id _ hold
    · exact hnew.1
  · intro id flight hget answer hanswer
    rcases hrequests id _ hget with hold | hnew
    · rcases h.answers id _ hold _ hanswer with ⟨before, after, hlabels⟩
      exact ⟨before, after ++ [label], by rw [hlabels, append_assoc, cons_append]⟩
    · exact ⟨labels, [], by rw [hnew.2 _ hanswer]⟩

theorem Accounts.created_of_purged (h : Accounts labels s)
    (hentry : entry ∈ purges labels) :
    .created entry.invalidation ∈ labels := by
  refine h.created _ ?_
  have hpurged : entry ∈ heldPurged s.drains + completes labels := h.purged ▸ hentry
  have hplaces : entry ∈ (s.queue.heap : Multiset PendingCompletion) + held s.drains +
      completes labels := by
    rw [Multiset.mem_add] at hpurged ⊢
    refine hpurged.imp_left fun hheld => Multiset.mem_add.mpr (.inr ?_)
    exact Multiset.mem_of_le (Multiset.map_le_map (Multiset.filter_le _ _)) hheld
  rw [h.places] at hplaces
  exact hplaces

variable (byte : UInt8) {content : Content} {byteCap : Nat}

theorem fetchedAfter_of_stored {labels : List Label} {id : Nat} {request : Request}
    {routed : Routed} {answer : OriginResponse}
    {status : Option Text} (hrun : Runs (Step distributions) (.initial content byteCap) labels s)
    (hfetched : ∃ before after, labels = before ++ .fetched id request answer :: after)
    (hroute : route distributions request status = .ok routed)
    (hkept : isCacheable routed answer = true)
    (htimely : Timely distributions (labels ++ [.stored id request])) :
    FetchedAfter (labels ++ [.stored id request]) request answer := by
  rcases hfetched with ⟨before, after, rfl⟩
  refine ⟨before, id, after ++ [.stored id request],
    by rw [append_assoc, cons_append], fun entry hentry hregular hcovers => ?_⟩
  rw [purges_concat, mem_append] at hentry
  have hpurged := hentry.resolve_right not_mem_nil
  have hcreated := (accounts_of_runs hrun).created_of_purged hpurged
  rcases hrun.split with ⟨u, hbefore, -⟩
  rw [mem_purges, mem_append, mem_cons] at hpurged
  rw [mem_append, mem_cons] at hcreated
  rcases hpurged with hpurged | hpurged | hpurged
  · exact (accounts_of_runs hbefore).created_of_purged (mem_purges.mpr hpurged)
  · cases hpurged
  · -- The invalidation was purged for since, so it was not created since.
    rcases hcreated with hcreated | hcreated | hcreated
    · exact hcreated
    · cases hcreated
    · refine absurd hcovers (htimely before id _ _ _ [] _ _
        _ _ _ ?_ hroute hkept hcreated hpurged)
      rw [append_assoc, cons_append]

theorem fetched_step {labels : List Label} {s t : System} {label : Label}
    (hrun : Runs (Step distributions) (.initial content byteCap) labels s)
    (hstep : Step distributions s label t) (htimely : Timely distributions (labels ++ [label]))
    (h : Fetched distributions labels s) : Fetched distributions (labels ++ [label]) t := by
  have hkeep (cache : DistributionCache CacheKey) (hpurged : label.purged? = none)
      (hcache : ∀ distributionId key entry, cache.storedEntry distributionId key = some entry →
        s.cache.storedEntry distributionId key = some entry) :
      ∀ distributionId key entry, cache.storedEntry distributionId key = some entry →
        (s.cache.storedEntry distributionId key = some entry ∧ ∀ purged ∈ label.purged?,
          Regular purged.invalidation →
            ¬Covers purged.invalidation distributionId entry.uriPath) ∨
          ∃ request answer, HasAnswer distributionId key entry request answer ∧
            FetchedAfter (labels ++ [label]) request answer := by
    intro distributionId key entry hentry
    refine .inl ⟨hcache _ _ _ hentry, fun purged hmem => ?_⟩
    rw [hpurged] at hmem
    cases hmem
  have hsame : ∀ distributionId key entry, s.cache.storedEntry distributionId key = some entry →
      s.cache.storedEntry distributionId key = some entry := fun _ _ _ hentry => hentry
  cases hstep with
  | originChanges content | refused request status response hroute | created | marked | pushed
  | remarked | popped | completed => exact h.concat (hkeep _ rfl hsame) fun _ _ => .inl
  | hit =>
    exact h.concat (hkeep _ rfl fun _ _ _ => storedEntry_get) fun _ _ => .inl
  | missed request status now routed hroute =>
    refine h.concat (hkeep _ rfl fun _ _ _ => storedEntry_get) fun id flight hget => ?_
    rcases Dict.get?_set_eq_some _ _ _ hget with ⟨-, rfl⟩ | ⟨-, hget⟩
    · exact .inr ⟨⟨status, hroute⟩, nofun⟩
    · exact .inl hget
  | fetched id request routed hget =>
    have hrouted := h.routed id _ hget
    refine h.concat (hkeep _ rfl hsame) fun id' flight hget' => ?_
    rcases Dict.get?_set_eq_some _ _ _ hget' with ⟨hid, rfl⟩ | ⟨-, hget'⟩
    · refine .inr ⟨hrouted, fun answer hanswer => ?_⟩
      rw [hid, ← some.inj hanswer]
    · exact .inl hget'
  | stored id request routed answer storedAt hget =>
    refine h.concat (fun distributionId key entry hentry => ?_) fun id' flight hget' => ?_
    · dsimp only [finish] at hentry
      by_cases hkept : isCacheable routed answer = true
      · rw [if_pos hkept] at hentry
        rcases storedEntry_put hentry with ⟨rfl, rfl, rfl⟩ | hold
        · rcases h.routed id _ hget with ⟨status, hroute⟩
          exact .inr ⟨request, answer, ⟨rfl, rfl, rfl, rfl, rfl, rfl⟩,
            fetchedAfter_of_stored hrun (h.answers id _ hget _ rfl) hroute hkept htimely⟩
        · exact hkeep _ rfl hsame _ _ _ hold
      · rw [if_neg hkept] at hentry
        exact hkeep _ rfl hsame _ _ _ hentry
    · rw [Dict.get?_erase] at hget'
      split at hget'
      · cases hget'
      · exact .inl hget'
  | purged =>
    refine h.concat (fun distributionId key found hfound => .inl ?_) fun _ _ => .inl
    rcases storedEntry_purgeCacheEntries hfound with ⟨hold, hcovers⟩
    refine ⟨hold, fun purged hpurged => ?_⟩
    rw [← some.inj hpurged]
    exact hcovers

theorem fetched_initial (content : Content) (byteCap : Nat) :
    Fetched distributions [] (.initial content byteCap) :=
  ⟨fun _ _ _ h => (by cases h), fun _ _ h => (by cases h), fun _ _ h => (by cases h)⟩

theorem timely_left {labels' : List Label} (h : Timely distributions (labels ++ labels')) :
    Timely distributions labels := by
  intro before id request answer middle after routed status invalidation seq targetTime hlabels
  refine h before id _ _ _ (after ++ labels') _ _ _ _ _ ?_
  rw [hlabels, append_assoc, cons_append, append_assoc, cons_append]

/-- Where the entries of the cache are from. -/
theorem fetched_of_runs {labels : List Label}
    (hrun : Runs (Step distributions) (.initial content byteCap) labels s)
    (htimely : Timely distributions labels) : Fetched distributions labels s := by
  induction labels using reverseRecOn generalizing s with
  | nil =>
    cases hrun
    exact fetched_initial _ _
  | append_singleton labels label ih =>
    rcases hrun.split with ⟨t, hbefore, hlast⟩
    cases hlast with
    | cons _ u _ _ _ hstep hnil =>
      cases hnil
      exact fetched_step hbefore hstep htimely (ih hbefore (timely_left htimely))

/-! ### Completed once, and not undone -/

theorem Accounts.nodup (h : Accounts labels s) :
    (purges labels).Nodup ∧ (completes labels).Nodup ∧
      ∀ entry ∈ purges labels ++ completes labels, entry ∈ pushes labels := by
  have hpushes : (pushes labels : Multiset PendingCompletion).Nodup :=
    Multiset.coe_nodup.mpr h.seqs.of_map
  have hle : heldPurged s.drains + (completes labels : Multiset PendingCompletion) ≤
      pushes labels := by
    rw [← h.places]
    refine Multiset.add_le_add_right (le_trans ?_ (Multiset.le_add_left _ _))
    exact Multiset.map_le_map (Multiset.filter_le _ _)
  have hpurges : (purges labels : Multiset PendingCompletion) ≤ pushes labels := h.purged ▸ hle
  have hcompletes : (completes labels : Multiset PendingCompletion) ≤ pushes labels :=
    le_trans (Multiset.le_add_left _ _) hle
  refine ⟨Multiset.nodup_of_le hpurges hpushes, Multiset.nodup_of_le hcompletes hpushes,
    fun entry hentry => ?_⟩
  rcases mem_append.mp hentry with hentry | hentry
  · exact Multiset.mem_of_le hpurges hentry
  · exact Multiset.mem_of_le hcompletes hentry

theorem purged_of_completed {before after : List Label}
    (hrun : Runs (Step distributions)
      (.initial content byteCap) (before ++ .completed entry :: after) s) :
    .purged entry ∈ before := by
  rcases hrun.split with ⟨t, hbefore, hrest⟩
  have haccounts := accounts_of_runs hbefore
  cases hrest with
  | cons _ u _ _ _ hstep _ =>
    cases hstep with
    | completed worker _ hget =>
      have hheld := heldPurged_of_get? hget
      rw [if_pos rfl] at hheld
      have hmem : entry ∈ (purges before : Multiset PendingCompletion) := by
        rw [haccounts.purged, hheld, Multiset.cons_add]
        exact Multiset.mem_cons_self _ _
      exact mem_purges.mp hmem

theorem pushes_append_drains {more : List Label} (h : ∀ label ∈ more, label.IsDrain) :
    pushes (labels ++ more) = pushes labels := by
  have hnone : more.filterMap Label.pushed? = [] := by
    refine filterMap_eq_nil_iff.mpr fun label hlabel => ?_
    have hdrain := h _ hlabel
    cases label with
    | popped | purged | completed => rfl
    | _ => exact absurd hdrain not_false
  rw [pushes, filterMap_append, hnone, append_nil, pushes]

theorem Accounts.completed_of_due (h : Accounts labels s) {now : Int}
    (hempty : s.drains.keys = []) (hdue : ∀ entry ∈ s.queue.heap, now < entry.targetTime)
    (hentry : entry ∈ pushes labels) (htime : entry.targetTime ≤ now) :
    .purged entry ∈ labels ∧ .completed entry ∈ labels := by
  have hvalues : s.drains.values = [] := by
    rw [Dict.values, map_eq_nil_iff]
    exact map_eq_nil_iff.mp hempty
  have hheld : held s.drains = 0 := by
    rw [held, hvalues]
    rfl
  have hheldPurged : heldPurged s.drains = 0 := by
    rw [heldPurged, hvalues]
    rfl
  have hplaces : entry ∈ (s.queue.heap : Multiset PendingCompletion) + held s.drains +
      completes labels := h.places ▸ hentry
  rw [hheld, add_zero, Multiset.mem_add] at hplaces
  have hcompleted : entry ∈ completes labels := by
    rcases hplaces with hheap | hcompleted
    · have hlater := hdue _ hheap
      omega
    · exact hcompleted
  have hpurged : entry ∈ (purges labels : Multiset PendingCompletion) := by
    rw [h.purged, hheldPurged]
    exact hcompleted
  exact ⟨mem_purges.mp hpurged, mem_completes.mp hcompleted⟩

/-- An entry of the queue is purged for and completed at most once and in this order, and when it
    is due the workers can do both. If no answer is stored too late, a hit after that returns an
    answer that an origin gave after the invalidation was created. -/
theorem invalidations_final (distributions : Text → Option Distribution) (content : Content)
    (byteCap : Nat) (labels : List Label) (s : System)
    (hrun : Runs (Step distributions) (.initial content byteCap) labels s) :
    ((purges labels).Nodup ∧ (completes labels).Nodup ∧
      ∀ entry ∈ purges labels ++ completes labels, entry ∈ pushes labels) ∧
    (∀ before entry after, labels = before ++ .completed entry :: after →
      .purged entry ∈ before) ∧
    (∀ now, ∃ more t, Runs (Step distributions) s more t ∧ (∀ label ∈ more, label.IsDrain) ∧
      ∀ entry ∈ pushes labels, entry.targetTime ≤ now →
        .purged entry ∈ labels ++ more ∧ .completed entry ∈ labels ++ more) ∧
    (Timely distributions labels → ∀ before request found after entry,
      labels = before ++ .hit request found :: after → .completed entry ∈ before →
      Regular entry.invalidation →
      Covers entry.invalidation request.distributionId (normalizedUriForCache request.uri) →
      ∃ earlier id request' answer later t routed,
        before = earlier ++ .fetched id request' answer :: later ∧
        .created entry.invalidation ∈ earlier ∧
        Runs (Step distributions) (.initial content byteCap) earlier t ∧
        answer = fetchFromOrigin t.content routed request' ∧
        HasAnswer request.distributionId request.cacheKey found request' answer) := by
  have haccounts := accounts_of_runs hrun
  refine ⟨haccounts.nodup, fun before entry after hlabels => ?_, fun now => ?_,
    fun htimely before request found after entry hlabels hcompleted hregular hcovers => ?_⟩
  · exact purged_of_completed (hlabels ▸ hrun)
  · rcases drains_finish _ s haccounts.heap with ⟨more, t, hmore, hdrain, hempty, hdue⟩
    refine ⟨more, t, hmore, hdrain, fun entry hentry htime => ?_⟩
    have hall := accounts_of_runs (hrun.append hmore)
    exact hall.completed_of_due hempty hdue ((pushes_append_drains hdrain).symm ▸ hentry) htime
  · subst hlabels
    rcases hrun.split with ⟨u, hbefore, hrest⟩
    have hfetched := fetched_of_runs hbefore (timely_left htimely)
    have hpurged : entry ∈ purges before := by
      rcases append_of_mem hcompleted with ⟨b, c, rfl⟩
      exact mem_purges.mpr (mem_append.mpr (.inl (purged_of_completed hbefore)))
    cases hrest with
    | cons _ v _ _ _ hstep _ =>
      cases hstep with
      | hit _ status now routed _ hroute hfound =>
        rcases hfetched.cache _ _ _ (storedEntry_of_get hfound).1 with
          ⟨request', answer, hanswer, earlier, id, later, rfl, hcreated⟩
        -- The two requests have the same key, and so the same path.
        have hpath : normalizedUriForCache request'.uri =
            normalizedUriForCache request.uri := by
          rw [← normalizedUriForCache_lstripSlash, ← normalizedUriForCache_lstripSlash]
          exact congrArg Prod.fst hanswer.key
        have hfirst := hcreated entry hpurged hregular
          (by rw [hanswer.distributionId, hpath]; exact hcovers)
        rcases hbefore.split with ⟨t, hearlier, hlater⟩
        cases hlater with
        | cons _ w _ _ _ hfetch _ =>
          cases hfetch with
          | fetched _ _ routed' _ =>
            exact ⟨earlier, id, request', _, later, t, routed', rfl, hfirst, hearlier, rfl, hanswer⟩

/-! ### Examples -/

def exampleVersion : Content where
  getObject _ := .ok ⟨some [byte], none, none, none, some 1, none⟩
  fetchHttp _ _ _ _ := ⟨502, [], .empty⟩

def exampleInvalidation : Invalidation :=
  ⟨"000000000000".toList, "us-east-1".toList, "E1".toList, "I1".toList, ["/a*".toList]⟩

def examplePending : PendingCompletion := ⟨0, 1, exampleInvalidation⟩

def exampleAnswer : OriginResponse :=
  ⟨200, [byte], .ofEntries [("Content-Length".toList, "1".toList)]⟩

def exampleCached : CacheEntry :=
  ⟨[byte], .ofEntries [("Content-Length".toList, "1".toList)], 200, 60, "/a.txt".toList⟩

def exampleInvalidationLabels : List Label :=
  [.created exampleInvalidation, .marked exampleInvalidation, .pushed examplePending,
    .remarked exampleInvalidation, .popped examplePending, .purged examplePending,
    .completed examplePending]

def exampleAfter (content : Content) (requests : Dict Nat InFlight) (nextRequest : Nat) : System :=
  { System.initial content 1000 with
    requests := requests
    nextRequest := nextRequest
    queue := ⟨[], 1⟩
    statuses := .ofEntries [(exampleInvalidation.key, .completed)] }

theorem runs_exampleInvalidationLabels (content : Content) (requests : Dict Nat InFlight)
    (nextRequest : Nat) : Runs (Step exampleDistributions)
      { System.initial content 1000 with requests := requests, nextRequest := nextRequest }
      exampleInvalidationLabels (exampleAfter content requests nextRequest) :=
  .cons _ _ _ _ _ (.created _ 0 exampleInvalidation rfl rfl)
    (.cons _ _ _ _ _ (.marked _ 0 exampleInvalidation rfl)
      (.cons _ _ _ _ _ (.pushed _ 0 exampleInvalidation 0 0 rfl)
        (.cons _ _ _ _ _ (.remarked _ 0 exampleInvalidation rfl)
          (.cons _ _ _ _ _ (.popped _ 0 0 examplePending ⟨[], 1⟩ rfl rfl)
            (.cons _ _ _ _ _ (.purged _ 0 examplePending rfl)
              (.cons _ _ _ _ _ (.completed _ 0 examplePending rfl) (.nil _)))))))

def exampleRouted : Routed :=
  ⟨⟨"arn:aws:cloudfront::000000000000:distribution/E1".toList,
    [⟨"o".toList, "site.s3.amazonaws.com".toList, [], false⟩], ⟨"o".toList, 60⟩⟩,
    ⟨"o".toList, "site.s3.amazonaws.com".toList, [], false⟩⟩

def exampleFetchLabels : List Label :=
  [.missed 0 (exampleRequest []), .fetched 0 (exampleRequest []) (exampleAnswer byte)]

def exampleHitLabels : List Label :=
  [.stored 0 (exampleRequest []), .hit (exampleRequest []) (exampleCached byte)]

def exampleFlight : Dict Nat InFlight :=
  .ofEntries [(0, ⟨exampleRequest [], exampleRouted, some (exampleAnswer byte)⟩)]

theorem runs_exampleFetchLabels (s : System) (byte : UInt8)
    (hcontent : s.content = exampleVersion byte)
    (hcache : s.cache = ⟨.empty, 1000⟩) (hrequests : s.requests = .empty)
    (hnext : s.nextRequest = 0) : Runs (Step exampleDistributions) s (exampleFetchLabels byte)
      { s with requests := exampleFlight byte, nextRequest := 1 } := by
  rcases s with ⟨content, cache, requests, nextRequest, creations, queue, drains, statuses⟩
  subst hcontent hcache hrequests hnext
  exact .cons _ _ _ _ _ (.missed _ (exampleRequest []) none 0 exampleRouted rfl rfl)
    (.cons _ _ _ _ _ (.fetched _ 0 (exampleRequest []) exampleRouted rfl) (.nil _))

theorem runs_exampleHitLabels (s : System) (byte : UInt8) (hcache : s.cache = ⟨.empty, 1000⟩)
    (hrequests : s.requests = exampleFlight byte) :
    ∃ t, Runs (Step exampleDistributions) s (exampleHitLabels byte) t ∧ t.content = s.content := by
  rcases s with ⟨content, cache, requests, nextRequest, creations, queue, drains, statuses⟩
  subst hcache hrequests
  exact ⟨_, .cons _ _ _ _ _
    (.stored _ 0 (exampleRequest []) exampleRouted (exampleAnswer byte) 0 rfl)
    (.cons _ _ _ _ _ (.hit _ (exampleRequest []) none 1 exampleRouted (exampleCached byte) rfl rfl)
      (.nil _)), rfl⟩

theorem runs_exampleInvalidated : ∃ s, Runs (Step exampleDistributions)
    (.initial (exampleVersion 2) 1000)
    (exampleInvalidationLabels ++ exampleFetchLabels 2 ++ exampleHitLabels 2) s := by
  rcases runs_exampleHitLabels
    { exampleAfter (exampleVersion 2) .empty 0 with
      requests := exampleFlight 2
      nextRequest := 1 } 2 rfl rfl with ⟨s, hhit, -⟩
  exact ⟨s, ((runs_exampleInvalidationLabels _ .empty 0).append
    (runs_exampleFetchLabels _ 2 rfl rfl rfl rfl)).append hhit⟩

theorem timely_of_created_first {first : Label} {rest : List Label}
    (h : ∀ invalidation, .created invalidation ∉ rest) :
    Timely exampleDistributions (first :: rest) := by
  intro before id request answer middle after routed status invalidation seq targetTime hlabels _ _
    hcreated _ _
  refine h invalidation ?_
  cases before with
  | nil =>
    rw [(cons.inj hlabels).2]
    exact mem_append.mpr (.inl hcreated)
  | cons =>
    rw [(cons.inj hlabels).2]
    exact mem_append.mpr (.inr (mem_cons_of_mem _ (mem_append.mpr (.inl hcreated))))

theorem covers_exampleInvalidation : Covers exampleInvalidation (exampleRequest []).distributionId
    (normalizedUriForCache (exampleRequest []).uri) := by
  unfold Covers
  decide +kernel

theorem regular_exampleInvalidation : Regular exampleInvalidation := by
  unfold Regular
  decide +kernel

theorem invalidations_final_of_exampleInvalidated :
    ∃ earlier id request' answer later t routed,
      exampleInvalidationLabels ++ exampleFetchLabels 2 ++ [.stored 0 (exampleRequest [])] =
        earlier ++ .fetched id request' answer :: later ∧
      .created exampleInvalidation ∈ earlier ∧
      Runs (Step exampleDistributions) (.initial (exampleVersion 2) 1000) earlier t ∧
      answer = fetchFromOrigin t.content routed request' ∧
      HasAnswer "E1".toList (exampleRequest []).cacheKey (exampleCached 2) request' answer := by
  rcases runs_exampleInvalidated with ⟨s, hrun⟩
  refine (invalidations_final _ _ 1000 _ s hrun).2.2.2
    (timely_of_created_first fun invalidation h => ?_) _ (exampleRequest []) (exampleCached 2) []
    examplePending rfl ?_ regular_exampleInvalidation covers_exampleInvalidation
  · simp [exampleFetchLabels, exampleHitLabels] at h
  · simp [exampleInvalidationLabels]

/-- An answer that is stored too late is found after its invalidation is completed. -/
theorem stale_hit_of_exampleVersion : ∃ s before,
    Runs (Step exampleDistributions) (.initial (exampleVersion 1) 1000)
      (before ++ [.hit (exampleRequest []) (exampleCached 1)]) s ∧
    s.content = exampleVersion 2 ∧ .completed examplePending ∈ before ∧
    Covers exampleInvalidation (exampleRequest []).distributionId
      (normalizedUriForCache (exampleRequest []).uri) ∧
    ∀ earlier id request answer later, before = earlier ++ .fetched id request answer :: later →
      .created exampleInvalidation ∉ earlier := by
  rcases runs_exampleHitLabels (exampleAfter (exampleVersion 2) (exampleFlight 1) 1) 1 rfl rfl with
    ⟨s, hhit, hcontent⟩
  have hfetch := runs_exampleFetchLabels (.initial (exampleVersion 1) 1000) 1 rfl rfl rfl rfl
  have hinvalidation := runs_exampleInvalidationLabels (exampleVersion 2) (exampleFlight 1) 1
  refine ⟨s, exampleFetchLabels 1 ++ .originChanges (exampleVersion 2) ::
    exampleInvalidationLabels ++ [.stored 0 (exampleRequest [])], ?_, hcontent, ?_,
    covers_exampleInvalidation, fun earlier id request answer later hbefore hcreated => ?_⟩
  · have hall := (hfetch.append (.cons _ _ _ _ _ (.originChanges _ (exampleVersion 2))
      hinvalidation)).append hhit
    exact hall
  · simp [exampleInvalidationLabels]
  · -- The only fetch is the second label.
    rcases earlier with _ | ⟨label, _ | ⟨label', rest⟩⟩
    · cases hcreated
    · have hlabel : Label.missed 0 (exampleRequest []) = label := (cons.inj hbefore).1
      rw [← hlabel, mem_singleton] at hcreated
      cases hcreated
    · have hrest : .originChanges (exampleVersion 2) ::
          (exampleInvalidationLabels ++ [.stored 0 (exampleRequest [])]) =
          rest ++ .fetched id request answer :: later :=
        (cons.inj (cons.inj hbefore).2).2
      have hmem : Label.fetched id request answer ∈ rest ++ .fetched id request answer :: later :=
        mem_append.mpr (.inr mem_cons_self)
      rw [← hrest] at hmem
      simp [exampleInvalidationLabels] at hmem

end LocalEmu.CloudFront
