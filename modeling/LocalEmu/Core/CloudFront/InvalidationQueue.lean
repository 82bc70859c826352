import Mathlib.Data.Prod.Lex
import LocalEmu.Base.Heapq
import LocalEmu.Core.CloudFront.Router

/-!
# Invalidations

An invalidation is created in a state of progress, and waits in a heap until its time. Then
a worker takes it out of the heap, purges the cache and sets it to completed. Requests, the
calls that create invalidations and the workers run at the same time, and the origins
change at any time. What each of them does in one step is what it does under a lock, or
with what is its own.
-/

namespace LocalEmu.CloudFront

/-- An invalidation of a distribution, as its creation is called with it and the storage of
    invalidations knows it. -/
structure Invalidation where
  accountId : Text
  region : Text
  distributionId : Text
  invalidationId : Text
  paths : List Text
  deriving DecidableEq

/-- The status of an invalidation. -/
inductive Status
  | inProgress
  | completed

/-! ### The queue -/

structure PendingCompletion where
  targetTime : Int
  seq : Nat
  invalidation : Invalidation
  deriving DecidableEq

/-- What pending completions are compared by. -/
def PendingCompletion.order (entry : PendingCompletion) : Int ×ₗ Nat :=
  toLex (entry.targetTime, entry.seq)

/-- The heap, with `push` and `popIfDue`. -/
structure InvalidationQueue where
  heap : List PendingCompletion
  seq : Nat

namespace InvalidationQueue

variable (queue : InvalidationQueue)

/-- The entry that `enqueue` pushes. -/
def newEntry (invalidation : Invalidation) (now delaySeconds : Int) : PendingCompletion :=
  ⟨now + max 0 delaySeconds, queue.seq + 1, invalidation⟩

/-- The part of `enqueue` under the lock. -/
def push (entry : PendingCompletion) : InvalidationQueue :=
  ⟨Heapq.heappush PendingCompletion.order queue.heap entry, queue.seq + 1⟩

def popIfDue (now : Int) : Option (PendingCompletion × InvalidationQueue) :=
  match queue.heap with
  | [] => none
  | root :: _ =>
    if now < root.targetTime then none
    else
      (Heapq.heappop PendingCompletion.order queue.heap).map fun popped =>
        (popped.1, { queue with heap := popped.2 })

end InvalidationQueue

/-! ### What is in progress -/

/-- A request that was not in the cache, with the answer of its origin when there is one. -/
structure InFlight where
  request : Request
  routed : Routed
  answer : Option OriginResponse

/-- How far a call of `create_invalidation` is. -/
inductive Stage
  | created
  | marked
  | pushed

/-- An entry that a worker has taken out of the heap, purged or not. -/
structure Drain where
  entry : PendingCompletion
  purged : Bool

/-- The whole system. -/
structure System where
  content : Content
  cache : DistributionCache CacheKey
  requests : Dict Nat InFlight
  nextRequest : Nat
  creations : Dict Nat (Invalidation × Stage)
  queue : InvalidationQueue
  drains : Dict Nat Drain
  statuses : Dict (Text × Text) Status

/-- Nothing is in the cache, and nothing is in progress. -/
def System.initial (content : Content) (byteCap : Nat) : System :=
  ⟨content, ⟨.empty, byteCap⟩, .empty, 0, .empty, ⟨[], 0⟩, .empty, .empty⟩

/-- What the status of an invalidation is kept under. -/
def Invalidation.key (invalidation : Invalidation) : Text × Text :=
  (invalidation.distributionId, invalidation.invalidationId)

def setInvalidationStatus (statuses : Dict (Text × Text) Status) (invalidation : Invalidation)
    (status : Status) : Dict (Text × Text) Status :=
  match statuses.get? invalidation.key with
  | none => statuses
  | some _ => statuses.set invalidation.key status

def purgeCacheEntries (cache : DistributionCache CacheKey) (invalidation : Invalidation) :
    DistributionCache CacheKey :=
  if invalidation.distributionId = [] ∨ invalidation.paths = [] then cache
  else (cache.purge invalidation.distributionId invalidation.paths).2

/-! ### Steps -/

/-- What a step does. -/
inductive Label
  | originChanges (content : Content)
  | refused (request : Request)
  | hit (request : Request) (entry : CacheEntry)
  | missed (id : Nat) (request : Request)
  | fetched (id : Nat) (request : Request) (answer : OriginResponse)
  | stored (id : Nat) (request : Request)
  | created (invalidation : Invalidation)
  | marked (invalidation : Invalidation)
  | pushed (entry : PendingCompletion)
  | remarked (invalidation : Invalidation)
  | popped (entry : PendingCompletion)
  | purged (entry : PendingCompletion)
  | completed (entry : PendingCompletion)

/-- The steps: the origins change, a request goes through its three parts, an invalidation is
    created, marked, pushed and marked again, and a worker pops, purges and completes. -/
inductive Step (distributions : Text → Option Distribution) : System → Label → System → Prop
  | originChanges (s : System) (content : Content) :
      Step distributions s (.originChanges content) { s with content := content }
  | refused (s : System) (request : Request) (status : Option Text) (response : Response)
      (hroute : route distributions request status = .error response) :
      Step distributions s (.refused request) s
  | hit (s : System) (request : Request) (status : Option Text) (now : Int) (routed : Routed)
      (entry : CacheEntry) (hroute : route distributions request status = .ok routed)
      (hfound : (lookUp s.cache request now).1 = some entry) :
      Step distributions s (.hit request entry) { s with cache := (lookUp s.cache request now).2 }
  | missed (s : System) (request : Request) (status : Option Text) (now : Int) (routed : Routed)
      (hroute : route distributions request status = .ok routed)
      (hfound : (lookUp s.cache request now).1 = none) :
      Step distributions s (.missed s.nextRequest request)
        { s with
          cache := (lookUp s.cache request now).2
          requests := s.requests.set s.nextRequest ⟨request, routed, none⟩
          nextRequest := s.nextRequest + 1 }
  | fetched (s : System) (id : Nat) (request : Request) (routed : Routed)
      (hget : s.requests.get? id = some ⟨request, routed, none⟩) :
      Step distributions s (.fetched id request (fetchFromOrigin s.content routed request))
        { s with
          requests := s.requests.set id
            ⟨request, routed, some (fetchFromOrigin s.content routed request)⟩ }
  | stored (s : System) (id : Nat) (request : Request) (routed : Routed) (answer : OriginResponse)
      (storedAt : Int) (hget : s.requests.get? id = some ⟨request, routed, some answer⟩) :
      Step distributions s (.stored id request)
        { s with
          cache := finish s.cache routed request answer storedAt
          requests := s.requests.erase id }
  | created (s : System) (id : Nat) (invalidation : Invalidation)
      (hid : s.creations.get? id = none) (hfresh : s.statuses.get? invalidation.key = none) :
      -- The storage of invalidations gives the new one the status of a completed one.
      Step distributions s (.created invalidation)
        { s with
          creations := s.creations.set id (invalidation, .created)
          statuses := s.statuses.set invalidation.key .completed }
  | marked (s : System) (id : Nat) (invalidation : Invalidation)
      (hget : s.creations.get? id = some (invalidation, .created)) :
      Step distributions s (.marked invalidation)
        { s with
          creations := s.creations.set id (invalidation, .marked)
          statuses := setInvalidationStatus s.statuses invalidation .inProgress }
  | pushed (s : System) (id : Nat) (invalidation : Invalidation) (now delaySeconds : Int)
      (hget : s.creations.get? id = some (invalidation, .marked)) :
      Step distributions s (.pushed (s.queue.newEntry invalidation now delaySeconds))
        { s with
          creations := s.creations.set id (invalidation, .pushed)
          queue := s.queue.push (s.queue.newEntry invalidation now delaySeconds) }
  | remarked (s : System) (id : Nat) (invalidation : Invalidation)
      (hget : s.creations.get? id = some (invalidation, .pushed)) :
      Step distributions s (.remarked invalidation)
        { s with
          creations := s.creations.erase id
          statuses := setInvalidationStatus s.statuses invalidation .inProgress }
  | popped (s : System) (worker : Nat) (now : Int) (entry : PendingCompletion)
      (queue : InvalidationQueue) (hworker : s.drains.get? worker = none)
      (hpop : s.queue.popIfDue now = some (entry, queue)) :
      Step distributions s (.popped entry)
        { s with
          queue := queue
          drains := s.drains.set worker ⟨entry, false⟩ }
  | purged (s : System) (worker : Nat) (entry : PendingCompletion)
      (hget : s.drains.get? worker = some ⟨entry, false⟩) :
      Step distributions s (.purged entry)
        { s with
          cache := purgeCacheEntries s.cache entry.invalidation
          drains := s.drains.set worker ⟨entry, true⟩ }
  | completed (s : System) (worker : Nat) (entry : PendingCompletion)
      (hget : s.drains.get? worker = some ⟨entry, true⟩) :
      Step distributions s (.completed entry)
        { s with
          drains := s.drains.erase worker
          statuses := setInvalidationStatus s.statuses entry.invalidation .completed }

end LocalEmu.CloudFront
