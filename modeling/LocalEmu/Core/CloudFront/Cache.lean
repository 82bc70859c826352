import Mathlib.Algebra.GroupWithZero.Nat
import LocalEmu.Base.Dict
import LocalEmu.Base.Glob

/-!
# The Cache of a Distribution

The responses of a distribution are kept in a dictionary whose order is that of their last
use. A response that was read or written moves to the end, and when there are too many
bytes the first ones go. A response that is found to be stale goes as well, and so do
those whose path matches a pattern of an invalidation.
-/

namespace LocalEmu.CloudFront

abbrev Bytes := List UInt8

/-- A response with what its eviction and its invalidation depend on. -/
structure CacheEntry where
  body : Bytes
  headers : Dict Text Text
  status : Nat
  expiresAt : Int
  uriPath : Text

def CacheEntry.sizeBytes (entry : CacheEntry) : Nat :=
  entry.body.length + (entry.headers.entries.map fun e => e.1.length + e.2.length).sum

/-- The responses of one distribution. -/
structure Shard (κ : Type) where
  entries : Dict κ CacheEntry
  byteCap : Nat
  bytesUsed : Int
  hits : Nat
  misses : Nat
  evictions : Nat

namespace Shard

variable {κ : Type} [DecidableEq κ]

/-- `_Shard(byte_cap)`. -/
def new (byteCap : Nat) : Shard κ := ⟨.empty, byteCap, 0, 0, 0, 0⟩

variable (shard : Shard κ)

def get (key : κ) (now : Int) : Option CacheEntry × Shard κ :=
  match shard.entries.get? key with
  | none => (none, { shard with misses := shard.misses + 1 })
  | some entry =>
    if entry.expiresAt ≤ now then
      (none, { shard with
        bytesUsed := shard.bytesUsed - entry.sizeBytes
        entries := shard.entries.erase key
        misses := shard.misses + 1 })
    else
      (some entry, { shard with
        entries := (shard.entries.erase key).set key entry
        hits := shard.hits + 1 })

/-- The loop of `_evict_over_budget` over the entries, with the bytes they use and how many were
    evicted. -/
def evictOverBudget (byteCap : Nat) :
    List (κ × CacheEntry) → Int → Nat → List (κ × CacheEntry) × Int × Nat
  | [], bytesUsed, evictions => ([], bytesUsed, evictions)
  | e :: entries, bytesUsed, evictions =>
    if byteCap < bytesUsed then
      evictOverBudget byteCap entries (bytesUsed - e.2.sizeBytes) (evictions + 1)
    else (e :: entries, bytesUsed, evictions)

/-- The bytes after `put` has released those of an entry that it replaces. -/
def released (key : κ) : Int :=
  match shard.entries.get? key with
  | some existing => shard.bytesUsed - existing.sizeBytes
  | none => shard.bytesUsed

def put (key : κ) (entry : CacheEntry) : Shard κ :=
  let stored := (shard.entries.erase key).set key entry
  let kept := evictOverBudget shard.byteCap stored.entries
    (shard.released key + entry.sizeBytes) shard.evictions
  { shard with
    entries := .ofEntries kept.1
    bytesUsed := kept.2.1
    evictions := kept.2.2 }

def normalizePattern (pattern : Text) : Text :=
  if ['/'].isPrefixOf pattern then pattern else '/' :: pattern

/-- The path of an entry matches one of the patterns. -/
def isPurged (patterns : List Text) (entry : CacheEntry) : Bool :=
  (patterns.map normalizePattern).any fun pattern => Glob.fnmatch entry.uriPath pattern

/-- `purge`, with how many entries it removed. -/
def purge (pathPatterns : List Text) : Nat × Shard κ :=
  if pathPatterns = [] then (0, shard)
  else
    let toRemove := shard.entries.entries.filter fun e => isPurged pathPatterns e.2
    (toRemove.length, { shard with
      entries := toRemove.foldl (fun entries e => entries.erase e.1) shard.entries
      bytesUsed := toRemove.foldl (fun bytes e => bytes - (e.2.sizeBytes : Int)) shard.bytesUsed })

def clear : Shard κ := { shard with entries := .empty, bytesUsed := 0 }

end Shard

/-- The shards of all distributions. -/
structure DistributionCache (κ : Type) where
  shards : Dict Text (Shard κ)
  byteCap : Nat

namespace DistributionCache

variable {κ : Type} [DecidableEq κ]

variable (cache : DistributionCache κ) (distributionId : Text)

def get (key : κ) (now : Int) : Option CacheEntry × DistributionCache κ :=
  match cache.shards.get? distributionId with
  | none => (none, cache)
  | some shard =>
    let read := shard.get key now
    (read.1, { cache with shards := cache.shards.set distributionId read.2 })

def getOrCreateShard : Shard κ :=
  cache.shards.getD distributionId (.new cache.byteCap)

def put (key : κ) (entry : CacheEntry) : DistributionCache κ :=
  { cache with
    shards := cache.shards.set distributionId
      ((cache.getOrCreateShard distributionId).put key entry) }

/-- `purge`, with how many entries it removed. -/
def purge (pathPatterns : List Text) : Nat × DistributionCache κ :=
  match cache.shards.get? distributionId with
  | none => (0, cache)
  | some shard =>
    let purged := shard.purge pathPatterns
    (purged.1, { cache with shards := cache.shards.set distributionId purged.2 })

def dropDistribution : DistributionCache κ :=
  { cache with shards := cache.shards.erase distributionId }

end DistributionCache

end LocalEmu.CloudFront
