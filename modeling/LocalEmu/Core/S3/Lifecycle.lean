import LocalEmu.Core.S3.Provider

/-!
# Lifecycle Expiration

The scan of one bucket for objects that a lifecycle rule has expired. It goes
over the current objects, and for each that is due it takes the record out of
the key store, the file out of the storage backend and the tags out of the
store of tags, one after the other.

Times are microseconds since the epoch, in UTC. The arithmetic of dates has the
range of `datetime`: leaving it raises, and ends the scan where it is. Reading
a date out of a text is a parameter.

The scan means to pass the tags of an object to the rules, but the attribute it
reads does not exist, and the exception is swallowed: the rules always see an
object without tags.

## Main definitions

* `LockedObject`, `isLocked`: What is read of an object.
* `LifecycleRule`, `getLifecycleRuleFromObject`: The rules and their filters.
-/

namespace LocalEmu.S3

/-! ### Objects -/

inductive ObjectLockMode
  | governance
  | compliance
  deriving DecidableEq

/-- What the scan and `is_locked` read of an `S3Object`. -/
structure LockedObject where
  size : Option Nat := none
  lastModified : Int
  lockMode : Option ObjectLockMode := none
  lockLegalStatus : Option String := none
  lockUntil : Option Int := none
  deriving DecidableEq

def isLocked (s3Object : LockedObject) (bypassGovernance : Bool) (now : Int) : Bool :=
  if s3Object.lockLegalStatus = some "ON" then true
  else if bypassGovernance ∧ s3Object.lockMode = some .governance then false
  else
    match s3Object.lockUntil with
    | some lockUntil => decide (now < lockUntil)
    | none => false

/-- The `objects` of a bucket. -/
inductive ObjectStore (α : Type)
  | unversioned (objects : KeyStore α)
  | versioned (objects : VersionedKeyStore α)

namespace ObjectStore

variable {α : Type}

def values : ObjectStore α → List (S3Version α)
  | unversioned objects => Dict.values objects
  | versioned objects => VersionedKeyStore.values objects

/-- `objects.pop(key)`. -/
def pop (store : ObjectStore α) (key : String) : ObjectStore α :=
  match store with
  | unversioned objects => unversioned (Dict.erase objects key)
  | versioned objects => versioned (VersionedKeyStore.pop objects key none).1

/-- The version under a key and a version id. A bucket without versioning has
    one version of a key. -/
def lookup (store : ObjectStore α) (key : String) (versionId : Option String) :
    Option (S3Version α) :=
  match store with
  | unversioned objects => objects.get? key
  | versioned objects => (objects.get? key).bind fun versions => versions.get? versionId

end ObjectStore

/-! ### Rules -/

structure Tag where
  key : String
  value : String

/-- An entry of a filter. -/
inductive FilterEntry
  | keyPrefix (text : String)
  | tag (tag : Tag)
  | objectSizeGreaterThan (size : Int)
  | objectSizeLessThan (size : Int)
  -- Only inside of `And`.
  | tags (tags : List Tag)

/-- `LifecycleRuleFilter`: its entries, and those of `And`. -/
structure LifecycleFilter where
  entries : List FilterEntry := []
  conjunction : Option (List FilterEntry) := none

/-- The `Date` of an expiration. -/
inductive ExpirationDate
  | text (text : String)
  | datetime (time : Int)

structure LifecycleExpiration where
  days : Option Int := none
  date : Option ExpirationDate := none
  expiredObjectDeleteMarker : Option Bool := none

/-- `LifecycleRule`, as far as the scan reads it. -/
structure LifecycleRule where
  expiration : Option LifecycleExpiration := none
  filter : Option LifecycleFilter := none

/-- A dictionary that has no field is false. -/
def LifecycleExpiration.isEmpty (e : LifecycleExpiration) : Bool :=
  e.days.isNone && e.date.isNone && e.expiredObjectDeleteMarker.isNone

/-- A dictionary that has no field is false. -/
def LifecycleFilter.isEmpty (f : LifecycleFilter) : Bool :=
  f.entries.isEmpty && f.conjunction.isNone

def hasTag (objectTags : Dict String String) (tag : Tag) : Bool :=
  objectTags.get? tag.key == some tag.value

/-- `_match_lifecycle_filter`. An object without tags matches no condition on tags. -/
def matchLifecycleFilter (entry : FilterEntry) (objectKey : String) (size : Nat)
    (objectTags : Dict String String) : Bool :=
  match entry with
  | .keyPrefix text => text.toList.isPrefixOf objectKey.toList
  | .tag tag => !objectTags.entries.isEmpty && hasTag objectTags tag
  | .objectSizeGreaterThan bound => decide (bound < size)
  | .objectSizeLessThan bound => decide ((size : Int) < bound)
  | .tags tags => !objectTags.entries.isEmpty && tags.all (hasTag objectTags)

/-- A rule applies to an object. A rule with `ExpiredObjectDeleteMarker` never does. -/
def ruleApplies (rule : LifecycleRule) (objectKey : String) (size : Nat)
    (objectTags : Dict String String) : Bool :=
  match rule.expiration with
  | none => false
  | some expiration =>
    if expiration.isEmpty || expiration.expiredObjectDeleteMarker.isSome then false
    else
      match rule.filter with
      | none => true
      | some filter =>
        let matchesEntry entry := matchLifecycleFilter entry objectKey size objectTags
        filter.isEmpty ||
          (match filter.conjunction with
          | some conjunction => !conjunction.isEmpty && conjunction.all matchesEntry
          | none => false) ||
          filter.entries.any matchesEntry

variable (fromIsoFormat : String → Option Int) (bucket : String) (version : S3Version LockedObject)
  (rules : List LifecycleRule)

def getLifecycleRuleFromObject (objectKey : String) (size : Nat)
    (objectTags : Dict String String) : Option LifecycleRule :=
  rules.find? fun rule => ruleApplies rule objectKey size objectTags

/-! ### Dates -/

/-- The exceptions of the arithmetic of dates. -/
inductive LifecycleError
  | overflowError (message : String)

def dayLength : Int := 86400000000

def datetimeMin : Int := -62135596800000000

def datetimeMax : Int := 253402300799999999

/-- `time + datetime.timedelta(days=days)`. -/
def addDays (time days : Int) : Except LifecycleError Int :=
  if days < -999999999 ∨ 999999999 < days then
    .error (.overflowError
      ("days=" ++ toString days ++ "; must have magnitude <= 999999999"))
  else if time + days * dayLength < datetimeMin ∨ datetimeMax < time + days * dayLength then
    .error (.overflowError "date value out of range")
  else .ok (time + days * dayLength)

/-- `time.replace(hour=0, minute=0, second=0, microsecond=0)`. -/
def midnight (time : Int) : Int := time - time % dayLength

/-- `add_expiration_days_to_datetime`, before the text is made. -/
def addExpirationDaysToDatetime (userDatetime expDays : Int) : Except LifecycleError Int :=
  addDays (midnight userDatetime) (expDays + 1)

/-- `_is_expired`. -/
def isExpired (s3Object : LockedObject) (expiration : LifecycleExpiration)
    (now : Int) : Except LifecycleError Bool :=
  match expiration.days.filter fun days => days ≠ 0 with
  | some days => do
      let expiry ← addDays s3Object.lastModified days
      let expiry ← addDays (midnight expiry) 1
      return decide (expiry ≤ now)
  | none =>
    match expiration.date with
    | none => .ok false
    | some (.text text) =>
      match fromIsoFormat (text.replace "Z" "+00:00") with
      | some time => .ok (decide (time ≤ now))
      | none => .ok false
    | some (.datetime time) => .ok (decide (time ≤ now))

/-! ### The scan -/

def getUniqueKeyId (key : String) (versionId : Option String) : String :=
  bucket ++ "/" ++ key ++ "/" ++ (truthy versionId).getD "null"

/-- The record, the bytes and the tags of the objects of a bucket. -/
structure LifecycleState where
  objects : ObjectStore LockedObject
  files : Dict Slot Bytes
  tags : Dict String (Dict String String)

abbrev LifecycleAction (α : Type) := Action LifecycleState LifecycleError α

/-- `_key_from_s3_object`. -/
def fileOf : Slot :=
  ⟨bucket, version.key, (truthy version.versionId).getD "null"⟩

def tagsOf : String :=
  getUniqueKeyId bucket version.key version.versionId

/-- The part of the scan that decides: a rule applies to the object, and has expired it. -/
def isDue (now : Int) (version : S3Version LockedObject) : Except LifecycleError Bool :=
  match version.object with
  | none => .ok false
  | some s3Object =>
    match getLifecycleRuleFromObject rules version.key (s3Object.size.getD 0) Dict.empty with
    | none => .ok false
    | some rule => isExpired fromIsoFormat s3Object (rule.expiration.getD {}) now

/-- The part of the scan that deletes: `objects.pop`, `remove` and `delete_all_tags`. -/
def removeExpired : LifecycleAction Unit := do
  modify fun st => { st with objects := st.objects.pop version.key }
  modify fun st => { st with files := st.files.erase (fileOf bucket version) }
  modify fun st => { st with tags := st.tags.erase (tagsOf bucket version) }

/-- The loop of the scan, with the number of expired objects so far. -/
def expireObjects (fromIsoFormat : String → Option Int) (bucket : String)
    (rules : List LifecycleRule) (now : Int) :
    List (S3Version LockedObject) → Nat → LifecycleAction Nat
  | [], expiredCount => pure expiredCount
  | version :: versions, expiredCount => do
      let due ← Action.ofExcept (isDue fromIsoFormat rules now version)
      if due then
        removeExpired bucket version
        expireObjects fromIsoFormat bucket rules now versions (expiredCount + 1)
      else expireObjects fromIsoFormat bucket rules now versions expiredCount

/-- `_expire_bucket_objects`. -/
def expireBucketObjects (now : Int) : LifecycleAction Nat := do
  let st ← get
  expireObjects fromIsoFormat bucket rules now st.objects.values 0

end LocalEmu.S3
