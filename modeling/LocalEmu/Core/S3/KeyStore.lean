import LocalEmu.Base.Dict

/-!
# Key Stores

The two key stores of a bucket: the plain one of a bucket that was never
versioned, and the versioned one.

A versioned store maps a key to a dictionary of its versions. The current
version is the last one in the order of the dictionary, and each version also
carries a flag that says whether it is current. `set` and `pop` maintain the
flag of the version that was or becomes the last one.

A version is a record with everything else about it as a parameter: the
stores never look at it. A delete marker is a version without an object.
-/

namespace LocalEmu.S3

/-- An `S3Object`, or an `S3DeleteMarker` where there is no object. The
    version id of an object of a bucket without versioning is `None`. -/
structure S3Version (α : Type) where
  key : String
  versionId : Option String
  isCurrent : Bool := true
  object : Option α
  deriving DecidableEq

/-- `not version_id`. -/
def falsy (versionId : Option String) : Bool := versionId.getD "" == ""

/-- `KeyStore`, by object key. -/
abbrev KeyStore (α : Type) := Dict String (S3Version α)

/-- `VersionedKeyStore`, by object key and version id. -/
abbrev VersionedKeyStore (α : Type) := Dict String (Dict (Option String) (S3Version α))

namespace VersionedKeyStore

variable {α : Type}

/-- Set the flag of the version that is last in the dictionary. -/
def markLast (versions : Dict (Option String) (S3Version α)) (isCurrent : Bool) :
    Dict (Option String) (S3Version α) :=
  match versions.last? with
  | some (versionId, version) => versions.set versionId { version with isCurrent := isCurrent }
  | none => versions

variable (store : VersionedKeyStore α) (key : String)

/-- `get`. Without a version id it returns the last version. -/
def get (versionId : Option String) : Option (S3Version α) :=
  match store.get? key with
  | none => none
  | some versions =>
    if falsy versionId && !versions.entries.isEmpty then versions.last?.map Prod.snd
    else versions.get? versionId

def set (s3Object : S3Version α) : VersionedKeyStore α :=
  Dict.set store key
    ((markLast (store.getD key Dict.empty) false).set s3Object.versionId s3Object)

/-- `pop`, with the version it returns. -/
def pop (versionId : Option String) : VersionedKeyStore α × Option (S3Version α) :=
  match store.get? key with
  | none => (store, none)
  | some versions =>
    if versions.entries.isEmpty then (store, none)
    else
      let remaining := versions.erase versionId
      -- A key goes with its last version.
      if remaining.entries.isEmpty then (store.erase key, versions.get? versionId)
      else (Dict.set store key (markLast remaining true), versions.get? versionId)

/-- `values(with_versions=False)`: the current objects. -/
def values : List (S3Version α) :=
  store.entries.filterMap fun e =>
    match e.2.last? with
    | some (_, version) => if version.object.isSome then some version else none
    | none => none

/-- `from_key_store`: every object becomes the `null` version of its key. -/
def fromKeyStore (keystore : KeyStore α) : VersionedKeyStore α :=
  keystore.values.foldl
    (fun store s3Object => set store s3Object.key { s3Object with versionId := some "null" })
    Dict.empty

end VersionedKeyStore

end LocalEmu.S3
