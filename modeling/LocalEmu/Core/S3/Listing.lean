import LocalEmu.Base.Base64
import LocalEmu.Core.S3.Checksums
import Mathlib.Data.List.DropRight
import Mathlib.Data.List.Sort

/-!
# Listings

The two paginated listings of a bucket: `ListObjectsV2` over the current
objects, and `ListObjectVersions` over all versions and delete markers.

Both sort what the key store holds, skip what comes before the place a request
asks for, and go on until the page is full. Keys that share the part up to a
delimiter are rolled up into one entry. A listing of objects continues at a key,
in a token; a listing of versions continues after a key and a version id.

With `encoding_type=url` the keys are sorted as they are, and compared, filtered
and rolled up in their quoted form.

## Main definitions

* `ListedStore`, `ListedStore.values`, `ListedStore.valuesWithVersions`: The `objects` of a bucket.
* `encodeContinuationToken`, `decodeContinuationToken`: The tokens.
* `generateSafeVersionId`, `isVersionOlderThanOther`: Version ids, and their comparison.
-/

namespace LocalEmu.S3

/-! ### Objects -/

/-- What a listing reads of an `S3Object`. -/
structure ListedObject where
  key : Text
  versionId : Option Text := none
  lastModified : Int
  isCurrent : Bool := true
  quotedEtag : String := ""
  size : Nat := 0
  storageClass : String := "STANDARD"
  checksumAlgorithm : Option String := none
  checksumType : Option String := none
  deriving DecidableEq

/-- An `S3DeleteMarker`. -/
structure ListedMarker where
  key : Text
  versionId : Option Text
  lastModified : Int
  isCurrent : Bool := true
  deriving DecidableEq

/-- `S3Object | S3DeleteMarker`. -/
inductive ListedVersion
  | object (object : ListedObject)
  | marker (marker : ListedMarker)
  deriving DecidableEq

namespace ListedVersion

def key : ListedVersion → Text
  | object s3Object => s3Object.key
  | marker deleteMarker => deleteMarker.key

def versionId : ListedVersion → Option Text
  | object s3Object => s3Object.versionId
  | marker deleteMarker => deleteMarker.versionId

def lastModified : ListedVersion → Int
  | object s3Object => s3Object.lastModified
  | marker deleteMarker => deleteMarker.lastModified

end ListedVersion

/-- The `objects` of a bucket. -/
inductive ListedStore
  | unversioned (objects : Dict Text ListedObject)
  | versioned (objects : Dict Text (Dict (Option Text) ListedVersion))

namespace ListedStore

/-- The current object of a key, if its last version is one. -/
def currentObject (versions : Dict (Option Text) ListedVersion) : Option ListedObject :=
  match versions.last? with
  | some (_, .object s3Object) => some s3Object
  | _ => none

def values : ListedStore → List ListedObject
  | unversioned objects => objects.values
  | versioned objects => objects.values.filterMap currentObject

/-- `objects.values(with_versions=True)`. -/
def valuesWithVersions : ListedStore → List ListedVersion
  | unversioned objects => objects.values.map .object
  | versioned objects => objects.values.flatMap Dict.values

end ListedStore

/-- What a listing reads of an `S3Bucket`. -/
structure ListedBucket where
  name : String
  owner : String
  bucketRegion : String
  objects : ListedStore

/-! ### Requests -/

/-- The exceptions of a listing. -/
inductive ListError
  | invalidArgument (message argumentName : String) (argumentValue : Option Text)
  | decodeError (error : Base64.DecodeError)
  | unicodeDecodeError (byte : UInt8) (position : Nat)
  | typeError (message : String)
  deriving DecidableEq

/-- `EncodingType.url`. -/
def encodingUrl : Text := ['u', 'r', 'l']

def validateEncodingType (encodingType : Option Text) : Except ListError Unit :=
  if encodingType.isSome ∧ encodingType ≠ some encodingUrl then
    .error (.invalidArgument "Invalid Encoding Method specified in Request" "encoding-type"
      encodingType)
  else .ok ⟨⟩

/-- `max_keys or 1000`. -/
def pageSize (maxKeys : Option Int) : Int := if maxKeys.getD 0 = 0 then 1000 else maxKeys.getD 0

/-- A text of a request or a key, in the form in which it is compared. -/
def shown (encodingType : Option Text) (text : Text) : Text :=
  if encodingType.isSome then text.quote else text

def encodeContinuationToken (value : Text) : Text := Base64.encode value.utf8

def decodeContinuationToken : Option Text → Except ListError Text
  | none => .ok []
  | some value =>
    match Base64.decode value with
    | .error error => .error (.decodeError error)
    | .ok bytes =>
      match Text.decodeAscii bytes with
      | some text => .ok text
      | none =>
        let position := bytes.findIdx fun b => !decide (b < 128)
        .error (.unicodeDecodeError (bytes.getD position 0) position)

/-- `prefix_including_delimiter`, for a key that starts with the prefix. -/
def rollUp (keyPrefix delimiter key : Text) : Option Text :=
  if delimiter = [] then none
  else
    (Text.before delimiter (key.drop keyPrefix.length)).map fun preDelimiter =>
      keyPrefix ++ preDelimiter ++ delimiter

/-! ### Objects -/

/-- What a request to list objects asks for. -/
structure ListObjectsRequest where
  delimiter : Option Text := none
  encodingType : Option Text := none
  maxKeys : Option Int := none
  keyPrefix : Option Text := none
  continuationToken : Option Text := none
  fetchOwner : Bool := false
  startAfter : Option Text := none

/-- `Object`. -/
structure ObjectEntry where
  key : Text
  etag : String
  size : Nat
  lastModified : Int
  storageClass : String
  owner : Option String
  checksumAlgorithm : Option String
  checksumType : Option String
  deriving DecidableEq

structure ListObjectsV2Output where
  isTruncated : Bool
  name : String
  maxKeys : Int
  keyPrefix : Text
  keyCount : Nat
  contents : List ObjectEntry
  encodingType : Option Text
  delimiter : Option Text
  commonPrefixes : List Text
  nextContinuationToken : Option Text
  continuationToken : Option Text
  startAfter : Option Text
  bucketRegion : Option String
  deriving DecidableEq

/-- A request to list objects with its defaults, decoded and quoted. -/
structure ObjectsQuery where
  encodingType : Option Text
  keyPrefix : Text
  delimiter : Text
  maxKeys : Int
  -- The decoded token, if there is a token.
  continuation : Option Text
  startAfter : Text
  owner : Option String

/-- What the loop collects. -/
structure ObjectsPage where
  commonPrefixes : List Text := []
  s3Objects : List ObjectEntry := []
  count : Nat := 0
  isTruncated : Bool := false
  nextContinuationToken : Option Text := none

namespace ObjectsQuery

variable (q : ObjectsQuery)

/-- A key comes before the place where the page starts. -/
def skips (key : Text) : Bool :=
  match q.continuation with
  | some token => decide (key < token)
  | none => q.startAfter ≠ [] ∧ key ≤ q.startAfter

variable (s3Object : ListedObject)

def objectData : ObjectEntry where
  key := shown q.encodingType s3Object.key
  etag := s3Object.quotedEtag
  size := s3Object.size
  lastModified := s3Object.lastModified
  storageClass := s3Object.storageClass
  owner := q.owner
  checksumAlgorithm := s3Object.checksumAlgorithm
  checksumType := s3Object.checksumAlgorithm.bind fun _ => s3Object.checksumType

/-- The end of the body of the loop: the page is full, or gets an entry. -/
def addEntry (page : ObjectsPage) : ObjectsPage :=
  match rollUp q.keyPrefix q.delimiter (shown q.encodingType s3Object.key) with
  | some prefixIncludingDelimiter =>
    { page with
      commonPrefixes := page.commonPrefixes ++ [prefixIncludingDelimiter]
      count := page.count + 1 }
  | none =>
    { page with
      s3Objects := page.s3Objects ++ [q.objectData s3Object]
      count := page.count + 1 }

/-- An object is rolled up into a common prefix that the page already has. -/
def isListed (page : ObjectsPage) : Bool :=
  match rollUp q.keyPrefix q.delimiter (shown q.encodingType s3Object.key) with
  | some prefixIncludingDelimiter => decide (prefixIncludingDelimiter ∈ page.commonPrefixes)
  | none => false

def collect : List ListedObject → ObjectsPage → ObjectsPage
  | [], page => page
  | s3Object :: s3Objects, page =>
    if q.skips (shown q.encodingType s3Object.key) then collect s3Objects page
    else if ¬q.keyPrefix.isPrefixOf (shown q.encodingType s3Object.key) then
      collect s3Objects page
    else if q.isListed s3Object page then collect s3Objects page
    else if q.maxKeys ≤ page.count then
      { page with
        isTruncated := true
        nextContinuationToken := some (encodeContinuationToken s3Object.key) }
    else collect s3Objects (q.addEntry s3Object page)

end ObjectsQuery

/-- A value that is not empty. -/
def nonEmpty (text : Option Text) : Option Text := text.filter fun t => t ≠ []

/-- `sorted(s3_bucket.objects.values(), key=lambda r: r.key)`. -/
def sortedObjects (objects : ListedStore) : List ListedObject :=
  objects.values.insertionSort fun a b => a.key ≤ b.key

variable (bucket : ListedBucket) (request : ListObjectsRequest)

def ListObjectsRequest.query (decodedContinuationToken : Text) : ObjectsQuery where
  encodingType := request.encodingType
  keyPrefix := shown request.encodingType (request.keyPrefix.getD [])
  delimiter := shown request.encodingType (request.delimiter.getD [])
  maxKeys := pageSize request.maxKeys
  continuation := request.continuationToken.map fun _ =>
    shown request.encodingType decodedContinuationToken
  startAfter := shown request.encodingType (request.startAfter.getD [])
  owner := if request.fetchOwner then some bucket.owner else none

def objectsResponse (q : ObjectsQuery) (page : ObjectsPage) : ListObjectsV2Output where
  isTruncated := page.isTruncated
  name := bucket.name
  maxKeys := q.maxKeys
  keyPrefix := q.keyPrefix
  keyCount := page.count
  contents := page.s3Objects
  encodingType := request.encodingType
  delimiter := nonEmpty (some q.delimiter)
  commonPrefixes := page.commonPrefixes.insertionSort (· ≤ ·)
  nextContinuationToken := nonEmpty page.nextContinuationToken
  continuationToken := request.continuationToken
  startAfter := if request.continuationToken.isSome then none else nonEmpty (some q.startAfter)
  bucketRegion := if bucket.bucketRegion = "us-east-1" then none else some bucket.bucketRegion

/-- `list_objects_v2`. -/
def listObjectsV2 : Except ListError ListObjectsV2Output :=
  if request.continuationToken = some [] then
    .error (.invalidArgument "The continuation token provided is incorrect" "continuation-token"
      none)
  else do
    validateEncodingType request.encodingType
    let decodedContinuationToken ← decodeContinuationToken request.continuationToken
    let q := request.query bucket decodedContinuationToken
    return objectsResponse bucket request q (q.collect (sortedObjects bucket.objects) {})

/-! ### Versions -/

/-- What a request to list versions asks for. -/
structure ListVersionsRequest where
  delimiter : Option Text := none
  encodingType : Option Text := none
  keyMarker : Option Text := none
  maxKeys : Option Int := none
  keyPrefix : Option Text := none
  versionIdMarker : Option Text := none

/-- `ObjectVersion`. -/
structure VersionEntry where
  key : Text
  etag : String
  owner : String
  size : Nat
  versionId : Text
  lastModified : Int
  isLatest : Bool
  storageClass : String
  checksumAlgorithm : Option String
  checksumType : Option String
  deriving DecidableEq

/-- `DeleteMarkerEntry`. -/
structure MarkerEntry where
  key : Text
  owner : String
  versionId : Option Text
  isLatest : Bool
  lastModified : Int
  deriving DecidableEq

structure ListObjectVersionsOutput where
  isTruncated : Bool
  name : String
  maxKeys : Int
  keyPrefix : Text
  keyMarker : Text
  versionIdMarker : Text
  versions : List VersionEntry
  encodingType : Option Text
  deleteMarkers : List MarkerEntry
  delimiter : Option Text
  commonPrefixes : List Text
  nextKeyMarker : Option Text
  nextVersionIdMarker : Option Text
  deriving DecidableEq

/-- `generate_safe_version_id`, from the next number of the sequence, which is
    below `2 ^ 48`, and the token that `token_bytes(18)` returns. -/
def generateSafeVersionId (sequence : Nat) (token : List UInt8) : Text :=
  (Base64.encode (bigEndian sequence 6 ++ token)).rdropWhile (· = '=')

def isVersionOlderThanOther (versionId : Option Text) (other : Text) : Except ListError Bool :=
  match versionId with
  | none =>
    .error (.typeError "argument should be a bytes-like object or ASCII string, not 'NoneType'")
  | some versionId =>
    match Base64.decode versionId with
    | .error error => .error (.decodeError error)
    | .ok bytes =>
      match Base64.decode other with
      | .error error => .error (.decodeError error)
      | .ok others => .ok (decide (bytes < others))

/-- The id of a version that was never given one, in a listing. -/
def nullVersionId : Text := ['n', 'u', 'l', 'l']

/-- A request to list versions with its defaults, quoted. -/
structure VersionsQuery where
  encodingType : Option Text
  keyPrefix : Text
  delimiter : Text
  maxKeys : Int
  keyMarker : Option Text
  versionIdMarker : Option Text
  owner : String
  -- The id of the last of all versions.
  lastVersionId : Option Text

/-- What the loop collects. -/
structure VersionsPage where
  commonPrefixes : List Text := []
  objectVersions : List VersionEntry := []
  deleteMarkers : List MarkerEntry := []
  count : Nat := 0
  isTruncated : Bool := false
  nextKeyMarker : Option Text := none
  nextVersionIdMarker : Option Text := none

namespace VersionsQuery

variable (q : VersionsQuery)

variable (version : ListedVersion)

/-- The check of the markers: whether to skip the version, and
    `version_key_marker_found` afterwards. -/
def skips (found : Bool) : Except ListError (Bool × Bool) :=
  match q.keyMarker with
  | none => .ok (false, found)
  | some keyMarker =>
    if shown q.encodingType version.key < keyMarker then .ok (true, found)
    else if shown q.encodingType version.key = keyMarker then
      match q.versionIdMarker with
      | none => .ok (true, found)
      | some versionIdMarker =>
        if version.versionId = some versionIdMarker then .ok (true, true)
        else
          match isVersionOlderThanOther version.versionId versionIdMarker with
          | .error error => .error error
          | .ok true => .ok (false, true)
          | .ok false => .ok (!found, found)
    else .ok (false, found)

variable (page : VersionsPage)

/-- A version is rolled up into a common prefix that this page or an earlier one has. -/
def isListed : Bool :=
  match rollUp q.keyPrefix q.delimiter (shown q.encodingType version.key) with
  | some prefixIncludingDelimiter =>
    decide (prefixIncludingDelimiter ∈ page.commonPrefixes) ||
      q.keyMarker.any fun keyMarker => prefixIncludingDelimiter.isPrefixOf keyMarker
  | none => false

def objectVersion (s3Object : ListedObject) : VersionEntry where
  key := shown q.encodingType s3Object.key
  etag := s3Object.quotedEtag
  owner := q.owner
  size := s3Object.size
  versionId := (nonEmpty s3Object.versionId).getD nullVersionId
  lastModified := s3Object.lastModified
  isLatest := s3Object.isCurrent
  storageClass := "STANDARD"
  checksumAlgorithm := s3Object.checksumAlgorithm
  checksumType := s3Object.checksumAlgorithm.bind fun _ => s3Object.checksumType

def deleteMarker (marker : ListedMarker) : MarkerEntry where
  key := shown q.encodingType marker.key
  owner := q.owner
  versionId := marker.versionId
  isLatest := marker.isCurrent
  lastModified := marker.lastModified

def addEntry : VersionsPage :=
  match rollUp q.keyPrefix q.delimiter (shown q.encodingType version.key) with
  | some prefixIncludingDelimiter =>
    { page with
      commonPrefixes := page.commonPrefixes ++ [prefixIncludingDelimiter]
      count := page.count + 1 }
  | none =>
    match version with
    | .marker marker =>
      { page with
        deleteMarkers := page.deleteMarkers ++ [q.deleteMarker marker]
        count := page.count + 1 }
    | .object s3Object =>
      { page with
        objectVersions := page.objectVersions ++ [q.objectVersion s3Object]
        count := page.count + 1 }

/-- The page that ends after the entry of a version. -/
def truncate : VersionsPage :=
  match rollUp q.keyPrefix q.delimiter (shown q.encodingType version.key) with
  | some prefixIncludingDelimiter =>
    { page with isTruncated := true, nextKeyMarker := some prefixIncludingDelimiter }
  | none =>
    { page with
      isTruncated := true
      nextKeyMarker := some version.key
      nextVersionIdMarker := version.versionId }

def collect : List ListedVersion → Bool → VersionsPage → Except ListError VersionsPage
  | [], _, page => .ok page
  | version :: versions, found, page =>
    match q.skips version found with
    | .error error => .error error
    | .ok (true, found) => collect versions found page
    | .ok (false, found) =>
      if ¬q.keyPrefix.isPrefixOf (shown q.encodingType version.key) then
        collect versions found page
      else if q.isListed version page then collect versions found page
      else if q.maxKeys ≤ (q.addEntry version page).count ∧
          q.lastVersionId ≠ version.versionId then
        .ok (q.truncate version (q.addEntry version page))
      else collect versions found (q.addEntry version page)

end VersionsQuery

/-- `all_versions.sort(key=lambda r: (r.key, -r.last_modified.timestamp()))`. -/
def sortedVersions (objects : ListedStore) : List ListedVersion :=
  objects.valuesWithVersions.insertionSort fun a b =>
    a.key < b.key ∨ a.key = b.key ∧ b.lastModified ≤ a.lastModified

variable (bucket : ListedBucket) (request : ListVersionsRequest)

def ListVersionsRequest.query : VersionsQuery where
  encodingType := request.encodingType
  keyPrefix := shown request.encodingType (request.keyPrefix.getD [])
  delimiter := shown request.encodingType (request.delimiter.getD [])
  maxKeys := pageSize request.maxKeys
  keyMarker := nonEmpty request.keyMarker
  versionIdMarker := nonEmpty request.versionIdMarker
  owner := bucket.owner
  lastVersionId := (sortedVersions bucket.objects).getLast?.bind ListedVersion.versionId

def versionsResponse (q : VersionsQuery) (page : VersionsPage) : ListObjectVersionsOutput where
  isTruncated := page.isTruncated
  name := bucket.name
  maxKeys := q.maxKeys
  keyPrefix := q.keyPrefix
  keyMarker := request.keyMarker.getD []
  versionIdMarker := request.versionIdMarker.getD []
  versions := page.objectVersions
  encodingType := request.encodingType
  deleteMarkers := page.deleteMarkers
  delimiter := nonEmpty (some q.delimiter)
  commonPrefixes := page.commonPrefixes.insertionSort (· ≤ ·)
  nextKeyMarker := nonEmpty page.nextKeyMarker
  nextVersionIdMarker := nonEmpty page.nextVersionIdMarker

/-- `list_object_versions`. -/
def listObjectVersions : Except ListError ListObjectVersionsOutput :=
  if (nonEmpty request.versionIdMarker).isSome ∧ nonEmpty request.keyMarker = none then
    .error (.invalidArgument "A version-id marker cannot be specified without a key marker."
      "version-id-marker" request.versionIdMarker)
  else do
    validateEncodingType request.encodingType
    let q := request.query bucket
    let page ← q.collect (sortedVersions bucket.objects) false {}
    return versionsResponse bucket request q page

end LocalEmu.S3
