import Mathlib.Data.List.Infix
import LocalEmu.Base.Action
import LocalEmu.Core.S3.Bucket

/-!
# Writing Objects

The three operations that write an object in one request: `PutObject`,
`CopyObject` and the form upload. Each writes the body into the file of the
object first and validates it afterwards.

The storage backend keeps one file for each bucket, key and version id, where
an object without a version id shares the file of the `null` version. The
backend addresses a file by the hash of the key and the version id; here the
two are the address.

A body is a stream: reading it yields chunks until it ends or raises. The
digests are a parameter. So are the checks of the request fields that decide
nothing but whether the request is refused before anything is stored: the
storage class, the encryption and lock parameters, the ACL and the tags.
-/

namespace LocalEmu.S3

/-- The address of a file in the storage backend. -/
structure Slot where
  bucket : String
  key : String
  versionId : String
  deriving DecidableEq

/-- The buckets and the files of the storage backend. -/
structure S3State where
  buckets : Dict String Bucket
  files : Dict Slot Bytes

abbrev S3Action (α : Type) := Action S3State S3Error α

/-- The digests of the standard library and the conversions between their spellings. -/
structure Digests where
  /-- The hexadecimal MD5 digest. -/
  md5 : Bytes → String
  /-- The checksum under an algorithm, in base64. -/
  checksum : ChecksumAlgorithm → Bytes → String
  /-- The number of bytes a base64 text decodes to. -/
  decodedLength : String → Option Nat
  /-- `base_64_content_md5_to_etag`. -/
  contentMd5ToEtag : String → Option String
  /-- `etag_to_base_64_content_md5`. -/
  etagToContentMd5 : String → String

/-- A body: chunks, and then the end of the stream with its trailing headers
    or an exception of `read`. -/
inductive Stream
  | chunk (data : Bytes) (rest : Stream)
  | done (trailingHeaders : List (String × String))
  | broken (error : S3Error)

namespace Stream

def data : Stream → Bytes
  | chunk data rest => data ++ rest.data
  | done _ => []
  | broken _ => []

def failure : Stream → Option S3Error
  | chunk _ rest => rest.failure
  | done _ => none
  | broken error => some error

/-- The trailing headers after the last chunk. -/
def trailingHeaders : Stream → List (String × String)
  | chunk _ rest => rest.trailingHeaders
  | done trailingHeaders => trailingHeaders
  | broken _ => []

end Stream

/-- The value of an option that is set and not empty. -/
def truthy (value : Option String) : Option String := value.filter fun text => text ≠ ""

/-! ### The storage backend -/

/-- `_key_from_s3_object`. -/
def slotOf (bucket : String) (s3Object : ObjectVersion) : Slot :=
  ⟨bucket, s3Object.key, (truthy s3Object.versionId).getD "null"⟩

/-- The bytes of a file. Opening a file that does not exist creates it empty. -/
def S3State.content (st : S3State) (slot : Slot) : Bytes := (st.files.get? slot).getD []

def S3State.setContent (st : S3State) (slot : Slot) (content : Bytes) : S3State :=
  { st with files := st.files.set slot content }

/-- `EphemeralS3ObjectStore.open`. -/
def openFile (slot : Slot) : S3Action Unit :=
  modify fun st =>
    match st.files.get? slot with
    | some _ => st
    | none => st.setContent slot []

/-- `EphemeralS3ObjectStore.remove`. -/
def removeFile (slot : Slot) : S3Action Unit :=
  modify fun st => { st with files := st.files.erase slot }

/-- The loop of `EphemeralS3StoredObject.write`: append chunk after chunk. -/
def appendStream (slot : Slot) : Stream → S3Action Unit
  | .chunk data rest => do
      modify fun st => st.setContent slot (st.content slot ++ data)
      appendStream slot rest
  | .done _ => pure ()
  | .broken error => throw error

variable (d : Digests)

/-- `get_s3_checksum`: the checksum of a content, for a supported algorithm. -/
def getS3Checksum (algorithm : ChecksumAlgorithm) (content : Bytes) : Except S3Error String :=
  match algorithm with
  | .unsupported _ =>
    .error (.invalidRequest "The value specified in the x-amz-trailer header is not supported")
  | algorithm => .ok (d.checksum algorithm content)

namespace StoredObject

/-- `EphemeralS3StoredObject.write`: the object with its new size and etag.
    The checksum algorithm is looked up before the file is truncated. -/
def write (d : Digests) (slot : Slot) (s3Object : S3Object) (stream : Stream) :
    S3Action S3Object := do
  let _ ← Action.ofExcept (getS3Checksum d s3Object.checksumAlgorithm [])
  modify fun st => st.setContent slot []
  appendStream slot stream
  let st ← get
  pure { s3Object with
    size := some (st.content slot).length
    etag := some (d.md5 (st.content slot)) }

def checksum (d : Digests) (slot : Slot) (s3Object : S3Object) : S3Action String := do
  let st ← get
  Action.ofExcept (getS3Checksum d s3Object.checksumAlgorithm (st.content slot))

end StoredObject

def isObjectVersioned (s3Object : ObjectVersion) : Bool :=
  !falsy s3Object.versionId && s3Object.versionId != some "null"

def shouldCopyInPlace (srcBucket : String) (srcObject : ObjectVersion) (destBucket : String)
    (destObject : ObjectVersion) : Bool :=
  srcBucket == destBucket && srcObject.key == destObject.key &&
    !(isObjectVersioned srcObject || isObjectVersioned destObject)

/-- `EphemeralS3ObjectStore.copy`: the copied object. -/
def copyFile (srcBucket : String) (srcObject : ObjectVersion) (destBucket : String)
    (destObject : ObjectVersion) (s3Object : S3Object) :
    S3Action S3Object := do
  if shouldCopyInPlace srcBucket srcObject destBucket destObject then
    openFile (slotOf destBucket destObject)
    pure s3Object
  else
    openFile (slotOf srcBucket srcObject)
    let st ← get
    openFile (slotOf destBucket destObject)
    StoredObject.write d (slotOf destBucket destObject) s3Object
      (.chunk (st.content (slotOf srcBucket srcObject)) (.done []))

/-! ### Checks -/

variable (bucket : Bucket) (safeVersionId : String) (request : CopyObjectRequest)
  (bucketName : String)

/-- `_get_cross_account_bucket`. -/
def getBucket : S3Action Bucket := do
  let st ← get
  match st.buckets.get? bucketName with
  | some bucket => pure bucket
  | none => throw (.noSuchBucket bucketName)

/-- The conditional headers an upload accepts: one of them, `If-None-Match`
    only as `*`, `If-Match` never as `*`. -/
def checkConditionHeaders (ifMatch ifNoneMatch : Option String) : Except S3Error Unit :=
  if (truthy ifNoneMatch).isSome && (truthy ifMatch).isSome then
    .error (.notImplemented "If-Match,If-None-Match"
      "Multiple conditional request headers present in the request")
  else if ((truthy ifNoneMatch).isSome && ifNoneMatch != some "*") || ifMatch == some "*" then
    let headerName := if (truthy ifNoneMatch).isSome then "If-None-Match" else "If-Match"
    .error (.notImplemented headerName
      ("We don't accept the provided value of " ++ headerName ++ " header for this API"))
  else .ok ()

variable (key : String)

def objectExistsForPreconditionWrite : Bool :=
  match bucket.current key with
  | some existing => existing.object.isSome
  | none => false

def isQuote (c : Char) : Bool := c == Char.ofNat 34

/-- `text.strip('"')`. -/
def stripQuotes (text : String) : String :=
  String.ofList ((text.toList.dropWhile isQuote).reverse.dropWhile isQuote).reverse

def verifyObjectEqualityPreconditionWrite (etag : String) : Except S3Error Unit :=
  match (bucket.current key).bind S3Version.object with
  | none => .error (.noSuchKey key none)
  | some existing =>
    if existing.etag = some (stripQuotes etag) then .ok ()
    else .error (.preconditionFailed "If-Match")

/-- The write preconditions of the destination. -/
def checkPreconditions (ifMatch ifNoneMatch : Option String) : Except S3Error Unit :=
  if (truthy ifNoneMatch).isSome && objectExistsForPreconditionWrite bucket key then
    .error (.preconditionFailed "If-None-Match")
  else
    match truthy ifMatch with
    | some etag => verifyObjectEqualityPreconditionWrite bucket key etag
    | none => .ok ()

/-- The algorithm of a list of candidates, at most one of which may be. -/
def singleAlgorithm (algorithms : List ChecksumAlgorithm) :
    Except S3Error (Option ChecksumAlgorithm) :=
  match algorithms with
  | [] => .ok none
  | [algorithm] => .ok (some algorithm)
  | _ => .error (.invalidRequest
      "Expecting a single x-amz-checksum- header. Multiple checksum Types are not allowed.")

def getS3ChecksumAlgorithmFromRequest (checksums : ChecksumAlgorithm → Option String) :
    Except S3Error (Option ChecksumAlgorithm) :=
  singleAlgorithm (ChecksumAlgorithm.all.filter fun a => (truthy (checksums a)).isSome)

/-- `get_s3_checksum_algorithm_from_trailing_headers`: a search for a part of the header. -/
def getS3ChecksumAlgorithmFromTrailingHeaders (trailer : String) :
    Except S3Error (Option ChecksumAlgorithm) :=
  singleAlgorithm (ChecksumAlgorithm.all.filter fun a =>
    decide (("x-amz-checksum-" ++ a.lower).toList <:+: trailer.toList))

def validateChecksumValue (checksumValue : String) (algorithm : Option ChecksumAlgorithm) : Bool :=
  match d.decodedLength checksumValue with
  | none => false
  | some length =>
    length == match algorithm with
      | some .crc32 | some .crc32c => 4
      | some .crc64nvme => 8
      | some .sha1 => 20
      | some .sha256 => 32
      | _ => 0

/-- Store the record of an object in its bucket. -/
def setObject (bucket : Bucket) (s3Object : ObjectVersion) : S3Action Unit :=
  modify fun st =>
    { st with buckets := st.buckets.set bucketName (bucket.setObject s3Object.key s3Object) }

/-! ### Operations -/

/-- `PutObjectRequest`, with the headers the operation reads. -/
structure PutObjectRequest where
  bucket : String
  key : String
  ifMatch : Option String := none
  ifNoneMatch : Option String := none
  contentMd5 : Option String := none
  checksums : ChecksumAlgorithm → Option String := fun _ => none
  isAwsChunked : Bool := false
  trailer : String := ""
  body : Stream
  -- The error of a check of one of the other fields.
  refusal : Option S3Error := none

/-- Raise the error of a check outside of the model. -/
def refuse (refusal : Option S3Error) : Except S3Error Unit :=
  match refusal with
  | some error => .error error
  | none => .ok ()

/-- The MD5 digest a `Content-MD5` header stands for. -/
def decodeContentMd5 (contentMd5 : Option String) : Except S3Error String :=
  match truthy contentMd5 with
  | none => .ok ""
  | some contentMd5 =>
    match truthy (d.contentMd5ToEtag contentMd5) with
    | some etag => .ok etag
    | none => .error (.invalidDigest contentMd5)

/-- The checksum algorithm of an upload: of a checksum header or, for a
    chunked body, of the trailer. -/
def PutObjectRequest.algorithm (request : PutObjectRequest) :
    Except S3Error (Option ChecksumAlgorithm) := do
  let checksumAlgorithm ← getS3ChecksumAlgorithmFromRequest request.checksums
  if request.isAwsChunked && checksumAlgorithm.isNone then
    getS3ChecksumAlgorithmFromTrailingHeaders request.trailer
  else pure checksumAlgorithm

/-- The checksum value a client sent: the trailing header of the algorithm, if
    the decoder found one, or the request header. -/
def PutObjectRequest.checksumValue (request : PutObjectRequest)
    (headerAlgorithm : Option ChecksumAlgorithm) (algorithm : ChecksumAlgorithm) :
    Option String :=
  let trailing :=
    if request.isAwsChunked then
      truthy (request.body.trailingHeaders.lookup ("x-amz-checksum-" ++ algorithm.lower))
    else none
  trailing.or (headerAlgorithm.bind request.checksums)

variable (checksumAlgorithm : Option ChecksumAlgorithm)

/-- The checks of `put_object` between the write and `objects.set`: the first
    digest that is malformed or does not match. -/
def checkDigests (s3Object : S3Object) (contentMd5 : Option String)
    (etagContentMd5 checksum : String) :
    Except S3Error Unit := do
  match truthy s3Object.checksumValue with
  | none => pure ()
  | some checksumValue =>
    if !validateChecksumValue d checksumValue checksumAlgorithm then
      throw (.invalidRequest
        ("Value for x-amz-checksum-" ++ s3Object.checksumAlgorithm.lower ++
          " header is invalid."))
    else if checksumValue ≠ checksum then
      match checksumAlgorithm with
      | some algorithm => throw (.badChecksum algorithm.upper)
      | none => throw (.exception "AttributeError" "'NoneType' object has no attribute 'upper'")
  match truthy contentMd5 with
  | none => pure ()
  | some contentMd5 =>
    let calculatedMd5 := d.etagToContentMd5 (s3Object.etag.getD "")
    if calculatedMd5 ≠ contentMd5 then throw (.badContentMd5 etagContentMd5 calculatedMd5)

/-- Run a check; if it fails, remove the file and raise. -/
def orRemove (slot : Slot) (check : Except S3Error Unit) : S3Action Unit :=
  match check with
  | .ok _ => pure ()
  | .error error => do
      removeFile slot
      throw error

/-- The end of an upload: the checksum the client did not send is filled in,
    and the record goes into the bucket. -/
def completeUpload (bucket : Bucket) (key : String) (versionId : Option String)
    (s3Object : S3Object) (checksum : String) :
    S3Action ObjectVersion := do
  let s3Object := { s3Object with
    checksumValue := some ((truthy s3Object.checksumValue).getD checksum) }
  let version : ObjectVersion := ⟨key, versionId, true, some s3Object⟩
  setObject bucketName bucket version
  pure version

def putObject (request : PutObjectRequest) : S3Action ObjectVersion := do
  let bucket ← getBucket request.bucket
  Action.ofExcept (checkConditionHeaders request.ifMatch request.ifNoneMatch)
  let versionId := bucket.generateVersionId safeVersionId
  let etagContentMd5 ← Action.ofExcept (decodeContentMd5 d request.contentMd5)
  let headerAlgorithm ← Action.ofExcept (getS3ChecksumAlgorithmFromRequest request.checksums)
  Action.ofExcept (refuse request.refusal)
  let checksumAlgorithm ← Action.ofExcept request.algorithm
  let s3Object : S3Object :=
    { checksumAlgorithm := checksumAlgorithm.getD .crc64nvme
      checksumValue := headerAlgorithm.bind request.checksums }
  let slot := slotOf request.bucket ⟨request.key, versionId, true, some s3Object⟩
  openFile slot
  Action.ofExcept (checkPreconditions bucket request.key request.ifMatch request.ifNoneMatch)
  let s3Object ← StoredObject.write d slot s3Object request.body
  -- The decoder sets the value on the object when it reaches the end.
  let s3Object := { s3Object with
    checksumValue := request.checksumValue headerAlgorithm s3Object.checksumAlgorithm }
  let checksum ← StoredObject.checksum d slot s3Object
  orRemove slot
    (checkDigests d checksumAlgorithm s3Object request.contentMd5 etagContentMd5 checksum)
  completeUpload request.bucket bucket request.key versionId s3Object checksum

/-- `CopyObjectRequest`, with the headers the operation reads. -/
structure CopyObjectRequest where
  bucket : String
  key : String
  srcBucket : String
  srcKey : String
  srcVersionId : Option String := none
  ifMatch : Option String := none
  ifNoneMatch : Option String := none
  checksumAlgorithm : Option ChecksumAlgorithm := none
  -- One of the attributes that may change in a copy to itself does.
  changesAttributes : Bool := false
  -- The error of a check of one of the other fields, some of which read the
  -- source object.
  refusal : ObjectVersion → Option S3Error := fun _ => none

variable (versionId : Option String)

def getCopySource : Except S3Error ObjectVersion :=
  match bucket.getObject key versionId .get with
  | .error (.methodNotAllowed _ _) => .error (.invalidRequest
      "The source of a copy request may not specifically refer to a delete marker by version id.")
  | result => result

/-- A copy of an object to itself has to change something. -/
def checkCopyToItself : Except S3Error Unit :=
  if request.srcBucket = request.bucket ∧ request.srcKey = request.key ∧
      request.changesAttributes = false then
    .error (.invalidRequest
      ("This copy request is illegal because it is trying to copy an object to itself without " ++
        "changing the object's metadata, storage class, website redirect location or " ++
        "encryption attributes."))
  else .ok ()

/-- The end of a copy: the preconditions of the destination, the digests of
    the copied file, and the record. -/
def completeCopy (srcObject s3Object : S3Object) (slot : Slot) : S3Action ObjectVersion := do
  Action.ofExcept (checkPreconditions bucket request.key request.ifMatch request.ifNoneMatch)
  let checksum ← StoredObject.checksum d slot s3Object
  let st ← get
  let s3Object := { s3Object with
    checksumValue := (truthy (some checksum)).or srcObject.checksumValue
    etag := (truthy (some (d.md5 (st.content slot)))).or srcObject.etag }
  let version : ObjectVersion := ⟨request.key, versionId, true, some s3Object⟩
  setObject request.bucket bucket version
  pure version

def copyObject : S3Action ObjectVersion := do
  Action.ofExcept (checkConditionHeaders request.ifMatch request.ifNoneMatch)
  let bucket ← getBucket request.bucket
  let srcBucket ← getBucket request.srcBucket
  let srcVersion ← Action.ofExcept (getCopySource srcBucket request.srcKey request.srcVersionId)
  Action.ofExcept (refuse (request.refusal srcVersion))
  Action.ofExcept (checkCopyToItself request)
  let versionId := bucket.generateVersionId safeVersionId
  let srcObject := srcVersion.object.getD {}
  let s3Object : S3Object :=
    { size := srcObject.size
      checksumAlgorithm := request.checksumAlgorithm.getD srcObject.checksumAlgorithm }
  let target : ObjectVersion := ⟨request.key, versionId, true, some s3Object⟩
  let s3Object ← copyFile d request.srcBucket srcVersion request.bucket target s3Object
  completeCopy d bucket request versionId srcObject s3Object (slotOf request.bucket target)

/-- The form of an upload, with the fields the operation reads. -/
structure PostObjectRequest where
  bucket : String
  key : String
  -- The name of an uploaded file; a form field `file` has none.
  filename : Option String := none
  checksumAlgorithm : Option ChecksumAlgorithm := none
  -- The field `x-amz-checksum-` with the name of the algorithm.
  checksumValue : Option String := none
  body : Stream
  isMultipartForm : Bool := true
  -- The error of a check of one of the other fields.
  refusal : Option S3Error := none

def PostObjectRequest.objectKey (request : PostObjectRequest) : String :=
  match request.filename with
  | some filename => request.key.replace "$\x7bfilename\x7d" filename
  | none => request.key

/-- The check of `post_object` between the write and `objects.set`. -/
def checkFormChecksum (checksumValue : Option String) (checksum : String) : Except S3Error Unit :=
  match truthy checksumValue, checksumAlgorithm with
  | some checksumValue, some algorithm =>
    if checksumValue ≠ checksum then
      .error (.invalidRequest
        ("Value for x-amz-checksum-" ++ algorithm.lower ++ " header is invalid."))
    else .ok ()
  | _, _ => .ok ()

def postObject (request : PostObjectRequest) : S3Action ObjectVersion := do
  if !request.isMultipartForm then
    throw (.preconditionFailed "Bucket POST must be of the enclosure-type multipart/form-data")
  let bucket ← getBucket request.bucket
  Action.ofExcept (refuse request.refusal)
  let versionId := bucket.generateVersionId safeVersionId
  let s3Object : S3Object :=
    { checksumAlgorithm := request.checksumAlgorithm.getD .crc64nvme
      checksumValue := request.checksumAlgorithm.bind fun _ => request.checksumValue }
  let slot := slotOf request.bucket ⟨request.objectKey, versionId, true, some s3Object⟩
  openFile slot
  let s3Object ← StoredObject.write d slot s3Object request.body
  let checksum ← StoredObject.checksum d slot s3Object
  orRemove slot (checkFormChecksum request.checksumAlgorithm s3Object.checksumValue checksum)
  completeUpload request.bucket bucket request.objectKey versionId s3Object checksum

end LocalEmu.S3
