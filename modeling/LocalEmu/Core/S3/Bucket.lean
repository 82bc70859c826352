import LocalEmu.Core.S3.KeyStore

/-!
# Buckets

A bucket is its versioning status together with the key store that goes with
it: the plain store while versioning was never configured, the versioned one
from then on. `getObject` reads it, with every error the requests for a missing
key, a missing version or a delete marker lead to.
-/

namespace LocalEmu.S3

abbrev Bytes := List UInt8

/-- `ChecksumAlgorithm`. A form field may hold any other name. -/
inductive ChecksumAlgorithm
  | crc32
  | crc32c
  | sha1
  | sha256
  | crc64nvme
  | unsupported (name : String)
  deriving DecidableEq

namespace ChecksumAlgorithm

def name : ChecksumAlgorithm → String
  | crc32 => "CRC32"
  | crc32c => "CRC32C"
  | sha1 => "SHA1"
  | sha256 => "SHA256"
  | crc64nvme => "CRC64NVME"
  | unsupported name => name

def lower (algorithm : ChecksumAlgorithm) : String := algorithm.name.toLower

def upper (algorithm : ChecksumAlgorithm) : String := algorithm.name.toUpper

/-- `CHECKSUM_ALGORITHMS`. -/
def all : List ChecksumAlgorithm := [sha1, sha256, crc32, crc32c, crc64nvme]

end ChecksumAlgorithm

/-- What the operations read of an object besides its key and version. -/
structure S3Object where
  etag : Option String := none
  size : Option Nat := none
  checksumAlgorithm : ChecksumAlgorithm := .crc64nvme
  checksumValue : Option String := none

/-- An object or a delete marker of a bucket. -/
abbrev ObjectVersion := S3Version S3Object

/-- The HTTP method of the original call. -/
inductive HttpMethod
  | get
  | put
  | head
  | delete
  deriving DecidableEq

/-- The errors of the object operations. The message of an error is
    `S3Error.message`; what else a response carries is in the fields. -/
inductive S3Error
  | noSuchBucket (bucketName : String)
  | invalidVersionId (argumentValue : String)
  -- The version id of the delete marker that hides the key, if one does.
  | noSuchKey (key : String) (deleteMarker : Option (Option String))
  | noSuchVersion (key versionId : String)
  | methodNotAllowed (method : HttpMethod) (versionId : Option String)
  | methodNotAllowedHead
  | notImplemented (header additionalMessage : String)
  | invalidDigest (contentMd5 : String)
  | preconditionFailed (condition : String)
  | invalidRequest (message : String)
  | badChecksum (algorithm : String)
  | badContentMd5 (expectedDigest calculatedDigest : String)
  -- A Python exception that no handler turns into a service error.
  | exception (name message : String)
  -- Raised by a check of a request field that is not part of the model.
  | refused (code message : String)

def S3Error.message : S3Error → String
  | noSuchBucket _ => "The specified bucket does not exist"
  | invalidVersionId _ => "Invalid version id specified"
  | noSuchKey _ _ => "The specified key does not exist."
  | noSuchVersion _ _ => "The specified version does not exist."
  | methodNotAllowed _ _ => "The specified method is not allowed against this resource."
  | methodNotAllowedHead => "Method Not Allowed"
  | notImplemented _ _ =>
    "A header you provided implies functionality that is not implemented"
  | invalidDigest _ => "The Content-MD5 you specified was invalid."
  | preconditionFailed _ => "At least one of the pre-conditions you specified did not hold"
  | invalidRequest message => message
  | badChecksum algorithm =>
    "The " ++ algorithm ++ " you specified did not match the calculated checksum."
  | badContentMd5 _ _ => "The Content-MD5 you specified did not match what we received."
  | exception _ message => message
  | refused _ message => message

/-- A bucket: its `versioning_status` and its `objects`. -/
inductive Bucket
  | unversioned (objects : KeyStore S3Object)
  | versioned (enabled : Bool) (objects : VersionedKeyStore S3Object)

namespace Bucket

variable (bucket : Bucket)

/-- `generate_version_id`, from the id `generate_safe_version_id` would return. -/
def generateVersionId (safeVersionId : String) : Option String :=
  match bucket with
  | unversioned _ => none
  | versioned true _ => some safeVersionId
  | versioned false _ => some "null"

variable (key : String)

/-- `objects.get(key)`. -/
def current : Option ObjectVersion :=
  match bucket with
  | unversioned objects => objects.get? key
  | versioned _ objects => VersionedKeyStore.get objects key none

/-- `objects.set(key, s3_object)`. -/
def setObject (s3Object : ObjectVersion) : Bucket :=
  match bucket with
  | unversioned objects => unversioned (Dict.set objects key s3Object)
  | versioned enabled objects => versioned enabled (VersionedKeyStore.set objects key s3Object)

/-- `S3Bucket.get_object`. -/
def getObject (versionId : Option String)
    (httpMethod : HttpMethod) : Except S3Error ObjectVersion :=
  match bucket with
  | unversioned objects =>
    if !falsy versionId && versionId != some "null" then
      .error (.invalidVersionId (versionId.getD ""))
    else
      match objects.get? key with
      | none => .error (.noSuchKey key none)
      | some s3Object => .ok s3Object
  | versioned _ objects =>
    if !falsy versionId then
      match VersionedKeyStore.get objects key versionId with
      | none => .error (.noSuchVersion key (versionId.getD ""))
      | some s3Object =>
        if s3Object.object.isSome then .ok s3Object
        else if httpMethod = .head then .error .methodNotAllowedHead
        else .error (.methodNotAllowed httpMethod s3Object.versionId)
    else
      match VersionedKeyStore.get objects key none with
      | none => .error (.noSuchKey key none)
      | some s3Object =>
        if s3Object.object.isSome then .ok s3Object
        else if httpMethod ≠ .head ∧ httpMethod ≠ .get then
          .error (.methodNotAllowed httpMethod s3Object.versionId)
        else .error (.noSuchKey key (some s3Object.versionId))

end Bucket

end LocalEmu.S3
