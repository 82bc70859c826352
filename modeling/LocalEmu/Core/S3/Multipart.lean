import LocalEmu.Core.S3.Checksums
import LocalEmu.Core.S3.Provider

/-!
# Multipart Uploads

An upload in parts: `UploadPart` stores a part, `CompleteMultipartUpload` puts
the listed parts together. What is known of a part and its bytes are kept
apart. The record of a part is in the upload, under the spelling of its number;
its file is in the storage backend, under the number. A call that fails while
the body is written or checked removes the file, and leaves the record of an
earlier call.

The state is that of one upload and of the object it becomes. Finding the
bucket and the upload, the conditional headers and the encryption parameters
decide only whether a request is refused before anything happens; such a
refusal is a field of the request.
-/

namespace LocalEmu.S3

inductive ChecksumType
  | composite
  | fullObject
  deriving DecidableEq

def ChecksumType.name : ChecksumType → String
  | composite => "COMPOSITE"
  | fullObject => "FULL_OBJECT"

/-- The errors of the operations on an upload. -/
inductive UploadError
  -- The errors that are not specific to uploads.
  | s3 (error : S3Error)
  | invalidArgument (message argumentName argumentValue : String)
  | invalidPart (etag partNumber uploadId : String)
  | invalidPartOrder (uploadId : String)
  | entityTooSmall (etag partNumber : String) (minSizeAllowed proposedSize : Nat)
  | badDigest (message : String)
  | invalidPartNumber (partNumberRequested actualPartCount : Nat)
  -- Exceptions that no handler turns into a service error.
  | typeError (message : String)
  | combine (error : CombineError)
  | valueError (message : String)

/-- The conversions of bytes the completion uses. -/
structure Codecs where
  /-- `bytes.fromhex`. -/
  fromHex : String → Option Bytes
  /-- `base64.b64decode`. -/
  b64decode : String → Option Bytes
  /-- `base64.b64encode`. -/
  b64encode : Bytes → String

/-- `S3Part`, once its body is written. -/
structure S3Part where
  partNumber : Nat
  size : Nat
  etag : String
  checksumAlgorithm : Option ChecksumAlgorithm
  checksumValue : Option String

structure InternalObjectPart where
  position : Nat
  size : Nat
  etag : String
  partNumber : Nat
  checksum : Option String := none

/-- What the completion sets of the object of an upload. -/
structure MultipartObject where
  size : Nat := 0
  etag : Option String := none
  parts : Dict String InternalObjectPart := Dict.empty
  checksumAlgorithm : Option ChecksumAlgorithm := some .crc64nvme
  checksumValue : Option String := none
  checksumType : Option ChecksumType := none

/-- `S3Multipart`: the records of the parts by the spelling of their number. -/
structure S3Multipart where
  id : String
  checksumAlgorithm : Option ChecksumAlgorithm := none
  checksumType : Option ChecksumType := none
  parts : Dict String S3Part := Dict.empty
  object : MultipartObject := {}

/-- An upload, the files of its parts by number, and the file of its object. -/
structure UploadState where
  multipart : S3Multipart
  partFiles : Dict Nat Bytes := Dict.empty
  objectFile : Bytes := []

abbrev UploadAction (α : Type) := Action UploadState UploadError α

def ofS3 {α : Type} (check : Except S3Error α) : Except UploadError α := check.mapError .s3

/-! ### Files of parts -/

def UploadState.partContent (st : UploadState) (n : Nat) : Bytes := (st.partFiles.get? n).getD []

def UploadState.setPartContent (st : UploadState) (n : Nat) (content : Bytes) : UploadState :=
  { st with partFiles := st.partFiles.set n content }

variable (d : Digests) (n : Nat)

/-- `EphemeralS3StoredMultipart.open`. -/
def openPart : UploadAction Unit :=
  modify fun st =>
    match st.partFiles.get? n with
    | some _ => st
    | none => st.setPartContent n []

def removePart : UploadAction Unit :=
  modify fun st => { st with partFiles := st.partFiles.erase n }

/-- The loop of `EphemeralS3StoredObject.write`, for the file of a part. -/
def appendPart (n : Nat) : Stream → UploadAction Unit
  | .chunk data rest => do
      modify fun st => st.setPartContent n (st.partContent n ++ data)
      appendPart n rest
  | .done _ => pure ()
  | .broken error => throw (.s3 error)

/-- The checksum under the algorithm of a part, if it has one. -/
def partChecksum (algorithm : Option ChecksumAlgorithm) (content : Bytes) :
    Except UploadError (Option String) :=
  match algorithm with
  | none => .ok none
  | some algorithm => (ofS3 (getS3Checksum d algorithm content)).map some

/-- `EphemeralS3StoredObject.write`, for the file of a part. -/
def writePart (algorithm : Option ChecksumAlgorithm) (body : Stream) : UploadAction Unit := do
  let _ ← Action.ofExcept (partChecksum d algorithm [])
  modify fun st => st.setPartContent n []
  appendPart n body

/-! ### Uploading a part -/

/-- `UploadPartRequest`, with the headers the operation reads. -/
structure UploadPartRequest where
  partNumber : Int
  contentMd5 : Option String := none
  checksums : ChecksumAlgorithm → Option String := fun _ => none
  isAwsChunked : Bool := false
  trailer : String := ""
  body : Stream
  -- The error of a check of one of the other fields.
  refusal : Option S3Error := none

namespace UploadPartRequest

def number (request : UploadPartRequest) : Nat := request.partNumber.toNat

/-- The checksum algorithm of a part: of a checksum header or, for a chunked
    body, of the trailer. -/
def algorithm (request : UploadPartRequest) : Except S3Error (Option ChecksumAlgorithm) := do
  let checksumAlgorithm ← getS3ChecksumAlgorithmFromRequest request.checksums
  refuse request.refusal
  if request.isAwsChunked && checksumAlgorithm.isNone then
    getS3ChecksumAlgorithmFromTrailingHeaders request.trailer
  else pure checksumAlgorithm

/-- The checksum value of a part: of the trailing header, or of the header. -/
def checksumValue (request : UploadPartRequest) (algorithm : Option ChecksumAlgorithm) :
    Option String :=
  match algorithm with
  | none => none
  | some algorithm =>
    let trailing :=
      if request.isAwsChunked then
        truthy (request.body.trailingHeaders.lookup ("x-amz-checksum-" ++ algorithm.lower))
      else none
    trailing.or (truthy (request.checksums algorithm))

end UploadPartRequest

/-- A part has the checksum algorithm of the upload. An object that is encrypted
    with a customer key has none, and then any algorithm will do. -/
def checkPartAlgorithm (multipart : S3Multipart) (algorithm : Option ChecksumAlgorithm) :
    Except UploadError Unit :=
  if multipart.checksumAlgorithm.isSome ∧ algorithm ≠ multipart.checksumAlgorithm then
    match multipart.object.checksumAlgorithm with
    | none => .ok ()
    | some expected => .error (.s3 (.invalidRequest
        ("Checksum Type mismatch occurred, expected checksum Type: " ++ expected.lower ++
          ", actual checksum Type: " ++ (algorithm.map ChecksumAlgorithm.lower).getD "null")))
  else .ok ()

/-- The checks of `upload_part` before the file of the part is opened, with the
    checksum algorithm of the part. -/
def checkUploadPart (d : Digests) (multipart : S3Multipart) (request : UploadPartRequest) :
    Except UploadError (Option ChecksumAlgorithm) := do
  if request.partNumber < 1 ∨ 10000 < request.partNumber then
    throw (.invalidArgument "Part number must be an integer between 1 and 10000, inclusive"
      "partNumber" (toString request.partNumber))
  let _ ← ofS3 (decodeContentMd5 d request.contentMd5)
  let algorithm ← ofS3 request.algorithm
  checkPartAlgorithm multipart algorithm
  return algorithm

/-- The checks of `upload_part` after the body is written. -/
def checkPartDigests (request : UploadPartRequest) (s3Part : S3Part)
    (content : Bytes) : Except UploadError Unit := do
  match s3Part.checksumAlgorithm with
  | none => pure ()
  | some algorithm =>
    let valid :=
      match s3Part.checksumValue with
      | some checksumValue => validateChecksumValue d checksumValue (some algorithm)
      | none => false
    if !valid then
      throw (.s3 (.invalidRequest
        ("Value for x-amz-checksum-" ++ algorithm.lower ++ " header is invalid.")))
    else if s3Part.checksumValue ≠ some (d.checksum algorithm content) then
      throw (.s3 (.badChecksum algorithm.upper))
  match truthy request.contentMd5 with
  | none => pure ()
  | some contentMd5 =>
    let calculatedMd5 := d.etagToContentMd5 s3Part.etag
    if calculatedMd5 ≠ contentMd5 then
      throw (.s3 (.badContentMd5 contentMd5 calculatedMd5))

/-- Run a check; if it fails, remove the part and raise. -/
def orRemovePart (check : Except UploadError Unit) : UploadAction Unit :=
  match check with
  | .ok _ => pure ()
  | .error error => do
      removePart n
      throw error

/-- `upload_part`. -/
def uploadPart (request : UploadPartRequest) : UploadAction S3Part := do
  let st ← get
  let algorithm ← Action.ofExcept (checkUploadPart d st.multipart request)
  let n := request.number
  openPart n
  Action.attempt (writePart d n algorithm request.body) fun error => do
    removePart n
    throw error
  let st ← get
  let content := st.partContent n
  let s3Part : S3Part :=
    { partNumber := n
      size := content.length
      etag := d.md5 content
      checksumAlgorithm := algorithm
      checksumValue := request.checksumValue algorithm }
  orRemovePart n (checkPartDigests d request s3Part content)
  modify fun st => { st with
    multipart := { st.multipart with parts := st.multipart.parts.set (toString n) s3Part } }
  pure s3Part

/-! ### Completing an upload -/

/-- `S3_UPLOAD_PART_MIN_SIZE`. -/
def uploadPartMinSize : Nat := 5242880

/-- `CompletedPart`, with its checksum fields in order. -/
structure CompletedPart where
  partNumber : Nat
  etag : String
  checksums : List (ChecksumAlgorithm × String) := []

/-- The checksum of the parts so far. -/
inductive PartsHash
  | nothing
  | composite (data : Bytes)
  | combined (hash : CombinedCrcHash)

/-- The variables of the loop of `complete_multipart`. -/
structure Assembly where
  pos : Nat := 0
  partsMap : Dict String InternalObjectPart := Dict.empty
  etags : Bytes := []
  hash : PartsHash := .nothing

namespace S3Multipart

/-- The checksum before the first part. -/
def startHash (multipart : S3Multipart) : Except UploadError PartsHash :=
  match multipart.checksumAlgorithm with
  | none => .ok .nothing
  | some algorithm =>
    if multipart.checksumType = some .composite then .ok (.composite [])
    else ((CombinedCrcHash.new algorithm).mapError UploadError.combine).map .combined

/-- The checksum a client sent for a listed part is that of the part. -/
def checkPartChecksum (multipart : S3Multipart) (algorithm : ChecksumAlgorithm)
    (part : CompletedPart) (s3Part : S3Part) : Except UploadError Unit :=
  match truthy (part.checksums.lookup algorithm) with
  | none =>
    if multipart.checksumType = some .composite then
      match part.checksums.head? with
      | some field => .error (.badDigest
          ("The " ++ field.1.lower ++ " you specified for part " ++ toString part.partNumber ++
            " did not match what we received."))
      | none => .error (.s3 (.invalidRequest
          ("The upload was created using a " ++ algorithm.lower ++ " checksum. " ++
            "The complete request must include the checksum for each part. " ++
            "It was missing for part " ++ toString part.partNumber ++ " in the request.")))
    else .ok ()
  | some value =>
    if s3Part.checksumValue ≠ some value then
      .error (.invalidPart (stripQuotes part.etag) (toString part.partNumber) multipart.id)
    else .ok ()

def updateHash (c : Codecs) (hash : PartsHash) (s3Part : S3Part) : Except UploadError PartsHash :=
  match s3Part.checksumValue with
  | none => .error (.typeError
      "argument should be a bytes-like object or ASCII string, not 'NoneType'")
  | some checksumValue =>
    match c.b64decode checksumValue with
    | none => .error (.valueError "Incorrect padding")
    | some value =>
      match hash with
      | .nothing => .ok .nothing
      | .composite data => .ok (.composite (data ++ value))
      | .combined hash =>
        ((hash.combine value s3Part.size).mapError UploadError.combine).map .combined

def partHash (c : Codecs) (multipart : S3Multipart) (hash : PartsHash) (part : CompletedPart)
    (s3Part : S3Part) : Except UploadError PartsHash :=
  match multipart.checksumAlgorithm with
  | none => .ok hash
  | some algorithm => do
      multipart.checkPartChecksum algorithm part s3Part
      updateHash c hash s3Part

def placePart (c : Codecs) (multipart : S3Multipart) (acc : Assembly) (partNumber : String)
    (s3Part : S3Part) (hash : PartsHash) : Except UploadError Assembly :=
  match c.fromHex s3Part.etag with
  | none => .error (.valueError "non-hexadecimal number found in fromhex() arg")
  | some etag => .ok
      { pos := acc.pos + s3Part.size
        partsMap := acc.partsMap.set partNumber
          { position := acc.pos
            size := s3Part.size
            etag := s3Part.etag
            partNumber := s3Part.partNumber
            checksum :=
              if multipart.checksumAlgorithm.isSome ∧
                  multipart.checksumType = some .composite then s3Part.checksumValue
              else none }
        etags := acc.etags ++ etag
        hash := hash }

/-- The body of the loop of `complete_multipart`. -/
def completePart (c : Codecs) (multipart : S3Multipart) (acc : Assembly) (isLast : Bool)
    (part : CompletedPart) : Except UploadError Assembly :=
  let partNumber := toString part.partNumber
  let partEtag := stripQuotes part.etag
  match multipart.parts.get? partNumber with
  | none => .error (.invalidPart partEtag partNumber multipart.id)
  | some s3Part =>
    if s3Part.etag ≠ partEtag ∨ (multipart.checksumAlgorithm = none ∧ part.checksums ≠ []) then
      .error (.invalidPart partEtag partNumber multipart.id)
    else do
      let hash ← multipart.partHash c acc.hash part s3Part
      if isLast = false ∧ s3Part.size < uploadPartMinSize then
        .error (.entityTooSmall partEtag partNumber uploadPartMinSize s3Part.size)
      else multipart.placePart c acc partNumber s3Part hash

/-- The loop of `complete_multipart`. -/
def completeParts (c : Codecs) (multipart : S3Multipart) :
    Assembly → List CompletedPart → Except UploadError Assembly
  | acc, [] => .ok acc
  | acc, part :: parts => do
      let acc ← completePart c multipart acc parts.isEmpty part
      completeParts c multipart acc parts

/-- The checksum of the object, from that of its parts. -/
def objectChecksum (d : Digests) (c : Codecs) (multipart : S3Multipart) (hash : PartsHash)
    (count : Nat) (validationChecksum : Option String) : Except UploadError (Option String) :=
  match multipart.checksumAlgorithm with
  | none => .ok none
  | some algorithm =>
    let value :=
      match hash with
      | .nothing => ""
      | .composite data => d.checksum algorithm data
      | .combined hash => c.b64encode hash.digest
    if multipart.checksumType = some .composite then
      .ok (some (value ++ "-" ++ toString count))
    else if multipart.checksumType = some .fullObject ∧ (truthy validationChecksum).isSome ∧
        validationChecksum ≠ some value then
      .error (.badDigest ("The " ++
        ((multipart.object.checksumAlgorithm.map ChecksumAlgorithm.lower).getD "") ++
        " you specified did not match the calculated checksum."))
    else .ok (some value)

/-- The size a client announced is the size of the parts. -/
def checkMpuSize (mpuSize : Option Nat) (pos : Nat) : Except UploadError Unit :=
  match mpuSize.filter fun size => size ≠ 0 with
  | none => .ok ()
  | some mpuSize =>
    if mpuSize ≠ pos then
      .error (.s3 (.invalidRequest
        ("The provided 'x-amz-mp-object-size' header value " ++ toString mpuSize ++
          " does not match what was computed: " ++ toString pos)))
    else .ok ()

/-- `S3Multipart.complete_multipart`: the object of the upload. -/
def completeMultipart (d : Digests) (c : Codecs) (multipart : S3Multipart)
    (parts : List CompletedPart) (mpuSize : Option Nat) (validationChecksum : Option String) :
    Except UploadError MultipartObject := do
  let hash ← multipart.startHash
  let acc ← multipart.completeParts c { hash := hash } parts
  checkMpuSize mpuSize acc.pos
  let checksum ← multipart.objectChecksum d c acc.hash parts.length validationChecksum
  return { multipart.object with
    checksumValue := checksum.or multipart.object.checksumValue
    etag := some (d.md5 acc.etags ++ "-" ++ toString parts.length)
    parts := acc.partsMap }

end S3Multipart

/-- `CompleteMultipartUploadRequest`, with the fields the operation reads. -/
structure CompleteMultipartUploadRequest where
  parts : List CompletedPart
  checksums : ChecksumAlgorithm → Option String := fun _ => none
  checksumType : Option ChecksumType := none
  mpuObjectSize : Option Nat := none
  -- The error of a check of one of the other fields.
  refusal : Option S3Error := none

namespace CompleteMultipartUploadRequest

variable (request : CompleteMultipartUploadRequest)

def partsNumbers : List Nat :=
  request.parts.map CompletedPart.partNumber

variable (multipart : S3Multipart)

/-- The checks of `complete_multipart_upload` before the parts are looked at. -/
def check : Except UploadError Unit := do
  ofS3 (refuse request.refusal)
  if request.parts = [] then
    throw (.s3 (.invalidRequest "You must specify at least one part"))
  if ¬ request.partsNumbers.Pairwise (· ≤ ·) then
    throw (.invalidPartOrder multipart.id)
  if request.checksumType.isSome ∧ request.checksumType ≠ multipart.checksumType then
    throw (.s3 (.invalidRequest
      ("The upload was created using the " ++
        ((multipart.checksumType.map ChecksumType.name).getD "null") ++ " checksum mode. " ++
        "The complete request must use the same checksum mode.")))

/-- The checksum value for the algorithm of the upload. -/
def checksumValue : Option String :=
  multipart.checksumAlgorithm.bind request.checksums

/-- The check of `complete_multipart_upload` after the parts are looked at: a
    checksum the request should not have. -/
def checkChecksums : Except UploadError Unit :=
  match multipart.checksumAlgorithm with
  | none => .ok ()
  | some algorithm =>
    if ((truthy (request.checksumValue multipart)).isSome ∧
          multipart.checksumType = some .fullObject ∧ request.checksumType = none) ∨
        ∃ other ∈ ChecksumAlgorithm.all, other ≠ algorithm ∧
          (truthy (request.checksums other)).isSome then
      .error (.badDigest ("The " ++ algorithm.lower ++
        " you specified did not match the calculated checksum."))
    else .ok ()

end CompleteMultipartUploadRequest

/-- The loop of `EphemeralS3StoredMultipart.complete_multipart`: append part after part to the file
    of the object. Opening a part that has no file creates an empty one. -/
def appendParts : List S3Part → UploadAction Unit
  | [] => pure ()
  | s3Part :: s3Parts => do
      openPart s3Part.partNumber
      modify fun st => { st with
        objectFile := st.objectFile ++ st.partContent s3Part.partNumber
        multipart := { st.multipart with
          object := { st.multipart.object with
            size := st.multipart.object.size + (st.partContent s3Part.partNumber).length } } }
      appendParts s3Parts

/-- `EphemeralS3StoredMultipart.complete_multipart`. -/
def storeParts (s3Parts : List S3Part) : UploadAction Unit := do
  modify fun st => { st with
    objectFile := []
    multipart := { st.multipart with object := { st.multipart.object with size := 0 } } }
  appendParts s3Parts

def setMultipartObject (object : MultipartObject) : UploadAction Unit :=
  modify fun st => { st with multipart := { st.multipart with object := object } }

/-- Complete the records of an upload, with the fallback for uploads of an older
    version, and set its object. -/
def completeRecords (c : Codecs) (request : CompleteMultipartUploadRequest)
    (multipart : S3Multipart) : UploadAction Unit :=
  match multipart.completeMultipart d c request.parts request.mpuObjectSize
      (request.checksumValue multipart) with
  | .error (.typeError _) => do
      let object ← Action.ofExcept (multipart.completeMultipart d c request.parts none none)
      setMultipartObject object
  | .error error => throw error
  | .ok object =>
    match request.checkChecksums multipart with
    | .ok _ => setMultipartObject object
    | .error error => do
        setMultipartObject { object with parts := Dict.empty }
        throw error

/-- An upload without a checksum algorithm gets the checksum of its file. -/
def completeChecksum (multipart : S3Multipart) : UploadAction Unit := do
  let st ← get
  let object := st.multipart.object
  if multipart.checksumAlgorithm.isNone ∧ object.checksumAlgorithm.isSome then
    let value ← Action.ofExcept (partChecksum d object.checksumAlgorithm st.objectFile)
    setMultipartObject { object with checksumValue := value, checksumType := some .fullObject }
  else pure ()

/-- `complete_multipart_upload`: the object, which then goes into the bucket.
    The files of the parts go. -/
def completeMultipartUpload (c : Codecs)
    (request : CompleteMultipartUploadRequest) : UploadAction MultipartObject := do
  let st ← get
  Action.ofExcept (request.check st.multipart)
  completeRecords d c request st.multipart
  storeParts (request.partsNumbers.filterMap fun n => st.multipart.parts.get? (toString n))
  completeChecksum d st.multipart
  modify fun st => { st with partFiles := Dict.empty }
  let st ← get
  pure st.multipart.object

/-! ### Reading a part -/

/-- `ObjectRange`. The end may be one before the beginning. -/
structure ObjectRange where
  contentRange : String
  contentLength : Nat
  begin_ : Nat
  end_ : Int

/-- The range of so many bytes from a position. -/
def ObjectRange.of (first length size : Nat) : ObjectRange where
  contentRange := "bytes " ++ toString first ++ "-" ++ toString ((first + length : Int) - 1) ++
    "/" ++ toString size
  contentLength := length
  begin_ := first
  end_ := (first + length : Int) - 1

/-- `get_part_range`. -/
def getPartRange (object : MultipartObject) (partNumber : Nat) :
    Except UploadError ObjectRange :=
  if object.parts.entries = [] then
    if 1 < partNumber then .error (.invalidPartNumber partNumber 1)
    else .ok (.of 0 object.size object.size)
  else
    match object.parts.get? (toString partNumber) with
    | none => .error (.invalidPartNumber partNumber object.parts.entries.length)
    | some part => .ok (.of part.position part.size object.size)

def ObjectRange.bytes (range : ObjectRange) (content : Bytes) : Bytes :=
  (content.drop range.begin_).take range.contentLength

end LocalEmu.S3
