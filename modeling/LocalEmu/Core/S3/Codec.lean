import Mathlib.Data.List.DropRight
import LocalEmu.Base.Text
import LocalEmu.Core.S3.Bucket

/-!
# Chunked Uploads

The decoder of `aws-chunked` reads from a stream in which each chunk follows a line with its
size, up to a chunk of size zero, after which the trailing headers come. Flags say whether
the next read has to go on to another chunk. What a read raises ends the upload.
-/

namespace LocalEmu.S3

/-- What the decoder needs of Python: `int(text, 16)`, which ignores the end of a line and
    refuses the empty text, and `decode`, `lower` and `strip`. -/
structure ChunkLibrary where
  int16 : Bytes → Option Int
  int16_nil : int16 [] = none
  int16_line : ∀ text, int16 (text ++ [13, 10]) = int16 text
  decode : Bytes → Option Text
  lower : Text → Text
  strip : Text → Text

/-- An exception of the decoder. -/
inductive DecoderError
  | valueError
  | eofError (message : String)
  | attributeError (message : String)
  deriving DecidableEq

/-- What the decoder reads and sets of an object or a part. -/
structure ChecksumHolder where
  checksumAlgorithm : Option Text
  checksumValue : Option Text

/-- `AwsChunkedDecoder`. -/
structure AwsChunkedDecoder where
  stream : Bytes
  decodedLength : Int
  s3Object : Option ChecksumHolder
  newChunk : Bool := true
  endChunk : Bool := false
  trailingSet : Bool := false
  chunkSize : Int := 0
  trailingHeaders : Dict Text Text := Dict.empty

/-! ### Streams -/

/-- `stream.readline()`: the line and what follows it. -/
def readline (stream : Bytes) : Bytes × Bytes :=
  (stream.takeWhile (· ≠ 10) ++ (stream.dropWhile (· ≠ 10)).take 1,
    (stream.dropWhile (· ≠ 10)).drop 1)

/-- The lines that `readline` returns until the stream ends, after the start of a line. -/
def readlines : Bytes → Bytes → List Bytes
  | [], [] => []
  | line, [] => [line]
  | line, b :: stream =>
    if b = 10 then (line ++ [b]) :: readlines [] stream else readlines (line ++ [b]) stream

/-- The bytes that `bytes.strip` takes away. -/
def isSpaceByte (b : UInt8) : Bool := (9 ≤ b && b ≤ 13) || b == 32

/-- `bytes.strip`. -/
def stripBytes (text : Bytes) : Bytes := (text.dropWhile isSpaceByte).rdropWhile isSpaceByte

/-- `stream.read(amount)`. -/
def readAmount (stream : Bytes) (amount : Int) : Bytes :=
  if amount < 0 then stream else stream.take amount.toNat

namespace AwsChunkedDecoder

variable (py : ChunkLibrary) (d : AwsChunkedDecoder)

/-- `AwsChunkedDecoder(stream, decoded_content_length, s3_object)`. -/
def new (stream : Bytes) (decodedContentLength : Int) (s3Object : Option ChecksumHolder) :
    AwsChunkedDecoder where
  stream := stream
  decodedLength := decodedContentLength
  s3Object := s3Object

/-- `_strip_chunk_new_lines`. -/
def stripChunkNewLines : AwsChunkedDecoder := { d with stream := d.stream.drop 2 }

/-- `_get_next_chunk_length`. -/
def getNextChunkLength : Except DecoderError AwsChunkedDecoder :=
  match py.int16 ((readline d.stream).1.takeWhile (· ≠ 59)) with
  | some chunkLength => .ok { d with stream := (readline d.stream).2, chunkSize := chunkLength }
  | none => .error .valueError

/-- A line of `_get_trailing_headers`. -/
def addTrailingHeader (headers : Dict Text Text) (line : Bytes) :
    Except DecoderError (Dict Text Text) :=
  if stripBytes line = [] then .ok headers
  else
    match py.decode (stripBytes line) with
    | none => .error .valueError
    | some text =>
      match text.dropWhile (· ≠ ':') with
      | [] => .error .valueError
      | _ :: value =>
        .ok (headers.set (py.lower (text.takeWhile (· ≠ ':'))) (py.strip value))

/-- `_get_trailing_headers`. -/
def getTrailingHeaders : Except DecoderError AwsChunkedDecoder := do
  let headers ← (readlines [] d.stream).foldlM (addTrailingHeader py) d.trailingHeaders
  return { d with stream := [], trailingHeaders := headers, trailingSet := true }

/-- `_set_checksum_value`. -/
def setChecksumValue : AwsChunkedDecoder :=
  match d.s3Object with
  | none => d
  | some s3Object =>
    match (s3Object.checksumAlgorithm.filter (· ≠ [])).bind fun algorithm =>
        d.trailingHeaders.get? ("x-amz-checksum-".toList ++ py.lower algorithm) with
    | none | some [] => d
    | some value => { d with s3Object := some { s3Object with checksumValue := some value } }

/-- `read`, for a size that is not negative. -/
def read (size : Nat) : Except DecoderError (Bytes × AwsChunkedDecoder) :=
  if size = 0 then .ok ([], d)
  else do
    let d :=
      if d.endChunk then { d.stripChunkNewLines with newChunk := true, endChunk := false } else d
    let d ←
      if d.newChunk then do
        let d ← d.getNextChunkLength py
        pure { d with newChunk := false }
      else pure d
    if d.chunkSize = 0 ∧ d.decodedLength ≤ 0 then
      let d ← d.getTrailingHeaders py
      return ([], d.setChecksumValue py)
    else
      let data := readAmount d.stream (min d.chunkSize size)
      if data = [] then
        .error (.eofError "Encoded file ended before the end-of-stream marker was reached")
      else
        return (data, { d with
          stream := d.stream.drop data.length
          chunkSize := d.chunkSize - data.length
          endChunk := if d.chunkSize - data.length ≤ 0 then true else d.endChunk
          decodedLength := d.decodedLength - data.length })

/-- `trailing_headers`. -/
def trailing : Except DecoderError (Dict Text Text) :=
  if d.trailingSet then .ok d.trailingHeaders
  else .error (.attributeError
    "The stream has not been fully read yet, the trailing headers are not available.")

/-- Reads one after the other. -/
def reads (d : AwsChunkedDecoder) :
    List Nat → Except DecoderError (List Bytes × AwsChunkedDecoder)
  | [] => .ok ([], d)
  | size :: sizes => do
      let (data, d) ← d.read py size
      let (pieces, d) ← reads d sizes
      return (data :: pieces, d)

end AwsChunkedDecoder

end LocalEmu.S3
