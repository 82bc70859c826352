import LocalEmu.Core.S3.Bucket

/-!
# Combining Checksums

The full checksum of a multipart object is computed from the checksums and the
lengths of its parts. `combine` applies the operator that shifts a register by
the bits of the second part, a matrix over two elements, to the checksum of the
first part. The operator for one byte is squared again and again, alternately
in two buffers, and applied for each set bit of the length.

Integers of the source are never negative here except for the parameters of
`createCombineFunction`, so they are natural numbers.
-/

namespace LocalEmu.S3

/-- The exceptions of a combination. -/
inductive CombineError
  | indexError
  | overflowError
  | valueError (message : String)

def crc64NvmePolynomial : Nat := 0xAD93D23594C93659

def crc32Polynomial : Nat := 0x104C11DB7

def crc32cPolynomial : Nat := 0x1EDC6F41

def crc64XorOut : Nat := 0xFFFFFFFFFFFFFFFF

def crc32XorOut : Nat := 0xFFFFFFFF

/-! ### Matrices -/

/-- The loop of `gf2_matrix_times`, which walks the columns and the bits of the
    vector together. A bit beyond the last column is an `IndexError`. -/
def gf2MatrixTimesLoop : List Nat → Nat → Nat → Except CombineError Nat
  | [], vec, summary => if vec = 0 then .ok summary else .error .indexError
  | column :: mat, vec, summary =>
    if vec = 0 then .ok summary
    else
      gf2MatrixTimesLoop mat (vec >>> 1)
        (if vec &&& 1 = 1 then summary ^^^ column else summary)

def gf2MatrixTimes (mat : List Nat) (vec : Nat) : Except CombineError Nat :=
  gf2MatrixTimesLoop mat vec 0

/-- `gf2_matrix_square`. The buffer for the square is as long as the matrix, so
    nothing of its old content remains. -/
def gf2MatrixSquare (mat : List Nat) : Except CombineError (List Nat) :=
  mat.mapM (gf2MatrixTimes mat)

/-! ### Bytes -/

/-- The digits of a number to the base 256, the highest first. -/
def bigEndian (value length : Nat) : Bytes :=
  (List.range length).reverse.map fun i => UInt8.ofNat (value / 256 ^ i)

/-- `value.to_bytes(length, byteorder="big")`. -/
def toBytes (value length : Nat) : Except CombineError Bytes :=
  if value < 256 ^ length then .ok (bigEndian value length) else .error .overflowError

/-- `int.from_bytes(data, byteorder="big")`. -/
def fromBytes (data : Bytes) : Nat :=
  data.foldl (fun value byte => value * 256 + byte.toNat) 0

def encodeToBytes (crc sizeBits : Nat) : Except CombineError Bytes :=
  if sizeBits = 64 then toBytes crc 8
  else if sizeBits = 32 then toBytes crc 4
  else .error (.valueError "size_bites must be 32 or 64")

/-! ### Combination -/

/-- Apply the operator if the lowest bit of the length is set. -/
def timesIfOdd (mat : List Nat) (crc1 len2 : Nat) : Except CombineError Nat :=
  if len2 &&& 1 = 1 then gf2MatrixTimes mat crc1 else .ok crc1

/-- The loop of `_combine`. Each round squares the operator into the one buffer
    and back into the other, and uses it for two bits of the length. -/
def combineLoop (odd : List Nat) (crc1 len2 : Nat) : Except CombineError Nat := do
  let even ← gf2MatrixSquare odd
  let crc1 ← timesIfOdd even crc1 len2
  if _h : len2 >>> 1 = 0 then return crc1
  let odd ← gf2MatrixSquare even
  let crc1 ← timesIfOdd odd crc1 (len2 >>> 1)
  if (len2 >>> 1) >>> 1 = 0 then return crc1
  combineLoop odd crc1 ((len2 >>> 1) >>> 1)
termination_by len2
decreasing_by
  simp only [Nat.shiftRight_succ, Nat.shiftRight_zero] at *
  omega

/-- The operator for one zero bit. -/
def bitOperator (poly sizeBits : Nat) (rev : Bool) : List Nat :=
  if rev then poly :: (List.range (sizeBits - 1)).map fun n => 1 <<< n
  else (List.range (sizeBits - 1)).map (fun n => 2 <<< n) ++ [poly]

/-- `_combine`. -/
def combine (poly sizeBits initCrc : Nat) (rev : Bool) (xorOut crc1 crc2 len2 : Nat) :
    Except CombineError Bytes := do
  if len2 = 0 then encodeToBytes crc1 sizeBits
  else
    let crc1 := crc1 ^^^ (initCrc ^^^ xorOut)
    let even ← gf2MatrixSquare (bitOperator poly sizeBits rev)
    let odd ← gf2MatrixSquare even
    let crc1 ← combineLoop odd crc1 len2
    encodeToBytes (crc1 ^^^ crc2) sizeBits

/-- The loop of `_bitrev`. -/
def bitrevLoop : Nat → Nat → Nat → Nat
  | 0, _, y => y
  | n + 1, x, y => bitrevLoop n (x >>> 1) (y <<< 1 ||| (x &&& 1))

def bitrev (x n : Nat) : Nat := bitrevLoop n x 0

/-- `value & mask`, for an integer of either sign. -/
def mask (value : Int) (sizeBits : Nat) : Nat := (value % 2 ^ sizeBits).toNat

/-- A checksum as the combination takes it. -/
inductive CrcValue
  | bytes (data : Bytes)
  | int (value : Nat)

def CrcValue.toInt : CrcValue → Nat
  | bytes data => fromBytes data
  | int value => value

/-- The combination for a polynomial. -/
def createCombineFunction (poly sizeBits : Nat) (initCrc : Int) (rev : Bool) (xorOut : Int)
    (crc1 crc2 : CrcValue) (len2 : Nat) : Except CombineError Bytes :=
  let initCrc := mask initCrc sizeBits
  let xorOut := mask xorOut sizeBits
  let poly := if rev then bitrev (mask poly sizeBits) sizeBits else mask poly sizeBits
  combine poly sizeBits (initCrc ^^^ xorOut) rev xorOut crc1.toInt crc2.toInt len2

def combineCrc64Nvme : CrcValue → CrcValue → Nat → Except CombineError Bytes :=
  createCombineFunction crc64NvmePolynomial 64 0 true crc64XorOut

def combineCrc32 : CrcValue → CrcValue → Nat → Except CombineError Bytes :=
  createCombineFunction crc32Polynomial 32 0 true crc32XorOut

def combineCrc32c : CrcValue → CrcValue → Nat → Except CombineError Bytes :=
  createCombineFunction crc32cPolynomial 32 0 true crc32XorOut

/-! ### The running combination -/

/-- The running combination over the parts. -/
structure CombinedCrcHash where
  combineFunction : CrcValue → CrcValue → Nat → Except CombineError Bytes
  checksum : Bytes

namespace CombinedCrcHash

/-- `CombinedCrcHash(checksum_type)`. -/
def new (checksumType : ChecksumAlgorithm) : Except CombineError CombinedCrcHash :=
  match checksumType with
  | .crc32 => .ok ⟨combineCrc32, []⟩
  | .crc32c => .ok ⟨combineCrc32c, []⟩
  | .crc64nvme => .ok ⟨combineCrc64Nvme, []⟩
  | _ => .error (.valueError "You cannot combine SHA based checksums")

def combine (hash : CombinedCrcHash) (value : Bytes) (objectLen : Nat) :
    Except CombineError CombinedCrcHash := do
  if hash.checksum = [] then return { hash with checksum := value }
  let checksum ← hash.combineFunction (.bytes hash.checksum) (.bytes value) objectLen
  return { hash with checksum := checksum }

def digest (hash : CombinedCrcHash) : Bytes := hash.checksum

end CombinedCrcHash

end LocalEmu.S3
