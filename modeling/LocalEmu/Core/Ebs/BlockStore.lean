import LocalEmu.Base.Dict

/-!
# The Block Store

Snapshots and volumes are directories. A directory has a file for every block and
a table with the token, the checksum and the length of every block, and the two
are written one after the other. A block is read from its file and listed from
the table.

`_write_block` replaces the file before it looks at the checksum. If the checksum
is not the one of the data, it removes the file again, and if the algorithm is
unknown, the file stays.

The name of a file and the key of the table are the index of the block as
text, and stand here as the index. What Python provides is a parameter.

## Main definitions

* `writeBlock`, `readBlock`, `listBlocks`, `copyBlocksBetween`: The internals.
* `getSnapshotBlock`, `listSnapshotBlocks`, `diffSnapshots`, `listChangedBlocks`: Those that read.
-/

namespace LocalEmu.Ebs

abbrev Bytes := List UInt8

/-- What Python provides: `str.upper`, `repr` of a string, and the digest in base64. -/
structure Builtins where
  upper : String → String
  repr : String → String
  sha256 : Bytes → String

/-- An exception. -/
inductive BlockStoreError
  | snapshotNotFound (snapshotId : String)
  | volumeNotFound (volumeId : String)
  | blockNotFound (scopeId : String) (blockIndex : Int)
  | valueError (message : String)
  /-- The file with the metadata is not there. -/
  | fileNotFound
  deriving DecidableEq

structure BlockRecord where
  blockIndex : Int
  blockToken : String
  checksum : String
  checksumAlgorithm : String
  dataLength : Nat
  deriving DecidableEq

/-- An entry of the table. -/
structure Token where
  token : String
  checksum : String
  checksumAlgorithm : String
  dataLength : Nat

/-- The files and the table of a directory. -/
structure Blocks where
  files : Dict Int Bytes
  tokens : Dict Int Token

/-- `SnapshotMeta`, without the time. -/
structure SnapshotMeta where
  snapshotId : String
  ownerId : String
  volumeSizeGib : Int
  blockSize : Nat
  status : String
  parentSnapshotId : Option String
  description : String

/-- `VolumeMeta`, without the time. -/
structure VolumeMeta where
  volumeId : String
  ownerId : String
  sizeGib : Int
  blockSize : Nat
  sourceSnapshotId : Option String

def blockSizeBytes : Nat := 524288

def computeChecksum (py : Builtins) (data : Bytes) (algorithm : String) :
    Except BlockStoreError String :=
  if py.upper algorithm = "SHA256" then .ok (py.sha256 data)
  else .error (.valueError ("unsupported checksum algorithm: " ++ algorithm))

namespace Blocks

def empty : Blocks := ⟨Dict.empty, Dict.empty⟩

/-- `_write_block`. The file is replaced, then the checksum is compared, then the
    table is written. -/
def writeBlock (py : Builtins) (blocks : Blocks) (blockIndex : Int) (blockData : Bytes)
    (checksum : Option String) (checksumAlgorithm uuid : String) :
    Blocks × Except BlockStoreError BlockRecord :=
  let replaced := { blocks with files := blocks.files.set blockIndex blockData }
  match computeChecksum py blockData checksumAlgorithm with
  | .error e => (replaced, .error e)
  | .ok computed =>
    match checksum.filter fun c => decide (c ≠ computed) with
    | some c =>
      ({ replaced with files := replaced.files.erase blockIndex },
        .error (.valueError ("checksum mismatch for block " ++ toString blockIndex ++
          ": caller=" ++ py.repr c ++ " computed=" ++ py.repr computed)))
    | none =>
      let entry := ⟨uuid, computed, py.upper checksumAlgorithm, blockData.length⟩
      ({ replaced with tokens := replaced.tokens.set blockIndex entry },
        .ok ⟨blockIndex, uuid, computed, py.upper checksumAlgorithm, blockData.length⟩)

/-- `_read_block`. A block without an entry in the table gets the defaults. -/
def readBlock (blocks : Blocks) (name : String) (blockIndex : Int) (uuid : String) :
    Except BlockStoreError (Bytes × BlockRecord) :=
  match blocks.files.get? blockIndex with
  | none => .error (.blockNotFound name blockIndex)
  | some data =>
    match blocks.tokens.get? blockIndex with
    | some rec =>
      .ok (data, ⟨blockIndex, rec.token, rec.checksum, rec.checksumAlgorithm, rec.dataLength⟩)
    | none => .ok (data, ⟨blockIndex, uuid, "", "SHA256", data.length⟩)

def listBlocks (blocks : Blocks) : List BlockRecord :=
  (blocks.tokens.entries.mergeSort fun a b => decide (a.1 ≤ b.1)).map fun entry =>
    ⟨entry.1, entry.2.token, entry.2.checksum, entry.2.checksumAlgorithm, entry.2.dataLength⟩

/-- `_copy_blocks_between`: the destination, and the number of files. The files have different
    names, so that the order in which they are copied does not matter. -/
def copyBlocksBetween (src dst : Blocks) : Blocks × Nat :=
  (⟨dst.files.update src.files, dst.tokens.update src.tokens⟩, src.files.entries.length)

end Blocks

/-- The directory of a snapshot. -/
structure Snapshot where
  info : SnapshotMeta
  blocks : Blocks

/-- The directory of a volume. -/
structure Volume where
  info : VolumeMeta
  blocks : Blocks

/-- The root directory. -/
structure BlockStore where
  snapshots : Dict String Snapshot
  volumes : Dict String Volume

namespace BlockStore

def initial : BlockStore := ⟨Dict.empty, Dict.empty⟩

variable (s : BlockStore) (snapshotId : String)

def setSnapshot (snapshot : Snapshot) (blocks : Blocks) : BlockStore :=
  { s with snapshots := s.snapshots.set snapshotId { snapshot with blocks := blocks } }

variable (volumeId : String)

def setVolume (volume : Volume) (blocks : Blocks) : BlockStore :=
  { s with volumes := s.volumes.set volumeId { volume with blocks := blocks } }

def createSnapshot (ownerId : String) (volumeSizeGib : Int) (parentSnapshotId : Option String)
    (description status : String) : BlockStore × SnapshotMeta :=
  match s.snapshots.get? snapshotId with
  | some snapshot => (s, snapshot.info)
  | none =>
    let info := ⟨snapshotId, ownerId, volumeSizeGib, blockSizeBytes, status, parentSnapshotId,
      description⟩
    ({ s with snapshots := s.snapshots.set snapshotId ⟨info, .empty⟩ }, info)

def createVolume (ownerId : String) (sizeGib : Int)
    (sourceSnapshotId : Option String) : BlockStore × VolumeMeta :=
  match s.volumes.get? volumeId with
  | some volume => (s, volume.info)
  | none =>
    let info := ⟨volumeId, ownerId, sizeGib, blockSizeBytes, sourceSnapshotId⟩
    ({ s with volumes := s.volumes.set volumeId ⟨info, .empty⟩ }, info)

def updateSnapshotStatus (status : String) : BlockStore × Except BlockStoreError SnapshotMeta :=
  match s.snapshots.get? snapshotId with
  | none => (s, .error .fileNotFound)
  | some snapshot =>
    let info := { snapshot.info with status := status }
    ({ s with snapshots := s.snapshots.set snapshotId { snapshot with info := info } }, .ok info)

def putSnapshotBlock (py : Builtins) (s : BlockStore) (snapshotId : String) (blockIndex : Int)
    (blockData : Bytes) (checksum : Option String) (checksumAlgorithm uuid : String) :
    BlockStore × Except BlockStoreError BlockRecord :=
  match s.snapshots.get? snapshotId with
  | none => (s, .error (.snapshotNotFound snapshotId))
  | some snapshot =>
    let result := snapshot.blocks.writeBlock py blockIndex blockData checksum checksumAlgorithm uuid
    (s.setSnapshot snapshotId snapshot result.1, result.2)

def putVolumeBlock (py : Builtins) (s : BlockStore) (volumeId : String) (blockIndex : Int)
    (blockData : Bytes) (checksum : Option String) (checksumAlgorithm uuid : String) :
    BlockStore × Except BlockStoreError BlockRecord :=
  match s.volumes.get? volumeId with
  | none => (s, .error (.volumeNotFound volumeId))
  | some volume =>
    let result := volume.blocks.writeBlock py blockIndex blockData checksum checksumAlgorithm uuid
    (s.setVolume volumeId volume result.1, result.2)

def getSnapshotBlock (blockIndex : Int) (uuid : String) :
    Except BlockStoreError (Bytes × BlockRecord) :=
  match s.snapshots.get? snapshotId with
  | none => .error (.snapshotNotFound snapshotId)
  | some snapshot => snapshot.blocks.readBlock snapshotId blockIndex uuid

def listSnapshotBlocks : Except BlockStoreError (List BlockRecord) :=
  match s.snapshots.get? snapshotId with
  | none => .error (.snapshotNotFound snapshotId)
  | some snapshot => .ok snapshot.blocks.listBlocks

def copyVolumeToSnapshot (snapshotId : String) : BlockStore × Except BlockStoreError Nat :=
  match s.volumes.get? volumeId, s.snapshots.get? snapshotId with
  | none, _ => (s, .ok 0)
  | some _, none => (s, .error (.snapshotNotFound snapshotId))
  | some volume, some snapshot =>
    let result := volume.blocks.copyBlocksBetween snapshot.blocks
    (s.setSnapshot snapshotId snapshot result.1, .ok result.2)

def copySnapshotToVolume : BlockStore × Except BlockStoreError Nat :=
  match s.snapshots.get? snapshotId, s.volumes.get? volumeId with
  | none, _ => (s, .ok 0)
  | some _, none => (s, .error (.volumeNotFound volumeId))
  | some snapshot, some volume =>
    let result := snapshot.blocks.copyBlocksBetween volume.blocks
    (s.setVolume volumeId volume result.1, .ok result.2)

/-! ### Comparing snapshots -/

/-- An entry of `ListChangedBlocks`. -/
structure ChangedBlock where
  blockIndex : Int
  firstBlockToken : Option String
  secondBlockToken : Option String
  deriving DecidableEq

def recordsByIndex (records : List BlockRecord) : Dict Int BlockRecord :=
  Dict.ofEntries (records.map fun r => (r.blockIndex, r))

/-- The loop of `diff_snapshots`. -/
def diffRecords (a b : Dict Int BlockRecord) : List ChangedBlock :=
  (a.keys.mergeSort fun i j => decide (i ≤ j)).filterMap fun idx =>
    (a.get? idx).bind fun first =>
      match b.get? idx with
      | none => some ⟨idx, some first.blockToken, none⟩
      | some second =>
        if first.checksum ≠ second.checksum then
          some ⟨idx, some first.blockToken, some second.blockToken⟩
        else none

def diffSnapshots (s : BlockStore) (firstSnapshotId secondSnapshotId : String) :
    Except BlockStoreError (List ChangedBlock) :=
  (s.listSnapshotBlocks firstSnapshotId).bind fun first =>
    (s.listSnapshotBlocks secondSnapshotId).map fun second =>
      diffRecords (recordsByIndex first) (recordsByIndex second)

/-- `_list_changed_blocks`. Without a first snapshot, it reports nothing. -/
def listChangedBlocks (s : BlockStore) (first : Option String) (second : String) :
    Except BlockStoreError (List ChangedBlock × SnapshotMeta) :=
  let changed := match first.filter fun id => decide (id ≠ "") with
    | some first => s.diffSnapshots first second
    | none => .ok []
  changed.bind fun changed =>
    match s.snapshots.get? second with
    | none => .error .fileNotFound
    | some snapshot => .ok (changed, snapshot.info)

end BlockStore

/-- The arguments of a put, with the identifier that `uuid4` gives. -/
structure Put where
  blockIndex : Int
  blockData : Bytes
  checksum : Option String
  checksumAlgorithm : String
  uuid : String
  deriving DecidableEq

/-- An operation that writes. -/
inductive Operation
  | createSnapshot (snapshotId ownerId : String) (volumeSizeGib : Int)
      (parentSnapshotId : Option String) (description status : String)
  | createVolume (volumeId ownerId : String) (sizeGib : Int) (sourceSnapshotId : Option String)
  | updateSnapshotStatus (snapshotId status : String)
  | putSnapshotBlock (snapshotId : String) (put : Put)
  | putVolumeBlock (volumeId : String) (put : Put)
  | copyVolumeToSnapshot (volumeId snapshotId : String)
  | copySnapshotToVolume (snapshotId volumeId : String)

namespace BlockStore

def error? {α : Type} : Except BlockStoreError α → Option BlockStoreError
  | .ok _ => none
  | .error e => some e

/-- An operation: the store after it, and the exception if it raises. -/
def apply (py : Builtins) (s : BlockStore) : Operation → BlockStore × Option BlockStoreError
  | .createSnapshot snapshotId ownerId volumeSizeGib parentSnapshotId description status =>
    ((s.createSnapshot snapshotId ownerId volumeSizeGib parentSnapshotId description status).1,
      none)
  | .createVolume volumeId ownerId sizeGib sourceSnapshotId =>
    ((s.createVolume volumeId ownerId sizeGib sourceSnapshotId).1, none)
  | .updateSnapshotStatus snapshotId status =>
    let result := s.updateSnapshotStatus snapshotId status
    (result.1, error? result.2)
  | .putSnapshotBlock snapshotId put =>
    let result := s.putSnapshotBlock py snapshotId put.blockIndex put.blockData put.checksum
      put.checksumAlgorithm put.uuid
    (result.1, error? result.2)
  | .putVolumeBlock volumeId put =>
    let result := s.putVolumeBlock py volumeId put.blockIndex put.blockData put.checksum
      put.checksumAlgorithm put.uuid
    (result.1, error? result.2)
  | .copyVolumeToSnapshot volumeId snapshotId =>
    let result := s.copyVolumeToSnapshot volumeId snapshotId
    (result.1, error? result.2)
  | .copySnapshotToVolume snapshotId volumeId =>
    let result := s.copySnapshotToVolume snapshotId volumeId
    (result.1, error? result.2)

/-- The store after some operations. -/
def after (py : Builtins) (ops : List Operation) : BlockStore :=
  ops.foldl (fun s op => (s.apply py op).1) initial

end BlockStore

end LocalEmu.Ebs
