import Mathlib.Data.List.Infix
import LocalEmu.Core.Ebs.BlockStore

/-!
# Integrity Of The Block Store

What the block store is for: every directory is a partial function from indices
to data, an accepted put changes it at one index, and a copy puts the source on
top of the destination. The files and the table of a directory both stand for
this function, and they go on doing so as long as a put that is rejected finds
the file in the state in which it leaves it.

A put that is rejected does not: it replaces a file, or it removes one. Nor does
the store ask whether a snapshot is completed.
-/

namespace LocalEmu.Ebs

open List Option

variable {py : Builtins}

/-- The put is accepted: the algorithm is known, and the checksum, if there is
    one, is that of the data. -/
def Put.Accepted (py : Builtins) (put : Put) : Prop :=
  py.upper put.checksumAlgorithm = "SHA256" ∧ ∀ c ∈ put.checksum, c = py.sha256 put.blockData

instance (put : Put) : Decidable (put.Accepted py) := inferInstanceAs (Decidable (_ ∧ _))

/-- A directory. -/
inductive Place
  | snapshot (id : String)
  | volume (id : String)
  deriving DecidableEq

/-- The directory and the arguments of a put. -/
def Operation.put? : Operation → Option (Place × Put)
  | .putSnapshotBlock snapshotId put => some (.snapshot snapshotId, put)
  | .putVolumeBlock volumeId put => some (.volume volumeId, put)
  | _ => none

/-! ### The abstract store -/

/-- The directories there are, and the data at their indices. -/
abbrev Contents := Place → Option (Int → Option Bytes)

namespace Contents

/-- No directories. -/
def initial : Contents := fun _ => none

/-- A new directory, unless it is there. -/
def create (c : Contents) (place : Place) : Contents := fun place' =>
  if place' = place then some ((c place).getD fun _ => none) else c place'

def write (c : Contents) (place : Place) (put : Put) : Contents := fun place' =>
  if place' = place then
    (c place).map fun data i => if i = put.blockIndex then some put.blockData else data i
  else c place'

def copy (c : Contents) (src dst : Place) : Contents := fun place' =>
  match c src with
  | none => c place'
  | some source =>
    if place' = dst then (c dst).map fun data i => (source i).or (data i) else c place'

def apply (py : Builtins) (c : Contents) : Operation → Contents
  | .createSnapshot snapshotId .. => c.create (.snapshot snapshotId)
  | .createVolume volumeId .. => c.create (.volume volumeId)
  | .updateSnapshotStatus .. => c
  | .putSnapshotBlock snapshotId put =>
    if put.Accepted py then c.write (.snapshot snapshotId) put else c
  | .putVolumeBlock volumeId put => if put.Accepted py then c.write (.volume volumeId) put else c
  | .copyVolumeToSnapshot volumeId snapshotId => c.copy (.volume volumeId) (.snapshot snapshotId)
  | .copySnapshotToVolume snapshotId volumeId => c.copy (.snapshot snapshotId) (.volume volumeId)

/-- The contents after some operations: at every index, what the last accepted put
    or copy has written there. -/
def after (py : Builtins) (ops : List Operation) : Contents := ops.foldl (apply py) initial

end Contents

/-! ### A directory -/

namespace Blocks

/-- The files and the table stand for the same data. -/
structure Holds (py : Builtins) (blocks : Blocks) (data : Int → Option Bytes) : Prop where
  files : ∀ i, blocks.files.get? i = data i
  tokens : ∀ i, (blocks.tokens.get? i).map (fun rec => (rec.checksum, rec.dataLength)) =
    (data i).map fun bytes => (py.sha256 bytes, bytes.length)

/-- A put that is rejected changes nothing here: the file has the data already, or
    there is no file. -/
def Harmless (py : Builtins) (blocks : Blocks) (put : Put) : Prop :=
  if py.upper put.checksumAlgorithm = "SHA256" then blocks.files.get? put.blockIndex = none
  else blocks.files.get? put.blockIndex = some put.blockData

theorem empty_holds : empty.Holds py fun _ => none where
  files := fun _ => rfl
  tokens := fun _ => rfl

/-- `_write_block` for the arguments of a put. -/
def write (py : Builtins) (blocks : Blocks) (put : Put) :
    Blocks × Except BlockStoreError BlockRecord :=
  blocks.writeBlock py put.blockIndex put.blockData put.checksum put.checksumAlgorithm put.uuid

variable (blocks : Blocks)

theorem write_accepted (put : Put) (h : put.Accepted py) : blocks.write py put =
      (⟨blocks.files.set put.blockIndex put.blockData, blocks.tokens.set put.blockIndex
        ⟨put.uuid, py.sha256 put.blockData, py.upper put.checksumAlgorithm, put.blockData.length⟩⟩,
       .ok ⟨put.blockIndex, put.uuid, py.sha256 put.blockData, py.upper put.checksumAlgorithm,
        put.blockData.length⟩) := by
  have hsum : computeChecksum py put.blockData put.checksumAlgorithm =
      .ok (py.sha256 put.blockData) := by
    rw [computeChecksum, if_pos h.1]
  have hfilter : (put.checksum.filter fun c => decide (c ≠ py.sha256 put.blockData)) = none := by
    rw [filter_eq_none_iff]
    intro c hc
    simp [h.2 c hc]
  rw [write, writeBlock, hsum]
  simp only [hfilter]

theorem write_rejected (put : Put) (h : ¬put.Accepted py) :
    (∃ e, (blocks.write py put).2 = .error e) ∧ (blocks.write py put).1.tokens = blocks.tokens ∧
      (blocks.write py put).1.files =
        if py.upper put.checksumAlgorithm = "SHA256" then
          (blocks.files.set put.blockIndex put.blockData).erase put.blockIndex
        else blocks.files.set put.blockIndex put.blockData := by
  by_cases halg : py.upper put.checksumAlgorithm = "SHA256"
  · have hsum : computeChecksum py put.blockData put.checksumAlgorithm =
        .ok (py.sha256 put.blockData) := by
      rw [computeChecksum, if_pos halg]
    have hne : ∃ c ∈ put.checksum, c ≠ py.sha256 put.blockData := by
      by_contra hall
      refine h ⟨halg, fun c hc => ?_⟩
      by_contra hne
      exact hall ⟨c, hc, hne⟩
    rcases hne with ⟨c, hc, hne⟩
    have hfilter : (put.checksum.filter fun c => decide (c ≠ py.sha256 put.blockData)) =
        some c := by
      rw [filter_eq_some_iff]
      exact ⟨hc, by simpa using hne⟩
    rw [if_pos halg, write, writeBlock, hsum]
    simp only [hfilter, Except.error.injEq, exists_eq', and_self]
  · have hsum : computeChecksum py put.blockData put.checksumAlgorithm =
        .error (.valueError ("unsupported checksum algorithm: " ++ put.checksumAlgorithm)) := by
      rw [computeChecksum, if_neg halg]
    rw [if_neg halg, write, writeBlock, hsum]
    exact ⟨⟨_, rfl⟩, rfl, rfl⟩

theorem write_harmless (put : Put) (h : ¬put.Accepted py) (hharmless : blocks.Harmless py put)
    (i : Int) :
    (blocks.write py put).1.files.get? i = blocks.files.get? i := by
  rw [(write_rejected _ _ h).2.2]
  rw [Harmless] at hharmless
  split at hharmless
  · next halg =>
      rw [if_pos halg, Dict.get?_erase, Dict.get?_set]
      by_cases hi : i = put.blockIndex
      · rw [if_pos hi, hi, hharmless]
      · rw [if_neg hi, if_neg hi]
  · next halg =>
      rw [if_neg halg, Dict.get?_set]
      by_cases hi : i = put.blockIndex
      · rw [if_pos hi, hi, hharmless]
      · rw [if_neg hi]

theorem write_holds (data : Int → Option Bytes) (put : Put) (h : blocks.Holds py data)
    (haccepted : put.Accepted py) :
    (blocks.write py put).1.Holds py
      fun i => if i = put.blockIndex then some put.blockData else data i := by
  rw [write_accepted _ _ haccepted]
  refine ⟨fun i => ?_, fun i => ?_⟩
  · simp only [Dict.get?_set, h.files]
  · simp only [Dict.get?_set]
    by_cases hi : i = put.blockIndex
    · rw [if_pos hi, if_pos hi]
      rfl
    · rw [if_neg hi, if_neg hi]
      exact h.tokens i

theorem write_rejected_holds (data : Int → Option Bytes) (put : Put) (h : blocks.Holds py data)
    (hrejected : ¬put.Accepted py) (hharmless : blocks.Harmless py put) :
    (blocks.write py put).1.Holds py data := by
  refine ⟨fun i => ?_, fun i => ?_⟩
  · rw [write_harmless _ _ hrejected hharmless]
    exact h.files i
  · rw [(write_rejected _ _ hrejected).2.1]
    exact h.tokens i

theorem copy_holds (src dst : Blocks) (source data : Int → Option Bytes)
    (hsrc : src.Holds py source) (hdst : dst.Holds py data) :
    (src.copyBlocksBetween dst).1.Holds py fun i => (source i).or (data i) := by
  refine ⟨fun i => ?_, fun i => ?_⟩
  · simp only [copyBlocksBetween, Dict.get?_update, hsrc.files, hdst.files]
  · simp only [copyBlocksBetween, Dict.get?_update, map_or, hsrc.tokens, hdst.tokens]

end Blocks

/-! ### The store -/

namespace BlockStore

variable (s : BlockStore)

def blocks? : Place → Option Blocks
  | .snapshot id => (s.snapshots.get? id).map Snapshot.blocks
  | .volume id => (s.volumes.get? id).map Volume.blocks

/-- The files and the tables stand for the contents. -/
def Refines (py : Builtins) (s : BlockStore) (c : Contents) : Prop :=
  ∀ place, Option.Rel (Blocks.Holds py) (s.blocks? place) (c place)

variable (place : Place)

def data (i : Int) : Option Bytes :=
  (s.blocks? place).bind fun blocks => blocks.files.get? i

def record (i : Int) : Option Token :=
  (s.blocks? place).bind fun blocks => blocks.tokens.get? i

theorem blocks?_setSnapshot (id : String) (snapshot : Snapshot) (blocks : Blocks)
    (place : Place) : (s.setSnapshot id snapshot blocks).blocks? place =
      if place = .snapshot id then some blocks else s.blocks? place := by
  cases place with
  | volume => rfl
  | snapshot =>
    simp only [blocks?, setSnapshot, Dict.get?_set, Place.snapshot.injEq]
    split
    · rfl
    · rfl

theorem blocks?_setVolume (id : String) (volume : Volume) (blocks : Blocks)
    (place : Place) : (s.setVolume id volume blocks).blocks? place =
      if place = .volume id then some blocks else s.blocks? place := by
  cases place with
  | snapshot => rfl
  | volume =>
    simp only [blocks?, setVolume, Dict.get?_set, Place.volume.injEq]
    split
    · rfl
    · rfl

variable {s} in
theorem blocks?_snapshot {id : String} {snapshot : Option Snapshot}
    (h : s.snapshots.get? id = snapshot) :
    s.blocks? (.snapshot id) = snapshot.map Snapshot.blocks := by rw [blocks?, h]

variable {s} in
theorem blocks?_volume {id : String} {volume : Option Volume} (h : s.volumes.get? id = volume) :
    s.blocks? (.volume id) = volume.map Volume.blocks := by rw [blocks?, h]

variable {s place} in
theorem blocks?_eq_ite {blocks : Option Blocks} (h : s.blocks? place = blocks) (place' : Place) :
    s.blocks? place' = if place' = place then blocks else s.blocks? place' := by
  split
  · next heq => rw [heq, h]
  · rfl

theorem blocks?_put (put : Put) (op : Operation) (hop : op.put? = some (place, put))
    (place' : Place) :
    (s.apply py op).1.blocks? place' =
      if place' = place then (s.blocks? place).map fun blocks => (blocks.write py put).1
      else s.blocks? place' := by
  cases op with
  | putSnapshotBlock snapshotId =>
    rcases Prod.mk.inj (some.inj hop) with ⟨rfl, rfl⟩
    cases hget : s.snapshots.get? snapshotId with
    | none =>
      simp only [apply, putSnapshotBlock, hget, blocks?_snapshot hget, map_none]
      exact blocks?_eq_ite (blocks?_snapshot hget) _
    | some =>
      simp only [apply, putSnapshotBlock, hget, blocks?_setSnapshot,
        blocks?_snapshot hget, map_some]
      rfl
  | putVolumeBlock volumeId =>
    rcases Prod.mk.inj (some.inj hop) with ⟨rfl, rfl⟩
    cases hget : s.volumes.get? volumeId with
    | none =>
      simp only [apply, putVolumeBlock, hget, blocks?_volume hget, map_none]
      exact blocks?_eq_ite (blocks?_volume hget) _
    | some =>
      simp only [apply, putVolumeBlock, hget, blocks?_setVolume, blocks?_volume hget, map_some]
      rfl
  | createSnapshot | createVolume | updateSnapshotStatus | copyVolumeToSnapshot
  | copySnapshotToVolume => cases hop

def created : Operation → Option Place
  | .createSnapshot snapshotId .. => some (.snapshot snapshotId)
  | .createVolume volumeId .. => some (.volume volumeId)
  | _ => none

def copied : Operation → Option (Place × Place)
  | .copyVolumeToSnapshot volumeId snapshotId => some (.volume volumeId, .snapshot snapshotId)
  | .copySnapshotToVolume snapshotId volumeId => some (.snapshot snapshotId, .volume volumeId)
  | _ => none

theorem blocks?_create (op : Operation) (hop : created op = some place) (place' : Place) :
    (s.apply py op).1.blocks? place' =
      if place' = place then some ((s.blocks? place).getD .empty) else s.blocks? place' := by
  cases op with
  | createSnapshot snapshotId =>
    rcases some.inj hop with rfl
    cases hget : s.snapshots.get? snapshotId with
    | none =>
      simp only [apply, createSnapshot, hget, blocks?_snapshot hget, map_none, getD_none]
      exact blocks?_setSnapshot s _ ⟨_, .empty⟩ .empty _
    | some =>
      simp only [apply, createSnapshot, hget, blocks?_snapshot hget, map_some, getD_some]
      exact blocks?_eq_ite (blocks?_snapshot hget) _
  | createVolume volumeId =>
    rcases some.inj hop with rfl
    cases hget : s.volumes.get? volumeId with
    | none =>
      simp only [apply, createVolume, hget, blocks?_volume hget, map_none, getD_none]
      exact blocks?_setVolume s _ ⟨_, .empty⟩ .empty _
    | some =>
      simp only [apply, createVolume, hget, blocks?_volume hget, map_some, getD_some]
      exact blocks?_eq_ite (blocks?_volume hget) _
  | updateSnapshotStatus | putSnapshotBlock | putVolumeBlock | copyVolumeToSnapshot
  | copySnapshotToVolume => cases hop

theorem blocks?_copy (src dst : Place) (op : Operation) (hop : copied op = some (src, dst))
    (place' : Place) :
    (s.apply py op).1.blocks? place' =
      match s.blocks? src with
      | none => s.blocks? place'
      | some source =>
        if place' = dst then (s.blocks? dst).map fun blocks => (source.copyBlocksBetween blocks).1
        else s.blocks? place' := by
  cases op with
  | copyVolumeToSnapshot volumeId snapshotId =>
    rcases Prod.mk.inj (some.inj hop) with ⟨rfl, rfl⟩
    cases hvolume : s.volumes.get? volumeId with
    | none =>
      simp only [apply, copyVolumeToSnapshot, hvolume, blocks?, map_none]
    | some =>
      cases hsnapshot : s.snapshots.get? snapshotId with
      | none =>
        simp only [apply, copyVolumeToSnapshot, hvolume, hsnapshot, blocks?_snapshot hsnapshot,
          blocks?_volume hvolume,
          map_none, map_some]
        exact blocks?_eq_ite (blocks?_snapshot hsnapshot) _
      | some =>
        simp only [apply, copyVolumeToSnapshot, hvolume, hsnapshot, blocks?_setSnapshot]
        simp only [blocks?, hvolume, hsnapshot, map_some]
  | copySnapshotToVolume snapshotId volumeId =>
    rcases Prod.mk.inj (some.inj hop) with ⟨rfl, rfl⟩
    cases hsnapshot : s.snapshots.get? snapshotId with
    | none =>
      simp only [apply, copySnapshotToVolume, hsnapshot, blocks?, map_none]
    | some snapshot =>
      cases hvolume : s.volumes.get? volumeId with
      | none =>
        have hnone : s.blocks? (.volume volumeId) = none := by
          simp only [blocks?, hvolume, map_none]
        have hsome : s.blocks? (.snapshot snapshotId) = some snapshot.blocks := by
          simp only [blocks?, hsnapshot, map_some]
        simp only [apply, copySnapshotToVolume, hvolume, hsnapshot, hnone, hsome, map_none]
        split
        · next heq => rw [heq, hnone]
        · rfl
      | some =>
        simp only [apply, copySnapshotToVolume, hvolume, hsnapshot, blocks?_setVolume]
        simp only [blocks?, hvolume, hsnapshot, map_some]
  | createSnapshot | createVolume | updateSnapshotStatus | putSnapshotBlock
  | putVolumeBlock => cases hop

theorem blocks?_updateSnapshotStatus (snapshotId status : String) (place : Place) :
    (s.apply py (.updateSnapshotStatus snapshotId status)).1.blocks? place = s.blocks? place := by
  cases hget : s.snapshots.get? snapshotId with
  | none => simp only [apply, updateSnapshotStatus, hget]
  | some snapshot =>
    simp only [apply, updateSnapshotStatus, hget]
    refine (blocks?_setSnapshot s _ { snapshot with info := _ } _ _).trans ?_
    split
    · next heq => simp only [heq, blocks?, hget, map_some]
    · rfl

/-- A put that is rejected changes nothing where it is made. -/
def HarmlessStep (py : Builtins) (s : BlockStore) (op : Operation) : Prop :=
  ∀ place put, op.put? = some (place, put) → ¬put.Accepted py →
    ∀ blocks ∈ s.blocks? place, blocks.Harmless py put

variable {op : Operation} {c : Contents}

theorem put_refines {s : BlockStore} (h : s.Refines py c) (hop : s.HarmlessStep py op)
    {place : Place} {put : Put} (hput : op.put? = some (place, put)) :
    (s.apply py op).1.Refines py (if put.Accepted py then c.write place put else c) := by
  intro place'
  rw [blocks?_put s _ _ op hput]
  by_cases hplace : place' = place
  · rw [if_pos hplace, hplace]
    have hrel := h place
    have hharmless := hop _ _ hput
    split
    · next haccepted =>
        rw [Contents.write, if_pos rfl]
        generalize s.blocks? place = blocks at hrel
        generalize c place = data at hrel
        cases hrel with
        | none => exact .none
        | some hholds => exact .some (Blocks.write_holds _ _ _ hholds haccepted)
    · next hrejected =>
        generalize s.blocks? place = blocks at hrel hharmless
        generalize c place = data at hrel
        cases hrel with
        | none => exact .none
        | some hholds =>
          exact .some (Blocks.write_rejected_holds _ _ _ hholds hrejected
            (hharmless hrejected _ rfl))
  · rw [if_neg hplace]
    split
    · rw [Contents.write, if_neg hplace]
      exact h _
    · exact h _

theorem create_refines {s : BlockStore} (h : s.Refines py c) {place : Place}
    (hop : created op = some place) :
    (s.apply py op).1.Refines py (c.create place) := by
  intro place'
  rw [blocks?_create s _ op hop, Contents.create]
  by_cases hplace : place' = place
  · rw [if_pos hplace, if_pos hplace]
    have hrel := h place
    generalize s.blocks? place = blocks at hrel
    generalize c place = data at hrel
    cases hrel with
    | none => exact .some Blocks.empty_holds
    | some hholds => exact .some hholds
  · rw [if_neg hplace, if_neg hplace]
    exact h _

theorem copy_refines {s : BlockStore} (h : s.Refines py c) {src dst : Place}
    (hop : copied op = some (src, dst)) :
    (s.apply py op).1.Refines py (c.copy src dst) := by
  intro place'
  rw [blocks?_copy s _ _ op hop, Contents.copy]
  have hsrc := h src
  generalize s.blocks? src = source at hsrc
  generalize c src = sourceData at hsrc
  cases hsrc with
  | none => exact h _
  | some hsource =>
    by_cases hplace : place' = dst
    · simp only [if_pos hplace]
      have hdst := h dst
      generalize s.blocks? dst = blocks at hdst
      generalize c dst = data at hdst
      cases hdst with
      | none => exact .none
      | some hholds => exact .some (Blocks.copy_holds _ _ _ _ hsource hholds)
    · simp only [if_neg hplace]
      exact h _

/-- An operation on the store refines the one on the abstract store. -/
theorem apply_refines {s : BlockStore} (h : s.Refines py c)
    (hop : s.HarmlessStep py op) : (s.apply py op).1.Refines py (c.apply py op) := by
  cases op with
  | createSnapshot | createVolume => exact create_refines h rfl
  | updateSnapshotStatus =>
    intro place
    rw [blocks?_updateSnapshotStatus]
    exact h _
  | putSnapshotBlock | putVolumeBlock => exact put_refines h hop rfl
  | copyVolumeToSnapshot | copySnapshotToVolume => exact copy_refines h rfl

theorem after_append (ops : List Operation) (op : Operation) :
    after py (ops ++ [op]) = ((after py ops).apply py op).1 := by
  rw [after, foldl_append]
  rfl

/-- So does a sequence of them. -/
theorem after_refines (ops : List Operation)
    (h : ∀ before op rest, ops = before ++ op :: rest → (after py before).HarmlessStep py op) :
    (after py ops).Refines py (Contents.after py ops) := by
  induction ops using reverseRecOn with
  | nil =>
    intro place
    cases place with
    | snapshot | volume => exact .none
  | append_singleton ops op ih =>
    have hrest := ih fun before op' rest hops => h _ _ _ (by rw [hops, append_assoc, cons_append])
    have hcontents : Contents.after py (ops ++ [op]) = (Contents.after py ops).apply py op := by
      rw [Contents.after, foldl_append]
      rfl
    rw [after_append, hcontents]
    exact apply_refines hrest (h _ op [] rfl)

/-- The status of a snapshot is `completed`. -/
def Completed (snapshotId : String) : Prop :=
  ∃ snapshot ∈ s.snapshots.get? snapshotId, snapshot.info.status = "completed"

instance (s : BlockStore) (snapshotId : String) : Decidable (s.Completed snapshotId) :=
  inferInstanceAs (Decidable (∃ snapshot ∈ s.snapshots.get? snapshotId, _))

/-- Nothing is different at any index of a directory. -/
def Unchanged (t : BlockStore) (place : Place) : Prop :=
  ∀ i, t.data place i = s.data place i ∧ t.record place i = s.record place i

/-- What is claimed of a sequence of operations. -/
structure Intact (py : Builtins) (ops : List Operation) : Prop where
  /-- What is listed can be read, with the record that was listed. -/
  listed : ∀ before rest snapshotId records, ops = before ++ rest →
    (after py before).listSnapshotBlocks snapshotId = .ok records → ∀ i uuid,
      ((∃ record ∈ records, record.blockIndex = i) ↔
        ∃ data record, (after py before).getSnapshotBlock snapshotId i uuid = .ok (data, record) ∧
          record ∈ records)
  /-- What can be read is listed, is what was written last, and has its checksum
      and its length in the record. -/
  readable : ∀ before rest snapshotId i uuid data record, ops = before ++ rest →
    (after py before).getSnapshotBlock snapshotId i uuid = .ok (data, record) →
      (∃ records, (after py before).listSnapshotBlocks snapshotId = .ok records ∧
        record ∈ records) ∧ record.blockIndex = i ∧
      record.checksum = py.sha256 data ∧ record.dataLength = data.length ∧
      (Contents.after py before (.snapshot snapshotId)).bind (fun written => written i) = some data
  /-- A put that raises changes nothing. -/
  rejected : ∀ before op rest place put, ops = before ++ op :: rest →
    op.put? = some (place, put) → ((after py before).apply py op).2 ≠ none → ∀ place',
      Unchanged (after py before) ((after py before).apply py op).1 place'
  /-- No put changes a snapshot that was completed. -/
  completed : ∀ before mid rest snapshotId put,
    ops = before ++ (mid ++ .putSnapshotBlock snapshotId put :: rest) →
    (after py before).Completed snapshotId →
      Unchanged (after py (before ++ mid))
        ((after py (before ++ mid)).apply py (.putSnapshotBlock snapshotId put)).1
        (.snapshot snapshotId)

/-- Every put that is rejected finds the file in the state in which it leaves it,
    and no put on a snapshot that was completed is accepted. -/
structure Clean (py : Builtins) (ops : List Operation) : Prop where
  harmless : ∀ before op rest, ops = before ++ op :: rest → (after py before).HarmlessStep py op
  completed : ∀ before mid rest snapshotId put,
    ops = before ++ (mid ++ .putSnapshotBlock snapshotId put :: rest) →
    (after py before).Completed snapshotId → ¬put.Accepted py

theorem mem_listBlocks (blocks : Blocks) (record : BlockRecord) :
    record ∈ blocks.listBlocks ↔ blocks.tokens.get? record.blockIndex =
      some ⟨record.blockToken, record.checksum, record.checksumAlgorithm, record.dataLength⟩ := by
  rw [Blocks.listBlocks, List.mem_map, Dict.get?_eq_some_iff]
  constructor
  · rintro ⟨entry, hmem, rfl⟩
    exact mem_mergeSort.mp hmem
  · intro hmem
    exact ⟨_, mem_mergeSort.mpr hmem, rfl⟩

theorem readBlock_eq_ok_iff {blocks : Blocks} {written : Int → Option Bytes}
    (h : blocks.Holds py written) (name : String) (i : Int) (uuid : String) (data : Bytes)
    (record : BlockRecord) : blocks.readBlock name i uuid = .ok (data, record) ↔
      written i = some data ∧ record ∈ blocks.listBlocks ∧ record.blockIndex = i := by
  rw [Blocks.readBlock, h.files i]
  have htokens := h.tokens i
  cases hwritten : written i with
  | none => simp
  | some =>
    rw [hwritten, map_some, map_eq_some_iff] at htokens
    rcases htokens with ⟨rec, hrec, -⟩
    simp only [hrec, Except.ok.injEq, Prod.mk.injEq, some.injEq, mem_listBlocks]
    constructor
    · rintro ⟨rfl, rfl⟩
      exact ⟨rfl, hrec, rfl⟩
    · rintro ⟨rfl, hmem, rfl⟩
      rw [hrec, some.injEq] at hmem
      exact ⟨rfl, by rw [hmem]⟩

theorem unchanged_of_put {s : BlockStore} {place : Place} {put : Put}
    (hput : op.put? = some (place, put)) (hop : s.HarmlessStep py op)
    (h : ¬put.Accepted py ∨ s.blocks? place = none) (place' : Place) :
    Unchanged s (s.apply py op).1 place' := by
  intro i
  rw [data, record, data, record, blocks?_put s _ _ op hput]
  by_cases hplace : place' = place
  · rw [if_pos hplace, hplace]
    cases hblocks : s.blocks? place with
    | none => exact ⟨rfl, rfl⟩
    | some =>
      have hrejected : ¬put.Accepted py := h.resolve_right (by rw [hblocks]; exact some_ne_none _)
      have hharmless := hop _ _ hput hrejected _ hblocks
      exact ⟨Blocks.write_harmless _ _ hrejected hharmless i, by
        rw [map_some, bind_some, (Blocks.write_rejected _ _ hrejected).2.1, bind_some]⟩
  · rw [if_neg hplace]
    exact ⟨rfl, rfl⟩

theorem rejected_of_raises {s : BlockStore} {place : Place} {put : Put}
    (hput : op.put? = some (place, put)) (h : (s.apply py op).2 ≠ none) :
    ¬put.Accepted py ∨ s.blocks? place = none := by
  by_contra hnot
  rw [not_or, not_not] at hnot
  rcases hnot with ⟨haccepted, hsome⟩
  have hwrite : ∀ blocks : Blocks, error? (blocks.writeBlock py put.blockIndex put.blockData
      put.checksum put.checksumAlgorithm put.uuid).2 = none := by
    intro blocks
    exact congrArg (fun result => error? result.2) (Blocks.write_accepted _ _ haccepted)
  cases op with
  | putSnapshotBlock snapshotId =>
    rcases Prod.mk.inj (some.inj hput) with ⟨rfl, rfl⟩
    cases hget : s.snapshots.get? snapshotId with
    | none => exact hsome (by simp [blocks?, hget])
    | some =>
      simp only [apply, putSnapshotBlock, hget] at h
      exact h (hwrite _)
  | putVolumeBlock volumeId =>
    rcases Prod.mk.inj (some.inj hput) with ⟨rfl, rfl⟩
    cases hget : s.volumes.get? volumeId with
    | none => exact hsome (by simp [blocks?, hget])
    | some =>
      simp only [apply, putVolumeBlock, hget] at h
      exact h (hwrite _)
  | createSnapshot | createVolume | updateSnapshotStatus | copyVolumeToSnapshot
  | copySnapshotToVolume => cases hput

theorem snapshot_of_refines {s : BlockStore} (h : s.Refines py c) (snapshotId : String) :
    ((∃ e, s.listSnapshotBlocks snapshotId = .error e) ∧
      ∀ i uuid, ∃ e, s.getSnapshotBlock snapshotId i uuid = .error e) ∨
    ∃ (blocks : Blocks) (written : Int → Option Bytes),
      c (.snapshot snapshotId) = some written ∧ blocks.Holds py written ∧
      s.listSnapshotBlocks snapshotId = .ok blocks.listBlocks ∧
      ∀ i uuid, s.getSnapshotBlock snapshotId i uuid = blocks.readBlock snapshotId i uuid := by
  have hrel := h (.snapshot snapshotId)
  rw [blocks?] at hrel
  cases hget : s.snapshots.get? snapshotId with
  | none =>
    refine .inl ⟨⟨_, by rw [listSnapshotBlocks, hget]⟩, fun i uuid => ⟨_, by
      rw [getSnapshotBlock, hget]⟩⟩
  | some snapshot =>
    rw [hget] at hrel
    generalize hc : c (.snapshot snapshotId) = data at hrel
    cases hrel with
    | some hholds =>
      exact .inr ⟨snapshot.blocks, _, rfl, hholds, by rw [listSnapshotBlocks, hget],
        fun i uuid => by rw [getSnapshotBlock, hget]⟩

/-- If the operations are clean, then the store is intact. -/
theorem intact_of_clean (py : Builtins) (ops : List Operation) (h : Clean py ops) :
    Intact py ops := by
  have hrefines : ∀ before rest, ops = before ++ rest →
      (after py before).Refines py (Contents.after py before) := by
    intro before rest hops
    refine after_refines _ fun before' op rest' hbefore => h.harmless _ op (rest' ++ rest) ?_
    rw [hops, hbefore, append_assoc, cons_append]
  refine ⟨?_, ?_, ?_, ?_⟩
  · intro before rest snapshotId records hops hlist i uuid
    rcases snapshot_of_refines (hrefines _ _ hops) _ with ⟨⟨e, he⟩, -⟩ |
      ⟨blocks, written, -, hholds, hlist', hget⟩
    · rw [he] at hlist
      cases hlist
    · rw [hlist', Except.ok.injEq] at hlist
      subst hlist
      constructor
      · rintro ⟨record, hmem, rfl⟩
        have htokens := hholds.tokens record.blockIndex
        rw [(mem_listBlocks _ _).mp hmem] at htokens
        rcases map_eq_some_iff.mp htokens.symm with ⟨data, hdata, -⟩
        refine ⟨data, record, ?_, hmem⟩
        rw [hget]
        exact (readBlock_eq_ok_iff hholds _ _ _ _ _).mpr ⟨hdata, hmem, rfl⟩
      · rintro ⟨data, record, hread, hmem⟩
        rw [hget] at hread
        exact ⟨record, hmem, ((readBlock_eq_ok_iff hholds _ _ _ _ _).mp hread).2.2⟩
  · intro before rest snapshotId i uuid data record hops hread
    rcases snapshot_of_refines (hrefines _ _ hops) _ with ⟨-, hnone⟩ |
      ⟨blocks, written, hc, hholds, hlist, hget⟩
    · rcases hnone i uuid with ⟨e, he⟩
      rw [he] at hread
      cases hread
    · rw [hget] at hread
      rcases (readBlock_eq_ok_iff hholds _ _ _ _ _).mp hread with ⟨hdata, hmem, rfl⟩
      have htokens := hholds.tokens record.blockIndex
      rw [(mem_listBlocks _ _).mp hmem, hdata, map_some, map_some,
        some.injEq, Prod.mk.injEq] at htokens
      refine ⟨⟨_, hlist, hmem⟩, rfl, htokens.1, htokens.2, ?_⟩
      rw [hc]
      exact hdata
  · intro before op rest place put hops hput hraises place'
    exact unchanged_of_put hput (h.harmless _ op _ hops) (rejected_of_raises hput hraises) _
  · intro before mid rest snapshotId put hops hcompleted
    refine unchanged_of_put rfl (h.harmless _ _ rest ?_)
      (.inl (h.completed _ _ _ _ _ hops hcompleted)) _
    rw [hops, append_assoc]

def examplePython : Builtins where
  upper := fun text => String.ofList (text.toList.map Char.toUpper)
  repr := fun text => "'" ++ text ++ "'"
  sha256 := fun data =>
    if data = [1] then "S/USLzRFVMU73i67jNK349FgCtYxw4Wl18ziPHeFRZo="
    else if data = [2] then "28G0yQD/5I1XW12lxjgEASX2XbD+PiRJS3bqmGRX2YY="
    else if data = [3] then "CE/tCLl4r019GWp0RqhrWACeY2thHbFiEbZamq3/KcU="
    else ""

/-- A snapshot, a block of it, and a put that is rejected because of its checksum
    at an index that is not there. -/
def cleanOperations : List Operation :=
  [.createSnapshot "snap-1" "000000000000" 1 none "" "pending",
    .putSnapshotBlock "snap-1" ⟨0, [1], none, "sha256", "a"⟩,
    .putSnapshotBlock "snap-1" ⟨1, [3], some "x", "SHA256", "b"⟩]

theorem intact_of_cleanOperations :
    (after examplePython cleanOperations).getSnapshotBlock "snap-1" 0 "u" =
      .ok ([1], ⟨0, "a", "S/USLzRFVMU73i67jNK349FgCtYxw4Wl18ziPHeFRZo=", "SHA256", 1⟩) ∧
      Intact examplePython cleanOperations := by
  refine ⟨by decide, intact_of_clean _ _ ⟨?_, ?_⟩⟩
  · intro before op rest hops place put hput hrejected blocks hblocks
    rcases before with _ | ⟨a, _ | ⟨b, _ | ⟨c, before⟩⟩⟩
    · rcases cons.inj hops with ⟨rfl, -⟩
      cases hput
    · simp only [cleanOperations, cons_append, nil_append, cons.injEq] at hops
      rcases hops with ⟨rfl, rfl, -⟩
      rcases Prod.mk.inj (some.inj hput) with ⟨rfl, rfl⟩
      exact absurd (show Put.Accepted examplePython _ by decide) hrejected
    · simp only [cleanOperations, cons_append, nil_append, cons.injEq] at hops
      rcases hops with ⟨rfl, rfl, rfl, -⟩
      rcases Prod.mk.inj (some.inj hput) with ⟨rfl, rfl⟩
      rw [← some.inj hblocks, Blocks.Harmless]
      rfl
    · exact absurd hops (by simp [cleanOperations])
  · intro before mid rest snapshotId put hops hcompleted
    have hnever : ∀ before ∈ cleanOperations.inits,
        ¬(after examplePython before).Completed "snap-1" := by decide
    have hmem : .putSnapshotBlock snapshotId put ∈ cleanOperations := by
      rw [hops]
      simp
    have hid : snapshotId = "snap-1" := by
      simp only [cleanOperations, mem_cons, reduceCtorEq, Operation.putSnapshotBlock.injEq,
        not_mem_nil, or_false, false_or] at hmem
      rcases hmem with h | h
      · exact h.1
      · exact h.1
    exact absurd (hid ▸ hcompleted) (hnever _ ((mem_inits _ _).mpr ⟨_, hops.symm⟩))

/-- A put with the checksum of other data, at an index that is there. -/
def mismatchOperations : List Operation :=
  [.createSnapshot "snap-1" "000000000000" 1 none "" "pending",
    .putSnapshotBlock "snap-1" ⟨0, [1], none, "SHA256", "a"⟩,
    .putSnapshotBlock "snap-1" ⟨0, [2], some "x", "SHA256", "b"⟩]

/-- The rejected put has removed the block. -/
theorem block_lost_by_rejected_put : ¬Intact examplePython mismatchOperations := by
  intro h
  have hunchanged := h.rejected [.createSnapshot "snap-1" "000000000000" 1 none "" "pending",
    .putSnapshotBlock "snap-1" ⟨0, [1], none, "SHA256", "a"⟩] _ [] _ _ rfl rfl (by decide)
    (.snapshot "snap-1") 0
  exact absurd hunchanged.1 (by decide)

end BlockStore

end LocalEmu.Ebs
