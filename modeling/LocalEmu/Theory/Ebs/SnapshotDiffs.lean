import LocalEmu.Theory.Ebs.Integrity

/-!
# Comparing Snapshots

The comparison goes through the blocks of the first snapshot, so that it misses those
that only the second one has.
-/

namespace LocalEmu.Ebs.BlockStore

open List Option

variable {py : Builtins}

/-- The entries are the indices at which the data differ, in increasing order, with the
    tokens of the tables. -/
def Exact (first second : Blocks) (a b : Int → Option Bytes) (changed : List ChangedBlock) :
    Prop :=
  (changed.map ChangedBlock.blockIndex).Pairwise (· < ·) ∧
    ∀ entry, entry ∈ changed ↔ a entry.blockIndex ≠ b entry.blockIndex ∧
      entry.firstBlockToken = (first.tokens.get? entry.blockIndex).map Token.token ∧
      entry.secondBlockToken = (second.tokens.get? entry.blockIndex).map Token.token

/-- The records that are compared. -/
theorem get?_recordsByIndex (blocks : Blocks) (i : Int) :
    (recordsByIndex blocks.listBlocks).get? i = (blocks.tokens.get? i).map fun t =>
      ⟨i, t.token, t.checksum, t.checksumAlgorithm, t.dataLength⟩ := by
  have hperm : (blocks.tokens.entries.mergeSort fun a b => decide (a.1 ≤ b.1)).Perm
      blocks.tokens.entries := List.mergeSort_perm _ _
  have hnodup : ((blocks.listBlocks.map fun r => (r.blockIndex, r)).map Prod.fst).Nodup := by
    rw [List.map_map, Blocks.listBlocks, List.map_map]
    exact (hperm.map _).nodup_iff.mpr blocks.tokens.nodup
  ext record
  rw [recordsByIndex, Dict.get?_eq_some_iff, Dict.entries_ofEntries _ hnodup, List.mem_map]
  constructor
  · rintro ⟨r, hr, heq⟩
    cases heq
    rw [(mem_listBlocks _ _).mp hr]
    rfl
  · intro h
    obtain ⟨t, ht, rfl⟩ := Option.map_eq_some_iff.mp h
    exact ⟨⟨i, t.token, t.checksum, t.checksumAlgorithm, t.dataLength⟩,
      (mem_listBlocks _ _).mpr ht, rfl⟩

/-- What is reported. -/
theorem mem_diffRecords (a b : Dict Int BlockRecord) (entry : ChangedBlock) :
    entry ∈ diffRecords a b ↔ ∃ first, a.get? entry.blockIndex = some first ∧
      entry.firstBlockToken = some first.blockToken ∧
      entry.secondBlockToken = (b.get? entry.blockIndex).map BlockRecord.blockToken ∧
      ∀ second, b.get? entry.blockIndex = some second → first.checksum ≠ second.checksum := by
  rw [diffRecords, mem_filterMap]
  constructor
  · rintro ⟨idx, -, h⟩
    obtain ⟨first, hfirst, h⟩ := bind_eq_some_iff.mp h
    split at h
    · next hnone =>
        cases h
        exact ⟨first, hfirst, rfl, by rw [hnone]; rfl, by simp [hnone]⟩
    · next second hsecond =>
        split at h
        · next hne =>
            cases h
            exact ⟨first, hfirst, rfl, by rw [hsecond]; rfl, by simpa [hsecond] using hne⟩
        · cases h
  · rcases entry with ⟨i, token, token'⟩
    intro h
    obtain ⟨first, hfirst, rfl, rfl, hne⟩ : ∃ first, a.get? i = some first ∧
        token = some first.blockToken ∧ token' = (b.get? i).map BlockRecord.blockToken ∧
        ∀ second, b.get? i = some second → first.checksum ≠ second.checksum := h
    refine ⟨i, mem_mergeSort.mpr ?_, ?_⟩
    · exact mem_map_of_mem ((Dict.get?_eq_some_iff _ _ _).mp hfirst)
    · rw [hfirst]
      cases hsecond : b.get? i with
      | none => rfl
      | some => exact if_pos (hne _ hsecond)

theorem pairwise_diffRecords (a b : Dict Int BlockRecord) :
    ((diffRecords a b).map ChangedBlock.blockIndex).Pairwise (· < ·) := by
  have hsorted : (a.keys.mergeSort fun i j => decide (i ≤ j)).Pairwise (· < ·) := by
    have hle := @List.pairwise_mergeSort Int (fun i j => decide (i ≤ j))
      (fun _ _ _ => by simpa using Int.le_trans) (fun _ _ => by simpa using Int.le_total _ _)
      a.keys
    have hne : (a.keys.mergeSort fun i j => decide (i ≤ j)).Nodup :=
      (List.mergeSort_perm _ _).nodup_iff.mpr a.nodup
    exact (hle.and hne).imp fun h => lt_of_le_of_ne (of_decide_eq_true h.1) h.2
  -- an entry has the index it is made for, so that the indices are some of the sorted ones
  refine hsorted.sublist ?_
  rw [diffRecords, List.map_filterMap]
  have hguard : ∀ f : Int → Option ChangedBlock, (∀ i x, f i = some x → x.blockIndex = i) →
      (fun i => (f i).map ChangedBlock.blockIndex) = Option.guard fun i => (f i).isSome := by
    intro f hf
    ext i : 1
    cases h : f i with
    | none => simp [Option.guard, h]
    | some x => simp [Option.guard, h, hf i x h]
  rw [hguard, List.filterMap_eq_filter]
  · exact List.filter_sublist
  · intro i x hx
    obtain ⟨first, -, hx⟩ := Option.bind_eq_some_iff.mp hx
    grind

theorem tokens_of_holds {blocks : Blocks} {data : Int → Option Bytes}
    (h : blocks.Holds py data) (i : Int) : match data i with
      | none => blocks.tokens.get? i = none
      | some bytes => ∃ t, blocks.tokens.get? i = some t ∧ t.checksum = py.sha256 bytes := by
  have htokens := h.tokens i
  cases hdata : data i with
  | none => simpa [hdata] using htokens
  | some =>
    rw [hdata, map_some, map_eq_some_iff] at htokens
    rcases htokens with ⟨t, ht, heq⟩
    exact ⟨t, ht, congrArg Prod.fst heq⟩

/-- The digest tells the data at an index of two snapshots apart. -/
def Distinguishes (py : Builtins) (a b : Int → Option Bytes) : Prop :=
  ∀ i x y, a i = some x → b i = some y → py.sha256 x = py.sha256 y → x = y

theorem mem_diff_iff (A B : Blocks) (a b : Int → Option Bytes) (hsha : Distinguishes py a b)
    (ha : A.Holds py a) (hb : B.Holds py b) (entry : ChangedBlock) :
    entry ∈ diffRecords (recordsByIndex A.listBlocks) (recordsByIndex B.listBlocks) ↔
      (a entry.blockIndex).isSome ∧ a entry.blockIndex ≠ b entry.blockIndex ∧
        entry.firstBlockToken = (A.tokens.get? entry.blockIndex).map Token.token ∧
        entry.secondBlockToken = (B.tokens.get? entry.blockIndex).map Token.token := by
  rw [mem_diffRecords, get?_recordsByIndex, get?_recordsByIndex, Option.map_map]
  have ha := tokens_of_holds ha entry.blockIndex
  have hb := tokens_of_holds hb entry.blockIndex
  cases hdata : a entry.blockIndex with
  | none =>
    rw [hdata] at ha
    simp [ha]
  | some bytes =>
    rw [hdata] at ha
    rcases ha with ⟨t, ht, hsum⟩
    cases hdata' : b entry.blockIndex with
    | none =>
      rw [hdata'] at hb
      simp [ht, hb]
    | some bytes' =>
      rw [hdata'] at hb
      rcases hb with ⟨t', ht', hsum'⟩
      have heq : py.sha256 bytes = py.sha256 bytes' ↔ bytes = bytes' :=
        ⟨hsha _ _ _ hdata hdata', congrArg _⟩
      simp only [ht, ht', hsum, hsum', map_some, some.injEq, exists_eq_left',
        Function.comp_apply, forall_eq', ne_eq, heq, isSome_some, true_and]
      exact ⟨fun h => ⟨h.2.2, h.1, h.2.1⟩, fun h => ⟨h.2.1, h.2.2, h.1⟩⟩

/-- `diff_snapshots` reports the blocks of the first snapshot that are not in the second
    or have other data there, so that it is exact if and only if the second snapshot has no
    block of its own. -/
theorem diff_exact_iff (s : BlockStore) (first second : String) (A B : Snapshot)
    (hA : s.snapshots.get? first = some A) (hB : s.snapshots.get? second = some B)
    (a b : Int → Option Bytes) (ha : A.blocks.Holds py a) (hb : B.blocks.Holds py b)
    (hsha : Distinguishes py a b) :
    (∃ changed, s.diffSnapshots first second = .ok changed ∧
      (first ≠ "" → s.listChangedBlocks (some first) second = .ok (changed, B.info)) ∧
      Exact A.blocks B.blocks a b changed) ↔
    ∀ i, (b i).isSome → (a i).isSome := by
  have hfirst : s.listSnapshotBlocks first = .ok A.blocks.listBlocks := by
    rw [listSnapshotBlocks, hA]
  have hsecond : s.listSnapshotBlocks second = .ok B.blocks.listBlocks := by
    rw [listSnapshotBlocks, hB]
  have hdiff : s.diffSnapshots first second = .ok
      (diffRecords (recordsByIndex A.blocks.listBlocks) (recordsByIndex B.blocks.listBlocks)) := by
    rw [diffSnapshots, hfirst, hsecond]
    rfl
  have hmem := mem_diff_iff _ _ a b hsha ha hb
  constructor
  · rintro ⟨changed, h, -, -, hexact⟩ i hi
    cases hdiff.symm.trans h
    by_contra hnone
    have hne : a i ≠ b i := by
      intro heq
      exact hnone (heq ▸ hi)
    let entry : ChangedBlock := ⟨i, (A.blocks.tokens.get? i).map Token.token,
      (B.blocks.tokens.get? i).map Token.token⟩
    exact hnone ((hmem entry).mp ((hexact _).mpr ⟨hne, rfl, rfl⟩)).1
  · intro h
    refine ⟨_, hdiff, fun hid => ?_, pairwise_diffRecords _ _, fun entry => ?_⟩
    · rw [listChangedBlocks, filter_some, if_pos (decide_eq_true hid)]
      simp only [hdiff, hB, Except.bind]
    · rw [hmem]
      refine and_iff_right_of_imp fun hentry => ?_
      -- an index at which they differ is one of the first snapshot
      by_contra hnone
      have hb : b entry.blockIndex = none := by
        by_contra hsome
        exact hnone (h _ (isSome_iff_ne_none.mpr hsome))
      exact hentry.1 ((not_isSome_iff_eq_none.mp hnone).trans hb.symm)

def exampleFirst : Blocks :=
  ((Blocks.empty.write examplePython ⟨0, [1], none, "SHA256", "a"⟩).1.write examplePython
    ⟨1, [3], none, "SHA256", "b"⟩).1

def exampleSecond : Blocks :=
  (Blocks.empty.write examplePython ⟨0, [2], none, "SHA256", "c"⟩).1

def exampleStore : BlockStore where
  snapshots := Dict.ofEntries
    [("snap-1", ⟨⟨"snap-1", "000000000000", 1, blockSizeBytes, "completed", none, ""⟩,
        exampleFirst⟩),
      ("snap-2", ⟨⟨"snap-2", "000000000000", 1, blockSizeBytes, "completed", none, ""⟩,
        exampleSecond⟩)]
  volumes := Dict.empty

theorem listBlocks_exampleFirst : exampleFirst.listBlocks =
    [⟨0, "a", "S/USLzRFVMU73i67jNK349FgCtYxw4Wl18ziPHeFRZo=", "SHA256", 1⟩,
      ⟨1, "b", "CE/tCLl4r019GWp0RqhrWACeY2thHbFiEbZamq3/KcU=", "SHA256", 1⟩] := by
  rw [Blocks.listBlocks, mergeSort_of_pairwise (by decide)]
  decide

theorem listBlocks_exampleSecond : exampleSecond.listBlocks =
    [⟨0, "c", "28G0yQD/5I1XW12lxjgEASX2XbD+PiRJS3bqmGRX2YY=", "SHA256", 1⟩] := by
  rw [Blocks.listBlocks, mergeSort_of_pairwise (by decide)]
  decide

theorem diff_exact_of_exampleStore :
    ∃ changed, exampleStore.diffSnapshots "snap-1" "snap-2" = .ok changed ∧
      changed = [⟨0, some "a", some "c"⟩, ⟨1, some "b", none⟩] ∧
      Exact exampleFirst exampleSecond
        (fun i => if i = 1 then some [3] else if i = 0 then some [1] else none)
        (fun i => if i = 0 then some [2] else none) changed := by
  rcases (diff_exact_iff exampleStore "snap-1" "snap-2" ⟨_, exampleFirst⟩ ⟨_, exampleSecond⟩ rfl rfl
    (fun i => if i = 1 then some [3] else if i = 0 then some [1] else none)
    (fun i => if i = 0 then some [2] else none)
    (Blocks.write_holds _ _ _ (Blocks.write_holds _ _ _ Blocks.empty_holds (by decide)) (by decide))
    (Blocks.write_holds _ _ _ Blocks.empty_holds (by decide))
    (by
      intro i x y hx hy h
      grind [examplePython])).mpr (by intro i; grind) with ⟨changed, hdiff, -, hexact⟩
  have hcomputed : exampleStore.diffSnapshots "snap-1" "snap-2" =
      .ok [⟨0, some "a", some "c"⟩, ⟨1, some "b", none⟩] := by
    change Except.ok (diffRecords (recordsByIndex exampleFirst.listBlocks)
      (recordsByIndex exampleSecond.listBlocks)) = _
    rw [listBlocks_exampleFirst, listBlocks_exampleSecond, diffRecords,
      mergeSort_of_pairwise (by decide)]
    decide
  exact ⟨changed, hdiff, Except.ok.inj (hdiff.symm.trans hcomputed), hexact⟩

/-- A block that only the second snapshot has is not reported. -/
theorem added_block_missed :
    exampleStore.diffSnapshots "snap-2" "snap-1" = .ok [⟨0, some "c", some "a"⟩] ∧
      (exampleStore.getSnapshotBlock "snap-2" 1 "u").toOption = none ∧
      (exampleStore.getSnapshotBlock "snap-1" 1 "u").toOption.map Prod.fst = some [3] := by
  refine ⟨?_, by decide, by decide⟩
  change Except.ok (diffRecords (recordsByIndex exampleSecond.listBlocks)
    (recordsByIndex exampleFirst.listBlocks)) = _
  rw [listBlocks_exampleFirst, listBlocks_exampleSecond, diffRecords,
    mergeSort_of_pairwise (by decide)]
  decide

end LocalEmu.Ebs.BlockStore
