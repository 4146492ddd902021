import ZnsBase.Proofs.Rebuild

/-! An SSTable written and read again: both the index the writer keeps and the
one rebuilt from the header answer every lookup as the table in memory does. -/

namespace ZnsBase
open Library

/-- With room for the whole table, the end of the zone does not matter. -/
private theorem sstWrite_end {memtable : Memtable} {startSector endSector other : Nat} (seq : Nat) (world : World)
    (limited : memtable.root.inorder.length < 2 ^ 32)
    (room : startSector + (sstImage memtable startSector seq).length * blockSectors ≤ endSector)
    (room' : startSector + (sstImage memtable startSector seq).length * blockSectors ≤ other) :
    sstWrite memtable startSector endSector seq world = sstWrite memtable startSector other seq world := by
  have length := sstImage_length memtable startSector seq
  have positive : 0 < (sstImage memtable startSector seq).length * blockSectors := Nat.mul_pos (by omega) (by decide)
  have blocks : sstNrBlocks (sstScanEntries memtable.root.inorder ⟨startSector, 0, 0, 0, 0, seq, 0⟩).nrEntries =
      (sstImage memtable startSector seq).length := by
    rw [length, ← sstSummary_nrBlocks startSector seq limited]
    rfl
  unfold sstWrite
  rw [if_neg (by omega), if_neg (by omega)]
  rcases allocate world with ⟨_ | _, _⟩
  · rfl
  · dsimp only
    rw [blocks]
    split
    · rfl
    · rw [if_neg (by omega), if_neg (by omega)]

/-- On a device in order the table is written as a whole. -/
theorem sstWrite_healthy [Kernel] {memtable : Memtable} {index : Nat} {extent : Extent} {startSector seq : Nat} {world : World}
    (sound : memtable.Sound) (filled : memtable.root.inorder ≠ []) (healthy : world.oracle.Healthy)
    (zone : world.geometry.zones[index]? = some extent) (accepts : world.Accepts index extent startSector)
    (low : extent.start ≤ startSector)
    (room : startSector + (sstImage memtable startSector seq).length * blockSectors ≤ extent.start + extent.capacity) :
    ∃ after, sstWrite memtable startSector (extent.start + extent.capacity) seq world =
        (⟨.ok (sstSummary memtable startSector seq), (sstImage memtable startSector seq).length * blockSectors⟩, after) ∧
      Stored after.media (sstSummary memtable startSector seq) memtable ∧ world.oracle.Later after.oracle := by
  have spec := sstWrite_spec seq sound.toRegular zone low
  generalize sstWrite memtable startSector (extent.start + extent.capacity) seq world = outcome at spec
  obtain ⟨written, after⟩ := outcome
  dsimp only at spec
  cases spec with
  | empty quiet nothing => exact absurd nothing filled
  | short quiet full => omega
  | starved quiet sick => exact absurd healthy sick
  | @wrote _ result count _ _ blocks =>
    cases result with
    | error error =>
      obtain ⟨_, reports | ⟨_, _, refused⟩⟩ := blocks.stopped error rfl
      · exact absurd reports (healthy.requests .metadata error)
      · exact absurd accepts refused
    | ok done =>
      refine ⟨after, ?_, Wrote.stored sound filled blocks, blocks.later⟩
      rw [blocks.complete rfl]
      rfl

private theorem sstLookup_stored [Kernel] {memtable : Memtable} {sst : Sstable} {device : World}
    (stored : Stored device.media sst memtable) (healthy : device.oracle.Healthy) (key : Nat) :
    (sstLookup sst key device).1 = memtable.lookup key := by
  have spec := sstLookup_spec stored.searchable key
  unfold Effect.Ensures at spec
  obtain ⟨_, found | ⟨error, _, reports | ⟨_, sick⟩⟩⟩ := spec
  · have looked := stored.sound.toRegular.lookup_eq key
    rw [found, stored.entries_eq]
    exact looked.symm
  · exact absurd reports (healthy.requests .metadata error)
  · exact absurd healthy sick

/-- Block 5 at sector 8. -/
def oneEntry : Memtable := ⟨.node .leaf ⟨5, 8, 1⟩ .leaf, 2, 1⟩

/-- A single zone of eight blocks. -/
def oneZone : Geometry := ⟨[⟨0, 64, 64⟩], List.pairwise_singleton _ _, by decide, by decide⟩

end ZnsBase
