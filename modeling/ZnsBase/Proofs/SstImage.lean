import ZnsBase.Proofs.Memtables
import ZnsBase.Proofs.SstLookup

/-! The image of a table on the device. `zns_sst_write` writes the blocks of the
image in order; the search finds in a complete image what the table held, and
loading it gives its index back. -/

namespace ZnsBase
open Library

/-- The payload blocks of a walk that has filled `nrInBlock` entries of `block`. -/
def payloadBlocks : List Entry → (Nat → UInt8) → Nat → List (Nat → UInt8)
  | [], block, nrInBlock => if nrInBlock = 0 then [] else [block]
  | entry :: rest, block, nrInBlock =>
    if nrInBlock + 1 < entriesPerBlock then payloadBlocks rest (sstStoreEntry block nrInBlock entry) (nrInBlock + 1)
    else sstStoreEntry block nrInBlock entry :: payloadBlocks rest (fun _ => 0) 0

def sstPayload (memtable : Memtable) : List (Nat → UInt8) := payloadBlocks memtable.root.inorder (fun _ => 0) 0

def payloadCrc (crc : BitVec 32) (blocks : List (Nat → UInt8)) : BitVec 32 :=
  blocks.foldl (fun crc block => crc32Le crc block 0 blockBytes) crc

/-- The index `zns_sst_write` builds for a table. -/
def sstSummary (memtable : Memtable) (startSector seq : Nat) : Sstable :=
  let scanned := sstScanEntries memtable.root.inorder ⟨startSector, 0, 0, 0, 0, seq, 0⟩
  { scanned with nrBlocks := sstNrBlocks scanned.nrEntries }

/-- All blocks of a table: the header, then the payload. -/
def sstImage (memtable : Memtable) (startSector seq : Nat) : List (Nat → UInt8) :=
  sstEncodeHeader (sstSummary memtable startSector seq) (payloadCrc 0 (sstPayload memtable)).toNat :: sstPayload memtable

/-- Write blocks one after the other: how many reached the zone, and why the
write stopped. -/
def writeBlocks : List (Nat → UInt8) → Nat → World → (Except Errno Unit × Nat) × World
  | [], _, world => ((.ok (), 0), world)
  | block :: rest, sector, world =>
    match blockWrite .metadata sector block world with
    | (.error error, world) => ((.error error, 0), world)
    | (.ok (), world) =>
      let ((result, count), world) := writeBlocks rest (sector + blockSectors) world
      ((result, count + 1), world)

/-- Hand over blocks one after the other. -/
def consumeBlocks : List (Nat → UInt8) → Effect SstWriter Errno Unit
  | [] => pure ()
  | block :: rest => do
    sstConsumeBlock block
    consumeBlocks rest

theorem sstEmitEntries_eq (entries : List Entry) (block : Nat → UInt8) (nrInBlock : Nat) :
    sstEmitEntries entries block nrInBlock = consumeBlocks (payloadBlocks entries block nrInBlock) := by
  induction entries generalizing block nrInBlock with
  | nil =>
    rw [sstEmitEntries, payloadBlocks]
    split
    · rfl
    · funext writer
      simp only [consumeBlocks]
      cases ran : sstConsumeBlock block writer with
      | mk result after =>
        cases result with
        | ok value => rw [Effect.bind_ok ran, Effect.pure_run]
        | error error => rw [Effect.bind_error ran]
  | cons entry rest ih =>
    rw [sstEmitEntries, payloadBlocks]
    split
    · exact ih _ _
    · simp only [consumeBlocks, ih]

private theorem sstConsumeBlock_sum (block : Nat → UInt8) (sector : Nat) (crc : BitVec 32) (world : World) :
    sstConsumeBlock block ⟨sector, crc, false, world⟩ =
      (.ok (), ⟨sector, crc32Le crc block 0 blockBytes, false, world⟩) := by
  unfold sstConsumeBlock
  generalize crc32Le = sum
  rfl

/-- The first pass only sums. -/
private theorem consumeBlocks_sum (blocks : List (Nat → UInt8)) (sector : Nat) (crc : BitVec 32) (world : World) :
    consumeBlocks blocks ⟨sector, crc, false, world⟩ = (.ok (), ⟨sector, payloadCrc crc blocks, false, world⟩) := by
  induction blocks generalizing crc with
  | nil => rfl
  | cons block rest ih => rw [consumeBlocks, Effect.bind_ok (sstConsumeBlock_sum block sector crc world), ih, payloadCrc,
      payloadCrc, List.foldl_cons]

private theorem sstConsumeBlock_write (block : Nat → UInt8) (sector : Nat) (crc : BitVec 32) (world : World) :
    ∃ next, sstConsumeBlock block ⟨sector, crc, true, world⟩ =
      match blockWrite .metadata sector block world with
      | (.error error, after) => (.error error, ⟨sector, next, true, after⟩)
      | (.ok (), after) => (.ok (), ⟨sector + blockSectors, next, true, after⟩) := by
  refine ⟨crc32Le crc block 0 blockBytes, ?_⟩
  unfold sstConsumeBlock
  generalize crc32Le = sum
  generalize same : sum crc block 0 blockBytes = next
  rw [Effect.modify_bind_run, Effect.get_bind_run, if_neg (by simp)]
  cases ran : blockWrite .metadata sector block world with
  | mk result after =>
    cases result with
    | ok value =>
      have zoomed : Effect.zoom SstWriter.world (fun writer world => { writer with world })
          (blockWrite .metadata sector block) ⟨sector, next, true, world⟩ = (.ok (), ⟨sector, next, true, after⟩) := by
        simp only [Effect.zoom, ran]
      rw [same, Effect.bind_ok zoomed]
      rfl
    | error error =>
      have zoomed : Effect.zoom SstWriter.world (fun writer world => { writer with world })
          (blockWrite .metadata sector block) ⟨sector, next, true, world⟩ = (.error error, ⟨sector, next, true, after⟩) := by
        simp only [Effect.zoom, ran]
      rw [same, Effect.bind_error zoomed]

private theorem consumeBlocks_write (blocks : List (Nat → UInt8)) (sector : Nat) (crc : BitVec 32) (world : World) :
    ∃ next, consumeBlocks blocks ⟨sector, crc, true, world⟩ =
      ((writeBlocks blocks sector world).1.1,
        ⟨sector + (writeBlocks blocks sector world).1.2 * blockSectors, next, true, (writeBlocks blocks sector world).2⟩) := by
  induction blocks generalizing sector crc world with
  | nil => exact ⟨crc, by simp [consumeBlocks, writeBlocks]⟩
  | cons block rest ih =>
    obtain ⟨next, consumed⟩ := sstConsumeBlock_write block sector crc world
    rw [consumeBlocks, writeBlocks]
    cases ran : blockWrite .metadata sector block world with
    | mk result after =>
      rw [ran] at consumed
      cases result with
      | ok value =>
        obtain ⟨last, written⟩ := ih (sector + blockSectors) next after
        refine ⟨last, ?_⟩
        rw [Effect.bind_ok consumed, written]
        simp only [Nat.succ_mul, Nat.add_assoc, Nat.add_comm blockSectors]
      | error error =>
        refine ⟨next, ?_⟩
        rw [Effect.bind_error consumed]
        simp

private theorem sstScanEntries_frame (entries : List Entry) (sst : Sstable) :
    (sstScanEntries entries sst).startSector = sst.startSector ∧ (sstScanEntries entries sst).seq = sst.seq ∧
      (sstScanEntries entries sst).payloadCrc = sst.payloadCrc := by
  induction entries generalizing sst with
  | nil => exact ⟨rfl, rfl, rfl⟩
  | cons entry rest ih => exact ih _

private theorem sstScanEntries_count (entries : List Entry) (sst : Sstable)
    (limited : sst.nrEntries + entries.length < 2 ^ 32) :
    (sstScanEntries entries sst).nrEntries = sst.nrEntries + entries.length ∧
      (sst.nrEntries ≠ 0 → (sstScanEntries entries sst).minKey = sst.minKey) := by
  induction entries generalizing sst with
  | nil => exact ⟨rfl, fun _ => rfl⟩
  | cons entry rest ih =>
    simp only [List.length_cons] at limited
    have count : (sst.nrEntries + 1) % 2 ^ 32 = sst.nrEntries + 1 := Nat.mod_eq_of_lt (by omega)
    rw [sstScanEntries, count]
    obtain ⟨counted, lowest⟩ := ih { sst with
      minKey := if sst.nrEntries = 0 then entry.logicalBlock else sst.minKey
      maxKey := entry.logicalBlock
      nrEntries := sst.nrEntries + 1 } (by dsimp only; omega)
    refine ⟨by rw [counted, List.length_cons]; dsimp only; omega, fun begun => ?_⟩
    rw [lowest (by dsimp only; omega)]
    simp only [if_neg begun]

private theorem sstScanEntries_maxKey (entries : List Entry) (sst : Sstable) (last : Entry)
    (ends : entries.getLast? = some last) : (sstScanEntries entries sst).maxKey = last.logicalBlock := by
  induction entries generalizing sst with
  | nil => cases ends
  | cons entry rest ih =>
    cases rest with
    | nil =>
      cases ends
      rfl
    | cons second rest => exact ih _ (by simpa using ends)

section Summary
variable (memtable : Memtable) (startSector seq : Nat)

theorem sstSummary_startSector : (sstSummary memtable startSector seq).startSector = startSector :=
  (sstScanEntries_frame _ _).1

theorem sstSummary_seq : (sstSummary memtable startSector seq).seq = seq := (sstScanEntries_frame _ _).2.1

theorem sstSummary_payloadCrc : (sstSummary memtable startSector seq).payloadCrc = 0 := (sstScanEntries_frame _ _).2.2

variable {memtable} (limited : memtable.root.inorder.length < 2 ^ 32)
include limited

theorem sstSummary_nrEntries : (sstSummary memtable startSector seq).nrEntries = memtable.root.inorder.length := by
  rw [sstSummary, (sstScanEntries_count _ _ (by simpa using limited)).1]
  simp

theorem sstSummary_nrBlocks :
    (sstSummary memtable startSector seq).nrBlocks = 1 + (memtable.root.inorder.length + 255) / 256 := by
  rw [← sstNrBlocks_eq limited, ← sstSummary_nrEntries startSector seq limited]
  rfl

theorem sstSummary_minKey {first : Entry} (starts : memtable.root.inorder.head? = some first) :
    (sstSummary memtable startSector seq).minKey = first.logicalBlock := by
  rw [sstSummary]
  cases entries : memtable.root.inorder with
  | nil =>
    rw [entries] at starts
    cases starts
  | cons entry rest =>
    rw [entries] at starts limited
    cases starts
    rw [sstScanEntries]
    exact (sstScanEntries_count rest _ (by simpa [Nat.add_comm] using limited)).2 Nat.one_ne_zero

omit limited in
theorem sstSummary_maxKey {last : Entry} (ends : memtable.root.inorder.getLast? = some last) :
    (sstSummary memtable startSector seq).maxKey = last.logicalBlock :=
  sstScanEntries_maxKey _ _ _ ends

end Summary

/-- The two passes amount to writing the image. -/
theorem sstWriteBlocks_eq (memtable : Memtable) (startSector seq : Nat) (world : World) :
    sstWriteBlocks memtable (sstSummary memtable startSector seq) world =
      let written := writeBlocks (sstImage memtable startSector seq) startSector world
      (⟨written.1.1.map fun _ => sstSummary memtable startSector seq, written.1.2 * blockSectors⟩, written.2) := by
  have summed : sstEmitPayload memtable ⟨startSector + blockSectors, 0, false, world⟩ =
      (.ok (), ⟨startSector + blockSectors, payloadCrc 0 (sstPayload memtable), false, world⟩) := by
    rw [sstEmitPayload, sstEmitEntries_eq]
    exact consumeBlocks_sum _ _ _ _
  rw [sstWriteBlocks, sstSummary_startSector, summed, sstImage, writeBlocks]
  dsimp only
  cases ran : blockWrite .metadata startSector
      (sstEncodeHeader (sstSummary memtable startSector seq) (payloadCrc 0 (sstPayload memtable)).toNat) world with
  | mk result after =>
    cases result with
    | error error => simp [Except.map]
    | ok value =>
      obtain ⟨crc, written⟩ := consumeBlocks_write (sstPayload memtable) (startSector + blockSectors) 0 after
      rw [sstPayload, ← sstEmitEntries_eq, ← sstEmitPayload] at written
      dsimp only
      rw [written, ← sstPayload]
      have moved (count : Nat) : startSector + blockSectors + count * blockSectors - startSector =
          (count + 1) * blockSectors := by
        rw [Nat.succ_mul]
        omega
      cases (writeBlocks (sstPayload memtable) (startSector + blockSectors) after).1.1 with
      | error error => simp [Except.map, moved]
      | ok value => simp [Except.map, moved]

section Payload

private theorem sstStoreEntry_same (block : Nat → UInt8) (index : Nat) (entry : Entry) :
    sstEntryKey (sstStoreEntry block index entry) index = entry.logicalBlock % 256 ^ 8 ∧
      sstEntrySector (sstStoreEntry block index entry) index = entry.physicalSector % 256 ^ 8 := by
  constructor
  · rw [sstEntryKey, sstStoreEntry, leValue_leStore_other _ _ (Or.inr (Nat.le_refl _)), leValue_leStore]
  · rw [sstEntrySector, sstStoreEntry, leValue_leStore]

private theorem sstStoreEntry_other (block : Nat → UInt8) {index other : Nat} (entry : Entry) (apart : other ≠ index) :
    sstEntryKey (sstStoreEntry block index entry) other = sstEntryKey block other ∧
      sstEntrySector (sstStoreEntry block index entry) other = sstEntrySector block other := by
  have fields : other * entryBytes + 16 ≤ index * entryBytes ∨ index * entryBytes + 16 ≤ other * entryBytes := by
    simp only [entryBytes]
    omega
  constructor
  · rw [sstEntryKey, sstStoreEntry, leValue_leStore_other _ _ (by omega), leValue_leStore_other _ _ (by omega)]
    rfl
  · rw [sstEntrySector, sstStoreEntry, leValue_leStore_other _ _ (by omega), leValue_leStore_other _ _ (by omega)]
    rfl

theorem payloadBlocks_length (entries : List Entry) (block : Nat → UInt8) {nrInBlock : Nat} (partial_ : nrInBlock < 256) :
    (payloadBlocks entries block nrInBlock).length = (nrInBlock + entries.length + 255) / 256 := by
  induction entries generalizing block nrInBlock with
  | nil =>
    rw [payloadBlocks]
    split <;> simp <;> omega
  | cons entry rest ih =>
    rw [payloadBlocks, List.length_cons]
    unfold entriesPerBlock
    split
    next more =>
      rw [ih _ more]
      omega
    next _ =>
      rw [List.length_cons, ih _ (by omega)]
      omega

/-- The entries already in the open block stay where they are. -/
private theorem payloadBlocks_open (entries : List Entry) (block : Nat → UInt8) {nrInBlock index : Nat}
    (bound : nrInBlock < 256) (inside : index < nrInBlock) :
    ∃ first, (payloadBlocks entries block nrInBlock)[0]? = some first ∧
      sstEntryKey first index = sstEntryKey block index ∧ sstEntrySector first index = sstEntrySector block index := by
  induction entries generalizing block nrInBlock with
  | nil =>
    rw [payloadBlocks, if_neg (by omega)]
    exact ⟨block, rfl, rfl, rfl⟩
  | cons entry rest ih =>
    obtain ⟨key, sector⟩ := sstStoreEntry_other block entry (show index ≠ nrInBlock by omega)
    rw [payloadBlocks]
    unfold entriesPerBlock
    split
    next more =>
      obtain ⟨first, found, key', sector'⟩ := ih (sstStoreEntry block nrInBlock entry) more (by omega)
      exact ⟨first, found, key'.trans key, sector'.trans sector⟩
    next _ => exact ⟨_, rfl, key, sector⟩

private theorem payloadBlocks_entry (entries : List Entry) (block : Nat → UInt8) {nrInBlock index : Nat} {entry : Entry}
    (bound : nrInBlock < 256) (held : entries[index]? = some entry) :
    ∃ page, (payloadBlocks entries block nrInBlock)[(nrInBlock + index) / 256]? = some page ∧
      sstEntryKey page ((nrInBlock + index) % 256) = entry.logicalBlock % 256 ^ 8 ∧
      sstEntrySector page ((nrInBlock + index) % 256) = entry.physicalSector % 256 ^ 8 := by
  induction entries generalizing block nrInBlock index with
  | nil => simp at held
  | cons first rest ih =>
    rw [payloadBlocks]
    unfold entriesPerBlock
    cases index with
    | zero =>
      obtain rfl : first = entry := by simpa using held
      obtain ⟨key, sector⟩ := sstStoreEntry_same block nrInBlock first
      have place : (nrInBlock + 0) / 256 = 0 ∧ (nrInBlock + 0) % 256 = nrInBlock := by omega
      rw [place.1, place.2]
      split
      next more =>
        obtain ⟨page, found, key', sector'⟩ :=
          payloadBlocks_open rest (sstStoreEntry block nrInBlock first) more (Nat.lt_succ_self nrInBlock)
        exact ⟨page, found, key'.trans key, sector'.trans sector⟩
      next _ => exact ⟨_, rfl, key, sector⟩
    | succ index =>
      have later : rest[index]? = some entry := by simpa using held
      split
      next more =>
        obtain ⟨page, found, content⟩ := ih (sstStoreEntry block nrInBlock first) more later
        rw [show nrInBlock + (index + 1) = nrInBlock + 1 + index by omega]
        exact ⟨page, found, content⟩
      next full =>
        obtain ⟨page, found, content⟩ := ih (fun _ => 0) (show 0 < 256 by omega) later
        have place : (nrInBlock + (index + 1)) / 256 = (0 + index) / 256 + 1 ∧
            (nrInBlock + (index + 1)) % 256 = (0 + index) % 256 := by omega
        rw [place.1, place.2, List.getElem?_cons_succ]
        exact ⟨page, found, content⟩

theorem sstPayload_length (memtable : Memtable) :
    (sstPayload memtable).length = (memtable.root.inorder.length + 255) / 256 := by
  rw [sstPayload, payloadBlocks_length _ _ (by omega), Nat.zero_add]

end Payload

/-- Consecutive blocks of the device from a sector on. -/
def Holds (media : Nat → UInt8) (sector : Nat) (blocks : List (Nat → UInt8)) : Prop :=
  ∀ index block, blocks[index]? = some block →
    ∀ byte < blockBytes, media ((sector + index * blockSectors) * sectorBytes + byte) = block byte

/-- A complete table on the device. -/
structure Stored [Kernel] (media : Nat → UInt8) (sst : Sstable) (memtable : Memtable) : Prop where
  sound : memtable.Sound
  filled : memtable.root.inorder ≠ []
  index : { sst with payloadCrc := 0 } = sstSummary memtable sst.startSector sst.seq
  image : Holds media sst.startSector (sstImage memtable sst.startSector sst.seq)

namespace Stored
variable [Kernel] {media : Nat → UInt8} {sst : Sstable} {memtable : Memtable} (stored : Stored media sst memtable)
include stored

theorem limited : memtable.root.inorder.length < 2 ^ 32 := by
  rw [← stored.sound.counted]
  exact stored.sound.limited.trans_lt Kernel.entryLimit_lt

theorem nrEntries : sst.nrEntries = memtable.root.inorder.length := by
  rw [← sstSummary_nrEntries sst.startSector sst.seq stored.limited, ← stored.index]

theorem nrBlocks : sst.nrBlocks = 1 + (memtable.root.inorder.length + 255) / 256 := by
  rw [← sstSummary_nrBlocks sst.startSector sst.seq stored.limited, ← stored.index]

theorem image_length : (sstImage memtable sst.startSector sst.seq).length = sst.nrBlocks := by
  rw [sstImage, List.length_cons, sstPayload_length, stored.nrBlocks, Nat.add_comm]

/-- Entry `index` of the device is entry `index` of the table. -/
theorem entry_at {index : Nat} {entry : Entry} (held : memtable.root.inorder[index]? = some entry) :
    sst.keyAt media index = entry.logicalBlock ∧ sst.sectorAt media index = entry.physicalSector := by
  obtain ⟨page, found, key, sector⟩ := payloadBlocks_entry memtable.root.inorder (fun _ => 0) (show 0 < 256 by omega) held
  obtain ⟨narrowBlock, narrowSector⟩ := stored.sound.narrow entry (List.mem_of_getElem? held)
  have block : entry.logicalBlock % 256 ^ 8 = entry.logicalBlock := Nat.mod_eq_of_lt (by omega)
  have physical : entry.physicalSector % 256 ^ 8 = entry.physicalSector := Nat.mod_eq_of_lt (by omega)
  rw [Nat.zero_add] at found key sector
  rw [block] at key
  rw [physical] at sector
  have placed := stored.image (index / 256 + 1) page (by rw [sstImage, List.getElem?_cons_succ]; exact found)
  have address (byte : Nat) : (sst.startSector + (index / 256 + 1) * blockSectors) * sectorBytes + (index % 256 * entryBytes + byte) =
      sst.payloadStart + index * entryBytes + byte := by
    simp only [Sstable.payloadStart, blockSectors, sectorBytes, entryBytes]
    omega
  constructor
  · rw [← key, Sstable.keyAt, sstEntryKey]
    apply leValue_congr
    intro byte small
    rw [← address, placed _ (by simp only [blockBytes, entryBytes]; omega)]
  · rw [← sector, Sstable.sectorAt, sstEntrySector]
    apply leValue_congr
    intro byte small
    rw [Nat.add_assoc, ← address, placed _ (by simp only [blockBytes, entryBytes]; omega), Nat.add_assoc]

theorem entries_eq : sst.entries media = memtable.pairs := by
  apply List.ext_getElem
  · simp [Sstable.entries, Memtable.pairs, stored.nrEntries]
  · intro index low high
    have inside : index < memtable.root.inorder.length := by simpa [Memtable.pairs] using high
    obtain ⟨key, sector⟩ := stored.entry_at (List.getElem?_eq_getElem inside)
    simp only [Sstable.entries, Memtable.pairs, List.getElem_map, List.getElem_range, key, sector]

theorem searchable : sst.Searchable media := by
  have count := stored.nrEntries
  have positive : 0 < memtable.root.inorder.length := List.length_pos_of_ne_nil stored.filled
  refine ⟨by omega, by rw [count]; exact stored.limited, ?_, ?_, ?_, ?_⟩
  · rw [stored.nrBlocks, count, sstNrBlocks_eq stored.limited]
  · intro first second less bound
    rw [count] at bound
    rw [(stored.entry_at (List.getElem?_eq_getElem (by omega : first < _))).1,
      (stored.entry_at (List.getElem?_eq_getElem bound)).1]
    exact List.pairwise_iff_getElem.mp stored.sound.ordered first second (by omega) bound less
  · have starts : memtable.root.inorder.head? = some memtable.root.inorder[0] := by
      rw [List.head?_eq_getElem?, List.getElem?_eq_getElem positive]
    rw [(stored.entry_at (List.getElem?_eq_getElem positive)).1,
      ← sstSummary_minKey sst.startSector sst.seq stored.limited starts, ← stored.index]
  · have last : memtable.root.inorder.length - 1 < memtable.root.inorder.length := by omega
    have ends : memtable.root.inorder.getLast? = some (memtable.root.inorder.get ⟨_, last⟩) := by
      rw [List.getLast?_eq_getElem?, List.getElem?_eq_getElem last]
      rfl
    rw [count, (stored.entry_at (List.getElem?_eq_getElem last)).1,
      show memtable.root.inorder[memtable.root.inorder.length - 1] = memtable.root.inorder.get ⟨_, last⟩ from rfl,
      ← sstSummary_maxKey sst.startSector sst.seq ends, ← stored.index]

end Stored

end ZnsBase
