import ZnsBase.Proofs.SstImage

/-! SSTables between memory and the metadata zone: what a write leaves in the
zone whenever it stops, and what loading finds there. -/

namespace ZnsBase
open Library

private theorem sstEncodeHeader_fields (sst : Sstable) (crc : Nat) :
    leValue (sstEncodeHeader sst crc) 0 8 = sstMagic % 256 ^ 8 ∧
    leValue (sstEncodeHeader sst crc) 8 4 = sstVersion % 256 ^ 4 ∧
    leValue (sstEncodeHeader sst crc) 12 4 = sst.nrEntries % 256 ^ 4 ∧
    leValue (sstEncodeHeader sst crc) 16 4 = sst.nrBlocks % 256 ^ 4 ∧
    leValue (sstEncodeHeader sst crc) 20 4 = crc % 256 ^ 4 ∧
    leValue (sstEncodeHeader sst crc) 24 8 = sst.seq % 256 ^ 8 ∧
    leValue (sstEncodeHeader sst crc) 32 8 = sst.minKey % 256 ^ 8 ∧
    leValue (sstEncodeHeader sst crc) 40 8 = sst.maxKey % 256 ^ 8 := by
  unfold sstEncodeHeader
  simp (disch := omega) only [leValue_leStore_other, leValue_leStore, and_self]

/-- The index a later session reads back from the header of a table. -/
def sstLoaded (memtable : Memtable) (startSector seq : Nat) : Sstable :=
  { sstSummary memtable startSector seq with payloadCrc := (payloadCrc 0 (sstPayload memtable)).toNat }

section Header
variable [Kernel] {memtable : Memtable} (sound : memtable.Sound) (filled : memtable.root.inorder ≠ [])
include sound filled

private theorem summary_keys (startSector seq : Nat) :
    (sstSummary memtable startSector seq).minKey ≤ (sstSummary memtable startSector seq).maxKey ∧
      (sstSummary memtable startSector seq).maxKey < 2 ^ 64 := by
  have positive : 0 < memtable.root.inorder.length := List.length_pos_of_ne_nil filled
  have limited : memtable.root.inorder.length < 2 ^ 32 := by
    rw [← sound.counted]
    exact sound.limited.trans_lt Kernel.entryLimit_lt
  have last : memtable.root.inorder.length - 1 < memtable.root.inorder.length := by omega
  have starts : memtable.root.inorder.head? = some (memtable.root.inorder.get ⟨0, positive⟩) := by
    rw [List.head?_eq_getElem?, List.getElem?_eq_getElem positive]
    rfl
  have ends : memtable.root.inorder.getLast? = some (memtable.root.inorder.get ⟨_, last⟩) := by
    rw [List.getLast?_eq_getElem?, List.getElem?_eq_getElem last]
    rfl
  rw [sstSummary_minKey startSector seq limited starts, sstSummary_maxKey startSector seq ends]
  refine ⟨?_, (sound.narrow _ (List.get_mem _ _)).1⟩
  rcases Nat.eq_zero_or_pos (memtable.root.inorder.length - 1) with zero | more
  · exact Nat.le_of_eq (by congr 2; simp [zero])
  · exact (List.pairwise_iff_getElem.mp sound.ordered 0 _ positive last more).le

theorem sstDecodeHeader_image {block : Nat → UInt8} {startSector seq : Nat} (small : seq < 2 ^ 64)
    (header : ∀ byte < blockBytes, block byte =
      sstEncodeHeader (sstSummary memtable startSector seq) (payloadCrc 0 (sstPayload memtable)).toNat byte) :
    sstDecodeHeader block startSector = .ok (sstLoaded memtable startSector seq) := by
  have positive : 0 < memtable.root.inorder.length := List.length_pos_of_ne_nil filled
  have limited : memtable.root.inorder.length < 2 ^ 32 := by
    rw [← sound.counted]
    exact sound.limited.trans_lt Kernel.entryLimit_lt
  have fields (offset width : Nat) (inside : offset + width ≤ blockBytes) : leValue block offset width =
      leValue (sstEncodeHeader (sstSummary memtable startSector seq) (payloadCrc 0 (sstPayload memtable)).toNat)
        offset width :=
    leValue_congr width (fun index less => header _ (by omega))
  obtain ⟨magic, version, entries, blocks, crc, sequence, low, high⟩ :=
    sstEncodeHeader_fields (sstSummary memtable startSector seq) (payloadCrc 0 (sstPayload memtable)).toNat
  have count := sstSummary_nrEntries startSector seq limited
  have size := sstSummary_nrBlocks startSector seq limited
  obtain ⟨ordered, narrow⟩ := summary_keys sound filled startSector seq
  have crcSmall := (payloadCrc 0 (sstPayload memtable)).isLt
  rw [sstSummary_seq] at sequence
  rw [Nat.mod_eq_of_lt (by omega)] at entries blocks crc sequence low high
  unfold sstDecodeHeader
  rw [fields 0 8 (by decide), fields 8 4 (by decide), fields 12 4 (by decide), fields 16 4 (by decide),
    fields 20 4 (by decide), fields 24 8 (by decide), fields 32 8 (by decide), fields 40 8 (by decide),
    magic, version, entries, blocks, crc, sequence, low, high]
  rw [if_neg (by decide), if_neg (by decide), if_neg (by rw [count, size, sstNrBlocks_eq limited]; omega), if_neg (by omega)]
  simp only [sstLoaded, sstSummary_startSector, sstSummary_seq]

end Header

/-- The writes to the data zones so far. -/
def World.dataWrites (world : World) : List Submission := world.submitted.filter fun write => write.lane = .data

/-- The writes to the metadata zone so far. -/
def World.metaWrites (world : World) : List Submission := world.submitted.filter fun write => write.lane = .metadata

/-- A metadata block that is written moves the device's pointer by its size, one
that fails not at all. -/
def World.Exact (world : World) : Prop := ¬ world.oracle.Spills .metadata ∧ world.fullAtLength = false

theorem World.Quiet.metaWrites {before after : World} (quiet : before.Quiet after) : after.metaWrites = before.metaWrites := by
  rw [World.metaWrites, quiet.submitted, World.metaWrites]

theorem World.Quiet.exact {before after : World} (quiet : before.Quiet after) (exact_ : before.Exact) : after.Exact :=
  ⟨fun spills => exact_.1 (spills.later quiet.later), quiet.fullAtLength.trans exact_.2⟩

theorem World.commit_exact (world : World) (index : Nat) (extent : Extent) (sector : Nat) (bytes : Nat → UInt8)
    (plain : world.fullAtLength = false) : (world.commit index extent sector bytes).writePointer index = sector + blockSectors := by
  unfold World.commit
  split
  · simp [World.setZone, plain]
  · simp [World.setZone]

/-- Writes of log blocks, one after the other, of which `count` succeeded. -/
inductive BlockWrites : World → Nat → World → Prop
  | refl (world : World) : BlockWrites world 0 world
  | quiet {world middle after : World} {count : Nat} (same : world.Quiet middle) (rest : BlockWrites middle count after) :
      BlockWrites world count after
  | succeeded {world middle after : World} {sector count : Nat} {bytes : Nat → UInt8}
      (ran : blockWrite .metadata sector bytes world = (.ok (), middle)) (rest : BlockWrites middle count after) :
      BlockWrites world (count + 1) after
  | failed {world middle after : World} {sector count : Nat} {bytes : Nat → UInt8} {error : Errno}
      (ran : blockWrite .metadata sector bytes world = (.error error, middle)) (rest : BlockWrites middle count after) :
      BlockWrites world count after

/-- What a run of block writes at `sector` did when it stopped after `count` of
the blocks. -/
structure Wrote (world : World) (index : Nat) (extent : Extent) (blocks : List (Nat → UInt8)) (sector : Nat)
    (result : Except Errno Unit) (count : Nat) (after : World) : Prop where
  appended : world.Appended after index extent sector
  later : world.oracle.Later after.oracle
  dataWrites : after.dataWrites = world.dataWrites
  held : Holds after.media sector (blocks.take count)
  complete : result = .ok () → count = blocks.length
  stopped : ∀ error, result = .error error → count < blocks.length ∧
    (world.oracle.Reports .metadata error ∨ (count = 0 ∧ error = .eio ∧ ¬ world.Accepts index extent sector))
  begun : 0 < count → world.Accepts index extent sector
  ended : (result = .ok () ∨ ¬ world.oracle.Spills .metadata) → (count = 0 → world.SameDevice after) ∧
    (0 < count → after.LogEnd index extent (sector + count * blockSectors) ∧
      after.condition index ≠ .readonly ∧ after.condition index ≠ .offline ∧ sector ≤ after.writePointer index)
  pointer : world.Exact → after.writePointer index = world.writePointer index + count * blockSectors
  writes : ∃ fresh, after.metaWrites = fresh ++ world.metaWrites ∧ ∀ write ∈ fresh,
    sector ≤ write.sector ∧ write.sector + blockSectors ≤ sector + blocks.length * blockSectors ∧
      (world.Exact → world.writePointer index = sector → write.writePointer index = write.sector)
  counted : BlockWrites world count after

theorem World.Recorded.metaWrites {before after : World} {sector : Nat}
    (recorded : before.Recorded after .metadata sector) :
    after.metaWrites = [⟨.metadata, sector, before.writePointer, before.condition⟩] ++ before.metaWrites := by
  rw [World.metaWrites, recorded.submitted]
  rfl

theorem World.Recorded.metaWrites_data {before after : World} {sector : Nat} (recorded : before.Recorded after .data sector) :
    after.metaWrites = before.metaWrites := by
  rw [World.metaWrites, recorded.submitted]
  rfl

theorem World.Recorded.dataWrites {before after : World} {sector : Nat}
    (recorded : before.Recorded after .metadata sector) : after.dataWrites = before.dataWrites := by
  rw [World.dataWrites, recorded.submitted]
  rfl

theorem writeBlocks_wrote {index : Nat} {extent : Extent} (blocks : List (Nat → UInt8)) {sector : Nat} {world : World}
    (zone : world.geometry.zones[index]? = some extent) (low : extent.start ≤ sector)
    (room : sector + blocks.length * blockSectors ≤ extent.start + extent.capacity) :
    Wrote world index extent blocks sector (writeBlocks blocks sector world).1.1 (writeBlocks blocks sector world).1.2
      (writeBlocks blocks sector world).2 := by
  induction blocks generalizing sector world with
  | nil =>
    refine ⟨World.SameDevice.appended (.refl _) _ _ _, .refl _, rfl, ?_, fun _ => rfl, ?_, ?_, ?_,
      fun _ => (Nat.add_zero _).symm, ⟨[], rfl, (by rintro _ ⟨⟩)⟩, .refl _⟩
    · intro index block found
      simp [writeBlocks] at found
    · intro error same
      cases same
    · intro positive
      exact absurd positive (Nat.lt_irrefl _)
    · exact fun _ => ⟨fun _ => .refl _, fun positive => absurd positive (Nat.lt_irrefl _)⟩
  | cons block rest ih =>
    have capacity := Geometry.capacity_le_len zone
    rw [List.length_cons, Nat.succ_mul] at room
    have size : blockSectors = 8 := rfl
    have spec := blockWrite_spec .metadata block zone low (by omega)
    unfold Effect.Ensures at spec
    rw [writeBlocks]
    cases ran : blockWrite .metadata sector block world with
    | mk result middle =>
      rw [ran] at spec
      obtain ⟨landed, recorded, failed⟩ := spec
      cases result with
      | error error =>
        obtain ⟨cause, traces⟩ := failed error rfl
        refine ⟨landed.appended zone, recorded.later, recorded.dataWrites, ?_, (by rintro ⟨⟩), ?_, (by rintro ⟨⟩), ?_, ?_,
          ⟨_, recorded.metaWrites, ?_⟩, .failed ran (.refl _)⟩
        · intro index block found
          simp at found
        · intro other same
          cases same
          exact ⟨Nat.succ_pos _, cause.imp_right fun refused => ⟨rfl, refused⟩⟩
        · rintro (done | dry)
          · cases done
          · exact ⟨fun _ => traces.resolve_right dry, (by rintro ⟨⟩)⟩
        · intro plain
          rw [Nat.zero_mul, Nat.add_zero, (traces.resolve_right plain.1).writePointer]
        · intro write member
          obtain rfl := List.mem_singleton.mp member
          refine ⟨Nat.le_refl _, ?_, fun _ same => same⟩
          rw [List.length_cons, Nat.succ_mul]
          exact Nat.add_le_add_left (Nat.le_add_left _ _) _
      | ok value =>
        cases landed with
        | committed accepted same =>
          have appended := (World.Landed.committed accepted same).appended zone
          obtain ⟨ends, writable, online⟩ := world.commit_ends index extent sector block
          rw [← same.condition] at writable online
          have moves := @World.commit_pointer world index sector extent block capacity
          have written : ∀ byte < blockBytes, middle.media (sector * sectorBytes + byte) = block byte := by
            intro byte inside
            rw [same.media, World.commit_media, overlay_inside (by omega) (by omega), Nat.add_sub_cancel_left]
          have moved (plain : world.Exact) : middle.Exact :=
            ⟨fun spills => plain.1 (spills.later recorded.later), appended.fullAtLength.trans plain.2⟩
          have pointer (plain : world.Exact) : middle.writePointer index = sector + blockSectors := by
            rw [same.writePointer]
            exact world.commit_exact index extent sector block plain.2
          have following := @ih (sector + blockSectors) middle (by rw [appended.geometry, zone]) (by omega) (by omega)
          dsimp only at appended recorded ⊢
          generalize writeBlocks rest (sector + blockSectors) middle = last at following ⊢
          obtain ⟨⟨result, count⟩, after⟩ := last
          dsimp only at following ⊢
          have step : sector + (count + 1) * blockSectors = sector + blockSectors + count * blockSectors := by
            rw [Nat.succ_mul]
            omega
          refine ⟨appended.trans following.appended (Nat.le_add_right _ _), recorded.later.trans following.later,
            following.dataWrites.trans recorded.dataWrites, ?_, ?_, ?_, ?_, ?_, ?_, ?_, .succeeded ran following.counted⟩
          · intro position page found byte inside
            cases position with
            | zero =>
              obtain rfl : block = page := by simpa using found
              rw [Nat.zero_mul, Nat.add_zero, following.appended.media, written byte inside]
              simp only [blockSectors, sectorBytes, blockBytes] at inside ⊢
              omega
            | succ position =>
              have found' : (rest.take count)[position]? = some page := by simpa using found
              have held := following.held position page found' byte inside
              rw [show sector + (position + 1) * blockSectors = sector + blockSectors + position * blockSectors by
                rw [Nat.succ_mul]; omega]
              exact held
          · intro done
            rw [following.complete done, List.length_cons]
          · intro error stop
            obtain ⟨less, cause⟩ := following.stopped error stop
            refine ⟨by rw [List.length_cons]; omega, Or.inl ?_⟩
            rcases cause with reports | ⟨zero, code, refused⟩
            · exact reports.later recorded.later
            · have more : 1 * blockSectors ≤ rest.length * blockSectors := Nat.mul_le_mul_right _ (by omega)
              exact absurd (World.LogEnd.accepts (same.logEnd ends) writable online (by omega)) refused
          · exact fun _ => accepted
          · intro clean
            refine ⟨fun zero => absurd zero (Nat.succ_ne_zero _), fun _ => ?_⟩
            rw [step]
            obtain ⟨idle, busy⟩ := following.ended (clean.imp_right fun dry spills => dry (spills.later recorded.later))
            rcases Nat.eq_zero_or_pos count with rfl | positive
            · have final := idle rfl
              rw [Nat.zero_mul, Nat.add_zero, final.condition, final.writePointer, same.writePointer]
              exact ⟨final.logEnd (same.logEnd ends), writable, online, by omega⟩
            · obtain ⟨ends, writable, online, above⟩ := busy positive
              exact ⟨ends, writable, online, by omega⟩
          · intro plain
            rw [following.pointer (moved plain), pointer plain, ← accepted.2.2.2.1, step]
          · obtain ⟨fresh, writes, placed⟩ := following.writes
            refine ⟨fresh ++ [⟨.metadata, sector, world.writePointer, world.condition⟩], ?_, ?_⟩
            · rw [writes, recorded.metaWrites, List.append_assoc]
            · intro write member
              rw [List.length_cons, Nat.succ_mul]
              rcases List.mem_append.mp member with later | first
              · obtain ⟨above, below, meets⟩ := placed write later
                exact ⟨by omega, by omega, fun plain _ => meets (moved plain) (pointer plain)⟩
              · obtain rfl := List.mem_singleton.mp first
                exact ⟨Nat.le_refl _, by dsimp only; omega, fun _ same => same⟩

theorem Wrote.of_quiet {world start after : World} {index sector count : Nat} {extent : Extent}
    {blocks : List (Nat → UInt8)} {result : Except Errno Unit} (quiet : world.Quiet start)
    (wrote : Wrote start index extent blocks sector result count after) :
    Wrote world index extent blocks sector result count after := by
  refine ⟨(quiet.appended index extent sector).trans wrote.appended (Nat.le_refl _), quiet.later.trans wrote.later, ?_,
    wrote.held, wrote.complete, ?_, ?_, ?_, ?_, ?_, .quiet quiet wrote.counted⟩
  · rw [wrote.dataWrites, World.dataWrites, quiet.submitted, World.dataWrites]
  · intro error stop
    obtain ⟨less, cause⟩ := wrote.stopped error stop
    refine ⟨less, ?_⟩
    rcases cause with reports | ⟨zero, code, refused⟩
    · exact Or.inl (reports.later quiet.later)
    · exact Or.inr ⟨zero, code, fun accepted => refused ((quiet.accepts _ _ _).mpr accepted)⟩
  · exact fun positive => (quiet.accepts _ _ _).mp (wrote.begun positive)
  · intro clean
    obtain ⟨idle, busy⟩ := wrote.ended (clean.imp_right fun dry spills => dry (spills.later quiet.later))
    exact ⟨fun zero => quiet.toSameDevice.trans (idle zero), busy⟩
  · intro plain
    rw [wrote.pointer (quiet.exact plain), quiet.writePointer]
  · obtain ⟨fresh, writes, placed⟩ := wrote.writes
    refine ⟨fresh, by rw [writes, quiet.metaWrites], fun write member => ?_⟩
    obtain ⟨above, below, meets⟩ := placed write member
    exact ⟨above, below, fun plain same => meets (quiet.exact plain) (by rw [quiet.writePointer]; exact same)⟩

theorem sstImage_length (memtable : Memtable) (startSector seq : Nat) :
    (sstImage memtable startSector seq).length = 1 + (memtable.root.inorder.length + 255) / 256 := by
  rw [sstImage, List.length_cons, sstPayload_length, Nat.add_comm]

section Write
variable [Kernel] {memtable : Memtable}

/-- Either nothing is written, or the image goes to the zone block by block. -/
inductive SstWrite (memtable : Memtable) (index : Nat) (extent : Extent) (startSector seq : Nat) (world : World) :
    SstWritten → World → Prop
  | empty {after : World} (quiet : world.Quiet after) (nothing : memtable.root.inorder = []) :
      SstWrite memtable index extent startSector seq world ⟨.error .enodata, 0⟩ after
  | short {after : World} (quiet : world.Quiet after)
      (full : extent.start + extent.capacity < startSector + (sstImage memtable startSector seq).length * blockSectors) :
      SstWrite memtable index extent startSector seq world ⟨.error .enospc, 0⟩ after
  | starved {after : World} (quiet : world.Quiet after) (sick : ¬ world.oracle.Healthy) :
      SstWrite memtable index extent startSector seq world ⟨.error .enomem, 0⟩ after
  | wrote {after : World} {result : Except Errno Unit} {count : Nat} (filled : memtable.root.inorder ≠ [])
      (room : startSector + (sstImage memtable startSector seq).length * blockSectors ≤ extent.start + extent.capacity)
      (blocks : Wrote world index extent (sstImage memtable startSector seq) startSector result count after) :
      SstWrite memtable index extent startSector seq world
        ⟨result.map fun _ => sstSummary memtable startSector seq, count * blockSectors⟩ after

theorem sstWrite_spec {index : Nat} {extent : Extent} {startSector : Nat} {world : World} (seq : Nat)
    (regular : memtable.Regular) (zone : world.geometry.zones[index]? = some extent) (low : extent.start ≤ startSector) :
    SstWrite memtable index extent startSector seq world
      (sstWrite memtable startSector (extent.start + extent.capacity) seq world).1
      (sstWrite memtable startSector (extent.start + extent.capacity) seq world).2 := by
  have limited : memtable.root.inorder.length < 2 ^ 32 := by
    rw [← regular.counted]
    exact regular.limited.trans_lt Kernel.entryLimit_lt
  have count := sstSummary_nrEntries startSector seq limited
  have size := sstSummary_nrBlocks startSector seq limited
  have length := sstImage_length memtable startSector seq
  have positive : 0 < (sstImage memtable startSector seq).length * blockSectors :=
    Nat.mul_pos (by omega) (by decide)
  rw [sstWrite]
  split
  next past => exact .short (.refl _) (by omega)
  next _ =>
    have first := allocate_quiet world
    unfold Effect.Ensures at first
    cases ran : allocate world with
    | mk result allocated =>
      rw [ran] at first
      obtain ⟨quiet, rfl | ⟨rfl, sick⟩⟩ := first
      · dsimp only at quiet ⊢
        split
        next zero =>
          refine .empty quiet (List.length_eq_zero_iff.mp ?_)
          rw [← count]
          exact zero
        next some_ =>
          have filled : memtable.root.inorder ≠ [] := fun nothing => some_ (by
            change (sstSummary memtable startSector seq).nrEntries = 0
            rw [count, nothing, List.length_nil])
          have blocks : sstNrBlocks (sstScanEntries memtable.root.inorder ⟨startSector, 0, 0, 0, 0, seq, 0⟩).nrEntries =
              (sstImage memtable startSector seq).length := by
            rw [length, ← size]
            rfl
          split
          next large =>
            rw [blocks] at large
            exact .short quiet (by omega)
          next fits =>
            rw [blocks] at fits
            have second := allocate_quiet allocated
            unfold Effect.Ensures at second
            cases ran : allocate allocated with
            | mk result ready =>
              rw [ran] at second
              obtain ⟨quiet', rfl | ⟨rfl, sick⟩⟩ := second
              · have whole := quiet.trans quiet'
                have wrote := @writeBlocks_wrote index extent (sstImage memtable startSector seq) startSector ready
                  (by rw [whole.geometry, zone]) low (by omega)
                change SstWrite memtable index extent startSector seq world
                  (sstWriteBlocks memtable (sstSummary memtable startSector seq) ready).1
                  (sstWriteBlocks memtable (sstSummary memtable startSector seq) ready).2
                rw [sstWriteBlocks_eq]
                exact .wrote filled (by omega) (wrote.of_quiet whole)
              · exact .starved (quiet.trans quiet') (fun healthy => sick (healthy.later quiet.later))
      · exact .starved quiet sick

/-- A table whose image is on the device. -/
theorem stored_of_image {media : Nat → UInt8} {startSector seq : Nat} (sound : memtable.Sound) (filled : memtable.root.inorder ≠ [])
    (held : Holds media startSector (sstImage memtable startSector seq)) :
    Stored media (sstSummary memtable startSector seq) memtable := by
  refine ⟨sound, filled, ?_, ?_⟩
  · have uncounted : { sstSummary memtable startSector seq with payloadCrc := 0 } = sstSummary memtable startSector seq := by
      rw [← sstSummary_payloadCrc memtable startSector seq]
    rw [uncounted, sstSummary_startSector, sstSummary_seq]
  · rw [sstSummary_startSector, sstSummary_seq]
    exact held

/-- A complete run of block writes leaves a complete table. -/
theorem Wrote.stored {world after : World} {index startSector seq count : Nat} {extent : Extent}
    (sound : memtable.Sound) (filled : memtable.root.inorder ≠ [])
    (wrote : Wrote world index extent (sstImage memtable startSector seq) startSector (.ok ()) count after) :
    Stored after.media (sstSummary memtable startSector seq) memtable := by
  have held := wrote.held
  rw [wrote.complete rfl, List.take_length] at held
  exact stored_of_image sound filled held

theorem Stored.loaded {media : Nat → UInt8} {startSector seq : Nat}
    (stored : Stored media (sstSummary memtable startSector seq) memtable) :
    Stored media (sstLoaded memtable startSector seq) memtable :=
  ⟨stored.sound, stored.filled, stored.index, stored.image⟩

/-- Only the table's own sectors matter. -/
theorem Stored.frame {media other : Nat → UInt8} {sst : Sstable} (stored : Stored media sst memtable)
    (same : ∀ address, sst.startSector * sectorBytes ≤ address →
      address < (sst.startSector + sst.nrBlocks * blockSectors) * sectorBytes → other address = media address) :
    Stored other sst memtable := by
  refine ⟨stored.sound, stored.filled, stored.index, fun position block found byte inside => ?_⟩
  obtain ⟨bound, _⟩ := List.getElem?_eq_some_iff.mp found
  rw [stored.image_length] at bound
  rw [same, stored.image position block found byte inside]
  · simp only [blockSectors, sectorBytes]
    omega
  · simp only [blockSectors, sectorBytes, blockBytes] at inside ⊢
    omega

end Write

/-- Loading a sector that begins with a table's header. -/
theorem sstLoad_header [Kernel] {memtable : Memtable} {sector seq limit : Nat} {world : World} (sound : memtable.Sound)
    (filled : memtable.root.inorder ≠ []) (small : seq < 2 ^ 64) (below : sector < limit)
    (header : Holds world.media sector ((sstImage memtable sector seq).take 1)) :
    Effect.Ensures (sstLoad sector limit) world (fun result after => world.Quiet after ∧
      ((result = if limit < sector + (sstImage memtable sector seq).length * blockSectors then .error .einval
          else .ok (sstLoaded memtable sector seq)) ∨
        ∃ error, result = .error error ∧
          (world.oracle.Reports .metadata error ∨ error = .enomem ∧ ¬ world.oracle.Healthy))) := by
  have limited : memtable.root.inorder.length < 2 ^ 32 := by
    rw [← sound.counted]
    exact sound.limited.trans_lt Kernel.entryLimit_lt
  have starved {start after : World} {error : Errno} (before : world.Quiet start) (quiet : start.Quiet after)
      (status : (.error error : Except Errno Unit) = .ok () ∨
        (.error error : Except Errno Unit) = .error .enomem ∧ ¬ start.oracle.Healthy) :
      error = .enomem ∧ ¬ world.oracle.Healthy := by
    rcases status with same | ⟨same, sick⟩
    · cases same
    · cases same
      exact ⟨rfl, fun healthy => sick (healthy.later before.later)⟩
  rw [sstLoad, if_neg (by omega)]
  refine Effect.Ensures.bind (allocate_quiet world) ?_ ?_
  · rintro _ first ⟨quiet, _⟩
    refine Effect.Ensures.bind (allocate_quiet first) ?_ ?_
    · rintro _ second ⟨quiet', _⟩
      have before := quiet.trans quiet'
      refine Effect.Ensures.bind (blockRead_spec .metadata sector second) ?_ ?_
      · rintro block after ⟨quiet'', same | ⟨_, same, _⟩⟩
        · cases same
          have decoded : sstDecodeHeader (second.block sector) sector = .ok (sstLoaded memtable sector seq) := by
            apply sstDecodeHeader_image sound filled small
            intro byte inside
            rw [before.block]
            simpa [World.block] using header 0 _ (by rw [sstImage]; rfl) byte inside
          rw [decoded]
          have blocks : (sstLoaded memtable sector seq).nrBlocks = (sstImage memtable sector seq).length := by
            rw [sstImage_length, ← sstSummary_nrBlocks sector seq limited]
            rfl
          change Effect.Ensures (if _ then _ else _) after _
          rw [blocks]
          split
          next large => exact ⟨before.trans quiet'', Or.inl (by rw [if_pos (by omega)]; rfl)⟩
          next fits => exact ⟨before.trans quiet'', Or.inl (by rw [if_neg (by omega)]; rfl)⟩
        · cases same
      · rintro error after ⟨quiet'', same | ⟨_, same, reports⟩⟩
        · cases same
        · cases same
          exact ⟨before.trans quiet'', Or.inr ⟨error, rfl, Or.inl (reports.later before.later)⟩⟩
    · rintro error after ⟨quiet', status⟩
      exact ⟨quiet.trans quiet', Or.inr ⟨error, rfl, Or.inr (starved quiet quiet' status)⟩⟩
  · rintro error after ⟨quiet, status⟩
    exact ⟨quiet, Or.inr ⟨error, rfl, Or.inr (starved (.refl _) quiet status)⟩⟩

end ZnsBase
