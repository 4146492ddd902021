import ZnsBase.Proofs.Collection
import ZnsBase.Proofs.FlushFrame

/-! Flushes on a coherent engine. A generation that becomes an SSTable stays the
same layer of the mapping, one place further down. -/

namespace ZnsBase
open Library

namespace Lsm
variable [Kernel] {log : Extent} {limit : Nat} {lossless : Prop}

theorem Coherent.flushable {machine : Machine} (coherent : Coherent machine log limit lossless) : Flushable machine log :=
  ⟨coherent.attached, fun table member => (coherent.sound table member).toRegular, coherent.logStart⟩

/-- Mapped blocks lie below the log. -/
theorem Coherent.below {machine : Machine} (coherent : Coherent machine log limit lossless) (trusted : lossless)
    {logicalBlock sector byte : Nat} (held : mapping machine logicalBlock = some sector) (inside : byte < blockBytes) :
    sector * sectorBytes + byte < log.start * sectorBytes := by
  obtain ⟨index, slot, ⟨zone, found, same, fits⟩, _⟩ := coherent.located trusted held
  obtain ⟨bound, _⟩ := List.getElem?_eq_some_iff.mp found
  have apart := Geometry.apart (coherent.attached.extent found) coherent.attached.logExtent bound
  have capacity : zone.capacity ≤ zone.length := Geometry.capacity_le_len (coherent.attached.extent found)
  have bytes : blockBytes = blockSectors * sectorBytes := rfl
  simp only [Zone.extent] at apart
  rw [Nat.add_mul, Nat.one_mul] at fits
  have order : (sector + blockSectors) * sectorBytes ≤ log.start * sectorBytes := Nat.mul_le_mul_right _ (by omega)
  rw [Nat.add_mul, ← bytes] at order
  omega

/-- A flush that loses nothing, unless what it lost looked like an empty table. -/
structure Flushed (before after : Machine) (log : Extent) (limit : Nat) (lossless : Prop) : Prop where
  flushes : Flushes before after log
  coherent : Coherent after log limit lossless
  mapping : lossless → mapping after = mapping before

theorem Flushed.refl {machine : Machine} (coherent : Coherent machine log limit lossless) : Flushed machine machine log limit lossless :=
  ⟨.refl _ _, coherent, fun _ => rfl⟩

theorem Flushed.trans {first second third : Machine} (earlier : Flushed first second log limit lossless)
    (later : Flushed second third log limit lossless) : Flushed first third log limit lossless :=
  ⟨earlier.flushes.trans later.flushes, later.coherent,
    fun trusted => (later.mapping trusted).trans (earlier.mapping trusted)⟩

theorem Flushed.disk {before after : Machine} (coherent : Coherent before log limit lossless)
    (flushed : Flushed before after log limit lossless) (trusted : lossless) : disk after = disk before := by
  refine disk_congr (flushed.mapping trusted) fun logicalBlock sector held byte inside => ?_
  refine flushed.flushes.appended.media _ (Or.inl ((coherent.below trusted held inside).trans_le ?_))
  exact Nat.mul_le_mul_right _ coherent.logStart

theorem Flushed.ready {before after : Machine} (flushed : Flushed before after log limit lossless) (ready : Ready before) :
    Ready after := by
  refine ⟨fun index zone found => ?_, by rw [flushed.flushes.allocator]; exact ready.reserve⟩
  rw [flushed.flushes.allocator] at found
  obtain ⟨bound, _⟩ := List.getElem?_eq_some_iff.mp found
  obtain ⟨pointer, condition⟩ := flushed.flushes.appended.others index (by omega)
  rw [pointer, condition]
  exact ready.mirrors index zone found

/-- The cursor of the log moves and its unwritten part changes. -/
theorem Coherent.advance {machine : Machine} (coherent : Coherent machine log limit lossless) {world : World} {metaWp : Nat}
    (forward : machine.lsm.metaWp ≤ metaWp) (inside : metaWp ≤ log.start + log.capacity)
    (appended : machine.world.Appended world machine.lsm.allocator.zones.length log machine.lsm.metaWp) :
    Coherent ⟨{ machine.lsm with metaWp }, world⟩ log limit lossless ∧
      (lossless → mapping ⟨{ machine.lsm with metaWp }, world⟩ = mapping machine) := by
  have unwritten : ∀ address, log.start * sectorBytes ≤ address → address < machine.lsm.metaWp * sectorBytes →
      world.media address = machine.world.media address :=
    fun address _ below => appended.media address (Or.inl below)
  obtain ⟨moved, same⟩ := coherent.onWorld appended.geometry unwritten
  refine ⟨{ moved with
    attached := moved.attached.onEngine rfl rfl rfl
    logStart := coherent.logStart.trans forward
    logEnd := inside
    stored := fun trusted sst member => ?_
    indexed := coherent.indexed.congr rfl rfl rfl rfl rfl }, same⟩
  obtain ⟨stored, low, high⟩ := moved.stored trusted sst member
  exact ⟨stored, low, high.trans forward⟩

omit [Kernel] in
private theorem advance_eq (lsm : Lsm) (consumed : Nat) :
    (if consumed ≠ 0 then lsm.advanceMetaWp lsm.metaWp consumed else lsm) = { lsm with metaWp := lsm.metaWp + consumed } := by
  by_cases none_ : consumed = 0
  · subst none_
    rfl
  · rw [if_pos none_, advanceMetaWp, if_pos (by omega)]

/-- A table leaves the flushing slot. -/
private theorem Coherent.discard {machine : Machine} (coherent : Coherent machine log limit lossless) {victim : Memtable}
    (slot : machine.lsm.flushing = some victim) (empty : lossless → victim.root.inorder = []) :
    Coherent ⟨machine.lsm.releaseFlushVictim, machine.world⟩ log limit lossless ∧
      (lossless → mapping ⟨machine.lsm.releaseFlushVictim, machine.world⟩ = mapping machine) := by
  have mapped (trusted : lossless) : mapping ⟨machine.lsm.releaseFlushVictim, machine.world⟩ = mapping machine := by
    have empty := empty trusted
    funext logicalBlock
    rw [mapping_eq, mapping_eq]
    simp [releaseFlushVictim, olderLayers, slot, Memtable.pairs, empty]
  have older {table : Memtable} (member : table ∈ machine.lsm.releaseFlushVictim.residents) :
      table ∈ machine.lsm.residents := by
    simp only [residents, releaseFlushVictim, Option.toList_none, List.append_nil] at member
    exact List.mem_append_left _ member
  refine ⟨{ coherent with
    attached := coherent.attached.onEngine rfl rfl rfl
    sound := fun table member => coherent.sound table (older member)
    indexed := coherent.indexed.congr rfl rfl rfl rfl rfl
    bounded := fun table member => coherent.bounded table (older member)
    agrees := fun trusted logicalBlock => ?_ }, mapped⟩
  rw [mapped trusted]
  exact coherent.agrees trusted logicalBlock

/-- A stored table takes over from the victim. -/
private theorem Coherent.publish {machine : Machine} (coherent : Coherent machine log limit lossless) {victim : Memtable} {sst : Sstable}
    (slot : machine.lsm.flushing = some victim) (stored : Stored machine.world.media sst victim)
    (low : log.start ≤ sst.startSector) (high : sst.startSector + sst.nrBlocks * blockSectors ≤ machine.lsm.metaWp) :
    Coherent ⟨(machine.lsm.publishSstable sst).releaseFlushVictim, machine.world⟩ log limit lossless ∧
      mapping ⟨(machine.lsm.publishSstable sst).releaseFlushVictim, machine.world⟩ = mapping machine := by
  have mapped : mapping ⟨(machine.lsm.publishSstable sst).releaseFlushVictim, machine.world⟩ = mapping machine := by
    funext logicalBlock
    rw [mapping_eq, mapping_eq]
    simp [releaseFlushVictim, publishSstable, olderLayers, slot, stored.entries_eq]
  have older {table : Memtable} (member : table ∈ (machine.lsm.publishSstable sst).releaseFlushVictim.residents) :
      table ∈ machine.lsm.residents := by
    simp only [residents, releaseFlushVictim, publishSstable, Option.toList_none, List.append_nil] at member
    exact List.mem_append_left _ member
  refine ⟨{ coherent with
    attached := coherent.attached.onEngine rfl rfl rfl
    sound := fun table member => coherent.sound table (older member)
    stored := fun trusted other member => ?_
    indexed := coherent.indexed.congr rfl rfl rfl rfl rfl
    bounded := fun table member => coherent.bounded table (older member)
    agrees := fun trusted logicalBlock => ?_ }, mapped⟩
  · rcases List.mem_cons.mp member with rfl | old
    · refine ⟨⟨victim, stored, ?_⟩, low, high⟩
      rw [← coherent.logicalSectors]
      exact coherent.bounded victim (by simp [residents, slot])
    · exact coherent.stored trusted other old
  · rw [mapped]
    exact coherent.agrees trusted logicalBlock

/-- One round of the flush worker. -/
theorem flushVictim_flushed {machine : Machine} {victim : Memtable} (coherent : Coherent machine log limit lossless)
    (slot : machine.lsm.flushing = some victim) (distinct : lossless → machine.world.oracle.Distinct) :
    Flushed machine (flushVictim victim machine).2 log limit lossless := by
  have member : victim ∈ machine.lsm.residents := by simp [residents, slot]
  have sound := coherent.sound victim member
  suffices kept : Coherent (flushVictim victim machine).2 log limit lossless ∧
      (lossless → mapping (flushVictim victim machine).2 = mapping machine) from
    ⟨flushVictim_flushes coherent.flushable slot, kept.1, kept.2⟩
  have write := sstWrite_attached coherent.flushable sound.toRegular machine.lsm.nextSstSeq
  unfold flushVictim
  dsimp only
  generalize sstWrite victim machine.lsm.metaWp machine.lsm.metaEnd machine.lsm.nextSstSeq machine.world = written at write
  obtain ⟨written, world⟩ := written
  dsimp only at write ⊢
  rw [advance_eq]
  have logEnd := coherent.logEnd
  cases write with
  | empty quiet nothing =>
    obtain ⟨moved, same⟩ := coherent.advance (Nat.le_refl _) logEnd (quiet.appended _ _ _)
    obtain ⟨released, same'⟩ := moved.discard slot (fun _ => nothing)
    exact ⟨released, fun trusted => (same' trusted).trans (same trusted)⟩
  | short quiet full =>
    obtain ⟨moved, same⟩ := coherent.advance (Nat.le_refl _) logEnd (quiet.appended _ _ _)
    exact ⟨moved, same⟩
  | starved quiet sick =>
    obtain ⟨moved, same⟩ := coherent.advance (Nat.le_refl _) logEnd (quiet.appended _ _ _)
    exact ⟨moved, same⟩
  | @wrote _ result count filled room blocks =>
    cases result with
    | ok value =>
      have full := blocks.complete rfl
      have stored := blocks.stored sound filled
      obtain ⟨moved, same⟩ := coherent.advance (Nat.le_add_right machine.lsm.metaWp (count * blockSectors))
        (by rw [full]; exact room) blocks.appended
      have bounds : (sstSummary victim machine.lsm.metaWp machine.lsm.nextSstSeq).startSector = machine.lsm.metaWp :=
        sstSummary_startSector ..
      have lengths := stored.image_length
      rw [bounds, sstSummary_seq] at lengths
      obtain ⟨published, same'⟩ := moved.publish slot stored (by rw [bounds]; exact coherent.logStart)
        (by rw [bounds, ← lengths, full])
      exact ⟨published, fun trusted => same'.trans (same trusted)⟩
    | error error =>
      obtain ⟨less, cause⟩ := blocks.stopped error rfl
      have short : count * blockSectors ≤ (sstImage victim machine.lsm.metaWp machine.lsm.nextSstSeq).length * blockSectors :=
        Nat.mul_le_mul_right _ less.le
      obtain ⟨moved, same⟩ := coherent.advance (Nat.le_add_right machine.lsm.metaWp (count * blockSectors))
        (by omega) blocks.appended
      cases error with
      -- The failed write is taken for an empty table.
      | enodata =>
        have other : ¬ lossless := by
          intro trusted
          rcases cause with reports | ⟨_, code, _⟩
          · exact distinct trusted reports
          · cases code
        obtain ⟨released, _⟩ := moved.discard slot (fun trusted => absurd trusted other)
        exact ⟨released, fun trusted => absurd trusted other⟩
      | _ => exact ⟨moved, same⟩

/-- Claiming a victim moves a table from one slot to another. -/
theorem claimFlushVictim_flushed {machine : Machine} (coherent : Coherent machine log limit lossless) :
    Flushed machine { machine with lsm := machine.lsm.claimFlushVictim } log limit lossless := by
  have residents := claimFlushVictim_residents machine.lsm
  have flushes := claimFlushVictim_flushes machine log
  have sstables : machine.lsm.claimFlushVictim.sstables = machine.lsm.sstables := by
    unfold claimFlushVictim
    split <;> rfl
  have metaWp : machine.lsm.claimFlushVictim.metaWp = machine.lsm.metaWp := by
    unfold claimFlushVictim
    split <;> rfl
  have mapped : mapping { machine with lsm := machine.lsm.claimFlushVictim } = mapping machine := by
    funext logicalBlock
    simp only [mapping, layers, residents, sstables]
  refine ⟨flushes, ⟨?_, ?_, ?_, coherent.narrow, coherent.whole, ?_, ?_, ?_, ?_, ?_, ?_, ?_, ?_⟩, fun _ => mapped⟩
  · exact coherent.attached.onEngine flushes.allocator flushes.metaStart flushes.metaEnd
  · exact (congrArg Super.logicalSectors flushes.super).trans coherent.logicalSectors
  · rw [flushes.memtableThreshold]
    exact coherent.threshold
  · rw [metaWp]
    exact coherent.logStart
  · rw [metaWp]
    exact coherent.logEnd
  · rw [residents]
    exact coherent.sound
  · rw [sstables, metaWp]
    exact coherent.stored
  · exact coherent.indexed.congr (congrArg Allocator.zones flushes.allocator) flushes.gcZones flushes.latest flushes.validBlocks flushes.super
  · rw [residents, logicalBlocks, flushes.super]
    exact coherent.bounded
  · intro trusted logicalBlock
    rw [mapped]
    exact (congrFun flushes.latest logicalBlock).trans (coherent.agrees trusted logicalBlock)
  · rw [flushes.allocator]
    exact coherent.aligned

theorem flushLoop_flushed (rounds : Nat) {machine : Machine} (coherent : Coherent machine log limit lossless)
    (distinct : lossless → machine.world.oracle.Distinct) : Flushed machine (flushLoop rounds machine).2 log limit lossless := by
  induction rounds generalizing machine with
  | zero => exact .refl coherent
  | succ rounds ih =>
    have claims := claimFlushVictim_flushed coherent
    unfold flushLoop
    dsimp only
    cases slot : machine.lsm.claimFlushVictim.flushing with
    | none => exact claims
    | some victim =>
      dsimp only
      have flushed := claims.trans (flushVictim_flushed claims.coherent slot distinct)
      split
      next ran =>
        rw [ran] at flushed
        exact flushed
      next ran =>
        rw [ran] at flushed
        exact flushed.trans (ih flushed.coherent (fun trusted => (distinct trusted).later flushed.flushes.later))

/-- `zns_lsm_flush_worker` keeps every mapping. -/
theorem flushWorker_flushed {machine : Machine} (coherent : Coherent machine log limit lossless)
    (distinct : lossless → machine.world.oracle.Distinct) : Flushed machine (flushWorker machine) log limit lossless := by
  suffices kept : Coherent (flushWorker machine) log limit lossless ∧
      (lossless → mapping (flushWorker machine) = mapping machine) from
    ⟨flushWorker_flushes coherent.flushable, kept.1, kept.2⟩
  unfold flushWorker
  split
  · have started : Alike machine { machine with lsm := { machine.lsm with flushPending := false } } := ⟨rfl, .refl _⟩
    obtain ⟨moved, same⟩ := coherent.alike started
    have flushed := flushLoop_flushed 3 moved distinct
    dsimp only
    generalize flushLoop 3 { machine with lsm := { machine.lsm with flushPending := false } } = done at flushed
    obtain ⟨failed, after⟩ := done
    have ended : Alike after ⟨if failed then { after.lsm with flushInFlight := false }
        else maybeQueueFlush { after.lsm with flushInFlight := false }, after.world⟩ := by
      unfold maybeQueueFlush
      cases failed with
      | true => exact ⟨rfl, .refl _⟩
      | false =>
        simp only [Bool.false_eq_true, if_false]
        split <;> exact ⟨rfl, .refl _⟩
    obtain ⟨final, same'⟩ := flushed.coherent.alike ended
    exact ⟨final, fun trusted => (same' trusted).trans ((flushed.mapping trusted).trans (same trusted))⟩
  · exact ⟨coherent, fun _ => rfl⟩

end Lsm
end ZnsBase
