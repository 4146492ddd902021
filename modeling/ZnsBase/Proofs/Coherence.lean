import ZnsBase.Proofs.Discipline
import ZnsBase.Proofs.GcIndex

/-! The state behind the read path: one layered mapping from logical blocks to
written sectors, which the GC indexes repeat. -/

namespace ZnsBase
open Library

namespace Lsm

/-- The layers a lookup goes through, newest first. -/
def layers (machine : Machine) : List (List (Nat × Nat)) :=
  machine.lsm.residents.map Memtable.pairs ++ machine.lsm.sstables.map fun sst => sst.entries machine.world.media

/-- Where a lookup finds a logical block. -/
def mapping (machine : Machine) (logicalBlock : Nat) : Option Nat := Layers.resolve (layers machine) logicalBlock

/-- The bytes of the target as its mappings give them. -/
def disk (machine : Machine) (address : Nat) : UInt8 :=
  match mapping machine (address / blockBytes) with
  | none => 0
  | some sector => machine.world.block sector (address % blockBytes)

/-- Everything older than the active pair of tables. -/
def olderLayers (machine : Machine) : List (List (Nat × Nat)) :=
  machine.lsm.flushing.toList.map Memtable.pairs ++ machine.lsm.sstables.map fun sst => sst.entries machine.world.media

theorem mapping_eq (machine : Machine) (logicalBlock : Nat) : mapping machine logicalBlock =
    (Layers.resolve machine.lsm.tables.layers logicalBlock).or (Layers.resolve (olderLayers machine) logicalBlock) := by
  simp only [mapping, layers, residents, olderLayers, Generations.layers, List.map_append, List.append_assoc,
    Layers.resolve_append]

/-- The engine as every step finds it and leaves it. The indexes are right in any
case; lookups repeat them as long as every table found was written by an engine
and none was thrown away unwritten. -/
structure Coherent [Kernel] (machine : Machine) (log : Extent) (limit : Nat) (lossless : Prop) : Prop where
  attached : Attached machine log
  logicalSectors : machine.lsm.super.logicalSectors = limit
  threshold : machine.lsm.memtableThreshold ≠ 0
  narrow : limit < 2 ^ 64
  whole : limit % blockSectors = 0
  logStart : log.start ≤ machine.lsm.metaWp
  logEnd : machine.lsm.metaWp ≤ log.start + log.capacity
  sound : ∀ table ∈ machine.lsm.residents, table.Sound
  stored : lossless → ∀ sst ∈ machine.lsm.sstables,
    (∃ memtable, Stored machine.world.media sst memtable ∧ memtable.Within (limit / blockSectors)) ∧
    log.start ≤ sst.startSector ∧ sst.startSector + sst.nrBlocks * blockSectors ≤ machine.lsm.metaWp
  indexed : Indexed machine.lsm
  bounded : ∀ table ∈ machine.lsm.residents, ∀ entry ∈ table.root.inorder, entry.logicalBlock < machine.lsm.logicalBlocks
  agrees : lossless → ∀ logicalBlock,
    machine.lsm.latest logicalBlock = (mapping machine logicalBlock).map encodePhysicalSector
  aligned : ∀ zone ∈ machine.lsm.allocator.zones, zone.CanAppend blockSectors →
    (zone.writePointer - zone.startSector) % blockSectors = 0

/-- Only counters and flags of the engine changed, and the device not at all. -/
structure Alike (before after : Machine) : Prop where
  engine : after.lsm = { before.lsm with
    gcRuns := after.lsm.gcRuns
    gcMoved := after.lsm.gcMoved
    gcResets := after.lsm.gcResets
    flushInFlight := after.lsm.flushInFlight
    flushPending := after.lsm.flushPending
    dataWriteAttempts := after.lsm.dataWriteAttempts
    gcMoveWriteAttempts := after.lsm.gcMoveWriteAttempts
    gcZoneResetAttempts := after.lsm.gcZoneResetAttempts
    writesStopped := after.lsm.writesStopped }
  quiet : before.world.Quiet after.world

theorem Alike.refl (machine : Machine) : Alike machine machine := ⟨rfl, .refl _⟩

theorem Alike.trans {first second third : Machine} (earlier : Alike first second) (later : Alike second third) :
    Alike first third := by
  refine ⟨?_, earlier.quiet.trans later.quiet⟩
  rw [later.engine, earlier.engine]

theorem Indexed.congr {before after : Lsm} (indexed : Indexed before)
    (allocator : after.allocator.zones = before.allocator.zones) (gcZones : after.gcZones = before.gcZones)
    (latest : after.latest = before.latest) (validBlocks : after.validBlocks = before.validBlocks)
    (super : after.super = before.super) : Indexed after := by
  have entries (index slot : Nat) : after.gcEntry index slot = before.gcEntry index slot := by simp only [gcEntry, gcZones]
  have slots (index slot sector : Nat) : after.SlotAt index slot sector ↔ before.SlotAt index slot sector := by
    simp only [SlotAt, allocator]
  refine ⟨⟨?_, ?_, ?_, ?_⟩, ?_, ?_, ?_, ?_, ?_⟩
  all_goals simp only [allocator, gcZones, latest, validBlocks, logicalBlocks, super, entries, slots, Written]
  exacts [indexed.zones, indexed.sizes, indexed.counted, indexed.written, indexed.located, indexed.encoded,
    indexed.inRange, indexed.total, indexed.summed]

section Coherent
variable [Kernel] {machine : Machine} {log : Extent} {limit : Nat} {lossless : Prop} (coherent : Coherent machine log limit lossless)
include coherent

theorem Coherent.apart : machine.lsm.SlotsApart := slotsApart coherent.attached

/-- The device may change wherever the log has not been written. -/
theorem Coherent.onWorld {world : World} (geometry : world.geometry = machine.world.geometry)
    (media : ∀ address, log.start * sectorBytes ≤ address → address < machine.lsm.metaWp * sectorBytes →
      world.media address = machine.world.media address) :
    Coherent { machine with world } log limit lossless ∧
      (lossless → mapping { machine with world } = mapping machine) := by
  have stored (trusted : lossless) : ∀ sst ∈ machine.lsm.sstables, ∀ memtable, Stored machine.world.media sst memtable →
      Stored world.media sst memtable := by
    intro sst member memtable stored
    obtain ⟨_, low, high⟩ := coherent.stored trusted sst member
    refine stored.frame fun address above below => media address ?_ ?_
    · exact (Nat.mul_le_mul_right _ low).trans above
    · exact below.trans_le (Nat.mul_le_mul_right _ high)
  have same (trusted : lossless) : layers { machine with world } = layers machine := by
    unfold layers
    congr 1
    apply List.map_congr_left
    intro sst member
    obtain ⟨⟨memtable, held, _⟩, _⟩ := coherent.stored trusted sst member
    exact (stored trusted sst member memtable held).entries_eq.trans held.entries_eq.symm
  have mapped (trusted : lossless) : mapping { machine with world } = mapping machine := by
    funext logicalBlock
    unfold mapping
    rw [same trusted]
  refine ⟨{ coherent with
    attached := coherent.attached.onDevice geometry
    stored := fun trusted sst member => ?_
    agrees := fun trusted logicalBlock => ?_ }, mapped⟩
  · obtain ⟨⟨memtable, held, within⟩, bounds⟩ := coherent.stored trusted sst member
    exact ⟨⟨memtable, stored trusted sst member memtable held, within⟩, bounds⟩
  · rw [mapped trusted]
    exact coherent.agrees trusted logicalBlock

/-- A mapped block occupies a slot. -/
theorem Coherent.located (trusted : lossless) {logicalBlock sector : Nat} (held : mapping machine logicalBlock = some sector) :
    ∃ index slot, machine.lsm.SlotAt index slot sector ∧
      machine.lsm.gcEntry index slot = encodeLogicalBlock logicalBlock := by
  refine (coherent.indexed.located logicalBlock sector).mp ?_
  rw [coherent.agrees trusted, held]
  rfl

theorem Coherent.occupied (trusted : lossless) {index slot logicalBlock : Nat}
    (held : machine.lsm.gcEntry index slot = encodeLogicalBlock logicalBlock) {sector : Nat}
    (place : machine.lsm.SlotAt index slot sector) : mapping machine logicalBlock = some sector := by
  have latest := (coherent.indexed.located logicalBlock sector).mpr ⟨index, slot, place, held⟩
  rw [coherent.agrees trusted, Option.map_eq_some_iff] at latest
  obtain ⟨mapped, found, same⟩ := latest
  rw [found, Nat.succ.inj same]

theorem Coherent.alike {after : Machine} (alike : Alike machine after) :
    Coherent after log limit lossless ∧ (lossless → mapping after = mapping machine) := by
  obtain ⟨lsm, world⟩ := after
  obtain ⟨engine, quiet⟩ := alike
  dsimp only at engine quiet
  obtain ⟨moved, same⟩ := coherent.onWorld quiet.geometry (fun address _ _ => by rw [quiet.media])
  have allocator : lsm.allocator = machine.lsm.allocator := by rw [engine]
  have residents : lsm.residents = machine.lsm.residents := by rw [engine]; rfl
  have sstables : lsm.sstables = machine.lsm.sstables := by rw [engine]
  have metaWp : lsm.metaWp = machine.lsm.metaWp := by rw [engine]
  have mapped : mapping ⟨lsm, world⟩ = mapping { machine with world } := by
    funext logicalBlock
    simp only [mapping, layers, residents, sstables]
  refine ⟨⟨moved.attached.onEngine allocator (by rw [engine]) (by rw [engine]), ?_, ?_, coherent.narrow, coherent.whole,
    ?_, ?_, ?_, ?_, ?_, ?_, ?_, ?_⟩, fun trusted => mapped.trans (same trusted)⟩
  · rw [engine]
    exact coherent.logicalSectors
  · rw [engine]
    exact coherent.threshold
  · rw [metaWp]
    exact coherent.logStart
  · rw [metaWp]
    exact coherent.logEnd
  · rw [residents]
    exact coherent.sound
  · rw [sstables, metaWp]
    exact moved.stored
  · refine coherent.indexed.congr ?_ ?_ ?_ ?_ ?_
    all_goals rw [engine]
  · rw [residents, logicalBlocks, engine]
    exact coherent.bounded
  · intro trusted logicalBlock
    rw [mapped, ← moved.agrees trusted, engine]
  · rw [allocator]
    exact coherent.aligned

end Coherent

/-- The bytes depend on the mappings and on the blocks they lead to. -/
theorem disk_congr {before after : Machine} (same : mapping after = mapping before)
    (blocks : ∀ logicalBlock sector, mapping before logicalBlock = some sector →
      ∀ byte < blockBytes, after.world.block sector byte = before.world.block sector byte) : disk after = disk before := by
  funext address
  unfold disk
  rw [same]
  cases held : mapping before (address / blockBytes) with
  | none => rfl
  | some sector => exact blocks _ sector held _ (Nat.mod_lt _ (by decide))

theorem disk_alike [Kernel] {before after : Machine} {log : Extent} {limit : Nat} {lossless : Prop} (coherent : Coherent before log limit lossless)
    (alike : Alike before after) (trusted : lossless) : disk after = disk before :=
  disk_congr ((coherent.alike alike).2 trusted) fun _ sector _ byte _ => congrFun (alike.quiet.block sector) byte

end Lsm
end ZnsBase
