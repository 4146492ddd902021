import ZnsBase.LsmWrite

/-! Start and end of an engine session: the metadata zone is opened or
formatted, the SSTables of earlier sessions are adopted, the GC indexes are
rebuilt from them, and a detach flushes what is still resident. -/

namespace ZnsBase
open Library

namespace Lsm

/-- What `zns_lsm_open_metadata` fills in. -/
structure Metadata where
  metaStart : Nat
  metaWp : Nat
  metaEnd : Nat
  super : Super

/-- A full zone may report its write pointer past its capacity; it is clamped,
since the SSTables in it are still readable. -/
def metadataWritePointer (zone : Zone) : Except Errno Nat :=
  if zone.condition = .full then .ok zone.endSector
  else if zone.writePointer > zone.endSector then .error .einval
  else .ok zone.writePointer

/-- An empty metadata zone is formatted. Otherwise its superblock has to
describe the device in front of us. -/
def openMetadata (zones : List Zone) (logicalSectors uuid : Nat) : Effect World Errno Metadata := do
  match zones.getLast? with
  | none => Effect.fail .einval
  | some zone =>
    if zones.length < 2 then Effect.fail .einval
    else if zone.capacity < blockSectors then Effect.fail .einval
    else if zone.writePointer < zone.startSector then Effect.fail .einval
    else do
      let metaWp ← Effect.ofExcept (metadataWritePointer zone)
      let device : Super := {
        uuid, logicalSectors
        zoneSizeSectors := zone.length
        nrZones := zones.length
        metaZoneId := zone.id
        sectorsPerBlock := blockSectors }
      if metaWp ≠ zone.startSector then do
        let onDisk ← superRead zone.startSector
        Effect.ofExcept (superMatches onDisk device)
        pure ⟨zone.startSector, metaWp, zone.endSector, onDisk⟩
      else do
        superWrite zone.startSector device
        pure ⟨zone.startSector, zone.startSector + blockSectors, zone.endSector, device⟩

/-- Adopt one SSTable found in the log as the newest so far. -/
def adoptSstable (lsm : Lsm) (sst : Sstable) : Lsm :=
  { lsm with
    sstables := sst :: lsm.sstables
    nrSstables := lsm.nrSstables + 1
    nrSstEntries := lsm.nrSstEntries + sst.nrEntries
    nextSstSeq := if sst.seq ≥ lsm.nextSstSeq then (sst.seq + 1) % 2 ^ 64 else lsm.nextSstSeq }

/-- The walk of `zns_lsm_recover_sstables`. It ends at the first sector that
does not begin a complete SSTable; an unreadable sector is an error. Every
adopted table moves the cursor, so as many rounds as sectors are enough. -/
def recoverFrom : Nat → Nat → Effect Machine Errno Unit
  | 0, _ => pure ()
  | rounds + 1, cursor => do
    let machine ← Effect.get
    if cursor < machine.lsm.metaWp then do
      match ← Effect.attempt (onWorld (sstLoad cursor machine.lsm.metaWp)) with
      | .error .einval => pure ()
      | .error error => Effect.fail error
      | .ok sst => do
        modifyLsm fun lsm => lsm.adoptSstable sst
        recoverFrom rounds (cursor + sst.nrBlocks * blockSectors)
    else pure ()

def recoverSstables : Effect Machine Errno Unit := do
  let machine ← Effect.get
  recoverFrom (machine.lsm.metaWp + 1) (machine.lsm.metaStart + blockSectors)

/-- Called newest first: an older copy may point into an already reset zone, so
a block that is already located is skipped before anything is checked. -/
def gcRestoreEntry (logicalBlock physicalSector : Nat) : Effect Machine Errno Unit := do
  let machine ← Effect.get
  if logicalBlock ≥ machine.lsm.logicalBlocks then Effect.fail .einval
  else if (machine.lsm.latest logicalBlock).isSome then pure ()
  else match machine.lsm.physicalToGcSlot physicalSector with
    | .error _ => Effect.fail .einval
    | .ok new =>
      if machine.lsm.gcEntry new.1 new.2 ≠ 0 then Effect.fail .einval
      else do
        onWorld allocate
        modifyLsm fun lsm => lsm.gcCommit logicalBlock physicalSector none new

def gcRestoreEntries (block : Nat → UInt8) : List Nat → Effect Machine Errno Unit
  | [] => pure ()
  | index :: indices => do
    gcRestoreEntry (sstEntryKey block index) (sstEntrySector block index)
    gcRestoreEntries block indices

def gcRebuildPages (sst : Sstable) : List Nat → BitVec 32 → Effect Machine Errno (BitVec 32)
  | [], crc => pure crc
  | page :: pages, crc => do
    let block ← onWorld (blockRead .metadata (sst.startSector + (page + 1) * blockSectors))
    gcRestoreEntries block (List.range (sstEntriesInBlock sst.nrEntries page))
    gcRebuildPages sst pages (crc32Le crc block 0 blockBytes)

def gcRebuildTables : List Sstable → Effect Machine Errno Unit
  | [] => pure ()
  | sst :: rest => do
    let crc ← gcRebuildPages sst (List.range (sst.nrBlocks - 1)) 0
    if crc.toNat ≠ sst.payloadCrc then Effect.fail .einval
    else gcRebuildTables rest

def gcRebuild : Effect Machine Errno Unit := do
  onWorld allocate
  let machine ← Effect.get
  gcRebuildTables machine.lsm.sstables

/-- The reserve is the last data zone that is genuinely empty. -/
def chooseReserve (allocator : Allocator) : Nat → Except Errno Unit × Allocator
  | 0 => (.error .enospc, allocator)
  | id + 1 =>
    match allocator.setReserve id with
    | (.ok (), reserved) => (.ok (), reserved)
    | (.error _, allocator) => chooseReserve allocator id

def allocateTimes : Nat → Effect World Errno Unit
  | 0 => pure ()
  | count + 1 => do
    allocate
    allocateTimes count

/-- The threshold an engine uses: the default is raised to keep one mapping per
logical block resident, explicit values are kept. -/
def chooseThreshold (memtableThreshold logicalSectors : Nat) : Nat :=
  if memtableThreshold = 16384 then max 16384 (min (logicalSectors / blockSectors + 1) (2 ^ 20))
  else memtableThreshold

/-- The engine before recovery, all tables and indexes empty. -/
def unrecovered (allocator : Allocator) (memtableThreshold : Nat) (metadata : Metadata) : Lsm where
  allocator := allocator
  gcZones := gcMapInit allocator.zones
  latest := fun _ => none
  validBlocks := 0
  gcRuns := 0
  gcMoved := 0
  gcResets := 0
  gcIndexFailures := 0
  tables := ⟨Memtable.init, none⟩
  flushing := none
  flushInFlight := false
  flushPending := false
  memtableThreshold := memtableThreshold
  dataWriteAttempts := 0
  gcMoveWriteAttempts := 0
  gcZoneResetAttempts := 0
  writesStopped := false
  sstables := []
  nrSstables := 0
  nrSstEntries := 0
  nextSstSeq := 1
  metaStart := metadata.metaStart
  metaWp := metadata.metaWp
  metaEnd := metadata.metaEnd
  super := metadata.super

/-- The part of `zns_engine_init` that works on the engine under construction;
the last allocations are the active table and the two workqueues. -/
def startup : Effect Machine Errno Unit := do
  recoverSstables
  gcRebuild
  onAllocator fun allocator => chooseReserve allocator allocator.zones.length
  onWorld (allocateTimes 3)

/-- `zns_engine_init` up to the recovery of earlier tables: the zones, the
metadata zone, the allocator and the empty GC maps. The uuid is the kernel's
random number. -/
def openEngine (params : Params) (uuid logicalSectors physicalSectors sectorsPerBlock : Nat) :
    Effect World Errno Lsm := do
  if params.memtableThreshold = 0 ∨ sectorsPerBlock ≠ blockSectors ∨
      logicalSectors % sectorsPerBlock ≠ 0 ∨ physicalSectors % sectorsPerBlock ≠ 0 then
    Effect.fail .einval
  else do
    allocate
    let zones ← zoneTableInit
    let metadata ← openMetadata zones logicalSectors uuid
    let allocator ← Effect.ofExcept (Allocator.initZoned zones.dropLast sectorsPerBlock)
    allocate
    allocateTimes (allocator.zones.length + 1)
    pure (unrecovered allocator (chooseThreshold params.memtableThreshold logicalSectors) metadata)

/-- Start the engine that was opened; on an error it is freed again. -/
def startEngine (lsm : Lsm) : Effect World Errno Lsm := fun world =>
  match startup ⟨lsm, world⟩ with
  | (.ok (), machine) => (.ok machine.lsm, machine.world)
  | (.error error, machine) => (.error error, machine.world)

/-- `zns_engine_init`. -/
def engineInit (params : Params) (uuid logicalSectors physicalSectors sectorsPerBlock : Nat) :
    Effect World Errno Lsm := do
  let lsm ← openEngine params uuid logicalSectors physicalSectors sectorsPerBlock
  startEngine lsm

def usableSectors (capacity : Nat) : Nat := capacity - capacity % blockSectors

/-- The sums of `zns_engine_capacity` over the data zones: one reserve zone as
large as the largest is held back. -/
def capacityOf (dataZones : List Zone) : Nat :=
  (dataZones.map fun zone => usableSectors zone.capacity).sum -
    (dataZones.map fun zone => usableSectors zone.capacity).foldl max 0

/-- `zns_engine_capacity`; any failure reports no capacity. -/
def engineCapacity : Effect World Errno Nat := do
  match ← Effect.attempt zoneTableInit with
  | .error _ => pure 0
  | .ok zones => if zones.length ≤ 2 then pure 0 else pure (capacityOf zones.dropLast)

/-- `zns_base_ctr` for a target of `len` sectors. -/
def baseCtr (params : Params) (uuid len : Nat) : Effect World Errno Lsm := do
  let capacity ← engineCapacity
  if capacity = 0 ∨ len > capacity then Effect.fail .einval
  else engineInit params uuid len len blockSectors

/-- The loop of `zns_lsm_flush_all_sync` over the generations left, oldest
first. It stops at the first failure instead of skipping ahead; the status is
what it logs. -/
def flushGenerations : List (Option Memtable) → Machine → Except Errno Unit × Machine
  | [], machine => (.ok (), machine)
  | none :: rest, machine => flushGenerations rest machine
  | some table :: rest, machine =>
    let (written, world) := sstWrite table machine.lsm.metaWp machine.lsm.metaEnd machine.lsm.nextSstSeq machine.world
    let lsm := { machine.lsm with metaWp := machine.lsm.metaWp + written.consumed }
    match written.result with
    | .error .enodata => flushGenerations rest ⟨lsm, world⟩
    | .error error => (.error error, ⟨lsm, world⟩)
    | .ok _ => flushGenerations rest ⟨{ lsm with nextSstSeq := lsm.nextSstSeq + 1 }, world⟩

def flushAllSync (machine : Machine) : Except Errno Unit × Machine :=
  flushGenerations
    [machine.lsm.flushing, machine.lsm.tables.immutable, some machine.lsm.tables.active] machine

/-- `zns_engine_exit`: both workqueues are drained, then the resident tables are
written. What is left is the device. -/
def engineExit (machine : Machine) : Except Errno Unit × World :=
  let (status, machine) := flushAllSync (flushWorker machine)
  (status, machine.world)

end Lsm
end ZnsBase
