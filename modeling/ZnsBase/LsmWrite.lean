import ZnsBase.Lsm

/-! The write path of the LSM engine: the GC indexes, publication of a mapping,
collection of a zone, and the append that they serve. All of it runs on the
ordered I/O worker. -/

namespace ZnsBase
open Library

namespace Lsm

/-- The scan of `zns_lsm_physical_to_gc_slot` over the zones from `zoneId` on. -/
def gcSlotFrom (physicalSector : Nat) : List Zone → Nat → Except Errno (Nat × Nat)
  | [], _ => .error .einval
  | zone :: rest, zoneId =>
    if physicalSector < zone.startSector ∨ physicalSector ≥ zone.endSector then
      gcSlotFrom physicalSector rest (zoneId + 1)
    else if (physicalSector - zone.startSector) % blockSectors ≠ 0 ∨
        blockSectors > zone.endSector - physicalSector ∨
        (physicalSector ≥ zone.writePointer ∧ zone.condition ≠ .full) then
      .error .einval
    else .ok (zoneId, (physicalSector - zone.startSector) / blockSectors)

/-- Zone and slot of a sector that starts a whole, already written data block. -/
def physicalToGcSlot (lsm : Lsm) (physicalSector : Nat) : Except Errno (Nat × Nat) :=
  gcSlotFrom physicalSector lsm.allocator.zones 0

/-- `gc_zones[zone].logical_blocks[slot]`. -/
def gcEntry (lsm : Lsm) (zone slot : Nat) : Nat :=
  match lsm.gcZones[zone]? with
  | none => 0
  | some gcZone => gcZone.logicalBlocks[slot]?.getD 0

def gcValid (lsm : Lsm) (zone : Nat) : Nat := (lsm.gcZones[zone]?.map GcZone.nrValidBlocks).getD 0

def gcNrBlocks (lsm : Lsm) (zone : Nat) : Nat := (lsm.gcZones[zone]?.map GcZone.nrBlocks).getD 0

/-- Occupy or free one slot and count it. -/
def GcZone.occupy (slot entry : Nat) (gcZone : GcZone) : GcZone :=
  { gcZone with
    logicalBlocks := gcZone.logicalBlocks.set slot entry
    nrValidBlocks := gcZone.nrValidBlocks + 1 }

def GcZone.vacate (slot : Nat) (gcZone : GcZone) : GcZone :=
  { gcZone with
    logicalBlocks := gcZone.logicalBlocks.set slot 0
    nrValidBlocks := gcZone.nrValidBlocks - 1 }

/-- `zns_lsm_gc_map_init`; its allocations belong to init. -/
def gcMapInit (zones : List Zone) : List GcZone :=
  zones.map fun zone =>
    { logicalBlocks := List.replicate (zone.capacity / blockSectors) 0
      nrBlocks := zone.capacity / blockSectors
      nrValidBlocks := 0 }

/-- The commit of `zns_lsm_update_gc_block_location`. The entry was reserved, so
the store allocates nothing. -/
def gcCommit (lsm : Lsm) (logicalBlock physicalSector : Nat) (old : Option (Nat × Nat)) (new : Nat × Nat) : Lsm :=
  let vacated := match old with
    | some (zone, slot) => { lsm with gcZones := lsm.gcZones.modify zone (GcZone.vacate slot) }
    -- Only the first copy of a logical block adds to the total.
    | none => { lsm with validBlocks := lsm.validBlocks + 1 }
  { vacated with
    latest := fun block => if block = logicalBlock then some (encodePhysicalSector physicalSector) else lsm.latest block
    gcZones := vacated.gcZones.modify new.1 (GcZone.occupy new.2 (encodeLogicalBlock logicalBlock)) }

/-- All checks run before any change, so a failure leaves both indexes alone. -/
def updateGcBlockLocation (logicalBlock physicalSector : Nat) : Effect Lsm Errno Unit := fun lsm =>
  match lsm.physicalToGcSlot physicalSector with
  | .error error => (.error error, lsm)
  | .ok new =>
    if lsm.gcEntry new.1 new.2 ≠ 0 then (.error .einval, lsm)
    else match lsm.latest logicalBlock with
      | none => (.ok (), lsm.gcCommit logicalBlock physicalSector none new)
      | some entry =>
        match lsm.physicalToGcSlot (decodePhysicalSector entry) with
        | .error _ => (.error .einval, lsm)
        | .ok old =>
          -- The previous location must still record this block.
          if lsm.gcEntry old.1 old.2 ≠ encodeLogicalBlock logicalBlock then (.error .einval, lsm)
          else (.ok (), lsm.gcCommit logicalBlock physicalSector (some old) new)

def zoneFreeBlocks (zone : Zone) : Nat :=
  if zone.writePointer < zone.startSector ∨ zone.writePointer > zone.endSector then 0
  else (zone.endSector - zone.writePointer) / blockSectors

def gcGetZoneInfo (lsm : Lsm) (id : Nat) : ZoneInfo :=
  match lsm.allocator.zones[id]? with
  | none => ⟨false, false, 0, 0, 0⟩
  | some zone =>
    { isReserve := id = lsm.allocator.reserveZone
      resettable := zone.condition ≠ .readonly ∧ zone.condition ≠ .offline
      capacityBlocks := zone.capacity / blockSectors
      freeBlocks := if zone.CanAppend blockSectors then zoneFreeBlocks zone else 0
      validBlocks := lsm.gcValid id }

def gcValidateVictim (lsm : Lsm) (id : Nat) : Except Errno Unit :=
  match lsm.allocator.zones[id]?, lsm.allocator.zones[lsm.allocator.reserveZone]? with
  | some victim, some reserve =>
    if id = lsm.allocator.reserveZone then .error .einval
    else if victim.condition = .readonly ∨ victim.condition = .offline then .error .einval
    else if lsm.gcValid id > zoneFreeBlocks reserve then .error .enospc
    else .ok ()
  | _, _ => .error .einval

/-- Run an allocator operation on the engine's allocator. -/
def onAllocator {α : Type} (operation : Allocator → Except Errno α × Allocator) : Effect Machine Errno α :=
  onLsm (Effect.zoom Lsm.allocator (fun lsm allocator => { lsm with allocator }) operation)

/-- The context `zns_lsm_run_gc_if_needed` hands to the policy. -/
def gcContext (lsm : Lsm) (reserve : Zone) : GcContext where
  nrZones := lsm.allocator.zones.length
  hasWriteSpace := lsm.allocator.hasSpace
  reserveFreeBlocks := zoneFreeBlocks reserve
  zoneInfo := gcGetZoneInfo lsm

/-- Submit a block, or fail before submission when this attempt is the one
picked for injection. -/
def submitUnlessInjected (failAt attempt sector : Nat) (bytes : Nat → UInt8) : Effect Machine Errno Unit :=
  if failAt ≠ 0 ∧ attempt = failAt then Effect.fail .eio else onWorld (blockWrite .data sector bytes)

/-- After a failed data write: writes stay stopped unless the zone report allows
the allocator to be resynchronised. -/
def recoverWritePointer (physicalSector : Nat) : Effect Machine Errno Unit := do
  modifyLsm fun lsm => { lsm with writesStopped := true }
  let reported ← onWorld (zoneReportOne physicalSector)
  onAllocator fun allocator => allocator.resync physicalSector reported
  modifyLsm fun lsm => { lsm with writesStopped := false }

variable [Kernel]

def putActive (logicalBlock physicalSector : Nat) : Effect Machine Errno Unit := do
  let machine ← Effect.get
  let tables ← onWorld
    (machine.lsm.tables.putActive machine.lsm.memtableThreshold logicalBlock physicalSector)
  modifyLsm fun lsm => { lsm with tables }

/-- The read mapping is published between the reservation of GC index storage
and the index update; no other data I/O sees the state in between. -/
def publishWrite (logicalSector physicalSector : Nat) : Effect Machine Errno Unit := do
  let logicalBlock := logicalSector / blockSectors
  onWorld allocate
  putActive logicalBlock physicalSector
  match ← Effect.attempt (onLsm (updateGcBlockLocation logicalBlock physicalSector)) with
  | .error error => do
    modifyLsm fun lsm => { lsm with writesStopped := true, gcIndexFailures := lsm.gcIndexFailures + 1 }
    Effect.fail error
  | .ok () => modifyLsm maybeQueueFlush

/-- Relocate one live block; its destination is published only after the lower
write completed. -/
def gcRelocateBlock (params : Params) (logicalBlock sourceSector : Nat) : Effect Machine Errno Unit := do
  let buffer ← onWorld (blockRead .data sourceSector)
  let destination ← onAllocator Allocator.allocGc
  modifyLsm fun lsm => { lsm with gcMoveWriteAttempts := lsm.gcMoveWriteAttempts + 1 }
  let machine ← Effect.get
  submitUnlessInjected params.failGcMoveWriteAt machine.lsm.gcMoveWriteAttempts destination buffer
  publishWrite (logicalBlock * blockSectors) destination
  modifyLsm fun lsm => { lsm with gcMoved := lsm.gcMoved + 1 }

/-- The relocation loop of `zns_lsm_gc_clean` over the slots left to visit. Each
relocation also removes its source from the victim. -/
def gcMoveSlots (params : Params) (id start : Nat) : List Nat → Effect Machine Errno Unit
  | [] => pure ()
  | slot :: slots => do
    let machine ← Effect.get
    let entry := machine.lsm.gcEntry id slot
    if entry = 0 then gcMoveSlots params id start slots
    else do
      gcRelocateBlock params (decodeLogicalBlock entry) (start + slot * blockSectors)
      gcMoveSlots params id start slots

/-- `zns_lsm_gc_clean` once its buffer is allocated, up to the rotation of the
reserve. Any error here stops writes. -/
def gcCollect (params : Params) (id : Nat) (victim : Zone) : Effect Machine Errno Unit := do
  let machine ← Effect.get
  gcMoveSlots params id victim.startSector (List.range (machine.lsm.gcNrBlocks id))
  let machine ← Effect.get
  -- Never reset a zone while any current mapping still points into it.
  if machine.lsm.gcValid id ≠ 0 then Effect.fail .einval
  else do
    modifyLsm fun lsm => { lsm with gcZoneResetAttempts := lsm.gcZoneResetAttempts + 1 }
    let machine ← Effect.get
    if params.failGcZoneResetAt ≠ 0 ∧ machine.lsm.gcZoneResetAttempts = params.failGcZoneResetAt then
      Effect.fail .eio
    else do
      onWorld (zoneReset victim.startSector)
      modifyLsm fun lsm => { lsm with gcResets := lsm.gcResets + 1 }
      onAllocator fun allocator => allocator.setReserveAfterReset id
      modifyLsm fun lsm => { lsm with gcRuns := lsm.gcRuns + 1 }

def gcClean (params : Params) (id : Nat) : Effect Machine Errno Unit := do
  let machine ← Effect.get
  Effect.ofExcept (gcValidateVictim machine.lsm id)
  -- Nothing has moved yet: allocation failure alone does not stop writes.
  onWorld allocate
  match machine.lsm.allocator.zones[id]? with
  | none => Effect.fail .einval
  | some victim => do
    match ← Effect.attempt (gcCollect params id victim) with
    | .ok () => pure ()
    | .error error => do
      modifyLsm fun lsm => { lsm with writesStopped := true }
      Effect.fail error

def runGcIfNeeded (params : Params) : Effect Machine Errno Unit := do
  let machine ← Effect.get
  match machine.lsm.allocator.zones[machine.lsm.allocator.reserveZone]? with
  | none => Effect.fail .einval
  | some reserve =>
    let ctx := gcContext machine.lsm reserve
    if params.policy.policy.shouldGc ctx = false then pure ()
    else do
      let victim ← Effect.ofExcept (params.policy.policy.selectVictim ctx)
      gcClean params victim

/-- Append one full block, from a cloned bio or a bounce buffer. -/
def appendWrite (params : Params) (logicalSector : Nat) (bytes : Nat → UInt8) : Effect Machine Errno Unit := do
  let machine ← Effect.get
  if machine.lsm.writesStopped then Effect.fail .eio
  else do
    runGcIfNeeded params
    let physicalSector ← onAllocator Allocator.alloc
    modifyLsm fun lsm => { lsm with dataWriteAttempts := lsm.dataWriteAttempts + 1 }
    let machine ← Effect.get
    match ← Effect.attempt
        (submitUnlessInjected params.failDataWriteAt machine.lsm.dataWriteAttempts physicalSector bytes) with
    | .error error => do
      let _ ← Effect.attempt (recoverWritePointer physicalSector)
      -- Recovery enables future writes; the failed one is never published.
      Effect.fail error
    -- Insertion failure leaves the old mapping and consumes the written space.
    | .ok () => publishWrite logicalSector physicalSector

end Lsm
end ZnsBase
