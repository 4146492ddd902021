import ZnsBase.Allocator
import ZnsBase.GcPolicy
import ZnsBase.Super

/-! The LSM engine (`zns-engine-lsm.c`): its state, the lookup path and the
background flush. `lsm->sectors_per_block` is the constant 8, the only value
`zns_engine_init` accepts. -/

namespace ZnsBase
open Library

/-- Build and module parameters. The three counters inject a failure at the
given attempt; zero switches them off. -/
structure Params where
  policy : PolicyName
  memtableThreshold : Nat
  failDataWriteAt : Nat
  failGcMoveWriteAt : Nat
  failGcZoneResetAt : Nat
  deriving DecidableEq, Repr

/-- `struct zns_gc_zone`: logical block plus one for each slot, zero if unused. -/
structure GcZone where
  logicalBlocks : List Nat
  nrBlocks : Nat
  nrValidBlocks : Nat
  deriving DecidableEq, Repr

/-- `struct zns_lsm`. The active table exists from the end of init on. A latest
entry is the physical sector plus one; entries only reserved load as absent. -/
structure Lsm where
  allocator : Allocator
  gcZones : List GcZone
  latest : Nat → Option Nat
  validBlocks : Nat
  gcRuns : Nat
  gcMoved : Nat
  gcResets : Nat
  /-- How often "GC mapping index update failed" was logged. -/
  gcIndexFailures : Nat
  tables : Generations
  flushing : Option Memtable
  flushInFlight : Bool
  /-- Whether `flush_work` is queued on the flush workqueue. -/
  flushPending : Bool
  memtableThreshold : Nat
  dataWriteAttempts : Nat
  gcMoveWriteAttempts : Nat
  gcZoneResetAttempts : Nat
  writesStopped : Bool
  sstables : List Sstable
  nrSstables : Nat
  nrSstEntries : Nat
  nextSstSeq : Nat
  metaStart : Nat
  metaWp : Nat
  metaEnd : Nat
  super : Super

/-- The engine on its device. -/
structure Machine where
  lsm : Lsm
  world : World

def onWorld {α : Type} (program : Effect World Errno α) : Effect Machine Errno α :=
  Effect.zoom Machine.world (fun machine world => { machine with world }) program

def onLsm {α : Type} (program : Effect Lsm Errno α) : Effect Machine Errno α :=
  Effect.zoom Machine.lsm (fun machine lsm => { machine with lsm }) program

def modifyLsm (change : Lsm → Lsm) : Effect Machine Errno Unit :=
  Effect.modify fun machine => { machine with lsm := change machine.lsm }

namespace Lsm

def encodeLogicalBlock (logicalBlock : Nat) : Nat := logicalBlock + 1
def decodeLogicalBlock (entry : Nat) : Nat := entry - 1
def encodePhysicalSector (physicalSector : Nat) : Nat := physicalSector + 1
def decodePhysicalSector (entry : Nat) : Nat := entry - 1

def logicalBlocks (lsm : Lsm) : Nat := lsm.super.logicalSectors / blockSectors

/-- Go on to an older table after a miss. -/
def orOlder (result : Except Errno Nat) (older : Option Memtable) (logicalBlock : Nat) : Except Errno Nat :=
  match result, older with
  | .error .enodata, some table => table.lookup logicalBlock
  | result, _ => result

/-- Newest generation wins; all three tables are looked at under one lock. -/
def lookupMemtables (lsm : Lsm) (logicalBlock : Nat) : Except Errno Nat :=
  let result := lsm.tables.active.lookup logicalBlock
  let result := orOlder result lsm.tables.immutable logicalBlock
  orOlder result lsm.flushing logicalBlock

/-- The walk of `zns_lsm_lookup_sstables`, newest table first. -/
def lookupSstables : List Sstable → Nat → Effect World Errno Nat
  | [], _ => Effect.fail .enodata
  | sst :: rest, logicalBlock => do
    match ← Effect.attempt (sstLookup sst logicalBlock) with
    | .error .enodata => lookupSstables rest logicalBlock
    | result => Effect.ofExcept result

def isAlignedIo (logicalSector sectors : Nat) : Bool :=
  sectors = blockSectors ∧ logicalSector % blockSectors = 0

/-- `zns_lsm_read`. -/
def read (logicalSector sectors : Nat) : Effect Machine Errno Nat := do
  if isAlignedIo logicalSector sectors = false then Effect.fail .einval
  else do
    let logicalBlock := logicalSector / blockSectors
    let machine ← Effect.get
    match machine.lsm.lookupMemtables logicalBlock with
    | .error .enodata => onWorld (lookupSstables machine.lsm.sstables logicalBlock)
    | result => Effect.ofExcept result

/-- A table parked in the flushing slot is retried first. The victim is what the
slot holds afterwards. -/
def claimFlushVictim (lsm : Lsm) : Lsm :=
  match lsm.flushing with
  | some _ => lsm
  | none => { lsm with flushing := lsm.tables.immutable, tables.immutable := none }

def releaseFlushVictim (lsm : Lsm) : Lsm := { lsm with flushing := none }

/-- Sectors a flush burned are given up, also when it failed. -/
def advanceMetaWp (lsm : Lsm) (start consumed : Nat) : Lsm :=
  if start + consumed > lsm.metaWp then { lsm with metaWp := start + consumed } else lsm

def publishSstable (lsm : Lsm) (sst : Sstable) : Lsm :=
  { lsm with
    sstables := sst :: lsm.sstables
    nrSstables := lsm.nrSstables + 1
    nrSstEntries := lsm.nrSstEntries + sst.nrEntries
    nextSstSeq := lsm.nextSstSeq + 1 }

def maybeQueueFlush (lsm : Lsm) : Lsm :=
  if lsm.flushInFlight = false ∧ (lsm.tables.immutable.isSome ∨ lsm.flushing.isSome) then
    { lsm with flushInFlight := true, flushPending := true }
  else lsm

/-- One round of the loop of `zns_lsm_flush_worker` with a victim in hand: what
the round returned, zero included, and the engine after it. -/
def flushVictim (victim : Memtable) (machine : Machine) : Except Errno Unit × Machine :=
  let start := machine.lsm.metaWp
  let (written, world) := sstWrite victim start machine.lsm.metaEnd machine.lsm.nextSstSeq machine.world
  let lsm := if written.consumed ≠ 0 then machine.lsm.advanceMetaWp start written.consumed else machine.lsm
  match written.result with
  -- Nothing to persist; just reclaim the table.
  | .error .enodata => (.ok (), ⟨lsm.releaseFlushVictim, world⟩)
  -- Leave the table in the flushing slot: reads keep finding it.
  | .error error => (.error error, ⟨lsm, world⟩)
  | .ok sst => (.ok (), ⟨(lsm.publishSstable sst).releaseFlushVictim, world⟩)

/-- The loop of `zns_lsm_flush_worker`. Nothing freezes a table while it runs
here, so it ends after the parked table and the immutable one. -/
def flushLoop : Nat → Machine → Bool × Machine
  | 0, machine => (false, machine)
  | rounds + 1, machine =>
    let claimed := { machine with lsm := machine.lsm.claimFlushVictim }
    match claimed.lsm.flushing with
    | none => (false, claimed)
    | some victim =>
      match flushVictim victim claimed with
      | (.error _, machine) => (true, machine)
      | (.ok (), machine) => flushLoop rounds machine

/-- `zns_lsm_flush_worker`, run by the workqueue when its work is pending. -/
def flushWorker (machine : Machine) : Machine :=
  if machine.lsm.flushPending then
    let (failed, machine) := flushLoop 3 { machine with lsm.flushPending := false }
    let lsm := { machine.lsm with flushInFlight := false }
    -- Catch a freeze that landed after the last claim but before the clear.
    ⟨if failed then lsm else lsm.maybeQueueFlush, machine.world⟩
  else machine

end Lsm
end ZnsBase
