import ZnsBase.World
import ZnsBase.Allocator

/-! The two 4 KiB append engines: `append4k` keeps its append pointer next to the
mapping under one lock, `append4k-alloc` takes sectors from an allocator of its
own. A critical section is one step. -/

namespace ZnsBase
open Library

/-- `(sector_t)-1`, the mapping of a block that was never written. -/
def append4kUnmapped : Nat := 2 ^ 64 - 1

/-- `struct zns_append4k`. -/
structure Append4k where
  addrMapping : Nat → Nat
  nextAppendSector : Nat
  nrLogicalBlocks : Nat
  sectorsPerBlock : Nat
  nrPhysicalSectors : Nat

/-- `struct zns_append4k_alloc`. -/
structure Append4kAlloc where
  addrMapping : Nat → Nat
  nrLogicalBlocks : Nat
  sectorsPerBlock : Nat
  allocator : Allocator

def storeMapping (addrMapping : Nat → Nat) (logicalBlock physicalSector : Nat) : Nat → Nat := fun block =>
  if block = logicalBlock then physicalSector else addrMapping block

/-- Both engines serve aligned requests of exactly one block. -/
def append4kAlignedIo (sectorsPerBlock logicalSector sectors : Nat) : Prop :=
  sectors = sectorsPerBlock ∧ logicalSector % sectorsPerBlock = 0

instance (sectorsPerBlock logicalSector sectors : Nat) : Decidable (append4kAlignedIo sectorsPerBlock logicalSector sectors) :=
  inferInstanceAs (Decidable (_ ∧ _))

/-- The checks at the head of every read and write, and the block they find. -/
def append4kBlock (sectorsPerBlock nrLogicalBlocks logicalSector sectors : Nat) : Except Errno Nat :=
  if ¬ append4kAlignedIo sectorsPerBlock logicalSector sectors then .error .einval
  else if logicalSector / sectorsPerBlock ≥ nrLogicalBlocks then .error .einval
  else .ok (logicalSector / sectorsPerBlock)

def append4kMapped (physicalSector : Nat) : Except Errno Nat :=
  if physicalSector = append4kUnmapped then .error .enodata else .ok physicalSector

/-- The checks of both `zns_engine_init`. -/
def append4kSizes (logicalSectors physicalSectors sectorsPerBlock : Nat) : Prop :=
  sectorsPerBlock ≠ 0 ∧ logicalSectors % sectorsPerBlock = 0 ∧ physicalSectors % sectorsPerBlock = 0

instance (logicalSectors physicalSectors sectorsPerBlock : Nat) :
    Decidable (append4kSizes logicalSectors physicalSectors sectorsPerBlock) := inferInstanceAs (Decidable (_ ∧ _ ∧ _))

namespace Append4k

def init (logicalSectors physicalSectors sectorsPerBlock : Nat) : Effect World Errno Append4k := do
  if ¬ append4kSizes logicalSectors physicalSectors sectorsPerBlock then Effect.fail .einval
  else do
    allocate
    allocate
    pure {
      addrMapping := fun _ => append4kUnmapped
      nextAppendSector := 0
      nrLogicalBlocks := logicalSectors / sectorsPerBlock
      sectorsPerBlock
      nrPhysicalSectors := physicalSectors }

/-- `zns_append4k_read`. -/
def read (m : Append4k) (logicalSector sectors : Nat) : Except Errno Nat := do
  let logicalBlock ← append4kBlock m.sectorsPerBlock m.nrLogicalBlocks logicalSector sectors
  append4kMapped (m.addrMapping logicalBlock)

/-- `zns_append4k_write`. -/
def write (m : Append4k) (logicalSector sectors : Nat) : Except Errno Nat × Append4k :=
  match append4kBlock m.sectorsPerBlock m.nrLogicalBlocks logicalSector sectors with
  | .error error => (.error error, m)
  | .ok logicalBlock =>
    if (m.nextAppendSector + m.sectorsPerBlock) % 2 ^ 64 > m.nrPhysicalSectors then (.error .enospc, m)
    else
      (.ok m.nextAppendSector,
        { m with
          nextAppendSector := (m.nextAppendSector + m.sectorsPerBlock) % 2 ^ 64
          addrMapping := storeMapping m.addrMapping logicalBlock m.nextAppendSector })

end Append4k

namespace Append4kAlloc

def init (logicalSectors physicalSectors sectorsPerBlock : Nat) : Effect World Errno Append4kAlloc := do
  if ¬ append4kSizes logicalSectors physicalSectors sectorsPerBlock then Effect.fail .einval
  else do
    allocate
    allocate
    let allocator ← Effect.ofExcept (Allocator.init physicalSectors sectorsPerBlock)
    pure {
      addrMapping := fun _ => append4kUnmapped
      nrLogicalBlocks := logicalSectors / sectorsPerBlock
      sectorsPerBlock
      allocator }

/-- `zns_append4k_alloc_read`. -/
def read (m : Append4kAlloc) (logicalSector sectors : Nat) : Except Errno Nat := do
  let logicalBlock ← append4kBlock m.sectorsPerBlock m.nrLogicalBlocks logicalSector sectors
  append4kMapped (m.addrMapping logicalBlock)

/-- `zns_append4k_alloc_write` up to the return of `zns_allocator_alloc`. The
checks read nothing that ever changes. -/
def writeAlloc (m : Append4kAlloc) (logicalSector sectors : Nat) : Except Errno Nat × Append4kAlloc :=
  match append4kBlock m.sectorsPerBlock m.nrLogicalBlocks logicalSector sectors with
  | .error error => (.error error, m)
  | .ok _ =>
    match m.allocator.alloc with
    | (.error error, allocator) => (.error error, { m with allocator })
    | (.ok physicalSector, allocator) => (.ok physicalSector, { m with allocator })

/-- The rest of `zns_append4k_alloc_write`, under `mapping_lock`. -/
def writeStore (m : Append4kAlloc) (logicalSector physicalSector : Nat) : Append4kAlloc :=
  { m with addrMapping := storeMapping m.addrMapping (logicalSector / m.sectorsPerBlock) physicalSector }

end Append4kAlloc

structure Append4kWrite where
  logicalSector : Nat
  sectors : Nat
  deriving DecidableEq, Repr

/-- Where a call of `zns_append4k_alloc_write` stands. -/
inductive WritePc where
  | called
  | placed (physicalSector : Nat)
  | returned (result : Except Errno Nat)
  deriving DecidableEq

/-- The status and sector of a call, once they are known. -/
def WritePc.outcome : WritePc → Option (Except Errno Nat)
  | .called => none
  | .placed physicalSector => some (.ok physicalSector)
  | .returned result => some result

/-- `append4k-alloc` under concurrent writes, one for each thread. `order` has the
threads by their allocation steps, oldest first; no step reads it. -/
structure Append4kWriters where
  engine : Append4kAlloc
  pc : Nat → WritePc
  order : List Nat

namespace Append4kWriters

def start (engine : Append4kAlloc) : Append4kWriters := ⟨engine, fun _ => .called, []⟩

def setPc (state : Append4kWriters) (thread : Nat) (pc : WritePc) : Append4kWriters :=
  { state with pc := fun other => if other = thread then pc else state.pc other }

/-- The next step of one thread. -/
def step (writes : Nat → Append4kWrite) (state : Append4kWriters) (thread : Nat) : Append4kWriters :=
  match state.pc thread with
  | .called =>
    let placed := state.engine.writeAlloc (writes thread).logicalSector (writes thread).sectors
    let after := { state with engine := placed.2, order := state.order ++ [thread] }
    match placed.1 with
    | .error error => after.setPc thread (.returned (.error error))
    | .ok physicalSector => after.setPc thread (.placed physicalSector)
  | .placed physicalSector =>
    { state with engine := state.engine.writeStore (writes thread).logicalSector physicalSector }.setPc thread
      (.returned (.ok physicalSector))
  | .returned _ => state

/-- Any interleaving: the threads in the order of their steps. -/
def run (writes : Nat → Append4kWrite) (state : Append4kWriters) (schedule : List Nat) : Append4kWriters :=
  schedule.foldl (step writes) state

end Append4kWriters

/-- Writes to `append4k` one after another: what each returned, and the engine
behind them. -/
def Append4k.run (m : Append4k) (writes : List Append4kWrite) : List (Except Errno Nat) × Append4k :=
  writes.foldl (fun done write =>
    (done.1 ++ [(done.2.write write.logicalSector write.sectors).1], (done.2.write write.logicalSector write.sectors).2)) ([], m)

end ZnsBase
