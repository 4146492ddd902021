import ZnsBase.Library.SearchTree
import ZnsBase.World

/-! MemTables (`lsm-memtable.c`): a search tree from logical blocks to physical
sectors, and the active/immutable pair that a write goes through. Locks are left
out: each operation below is one critical section. -/

namespace ZnsBase
open Library

/-- `struct lsm_entry`. -/
structure Entry where
  logicalBlock : Nat
  physicalSector : Nat
  sequence : Nat
  deriving DecidableEq, Repr

/-- What the target takes from the kernel besides block I/O. Rebalancing keeps
the in-order sequence. `nr_entries` is an `unsigned int`, so the target relies on
one table never holding `2 ^ 32` entries; at 48 bytes each they would not fit in
192 GiB, and the kernel refuses the allocation before. -/
class Kernel where
  rbInsertColor : SearchTree Entry → SearchTree Entry
  inorder_rbInsertColor : ∀ tree, (rbInsertColor tree).inorder = tree.inorder
  entryLimit : Nat
  entryLimit_lt : entryLimit < 2 ^ 32

/-- `struct lsm_memtable`. -/
structure Memtable where
  root : SearchTree Entry
  nextSequence : Nat
  nrEntries : Nat
  deriving DecidableEq, Repr

namespace Memtable

/-- `memtable_init`. -/
def init : Memtable where
  root := .leaf
  nextSequence := 1
  nrEntries := 0

/-- `memtable_create`. -/
def create : Effect World Errno Memtable := do
  allocate
  pure init

/-- `memtable_find`. -/
def find (memtable : Memtable) (logicalBlock : Nat) : Option Entry :=
  memtable.root.find Entry.logicalBlock logicalBlock

/-- `memtable_lookup`. -/
def lookup (memtable : Memtable) (logicalBlock : Nat) : Except Errno Nat :=
  match memtable.find logicalBlock with
  | none => .error .enodata
  | some entry => .ok entry.physicalSector

/-- `memtable_lookup` when the caller also asks for the sequence number. -/
def lookupSequence (memtable : Memtable) (logicalBlock : Nat) : Except Errno (Nat × Nat) :=
  match memtable.find logicalBlock with
  | none => .error .enodata
  | some entry => .ok (entry.physicalSector, entry.sequence)

/-- `memtable_size`. -/
def size (memtable : Memtable) : Nat := memtable.nrEntries

variable [Kernel]

/-- `kmalloc` of one entry for this table. -/
def allocateEntry (memtable : Memtable) : Effect World Errno Unit := do
  allocate
  if memtable.nrEntries < Kernel.entryLimit then pure () else Effect.fail .enomem

/-- What `memtable_put` does to the table once the new entry is allocated: the
entry found on the way down is overwritten, or a new one is linked. -/
def store (memtable : Memtable) (logicalBlock physicalSector : Nat) : Memtable :=
  let sequence := memtable.nextSequence
  let nextSequence := (sequence + 1) % 2 ^ 64
  match memtable.find logicalBlock with
  | some _ =>
    { memtable with
      root := memtable.root.change Entry.logicalBlock logicalBlock
        fun entry => { entry with physicalSector, sequence }
      nextSequence }
  | none =>
    { root := Kernel.rbInsertColor (memtable.root.link Entry.logicalBlock ⟨logicalBlock, physicalSector, sequence⟩)
      nextSequence
      nrEntries := (memtable.nrEntries + 1) % 2 ^ 32 }

/-- `memtable_insert` behind its `kmalloc`. -/
def insert (memtable : Memtable) (logicalBlock physicalSector : Nat) : Except Errno Unit × Memtable :=
  match memtable.root.linkNew Entry.logicalBlock ⟨logicalBlock, physicalSector, memtable.nextSequence⟩ with
  | none => (.error .eexist, memtable)
  | some root =>
    (.ok (), {
      root := Kernel.rbInsertColor root
      nextSequence := (memtable.nextSequence + 1) % 2 ^ 64
      nrEntries := (memtable.nrEntries + 1) % 2 ^ 32 })

/-- `memtable_update`. -/
def update (memtable : Memtable) (logicalBlock physicalSector : Nat) : Except Errno Unit × Memtable :=
  match memtable.find logicalBlock with
  | none => (.error .enodata, memtable)
  | some _ =>
    (.ok (), { memtable with
      root := memtable.root.change Entry.logicalBlock logicalBlock
        fun entry => { entry with physicalSector, sequence := memtable.nextSequence }
      nextSequence := (memtable.nextSequence + 1) % 2 ^ 64 })

/-- `memtable_put`. -/
def put (memtable : Memtable) (logicalBlock physicalSector : Nat) : Effect World Errno Memtable := do
  memtable.allocateEntry
  pure (memtable.store logicalBlock physicalSector)

/-- `memtable_compact_copy`. -/
def compactCopy : List Entry → Memtable → Effect World Errno Memtable
  | [], destination => pure destination
  | entry :: rest, destination => do
    let destination ← destination.put entry.logicalBlock entry.physicalSector
    compactCopy rest destination

/-- `memtable_compact`: the newer table is copied last and wins. -/
def compact (older newer : Memtable) : Effect World Errno Memtable := do
  let merged ← create
  let merged ← compactCopy older.root.inorder merged
  compactCopy newer.root.inorder merged

end Memtable

inductive MemtableOp where
  | insert
  | update
  | put
  deriving DecidableEq, Repr

/-- One call of the interface of a table. -/
structure MemtableCall where
  op : MemtableOp
  logicalBlock : Nat
  physicalSector : Nat
  deriving DecidableEq, Repr

/-- Status of a call and the table behind it. `allocated` is the outcome of the
`kmalloc` at its head; `memtable_update` has none. -/
def MemtableCall.run [Kernel] (call : MemtableCall) (allocated : Bool) (memtable : Memtable) : Except Errno Unit × Memtable :=
  match call.op with
  | .insert =>
    if allocated then memtable.insert call.logicalBlock call.physicalSector else (.error .enomem, memtable)
  | .update => memtable.update call.logicalBlock call.physicalSector
  | .put =>
    if allocated then (.ok (), memtable.store call.logicalBlock call.physicalSector) else (.error .enomem, memtable)

/-- The active and the immutable generation of one engine. -/
structure Generations where
  active : Memtable
  immutable : Option Memtable
  deriving DecidableEq, Repr

namespace Generations

/-- `memtable_lookup_active_immutable`. -/
def lookupActiveImmutable (tables : Generations) (logicalBlock : Nat) : Except Errno Nat :=
  match tables.active.lookup logicalBlock, tables.immutable with
  | .error .enodata, some immutable => immutable.lookup logicalBlock
  | result, _ => result

variable [Kernel]

/-- `memtable_put_active_with_ops`. Once the entry is stored, a failed freeze or
compaction only leaves both tables where they are. -/
def putActiveWithOps (compact : Memtable → Memtable → Effect World Errno Memtable) (create : Effect World Errno Memtable)
    (threshold : Nat) (tables : Generations) (logicalBlock physicalSector : Nat) :
    Effect World Errno Generations := do
  if threshold = 0 then Effect.fail .einval
  else do
    let active ← tables.active.put logicalBlock physicalSector
    if active.size < threshold then pure { tables with active }
    else match tables.immutable with
      | none => do
        match ← Effect.attempt create with
        | .error _ => pure { tables with active }
        | .ok newActive => pure { active := newActive, immutable := some active }
      | some immutable => do
        match ← Effect.attempt (compact immutable active) with
        | .error _ => pure { tables with active }
        | .ok merged => do
          match ← Effect.attempt create with
          | .error _ => pure { tables with active }
          | .ok newActive => pure { active := newActive, immutable := some merged }

/-- `memtable_put_active`. -/
def putActive (threshold : Nat) (tables : Generations) (logicalBlock physicalSector : Nat) :
    Effect World Errno Generations :=
  putActiveWithOps Memtable.compact Memtable.create threshold tables logicalBlock physicalSector

end Generations
end ZnsBase
