import ZnsBase.LsmInit
import ZnsBase.Proofs.SstImage

/-! The two workers of an engine side by side. A critical section of `table_lock`
or `sst_lock`, and the write of one metadata block, is one step; between any two
of them the other worker may run. The blocks of a table are those of its image,
which `zns_sst_write` emits one after the other. -/

namespace ZnsBase
open Library

/-- `zns_sst_write` up to the first block it writes. -/
def sstPrepare (memtable : Memtable) (startSector endSector seq : Nat) : Effect World Errno (List (Nat → UInt8)) := do
  if startSector ≥ endSector then Effect.fail .enospc
  else do
    allocate
    let sst := sstSummary memtable startSector seq
    if sst.nrEntries = 0 then Effect.fail .enodata
    else if sst.nrBlocks * blockSectors > endSector - startSector then Effect.fail .enospc
    else do
      allocate
      pure (sstImage memtable startSector seq)

/-- Where the ordered I/O worker stands. -/
inductive IoPc where
  | idle
  /-- `memtable_put_active` returned zero in `zns_lsm_publish_write`. -/
  | stored (logicalBlock physicalSector : Nat)
  /-- The GC indexes followed; `zns_lsm_maybe_queue_flush` comes next. -/
  | indexed
  /-- The flag is set, `queue_work` comes next. -/
  | queueing
  /-- `zns_lsm_lookup_memtables` had no entry. -/
  | missed (logicalBlock : Nat)
  deriving DecidableEq

/-- Where one execution of `zns_lsm_flush_worker` stands. -/
inductive FlushPc where
  | claiming
  | claimed (victim : Memtable)
  /-- `meta_wp` and the sequence number are read. -/
  | located (victim : Memtable) (start seq : Nat)
  /-- In `zns_sst_write`, so many blocks done and these to go. -/
  | writing (victim : Memtable) (start seq done : Nat) (left : List (Nat → UInt8))
  /-- `zns_sst_write` returned. -/
  | wrote (victim : Memtable) (start : Nat) (written : SstWritten)
  /-- `meta_wp` is advanced. -/
  | judging (victim : Memtable) (result : Except Errno Sstable)
  | releasing (victim : Memtable)
  /-- Out of the loop. -/
  | clearing (failed : Bool)
  /-- The flag is cleared, the last `zns_lsm_maybe_queue_flush` comes next. -/
  | rechecking
  | queueing
  | finished

/-- What the I/O worker changes besides the tables: allocation, data writes and
GC. It has no part in the log or in the flags of the flush. -/
structure DataPath where
  allocator : Allocator
  gcZones : List GcZone
  latest : Nat → Option Nat
  validBlocks : Nat
  writesStopped : Bool
  writePointer : Nat → Nat
  condition : Nat → ZoneCond
  media : Nat → UInt8

/-- What happened to flushes, for the statements only. -/
inductive Mark where
  | flushed
  | failed
  | queued
  deriving DecidableEq

/-- The engine with both workers. Executions of the flush work that have ended
stay in the list. `puts` has the mappings stored so far and `marks` the attempts
and queueings, both newest first; no step reads them. -/
structure Workers where
  machine : Machine
  io : IoPc
  flushers : List FlushPc
  puts : List (Nat × Nat)
  marks : List Mark

namespace Lsm

/-- The condition of `zns_lsm_maybe_queue_flush`. -/
def wantsFlush (lsm : Lsm) : Bool :=
  lsm.flushInFlight = false ∧ (lsm.tables.immutable.isSome ∨ lsm.flushing.isSome)

/-- One step of an execution of `zns_lsm_flush_worker`. -/
def flushStep (machine : Machine) : FlushPc → FlushPc × Machine
  | .claiming =>
    let lsm := machine.lsm.claimFlushVictim
    match lsm.flushing with
    | none => (.clearing false, { machine with lsm })
    | some victim => (.claimed victim, { machine with lsm })
  | .claimed victim => (.located victim machine.lsm.metaWp machine.lsm.nextSstSeq, machine)
  | .located victim start seq =>
    match sstPrepare victim start machine.lsm.metaEnd seq machine.world with
    | (.error error, world) => (.wrote victim start ⟨.error error, 0⟩, { machine with world })
    | (.ok blocks, world) => (.writing victim start seq 0 blocks, { machine with world })
  | .writing victim start seq done [] =>
    (.wrote victim start ⟨.ok (sstSummary victim start seq), done * blockSectors⟩, machine)
  | .writing victim start seq done (block :: left) =>
    match blockWrite .metadata (start + done * blockSectors) block machine.world with
    | (.error error, world) => (.wrote victim start ⟨.error error, done * blockSectors⟩, { machine with world })
    | (.ok (), world) => (.writing victim start seq (done + 1) left, { machine with world })
  | .wrote victim start written =>
    (.judging victim written.result,
      { machine with lsm := if written.consumed ≠ 0 then machine.lsm.advanceMetaWp start written.consumed else machine.lsm })
  | .judging victim (.error .enodata) => (.releasing victim, machine)
  | .judging _ (.error _) => (.clearing true, machine)
  | .judging victim (.ok sst) => (.releasing victim, { machine with lsm := machine.lsm.publishSstable sst })
  | .releasing _ => (.claiming, { machine with lsm := machine.lsm.releaseFlushVictim })
  | .clearing failed =>
    (if failed then .finished else .rechecking, { machine with lsm := { machine.lsm with flushInFlight := false } })
  | .rechecking =>
    if machine.lsm.wantsFlush then (.queueing, { machine with lsm := { machine.lsm with flushInFlight := true } })
    else (.finished, machine)
  | .queueing => (.finished, { machine with lsm := { machine.lsm with flushPending := true } })
  | .finished => (.finished, machine)

/-- What a step of the flush worker leaves in the history. -/
def flushMarks : FlushPc → List Mark
  | .judging _ (.error .enodata) => [.flushed]
  | .judging _ (.error _) => [.failed]
  | .judging _ (.ok _) => [.flushed]
  | .queueing => [.queued]
  | _ => []

/-- The data path in a new state; the last zone, which holds the log, stays as it
was. -/
def onDataPath (path : DataPath) (machine : Machine) : Machine where
  lsm := { machine.lsm with
    allocator := path.allocator
    gcZones := path.gcZones
    latest := path.latest
    validBlocks := path.validBlocks
    writesStopped := path.writesStopped }
  world := { machine.world with
    writePointer := fun index =>
      if index + 1 = machine.world.geometry.zones.length then machine.world.writePointer index else path.writePointer index
    condition := fun index =>
      if index + 1 = machine.world.geometry.zones.length then machine.world.condition index else path.condition index
    media := fun address =>
      if machine.lsm.metaStart * sectorBytes ≤ address then machine.world.media address else path.media address }

/-- Who runs next, and what the I/O worker takes up if it is idle. -/
inductive Turn where
  /-- Whatever the I/O worker does up to the next stored mapping. -/
  | prepare (path : DataPath)
  | put (logicalBlock physicalSector : Nat)
  | lookup (logicalBlock : Nat)
  /-- The I/O worker goes on with what it is at. -/
  | io
  /-- The workqueue starts the pending flush work. -/
  | start
  | flush (execution : Nat)

/-- Turns that the I/O worker takes. -/
def Turn.isIo : Turn → Bool
  | .prepare _ | .put _ _ | .lookup _ | .io => true
  | .start | .flush _ => false

/-- The I/O worker goes on. -/
def ioStep (workers : Workers) : Workers :=
  let machine := workers.machine
  match workers.io with
  | .idle => workers
  | .stored logicalBlock physicalSector =>
    match updateGcBlockLocation logicalBlock physicalSector machine.lsm with
    | (.ok (), lsm) => { workers with machine := { machine with lsm }, io := .indexed }
    | (.error _, lsm) =>
      { workers with
        machine := { machine with
          lsm := { lsm with writesStopped := true, gcIndexFailures := lsm.gcIndexFailures + 1 } }
        io := .idle }
  | .indexed =>
    if machine.lsm.wantsFlush then
      { workers with machine := { machine with lsm := { machine.lsm with flushInFlight := true } }, io := .queueing }
    else { workers with io := .idle }
  | .queueing =>
    { workers with
      machine := { machine with lsm := { machine.lsm with flushPending := true } }
      io := .idle
      marks := .queued :: workers.marks }
  -- The second phase of the lookup is over.
  | .missed _ => { workers with io := .idle }

variable [Kernel]

/-- `zns_lsm_publish_write` up to the stored mapping. -/
def storeWrite (logicalBlock physicalSector : Nat) : Effect Machine Errno Unit := do
  onWorld allocate
  putActive logicalBlock physicalSector

/-- One step of the engine; a turn that cannot be taken changes nothing. -/
def takeTurn (workers : Workers) : Turn → Workers
  | .prepare path => if workers.io = .idle then { workers with machine := onDataPath path workers.machine } else workers
  | .put logicalBlock physicalSector =>
    if workers.io = .idle then
      match storeWrite logicalBlock physicalSector workers.machine with
      | (.ok (), machine) =>
        { workers with
          machine
          io := .stored logicalBlock physicalSector
          puts := (logicalBlock, physicalSector) :: workers.puts }
      | (.error _, machine) => { workers with machine }
    else workers
  | .lookup logicalBlock =>
    if workers.io = .idle then
      match workers.machine.lsm.lookupMemtables logicalBlock with
      | .error .enodata => { workers with io := .missed logicalBlock }
      | _ => workers
    else workers
  | .io => ioStep workers
  | .start =>
    if workers.machine.lsm.flushPending then
      { workers with
        machine := { workers.machine with lsm := { workers.machine.lsm with flushPending := false } }
        flushers := workers.flushers ++ [.claiming] }
    else workers
  | .flush execution =>
    match workers.flushers[execution]? with
    | none => workers
    | some pc =>
      { workers with
        machine := (flushStep workers.machine pc).2
        flushers := workers.flushers.set execution (flushStep workers.machine pc).1
        marks := flushMarks pc ++ workers.marks }

/-- Any interleaving is a list of turns. -/
def interleave (turns : List Turn) (workers : Workers) : Workers := turns.foldl takeTurn workers

omit [Kernel] in
/-- An engine that was just started. -/
def startWorkers (machine : Machine) : Workers := ⟨machine, .idle, [], [], []⟩

omit [Kernel] in
/-- What a lookup that begins or goes on now answers: out of the tables in
memory, or else, with SSTable reads that do not fail, out of the SSTables. -/
inductive Answers (workers : Workers) (logicalBlock : Nat) : Except Errno Nat → Prop
  | memtables {result : Except Errno Nat} (idle : workers.io = .idle)
      (found : workers.machine.lsm.lookupMemtables logicalBlock = result) (hit : result ≠ .error .enodata) :
      Answers workers logicalBlock result
  | sstables (missed : workers.io = .missed logicalBlock) :
      Answers workers logicalBlock
        (lookupSstables workers.machine.lsm.sstables logicalBlock { workers.machine.world with oracle := .calm }).1

end Lsm
end ZnsBase
