import ZnsBase.Proofs.Requests
import ZnsBase.Proofs.Startup

/-! Whole sessions: a start leaves an engine ready to serve, and requests, failures
and flushes in any order keep it so. -/

namespace ZnsBase
open Library

namespace Lsm
variable [Kernel] {log : Extent} {limit : Nat} {lossless : Prop}

/-- An attached engine between two requests. -/
structure Serving (machine : Machine) (log : Extent) (limit : Nat) (lossless : Prop) : Prop where
  coherent : Coherent machine log limit lossless
  ready : machine.lsm.writesStopped = false → Ready machine
  gcIndexFailures : machine.lsm.gcIndexFailures = 0

theorem Serving.same {before after : Machine} (serving : Serving before log limit lossless) (same : Same before after) :
    Serving after log limit lossless := by
  have alike : Alike before after := ⟨by rw [same.1], same.2⟩
  refine ⟨(serving.coherent.alike alike).1, fun running => ?_, ?_⟩
  · rw [same.1] at running
    exact (serving.ready running).of_same (by rw [same.1]) same.2.toSameDevice
  · rw [same.1]
    exact serving.gcIndexFailures

theorem Serving.append (params : Params) {machine : Machine} {sector : Nat} (bytes : Nat → UInt8)
    (serving : Serving machine log limit lossless) (aligned : sector % blockSectors = 0) (inside : sector < limit) :
    Effect.Ensures (appendWrite params sector bytes) machine (fun result after =>
      Serving after log limit lossless ∧ Appends params log limit lossless sector bytes machine result after) := by
  refine (appendWrite_spec params bytes serving.coherent serving.ready aligned inside).mono ?_
  intro result after appends
  refine ⟨⟨appends.coherent, appends.ready, ?_⟩, appends⟩
  rw [appends.beside.gcIndexFailures]
  exact serving.gcIndexFailures

theorem Serving.flushWorker {machine : Machine} (serving : Serving machine log limit lossless)
    (distinct : lossless → machine.world.oracle.Distinct) : Serving (Lsm.flushWorker machine) log limit lossless := by
  have flushed := flushWorker_flushed serving.coherent distinct
  refine ⟨flushed.coherent, fun running => flushed.ready (serving.ready ?_), ?_⟩
  · rw [← flushed.flushes.writesStopped]
    exact running
  · rw [flushed.flushes.gcIndexFailures]
    exact serving.gcIndexFailures

/-- Whatever is asked of it and whatever fails, the engine goes on serving. -/
theorem Serving.run (params : Params) (events : List Event) {machine : Machine} (serving : Serving machine log limit lossless)
    (distinct : lossless → machine.world.oracle.Distinct) :
    Serving (Lsm.run params events machine) log limit lossless ∧
      machine.world.oracle.Later (Lsm.run params events machine).world.oracle := by
  refine @run_preserves _ params
    (fun after => Serving after log limit lossless ∧ machine.world.oracle.Later after.world.oracle) limit
    ?_ ?_ ?_ ?_ events machine ⟨serving, .refl _⟩
  · exact fun after holds => holds.1.coherent.logicalSectors
  · exact fun before after holds same => ⟨holds.1.same same, holds.2.trans same.2.later⟩
  · intro before sector bytes holds aligned inside
    refine (holds.1.append params bytes aligned inside).mono ?_
    exact fun result after done => ⟨done.1, holds.2.trans done.2.beside.later⟩
  · intro before holds
    have distinct (trusted : lossless) := (distinct trusted).later holds.2
    exact ⟨holds.1.flushWorker distinct, holds.2.trans (flushWorker_flushed holds.1.coherent distinct).flushes.later⟩

/-- A table as some engine wrote it. -/
def Genuine (world : World) (sst : Sstable) : Prop := ∃ memtable, Stored world.media sst memtable

/-- A successful `zns_engine_init` leaves an engine that serves. -/
theorem engineInit_serving {params : Params} {uuid logicalSectors physicalSectors sectorsPerBlock : Nat} {world after : World}
    {lsm : Lsm} (ran : engineInit params uuid logicalSectors physicalSectors sectorsPerBlock world = (.ok lsm, after))
    (narrow : logicalSectors < 2 ^ 64) (whole : WholeBlocks world)
    (genuine : lossless → ∀ sst ∈ lsm.sstables, Genuine after sst) :
    ∃ log, Serving ⟨lsm, after⟩ log logicalSectors lossless ∧ world.oracle.Later after.oracle := by
  obtain ⟨data, log, split⟩ := engineInit_split ran
  obtain ⟨opened, opening, started⟩ := engineInit_ok split ran
  have later : world.oracle.Later after.oracle := by
    obtain ⟨middle, quiet, opens⟩ := opening.opening
    obtain ⟨rebuilt, reserve, vacant, done, _, _, _, quiet'⟩ := started
    exact (opens.later.trans quiet.later).trans (done.quiet.trans quiet').later
  exact ⟨log, ⟨started.coherent split opening narrow whole genuine, fun _ => started.ready split opening,
    (started.settings opening).2.1⟩, later⟩

/-- One attachment of a target, from its start over some events. -/
def session (params : Params) (logicalSectors : Nat) (world : World) (events : List Event) : Option Machine :=
  match engineInit params 0 logicalSectors logicalSectors blockSectors world with
  | (.ok lsm, after) => some (run params events ⟨lsm, after⟩)
  | (.error _, _) => none

omit [Kernel] in
theorem fresh_wholeBlocks (geometry : Geometry) : WholeBlocks (World.fresh geometry) := by
  intro index extent found _
  rw [List.getElem?_dropLast] at found
  split at found
  · change ((geometry.zones[index]?.map Extent.start).getD 0 - extent.start) % blockSectors = 0
    rw [show geometry.zones[index]? = some extent from found]
    simp
  · cases found

omit [Kernel] in
/-- Two data zones of four blocks and a log, for the runs below. -/
def smallGeometry : Geometry := ⟨[⟨0, 32, 32⟩, ⟨32, 32, 32⟩, ⟨64, 64, 64⟩], by decide, by decide, by decide⟩

omit [Kernel] in
/-- A new device on which the first write of the log after the superblock ends
with a medium error, which the block layer reports as `-ENODATA`. -/
def failingLog : World :=
  { World.fresh smallGeometry with
    oracle := { Oracle.calm with metadata := Stream'.cons .ok (Stream'.cons (.fail .enodata none) (Stream'.const .ok)) } }

omit [Kernel] in
/-- No injected failures, and tables that never fill up by themselves. -/
def plainParams : Params := ⟨.greedy, 16, 0, 0, 0⟩

omit [Kernel] in
/-- Tables that freeze with every entry. -/
def eagerParams : Params := { plainParams with memtableThreshold := 1 }

omit [Kernel] in
/-- A write of one block of equal bytes. -/
def writeBlock (logicalBlock : Nat) (byte : UInt8) : Event :=
  .bio ⟨.write, logicalBlock * blockSectors, [blockBytes], fun _ => byte⟩

omit [Kernel] in
/-- The start of the runs below. -/
theorem plain_start : ∃ lsm after,
    engineInit plainParams 0 16 16 blockSectors (World.fresh smallGeometry) = (.ok lsm, after) ∧ lsm.sstables = [] := by
  have found : (engineInit plainParams 0 16 16 blockSectors (World.fresh smallGeometry)).1.toOption.map Lsm.sstables =
      some [] := by decide +kernel
  generalize engineInit plainParams 0 16 16 blockSectors (World.fresh smallGeometry) = outcome at found
  obtain ⟨_ | lsm, after⟩ := outcome
  · cases found
  · exact ⟨lsm, after, rfl, Option.some.inj found⟩

omit [Kernel] in
/-- A start of a small target succeeds, and what it leaves passes a test. -/
def startsAnd (params : Params) (world : World) (test : Lsm → World → Bool) : Bool :=
  match engineInit params 0 16 16 blockSectors world with
  | (.ok lsm, after) => test lsm after
  | (.error _, _) => false

omit [Kernel] in
theorem startsAnd_spec {params : Params} {world : World} {test : Lsm → World → Bool}
    (passes : startsAnd params world test = true) : ∃ lsm after,
      engineInit params 0 16 16 blockSectors world = (.ok lsm, after) ∧ test lsm after = true := by
  unfold startsAnd at passes
  split at passes
  next lsm after ran => exact ⟨lsm, after, ran, passes⟩
  next => cases passes

theorem session_eq {params : Params} {logicalSectors : Nat} {world after : World} {lsm : Lsm}
    (ran : engineInit params 0 logicalSectors logicalSectors blockSectors world = (.ok lsm, after)) (events : List Event) :
    session params logicalSectors world events = some (run params events ⟨lsm, after⟩) := by
  rw [session, ran]

theorem session_some {params : Params} {logicalSectors : Nat} {world : World} {events : List Event} {machine : Machine}
    (held : session params logicalSectors world events = some machine) : ∃ lsm after,
      engineInit params 0 logicalSectors logicalSectors blockSectors world = (.ok lsm, after) ∧
        machine = run params events ⟨lsm, after⟩ := by
  unfold session at held
  split at held
  next lsm after ran => exact ⟨lsm, after, ran, (Option.some.inj held).symm⟩
  next _ => cases held

end Lsm
end ZnsBase
