import Mathlib.Logic.Relation
import ZnsBase.Proofs.LogWalk
import ZnsBase.Proofs.SequentialWrites

/-! The metadata log: a superblock and the tables behind it, written one after
the other at the device's write pointer. Only attempts to write a table move it,
and each accounts for the blocks it used up, however it ends. -/

namespace ZnsBase
open Library

/-- What one attempt to write a table at `startSector` did: the sectors it used
up are those of the blocks that were written, and the device agrees. -/
structure Attempted (index : Nat) (extent : Extent) (startSector seq : Nat) (world : World) (written : SstWritten)
    (after : World) : Prop where
  consumed : ∃ count, written.consumed = count * blockSectors ∧ BlockWrites world count after
  pointer : world.Exact → after.writePointer index = world.writePointer index + written.consumed
  inside : written.consumed ≠ 0 → startSector + written.consumed ≤ extent.start + extent.capacity
  complete : ∀ sst, written.result = .ok sst → sst.startSector = startSector ∧ sst.seq = seq ∧
    sst.nrBlocks * blockSectors = written.consumed
  writes : ∃ fresh, after.metaWrites = fresh ++ world.metaWrites ∧ ∀ write ∈ fresh, startSector ≤ write.sector ∧
    write.sector + blockSectors ≤ extent.start + extent.capacity ∧
    (world.Exact → world.writePointer index = startSector → write.writePointer index = write.sector)

theorem SstWrite.attempted [Kernel] {memtable : Memtable} {index startSector seq : Nat} {extent : Extent} {world after : World}
    {written : SstWritten} (regular : memtable.Regular)
    (write : SstWrite memtable index extent startSector seq world written after) :
    Attempted index extent startSector seq world written after := by
  have idle {after : World} {error : Errno} (quiet : world.Quiet after) :
      Attempted index extent startSector seq world ⟨.error error, 0⟩ after :=
    ⟨⟨0, rfl, .quiet quiet (.refl _)⟩, fun _ => congrFun quiet.writePointer index, fun some_ => absurd rfl some_, nofun,
      [], quiet.metaWrites, nofun⟩
  cases write with
  | empty quiet _ => exact idle quiet
  | short quiet _ => exact idle quiet
  | starved quiet _ => exact idle quiet
  | @wrote _ result count filled room blocks =>
    have limited : memtable.root.inorder.length < 2 ^ 32 := by
      rw [← regular.counted]
      exact regular.limited.trans_lt Kernel.entryLimit_lt
    have few : count * blockSectors ≤ (sstImage memtable startSector seq).length * blockSectors := by
      apply Nat.mul_le_mul_right
      cases result with
      | ok _ => exact Nat.le_of_eq (blocks.complete rfl)
      | error error => exact (blocks.stopped error rfl).1.le
    refine ⟨⟨count, rfl, blocks.counted⟩, blocks.pointer, fun _ => by dsimp only; omega, ?_, ?_⟩
    · intro sst done
      cases result with
      | error error => cases done
      | ok _ =>
        cases done
        refine ⟨sstSummary_startSector .., sstSummary_seq .., ?_⟩
        rw [sstSummary_nrBlocks startSector seq limited, ← sstImage_length memtable startSector seq]
        dsimp only
        rw [blocks.complete rfl]
    · obtain ⟨fresh, writes, placed⟩ := blocks.writes
      refine ⟨fresh, writes, fun write member => ?_⟩
      obtain ⟨above, below, meets⟩ := placed write member
      exact ⟨above, below.trans room, meets⟩

/-- Engine and device agree on the log; `origin` are the writes to its zone
before the engine ran. -/
structure LogSound (origin : List Submission) (state : LogState) (device : LogDevice) : Prop where
  ordered : state.Ordered (state.metaStart + blockSectors) state.metaWp
  pointer : device.writePointer = state.metaWp
  fullAtLength : device.fullAtLength = false
  writes : ∃ fresh, device.writes = fresh ++ origin ∧ ∀ write ∈ fresh, state.metaStart + blockSectors ≤ write.sector ∧
    write.sector + blockSectors ≤ state.metaEnd ∧ write.writePointer device.index = write.sector

/-- An attempt keeps engine and device in agreement if the engine moves its
write pointer by what the attempt consumed. -/
theorem LogSound.attempt {index : Nat} {extent : Extent} {origin : List Submission} {state later : LogState}
    {world after : World} {written : SstWritten} (sound : LogSound origin state world.logDevice)
    (attempted : Attempted index extent state.metaWp state.nextSstSeq world written after)
    (appended : world.Appended after index extent state.metaWp) (here : world.logIndex = index)
    (dry : ¬ world.oracle.Spills .metadata) (metaStart : later.metaStart = state.metaStart)
    (metaEnd : later.metaEnd = state.metaEnd) (ends : state.metaEnd = extent.start + extent.capacity)
    (metaWp : later.metaWp = state.metaWp + written.consumed)
    (ordered : later.Ordered (state.metaStart + blockSectors) (state.metaWp + written.consumed)) :
    LogSound origin later after.logDevice := by
  have plain : world.Exact := ⟨dry, sound.fullAtLength⟩
  have there : after.logIndex = index := by rw [World.logIndex, appended.geometry, ← here, World.logIndex]
  have meets : world.writePointer index = state.metaWp := by
    rw [← here]
    exact sound.pointer
  refine ⟨by rw [metaStart, metaWp]; exact ordered, ?_, appended.fullAtLength.trans plain.2, ?_⟩
  · change after.writePointer after.logIndex = _
    rw [there, attempted.pointer plain, meets, metaWp]
  · obtain ⟨fresh, writes, placed⟩ := attempted.writes
    obtain ⟨old, before, oldPlaced⟩ := sound.writes
    refine ⟨fresh ++ old, ?_, ?_⟩
    · change after.metaWrites = _
      rw [writes, show world.metaWrites = old ++ origin from before, List.append_assoc]
    · intro write member
      rw [metaStart, metaEnd]
      rcases List.mem_append.mp member with new | earlier
      · obtain ⟨above, below, starts⟩ := placed write new
        refine ⟨sound.ordered.bounded.trans above, by rw [ends]; exact below, ?_⟩
        change write.writePointer after.logIndex = _
        rw [there, starts plain meets]
      · change _ ∧ _ ∧ write.writePointer after.logIndex = _
        rw [there, ← here]
        exact oldPlaced write earlier

namespace Lsm

/-- One step of an attached engine. The I/O worker serves a bio; the flush
worker claims a table, attempts to write it, or sets its flags; a detach
attempts to write one of the tables still in memory. -/
inductive Step [Kernel] (params : Params) (machine : Machine) : Machine → Prop
  | request (bio : Bio) : Step params machine (engineMap params bio machine).2
  | claim : Step params machine { machine with lsm := machine.lsm.claimFlushVictim }
  | attempt {victim : Memtable} (slot : machine.lsm.flushing = some victim) :
      Step params machine (flushVictim victim machine).2
  | flags (flushInFlight flushPending : Bool) :
      Step params machine { machine with lsm := { machine.lsm with flushInFlight, flushPending } }
  | detach {table : Memtable} (resident : table ∈ machine.lsm.residents) :
      Step params machine (flushGenerations [some table] machine).2

/-- The attempt a machine would make with a table. -/
def attemptTable (table : Memtable) (machine : Machine) : SstWritten × World :=
  sstWrite table machine.lsm.metaWp machine.lsm.metaEnd machine.lsm.nextSstSeq machine.world

variable [Kernel] {log : Extent} {limit : Nat} {view : LogView}

theorem attemptTable_spec {machine : Machine} {table : Memtable} (flushable : Flushable machine log)
    (regular : table.Regular) :
    Attempted machine.lsm.allocator.zones.length log machine.lsm.metaWp machine.lsm.nextSstSeq machine.world
      (attemptTable table machine).1 (attemptTable table machine).2 :=
  (sstWrite_attached flushable regular machine.lsm.nextSstSeq).attempted regular

omit [Kernel] in
theorem flushVictim_log (victim : Memtable) (machine : Machine) :
    (flushVictim victim machine).2.world = (attemptTable victim machine).2 ∧
      let moved := { machine.lsm with metaWp := machine.lsm.metaWp + (attemptTable victim machine).1.consumed }
      (∃ error, (attemptTable victim machine).1.result = .error error ∧
          (flushVictim victim machine).2.lsm.logState = moved.logState) ∨
        ∃ sst, (attemptTable victim machine).1.result = .ok sst ∧
          (flushVictim victim machine).2.lsm.logState = (moved.publishSstable sst).logState := by
  unfold flushVictim attemptTable
  dsimp only
  generalize sstWrite victim machine.lsm.metaWp machine.lsm.metaEnd machine.lsm.nextSstSeq machine.world = written
  obtain ⟨⟨result, consumed⟩, world⟩ := written
  dsimp only
  rw [advanceMetaWp_eq]
  split
  · exact ⟨rfl, Or.inl ⟨_, rfl, rfl⟩⟩
  · exact ⟨rfl, Or.inl ⟨_, rfl, rfl⟩⟩
  · exact ⟨rfl, Or.inr ⟨_, rfl, rfl⟩⟩

/-- At a detach a table that was written is numbered but not listed. -/
theorem flushGenerations_single {machine : Machine} {table : Memtable} (flushable : Flushable machine log)
    (regular : table.Regular) : ∃ nextSstSeq, machine.lsm.nextSstSeq ≤ nextSstSeq ∧
      (flushGenerations [some table] machine).2 = ⟨{ machine.lsm with
        metaWp := machine.lsm.metaWp + (attemptTable table machine).1.consumed
        nextSstSeq := nextSstSeq }, (attemptTable table machine).2⟩ ∧
      Flushes machine (flushGenerations [some table] machine).2 log := by
  obtain ⟨appended, dataWrites, later⟩ := (sstWrite_attached flushable regular machine.lsm.nextSstSeq).appended
  unfold flushGenerations attemptTable
  dsimp only
  generalize sstWrite table machine.lsm.metaWp machine.lsm.metaEnd machine.lsm.nextSstSeq machine.world = written
    at appended dataWrites later
  obtain ⟨⟨result, consumed⟩, world⟩ := written
  dsimp only at appended dataWrites later ⊢
  have flushes (nextSstSeq : Nat) : Flushes machine
      ⟨{ machine.lsm with metaWp := machine.lsm.metaWp + consumed, nextSstSeq }, world⟩ log :=
    ⟨rfl, rfl, rfl, rfl, Nat.le_add_right _ _, rfl, rfl, rfl, rfl, rfl, rfl, rfl, fun _ member => member, appended, dataWrites,
      later⟩
  split
  · exact ⟨_, Nat.le_refl _, rfl, flushes _⟩
  · exact ⟨_, Nat.le_refl _, rfl, flushes _⟩
  · exact ⟨_, Nat.le_succ _, rfl, flushes _⟩

/-- What a step has to keep: the discipline of requests, and a sound log on a
device that tells how far a log write got. -/
structure Logging (machine : Machine) (log : Extent) (limit : Nat) (origin : List Submission) : Prop where
  settled : Settled machine log limit machine.logView
  sound : LogSound origin machine.lsm.logState machine.world.logDevice
  dry : ¬ machine.world.oracle.Spills .metadata

section Steps
variable {origin : List Submission} {machine : Machine} (logging : Logging machine log limit origin)
include logging

theorem Logging.request (params : Params) (bio : Bio) :
    Logging (engineMap params bio machine).2 log limit origin ∧
      (engineMap params bio machine).2.lsm.logState = machine.lsm.logState := by
  have settled : Settled (engineMap params bio machine).2 log limit machine.logView :=
    engineMap_preserves (fun machine settled => settled.1.logicalSectors) (fun before after settled same => settled.same same)
      (fun machine sector bytes settled _ inside => appendWrite_settled params bytes settled inside) bio logging.settled
  have of := settled.1.of
  refine ⟨⟨⟨{ settled.1 with of := ⟨rfl, rfl, .refl _⟩ }, settled.2⟩, ?_, ?_⟩, of.state⟩
  · rw [of.state, of.device]
    exact logging.sound
  · exact fun spills => logging.dry (spills.later of.later)

/-- An attempt to write a table, and what the engine then notes. -/
theorem Logging.attempt {table : Memtable} {after : Machine} (resident : table ∈ machine.lsm.residents)
    (flushes : Flushes machine after log) (world : after.world = (attemptTable table machine).2)
    (metaWp : after.lsm.metaWp = machine.lsm.metaWp + (attemptTable table machine).1.consumed)
    (ordered : after.lsm.logState.Ordered (machine.lsm.metaStart + blockSectors)
      (machine.lsm.metaWp + (attemptTable table machine).1.consumed)) :
    Logging after log limit origin := by
  have attached := logging.settled.1.attached
  have disciplined := flushes.disciplined logging.settled.1
  have attempted := attemptTable_spec logging.settled.1.flushable (logging.settled.1.regular table resident)
  refine ⟨⟨{ disciplined with of := ⟨rfl, rfl, .refl _⟩ }, ?_⟩, ?_, ?_⟩
  · intro running
    rw [flushes.writesStopped] at running
    exact flushes.synced (logging.settled.2 running)
  · rw [← world] at attempted
    exact logging.sound.attempt attempted flushes.appended attached.logIndex logging.dry flushes.metaStart flushes.metaEnd
      attached.metaEnd metaWp ordered
  · exact fun spills => logging.dry (spills.later flushes.later)

theorem Logging.victim {victim : Memtable} (slot : machine.lsm.flushing = some victim) :
    Logging (flushVictim victim machine).2 log limit origin := by
  have resident : victim ∈ machine.lsm.residents := by simp [residents, slot]
  have attempted := attemptTable_spec logging.settled.1.flushable (logging.settled.1.regular victim resident)
  have ordered := logging.sound.ordered
  obtain ⟨world, state⟩ := flushVictim_log victim machine
  refine logging.attempt resident (flushVictim_flushes logging.settled.1.flushable slot) world ?_ ?_
  · rcases state with ⟨_, _, moved⟩ | ⟨sst, _, published⟩
    · exact congrArg LogState.metaWp moved
    · exact congrArg LogState.metaWp published
  · rcases state with ⟨_, _, moved⟩ | ⟨sst, done, published⟩
    · rw [moved]
      exact ordered.raise (Nat.le_add_right _ _) rfl (Nat.le_refl _) rfl rfl
    · obtain ⟨start, seq, size⟩ := attempted.complete sst done
      rw [published]
      exact ordered.add (Nat.le_of_eq start.symm) (by rw [start, size]) (Nat.le_of_eq seq.symm)
        (by rw [seq]; exact Nat.lt_succ_self _) rfl rfl rfl

theorem Logging.step {params : Params} {after : Machine} (step : Step params machine after) :
    Logging after log limit origin ∧ machine.lsm.metaWp ≤ after.lsm.metaWp := by
  cases step with
  | request bio =>
    obtain ⟨next, state⟩ := logging.request params bio
    exact ⟨next, Nat.le_of_eq (congrArg LogState.metaWp state).symm⟩
  | claim =>
    have flushes := claimFlushVictim_flushes machine log
    have state : machine.lsm.claimFlushVictim.logState = machine.lsm.logState := by
      unfold claimFlushVictim
      split <;> rfl
    have disciplined := flushes.disciplined logging.settled.1
    refine ⟨⟨⟨{ disciplined with of := ⟨rfl, rfl, .refl _⟩ }, ?_⟩, ?_, logging.dry⟩, flushes.metaWp⟩
    · intro running
      rw [flushes.writesStopped] at running
      exact flushes.synced (logging.settled.2 running)
    · rw [state]
      exact logging.sound
  | attempt slot => exact ⟨logging.victim slot, (flushVictim_flushes logging.settled.1.flushable slot).metaWp⟩
  | flags flushInFlight flushPending =>
    obtain ⟨disciplined, synced⟩ := logging.settled
    exact ⟨⟨⟨⟨disciplined.attached.onEngine rfl rfl rfl, disciplined.orderly, disciplined.regular, disciplined.narrow,
      disciplined.logStart, disciplined.logicalSectors, rfl, rfl, .refl _⟩, synced⟩, logging.sound, logging.dry⟩, Nat.le_refl _⟩
  | @detach table resident =>
    obtain ⟨nextSstSeq, forward, same, flushes⟩ :=
      flushGenerations_single logging.settled.1.flushable (logging.settled.1.regular table resident)
    refine ⟨logging.attempt resident flushes (by rw [same]) (by rw [same]) ?_, flushes.metaWp⟩
    rw [same]
    exact logging.sound.ordered.raise (Nat.le_add_right _ _) rfl forward rfl rfl

end Steps

/-- A device whose log is yet to be formatted, or holds a superblock and complete
tables up to the write pointer of a zone that is not full. The engine numbers
its tables from 1 on. -/
def CompleteLog (world : World) (data : List Extent) (log : Extent) : Prop :=
  world.LogEnd data.length log log.start ∨ world.condition data.length ≠ .full ∧ ∃ tables : List Memtable,
    Tiled world.media (log.start + blockSectors) (tables.zipIdx 1) ∧
      logEnd (log.start + blockSectors) (tables.zipIdx 1) = world.writePointer data.length

omit [Kernel] in
/-- Nothing after the walk of the log changes what the engine knows of it. -/
theorem Started.recovered {opened after : Machine} (started : Started opened after) : ∃ recovered,
    recoverSstables opened = (.ok (), recovered) ∧ after.lsm.logState = recovered.lsm.logState ∧
      recovered.world.Quiet after.world := by
  obtain ⟨rebuilt, reserve, vacant, ⟨recovered, walked, rebuilds⟩, _, _, engine, quiet⟩ := started
  have reindexes := gcRebuild_reindexes recovered
  unfold Effect.Ensures at reindexes
  rw [rebuilds] at reindexes
  refine ⟨recovered, walked, ?_, reindexes.quiet.trans quiet⟩
  rw [engine, reindexes.engine]
  rfl

omit [Kernel] in
/-- The device is too small for sequence numbers to wrap around. -/
theorem Opened.tables_few {params : Params} {logicalSectors uuid : Nat} {world : World} {data : List Extent} {opened : Machine}
    (opening : Opened params logicalSectors uuid world opened.world data log opened.lsm)
    (split : world.geometry.zones = data ++ [log]) {sector : Nat} {tables : List (Memtable × Nat)}
    (last : ZnsBase.logEnd (sector + blockSectors) tables ≤ opened.lsm.metaWp) : 1 + tables.length < 2 ^ 64 := by
  have capacity := world.geometry.capacity_le log (by rw [split]; simp)
  have zone := world.geometry.bounded log (by rw [split]; simp)
  have ends := opening.logEnd
  have room := le_logEnd (sector + blockSectors) tables
  have size : blockSectors = 8 := rfl
  omega

section Start
variable {params : Params} {logicalSectors uuid : Nat} {world : World} {data : List Extent}
  {opened after : Machine} (complete : CompleteLog world data log)
  (opening : Opened params logicalSectors uuid world opened.world data log opened.lsm)
include complete opening

theorem CompleteLog.tiled : ∃ tables : List Memtable, Tiled opened.world.media (log.start + blockSectors) (tables.zipIdx 1) ∧
    logEnd (log.start + blockSectors) (tables.zipIdx 1) = opened.lsm.metaWp := by
  obtain ⟨middle, quiet, logged⟩ := opening.opening
  generalize same : (⟨opened.lsm.metaStart, opened.lsm.metaWp, opened.lsm.metaEnd, opened.lsm.super⟩ : Metadata) = metadata
    at logged
  have pointer : opened.lsm.metaWp = metadata.metaWp := by rw [← same]
  rw [pointer, quiet.media]
  cases logged with
  | formatted ends landed later dataWrites => exact ⟨[], trivial, rfl⟩
  | found still ends used decoded matched =>
    rcases complete with empty | ⟨open_, tables, tiled, last⟩
    · exact absurd (ends.trans empty.symm) used
    · refine ⟨tables, by rw [still.media]; exact tiled, last.trans ?_⟩
      rw [World.LogEnd, if_neg open_] at ends
      exact ends.symm

theorem CompleteLog.pointer (plain : world.Exact) : opened.world.writePointer data.length = opened.lsm.metaWp := by
  obtain ⟨middle, quiet, logged⟩ := opening.opening
  generalize same : (⟨opened.lsm.metaStart, opened.lsm.metaWp, opened.lsm.metaEnd, opened.lsm.super⟩ : Metadata) = metadata
    at logged
  have pointer : opened.lsm.metaWp = metadata.metaWp := by rw [← same]
  rw [pointer, quiet.writePointer]
  cases logged with
  | formatted ends landed later dataWrites =>
    cases landed with
    | committed accepted device =>
      rw [device.writePointer]
      exact world.commit_exact _ _ _ _ plain.2
  | found still ends used decoded matched =>
    rw [still.writePointer]
    rcases complete with empty | ⟨open_, _⟩
    · exact absurd (ends.trans empty.symm) used
    · rw [World.LogEnd, if_neg open_] at ends
      exact ends.symm

/-- Recovery lists tables it found, in their order. -/
theorem CompleteLog.ordered (split : world.geometry.zones = data ++ [log]) (started : Started opened after) :
    after.lsm.logState.Ordered (log.start + blockSectors) after.lsm.metaWp := by
  obtain ⟨tables, tiled, last⟩ := complete.tiled opening
  have few := opening.tables_few split last.le
  rw [List.length_zipIdx] at few
  have small : ∀ entry ∈ tables.zipIdx 1, entry.2 < 2 ^ 64 := fun entry member =>
    (List.snd_lt_add_of_mem_zipIdx member).trans few
  obtain ⟨recovered, walked, state, _⟩ := started.recovered
  have walk : Effect.Ensures (recoverFrom (opened.lsm.metaWp + 1) (log.start + blockSectors)) opened
      (Walked opened (log.start + blockSectors) (tables.zipIdx 1)) :=
    recoverFrom_walk (tables.zipIdx 1) tiled (.clean last) small (by omega)
  unfold Effect.Ensures at walk
  rw [← (opening.attached split).metaStart, show recoverFrom (opened.lsm.metaWp + 1) (opened.lsm.metaStart + blockSectors) opened =
    (.ok (), recovered) from walked, (opening.attached split).metaStart] at walk
  obtain ⟨_, ⟨missed, parts⟩, adopted, _, _⟩ := walk
  obtain ⟨found, rest, rfl, rfl, rfl⟩ := List.zipIdx_eq_append_iff.mp parts.symm
  rw [List.length_append] at few
  have start : opened.lsm.logState.Ordered (log.start + blockSectors) (log.start + blockSectors) := by
    rw [opening.engine]
    exact ⟨Nat.le_refl _, nofun, .nil, nofun, rfl, rfl⟩
  have next : opened.lsm.nextSstSeq = 1 := by
    rw [opening.engine]
    rfl
  rw [← parts] at tiled last
  have ordered := adopt_ordered found ((tiled_append _ _).mp tiled).1 (by omega) start next
  rw [← adopted, ← state] at ordered
  refine ordered.raise ?_ rfl (Nat.le_refl _) rfl rfl
  have beyond := le_logEnd (logEnd (log.start + blockSectors) (found.zipIdx 1)) (rest.zipIdx (1 + found.length))
  rw [← logEnd_append, last] at beyond
  rw [started.sameLog.metaWp]
  omega

theorem CompleteLog.logging (split : world.geometry.zones = data ++ [log]) (started : Started opened after)
    (plain : world.Exact) (orderly : Orderly world) : Logging after log logicalSectors after.world.metaWrites := by
  have attached := started.attached split opening
  obtain ⟨appended, _⟩ := opening.appended split
  obtain ⟨middle, quiet, logged⟩ := opening.opening
  have index : after.world.logIndex = data.length := by
    rw [World.logIndex, started.device.geometry, appended.geometry, split]
    simp
  refine ⟨started.settled split opening orderly, ⟨?_, ?_, ?_, [], rfl, (by rintro _ ⟨⟩)⟩, ?_⟩
  · have ordered := complete.ordered opening split started
    rw [← attached.metaStart] at ordered
    exact ordered
  · change after.world.writePointer after.world.logIndex = after.lsm.metaWp
    rw [index, started.device.writePointer, complete.pointer opening plain, started.sameLog.metaWp]
  · exact (started.device.fullAtLength.trans appended.fullAtLength).trans plain.2
  · exact fun spills => plain.1 (((spills.later started.device.later).later quiet.later).later logged.later)

end Start

section Runs
variable {params : Params}

section Links
variable {Link : Machine → Machine → Prop} (claim : ∀ machine, Link machine { machine with lsm := machine.lsm.claimFlushVictim })
  (attempt : ∀ machine victim, machine.lsm.flushing = some victim → Link machine (flushVictim victim machine).2)
  (flags : ∀ machine flushInFlight flushPending,
    Link machine { machine with lsm := { machine.lsm with flushInFlight, flushPending } })
include claim attempt

omit [Kernel] in
/-- The flush worker claims tables and attempts them. -/
theorem flushLoop_links (rounds : Nat) (machine : Machine) : Relation.ReflTransGen Link machine (flushLoop rounds machine).2 := by
  induction rounds generalizing machine with
  | zero => exact .refl
  | succ rounds ih =>
    have claims : Relation.ReflTransGen Link machine { machine with lsm := machine.lsm.claimFlushVictim } :=
      .single (claim machine)
    unfold flushLoop
    dsimp only
    cases slot : machine.lsm.claimFlushVictim.flushing with
    | none => exact claims
    | some victim =>
      dsimp only
      have attempts := claims.tail (attempt _ victim slot)
      split
      next ran =>
        rw [ran] at attempts
        exact attempts
      next ran =>
        rw [ran] at attempts
        exact attempts.trans (ih _)

omit [Kernel] in
include flags in
theorem flushWorker_links (machine : Machine) : Relation.ReflTransGen Link machine (flushWorker machine) := by
  unfold flushWorker
  split
  · have begins : Link machine { machine with lsm.flushPending := false } := flags machine machine.lsm.flushInFlight false
    have loops := Relation.ReflTransGen.head begins (flushLoop_links claim attempt 3 _)
    dsimp only
    generalize flushLoop 3 { machine with lsm.flushPending := false } = done at loops
    obtain ⟨failed, after⟩ := done
    dsimp only at loops ⊢
    split
    · exact loops.tail (flags _ false after.lsm.flushPending)
    · unfold maybeQueueFlush
      split
      · exact loops.tail (flags _ true true)
      · exact loops.tail (flags _ false after.lsm.flushPending)
  · exact .refl

end Links

theorem flushWorker_steps (machine : Machine) : Relation.ReflTransGen (Step params) machine (flushWorker machine) :=
  flushWorker_links (fun _ => .claim) (fun _ _ slot => .attempt slot) (fun _ _ _ => .flags _ _) machine

theorem run_steps (events : List Event) (machine : Machine) :
    Relation.ReflTransGen (Step params) machine (run params events machine) := by
  induction events generalizing machine with
  | nil => exact .refl
  | cons event events ih =>
    cases event with
    | bio bio => exact .head (.request bio) (ih _)
    | flushWork => exact (flushWorker_steps machine).trans (ih _)

theorem flushGenerations_steps (generations : List (Option Memtable)) {machine : Machine}
    (residents : ∀ table, some table ∈ generations → table ∈ machine.lsm.residents) :
    Relation.ReflTransGen (Step params) machine (flushGenerations generations machine).2 := by
  induction generations generalizing machine with
  | nil => exact .refl
  | cons generation rest ih =>
    have others : ∀ table, some table ∈ rest → table ∈ machine.lsm.residents :=
      fun table member => residents table (List.mem_cons_of_mem _ member)
    cases generation with
    | none => exact ih others
    | some table =>
      have writes : Step params machine (flushGenerations [some table] machine).2 := .detach (residents table List.mem_cons_self)
      simp only [flushGenerations] at writes ⊢
      split
      next empty =>
        rw [empty] at writes
        exact .head writes (ih others)
      next error notEmpty failed =>
        rw [failed] at writes
        cases error with
        | enodata => exact absurd rfl notEmpty
        | _ => exact .single writes
      next sst done =>
        rw [done] at writes
        exact .head writes (ih others)

/-- A detach, after the last flush work: its attempts are such steps too. -/
theorem flushAllSync_steps (machine : Machine) : Relation.ReflTransGen (Step params) machine (flushAllSync machine).2 := by
  refine flushGenerations_steps _ ?_
  intro table member
  simp only [residents, Generations.tables, List.mem_append]
  simp at member
  rcases member with slot | slot | slot
  · simp [slot]
  · simp [slot]
  · simp [slot]

theorem Logging.steps {origin : List Submission} {first last : Machine} (logging : Logging first log limit origin)
    (reached : Relation.ReflTransGen (Step params) first last) : Logging last log limit origin := by
  induction reached with
  | refl => exact logging
  | tail _ step ih => exact (ih.step step).1

end Runs

end Lsm
end ZnsBase
