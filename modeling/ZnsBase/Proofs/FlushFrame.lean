import ZnsBase.Proofs.Discipline

/-! The flush worker's footprint: it appends to the metadata zone and moves
tables, and touches nothing a data write depends on. -/

namespace ZnsBase
open Library

/-- What a flush may change. -/
structure Flushes (before after : Machine) (log : Extent) : Prop where
  allocator : after.lsm.allocator = before.lsm.allocator
  metaStart : after.lsm.metaStart = before.lsm.metaStart
  metaEnd : after.lsm.metaEnd = before.lsm.metaEnd
  super : after.lsm.super = before.lsm.super
  metaWp : before.lsm.metaWp ≤ after.lsm.metaWp
  gcZones : after.lsm.gcZones = before.lsm.gcZones
  latest : after.lsm.latest = before.lsm.latest
  validBlocks : after.lsm.validBlocks = before.lsm.validBlocks
  gcIndexFailures : after.lsm.gcIndexFailures = before.lsm.gcIndexFailures
  writesStopped : after.lsm.writesStopped = before.lsm.writesStopped
  memtableThreshold : after.lsm.memtableThreshold = before.lsm.memtableThreshold
  active : after.lsm.tables.active = before.lsm.tables.active
  residents : ∀ table ∈ after.lsm.residents, table ∈ before.lsm.residents
  appended : before.world.Appended after.world before.lsm.allocator.zones.length log before.lsm.metaWp
  dataWrites : after.world.dataWrites = before.world.dataWrites
  later : before.world.oracle.Later after.world.oracle

theorem Flushes.refl (machine : Machine) (log : Extent) : Flushes machine machine log :=
  ⟨rfl, rfl, rfl, rfl, Nat.le_refl _, rfl, rfl, rfl, rfl, rfl, rfl, rfl, fun _ member => member,
    (World.SameDevice.refl _).appended _ _ _, rfl, .refl _⟩

theorem Flushes.trans {first second third : Machine} {log : Extent} (earlier : Flushes first second log)
    (later : Flushes second third log) : Flushes first third log where
  allocator := later.allocator.trans earlier.allocator
  metaStart := later.metaStart.trans earlier.metaStart
  metaEnd := later.metaEnd.trans earlier.metaEnd
  super := later.super.trans earlier.super
  metaWp := earlier.metaWp.trans later.metaWp
  gcZones := later.gcZones.trans earlier.gcZones
  latest := later.latest.trans earlier.latest
  validBlocks := later.validBlocks.trans earlier.validBlocks
  gcIndexFailures := later.gcIndexFailures.trans earlier.gcIndexFailures
  writesStopped := later.writesStopped.trans earlier.writesStopped
  memtableThreshold := later.memtableThreshold.trans earlier.memtableThreshold
  active := later.active.trans earlier.active
  residents := fun table member => earlier.residents table (later.residents table member)
  appended := earlier.appended.trans (by rw [← earlier.allocator]; exact later.appended) earlier.metaWp
  dataWrites := later.dataWrites.trans earlier.dataWrites
  later := earlier.later.trans later.later

theorem SstWrite.appended {memtable : Memtable} {index startSector seq : Nat} {extent : Extent} {world after : World}
    {written : SstWritten} (write : SstWrite memtable index extent startSector seq world written after) :
    world.Appended after index extent startSector ∧ after.dataWrites = world.dataWrites ∧ world.oracle.Later after.oracle := by
  cases write with
  | empty quiet _ => exact ⟨quiet.appended _ _ _, quiet.dataWrites, quiet.later⟩
  | short quiet _ => exact ⟨quiet.appended _ _ _, quiet.dataWrites, quiet.later⟩
  | starved quiet _ => exact ⟨quiet.appended _ _ _, quiet.dataWrites, quiet.later⟩
  | wrote _ _ blocks => exact ⟨blocks.appended, blocks.dataWrites, blocks.later⟩

/-- What a flush relies on. -/
structure Flushable [Kernel] (machine : Machine) (log : Extent) : Prop where
  attached : Attached machine log
  regular : ∀ table ∈ machine.lsm.residents, table.Regular
  logStart : log.start ≤ machine.lsm.metaWp

theorem Disciplined.flushable [Kernel] {machine : Machine} {log : Extent} {limit : Nat} {view : LogView}
    (disciplined : Disciplined machine log limit view) : Flushable machine log :=
  ⟨disciplined.attached, disciplined.regular, disciplined.logStart⟩

theorem Flushes.flushable [Kernel] {before after : Machine} {log : Extent} (flushes : Flushes before after log)
    (flushable : Flushable before log) : Flushable after log :=
  ⟨(flushable.attached.onDevice flushes.appended.geometry).onEngine flushes.allocator flushes.metaStart flushes.metaEnd,
    fun table member => flushable.regular table (flushes.residents table member), flushable.logStart.trans flushes.metaWp⟩

theorem Flushes.narrow [Kernel] {before after : Machine} {log : Extent} (flushes : Flushes before after log)
    (narrow : before.lsm.Narrow) : after.lsm.Narrow := by
  refine ⟨fun table member => narrow.1 table (flushes.residents table member), ?_⟩
  rw [Lsm.NarrowMaps, flushes.gcZones]
  exact narrow.2

/-- The log moved on, and nothing else a request relies on. -/
theorem Flushes.disciplined [Kernel] {before after : Machine} {log : Extent} {limit : Nat} {view : LogView}
    (flushes : Flushes before after log) (disciplined : Disciplined before log limit view) :
    Disciplined after log limit ⟨after.lsm.logState, after.world.logDevice, view.origin⟩ :=
  ⟨(flushes.flushable disciplined.flushable).attached,
    disciplined.orderly.of_same flushes.appended.geometry flushes.dataWrites,
    (flushes.flushable disciplined.flushable).regular, fun inside => flushes.narrow (disciplined.narrow inside),
    disciplined.logStart.trans flushes.metaWp,
    by rw [flushes.super]; exact disciplined.logicalSectors, rfl, rfl, disciplined.of.later.trans flushes.later⟩

theorem Flushes.synced {before after : Machine} {log : Extent} (flushes : Flushes before after log) (synced : Synced before) :
    Synced after := by
  intro index zone found room
  rw [flushes.allocator] at found
  obtain ⟨bound, _⟩ := List.getElem?_eq_some_iff.mp found
  rw [(flushes.appended.others index (by omega)).1]
  exact synced index zone found room

namespace Lsm

theorem claimFlushVictim_residents (lsm : Lsm) : lsm.claimFlushVictim.residents = lsm.residents := by
  unfold claimFlushVictim residents Generations.tables
  cases parked : lsm.flushing with
  | none => simp
  | some table => simp [parked]

theorem claimFlushVictim_flushes (machine : Machine) (log : Extent) :
    Flushes machine { machine with lsm := machine.lsm.claimFlushVictim } log := by
  have residents := claimFlushVictim_residents machine.lsm
  have kept := Flushes.refl machine log
  unfold claimFlushVictim at residents ⊢
  cases parked : machine.lsm.flushing with
  | some table => exact kept
  | none =>
    rw [parked] at residents
    exact { kept with residents := fun table member => residents ▸ member }

/-- Starting from its own write pointer, the engine moves on by what was consumed. -/
theorem advanceMetaWp_eq (lsm : Lsm) (consumed : Nat) :
    (if consumed ≠ 0 then lsm.advanceMetaWp lsm.metaWp consumed else lsm) = { lsm with metaWp := lsm.metaWp + consumed } := by
  unfold advanceMetaWp
  split
  · rw [if_pos (by omega)]
  next none_ =>
    have zero : consumed = 0 := by omega
    rw [zero]
    rfl

variable [Kernel] {log : Extent}

theorem sstWrite_attached {machine : Machine} {memtable : Memtable} (flushable : Flushable machine log)
    (regular : memtable.Regular) (seq : Nat) :
    SstWrite memtable machine.lsm.allocator.zones.length log machine.lsm.metaWp seq machine.world
      (sstWrite memtable machine.lsm.metaWp machine.lsm.metaEnd seq machine.world).1
      (sstWrite memtable machine.lsm.metaWp machine.lsm.metaEnd seq machine.world).2 := by
  rw [flushable.attached.metaEnd]
  exact sstWrite_spec seq regular flushable.attached.logExtent flushable.logStart

theorem flushVictim_flushes {machine : Machine} {victim : Memtable} (flushable : Flushable machine log)
    (slot : machine.lsm.flushing = some victim) : Flushes machine (flushVictim victim machine).2 log := by
  have regular : victim.Regular := flushable.regular victim (by simp [residents, slot])
  obtain ⟨appended, dataWrites, later⟩ := (sstWrite_attached flushable regular machine.lsm.nextSstSeq).appended
  unfold flushVictim
  dsimp only
  generalize sstWrite victim machine.lsm.metaWp machine.lsm.metaEnd machine.lsm.nextSstSeq machine.world = written
    at appended dataWrites later
  obtain ⟨⟨result, consumed⟩, world⟩ := written
  dsimp only at appended dataWrites later ⊢
  rw [advanceMetaWp_eq]
  split
  all_goals
    refine ⟨rfl, rfl, rfl, rfl, Nat.le_add_right _ _, rfl, rfl, rfl, rfl, rfl, rfl, rfl, ?_, appended, dataWrites, later⟩
    intro table member
    simp only [residents, releaseFlushVictim, publishSstable, List.mem_append] at member ⊢
    simp_all

theorem flushLoop_flushes (rounds : Nat) {machine : Machine} (flushable : Flushable machine log) :
    Flushes machine (flushLoop rounds machine).2 log := by
  induction rounds generalizing machine with
  | zero => exact .refl _ _
  | succ rounds ih =>
    have claims := claimFlushVictim_flushes machine log
    have claimed := claims.flushable flushable
    unfold flushLoop
    dsimp only
    cases slot : machine.lsm.claimFlushVictim.flushing with
    | none => exact claims
    | some victim =>
      dsimp only
      have flushes := claims.trans (flushVictim_flushes claimed slot)
      split
      next ran =>
        rw [ran] at flushes
        exact flushes
      next ran =>
        rw [ran] at flushes
        exact flushes.trans (ih (flushes.flushable flushable))

theorem flushWorker_flushes {machine : Machine} (flushable : Flushable machine log) :
    Flushes machine (flushWorker machine) log := by
  unfold flushWorker
  split
  · have started : Flushable { machine with lsm := { machine.lsm with flushPending := false } } log :=
      ⟨flushable.attached.onEngine rfl rfl rfl, flushable.regular, flushable.logStart⟩
    have flushes := flushLoop_flushes 3 started
    dsimp only
    generalize flushLoop 3 { machine with lsm := { machine.lsm with flushPending := false } } = done at flushes
    obtain ⟨failed, after⟩ := done
    cases failed with
    | true => exact { flushes with }
    | false =>
      simp only [Bool.false_eq_true, if_false]
      unfold maybeQueueFlush
      split
      · exact { flushes with }
      · exact { flushes with }
  · exact .refl _ _

end Lsm
end ZnsBase
