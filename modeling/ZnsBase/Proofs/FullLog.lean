import ZnsBase.Proofs.HealthyRuns

/-! The log zone is never cleaned, and the write path does not look at it. What is
in memory at a detach survives exactly if it still fits. -/

namespace ZnsBase
open Library

namespace Lsm

/-- The tables in memory fit in the rest of the log zone. -/
def Fits (lsm : Lsm) : Prop := lsm.metaWp + (lsm.unsaved.map Memtable.logSectors).sum ≤ lsm.metaEnd

instance (lsm : Lsm) : Decidable (Fits lsm) := inferInstanceAs (Decidable (_ ≤ _))

variable [Kernel] {log : Extent}

omit [Kernel] in
private theorem fits_nothing {tables : List Memtable} (short : (tables.map Memtable.logSectors).sum < blockSectors) :
    (tables.map Memtable.logSectors).sum = 0 := by
  cases tables with
  | nil => rfl
  | cons table rest =>
    have size := table.logSectors_pos
    rw [List.map_cons, List.sum_cons] at short
    omega

omit [Kernel] in
/-- Every table takes room, so tables that take none are none. -/
private theorem nothing_left {sector : Nat} {tables written rest : List Memtable}
    (same : sector + (tables.map Memtable.logSectors).sum = sector + (written.map Memtable.logSectors).sum)
    (parts : tables = written ++ rest) : rest = [] := by
  rw [parts, List.map_append, List.sum_append] at same
  cases rest with
  | nil => rfl
  | cons table rest =>
    have size := table.logSectors_pos
    rw [List.map_cons, List.sum_cons] at same
    simp only [blockSectors] at size
    omega

/-- On a healthy device with a usable log zone, a detach writes whatever fits. -/
theorem flushGenerations_fits (generations : List (Option Memtable)) {machine : Machine} (flushable : Flushable machine log)
    (regular : ∀ table, some table ∈ generations → table.Regular) (healthy : machine.world.oracle.Healthy)
    (ends : machine.world.LogEnd machine.lsm.allocator.zones.length log machine.lsm.metaWp)
    (writable : machine.world.condition machine.lsm.allocator.zones.length ≠ .readonly ∧
      machine.world.condition machine.lsm.allocator.zones.length ≠ .offline)
    (fits : machine.lsm.metaWp + ((filledTables generations).map Memtable.logSectors).sum ≤ machine.lsm.metaEnd) :
    (flushGenerations generations machine).2.lsm.metaWp =
      machine.lsm.metaWp + ((filledTables generations).map Memtable.logSectors).sum := by
  induction generations generalizing machine with
  | nil => rfl
  | cons generation generations ih =>
    have others : ∀ table, some table ∈ generations → table.Regular :=
      fun table member => regular table (List.mem_cons_of_mem _ member)
    cases generation with
    | none => exact ih flushable others healthy ends writable fits
    | some table =>
      have write := sstWrite_attached flushable (regular table List.mem_cons_self) machine.lsm.nextSstSeq
      obtain ⟨appended, _, later⟩ := write.appended
      obtain ⟨_, stays⟩ := write.zone_kept (Healthy.dry healthy _) flushable.logStart
      have metaEnd := flushable.attached.metaEnd
      cases ran : sstWrite table machine.lsm.metaWp machine.lsm.metaEnd machine.lsm.nextSstSeq machine.world with
      | mk written world =>
      rw [ran] at write appended later stays
      obtain ⟨goesOn, skips, stops⟩ := flushGenerations_round generations ran
      have onward (metaWp nextSstSeq : Nat) (forward : machine.lsm.metaWp ≤ metaWp)
          (ends : world.LogEnd machine.lsm.allocator.zones.length log metaWp)
          (fits : metaWp + ((filledTables generations).map Memtable.logSectors).sum ≤ machine.lsm.metaEnd) :=
        @ih ⟨{ machine.lsm with metaWp, nextSstSeq }, world⟩
          ⟨(flushable.attached.onDevice appended.geometry).onEngine rfl rfl rfl, flushable.regular, flushable.logStart.trans forward⟩
          others (healthy.later later) ends (stays writable) fits
      cases write with
      | starved quiet sick => exact absurd healthy sick
      | empty quiet nothing =>
        rw [filledTables_empty nothing] at fits ⊢
        rw [skips rfl]
        exact onward _ _ (Nat.le_refl _) (quiet.toSameDevice.logEnd ends) fits
      | short quiet full =>
        rw [sstImage_sectors] at full
        rw [stops _ rfl nofun]
        by_cases nothing : table.root.inorder = []
        · -- The loop ends here, but nothing after this table fits either.
          rw [filledTables_empty nothing] at fits ⊢
          have size : table.logSectors = blockSectors := by rw [Memtable.logSectors, nothing]; rfl
          rw [fits_nothing (by omega)]
        · rw [filledTables_filled nothing, List.map_cons, List.sum_cons] at fits
          omega
      | @wrote _ result count filled room blocks =>
        rw [filledTables_filled filled, List.map_cons, List.sum_cons] at fits ⊢
        have size : (sstImage table machine.lsm.metaWp machine.lsm.nextSstSeq).length * blockSectors = table.logSectors :=
          sstImage_sectors _ _ _
        have least := table.logSectors_pos
        cases result with
        | error error =>
          obtain ⟨_, reports | ⟨_, _, refused⟩⟩ := blocks.stopped error rfl
          · exact absurd reports (healthy.requests _ _)
          · exact absurd (ends.accepts writable.1 writable.2 (by omega)) refused
        | ok value =>
          have all := blocks.complete rfl
          have positive : 0 < count := by
            rw [all, sstImage_length]
            omega
          have ends' := ((blocks.ended (Or.inl rfl)).2 positive).1
          rw [all, size] at ends' goesOn
          rw [goesOn _ rfl, onward _ _ (Nat.le_add_right _ _) ends' (by omega), Nat.add_assoc]

omit [Kernel] in
theorem logEnd_numbered (tables : List Memtable) (sector seq : Nat) :
    logEnd sector (tables.zipIdx seq) = sector + (tables.map Memtable.logSectors).sum := by
  induction tables generalizing sector seq with
  | nil => rfl
  | cons table rest ih => rw [List.zipIdx_cons, logEnd, ih, List.map_cons, List.sum_cons, Nat.add_assoc]

section Room
variable {machine : Machine} {limit : Nat} {before : List (Memtable × Nat)} {written rest : List Memtable}
  (recorded : Recorded machine log limit True True before)
  (detaches : Detaches [machine.lsm.flushing, machine.lsm.tables.immutable, some machine.lsm.tables.active] machine log limit
    True before written rest)
include recorded detaches

/-- The log grows by what a detach writes. -/
theorem Detaches.wrote (healthy : machine.world.oracle.Healthy) :
    (flushAllSync machine).2.lsm.metaWp = machine.lsm.metaWp + (written.map Memtable.logSectors).sum := by
  have held := detaches.held (Or.inr healthy)
  rw [← recorded.held.last, ← logEnd_numbered written _ machine.lsm.nextSstSeq, ← logEnd_append]
  exact held.last.symm

/-- A detach leaves nothing behind exactly if everything fits. -/
theorem Clean.fits_iff (clean : Clean machine log limit) : Fits machine.lsm ↔ rest = [] := by
  have attached := clean.serving.coherent.attached
  have held := detaches.held (Or.inr clean.healthy)
  have parts : machine.lsm.unsaved = written ++ rest := detaches.parts
  have inside : (flushAllSync machine).2.lsm.metaWp ≤ log.start + log.capacity := held.inside
  rw [detaches.wrote recorded clean.healthy] at inside
  rw [Fits, attached.metaEnd]
  constructor
  · intro fits
    rw [← attached.metaEnd] at fits
    have all : (flushAllSync machine).2.lsm.metaWp = machine.lsm.metaWp + (machine.lsm.unsaved.map Memtable.logSectors).sum :=
      flushGenerations_fits _ recorded.settled.1.flushable
        (fun table member => recorded.settled.1.regular table (mem_residents table member)) clean.healthy recorded.held.ends
        (recorded.formatted.writable trivial) fits
    exact nothing_left (all.symm.trans (detaches.wrote recorded clean.healthy)) parts
  · rintro rfl
    rw [parts, List.append_nil]
    exact inside

end Room

/-- Up to the last detach that fits, the target shows what was written. -/
theorem Reaches.shows {limit : Nat} (narrow : limit < 2 ^ 64) {machine : Machine} {contents : Nat → UInt8}
    (reached : Reaches limit (fun detached => Fits detached.lsm) machine contents) :
    ∃ log, Clean machine log limit ∧ disk machine = contents := by
  induction reached with
  | format healthy unformatted whole unwritten ran =>
    obtain ⟨log, clean⟩ := Clean.format narrow healthy unformatted whole unwritten ran
    obtain ⟨tables, residents⟩ := engineInit_formats ran unformatted
    exact ⟨log, clean, disk_unwritten tables residents⟩
  | @event params uninjected event machine contents _ fed ih =>
    obtain ⟨log, clean, shown⟩ := ih
    have reflects : Reflects machine log limit contents := ⟨clean.serving, clean.healthy.distinct, shown⟩
    have next := (handle_reflects params reflects event).2.disk
    cases event with
    | bio bio => exact ⟨log, clean.bio uninjected bio fed, next⟩
    | flushWork => exact ⟨log, clean.flushWorker, next⟩
  | @restart _ _ _ _ oracle machine after lsm contents _ fits healthy ran ih =>
    obtain ⟨log, clean, shown⟩ := ih
    have flushed := flushWorker_flushed clean.serving.coherent fun _ => clean.healthy.distinct
    have clean' := clean.flushWorker
    obtain ⟨before, written, rest, recorded, detaches⟩ := clean'.detaches
    obtain rfl := (clean'.fits_iff recorded detaches).mp fits
    have coherent := clean'.serving.coherent
    obtain ⟨opened, opening, started⟩ := engineInit_ok (detaches.split coherent.attached oracle) ran
    have sstables := detaches.relists coherent.attached oracle opening started healthy
    refine ⟨log, clean'.restart healthy ran, ?_⟩
    rw [detaches.redisked recorded coherent oracle opening started sstables, flushed.disk clean.serving.coherent trivial]
    exact shown

omit [Kernel] in
/-- A log zone for the superblock and one table. -/
def shortLog : Geometry := ⟨[⟨0, 32, 32⟩, ⟨32, 32, 32⟩, ⟨64, 24, 24⟩], by decide, by decide, by decide⟩

/-- What the engine holds when the log is full, and what it wrote to it. -/
structure Overfull (machine : Machine) : Prop where
  refused : (engineExit machine).1 = .error .enospc
  shown : disk machine blockBytes = 2
  full : (flushAllSync (flushWorker machine)).2.lsm.metaWp = (flushWorker machine).lsm.metaWp
  tables : (flushWorker machine).lsm.sstables.map (Sstable.entries (flushWorker machine).world.media) = [[(0, 0)]]
  live : (flushWorker machine).lsm.gcEntry 0 0 ≠ 0
  extents : (flushWorker machine).lsm.allocator.zones.map Zone.extent = [⟨0, 32, 32⟩, ⟨32, 32, 32⟩]

omit [Kernel] in
private theorem shortLog_overfull : ∃ lsm after,
    engineInit eagerParams 0 16 16 blockSectors (World.fresh shortLog) = (.ok lsm, after) ∧
      Overfull (@run Generations.plainKernel eagerParams [writeBlock 0 1, .flushWork, writeBlock 1 2] ⟨lsm, after⟩) := by
  have ends : startsAnd eagerParams (World.fresh shortLog) (fun lsm after =>
        let machine := @run Generations.plainKernel eagerParams [writeBlock 0 1, .flushWork, writeBlock 1 2] ⟨lsm, after⟩
        decide ((engineExit machine).1 = .error .enospc ∧ disk machine blockBytes = 2 ∧
          (flushAllSync (flushWorker machine)).2.lsm.metaWp = (flushWorker machine).lsm.metaWp ∧
          (flushWorker machine).lsm.sstables.map (Sstable.entries (flushWorker machine).world.media) = [[(0, 0)]] ∧
          (flushWorker machine).lsm.gcEntry 0 0 ≠ 0 ∧
          (flushWorker machine).lsm.allocator.zones.map Zone.extent = [⟨0, 32, 32⟩, ⟨32, 32, 32⟩])) = true := by decide +kernel
  obtain ⟨lsm, after, ran, ends⟩ := startsAnd_spec ends
  obtain ⟨refused, shown, full, tables, live, extents⟩ := of_decide_eq_true ends
  exact ⟨lsm, after, ran, refused, shown, full, tables, live, extents⟩

/-- A mapping of the first block of the device to its first sector, where there is
data. -/
private theorem first_restorable {machine opened recovered : Machine} {params : Params} {uuid : Nat} {oracle : Oracle}
    {zone : Zone} {generations : List (Option Memtable)} {before : List (Memtable × Nat)} {written rest : List Memtable}
    (detaches : Detaches generations machine log 16 True before written rest) (attached : Attached machine log)
    (opening : Opened params 16 uuid { (flushGenerations generations machine).2.world with oracle } opened.world
      (machine.lsm.allocator.zones.map Zone.extent) log opened.lsm) (adopts : Adopts opened recovered)
    (resumable : Resumable machine) (first : machine.lsm.allocator.zones[0]? = some zone) (extent : zone.extent = ⟨0, 32, 32⟩)
    (live : machine.lsm.gcEntry 0 0 ≠ 0) : Restorable recovered.lsm [[(0, 0)]].flatten := by
  have reported : recovered.lsm.allocator.zones[0]? = some (machine.world.report 0 0 zone.extent) := by
    rw [adopts.engine]
    dsimp only
    rw [opening.allocator]
    exact detaches.reported attached oracle first
  have logical : recovered.lsm.logicalBlocks = 2 := by
    obtain ⟨_, _, opens⟩ := opening.opening
    rw [adopts.engine]
    exact congrArg (· / blockSectors) opens.bounds.2.2.1
  have backed := resumable.backed 0 zone 0 first live
  have start : zone.startSector = 0 := congrArg Extent.start extent
  rw [start] at backed
  have only {logicalBlock sector : Nat} (held : [[(0, 0)]].flatten.lookup logicalBlock = some sector) :
      logicalBlock = 0 ∧ sector = 0 := by
    rw [List.flatten_singleton, List.lookup_cons] at held
    split at held
    · next same =>
      cases held
      exact ⟨by simpa using same, rfl⟩
    · cases held
  refine ⟨?_, ?_, ?_⟩
  · intro pair member
    rw [List.flatten_singleton, List.mem_singleton] at member
    rw [member, logical]
    decide
  · intro logicalBlock sector held
    obtain ⟨rfl, rfl⟩ := only held
    rw [extent] at reported
    have room : (0 + 1) * blockSectors ≤ 32 := by decide
    exact ⟨0, 0, ⟨_, reported, rfl, room⟩, ⟨_, reported, room, backed⟩⟩
  · intro logicalBlock other sector held held'
    rw [(only held).1, (only held').1]

end Lsm
end ZnsBase
