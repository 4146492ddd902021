import ZnsBase.Proofs.Crashes
import ZnsBase.Proofs.Stopped

/-! What leaves the device alone: a target that stopped its writes, and every start
and session without a write on a device that holds a log. -/

namespace ZnsBase
open Library

namespace Lsm

section Stopped
variable [Kernel] {machine : Machine}

/-- A reply after which nothing was written. -/
def Refuses (bio : Bio) : Reply → Prop
  | .killed => True
  | .wrote outcome => outcome.remaining = bio.sectors ∧ ∃ error, outcome.status = .error error
  | _ => False

theorem appendWrite_stopped (params : Params) (sector : Nat) (bytes : Nat → UInt8) (stopped : machine.lsm.writesStopped = true) :
    appendWrite params sector bytes machine = (.error .eio, machine) := by
  simp [appendWrite, stopped]

theorem ioWrite_stopped (params : Params) (bio : Bio) (stopped : machine.lsm.writesStopped = true) :
    Refuses bio (.wrote (ioWrite params bio machine).1) ∧ Same machine (ioWrite params bio machine).2 := by
  unfold ioWrite
  split
  · unfold writePartial
    rw [if_pos stopped]
    exact ⟨⟨rfl, _, rfl⟩, .refl _⟩
  · have allocated := allocate_same machine
    unfold Effect.Ensures at allocated
    split
    next ran =>
      rw [ran] at allocated
      exact ⟨⟨rfl, _, rfl⟩, allocated⟩
    next cloned ran =>
      rw [ran] at allocated
      rw [appendWrite_stopped params _ _ (by rw [allocated.1, stopped])]
      exact ⟨⟨rfl, _, rfl⟩, allocated⟩

/-- A stopped target serves what it can without writing. -/
theorem queueIo_stopped (params : Params) (bio : Bio) (stopped : machine.lsm.writesStopped = true) :
    (bio.op = .write → Refuses bio (queueIo params bio machine).1) ∧ Same machine (queueIo params bio machine).2 := by
  have allocated := allocate_same machine
  unfold Effect.Ensures at allocated
  unfold queueIo
  split
  next ran =>
    rw [ran] at allocated
    exact ⟨fun _ => trivial, allocated⟩
  next queued ran =>
    rw [ran] at allocated
    have stopped : queued.lsm.writesStopped = true := by rw [allocated.1, stopped]
    unfold ioWorker
    cases op : bio.op with
    | read => exact ⟨by rintro ⟨⟩, allocated.trans (ioRead_same bio queued)⟩
    | write =>
      obtain ⟨refuses, same⟩ := ioWrite_stopped params bio stopped
      exact ⟨fun _ => refuses, allocated.trans same⟩
    | flush => exact ⟨by rintro ⟨⟩, allocated.trans (ioFlush_same queued)⟩
    | other => exact ⟨by rintro ⟨⟩, allocated⟩

theorem engineMap_stopped (params : Params) (bio : Bio) (stopped : machine.lsm.writesStopped = true) :
    (bio.op = .write → Refuses bio (engineMap params bio machine).1) ∧ Same machine (engineMap params bio machine).2 := by
  have queued := queueIo_stopped params bio stopped
  unfold engineMap
  cases op : bio.op with
  | flush => exact ⟨by rintro ⟨⟩, queued.2⟩
  | other => exact ⟨by rintro ⟨⟩, .refl _⟩
  | read =>
    refine ⟨by rintro ⟨⟩, ?_⟩
    dsimp only
    split
    · exact queued.2
    · exact .refl _
  | write =>
    dsimp only
    split
    · exact ⟨fun _ => queued.1 op, queued.2⟩
    · exact ⟨fun _ => trivial, .refl _⟩

variable {log : Extent} {limit : Nat}

omit [Kernel] in
theorem Same.flushes {before after : Machine} (same : Same before after) (log : Extent) : Flushes before after log := by
  obtain ⟨lsm, world⟩ := after
  obtain ⟨rfl, quiet⟩ := same
  exact ⟨rfl, rfl, rfl, rfl, Nat.le_refl _, rfl, rfl, rfl, rfl, rfl, rfl, rfl, fun _ member => member, quiet.appended _ _ _,
    quiet.dataWrites, quiet.later⟩

theorem handle_stopped (params : Params) (event : Event) (flushable : Flushable machine log)
    (stopped : machine.lsm.writesStopped = true) : Flushes machine (handle params event machine).2 log := by
  cases event with
  | bio bio => exact (engineMap_stopped params bio stopped).2.flushes log
  | flushWork => exact flushWorker_flushes flushable

/-- From then on only the log moves. -/
theorem run_stopped (params : Params) (events : List Event) (flushable : Flushable machine log)
    (stopped : machine.lsm.writesStopped = true) : Flushes machine (run params events machine) log := by
  induction events generalizing machine with
  | nil => exact .refl _ _
  | cons event events ih =>
    have step := handle_stopped params event flushable stopped
    exact step.trans (ih (step.flushable flushable) (step.writesStopped.trans stopped))

/-- A detach writes to the log only. -/
theorem flushGenerations_flushes (generations : List (Option Memtable)) (flushable : Flushable machine log)
    (regular : ∀ table, some table ∈ generations → table.Regular) : Flushes machine (flushGenerations generations machine).2 log := by
  induction generations generalizing machine with
  | nil => exact .refl _ _
  | cons generation rest ih =>
    have others : ∀ table, some table ∈ rest → table.Regular := fun table member => regular table (List.mem_cons_of_mem _ member)
    cases generation with
    | none => exact ih flushable others
    | some table =>
      obtain ⟨_, _, _, single⟩ := flushGenerations_single flushable (regular table List.mem_cons_self)
      have later := ih (single.flushable flushable) others
      simp only [flushGenerations] at single later ⊢
      generalize sstWrite table machine.lsm.metaWp machine.lsm.metaEnd machine.lsm.nextSstSeq machine.world = written
        at single later ⊢
      obtain ⟨⟨result, consumed⟩, world⟩ := written
      dsimp only at single later ⊢
      cases result with
      | ok => exact single.trans later
      | error error =>
        cases error with
        | enodata => exact single.trans later
        | _ => exact single

theorem engineExit_flushes (flushable : Flushable machine log) : machine.world.Appended (engineExit machine).2
    machine.lsm.allocator.zones.length log machine.lsm.metaWp ∧ (engineExit machine).2.dataWrites = machine.world.dataWrites := by
  have worked := flushWorker_flushes flushable
  have moved := worked.flushable flushable
  have all := worked.trans (flushGenerations_flushes [(flushWorker machine).lsm.flushing, (flushWorker machine).lsm.tables.immutable,
    some (flushWorker machine).lsm.tables.active] moved ?_)
  · exact ⟨all.appended, all.dataWrites⟩
  · intro table member
    refine moved.regular table ?_
    simp only [residents, Generations.tables, List.mem_append]
    simp at member
    rcases member with slot | slot | slot
    · simp [slot]
    · simp [slot]
    · simp [slot]

/-- What a stopped target shows stays the same. -/
theorem Reflects.stopped {contents : Nat → UInt8} (reflects : Reflects machine log limit contents) (params : Params)
    (events : List Event) (stopped : machine.lsm.writesStopped = true) :
    Reflects (run params events machine) log limit contents := by
  induction events generalizing machine with
  | nil => exact reflects
  | cons event events ih =>
    have step := handle_stopped params event reflects.serving.coherent.flushable stopped
    refine ih ?_ (step.writesStopped.trans stopped)
    cases event with
    | bio bio => exact reflects.same (engineMap_stopped params bio stopped).2
    | flushWork => exact (handle_reflects params reflects .flushWork).2

theorem InUse.requests {machine : Machine} {resets : Nat} {past : (Nat → UInt8) → Prop} (inUse : InUse limit machine resets past)
    (params : Params) (bios : List Bio) : ∃ past', InUse limit (run params (bios.map Event.bio) machine) resets past' := by
  induction bios generalizing machine past with
  | nil => exact ⟨past, inUse⟩
  | cons bio bios ih => exact ih (inUse.request params bio)

end Stopped

/-- What a start may do to the device: nothing, unless it has no log yet. -/
structure Spares (before after : World) : Prop where
  geometry : after.geometry = before.geometry
  dataWrites : after.dataWrites = before.dataWrites
  device : before.Quiet after ∨ ∃ data log, before.geometry.zones = data ++ [log] ∧
    before.LogEnd data.length log log.start ∧ before.Appended after data.length log log.start

theorem Spares.of_quiet {before after : World} (quiet : before.Quiet after) : Spares before after :=
  ⟨quiet.geometry, quiet.dataWrites, Or.inl quiet⟩

theorem Spares.behind {world before after : World} (quiet : world.Quiet before) (spares : Spares before after) :
    Spares world after := by
  refine ⟨spares.geometry.trans quiet.geometry, spares.dataWrites.trans quiet.dataWrites, ?_⟩
  rcases spares.device with same | ⟨data, log, split, ends, appended⟩
  · exact Or.inl (quiet.trans same)
  · refine Or.inr ⟨data, log, quiet.geometry ▸ split, ?_, (quiet.appended data.length log log.start).trans appended le_rfl⟩
    rw [World.LogEnd, ← quiet.condition, ← quiet.writePointer]
    exact ends

theorem Spares.ahead {world before after : World} (spares : Spares world before) (quiet : before.Quiet after) :
    Spares world after := by
  refine ⟨quiet.geometry.trans spares.geometry, quiet.dataWrites.trans spares.dataWrites, ?_⟩
  rcases spares.device with same | ⟨data, log, split, ends, appended⟩
  · exact Or.inl (same.trans quiet)
  · exact Or.inr ⟨data, log, split, ends, appended.trans (quiet.appended _ _ _) le_rfl⟩

private theorem superRead_quiet (sector : Nat) (world : World) :
    Effect.Ensures (superRead sector) world (fun _ after => world.Quiet after) := by
  refine Effect.Ensures.bind (allocate_quiet world) ?_ fun _ _ step => step.1
  rintro _ first ⟨quiet, _⟩
  refine Effect.Ensures.bind (blockRead_spec .metadata sector first) ?_ fun _ _ step => quiet.trans step.1
  rintro _ second ⟨quiet', _⟩
  exact quiet.trans quiet'

private theorem superWrite_spares {world : World} {data : List Extent} {log : Extent}
    (split : world.geometry.zones = data ++ [log]) (super : Super) (room : blockSectors ≤ log.capacity)
    (ends : world.LogEnd data.length log log.start) :
    Effect.Ensures (superWrite log.start super) world (fun _ after => Spares world after) := by
  have capacity := Geometry.capacity_le_len (World.logZone split)
  have size : blockSectors = 8 := rfl
  refine Effect.Ensures.bind (allocate_quiet world) ?_ fun _ _ step => .of_quiet step.1
  rintro _ allocated ⟨quiet, _⟩
  have zone : allocated.geometry.zones[data.length]? = some log := by rw [quiet.geometry, World.logZone split]
  refine (blockWrite_spec .metadata _ zone (Nat.le_refl _) (by omega)).mono ?_
  rintro result after ⟨landed, recorded, _⟩
  have appended := landed.appended zone
  refine Spares.behind quiet ⟨appended.geometry, recorded.dataWrites, Or.inr ⟨data, log, ?_, ?_, appended⟩⟩
  · rw [quiet.geometry, split]
  · exact quiet.toSameDevice.logEnd ends

/-- Only an empty log zone is ever written to. -/
theorem openMetadata_spares (world : World) (logicalSectors uuid : Nat) :
    Effect.Ensures (openMetadata world.zoneTable logicalSectors uuid) world (fun _ after => Spares world after) := by
  have here : Spares world world := .of_quiet (.refl _)
  unfold openMetadata
  split
  · exact here
  next zone last =>
    have some_ : world.geometry.zones ≠ [] := by
      intro none_
      rw [World.zoneTable, none_] at last
      cases last
    obtain ⟨data, log, split⟩ := World.exists_split some_
    rw [World.zoneTable_getLast? split] at last
    obtain rfl := Option.some.inj last
    split
    · exact here
    split
    · exact here
    next room =>
      have room : blockSectors ≤ log.capacity := Nat.not_lt.mp room
      split
      · exact here
      refine Effect.Ensures.ofExcept_bind ?_ fun _ _ => here
      intro metaWp found
      split
      next used =>
        refine Effect.Ensures.bind (superRead_quiet log.start world) ?_ fun _ _ quiet => .of_quiet quiet
        intro onDisk after quiet
        exact Effect.Ensures.ofExcept_bind (fun _ _ => .of_quiet quiet) fun _ _ => .of_quiet quiet
      next unused =>
        have start : metaWp = log.start := not_not.mp unused
        have ends : world.LogEnd data.length log log.start := by
          unfold metadataWritePointer at found
          rw [World.LogEnd]
          by_cases full : world.condition data.length = .full
          · rw [if_pos (show (world.report data.length data.length log).condition = .full from full)] at found
            rw [if_pos full]
            exact start.symm.trans (Except.ok.inj found).symm
          · rw [if_neg (show (world.report data.length data.length log).condition ≠ .full from full)] at found
            rw [if_neg full]
            split at found
            · cases found
            · exact start.symm.trans (Except.ok.inj found).symm
        exact Effect.Ensures.bind (superWrite_spares split _ room ends) (fun _ _ spares => spares) fun _ _ spares => spares

theorem startup_quiet (machine : Machine) :
    Effect.Ensures startup machine (fun _ after => machine.world.Quiet after.world) := by
  unfold startup recoverSstables
  refine Effect.Ensures.bind (Effect.Ensures.get_bind (recoverFrom_adopts _ _ machine)) ?_ fun _ _ adopts => adopts.quiet
  intro _ recovered adopts
  refine Effect.Ensures.bind (gcRebuild_reindexes recovered) ?_ fun _ _ reindexes => adopts.quiet.trans reindexes.quiet
  intro _ rebuilt reindexes
  have quiet := adopts.quiet.trans reindexes.quiet
  have chosen : Effect.Ensures (onAllocator fun allocator => chooseReserve allocator allocator.zones.length) rebuilt
      (fun _ after => after.world = rebuilt.world) := rfl
  refine Effect.Ensures.bind chosen ?_ fun _ after same => ?_
  · intro _ reserved same
    have allocated : Effect.Ensures (onWorld (allocateTimes 3)) reserved (fun _ after => reserved.world.Quiet after.world) :=
      Effect.Ensures.zoom (allocateTimes_spec 3 reserved.world) fun _ _ step => step.1
    refine Effect.Ensures.mono allocated fun _ after more => ?_
    rw [same] at more
    exact quiet.trans more
  · rw [same]
    exact quiet

/-- A start, however it ends. -/
theorem engineInit_spares (params : Params) (uuid logicalSectors physicalSectors sectorsPerBlock : Nat) (world : World) :
    Effect.Ensures (engineInit params uuid logicalSectors physicalSectors sectorsPerBlock) world
      (fun _ after => Spares world after) := by
  have opens : Effect.Ensures (openEngine params uuid logicalSectors physicalSectors sectorsPerBlock) world
      (fun _ after => Spares world after) := by
    unfold openEngine
    split
    · exact Spares.of_quiet (.refl _)
    refine Effect.Ensures.bind (allocate_quiet world) ?_ fun _ _ step => .of_quiet step.1
    rintro _ first ⟨quiet, _⟩
    refine Effect.Ensures.bind (zoneTableInit_spec first) ?_ fun _ _ step => .of_quiet (quiet.trans step.1)
    rintro zones second ⟨quiet', ⟨same, _⟩ | ⟨_, failed, _⟩⟩
    · cases same
      have quiet := quiet.trans quiet'
      rw [← quiet'.zoneTable]
      refine Effect.Ensures.bind (openMetadata_spares second logicalSectors uuid) ?_ fun _ _ spares => spares.behind quiet
      intro metadata third spares
      have spares := spares.behind quiet
      refine Effect.Ensures.ofExcept_bind ?_ fun _ _ => spares
      intro allocator _
      refine Effect.Ensures.bind (allocate_quiet third) ?_ fun _ _ step => spares.ahead step.1
      rintro _ fourth ⟨quiet, _⟩
      refine Effect.Ensures.bind (allocateTimes_spec _ fourth) ?_ fun _ _ step => spares.ahead (quiet.trans step.1)
      rintro _ fifth ⟨quiet', _⟩
      exact spares.ahead (quiet.trans quiet')
    · cases failed
  refine Effect.Ensures.bind opens ?_ fun _ _ spares => spares
  intro lsm opened spares
  have started := startup_quiet ⟨lsm, opened⟩
  unfold Effect.Ensures at started ⊢
  unfold startEngine
  split
  next ran =>
    rw [ran] at started
    exact spares.ahead started
  next ran =>
    rw [ran] at started
    exact spares.ahead started

/-- The log zone is not empty. -/
def Logged (world : World) : Prop :=
  ∀ data log, world.geometry.zones = data ++ [log] → ¬ world.LogEnd data.length log log.start

theorem Spares.quiet {before after : World} (spares : Spares before after) (logged : Logged before) : before.Quiet after := by
  rcases spares.device with quiet | ⟨data, log, split, ends, _⟩
  · exact quiet
  · exact absurd ends (logged data log split)

theorem OpenedLog.decoded {world after : World} {data : List Extent} {log : Extent} {logicalSectors uuid : Nat}
    {metadata : Metadata} (opened : OpenedLog world after data log logicalSectors uuid metadata)
    (used : ¬ world.LogEnd data.length log log.start) : superDecode (world.block log.start) = .ok metadata.super := by
  cases opened with
  | found _ _ _ decoded _ => exact decoded
  | formatted ends _ _ _ => exact absurd ends used

/-- Nothing in memory waits to be written. -/
structure Bare (lsm : Lsm) : Prop where
  tables : lsm.tables = ⟨Memtable.init, none⟩
  flushing : lsm.flushing = none
  flushPending : lsm.flushPending = false

theorem engineInit_bare {params : Params} {uuid logicalSectors physicalSectors sectorsPerBlock : Nat} {world after : World}
    {lsm : Lsm} (ran : engineInit params uuid logicalSectors physicalSectors sectorsPerBlock world = (.ok lsm, after)) : Bare lsm := by
  obtain ⟨data, log, split⟩ := engineInit_split ran
  obtain ⟨opened, opening, rebuilt, reserve, zone, done, _, _, engine, _⟩ := engineInit_ok split ran
  obtain ⟨recovered, adopts, reindexes⟩ := done.frame
  have same : lsm = { opened.lsm with
      allocator := lsm.allocator, gcZones := lsm.gcZones, latest := lsm.latest, validBlocks := lsm.validBlocks
      sstables := lsm.sstables, nrSstables := lsm.nrSstables, nrSstEntries := lsm.nrSstEntries
      nextSstSeq := lsm.nextSstSeq } := by
    rw [show lsm = _ from engine, reindexes.engine, adopts.engine]
  rw [same, opening.engine]
  exact ⟨rfl, rfl, rfl⟩

theorem sstWrite_empty {memtable : Memtable} (empty : memtable.root.inorder = []) (startSector endSector seq : Nat) (world : World) :
    world.Quiet (sstWrite memtable startSector endSector seq world).2 := by
  have allocated := allocate_quiet world
  unfold Effect.Ensures at allocated
  unfold sstWrite
  split
  · exact .refl _
  split
  next ran =>
    rw [ran] at allocated
    exact allocated.1
  next ran =>
    rw [ran] at allocated
    rw [empty]
    exact allocated.1

theorem Bare.exit {machine : Machine} (bare : Bare machine.lsm) : machine.world.Quiet (engineExit machine).2 := by
  have worked : flushWorker machine = machine := by
    rw [flushWorker, bare.flushPending]
    rfl
  have written := @sstWrite_empty Memtable.init rfl machine.lsm.metaWp machine.lsm.metaEnd
    machine.lsm.nextSstSeq machine.world
  unfold engineExit flushAllSync
  rw [worked, bare.flushing, bare.tables]
  simp only [flushGenerations]
  generalize sstWrite Memtable.init machine.lsm.metaWp machine.lsm.metaEnd machine.lsm.nextSstSeq machine.world = attempt at written ⊢
  split <;> exact written

section Idle
variable [Kernel]

omit [Kernel] in
def Event.Writes : Event → Prop
  | .bio request => request.op = .write
  | .flushWork => False

theorem engineMap_reads (params : Params) (bio : Bio) (reads : bio.op ≠ .write) (machine : Machine) :
    Same machine (engineMap params bio machine).2 := by
  have queued : Same machine (queueIo params bio machine).2 := by
    have allocated := allocate_same machine
    unfold Effect.Ensures at allocated
    unfold queueIo
    split
    next ran =>
      rw [ran] at allocated
      exact allocated
    next queued ran =>
      rw [ran] at allocated
      unfold ioWorker
      cases op : bio.op with
      | read => exact allocated.trans (ioRead_same bio queued)
      | write => exact absurd op reads
      | flush => exact allocated.trans (ioFlush_same queued)
      | other => exact allocated
  unfold engineMap
  split
  · exact queued
  · split
    · exact queued
    · exact .refl _
  · split
    · exact queued
    · exact .refl _
  · exact .refl _

theorem run_reads (params : Params) (events : List Event) (reads : ∀ event ∈ events, ¬ event.Writes) {machine : Machine}
    (bare : Bare machine.lsm) : Same machine (run params events machine) := by
  induction events generalizing machine with
  | nil => exact .refl _
  | cons event events ih =>
    have rest := fun other member => reads other (List.mem_cons_of_mem _ member)
    have step : Same machine (handle params event machine).2 := by
      cases event with
      | bio bio => exact engineMap_reads params bio (reads _ List.mem_cons_self) machine
      | flushWork =>
        rw [handle, flushWorker, bare.flushPending]
        exact .refl _
    exact step.trans (ih rest (step.1 ▸ bare))

/-- Starts that are refused, and sessions without a write, one after the other, on
a device on which anything may fail. -/
inductive Idle (world : World) : World → Prop
  | none : Idle world world
  | refused {before after : World} (idle : Idle world before) (oracle : Oracle) (params : Params)
      (uuid logicalSectors physicalSectors sectorsPerBlock : Nat) {error : Errno}
      (ran : engineInit params uuid logicalSectors physicalSectors sectorsPerBlock { before with oracle } = (.error error, after)) :
      Idle world after
  | session {before after : World} (idle : Idle world before) (oracle : Oracle) (params : Params)
      (uuid logicalSectors physicalSectors sectorsPerBlock : Nat) {lsm : Lsm}
      (ran : engineInit params uuid logicalSectors physicalSectors sectorsPerBlock { before with oracle } = (.ok lsm, after))
      (events : List Event) (reads : ∀ event ∈ events, ¬ event.Writes) :
      Idle world (engineExit (run params events ⟨lsm, after⟩)).2

/-- The device as it is, apart from what fails next on it. -/
def Untouched (before after : World) : Prop := ∀ oracle, { after with oracle } = { before with oracle }

omit [Kernel] in
theorem Untouched.of_quiet {before after : World} {oracle : Oracle} (quiet : World.Quiet { before with oracle } after) :
    Untouched before after := by
  intro other
  obtain ⟨⟨geometry, writePointer, condition, media, fullAtLength⟩, _, submitted⟩ := quiet
  cases after
  cases before
  cases geometry
  cases writePointer
  cases condition
  cases media
  cases fullAtLength
  cases submitted
  rfl

omit [Kernel] in
theorem Untouched.logged {before after : World} (untouched : Untouched before after) (oracle : Oracle) (logged : Logged before) :
    Logged { after with oracle } := by
  rw [untouched oracle]
  exact logged

theorem Idle.untouched {world after : World} (idle : Idle world after) (logged : Logged world) : Untouched world after := by
  induction idle with
  | none => exact fun _ => rfl
  | @refused before after _ oracle params uuid logicalSectors physicalSectors sectorsPerBlock error ran ih =>
    have spares := engineInit_spares params uuid logicalSectors physicalSectors sectorsPerBlock { before with oracle }
    unfold Effect.Ensures at spares
    rw [ran, ih oracle] at spares
    exact .of_quiet (spares.quiet logged)
  | @session before after _ oracle params uuid logicalSectors physicalSectors sectorsPerBlock lsm ran events reads ih =>
    have spares := engineInit_spares params uuid logicalSectors physicalSectors sectorsPerBlock { before with oracle }
    unfold Effect.Ensures at spares
    rw [ran, ih oracle] at spares
    have bare := engineInit_bare ran
    have served := @run_reads _ params events reads ⟨lsm, after⟩ bare
    have left := @Bare.exit (run params events ⟨lsm, after⟩) (served.1 ▸ bare)
    exact .of_quiet ((spares.quiet logged).trans (served.2.trans left))

/-- A device with a log stays exactly as it is through any number of refused starts
and sessions without a write, and it starts for no length but its own. -/
theorem idle_sessions_leave_the_device (world after : World) (logged : Logged world) (idle : Idle world after) :
    Untouched world after ∧
      ∀ (oracle : Oracle) (params : Params) (uuid logicalSectors physicalSectors sectorsPerBlock : Nat) (lsm : Lsm) (opened : World),
        engineInit params uuid logicalSectors physicalSectors sectorsPerBlock { after with oracle } = (.ok lsm, opened) →
        ∃ data log super, world.geometry.zones = data ++ [log] ∧ superDecode (world.block log.start) = .ok super ∧
          lsm.super = super ∧ super.logicalSectors = logicalSectors := by
  have untouched := idle.untouched logged
  refine ⟨untouched, ?_⟩
  intro oracle params uuid logicalSectors physicalSectors sectorsPerBlock lsm opened ran
  rw [untouched oracle] at ran
  obtain ⟨data, log, split⟩ := engineInit_split ran
  obtain ⟨start, opening, rebuilt, _, _, done, _, _, engine, _⟩ := engineInit_ok split ran
  obtain ⟨recovered, adopts, reindexes⟩ := done.frame
  have same : lsm.super = start.lsm.super := by rw [show lsm = _ from engine, reindexes.engine, adopts.engine]
  obtain ⟨middle, _, opens⟩ := opening.opening
  refine ⟨data, log, lsm.super, split, ?_, rfl, ?_⟩
  · rw [same]
    exact opens.decoded (logged data log split)
  · rw [same]
    exact opens.bounds.2.2.1

omit [Kernel] in
/-- A start that finds no memory. -/
theorem idle_sessions_leave_the_device_starved : ∃ lsm world after,
    engineInit plainParams 0 16 16 blockSectors (World.fresh smallGeometry) = (.ok lsm, world) ∧
      engineInit plainParams 0 16 16 blockSectors
        { world with oracle := { Oracle.calm with alloc := Stream'.const false } } = (.error .enomem, after) ∧
      Untouched world after := by
  obtain ⟨lsm, world, ran, used⟩ := startsAnd_spec (show startsAnd plainParams (World.fresh smallGeometry) (fun _ after =>
      decide (after.geometry.zones = [⟨0, 32, 32⟩, ⟨32, 32, 32⟩, ⟨64, 64, 64⟩] ∧ after.writePointer 2 = 72 ∧
        after.condition 2 ≠ .full)) = true by decide +kernel)
  obtain ⟨zones, pointer, open_⟩ := of_decide_eq_true used
  have logged : Logged world := by
    intro data log split ends
    rw [zones, show [⟨0, 32, 32⟩, ⟨32, 32, 32⟩, ⟨64, 64, 64⟩] = [⟨0, 32, 32⟩, ⟨32, 32, 32⟩] ++ [(⟨64, 64, 64⟩ : Extent)] from rfl]
      at split
    obtain ⟨rfl, same⟩ := List.append_inj' split rfl
    obtain rfl := List.singleton_inj.mp same
    have ends : 64 = if world.condition 2 = .full then 64 + 64 else world.writePointer 2 := ends
    rw [if_neg open_, pointer] at ends
    exact absurd ends (by decide)
  let : Kernel := Generations.plainKernel
  let starved : Oracle := { Oracle.calm with alloc := Stream'.const false }
  obtain ⟨after, refused⟩ : ∃ after, engineInit plainParams 0 16 16 blockSectors { world with oracle := starved } =
      (.error .enomem, after) := ⟨_, rfl⟩
  have idle : Idle world after := .refused .none starved plainParams 0 16 16 blockSectors refused
  exact ⟨lsm, world, after, ran, refused, (idle_sessions_leave_the_device world after logged idle).1⟩

end Idle

end Lsm
end ZnsBase
