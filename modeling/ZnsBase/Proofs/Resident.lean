import ZnsBase.Proofs.FullLog
import ZnsBase.Proofs.Lifting

/-! The default threshold is raised until one table holds a mapping for every
logical block. Such an engine never freezes a table, so nothing reaches the log
before the detach, and a detach writes one table. -/

namespace ZnsBase
open Library

namespace Lsm

/-- The engine keeps one mapping per logical block without a freeze. -/
def Spacious (params : Params) (limit : Nat) : Prop :=
  limit / blockSectors < chooseThreshold params.memtableThreshold limit

instance (params : Params) (limit : Nat) : Decidable (Spacious params limit) := inferInstanceAs (Decidable (_ < _))

/-- The default is enough for a target of less than four GiB. -/
theorem spacious_default {params : Params} (default : params.memtableThreshold = 16384) (limit : Nat) :
    Spacious params limit ↔ limit / blockSectors < 2 ^ 20 := by
  rw [Spacious, default, chooseThreshold, if_pos rfl]
  omega

/-- What the largest table over this many logical blocks takes of the log. -/
def tableSectors (blocks : Nat) : Nat := (1 + (blocks + 255) / 256) * blockSectors

/-- Every mapping has room in the active table, and nothing waits behind it. -/
structure Resident [Kernel] (blocks : Nat) (machine : Machine) : Prop where
  room : blocks < machine.lsm.memtableThreshold
  regular : machine.lsm.tables.active.Regular
  within : machine.lsm.tables.active.Within blocks
  immutable : machine.lsm.tables.immutable = none
  flushing : machine.lsm.flushing = none
  flushPending : machine.lsm.flushPending = false
  moved : ∀ index slot, machine.lsm.gcEntry index slot ≤ blocks

/-- A change of one slot shows in that slot at most. -/
private theorem gcEntry_modify {lsm after : Lsm} {index slot entry : Nat} {change : GcZone → GcZone}
    (gcZones : after.gcZones = lsm.gcZones.modify index change)
    (sets : ∀ gcZone, (change gcZone).logicalBlocks = gcZone.logicalBlocks.set slot entry) (other place : Nat) :
    after.gcEntry other place = entry ∨ after.gcEntry other place = lsm.gcEntry other place := by
  unfold gcEntry
  rw [gcZones, List.getElem?_modify]
  cases lsm.gcZones[other]? with
  | none => exact Or.inr rfl
  | some gcZone =>
    by_cases here : index = other
    · change ((if index = other then change gcZone else gcZone).logicalBlocks[place]?).getD 0 = entry ∨
        ((if index = other then change gcZone else gcZone).logicalBlocks[place]?).getD 0 = gcZone.logicalBlocks[place]?.getD 0
      rw [if_pos here, sets, List.getElem?_set]
      split
      next same =>
        split
        · exact Or.inl rfl
        next outside => exact Or.inr (by rw [List.getElem?_eq_none (same ▸ Nat.le_of_not_lt outside)])
      next different => exact Or.inr rfl
    · exact Or.inr (by simp [here])

theorem gcCommit_le {lsm : Lsm} {blocks logicalBlock : Nat} (physicalSector : Nat) (old : Option (Nat × Nat)) (new : Nat × Nat)
    (inside : logicalBlock < blocks) (moved : ∀ index slot, lsm.gcEntry index slot ≤ blocks) (index slot : Nat) :
    (lsm.gcCommit logicalBlock physicalSector old new).gcEntry index slot ≤ blocks := by
  have occupied {vacated : Lsm} (moved : ∀ index slot, vacated.gcEntry index slot ≤ blocks)
      (gcZones : (lsm.gcCommit logicalBlock physicalSector old new).gcZones =
        vacated.gcZones.modify new.1 (GcZone.occupy new.2 (encodeLogicalBlock logicalBlock))) :
      (lsm.gcCommit logicalBlock physicalSector old new).gcEntry index slot ≤ blocks := by
    rcases gcEntry_modify gcZones (fun _ => rfl) index slot with same | same
    · rw [same]
      exact inside
    · rw [same]
      exact moved index slot
  cases old with
  | none => exact occupied moved rfl
  | some place =>
    refine @occupied { lsm with gcZones := lsm.gcZones.modify place.1 (GcZone.vacate place.2) } (fun other spot => ?_) rfl
    rcases @gcEntry_modify lsm { lsm with gcZones := lsm.gcZones.modify place.1 (GcZone.vacate place.2) } _ _ _ _ rfl
      (fun _ => rfl) other spot with same | same
    · rw [same]
      exact Nat.zero_le _
    · rw [same]
      exact moved other spot

theorem updateGcBlockLocation_le {lsm : Lsm} {blocks logicalBlock : Nat} (physicalSector : Nat) (inside : logicalBlock < blocks)
    (moved : ∀ index slot, lsm.gcEntry index slot ≤ blocks) :
    Effect.Ensures (updateGcBlockLocation logicalBlock physicalSector) lsm (fun _ after =>
      (∀ index slot, after.gcEntry index slot ≤ blocks) ∧ after.tables = lsm.tables ∧ after.flushing = lsm.flushing ∧
      after.flushPending = lsm.flushPending ∧ after.memtableThreshold = lsm.memtableThreshold) := by
  unfold Effect.Ensures updateGcBlockLocation
  repeat' split
  all_goals first
    | exact ⟨moved, rfl, rfl, rfl, rfl⟩
    | exact ⟨gcCommit_le physicalSector _ _ inside moved, rfl, rfl, rfl, rfl⟩

section Lift
variable [Kernel] {blocks : Nat} {machine : Machine}

theorem Resident.onEngine {after : Machine} (resident : Resident blocks machine) (same : after.lsm = machine.lsm) :
    Resident blocks after := by
  obtain ⟨lsm, world⟩ := after
  cases same
  exact { resident with }

theorem nrEntries_le_of_within {table : Memtable} (regular : table.Regular) (within : table.Within blocks) :
    table.nrEntries ≤ blocks := by
  have distinct : (table.root.inorder.map Entry.logicalBlock).Nodup := by
    rw [List.Nodup, List.pairwise_map]
    exact regular.ordered.imp (fun less => less.ne)
  have inside : table.root.inorder.map Entry.logicalBlock ⊆ List.range blocks := by
    intro block held
    obtain ⟨entry, present, rfl⟩ := List.mem_map.mp held
    exact List.mem_range.mpr (within entry present)
  have count := (distinct.subperm inside).length_le
  rw [regular.counted]
  simpa using count

/-- A put finds room for its entry below the threshold. -/
theorem putActive_resident {tables : Generations} {threshold logicalBlock : Nat} (physicalSector : Nat)
    (room : blocks < threshold) (regular : tables.active.Regular) (within : tables.active.Within blocks)
    (inside : logicalBlock < blocks) (world : World) :
    Effect.Ensures (tables.putActive threshold logicalBlock physicalSector) world (fun result _ =>
      ∀ put, result = .ok put → put.active.Regular ∧ put.active.Within blocks ∧ put.immutable = tables.immutable) := by
  unfold Generations.putActive Generations.putActiveWithOps
  rw [if_neg (Nat.ne_of_gt (Nat.zero_lt_of_lt room))]
  refine Effect.Ensures.bind (tables.active.put_spec logicalBlock physicalSector world) ?_ (fun _ _ _ => nofun)
  rintro stored after ⟨_, ⟨same, roomy⟩ | ⟨failed, _⟩⟩
  · cases same
    have storedRegular : (tables.active.store logicalBlock physicalSector).Regular :=
      Memtable.store_regular physicalSector regular roomy
    have storedWithin : (tables.active.store logicalBlock physicalSector).Within blocks := by
      intro entry member
      rcases (Memtable.mem_store regular.ordered physicalSector entry).mp member with ⟨_, old⟩ | new
      · exact within entry old
      · rw [new]
        exact inside
    have small : (tables.active.store logicalBlock physicalSector).size < threshold :=
      Nat.lt_of_le_of_lt (nrEntries_le_of_within storedRegular storedWithin) room
    rw [if_pos small]
    rintro put same
    cases same
    exact ⟨storedRegular, storedWithin, rfl⟩
  · cases failed

theorem publishWrite_resident {logicalBlock : Nat} (physicalSector : Nat) (resident : Resident blocks machine)
    (inside : logicalBlock < blocks) :
    Effect.Ensures (publishWrite (logicalBlock * blockSectors) physicalSector) machine (fun _ after => Resident blocks after) := by
  have device (machine : Machine) (world : World) (resident : Resident blocks machine) :
      Resident blocks { machine with world } := { resident with }
  have block : logicalBlock * blockSectors / blockSectors = logicalBlock := Nat.mul_div_cancel _ (by decide)
  unfold publishWrite
  dsimp only
  rw [block]
  refine Effect.Ensures.bind (onWorld_keeps _ device resident) (fun _ taken resident => ?_) fun _ _ resident => resident
  have put : Effect.Ensures (putActive logicalBlock physicalSector) taken (fun _ after => Resident blocks after) := by
    apply Effect.Ensures.get_bind
    have stored : Effect.Ensures
        (onWorld (taken.lsm.tables.putActive taken.lsm.memtableThreshold logicalBlock physicalSector)) taken
        (fun result after => after.lsm = taken.lsm ∧ ∀ put, result = .ok put →
          put.active.Regular ∧ put.active.Within blocks ∧ put.immutable = taken.lsm.tables.immutable) :=
      onWorld_ensures ((putActive_resident physicalSector resident.room resident.regular resident.within inside
        taken.world).mono fun _ _ spec => ⟨rfl, spec⟩)
    refine Effect.Ensures.bind stored (fun tables after spec => ?_) fun _ after spec => resident.onEngine spec.1
    obtain ⟨regular, within, immutable⟩ := spec.2 tables rfl
    have held := resident.onEngine spec.1
    exact { held with regular, within, immutable := immutable.trans resident.immutable }
  refine Effect.Ensures.bind put (fun _ stored resident => ?_) fun _ _ resident => resident
  have indexed : Effect.Ensures (onLsm (updateGcBlockLocation logicalBlock physicalSector)) stored
      (fun _ after => Resident blocks after) :=
    Effect.Ensures.zoom (updateGcBlockLocation_le physicalSector inside resident.moved) fun _ after spec =>
      ⟨by rw [spec.2.2.2.2]; exact resident.room, by rw [spec.2.1]; exact resident.regular, by rw [spec.2.1]; exact resident.within,
        by rw [spec.2.1]; exact resident.immutable, by rw [spec.2.2.1]; exact resident.flushing,
        by rw [spec.2.2.2.1]; exact resident.flushPending, spec.1⟩
  refine Effect.Ensures.attempt_bind indexed fun result after resident => ?_
  cases result with
  | error error => exact { resident with }
  | ok value =>
    have idle : maybeQueueFlush after.lsm = after.lsm := by
      unfold maybeQueueFlush
      rw [resident.immutable, resident.flushing]
      exact if_neg (by simp)
    change Resident blocks { after with lsm := maybeQueueFlush after.lsm }
    rw [idle]
    exact resident

theorem resident_survives (blocks : Nat) : Survives (Resident blocks) (· < blocks) where
  world machine world resident := { resident with }
  publish machine logicalBlock sector resident inside := publishWrite_resident sector resident inside
  allocator machine allocator resident := { resident with }
  moves machine _ _ resident := { resident with }
  rounds machine _ _ _ _ resident := { resident with }
  entries machine index slot resident filled := by
    have bound := resident.moved index slot
    have positive := Nat.pos_of_ne_zero filled
    simp only [decodeLogicalBlock]
    omega

/-- No write freezes a table. -/
theorem appendWrite_resident (params : Params) {limit sector : Nat} (bytes : Nat → UInt8) (whole : limit % blockSectors = 0)
    (aligned : sector % blockSectors = 0) (inside : sector < limit) (resident : Resident (limit / blockSectors) machine) :
    Effect.Ensures (appendWrite params sector bytes) machine (fun _ after => Resident (limit / blockSectors) after) := by
  have block : sector / blockSectors * blockSectors = sector := Nat.div_mul_cancel (Nat.dvd_of_mod_eq_zero aligned)
  have known : sector / blockSectors < limit / blockSectors := by
    simp only [blockSectors] at whole aligned ⊢
    omega
  have appended := (resident_survives _).append (fun _ _ resident => { resident with }) params known bytes resident
  rwa [block] at appended

/-- The flush worker finds nothing to do. -/
theorem Resident.flushWorker (resident : Resident blocks machine) : Lsm.flushWorker machine = machine := by
  unfold Lsm.flushWorker
  rw [resident.flushPending]
  rfl

/-- All that is in memory is one table. -/
theorem Resident.unsaved (resident : Resident blocks machine) :
    machine.lsm.unsaved = filledTables [some machine.lsm.tables.active] := by
  rw [Lsm.unsaved, resident.immutable, resident.flushing]
  rfl

theorem logSectors_le {table : Memtable} (regular : table.Regular) (within : table.Within blocks) :
    table.logSectors ≤ tableSectors blocks := by
  have count := nrEntries_le_of_within regular within
  rw [regular.counted] at count
  refine Nat.mul_le_mul_right _ (Nat.add_le_add_left (Nat.div_le_div_right ?_) _)
  exact Nat.add_le_add_right count _

theorem Resident.sectors_le (resident : Resident blocks machine) :
    (machine.lsm.unsaved.map Memtable.logSectors).sum ≤ tableSectors blocks := by
  rw [resident.unsaved]
  by_cases nothing : machine.lsm.tables.active.root.inorder = []
  · rw [filledTables_empty nothing]
    exact Nat.zero_le _
  · rw [filledTables_filled nothing]
    exact logSectors_le resident.regular resident.within

/-- A detach tries one table. -/
theorem Resident.detaches {log : Extent} (resident : Resident blocks machine) (flushable : Flushable machine log) :
    (flushAllSync machine).2.lsm.metaWp ≤ machine.lsm.metaWp + tableSectors blocks := by
  have size := logSectors_le resident.regular resident.within
  have write := sstWrite_attached flushable resident.regular machine.lsm.nextSstSeq
  have consumed : (sstWrite machine.lsm.tables.active machine.lsm.metaWp machine.lsm.metaEnd machine.lsm.nextSstSeq
      machine.world).1.consumed ≤ tableSectors blocks := by
    generalize sstWrite machine.lsm.tables.active machine.lsm.metaWp machine.lsm.metaEnd machine.lsm.nextSstSeq
      machine.world = ran at write
    obtain ⟨written, after⟩ := ran
    cases write with
    | empty | short | starved => exact Nat.zero_le _
    | @wrote _ result count _ _ blocks =>
      have whole : (sstImage machine.lsm.tables.active machine.lsm.metaWp machine.lsm.nextSstSeq).length * blockSectors =
        machine.lsm.tables.active.logSectors := sstImage_sectors _ _ _
      have part : count ≤ (sstImage machine.lsm.tables.active machine.lsm.metaWp machine.lsm.nextSstSeq).length := by
        cases result with
        | ok value => exact (blocks.complete rfl).le
        | error error => exact (blocks.stopped error rfl).1.le
      exact (Nat.mul_le_mul_right _ part).trans (whole.le.trans size)
  unfold flushAllSync
  rw [resident.immutable, resident.flushing, flushGenerations, flushGenerations]
  obtain ⟨goesOn, skips, stops⟩ := flushGenerations_round [] (show sstWrite machine.lsm.tables.active machine.lsm.metaWp
    machine.lsm.metaEnd machine.lsm.nextSstSeq machine.world = (_, _) from rfl)
  cases result : (sstWrite machine.lsm.tables.active machine.lsm.metaWp machine.lsm.metaEnd machine.lsm.nextSstSeq
      machine.world).1.result with
  | ok sst =>
    rw [goesOn sst result]
    exact Nat.add_le_add_left consumed _
  | error error =>
    by_cases empty : error = .enodata
    · rw [empty] at result
      rw [skips result]
      exact Nat.add_le_add_left consumed _
    · rw [stops error result empty]
      exact Nat.add_le_add_left consumed _

end Lift

section Start
variable [Kernel] {params : Params} {limit uuid : Nat} {world : World} {data : List Extent} {log : Extent} {opened after : Machine}

/-- A start leaves the active table empty, and the moved blocks are in range. -/
theorem Resident.start (spacious : Spacious params limit) (split : world.geometry.zones = data ++ [log])
    (opening : Opened params limit uuid world opened.world data log opened.lsm) (started : Started opened after) :
    Resident (limit / blockSectors) after := by
  obtain ⟨_, flushPending, tables, flushing⟩ := started.idle opening
  obtain ⟨indexed, _⟩ := started.restored split opening fun sst member => (started.placed opening sst member).1
  obtain ⟨_, _, logged⟩ := opening.opening
  have sectors : after.lsm.super.logicalSectors = limit := by
    rw [started.sameLog.super]
    exact logged.bounds.2.2.1
  refine ⟨?_, ?_, ?_, ?_, flushing, flushPending, fun index slot => ?_⟩
  · rw [(started.settings opening).1]
    exact spacious
  · rw [tables]
    exact Memtable.init_regular
  · rw [tables]
    intro entry member
    cases member
  · rw [tables]
  · by_cases held : after.lsm.gcEntry index slot = 0
    · rw [held]
      exact Nat.zero_le _
    · obtain ⟨logicalBlock, entry⟩ : ∃ logicalBlock, after.lsm.gcEntry index slot = encodeLogicalBlock logicalBlock :=
        ⟨_, (Nat.succ_pred held).symm⟩
      obtain ⟨sector, place⟩ := (indexed.written index slot held).slotAt
      have located := (indexed.located logicalBlock sector).mpr ⟨index, slot, place, entry⟩
      have inside := indexed.inRange logicalBlock (by rw [located]; rfl)
      rw [logicalBlocks, sectors] at inside
      rw [entry]
      exact inside

end Start

section Runs
variable [Kernel] {machine : Machine} {log : Extent} {limit : Nat}

/-- One event leaves it so. -/
theorem Resident.handle {view : LogView} (params : Params) (event : Event) (whole : limit % blockSectors = 0)
    (settled : Settled machine log limit view) (resident : Resident (limit / blockSectors) machine) :
    Settled (Lsm.handle params event machine).2 log limit view ∧
      Resident (limit / blockSectors) (Lsm.handle params event machine).2 := by
  cases event with
  | flushWork =>
    change Settled (Lsm.flushWorker machine) log limit view ∧ Resident (limit / blockSectors) (Lsm.flushWorker machine)
    rw [resident.flushWorker]
    exact ⟨settled, resident⟩
  | bio bio =>
    refine @engineMap_preserves _ params (fun machine => Settled machine log limit view ∧ Resident (limit / blockSectors) machine)
      limit ?_ ?_ ?_ bio _ ⟨settled, resident⟩
    · exact fun _ held => held.1.1.logicalSectors
    · exact fun _ _ held same => ⟨held.1.same same, held.2.onEngine same.1⟩
    · exact fun machine sector bytes held aligned inside => (appendWrite_settled params bytes held.1 inside).and
        (appendWrite_resident params bytes whole aligned inside held.2)

theorem Resident.run {view : LogView} (params : Params) (events : List Event) (whole : limit % blockSectors = 0)
    (settled : Settled machine log limit view) (resident : Resident (limit / blockSectors) machine) :
    Settled (Lsm.run params events machine) log limit view ∧
      Resident (limit / blockSectors) (Lsm.run params events machine) := by
  induction events generalizing machine with
  | nil => exact ⟨settled, resident⟩
  | cons event events ih =>
    obtain ⟨settled', resident'⟩ := resident.handle params event whole settled
    exact ih settled' resident'

theorem Resident.session {params : Params} {uuid physicalSectors sectorsPerBlock : Nat} {world after : World} {lsm : Lsm}
    (spacious : Spacious params limit) (unwritten : world.submitted = [])
    (ran : engineInit params uuid limit physicalSectors sectorsPerBlock world = (.ok lsm, after)) (events : List Event) :
    ∃ log, Settled (Lsm.run params events ⟨lsm, after⟩) log limit (Machine.logView ⟨lsm, after⟩) ∧
      Resident (limit / blockSectors) (Lsm.run params events ⟨lsm, after⟩) := by
  obtain ⟨data, log, split⟩ := engineInit_split ran
  obtain ⟨opened, opening, started⟩ := engineInit_ok split ran
  have orderly : Orderly world := by
    intro write member
    simp [World.dataWrites, unwritten] at member
  exact ⟨log, (Resident.start spacious split opening started).run params events opening.whole
    (started.settled split opening orderly)⟩

/-- A session whose threshold is above the number of logical blocks never freezes a
table, whatever fails. The flush worker has nothing to do, the log stays as the
start left it, and the detach adds one table to it at most. -/
theorem spacious_session_leaves_the_log (params : Params) (uuid limit physicalSectors sectorsPerBlock : Nat)
    (spacious : Spacious params limit) (world after : World) (lsm : Lsm) (unwritten : world.submitted = [])
    (ran : engineInit params uuid limit physicalSectors sectorsPerBlock world = (.ok lsm, after)) (events : List Event) :
    let machine := Lsm.run params events ⟨lsm, after⟩
    machine.lsm.tables.immutable = none ∧ machine.lsm.flushing = none ∧
      machine.lsm.tables.active.size ≤ limit / blockSectors ∧ Lsm.flushWorker machine = machine ∧
      machine.lsm.logState = lsm.logState ∧ machine.world.logDevice = after.logDevice ∧
      (flushAllSync machine).2.lsm.metaWp ≤ lsm.metaWp + tableSectors (limit / blockSectors) := by
  obtain ⟨log, settled, resident⟩ := Resident.session spacious unwritten ran events
  have state : (Lsm.run params events ⟨lsm, after⟩).lsm.logState = lsm.logState := settled.1.of.state
  have pointer : (Lsm.run params events ⟨lsm, after⟩).lsm.metaWp = lsm.metaWp := congrArg LogState.metaWp state
  refine ⟨resident.immutable, resident.flushing, nrEntries_le_of_within resident.regular resident.within,
    resident.flushWorker, state, settled.1.of.device, ?_⟩
  rw [← pointer]
  exact resident.detaches settled.1.flushable

omit [Kernel] in
/-- The default of the module parameter. -/
def defaultParams : Params := { plainParams with memtableThreshold := 16384 }

omit [Kernel] in
theorem default_start : ∃ lsm after,
    engineInit defaultParams 0 16 16 blockSectors (World.fresh smallGeometry) = (.ok lsm, after) ∧
      lsm.metaStart = 64 ∧ lsm.metaEnd = 128 := by
  have starts : startsAnd defaultParams (World.fresh smallGeometry) (fun lsm _ =>
      decide (lsm.metaStart = 64 ∧ lsm.metaEnd = 128)) = true := by decide +kernel
  obtain ⟨lsm, after, ran, bounds⟩ := startsAnd_spec starts
  exact ⟨lsm, after, ran, of_decide_eq_true bounds⟩

omit [Kernel] in
theorem spacious_session_leaves_the_log_fresh : ∃ lsm after,
    engineInit defaultParams 0 16 16 blockSectors (World.fresh smallGeometry) = (.ok lsm, after) ∧
      let machine := @Lsm.run Generations.plainKernel defaultParams [writeBlock 0 1, .flushWork, writeBlock 0 2] ⟨lsm, after⟩
      machine.lsm.tables.immutable = none ∧ machine.lsm.logState = lsm.logState := by
  obtain ⟨lsm, after, ran, _⟩ := default_start
  obtain ⟨immutable, _, _, _, state, _⟩ := @spacious_session_leaves_the_log Generations.plainKernel defaultParams 0 16 16
    blockSectors ((spacious_default rfl 16).mpr (by decide)) (World.fresh smallGeometry) after lsm rfl ran
    [writeBlock 0 1, .flushWork, writeBlock 0 2]
  exact ⟨lsm, after, ran, immutable, state⟩

/-- Sessions on a healthy device like those of `Reaches`, but with spacious thresholds
instead of a look at the log. They are counted. -/
inductive Resides (limit : Nat) : Nat → Machine → (Nat → UInt8) → Prop
  | format {params : Params} {uuid physicalSectors sectorsPerBlock : Nat} {world after : World} {lsm : Lsm}
      (spacious : Spacious params limit) (healthy : world.oracle.Healthy) (unformatted : Unformatted world)
      (whole : WholeBlocks world) (unwritten : world.submitted = [])
      (ran : engineInit params uuid limit physicalSectors sectorsPerBlock world = (.ok lsm, after)) :
      Resides limit 1 ⟨lsm, after⟩ fun _ => 0
  | event {params : Params} (uninjected : Uninjected params) (event : Event) {sessions : Nat} {machine : Machine}
      {contents : Nat → UInt8} (resides : Resides limit sessions machine contents)
      (fed : limit / blockSectors < Kernel.entryLimit ∨ (Lsm.handle params event machine).2.lsm.writesStopped = false) :
      Resides limit sessions (Lsm.handle params event machine).2 (contentsAfter contents event (Lsm.handle params event machine).1)
  | restart {params : Params} {uuid physicalSectors sectorsPerBlock : Nat} {oracle : Oracle} {sessions : Nat} {machine : Machine}
      {after : World} {lsm : Lsm} {contents : Nat → UInt8} (resides : Resides limit sessions machine contents)
      (spacious : Spacious params limit) (healthy : oracle.Healthy)
      (ran : engineInit params uuid limit physicalSectors sectorsPerBlock { (engineExit machine).2 with oracle } =
        (.ok lsm, after)) : Resides limit (sessions + 1) ⟨lsm, after⟩ contents

/-- The log begins where the detach before ended. -/
theorem Clean.resumes_at {params : Params} {uuid physicalSectors sectorsPerBlock : Nat} {oracle : Oracle} {after : World} {lsm : Lsm}
    (clean : Clean machine log limit) (ran : engineInit params uuid limit physicalSectors sectorsPerBlock
      { (flushAllSync machine).2.world with oracle } = (.ok lsm, after)) :
    lsm.metaWp = (flushAllSync machine).2.lsm.metaWp := by
  obtain ⟨before, written, rest, recorded, detaches⟩ := clean.detaches
  have attached := clean.serving.coherent.attached
  obtain ⟨opened, opening, started⟩ := engineInit_ok (detaches.split attached oracle) ran
  have ends := (detaches.held (Or.inr clean.healthy)).ends
  rw [flushGenerations_allocator, ← List.length_map Zone.extent] at ends
  obtain ⟨_, _, _, quiet⟩ := (detaches.found oracle).reopened opening
  obtain ⟨middle, still, logged⟩ := opening.opening
  have found := still.toSameDevice.logEnd logged.bounds.2.2.2
  have left : opened.world.LogEnd _ log (flushAllSync machine).2.lsm.metaWp := quiet.toSameDevice.logEnd ends
  calc lsm.metaWp = opened.lsm.metaWp := started.sameLog.metaWp
    _ = (flushAllSync machine).2.lsm.metaWp := found.trans left.symm

/-- What is known of such sessions. -/
private structure Resides.Holds (limit sessions : Nat) (machine : Machine) (contents : Nat → UInt8) : Prop where
  begun : 0 < sessions
  resident : Resident (limit / blockSectors) machine
  reaches : Reaches limit (fun _ => True) machine contents
  pointer : machine.lsm.metaWp ≤ machine.lsm.metaStart + blockSectors + (sessions - 1) * tableSectors (limit / blockSectors)
  fits : machine.lsm.metaStart + blockSectors + (sessions - 1) * tableSectors (limit / blockSectors) ≤ machine.lsm.metaEnd →
    Reaches limit (fun detached => Fits detached.lsm) machine contents

private theorem Resides.holds {sessions : Nat} {contents : Nat → UInt8} (narrow : limit < 2 ^ 64)
    (resides : Resides limit sessions machine contents) : Resides.Holds limit sessions machine contents := by
  induction resides with
  | @format params uuid physicalSectors sectorsPerBlock world after lsm spacious healthy unformatted whole unwritten ran =>
    have start (Guard : Machine → Prop) : Reaches limit Guard ⟨lsm, after⟩ fun _ => 0 :=
      .format healthy unformatted whole unwritten ran
    obtain ⟨data, log, split, empty⟩ := unformatted
    obtain ⟨opened, opening, started⟩ := engineInit_ok split ran
    refine ⟨Nat.one_pos, .start spacious split opening started, start _, ?_, fun _ => start _⟩
    obtain ⟨middle, _, logged⟩ := opening.opening
    rw [started.sameLog.metaWp, started.sameLog.metaStart]
    generalize same : (⟨opened.lsm.metaStart, opened.lsm.metaWp, opened.lsm.metaEnd, opened.lsm.super⟩ : Metadata) = metadata
      at logged
    have pointers : opened.lsm.metaWp = metadata.metaWp ∧ opened.lsm.metaStart = metadata.metaStart := by simp [← same]
    rw [pointers.1, pointers.2]
    cases logged with
    | found _ ends used => exact absurd (ends.trans empty.symm) used
    | formatted => exact Nat.le_add_right _ _
  | @event params uninjected event sessions machine contents _ fed ih =>
    obtain ⟨log, clean⟩ := ih.reaches.clean narrow
    obtain ⟨tables, recorded⟩ := clean.recorded
    obtain ⟨settled, resident⟩ := ih.resident.handle params event clean.serving.coherent.whole recorded.settled
    have state : (Lsm.handle params event machine).2.lsm.logState = machine.lsm.logState := settled.1.of.state
    have metaWp : (Lsm.handle params event machine).2.lsm.metaWp = machine.lsm.metaWp := congrArg LogState.metaWp state
    have metaStart : (Lsm.handle params event machine).2.lsm.metaStart = machine.lsm.metaStart :=
      congrArg LogState.metaStart state
    have metaEnd : (Lsm.handle params event machine).2.lsm.metaEnd = machine.lsm.metaEnd := congrArg LogState.metaEnd state
    refine ⟨ih.begun, resident, .event uninjected event ih.reaches fed, ?_, fun room => ?_⟩
    · rw [metaWp, metaStart]
      exact ih.pointer
    · rw [metaStart, metaEnd] at room
      exact .event uninjected event (ih.fits room) fed
  | @restart params uuid physicalSectors sectorsPerBlock oracle sessions machine after lsm contents _ spacious healthy ran ih =>
    obtain ⟨log, clean⟩ := ih.reaches.clean narrow
    have idle := ih.resident.flushWorker
    have sectors := ih.resident.sectors_le
    have ran' : engineInit params uuid limit physicalSectors sectorsPerBlock
        { (flushAllSync machine).2.world with oracle } = (.ok lsm, after) := by
      have same := ran
      rw [engineExit, idle] at same
      exact same
    have next := clean.restart healthy ran'
    have attached := clean.serving.coherent.attached
    have attached' := next.serving.coherent.attached
    have metaStart : lsm.metaStart = machine.lsm.metaStart := attached'.metaStart.trans attached.metaStart.symm
    have metaEnd : lsm.metaEnd = machine.lsm.metaEnd := attached'.metaEnd.trans attached.metaEnd.symm
    have metaWp : lsm.metaWp = (flushAllSync machine).2.lsm.metaWp := clean.resumes_at ran'
    have grown := ih.resident.detaches clean.serving.coherent.flushable
    have pointer := ih.pointer
    have begun := ih.begun
    have last : sessions * tableSectors (limit / blockSectors) =
        (sessions - 1) * tableSectors (limit / blockSectors) + tableSectors (limit / blockSectors) := by
      rw [← Nat.succ_mul, Nat.succ_eq_add_one, Nat.sub_add_cancel begun]
    have resident : Resident (limit / blockSectors) ⟨lsm, after⟩ := by
      obtain ⟨before, written, rest, recorded, detaches⟩ := clean.detaches
      obtain ⟨opened, opening, started⟩ := engineInit_ok (detaches.split attached oracle) ran'
      exact .start spacious (detaches.split attached oracle) opening started
    refine ⟨Nat.succ_pos _, resident, .restart ih.reaches trivial healthy ran, ?_, fun room => ?_⟩
    · change lsm.metaWp ≤ lsm.metaStart + _ + _
      rw [metaWp, metaStart, Nat.add_sub_cancel]
      omega
    · change lsm.metaStart + _ + _ ≤ lsm.metaEnd at room
      rw [metaStart, metaEnd, Nat.add_sub_cancel] at room
      have fits : Fits (Lsm.flushWorker machine).lsm := by
        rw [idle, Fits]
        omega
      exact .restart (ih.fits (by omega)) fits healthy ran

end Runs

end Lsm
end ZnsBase
