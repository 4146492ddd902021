import ZnsBase.Proofs.Restarts

/-! Targets on devices where nothing fails, over any number of sessions: from a
format, over requests and flushes in any order, over detaches and starts. -/

namespace ZnsBase
open Library

namespace Lsm
variable [Kernel]

omit [Kernel] in
/-- No failure is injected. -/
def Uninjected (params : Params) : Prop :=
  params.failDataWriteAt = 0 ∧ params.failGcMoveWriteAt = 0 ∧ params.failGcZoneResetAt = 0

/-- The states of a target of this many sectors on a device that never fails, each
with what the acknowledged writes left in every byte. The parameters may change
from one event to the next. Memory is enough for a table of all blocks, or at
least it does not run out during a GC. The engine is only detached in states the
guard lets pass. -/
inductive Reaches (limit : Nat) (Guard : Machine → Prop) : Machine → (Nat → UInt8) → Prop
  | format {params : Params} {uuid physicalSectors sectorsPerBlock : Nat} {world after : World} {lsm : Lsm}
      (healthy : world.oracle.Healthy) (unformatted : Unformatted world) (whole : WholeBlocks world)
      (unwritten : world.submitted = [])
      (ran : engineInit params uuid limit physicalSectors sectorsPerBlock world = (.ok lsm, after)) :
      Reaches limit Guard ⟨lsm, after⟩ fun _ => 0
  | event {params : Params} (uninjected : Uninjected params) (event : Event) {machine : Machine} {contents : Nat → UInt8}
      (reached : Reaches limit Guard machine contents)
      (fed : limit / blockSectors < Kernel.entryLimit ∨ (handle params event machine).2.lsm.writesStopped = false) :
      Reaches limit Guard (handle params event machine).2 (contentsAfter contents event (handle params event machine).1)
  | restart {params : Params} {uuid physicalSectors sectorsPerBlock : Nat} {oracle : Oracle} {machine : Machine} {after : World}
      {lsm : Lsm} {contents : Nat → UInt8} (reached : Reaches limit Guard machine contents) (guard : Guard (flushWorker machine))
      (healthy : oracle.Healthy)
      (ran : engineInit params uuid limit physicalSectors sectorsPerBlock { (engineExit machine).2 with oracle } =
        (.ok lsm, after)) : Reaches limit Guard ⟨lsm, after⟩ contents

/-- An append on a device where nothing fails stops no writes. -/
theorem Appends.running {params : Params} {machine after : Machine} {log : Extent} {limit sector : Nat} {bytes : Nat → UInt8}
    {result : Except Errno Unit} (appends : Appends params log limit True sector bytes machine result after)
    (uninjected : Uninjected params) (healthy : machine.world.oracle.Healthy) (roomy : limit / blockSectors < Kernel.entryLimit)
    (running : machine.lsm.writesStopped = false) : after.lsm.writesStopped = false := by
  cases result with
  | ok => exact (appends.written rfl).2.1
  | error error =>
    have fine : Fine params machine := by
      refine ⟨⟨healthy, ?_⟩, uninjected.1, uninjected.2.1, uninjected.2.2⟩
      rw [logicalBlocks, ← appends.beside.sameLog.super, appends.coherent.logicalSectors]
      exact roomy
    exact ((appends.refused error rfl).2 fine running).2.2

/-- Such a state: the engine serves, its log is whole, and nothing has stopped it. -/
structure Clean (machine : Machine) (log : Extent) (limit : Nat) : Prop where
  serving : Serving machine log limit True
  running : machine.lsm.writesStopped = false
  healthy : machine.world.oracle.Healthy
  recorded : ∃ tables, Recorded machine log limit True True tables

section Clean
variable {machine : Machine} {log : Extent} {limit : Nat} (clean : Clean machine log limit)
include clean

theorem Clean.narrow : limit < 2 ^ 64 := clean.serving.coherent.narrow

theorem Clean.ready : Ready machine := clean.serving.ready clean.running

theorem Clean.flushWorker : Clean (Lsm.flushWorker machine) log limit := by
  have distinct := clean.healthy.distinct
  have flushed := flushWorker_flushed clean.serving.coherent fun _ => distinct
  obtain ⟨_, recorded⟩ := clean.recorded
  refine ⟨clean.serving.flushWorker fun _ => distinct, ?_, clean.healthy.later flushed.flushes.later,
    recorded.flushWorker clean.narrow clean.healthy⟩
  rw [flushed.flushes.writesStopped]
  exact clean.running

theorem Clean.bio {params : Params} (uninjected : Uninjected params) (bio : Bio)
    (fed : limit / blockSectors < Kernel.entryLimit ∨ (engineMap params bio machine).2.lsm.writesStopped = false) :
    Clean (engineMap params bio machine).2 log limit := by
  obtain ⟨tables, recorded⟩ := clean.recorded
  obtain ⟨serving, healthy, running⟩ := @engineMap_preserves _ params
    (fun after => Serving after log limit True ∧ after.world.oracle.Healthy ∧
      (limit / blockSectors < Kernel.entryLimit → after.lsm.writesStopped = false)) limit
    (fun after holds => holds.1.coherent.logicalSectors)
    (fun before after holds same => ⟨holds.1.same same, holds.2.1.later same.2.later, by rw [same.1]; exact holds.2.2⟩)
    (fun before sector bytes holds aligned inside => by
      obtain ⟨serving, healthy, running⟩ := holds
      refine (serving.append params bytes aligned inside).mono fun result after done => ?_
      obtain ⟨serving', appends⟩ := done
      exact ⟨serving', healthy.later appends.beside.later, fun roomy => appends.running uninjected healthy roomy (running roomy)⟩)
    bio machine ⟨clean.serving, clean.healthy, fun _ => clean.running⟩
  exact ⟨serving, fed.elim running id, healthy, tables, recorded.beside (recorded.request params bio)⟩

/-- The data zones end in whole blocks, also for the next start. -/
theorem Clean.wholeBlocks {world : World} (geometry : world.geometry = machine.world.geometry)
    (others : ∀ index, index ≠ machine.lsm.allocator.zones.length →
      world.writePointer index = machine.world.writePointer index ∧ world.condition index = machine.world.condition index) :
    WholeBlocks world := by
  have attached := clean.serving.coherent.attached
  intro index extent found room
  rw [geometry, attached.dataExtents, List.getElem?_map] at found
  obtain ⟨zone, known, rfl⟩ := Option.map_eq_some_iff.mp found
  obtain ⟨bound, _⟩ := List.getElem?_eq_some_iff.mp known
  obtain ⟨pointer, condition⟩ := others index (by omega)
  simp only [World.report, pointer, condition, Zone.CanAppend, Zone.endSector, Zone.extent] at room
  rw [pointer]
  cases clean.ready.mirrors index zone known with
  | inUse unfilled _ same readonly offline _ =>
    rw [same]
    refine clean.serving.coherent.aligned zone (List.mem_of_getElem? known) ⟨unfilled, ?_, ?_, ?_⟩
    · exact fun stuck => room.2.1 (readonly.mpr stuck)
    · exact fun gone => room.2.2.1 (offline.mpr gone)
    · rw [← same]
      exact room.2.2.2
  | filled full _ => exact absurd full room.1

end Clean

omit [Kernel] in
theorem Healthy.dry {oracle : Oracle} (healthy : oracle.Healthy) (lane : Lane) : ¬ oracle.Spills lane :=
  fun ⟨n, error, spill, failed⟩ => healthy.requests lane error ⟨n, some spill, failed⟩

section Start
variable {params : Params} {limit uuid : Nat} {world : World} {data : List Extent} {log : Extent} {opened after : Machine}

/-- A start on a whole log leaves such a state. -/
theorem Clean.start {tables : List (Memtable × Nat)} (split : world.geometry.zones = data ++ [log])
    (opening : Opened params limit uuid world opened.world data log opened.lsm) (started : Started opened after)
    (narrow : limit < 2 ^ 64) (healthy : world.oracle.Healthy) (whole : WholeBlocks world) (orderly : Orderly world)
    (logOf : LogOf world data log tables)
    (writable : world.condition data.length ≠ .readonly ∧ world.condition data.length ≠ .offline) : Clean after log limit := by
  have recorded : Recorded after log limit (¬ world.oracle.Reports .metadata .einval) True tables :=
    logOf.recorded split opening started (Healthy.dry healthy _) orderly narrow fun _ => writable
  obtain ⟨_, gcIndexFailures, running⟩ := started.settings opening
  obtain ⟨middle, quiet, logged⟩ := opening.opening
  refine ⟨⟨started.coherent split opening narrow whole fun _ => recorded.genuine, fun _ => started.ready split opening,
    gcIndexFailures⟩, running, healthy.later ((logged.later.trans quiet.later).trans started.device.later), tables, ?_⟩
  exact { recorded with complete := fun _ => recorded.complete (healthy.requests _ _) }

end Start

/-- Where the next start finds the device, and how. -/
theorem Clean.detaches {machine : Machine} {log : Extent} {limit : Nat} (clean : Clean machine log limit) :
    ∃ before written rest, Recorded machine log limit True True before ∧
      Detaches [machine.lsm.flushing, machine.lsm.tables.immutable, some machine.lsm.tables.active] machine log limit True
        before written rest := by
  obtain ⟨before, recorded⟩ := clean.recorded
  obtain ⟨written, rest, detaches⟩ := recorded.detaches clean.narrow clean.healthy.distinct mem_residents
  exact ⟨before, written, rest, recorded, detaches⟩

theorem Clean.restart {machine : Machine} {log : Extent} {limit : Nat} (clean : Clean machine log limit) {params : Params}
    {uuid physicalSectors sectorsPerBlock : Nat} {oracle : Oracle} {after : World} {lsm : Lsm} (healthy : oracle.Healthy)
    (ran : engineInit params uuid limit physicalSectors sectorsPerBlock { (flushAllSync machine).2.world with oracle } =
      (.ok lsm, after)) : Clean ⟨lsm, after⟩ log limit := by
  obtain ⟨before, written, rest, recorded, detaches⟩ := clean.detaches
  have attached := clean.serving.coherent.attached
  have split := detaches.split attached oracle
  obtain ⟨opened, opening, started⟩ := engineInit_ok split ran
  have held := detaches.held (Or.inr clean.healthy)
  have ends := held.ends
  rw [flushGenerations_allocator, ← held.last, ← List.length_map Zone.extent] at ends
  refine Clean.start split opening started clean.narrow healthy (clean.wholeBlocks detaches.appended.geometry detaches.appended.others)
    (recorded.settled.1.orderly.of_same detaches.appended.geometry detaches.dataWrites) (Or.inr ⟨held.tiled, ends, held.numbered⟩) ?_
  rw [List.length_map]
  exact detaches.formatted.writable trivial

theorem Clean.format {params : Params} {limit uuid physicalSectors sectorsPerBlock : Nat} {world after : World} {lsm : Lsm}
    (narrow : limit < 2 ^ 64) (healthy : world.oracle.Healthy) (unformatted : Unformatted world) (whole : WholeBlocks world)
    (unwritten : world.submitted = [])
    (ran : engineInit params uuid limit physicalSectors sectorsPerBlock world = (.ok lsm, after)) :
    ∃ log, Clean ⟨lsm, after⟩ log limit := by
  obtain ⟨data, log, split, empty⟩ := unformatted
  obtain ⟨opened, opening, started⟩ := engineInit_ok split ran
  have orderly : Orderly world := by
    intro write member
    simp [World.dataWrites, unwritten] at member
  refine ⟨log, Clean.start split opening started narrow healthy whole orderly (Or.inl ⟨empty, rfl⟩) ?_⟩
  obtain ⟨middle, _, logged⟩ := opening.opening
  generalize (⟨opened.lsm.metaStart, opened.lsm.metaWp, opened.lsm.metaEnd, opened.lsm.super⟩ : Metadata) = metadata at logged
  cases logged with
  | found _ ends used => exact absurd (ends.trans empty.symm) used
  | formatted _ landed =>
    cases landed with
    | committed accepted => exact ⟨accepted.2.1, accepted.2.2.1⟩

theorem Reaches.clean {limit : Nat} {Guard : Machine → Prop} {machine : Machine} {contents : Nat → UInt8} (narrow : limit < 2 ^ 64)
    (reached : Reaches limit Guard machine contents) : ∃ log, Clean machine log limit := by
  induction reached with
  | format healthy unformatted whole unwritten ran => exact Clean.format narrow healthy unformatted whole unwritten ran
  | event uninjected event _ fed ih =>
    obtain ⟨log, clean⟩ := ih
    cases event with
    | bio bio => exact ⟨log, clean.bio uninjected bio fed⟩
    | flushWork => exact ⟨log, clean.flushWorker⟩
  | restart _ _ healthy ran ih =>
    obtain ⟨log, clean⟩ := ih
    exact ⟨log, clean.flushWorker.restart healthy ran⟩

end Lsm
end ZnsBase
