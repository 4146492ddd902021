import ZnsBase.Proofs.Sessions

/-! Sequential-write discipline over whole sessions: from any start of the
engine, through any requests and failures, every data write meets the device's
write pointer in a data zone. -/

namespace ZnsBase
open Library

namespace Lsm
variable [Kernel] {log : Extent} {limit : Nat} {view : LogView}

theorem Started.settled {params : Params} {logicalSectors uuid : Nat} {world : World} {data : List Extent}
    {opened after : Machine} (split : world.geometry.zones = data ++ [log])
    (opening : Opened params logicalSectors uuid world opened.world data log opened.lsm) (started : Started opened after)
    (orderly : Orderly world) : Settled after log logicalSectors after.logView := by
  have disciplined := opening.disciplined split orderly
  have quiet := started.device
  refine ⟨⟨started.attached split opening, disciplined.orderly.of_same quiet.geometry quiet.dataWrites, ?_,
    fun _ => started.narrow opening, ?_, ?_, rfl, rfl, .refl _⟩, fun _ => ?_⟩
  · rw [started.residents opening, ← opening.residents]
    exact disciplined.regular
  · rw [started.sameLog.metaWp]
    exact disciplined.logStart
  · rw [started.sameLog.super]
    exact disciplined.logicalSectors
  · intro index zone found room
    rw [started.zones] at found
    rw [quiet.writePointer]
    exact opening.synced split index zone found room

theorem Settled.same {before after : Machine} (settled : Settled before log limit view) (same : Same before after) :
    Settled after log limit view := by
  have undisturbed : Undisturbed (limit < 2 ^ 64) before after := by
    obtain ⟨engine, quiet⟩ := same
    refine ⟨by rw [engine], by rw [engine], quiet, ?_, fun _ => ?_⟩
    · rw [engine]
      exact id
    · rw [engine]
      exact id
  refine ⟨undisturbed.disciplined settled.1, fun running => undisturbed.synced (settled.2 ?_)⟩
  rw [← same.1]
  exact running

theorem Settled.flushWorker {machine : Machine} (settled : Settled machine log limit view) :
    ∃ later, Settled (Lsm.flushWorker machine) log limit later := by
  have flushes := flushWorker_flushes settled.1.flushable
  refine ⟨_, flushes.disciplined settled.1, fun running => flushes.synced (settled.2 ?_)⟩
  rw [← flushes.writesStopped]
  exact running

/-- Every data write starts at the device write pointer of a data zone and fits
in it, and between requests the allocator knows the device's pointers unless
writes are stopped. -/
theorem data_writes_are_sequential (params : Params) (uuid logicalSectors physicalSectors sectorsPerBlock : Nat)
    (world after : World) (lsm : Lsm) (unwritten : world.submitted = [])
    (ran : engineInit params uuid logicalSectors physicalSectors sectorsPerBlock world = (.ok lsm, after))
    (events : List Event) :
    let machine := run params events ⟨lsm, after⟩
    (∀ write ∈ machine.world.submitted, write.lane = .data → InOrder machine.world.geometry.zones.dropLast write) ∧
      (machine.lsm.writesStopped = false → ∀ index zone, machine.lsm.allocator.zones[index]? = some zone →
        zone.CanAppend blockSectors → machine.world.writePointer index = zone.writePointer) := by
  obtain ⟨data, log, split⟩ := engineInit_split ran
  obtain ⟨opened, opening, started⟩ := engineInit_ok split ran
  have orderly : Orderly world := by
    intro write member
    simp [World.dataWrites, unwritten] at member
  have start := started.settled split opening orderly
  obtain ⟨view, settled⟩ : ∃ view, Settled (run params events ⟨lsm, after⟩) log logicalSectors view := by
    refine @run_preserves _ _ (fun machine => ∃ view, Settled machine log logicalSectors view) logicalSectors
      ?_ ?_ ?_ ?_ events _ ⟨_, start⟩
    · rintro machine ⟨_, settled⟩
      exact settled.1.logicalSectors
    · rintro before after ⟨_, settled⟩ same
      exact ⟨_, settled.same same⟩
    · rintro machine sector bytes ⟨view, settled⟩ _ inside
      exact (appendWrite_settled params bytes settled inside).mono fun _ _ settled => ⟨view, settled⟩
    · rintro machine ⟨_, settled⟩
      exact settled.flushWorker
  refine ⟨fun write member data => settled.1.orderly write ?_, settled.2⟩
  simp [World.dataWrites, member, data]

omit [Kernel] in
theorem data_writes_are_sequential_fresh : ∃ lsm after,
    engineInit plainParams 0 16 16 blockSectors (World.fresh smallGeometry) = (.ok lsm, after) ∧
      let machine := @run Generations.plainKernel plainParams [writeBlock 0 1, writeBlock 1 2] ⟨lsm, after⟩
      ∀ write ∈ machine.world.submitted, write.lane = .data → InOrder machine.world.geometry.zones.dropLast write := by
  obtain ⟨lsm, after, ran, _⟩ := plain_start
  exact ⟨lsm, after, ran, (@data_writes_are_sequential Generations.plainKernel plainParams 0 16 16 blockSectors
    (World.fresh smallGeometry) after lsm rfl ran [writeBlock 0 1, writeBlock 1 2]).1⟩

end Lsm
end ZnsBase
