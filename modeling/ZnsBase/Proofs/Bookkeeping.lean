import ZnsBase.Proofs.ReadPath

/-! The GC indexes over whole sessions: an update that follows a published mapping
never fails, and the indexes say what lookups say. -/

namespace ZnsBase
open Library

namespace Lsm

section Fresh
variable [Kernel] {machine : Machine} {log : Extent} {limit : Nat} {lossless : Prop}

/-- A block just taken has a free slot, and any mapping can move to it. -/
theorem Coherent.indexable (coherent : Coherent machine log limit lossless) {allocator : Allocator} {index : Nat} {zone : Zone}
    (takes : machine.lsm.allocator.Takes allocator index zone) :
    (∃ slot, physicalToGcSlot { machine.lsm with allocator } zone.writePointer = .ok slot) ∧
      ∀ logicalBlock < machine.lsm.logicalBlocks,
        (updateGcBlockLocation logicalBlock zone.writePointer { machine.lsm with allocator }).1 = .ok () := by
  obtain ⟨taken, fresh⟩ := coherent.take takes
  refine ⟨⟨_, physicalToGcSlot_written taken.attached fresh.place fresh.written⟩, fun logicalBlock bound => ?_⟩
  obtain ⟨old, done, _⟩ := updateGcBlockLocation_fresh taken.attached taken.indexed fresh.place fresh.written fresh.free bound
  exact congrArg Prod.fst done

end Fresh

variable [Kernel]

/-- As long as appendable zones hold whole blocks at the start, no index update
fails after its mapping was published, in any run. -/
theorem gc_bookkeeping_never_fails (params : Params) (uuid logicalSectors physicalSectors sectorsPerBlock : Nat)
    (world after : World) (lsm : Lsm) (narrow : logicalSectors < 2 ^ 64) (whole : WholeBlocks world)
    (ran : engineInit params uuid logicalSectors physicalSectors sectorsPerBlock world = (.ok lsm, after))
    (events : List Event) :
    let machine := run params events ⟨lsm, after⟩
    machine.lsm.gcIndexFailures = 0 ∧
      ∀ sector allocator, machine.lsm.allocator.alloc = (.ok sector, allocator) ∨
          machine.lsm.allocator.allocGc = (.ok sector, allocator) →
        (∃ slot, physicalToGcSlot { machine.lsm with allocator } sector = .ok slot) ∧
          ∀ logicalBlock < machine.lsm.logicalBlocks,
            (updateGcBlockLocation logicalBlock sector { machine.lsm with allocator }).1 = .ok () := by
  obtain ⟨log, start, _⟩ := @engineInit_serving _ False _ _ _ _ _ _ _ _ ran narrow whole nofun
  obtain ⟨serving, _⟩ := start.run params events nofun
  refine ⟨serving.gcIndexFailures, ?_⟩
  rintro sector allocator (allocated | allocated)
  · have spec := Allocator.alloc_spec serving.coherent.attached.zoned
    rw [allocated] at spec
    rcases spec with ⟨index, zone, same, _, takes⟩ | ⟨failed, _⟩
    · cases same
      exact serving.coherent.indexable takes
    · cases failed
  · have spec := Allocator.allocGc_spec (run params events ⟨lsm, after⟩).lsm.allocator
    rw [allocated] at spec
    rcases spec with ⟨zone, same, takes⟩ | ⟨_, failed, _⟩
    · cases same
      exact serving.coherent.indexable takes
    · cases failed

omit [Kernel] in
theorem gc_bookkeeping_fresh : ∃ lsm after,
    engineInit plainParams 0 16 16 blockSectors (World.fresh smallGeometry) = (.ok lsm, after) ∧
      (@run Generations.plainKernel plainParams [writeBlock 0 1] ⟨lsm, after⟩).lsm.gcIndexFailures = 0 := by
  obtain ⟨lsm, after, ran, _⟩ := plain_start
  exact ⟨lsm, after, ran, (@gc_bookkeeping_never_fails Generations.plainKernel plainParams 0 16 16 blockSectors
    (World.fresh smallGeometry) after lsm (by decide) (fresh_wholeBlocks _) ran [writeBlock 0 1]).1⟩

/-- A device whose first zone was left in the middle of a block. -/
def skewedWorld : World :=
  { World.fresh smallGeometry with
    writePointer := fun index => if index = 0 then 4 else (World.fresh smallGeometry).writePointer index
    condition := fun index => if index = 0 then .closed else .empty }

omit [Kernel] in
/-- The allocator takes the zone as it is, and the first write already ends with
a mapping that the indexes refuse. -/
theorem gc_bookkeeping_fails_skewed :
    (@session Generations.plainKernel plainParams 16 skewedWorld [writeBlock 0 1]).map
      (fun machine => (machine.lsm.gcIndexFailures, machine.lsm.writesStopped, machine.lsm.lookupMemtables 0)) =
        some (1, true, .ok 4) := by decide +kernel

/-- The mappings as `latest`, lookups and the reverse maps give them, with the
counts that go along. -/
structure Agree (machine : Machine) : Prop where
  lookups : ∀ logicalBlock sector, machine.lsm.latest logicalBlock = some (encodePhysicalSector sector) ↔
    lookup machine logicalBlock = .ok sector
  slots : ∀ logicalBlock sector, machine.lsm.latest logicalBlock = some (encodePhysicalSector sector) ↔
    ∃ index slot, machine.lsm.physicalToGcSlot sector = .ok (index, slot) ∧
      machine.lsm.gcEntry index slot = encodeLogicalBlock logicalBlock
  counted : ∀ gcZone ∈ machine.lsm.gcZones, gcZone.nrValidBlocks = gcZone.logicalBlocks.countP (· ≠ 0)
  inRange : ∀ logicalBlock, (machine.lsm.latest logicalBlock).isSome → logicalBlock < machine.lsm.logicalBlocks
  total : machine.lsm.validBlocks =
    (List.range machine.lsm.logicalBlocks).countP (fun logicalBlock => (machine.lsm.latest logicalBlock).isSome)
  summed : machine.lsm.validBlocks = (machine.lsm.gcZones.map GcZone.nrValidBlocks).sum
  written : ∀ index slot, machine.lsm.gcEntry index slot ≠ 0 → machine.lsm.Written index slot
  unshared : ∀ logicalBlock other sector, lookup machine logicalBlock = .ok sector → lookup machine other = .ok sector →
    logicalBlock = other

theorem Coherent.agree {machine : Machine} {log : Extent} {limit : Nat} {lossless : Prop}
    (coherent : Coherent machine log limit lossless) (trusted : lossless) : Agree machine := by
  have indexed := coherent.indexed
  have lookups (logicalBlock sector : Nat) : machine.lsm.latest logicalBlock = some (encodePhysicalSector sector) ↔
      lookup machine logicalBlock = .ok sector := by
    rw [lookup_eq coherent trusted, answer_ok, coherent.agrees trusted, Option.map_eq_some_iff]
    constructor
    · rintro ⟨held, found, same⟩
      rw [found, Nat.succ.inj same]
    · exact fun found => ⟨sector, found, rfl⟩
  refine ⟨lookups, fun logicalBlock sector => ?_, indexed.counted, indexed.inRange, indexed.total, indexed.summed,
    indexed.written, fun logicalBlock other sector first second => ?_⟩
  · rw [indexed.located]
    constructor
    · rintro ⟨index, slot, place, held⟩
      have written := indexed.written index slot (by rw [held]; exact encodeLogicalBlock_ne_zero _)
      exact ⟨index, slot, physicalToGcSlot_written coherent.attached place written, held⟩
    · rintro ⟨index, slot, found, held⟩
      exact ⟨index, slot, (physicalToGcSlot_ok found).1, held⟩
  · exact indexed.block_unique coherent.apart ((lookups logicalBlock sector).mpr first) ((lookups other sector).mpr second)

omit [Kernel] in
theorem gcRestoreEntry_error {machine after : Machine} {logicalBlock sector : Nat} {error : Errno}
    (ran : gcRestoreEntry logicalBlock sector machine = (.error error, after)) : after.lsm = machine.lsm := by
  have spec : Effect.Ensures (gcRestoreEntry logicalBlock sector) machine
      (fun result after => ∀ error, result = .error error → after.lsm = machine.lsm) := by
    apply Effect.Ensures.get_bind
    repeat' split
    · exact fun _ _ => rfl
    · exact fun _ _ => rfl
    · exact fun _ _ => rfl
    · exact fun _ _ => rfl
    · exact Effect.Ensures.bind (allocate_same machine) (fun _ _ _ => nofun) (fun _ _ same _ _ => same.1)
  rw [Effect.Ensures, ran] at spec
  exact spec error rfl

end Lsm
end ZnsBase
