import Mathlib.Algebra.Order.Monoid.Prod
import Mathlib.Data.Nat.Log
import ZnsBase.Library.Metering
import ZnsBase.Proofs.Lifting
import ZnsBase.Proofs.Sessions

/-! How many requests to the device below one request to the target can cost: what the
binary searches read, what a collection moves, what a fragment fetches. -/

namespace ZnsBase
open Library

/-- Requests to the data zones, and requests to the log: how far the device got in its
outcomes. -/
def requests : Meter World (Nat × Nat) where
  Used amount before after :=
    after.oracle.data = before.oracle.data.drop amount.1 ∧ after.oracle.metadata = before.oracle.metadata.drop amount.2
  none _ := ⟨rfl, rfl⟩
  both first second :=
    ⟨by rw [second.1, first.1, Stream'.drop_drop, Prod.fst_add, Nat.add_comm],
      by rw [second.2, first.2, Stream'.drop_drop, Prod.snd_add, Nat.add_comm]⟩

def Lane.price : Lane → Nat × Nat
  | .data => (1, 0)
  | .metadata => (0, 1)

section Device
variable {world : World}

theorem requests_none {after : World} (same : after.oracle = world.oracle) : requests.Within 0 world after :=
  ⟨0, le_rfl, by rw [same]; rfl, by rw [same]; rfl⟩

theorem draw_costs (lane : Lane) : (draw lane).Costs requests lane.price world := by
  cases lane with
  | data => exact ⟨(1, 0), le_rfl, rfl, rfl⟩
  | metadata => exact ⟨(0, 1), le_rfl, rfl, rfl⟩

theorem allocate_costs : allocate.Costs requests 0 world := ⟨0, le_rfl, rfl, rfl⟩

theorem blockRead_costs (lane : Lane) (sector : Nat) : (blockRead lane sector).Costs requests lane.price world := by
  refine (draw_costs lane).bind_free fun fate after _ => ?_
  cases fate with
  | ok => exact .get_bind .pure
  | fail error spill => exact .fail

theorem submit_costs (index : Nat) (extent : Extent) (sector : Nat) (bytes : Nat → UInt8) (fate : Fate) :
    (submit index extent sector bytes fate).Costs requests 0 world := by
  apply Effect.Costs.get_bind
  split
  · cases fate with
    | ok =>
      apply Effect.Costs.of_free
      apply requests_none
      change (world.commit index extent sector bytes).oracle = world.oracle
      unfold World.commit
      split <;> rfl
    | fail error spill =>
      apply Effect.Costs.of_free
      apply requests_none
      cases spill <;> rfl
  · exact .fail

theorem blockWrite_costs (lane : Lane) (sector : Nat) (bytes : Nat → UInt8) :
    (blockWrite lane sector bytes).Costs requests lane.price world := by
  refine (draw_costs lane).bind_free fun fate after _ => ?_
  have recorded : (Effect.modify fun world : World => world.record lane sector : Effect World Errno Unit).Costs requests 0 after :=
    .of_free (requests_none rfl)
  refine recorded.free_bind fun _ noted _ => ?_
  apply Effect.Costs.get_bind
  split
  · exact .fail
  next index _ =>
    split
    · exact .fail
    next extent _ => exact submit_costs index extent sector bytes fate

theorem zoneReset_costs (start : Nat) : (zoneReset start).Costs requests (1, 0) world := by
  refine (draw_costs .data).bind_free fun fate after _ => ?_
  cases fate with
  | fail error spill => exact .fail
  | ok =>
    apply Effect.Costs.get_bind
    split
    · exact .fail
    split
    · exact .fail
    split
    · exact .fail
    · exact .of_free (requests_none rfl)

theorem zoneReportOne_costs (sector : Nat) : (zoneReportOne sector).Costs requests (1, 0) world := by
  refine (draw_costs .data).bind_free fun fate after _ => ?_
  cases fate with
  | fail error spill => exact .fail
  | ok =>
    apply Effect.Costs.get_bind
    split
    · exact .fail
    split
    · exact .fail
    · exact .pure

end Device

/-! The tables in memory cost nothing. -/

section Tables
variable [Kernel] {world : World}

theorem Memtable.put_costs (memtable : Memtable) (logicalBlock physicalSector : Nat) :
    (memtable.put logicalBlock physicalSector).Costs requests 0 world := by
  have entry : memtable.allocateEntry.Costs requests 0 world := by
    refine allocate_costs.free_bind fun _ after _ => ?_
    split
    · exact .pure
    · exact .fail
  exact entry.free_bind fun _ _ _ => .pure

omit [Kernel] in
theorem Memtable.create_costs : Memtable.create.Costs requests 0 world := allocate_costs.free_bind fun _ _ _ => .pure

theorem Memtable.compactCopy_costs (entries : List Entry) (destination : Memtable) :
    (compactCopy entries destination).Costs requests 0 world := by
  induction entries generalizing destination world with
  | nil => exact .pure
  | cons entry rest ih => exact (destination.put_costs _ _).free_bind fun copied _ _ => ih copied

theorem Memtable.compact_costs (older newer : Memtable) : (compact older newer).Costs requests 0 world :=
  create_costs.free_bind fun merged _ _ => (compactCopy_costs _ merged).free_bind fun merged _ _ => compactCopy_costs _ merged

theorem Generations.putActive_costs (tables : Generations) (threshold logicalBlock physicalSector : Nat) :
    (tables.putActive threshold logicalBlock physicalSector).Costs requests 0 world := by
  unfold putActive putActiveWithOps
  split
  · exact .fail
  refine (tables.active.put_costs _ _).free_bind fun active after _ => ?_
  split
  · exact .pure
  split
  · refine Memtable.create_costs.free_attempt_bind fun result _ _ => ?_
    cases result <;> exact .pure
  next immutable _ =>
    refine (Memtable.compact_costs immutable active).free_attempt_bind fun result _ _ => ?_
    cases result with
    | error error => exact .pure
    | ok merged =>
      refine Memtable.create_costs.free_attempt_bind fun result _ _ => ?_
      cases result <;> exact .pure

end Tables

/-! A lookup halves what is left of a table with every block it reads. -/

/-- The blocks a lookup reads to find a key in a table, at most. -/
def Sstable.probes (sst : Sstable) : Nat := Nat.clog 2 (sst.nrBlocks - 1) + 1

section Lookup
variable {world : World} {sst : Sstable}

theorem sstReadPayloadBlock_costs (blockIndex : Nat) (cache : SstCache) :
    (sstReadPayloadBlock sst blockIndex cache).Costs requests (0, 1) world := by
  unfold sstReadPayloadBlock
  split
  · exact .pure
  · exact (blockRead_costs .metadata _).bind_free fun _ _ _ => .pure

private theorem clog_half {count : Nat} (more : 2 ≤ count) :
    ((0, 1) : Nat × Nat) + (0, Nat.clog 2 ((count + 1) / 2)) ≤ (0, Nat.clog 2 count) := by
  refine ⟨le_rfl, ?_⟩
  change 1 + Nat.clog 2 ((count + 1) / 2) ≤ Nat.clog 2 count
  rw [Nat.clog_of_two_le (by decide) more, Nat.add_comm]
  exact le_rfl

theorem sstLocate_costs (logicalBlock rounds low high : Nat) (cache : SstCache) :
    (sstLocate sst logicalBlock rounds low high cache).Costs requests (0, Nat.clog 2 (high + 1 - low)) world := by
  induction rounds generalizing low high cache world with
  | zero => exact .pure
  | succ rounds ih =>
    unfold sstLocate
    split
    next more =>
      have shrinks {left : Nat} (halved : left ≤ (high + 1 - low + 1) / 2) :
          ((0, Nat.clog 2 left) : Nat × Nat) ≤ (0, Nat.clog 2 ((high + 1 - low + 1) / 2)) :=
        ⟨le_rfl, Nat.clog_mono_right 2 halved⟩
      refine Effect.Costs.mono ((sstReadPayloadBlock_costs _ cache).bind fun cache after _ => ?_) (clog_half (by omega))
      split
      · exact (ih _ _ cache).mono (shrinks (by omega))
      · exact (ih _ _ cache).mono (shrinks (by omega))
    · exact .pure

theorem sstLookup_costs (logicalBlock : Nat) : (sstLookup sst logicalBlock).Costs requests (0, sst.probes) world := by
  unfold sstLookup
  split
  · exact .fail
  split
  · exact .fail
  next inside _ =>
    refine allocate_costs.free_bind fun _ granted _ => ?_
    have located := @sstLocate_costs granted sst logicalBlock (sst.nrBlocks - 2 + 1) 0 (sst.nrBlocks - 2) ⟨2 ^ 32 - 1, fun _ => 0⟩
    rw [show sst.nrBlocks - 2 + 1 - 0 = sst.nrBlocks - 1 by omega] at located
    refine Effect.Costs.mono (located.bind fun found after _ => ?_)
      (show ((0, Nat.clog 2 (sst.nrBlocks - 1)) : Nat × Nat) + (0, 1) ≤ (0, sst.probes) from le_rfl)
    exact (sstReadPayloadBlock_costs found.1 found.2).bind_free fun _ _ _ => .ofExcept

/-- What a miss in the tables in memory can cost. -/
def lookupCost (sstables : List Sstable) : Nat := (sstables.map Sstable.probes).sum

theorem lookupSstables_costs (sstables : List Sstable) (logicalBlock : Nat) :
    (Lsm.lookupSstables sstables logicalBlock).Costs requests (0, lookupCost sstables) world := by
  induction sstables generalizing world with
  | nil => exact .fail
  | cons sst rest ih =>
    refine Effect.Costs.mono ((sstLookup_costs logicalBlock).attempt_bind fun result after _ => ?_)
      (show ((0, sst.probes) : Nat × Nat) + (0, lookupCost rest) ≤ _ from le_rfl)
    split
    · exact ih
    · exact .ofExcept

end Lookup

namespace Lsm

/-- The part of the engine that says what requests cost. No request changes it. -/
def outline (machine : Machine) : List Sstable × List Nat := (machine.lsm.sstables, machine.lsm.gcZones.map GcZone.nrBlocks)

def lowerRequests : Meter Machine (Nat × Nat) := requests.along Machine.world outline

/-- No data zone has more blocks. -/
def ZonesUpTo (blocks : Nat) (machine : Machine) : Prop := ∀ size ∈ (outline machine).2, size ≤ blocks

section Engine
variable {machine : Machine} {bound : Nat × Nat}

theorem ZonesUpTo.kept {blocks : Nat} {after : Machine} (sizes : ZonesUpTo blocks machine)
    (within : lowerRequests.Within bound machine after) : ZonesUpTo blocks after := by
  rw [ZonesUpTo, within.framed]
  exact sizes

theorem sstables_kept {after : Machine} (within : lowerRequests.Within bound machine after) :
    after.lsm.sstables = machine.lsm.sstables := congrArg Prod.fst within.framed

theorem onWorld_costs {α : Type} {program : Effect World Errno α} (costs : program.Costs requests bound machine.world) :
    (onWorld program).Costs lowerRequests bound machine := .zoom (fun _ _ => rfl) (fun _ _ => rfl) costs

theorem modifyLsm_costs {change : Lsm → Lsm}
    (kept : ∀ machine : Machine, outline { machine with lsm := change machine.lsm } = outline machine) :
    (modifyLsm change).Costs lowerRequests 0 machine := .of_free (.of_free rfl (kept machine))

theorem read_costs (sector sectors : Nat) :
    (read sector sectors).Costs lowerRequests (0, lookupCost machine.lsm.sstables) machine := by
  unfold read
  split
  · exact .fail
  apply Effect.Costs.get_bind
  split
  · exact onWorld_costs (lookupSstables_costs _ _)
  · exact .ofExcept

theorem fetchBlock_costs (sector : Nat) :
    (fetchBlock sector).Costs lowerRequests (1, lookupCost machine.lsm.sstables) machine := by
  refine Effect.Costs.mono ((read_costs sector blockSectors).attempt_bind fun result after _ => ?_)
    (show ((0, lookupCost machine.lsm.sstables) : Nat × Nat) + (1, 0) ≤ _ by simp)
  split
  · exact .pure
  · exact .fail
  · exact onWorld_costs (blockRead_costs .data _)

/-- The blocks that sectors of the target lie in. -/
def touchedBlocks (sector sectors : Nat) : Nat :=
  if sectors = 0 then 0 else (sector % blockSectors + sectors + (blockSectors - 1)) / blockSectors

/-- Those that they cover in part. -/
def partialBlocks (sector sectors : Nat) : Nat :=
  if sectors = 0 then 0
  else (if sector % blockSectors = 0 then 0 else 1) + (if (sector + sectors) % blockSectors = 0 then 0 else 1)

theorem blocks_of_aligned {sector sectors : Nat} (aligned : ¬ isAlignedIo sector sectors = false) :
    touchedBlocks sector sectors = 1 ∧ partialBlocks sector sectors = 0 := by
  have whole : sectors = blockSectors ∧ sector % blockSectors = 0 := by
    simpa [isAlignedIo] using aligned
  obtain ⟨rfl, start⟩ := whole
  refine ⟨?_, ?_⟩
  · rw [touchedBlocks, start]
    rfl
  · rw [partialBlocks, if_neg (by decide), if_pos start, Nat.add_mod_right, if_pos start]

theorem touchedBlocks_fragment (sector : Nat) {remaining : Nat} (more : remaining ≠ 0) : touchedBlocks sector remaining =
    touchedBlocks (sector + fragmentSectors sector remaining) (remaining - fragmentSectors sector remaining) + 1 := by
  rw [touchedBlocks, if_neg more, touchedBlocks]
  split
  next last =>
    unfold fragmentSectors fragmentOffset at last
    simp only [blockSectors] at last ⊢
    omega
  next further =>
    unfold fragmentSectors fragmentOffset at further ⊢
    simp only [blockSectors] at further ⊢
    omega

theorem readFragments_costs (rounds sector remaining bioOffset : Nat) (bio : Bio) :
    (readFragments rounds sector remaining bioOffset bio).Costs lowerRequests
      (touchedBlocks sector remaining • (1, lookupCost machine.lsm.sstables)) machine := by
  induction rounds generalizing sector remaining bioOffset bio machine with
  | zero => exact .pure
  | succ rounds ih =>
    unfold readFragments
    split
    · exact .pure
    next more =>
      rw [touchedBlocks_fragment sector more, succ_nsmul']
      refine (fetchBlock_costs _).bind fun buffer after within => ?_
      split
      · exact .fail
      · have same := sstables_kept within
        rw [← same]
        exact ih _ _ _ _

theorem readPartial_costs (bio : Bio) :
    (readPartial bio).Costs lowerRequests (touchedBlocks bio.sector bio.sectors • (1, lookupCost machine.lsm.sstables)) machine := by
  refine (onWorld_costs allocate_costs).free_bind fun _ after within => ?_
  have same := sstables_kept within
  rw [← same]
  exact readFragments_costs _ _ _ _ _

theorem ioRead_costs (bio : Bio) :
    (ioRead bio).Costs lowerRequests (touchedBlocks bio.sector bio.sectors • (1, lookupCost machine.lsm.sstables)) machine := by
  unfold ioRead
  split
  · exact readPartial_costs bio
  next aligned =>
    rw [(blocks_of_aligned aligned).1, one_nsmul]
    refine (onWorld_costs allocate_costs).free_bind fun _ after within => ?_
    have same := sstables_kept within
    rw [← same]
    refine Effect.Costs.mono ((read_costs bio.sector bio.sectors).attempt_bind fun result after' _ => ?_)
      (show ((0, lookupCost after.lsm.sstables) : Nat × Nat) + (1, 0) ≤ _ by simp)
    split
    · exact .pure
    · exact .fail
    · exact (onWorld_costs (blockRead_costs .data _)).bind_free fun _ _ _ => .pure

end Engine

section Writes
variable [Kernel] (params : Params) {machine : Machine}

omit [Kernel] in
theorem onAllocator_costs {α : Type} (operation : Allocator → Except Errno α × Allocator) :
    (onAllocator operation).Costs lowerRequests 0 machine := .of_free (.of_free rfl rfl)

omit [Kernel] in
private theorem modify_sizes (gcZones : List GcZone) (index : Nat) {change : GcZone → GcZone}
    (kept : ∀ gcZone, (change gcZone).nrBlocks = gcZone.nrBlocks) :
    (gcZones.modify index change).map GcZone.nrBlocks = gcZones.map GcZone.nrBlocks := by
  apply List.ext_getElem?
  intro other
  simp only [List.getElem?_map, List.getElem?_modify]
  cases gcZones[other]? with
  | none => rfl
  | some gcZone => by_cases here : index = other <;> simp [here, kept]

omit [Kernel] in
private theorem gcCommit_sizes (lsm : Lsm) (logicalBlock physicalSector : Nat) (old : Option (Nat × Nat)) (new : Nat × Nat) :
    (lsm.gcCommit logicalBlock physicalSector old new).gcZones.map GcZone.nrBlocks = lsm.gcZones.map GcZone.nrBlocks := by
  have occupied := fun gcZones : List GcZone => modify_sizes gcZones new.1
    (show ∀ gcZone, (GcZone.occupy new.2 (encodeLogicalBlock logicalBlock) gcZone).nrBlocks = gcZone.nrBlocks from fun _ => rfl)
  cases old with
  | none => exact occupied lsm.gcZones
  | some place =>
    refine (occupied (lsm.gcZones.modify place.1 (GcZone.vacate place.2))).trans ?_
    exact modify_sizes lsm.gcZones place.1 fun _ => rfl

omit [Kernel] in
theorem updateGcBlockLocation_costs (logicalBlock physicalSector : Nat) :
    (onLsm (updateGcBlockLocation logicalBlock physicalSector)).Costs lowerRequests 0 machine := by
  have kept (lsm : Lsm) : (updateGcBlockLocation logicalBlock physicalSector lsm).2.sstables = lsm.sstables ∧
      (updateGcBlockLocation logicalBlock physicalSector lsm).2.gcZones.map GcZone.nrBlocks = lsm.gcZones.map GcZone.nrBlocks := by
    refine ⟨?_, ?_⟩
    · have indexes := updateGcBlockLocation_indexes logicalBlock physicalSector lsm
      unfold Effect.Ensures at indexes
      rw [indexes]
    · unfold updateGcBlockLocation
      repeat' split
      all_goals first | rfl | exact gcCommit_sizes _ _ _ _ _
  exact .of_free (.of_free rfl (Prod.ext (kept machine.lsm).1 (kept machine.lsm).2))

theorem publishWrite_costs (logicalSector physicalSector : Nat) :
    (publishWrite logicalSector physicalSector).Costs lowerRequests 0 machine := by
  refine (onWorld_costs allocate_costs).free_bind fun _ granted _ => ?_
  have put : (putActive (logicalSector / blockSectors) physicalSector).Costs lowerRequests 0 granted := by
    apply Effect.Costs.get_bind
    exact (onWorld_costs (Generations.putActive_costs _ _ _ _)).free_bind fun tables after _ => modifyLsm_costs fun _ => rfl
  refine put.free_bind fun _ stored _ => ?_
  refine (updateGcBlockLocation_costs _ _).free_attempt_bind fun result after _ => ?_
  cases result with
  | error error => exact (modifyLsm_costs fun _ => rfl).free_bind fun _ _ _ => .fail
  | ok value =>
    apply modifyLsm_costs
    intro machine
    unfold maybeQueueFlush
    split <;> rfl

omit [Kernel] in
theorem submitUnlessInjected_costs (failAt attempt sector : Nat) (bytes : Nat → UInt8) :
    (submitUnlessInjected failAt attempt sector bytes).Costs lowerRequests (1, 0) machine := by
  unfold submitUnlessInjected
  split
  · exact .fail
  · exact onWorld_costs (blockWrite_costs .data sector bytes)

omit [Kernel] in
theorem recoverWritePointer_costs (physicalSector : Nat) :
    (recoverWritePointer physicalSector).Costs lowerRequests (1, 0) machine := by
  refine (modifyLsm_costs fun _ => rfl).free_bind fun _ stopped _ => ?_
  refine (onWorld_costs (zoneReportOne_costs physicalSector)).bind_free fun reported after _ => ?_
  exact (onAllocator_costs _).free_bind fun _ _ _ => modifyLsm_costs fun _ => rfl

/-- A block is read and written to move it. -/
theorem gcRelocateBlock_costs (logicalBlock sourceSector : Nat) :
    (gcRelocateBlock params logicalBlock sourceSector).Costs lowerRequests (2, 0) machine := by
  refine Effect.Costs.mono ((onWorld_costs (blockRead_costs .data sourceSector)).bind fun buffer after _ => ?_)
    (show Lane.price .data + (1, 0) ≤ ((2, 0) : Nat × Nat) from le_rfl)
  refine (onAllocator_costs _).free_bind fun destination taken _ => ?_
  refine (modifyLsm_costs fun _ => rfl).free_bind fun _ counted _ => ?_
  apply Effect.Costs.get_bind
  refine (submitUnlessInjected_costs _ _ _ _).bind_free fun _ written _ => ?_
  exact (publishWrite_costs _ _).free_bind fun _ _ _ => modifyLsm_costs fun _ => rfl

theorem gcMoveSlots_costs (id start : Nat) (slots : List Nat) :
    (gcMoveSlots params id start slots).Costs lowerRequests (slots.length • (2, 0)) machine := by
  induction slots generalizing machine with
  | nil => exact .pure
  | cons slot slots ih =>
    unfold gcMoveSlots
    apply Effect.Costs.get_bind
    dsimp only
    rw [List.length_cons, succ_nsmul']
    split
    · exact ih.mono (by simp)
    · exact (gcRelocateBlock_costs params _ _).bind fun _ _ _ => ih

omit [Kernel] in
/-- A collection, the write itself, and a report if it fails. -/
def appendCost (blocks : Nat) : Nat × Nat := (2 * blocks + 3, 0)

section Collect
variable {blocks : Nat} (sizes : ZonesUpTo blocks machine)
include sizes

theorem gcCollect_costs (id : Nat) (victim : Zone) :
    (gcCollect params id victim).Costs lowerRequests (blocks • (2, 0) + (1, 0)) machine := by
  have size : machine.lsm.gcNrBlocks id ≤ blocks := by
    unfold gcNrBlocks
    cases found : machine.lsm.gcZones[id]? with
    | none => exact Nat.zero_le _
    | some gcZone => exact sizes _ (List.mem_map_of_mem (List.mem_of_getElem? found))
  have moves := @gcMoveSlots_costs _ params machine id victim.startSector (List.range (machine.lsm.gcNrBlocks id))
  rw [List.length_range] at moves
  apply Effect.Costs.get_bind
  refine (moves.mono (nsmul_le_nsmul_left zero_le size)).bind fun _ moved _ => ?_
  apply Effect.Costs.get_bind
  split
  · exact .fail
  refine (modifyLsm_costs fun _ => rfl).free_bind fun _ counted _ => ?_
  apply Effect.Costs.get_bind
  split
  · exact .fail
  refine (onWorld_costs (zoneReset_costs victim.startSector)).bind_free fun _ reset _ => ?_
  refine (modifyLsm_costs fun _ => rfl).free_bind fun _ counted _ => ?_
  exact (onAllocator_costs _).free_bind fun _ _ _ => modifyLsm_costs fun _ => rfl

theorem gcClean_costs (id : Nat) : (gcClean params id).Costs lowerRequests (blocks • (2, 0) + (1, 0)) machine := by
  apply Effect.Costs.get_bind
  refine Effect.Costs.ofExcept.free_bind fun _ valid within => ?_
  refine (onWorld_costs allocate_costs).free_bind fun _ granted within' => ?_
  split
  · exact .fail
  next victim _ =>
    have collects := gcCollect_costs params ((sizes.kept within).kept within') id victim
    refine (collects.attempt_bind fun result after _ => ?_).mono (le_of_eq (add_zero _))
    cases result with
    | ok value => exact .pure
    | error error => exact (modifyLsm_costs fun _ => rfl).free_bind fun _ _ _ => .fail

theorem runGcIfNeeded_costs : (runGcIfNeeded params).Costs lowerRequests (blocks • (2, 0) + (1, 0)) machine := by
  apply Effect.Costs.get_bind
  split
  · exact .fail
  dsimp only
  split
  · exact .pure
  · exact Effect.Costs.ofExcept.free_bind fun victim _ within => gcClean_costs params (sizes.kept within) victim

theorem appendWrite_costs (logicalSector : Nat) (bytes : Nat → UInt8) :
    (appendWrite params logicalSector bytes).Costs lowerRequests (appendCost blocks) machine := by
  have parts : blocks • ((2, 0) : Nat × Nat) + (1, 0) + ((1, 0) + (1, 0)) ≤ appendCost blocks := by
    simp [appendCost, Nat.mul_comm]
  apply Effect.Costs.get_bind
  split
  · exact .fail
  refine ((runGcIfNeeded_costs params sizes).bind fun _ collected _ => ?_).mono parts
  refine (onAllocator_costs _).free_bind fun physicalSector taken _ => ?_
  refine (modifyLsm_costs fun _ => rfl).free_bind fun _ counted _ => ?_
  apply Effect.Costs.get_bind
  refine (submitUnlessInjected_costs _ _ _ _).attempt_bind fun result written _ => ?_
  cases result with
  | ok value => exact (publishWrite_costs _ _).mono zero_le
  | error error =>
    exact ((recoverWritePointer_costs physicalSector).attempt_bind fun _ _ _ => .fail).mono (le_of_eq (add_zero _))

omit [Kernel] sizes in
/-- A fragment that is not a whole block is fetched first. -/
def fetches (sector remaining : Nat) : Nat :=
  if fragmentOffset sector ≠ 0 ∨ fragmentSectors sector remaining ≠ blockSectors then 1 else 0

theorem writeFragment_costs (sector remaining bioOffset : Nat) (bio : Bio) (buffer : Nat → UInt8) :
    (writeFragment params sector remaining bioOffset bio buffer).Costs lowerRequests
      (fetches sector remaining • (1, lookupCost machine.lsm.sstables) + appendCost blocks) machine := by
  unfold writeFragment
  dsimp only
  by_cases part : fragmentOffset sector ≠ 0 ∨ fragmentSectors sector remaining ≠ blockSectors
  · rw [if_pos part, fetches, if_pos part, one_nsmul]
    refine (fetchBlock_costs _).bind fun buffer after within => ?_
    split
    · exact .fail
    · exact (appendWrite_costs params (sizes.kept within) _ _).bind_free fun _ _ _ => .pure
  · rw [if_neg part, fetches, if_neg part, zero_nsmul]
    refine Effect.Costs.pure.bind fun buffer after within => ?_
    split
    · exact .fail
    · exact (appendWrite_costs params (sizes.kept within) _ _).bind_free fun _ _ _ => .pure

omit [Kernel] sizes in
theorem partialBlocks_fragment (sector : Nat) {remaining : Nat} (more : remaining ≠ 0) :
    fetches sector remaining +
      partialBlocks (sector + fragmentSectors sector remaining) (remaining - fragmentSectors sector remaining) ≤
        partialBlocks sector remaining := by
  unfold partialBlocks fetches
  rw [if_neg more]
  unfold fragmentSectors fragmentOffset
  rw [show blockSectors = 8 from rfl]
  split_ifs <;> omega

omit [Kernel] sizes in
/-- What a write can cost on tables that a lookup reads `lookups` blocks of. -/
def writeCost (blocks lookups sector sectors : Nat) : Nat × Nat :=
  partialBlocks sector sectors • (1, lookups) + touchedBlocks sector sectors • appendCost blocks

omit [Kernel] sizes in
theorem writeCost_fragment (blocks lookups sector : Nat) {remaining : Nat} (more : remaining ≠ 0) :
    fetches sector remaining • (1, lookups) + appendCost blocks + writeCost blocks lookups
      (sector + fragmentSectors sector remaining) (remaining - fragmentSectors sector remaining) ≤
        writeCost blocks lookups sector remaining := by
  have fetched := nsmul_le_nsmul_left (zero_le : 0 ≤ ((1, lookups) : Nat × Nat)) (partialBlocks_fragment sector more)
  rw [add_nsmul] at fetched
  unfold writeCost
  rw [touchedBlocks_fragment sector more, succ_nsmul', add_add_add_comm]
  exact add_le_add fetched le_rfl

theorem writeFragments_costs (rounds sector remaining bioOffset : Nat) (bio : Bio) (buffer : Nat → UInt8) :
    lowerRequests.Within (writeCost blocks (lookupCost machine.lsm.sstables) sector remaining) machine
      (writeFragments params rounds sector remaining bioOffset bio buffer machine).2 := by
  induction rounds generalizing sector remaining bioOffset buffer machine with
  | zero => exact (Meter.Within.of_free rfl rfl).mono zero_le
  | succ rounds ih =>
    unfold writeFragments
    split
    · exact (Meter.Within.of_free rfl rfl).mono zero_le
    next more =>
      have first := writeFragment_costs params sizes sector remaining bioOffset bio buffer
      have parts := writeCost_fragment blocks (lookupCost machine.lsm.sstables) sector more
      unfold Effect.Costs Effect.Ensures at first
      split
      next error after ran =>
        rw [ran] at first
        exact first.mono (le_self_add.trans parts)
      next buffer after ran =>
        rw [ran] at first
        have rest := ih (sizes.kept first) (sector + fragmentSectors sector remaining)
          (remaining - fragmentSectors sector remaining) (bioOffset + fragmentSectors sector remaining * sectorBytes) buffer
        rw [sstables_kept first] at rest
        exact (first.trans rest).mono parts

theorem ioWrite_costs (bio : Bio) : lowerRequests.Within
    (writeCost blocks (lookupCost machine.lsm.sstables) bio.sector bio.sectors) machine (ioWrite params bio machine).2 := by
  have granted : (onWorld allocate).Costs lowerRequests 0 machine := onWorld_costs allocate_costs
  unfold Effect.Costs Effect.Ensures at granted
  unfold ioWrite
  split
  · unfold writePartial
    split
    · exact (Meter.Within.of_free rfl rfl).mono zero_le
    split
    next ran =>
      rw [ran] at granted
      exact granted.mono zero_le
    next after ran =>
      rw [ran] at granted
      have written := writeFragments_costs params (sizes.kept granted) bio.sectors bio.sector bio.sectors 0 bio fun _ => 0
      rw [sstables_kept granted] at written
      exact (granted.trans written).mono (le_of_eq (zero_add _))
  next aligned =>
    obtain ⟨one, none_⟩ := blocks_of_aligned aligned
    have single : writeCost blocks (lookupCost machine.lsm.sstables) bio.sector bio.sectors = 0 + appendCost blocks := by
      rw [writeCost, none_, one, zero_nsmul, one_nsmul]
    rw [single]
    split
    next ran =>
      rw [ran] at granted
      exact granted.mono zero_le
    next after ran =>
      rw [ran] at granted
      have written := appendWrite_costs params (sizes.kept granted) bio.sector bio.data
      unfold Effect.Costs Effect.Ensures at written
      split
      next ran' =>
        rw [ran'] at written
        exact granted.trans written
      next ran' =>
        rw [ran'] at written
        exact granted.trans written

omit [Kernel] sizes in
/-- Requests to the data zones and to the log that a bio can take: a read looks every
block up and reads it, a write fetches the blocks it covers in part, and every block
it writes may first want a collection. -/
def requestCost (blocks : Nat) (sstables : List Sstable) (bio : Bio) : Nat × Nat :=
  match bio.op with
  | .read => touchedBlocks bio.sector bio.sectors • (1, lookupCost sstables)
  | .write => writeCost blocks (lookupCost sstables) bio.sector bio.sectors
  | .flush => (1, 0)
  | .other => 0

theorem engineMap_costs (bio : Bio) :
    lowerRequests.Within (requestCost blocks machine.lsm.sstables bio) machine (engineMap params bio machine).2 := by
  have granted : (onWorld allocate).Costs lowerRequests 0 machine := onWorld_costs allocate_costs
  unfold Effect.Costs Effect.Ensures at granted
  have queued : lowerRequests.Within (requestCost blocks machine.lsm.sstables bio) machine (queueIo params bio machine).2 := by
    unfold queueIo
    split
    next ran =>
      rw [ran] at granted
      exact granted.mono zero_le
    next after ran =>
      rw [ran] at granted
      refine (granted.trans ?_).mono (le_of_eq (zero_add _))
      rw [← sstables_kept granted]
      unfold ioWorker requestCost
      cases bio.op with
      | read => exact ioRead_costs bio
      | write => exact ioWrite_costs params (sizes.kept granted) bio
      | flush =>
        refine (onWorld_costs allocate_costs).free_bind fun _ ready _ => ?_
        refine (onWorld_costs (draw_costs .data)).bind_free fun fate _ _ => ?_
        cases fate with
        | ok => exact .pure
        | fail error spill => exact .fail
      | other => exact (Meter.Within.of_free rfl rfl).mono zero_le
  have refused : lowerRequests.Within (requestCost blocks machine.lsm.sstables bio) machine machine :=
    (Meter.Within.of_free rfl rfl).mono zero_le
  unfold engineMap
  split
  · exact queued
  · split
    · exact queued
    · exact refused
  · split
    · exact queued
    · exact refused
  · exact refused

end Collect

end Writes

section Runs
variable [Kernel]

omit [Kernel] in
theorem claimFlushVictim_gcZones (lsm : Lsm) : lsm.claimFlushVictim.gcZones = lsm.gcZones := by
  unfold claimFlushVictim
  split <;> rfl

omit [Kernel] in
theorem flushVictim_gcZones (victim : Memtable) (machine : Machine) :
    (flushVictim victim machine).2.lsm.gcZones = machine.lsm.gcZones := by
  unfold flushVictim
  dsimp only
  rw [advanceMetaWp_eq]
  split <;> rfl

omit [Kernel] in
theorem flushLoop_gcZones (rounds : Nat) (machine : Machine) : (flushLoop rounds machine).2.lsm.gcZones = machine.lsm.gcZones := by
  induction rounds generalizing machine with
  | zero => rfl
  | succ rounds ih =>
    unfold flushLoop
    dsimp only
    split
    · exact claimFlushVictim_gcZones machine.lsm
    next victim _ =>
      have tried := (flushVictim_gcZones victim { machine with lsm := machine.lsm.claimFlushVictim }).trans
        (claimFlushVictim_gcZones machine.lsm)
      split
      next ran =>
        rw [ran] at tried
        exact tried
      next ran =>
        rw [ran] at tried
        exact (ih _).trans tried

omit [Kernel] in
/-- The flush worker leaves the reverse maps alone. -/
theorem flushWorker_gcZones (machine : Machine) : (flushWorker machine).lsm.gcZones = machine.lsm.gcZones := by
  unfold flushWorker
  split
  · have looped := flushLoop_gcZones 3 { machine with lsm := { machine.lsm with flushPending := false } }
    dsimp only
    generalize flushLoop 3 { machine with lsm := { machine.lsm with flushPending := false } } = done at looped ⊢
    obtain ⟨failed, left⟩ := done
    cases failed with
    | true => exact looped
    | false =>
      refine Eq.trans ?_ looped
      change (maybeQueueFlush { left.lsm with flushInFlight := false }).gcZones = left.lsm.gcZones
      unfold maybeQueueFlush
      split <;> rfl
  · rfl

theorem run_zonesUpTo (params : Params) (events : List Event) {machine : Machine} {blocks : Nat}
    (sizes : ZonesUpTo blocks machine) : ZonesUpTo blocks (run params events machine) := by
  induction events generalizing machine with
  | nil => exact sizes
  | cons event events ih =>
    cases event with
    | bio bio => exact ih (sizes.kept (engineMap_costs params sizes bio))
    | flushWork =>
      refine ih fun size member => sizes size ?_
      have same := flushWorker_gcZones machine
      change size ∈ (flushWorker machine).lsm.gcZones.map GcZone.nrBlocks at member
      rwa [same] at member

end Runs

/-- A fresh device whose outcomes never repeat, all of them good for long enough. -/
def numbered : World :=
  { World.fresh smallGeometry with oracle :=
    { alloc := Stream'.const true
      data := fun index => if index < 100 then .ok else .fail .eio (some ⟨index, .closed, fun _ => 0⟩)
      metadata := fun index => if index < 100 then .ok else .fail .eio (some ⟨index, .closed, fun _ => 0⟩) } }

theorem numbered_wholeBlocks : WholeBlocks numbered := fresh_wholeBlocks smallGeometry

end Lsm
end ZnsBase
