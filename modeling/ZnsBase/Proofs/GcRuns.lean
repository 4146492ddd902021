import Mathlib.Algebra.BigOperators.Group.Finset.Basic
import ZnsBase.Proofs.Bookkeeping

/-! Collections in any state a session reaches: a chosen zone is cleaned completely
or left alone, and where there is garbage a collection gains space. -/

namespace ZnsBase
open Library

namespace Lsm

/-- Every block resolves as before and to the same bytes; none appears or goes. -/
def SameContents (before after : Machine) : Prop :=
  ∀ logicalBlock, match lookup before logicalBlock with
    | .error error => lookup after logicalBlock = .error error
    | .ok sector => ∃ moved, lookup after logicalBlock = .ok moved ∧
        ∀ byte < blockBytes, after.world.block moved byte = before.world.block sector byte

/-- A zone whose live blocks all went to the reserve and which took its place. -/
structure Cleaned (before after : Machine) (id : Nat) : Prop where
  moved : after.lsm.gcMoved = before.lsm.gcMoved + before.lsm.gcValid id
  elsewhere : ∀ logicalBlock sector, lookup after logicalBlock = .ok sector →
    ∃ index slot, after.lsm.physicalToGcSlot sector = .ok (index, slot) ∧ index ≠ id
  emptied : ∃ victim, before.lsm.allocator.zones[id]? = some victim ∧
    after.lsm.allocator.zones[id]? = some { victim with writePointer := victim.startSector, condition := .empty } ∧
    after.world.writePointer id = victim.startSector ∧ after.world.condition id = .empty
  reserve : after.lsm.allocator.reserveZone = id
  ordinary : before.lsm.allocator.reserveZone ≠ after.lsm.allocator.reserveZone
  contents : SameContents before after

variable [Kernel] {log : Extent} {limit : Nat} {lossless : Prop}

theorem Kept.sameContents {before after : Machine} (coherent : Coherent before log limit lossless)
    (kept : Kept before after log limit lossless) (trusted : lossless) : SameContents before after := by
  intro logicalBlock
  have known := kept.mapped logicalBlock
  rw [kept.coherent.agrees trusted, coherent.agrees trusted, Option.isSome_map, Option.isSome_map] at known
  rw [lookup_eq coherent trusted, lookup_eq kept.coherent trusted]
  cases held : mapping before logicalBlock with
  | none =>
    rw [held, Option.isSome_none, Option.isSome_eq_false_iff, Option.isNone_iff_eq_none] at known
    rw [known]
    rfl
  | some sector =>
    rw [held, Option.isSome_some, Option.isSome_iff_exists] at known
    obtain ⟨moved, found⟩ := known
    rw [found]
    refine ⟨moved, rfl, fun byte inside => ?_⟩
    have block : (logicalBlock * blockBytes + byte) / blockBytes = logicalBlock := by
      rw [Nat.mul_comm, Nat.mul_add_div (by decide), Nat.div_eq_of_lt inside, Nat.add_zero]
    have offset : (logicalBlock * blockBytes + byte) % blockBytes = byte := by
      rw [Nat.mul_comm, Nat.mul_add_mod, Nat.mod_eq_of_lt inside]
    have same := congrFun (kept.disk trusted) (logicalBlock * blockBytes + byte)
    rw [disk_of_mapping found block, disk_of_mapping held block, offset] at same
    exact same

theorem Collected.cleaned {before after : Machine} {id : Nat} (coherent : Coherent before log limit lossless)
    (kept : Kept before after log limit lossless) (trusted : lossless) (collected : Collected before after id) {victim reserve : Zone}
    (chosen : before.lsm.allocator.zones[id]? = some victim)
    (found : before.lsm.allocator.zones[before.lsm.allocator.reserveZone]? = some reserve) : Cleaned before after id := by
  obtain ⟨bound, _⟩ := List.getElem?_eq_some_iff.mp chosen
  refine ⟨collected.gcMoved, fun logicalBlock sector resolves => ?_, ⟨victim, chosen, ?_, collected.device victim chosen⟩,
    collected.reserveZone, ?_, kept.sameContents coherent trusted⟩
  · have agree := kept.coherent.agree trusted
    obtain ⟨index, slot, place, held⟩ := (agree.slots logicalBlock sector).mp ((agree.lookups logicalBlock sector).mpr resolves)
    refine ⟨index, slot, place, ?_⟩
    rintro rfl
    rw [collected.emptied] at held
    exact encodeLogicalBlock_ne_zero _ held.symm
  · rw [collected.zones victim reserve chosen found, List.getElem?_set_self (by rw [List.length_set]; exact bound)]
  · rw [collected.reserveZone]
    exact Ne.symm collected.apart

omit [Kernel] in
/-- A run that fills one zone, two of whose blocks are overwritten. -/
private theorem half_live : ∃ lsm after machine,
    engineInit plainParams 0 16 16 blockSectors (World.fresh smallGeometry) = (.ok lsm, after) ∧ lsm.sstables = [] ∧
      @run Generations.plainKernel plainParams [writeBlock 0 1, writeBlock 1 2, writeBlock 1 3, writeBlock 1 4]
        ⟨lsm, after⟩ = machine ∧
      @Fine Generations.plainKernel plainParams machine ∧ machine.lsm.writesStopped = false ∧
      machine.lsm.allocator.zones = [⟨0, 0, 32, 32, 32, .empty, false⟩, ⟨1, 32, 32, 32, 32, .empty, false⟩] ∧
      machine.lsm.allocator.reserveZone = 1 ∧ machine.lsm.allocator.hasSpace = false ∧ machine.lsm.gcValid 0 = 2 ∧
      plainParams.policy.policy.selectVictim (gcContext machine.lsm ⟨1, 32, 32, 32, 32, .empty, false⟩) = .ok 0 := by
  obtain ⟨lsm, after, ran, unwritten⟩ := plain_start
  refine ⟨lsm, after, _, ran, unwritten, rfl, ?_⟩
  have reaches := @session_eq Generations.plainKernel _ _ _ _ _ ran
    [writeBlock 0 1, writeBlock 1 2, writeBlock 1 3, writeBlock 1 4]
  obtain ⟨log, start, later⟩ := @engineInit_serving Generations.plainKernel False _ _ _ _ _ _ _ _ ran (by decide)
    (fresh_wholeBlocks _) nofun
  obtain ⟨_, later'⟩ := @Serving.run Generations.plainKernel _ _ _ plainParams
    [writeBlock 0 1, writeBlock 1 2, writeBlock 1 3, writeBlock 1 4] _ start nofun
  generalize @run Generations.plainKernel plainParams
    [writeBlock 0 1, writeBlock 1 2, writeBlock 1 3, writeBlock 1 4] ⟨lsm, after⟩ = machine at reaches later' ⊢
  have facts : (@session Generations.plainKernel plainParams 16 (World.fresh smallGeometry)
      [writeBlock 0 1, writeBlock 1 2, writeBlock 1 3, writeBlock 1 4]).map (fun machine =>
        (machine.lsm.logicalBlocks, machine.lsm.writesStopped, machine.lsm.allocator.zones,
          machine.lsm.allocator.reserveZone)) =
      some (2, false, [⟨0, 0, 32, 32, 32, .empty, false⟩, ⟨1, 32, 32, 32, 32, .empty, false⟩], 1) := by decide +kernel
  have counts : (@session Generations.plainKernel plainParams 16 (World.fresh smallGeometry)
      [writeBlock 0 1, writeBlock 1 2, writeBlock 1 3, writeBlock 1 4]).map (fun machine =>
        (machine.lsm.allocator.hasSpace, machine.lsm.gcValid 0,
          plainParams.policy.policy.selectVictim (gcContext machine.lsm ⟨1, 32, 32, 32, 32, .empty, false⟩))) =
      some (false, 2, .ok 0) := by decide +kernel
  rw [reaches, Option.map_some, Option.some.injEq] at facts counts
  simp only [Prod.mk.injEq] at facts counts
  obtain ⟨blocks, running, zones, reserveZone⟩ := facts
  have roomy : machine.lsm.logicalBlocks < Generations.plainKernel.entryLimit := by
    rw [blocks]
    decide
  refine ⟨?_, running, zones, reserveZone, counts⟩
  exact @Fine.mk Generations.plainKernel _ _
    (@Supplied.mk Generations.plainKernel _ ((Oracle.calm_healthy.later later).later later') roomy) rfl rfl rfl

omit [Kernel] in
/-- Blocks that ordinary writes may still take. -/
def ordinaryFree (lsm : Lsm) : Nat :=
  ∑ id ∈ (Finset.range lsm.allocator.zones.length).erase lsm.allocator.reserveZone, (gcGetZoneInfo lsm id).freeBlocks

omit [Kernel] in
theorem gcGetZoneInfo_freeBlocks {lsm : Lsm} {id : Nat} {zone : Zone} (found : lsm.allocator.zones[id]? = some zone) :
    (gcGetZoneInfo lsm id).freeBlocks = if zone.CanAppend blockSectors then zoneFreeBlocks zone else 0 := by
  simp only [gcGetZoneInfo, found]

omit [Kernel] in
/-- Without space no zone but the reserve counts any free block. -/
theorem freeBlocks_of_full {lsm : Lsm} (sectorsPerBlock : lsm.allocator.sectorsPerBlock = blockSectors)
    (full : lsm.allocator.hasSpace = false) {id : Nat} (ordinary : id ≠ lsm.allocator.reserveZone) :
    (gcGetZoneInfo lsm id).freeBlocks = 0 := by
  cases found : lsm.allocator.zones[id]? with
  | none => simp only [gcGetZoneInfo, found]
  | some zone =>
    rw [gcGetZoneInfo_freeBlocks found, if_neg]
    intro room
    have space := (Allocator.hasSpace_iff lsm.allocator).mpr ⟨id, zone, found, ordinary, by rw [sectorsPerBlock]; exact room⟩
    rw [full] at space
    cases space

omit [Kernel] in
/-- The reserve after it took some blocks. -/
theorem Vacant.filled {reserve : Zone} (vacant : Vacant reserve) {count : Nat} (fewer : count < reserve.capacity / blockSectors) :
    { reserve with writePointer := reserve.writePointer + count * blockSectors }.CanAppend blockSectors ∧
      zoneFreeBlocks { reserve with writePointer := reserve.writePointer + count * blockSectors } =
        reserve.capacity / blockSectors - count := by
  obtain ⟨⟨notFull, writable, online⟩, _, empty⟩ := vacant
  have size : blockSectors = 8 := rfl
  rw [size] at fewer ⊢
  constructor
  · refine ⟨notFull, writable, online, ?_, ?_⟩
    all_goals
      simp only [Zone.endSector]
      omega
  · rw [zoneFreeBlocks, if_neg]
    all_goals
      simp only [Zone.endSector, size]
      omega

omit [Kernel] in
/-- A zone with garbage is one that both policies would take. -/
theorem garbage_eligible {lsm : Lsm} {reserve zone : Zone} {id blocks : Nat}
    (block : lsm.allocator.sectorsPerBlock = blockSectors) (full : lsm.allocator.hasSpace = false)
    (vacant : Vacant reserve) (room : reserve.capacity / blockSectors = blocks)
    (held : lsm.allocator.zones[id]? = some zone) (capacity : zone.capacity / blockSectors = blocks)
    (usable : zone.condition ≠ .readonly ∧ zone.condition ≠ .offline) (ordinary : id ≠ lsm.allocator.reserveZone)
    (fewer : lsm.gcValid id < blocks) : GcPolicy.Eligible (gcContext lsm reserve) (gcGetZoneInfo lsm id) := by
  have free : zoneFreeBlocks reserve = blocks := by
    have empty := vacant.2.2
    rw [← room, zoneFreeBlocks, if_neg (by simp only [Zone.endSector]; omega), empty]
    simp only [Zone.endSector, Nat.add_sub_cancel_left]
  refine ⟨?_, ?_, freeBlocks_of_full block full ordinary, ?_, ?_⟩
  · simpa only [gcGetZoneInfo, held, decide_eq_false_iff_not] using ordinary
  · simpa only [gcGetZoneInfo, held, decide_eq_true_eq] using usable
  · simpa only [gcGetZoneInfo, held, capacity] using fewer
  · simpa only [gcGetZoneInfo, held, gcContext, free] using fewer.le

omit [Kernel] in
theorem Eligible.fewer {lsm : Lsm} {reserve victim : Zone} {id blocks : Nat}
    (eligible : GcPolicy.Eligible (gcContext lsm reserve) (gcGetZoneInfo lsm id))
    (held : lsm.allocator.zones[id]? = some victim) (capacity : victim.capacity / blockSectors = blocks) :
    lsm.gcValid id < blocks := by
  have spare := eligible.2.2.2.1
  simpa only [gcGetZoneInfo, held, capacity] using spare

section Gains
variable {before after : Machine} {id : Nat} {victim reserve : Zone} (collected : Collected before after id)
  (block : before.lsm.allocator.sectorsPerBlock = blockSectors)
  (chosen : before.lsm.allocator.zones[id]? = some victim)
  (found : before.lsm.allocator.zones[before.lsm.allocator.reserveZone]? = some reserve) (vacant : Vacant reserve)
  (fewer : before.lsm.gcValid id < reserve.capacity / blockSectors)
include collected block chosen found vacant fewer

omit [Kernel] in
/-- What is left of the former reserve after a collection. -/
private theorem Collected.former : ∃ zone, after.lsm.allocator.zones[before.lsm.allocator.reserveZone]? = some zone ∧
    zone.CanAppend blockSectors ∧ zoneFreeBlocks zone = reserve.capacity / blockSectors - before.lsm.gcValid id ∧
    after.lsm.allocator.hasSpace = true := by
  have zones := collected.zones victim reserve chosen found
  obtain ⟨bound, _⟩ := List.getElem?_eq_some_iff.mp found
  obtain ⟨room, free⟩ := vacant.filled fewer
  have former : after.lsm.allocator.zones[before.lsm.allocator.reserveZone]? =
      some { reserve with writePointer := reserve.writePointer + before.lsm.gcValid id * blockSectors } := by
    rw [zones, List.getElem?_set_ne collected.apart, List.getElem?_set_self bound]
  refine ⟨_, former, room, free, (Allocator.hasSpace_iff _).mpr ⟨_, _, former, ?_, ?_⟩⟩
  · rw [collected.reserveZone]
    exact Ne.symm collected.apart
  · rw [show after.lsm.allocator.sectorsPerBlock = _ from collected.keeps.sectorsPerBlock, block]
    exact room

omit [Kernel] in
theorem Collected.hasSpace : after.lsm.allocator.hasSpace = true := by
  obtain ⟨_, _, _, _, space⟩ := collected.former block chosen found vacant fewer
  exact space

omit [Kernel] in
/-- What a collection gains: the blocks of the former reserve, less those it took. -/
theorem Collected.gains (full : before.lsm.allocator.hasSpace = false) :
    ordinaryFree after.lsm = ordinaryFree before.lsm + (reserve.capacity / blockSectors - before.lsm.gcValid id) := by
  have zones := collected.zones victim reserve chosen found
  obtain ⟨bound, _⟩ := List.getElem?_eq_some_iff.mp found
  obtain ⟨zone, former, room, free, _⟩ := collected.former block chosen found vacant fewer
  have lengths : after.lsm.allocator.zones.length = before.lsm.allocator.zones.length := by
    rw [zones, List.length_set, List.length_set]
  have nothing : ordinaryFree before.lsm = 0 :=
    Finset.sum_eq_zero fun other member => freeBlocks_of_full block full (Finset.ne_of_mem_erase member)
  rw [nothing, Nat.zero_add, ordinaryFree, collected.reserveZone, lengths,
    Finset.sum_eq_single before.lsm.allocator.reserveZone]
  · rw [gcGetZoneInfo_freeBlocks former, if_pos room, free]
  · intro other member different
    have unmoved : after.lsm.allocator.zones[other]? = before.lsm.allocator.zones[other]? := by
      rw [zones, List.getElem?_set_ne (Ne.symm (Finset.ne_of_mem_erase member)), List.getElem?_set_ne (Ne.symm different)]
    have none_ := freeBlocks_of_full block full different
    simp only [gcGetZoneInfo, unmoved] at none_ ⊢
    split at none_
    · rfl
    · exact none_
  · intro absent
    exact absurd (Finset.mem_erase.mpr ⟨Ne.symm collected.apart, Finset.mem_range.mpr bound⟩) absent

end Gains

end Lsm
end ZnsBase
