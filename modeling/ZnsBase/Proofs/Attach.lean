import ZnsBase.LsmWrite
import ZnsBase.Proofs.AllocatorSpec
import ZnsBase.Proofs.Memtables
import ZnsBase.Proofs.SstDisk

/-! The engine in front of its device. The allocator sees every zone but the
last, the log lives in the last one, and none of the operations moves a zone. -/

namespace ZnsBase
open Library

def Zone.extent (zone : Zone) : Extent := ⟨zone.startSector, zone.length, zone.capacity⟩

/-- A zone that can serve as the reserve. -/
def Lsm.Vacant (zone : Zone) : Prop :=
  zone.IsWritable ∧ blockSectors ≤ zone.capacity ∧ zone.writePointer = zone.startSector

/-- The zones of the engine are the zones of the device, `log` the metadata zone. -/
structure Attached (machine : Machine) (log : Extent) : Prop where
  zoned : machine.lsm.allocator.mode = .zoned
  block : machine.lsm.allocator.sectorsPerBlock = blockSectors
  geometry : machine.world.geometry.zones = machine.lsm.allocator.zones.map Zone.extent ++ [log]
  metaStart : machine.lsm.metaStart = log.start
  metaEnd : machine.lsm.metaEnd = log.start + log.capacity
  positive : ∀ zone ∈ machine.lsm.allocator.zones, 0 < zone.length
  placed : ∀ zone ∈ machine.lsm.allocator.zones, zone.IsWritable → zone.startSector ≤ zone.writePointer

namespace Attached
variable {machine : Machine} {log : Extent} (attached : Attached machine log)
include attached

theorem extent {index : Nat} {zone : Zone} (found : machine.lsm.allocator.zones[index]? = some zone) :
    machine.world.geometry.zones[index]? = some zone.extent := by
  obtain ⟨bound, _⟩ := List.getElem?_eq_some_iff.mp found
  rw [attached.geometry, List.getElem?_append_left (by simpa using bound), List.getElem?_map, found]
  rfl

theorem logExtent : machine.world.geometry.zones[machine.lsm.allocator.zones.length]? = some log := by
  rw [attached.geometry, List.getElem?_append_right (by simp)]
  simp

theorem dataExtents : machine.world.geometry.zones.dropLast = machine.lsm.allocator.zones.map Zone.extent := by
  rw [attached.geometry, List.dropLast_concat]

theorem dataExtent {index : Nat} {zone : Zone} (found : machine.lsm.allocator.zones[index]? = some zone) :
    machine.world.geometry.zones.dropLast[index]? = some zone.extent := by
  rw [attached.dataExtents, List.getElem?_map, found]
  rfl

theorem inside {index : Nat} {zone : Zone} (found : machine.lsm.allocator.zones[index]? = some zone)
    (room : zone.CanAppend machine.lsm.allocator.sectorsPerBlock) :
    zone.startSector ≤ zone.writePointer ∧ zone.writePointer + blockSectors ≤ zone.endSector ∧
      zone.writePointer < zone.startSector + zone.length := by
  have low := attached.placed zone (List.mem_of_getElem? found) room.isWritable
  have high := room.fits
  have capacity : zone.capacity ≤ zone.length := Geometry.capacity_le_len (attached.extent found)
  rw [attached.block] at high
  simp only [Zone.endSector, blockSectors] at high ⊢
  omega

/-- Two zones that begin at one sector are one zone. -/
theorem start_unique {first second : Nat} {one other : Zone} (left : machine.lsm.allocator.zones[first]? = some one)
    (right : machine.lsm.allocator.zones[second]? = some other) (same : one.startSector = other.startSector) :
    first = second := by
  have oneLong := attached.positive one (List.mem_of_getElem? left)
  have otherLong := attached.positive other (List.mem_of_getElem? right)
  refine @Geometry.zone_unique _ first second one.startSector _ _ (attached.extent left) (attached.extent right) ?_ ?_ ?_ ?_
  all_goals
    simp only [Zone.extent]
    omega

theorem zoneStarting_eq {index : Nat} {zone : Zone} (found : machine.lsm.allocator.zones[index]? = some zone) :
    machine.lsm.allocator.zoneStarting zone.startSector = some index := by
  refine Allocator.zoneStarting_eq_some found ?_
  exact fun other current held same => attached.start_unique held found same

/-- Nothing the device does moves the zones. -/
theorem onDevice {world : World} (same : world.geometry = machine.world.geometry) :
    Attached { machine with world } log :=
  ⟨attached.zoned, attached.block, by rw [same]; exact attached.geometry, attached.metaStart, attached.metaEnd,
    attached.positive, attached.placed⟩

/-- Changes of the engine outside its allocator and the bounds of its log. -/
theorem onEngine {lsm : Lsm} (allocator : lsm.allocator = machine.lsm.allocator)
    (metaStart : lsm.metaStart = machine.lsm.metaStart) (metaEnd : lsm.metaEnd = machine.lsm.metaEnd) :
    Attached { machine with lsm } log := by
  refine ⟨?_, ?_, ?_, ?_, ?_, ?_, ?_⟩
  all_goals simp only [allocator, metaStart, metaEnd]
  exacts [attached.zoned, attached.block, attached.geometry, attached.metaStart, attached.metaEnd, attached.positive,
    attached.placed]

/-- A zone may be updated as long as it stays where it is. -/
theorem onZone {allocator : Allocator} {index : Nat} {zone updated : Zone}
    (mode : allocator.mode = machine.lsm.allocator.mode)
    (block : allocator.sectorsPerBlock = machine.lsm.allocator.sectorsPerBlock)
    (found : machine.lsm.allocator.zones[index]? = some zone)
    (zones : allocator.zones = machine.lsm.allocator.zones.set index updated) (extent : updated.extent = zone.extent)
    (placed : updated.IsWritable → updated.startSector ≤ updated.writePointer) :
    Attached { machine with lsm.allocator := allocator } log := by
  have member : ∀ other ∈ allocator.zones, other = updated ∨ other ∈ machine.lsm.allocator.zones := by
    intro other held
    rw [zones] at held
    exact (List.mem_or_eq_of_mem_set held).symm
  have unmoved : allocator.zones.map Zone.extent = machine.lsm.allocator.zones.map Zone.extent := by
    obtain ⟨bound, held⟩ := List.getElem?_eq_some_iff.mp found
    rw [zones, List.map_set, extent, ← held]
    apply List.ext_getElem?
    intro position
    rw [List.getElem?_set]
    split
    next same =>
      subst same
      simp [bound]
    next _ => rfl
  refine ⟨mode.trans attached.zoned, block.trans attached.block, ?_, attached.metaStart, attached.metaEnd, ?_, ?_⟩
  · rw [attached.geometry]
    exact congrArg (· ++ [log]) unmoved.symm
  · intro other held
    rcases member other held with rfl | old
    · have length : other.length = zone.length := congrArg Extent.len extent
      rw [length]
      exact attached.positive zone (List.mem_of_getElem? found)
    · exact attached.positive other old
  · intro other held writable
    rcases member other held with rfl | old
    · exact placed writable
    · exact attached.placed other old writable

/-- A search for room moves only the cursor. -/
theorem onSearch {allocator : Allocator} (keeps : machine.lsm.allocator.Keeps allocator)
    (zones : allocator.zones = machine.lsm.allocator.zones) : Attached { machine with lsm.allocator := allocator } log :=
  ⟨keeps.mode.trans attached.zoned, keeps.sectorsPerBlock.trans attached.block,
    attached.geometry.trans (by rw [zones]), attached.metaStart, attached.metaEnd, zones ▸ attached.positive,
    zones ▸ attached.placed⟩

theorem onTake {allocator : Allocator} {index : Nat} {zone : Zone}
    (takes : machine.lsm.allocator.Takes allocator index zone) :
    Attached { machine with lsm.allocator := allocator } log := by
  refine attached.onZone takes.mode takes.sectorsPerBlock takes.found takes.zones rfl ?_
  intro writable
  have low := attached.placed zone (List.mem_of_getElem? takes.found) takes.room.isWritable
  exact low.trans (Nat.le_add_right _ _)

end Attached

end ZnsBase
