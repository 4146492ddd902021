import Mathlib.Data.List.Basic
import ZnsBase.Zone

/-! The append allocator (`zns-allocator.c`) in both of its modes. Every
operation returns its status with the allocator it leaves behind; the spinlock
only makes each one atomic. -/

namespace ZnsBase

inductive AllocatorMode where
  | linear
  | zoned
  deriving DecidableEq, Repr

/-- `struct zns_allocator`; `nr_zones` is the length of `zones`. -/
structure Allocator where
  nextSector : Nat
  physicalSectors : Nat
  zones : List Zone
  activeZone : Nat
  reserveZone : Nat
  sectorsPerBlock : Nat
  mode : AllocatorMode
  deriving DecidableEq, Repr

namespace Allocator

/-- `UINT_MAX`, the reserve of an allocator that has none. -/
def noReserve : Nat := 2 ^ 32 - 1

/-- `zns_allocator_reset`. -/
def reset : Allocator where
  nextSector := 0
  physicalSectors := 0
  zones := []
  activeZone := 0
  reserveZone := noReserve
  sectorsPerBlock := 0
  mode := .linear

/-- `zns_allocator_init`. -/
def init (physicalSectors sectorsPerBlock : Nat) : Except Errno Allocator :=
  if sectorsPerBlock = 0 ∨ physicalSectors % sectorsPerBlock ≠ 0 then .error .einval
  else .ok { reset with physicalSectors, sectorsPerBlock }

/-- `zns_allocator_init_zoned`; the copy of the zone table is the caller's
allocation to account for. -/
def initZoned (zones : List Zone) (sectorsPerBlock : Nat) : Except Errno Allocator :=
  if zones = [] ∨ sectorsPerBlock = 0 then .error .einval
  else if ∀ zone ∈ zones, zone.MetadataValid then
    .ok { reset with zones, sectorsPerBlock, mode := .zoned }
  else .error .einval

/-- The scan of `zns_allocator_resync`: the first zone with this start. -/
def zoneStarting (allocator : Allocator) (start : Nat) : Option Nat :=
  allocator.zones.findIdx? (fun zone => zone.startSector = start)

/-- The `switch` of `zns_allocator_resync` over the reported condition. -/
def conditionAccepts (zone reported : Zone) : Bool :=
  match reported.condition with
  | .empty => reported.writePointer = zone.startSector
  | .impOpen | .expOpen | .closed => true
  | .full => reported.writePointer = zone.endSector
  | _ => false

/-- When a report of the failed write's zone is adopted. Only an unchanged write
pointer or the consumption of this one block is recoverable. -/
def ResyncAccepts (zone : Zone) (block failedSector : Nat) (reported : Zone) : Prop :=
  reported.length = zone.length ∧ reported.capacity = zone.capacity ∧ reported.MetadataValid ∧
    zone.startSector ≤ failedSector ∧ failedSector ≤ zone.endSector ∧
    block ≤ zone.endSector - failedSector ∧ failedSector % block = 0 ∧
    zone.writePointer = failedSector + block ∧
    (reported.writePointer = failedSector ∨ reported.writePointer = failedSector + block) ∧
    conditionAccepts zone reported = true

instance (zone : Zone) (block failedSector : Nat) (reported : Zone) :
    Decidable (ResyncAccepts zone block failedSector reported) :=
  inferInstanceAs (Decidable (_ ∧ _ ∧ _ ∧ _ ∧ _ ∧ _ ∧ _ ∧ _ ∧ _ ∧ _))

/-- `zns_allocator_resync`. -/
def resync (allocator : Allocator) (failedSector : Nat) (reported : Zone) : Except Errno Unit × Allocator :=
  let block := allocator.sectorsPerBlock
  if allocator.mode ≠ .zoned ∨ block = 0 then (.error .eio, allocator)
  else match allocator.zoneStarting reported.startSector with
    | none => (.error .eio, allocator)
    | some zoneId =>
      match allocator.zones[zoneId]? with
      | none => (.error .eio, allocator)
      | some zone =>
        if ResyncAccepts zone block failedSector reported then
          let updated := { zone with
            writePointer := reported.writePointer
            condition := reported.condition
            active := reported.active }
          -- Allocation may already have advanced past the failed zone's last slot.
          let activeZone :=
            if updated.condition = .full ∨ block > zone.endSector - updated.writePointer then zoneId + 1 else zoneId
          (.ok (), { allocator with zones := allocator.zones.set zoneId updated, activeZone })
        else (.error .eio, allocator)

/-- The scan of `zns_allocator_alloc_zoned`, with the number of zones left to
check. It starts at the active zone and wraps around. -/
def allocScan (allocator : Allocator) : Nat → Except Errno Nat × Allocator
  | 0 => (.error .enospc, allocator)
  | checks + 1 =>
    match allocator.zones[allocator.activeZone]? with
    | none => (.error .enospc, allocator)
    | some zone =>
      if allocator.activeZone ≠ allocator.reserveZone ∧ zone.CanAppend allocator.sectorsPerBlock then
        let advanced := { zone with writePointer := zone.writePointer + allocator.sectorsPerBlock }
        let activeZone :=
          if allocator.sectorsPerBlock > zone.endSector - advanced.writePointer then allocator.activeZone + 1
          else allocator.activeZone
        (.ok zone.writePointer,
          { allocator with zones := allocator.zones.set allocator.activeZone advanced, activeZone })
      else
        allocScan { allocator with activeZone := (allocator.activeZone + 1) % allocator.zones.length } checks

/-- `zns_allocator_alloc_zoned`. -/
def allocZoned (allocator : Allocator) : Except Errno Nat × Allocator :=
  let start := if allocator.activeZone ≥ allocator.zones.length then 0 else allocator.activeZone
  allocScan { allocator with activeZone := start } allocator.zones.length

/-- `zns_allocator_alloc`. -/
def alloc (allocator : Allocator) : Except Errno Nat × Allocator :=
  if allocator.mode = .zoned then allocZoned allocator
  else if allocator.nextSector > allocator.physicalSectors ∨
      allocator.sectorsPerBlock > allocator.physicalSectors - allocator.nextSector then
    (.error .enospc, allocator)
  else
    (.ok allocator.nextSector, { allocator with nextSector := allocator.nextSector + allocator.sectorsPerBlock })

/-- `zns_allocator_set_reserve`. -/
def setReserve (allocator : Allocator) (zone : Nat) : Except Errno Unit × Allocator :=
  if allocator.mode ≠ .zoned then (.error .einval, allocator)
  else match allocator.zones[zone]? with
    | none => (.error .einval, allocator)
    | some z =>
      if ¬ z.IsWritable ∨ z.capacity < allocator.sectorsPerBlock ∨ z.writePointer ≠ z.startSector then
        (.error .enospc, allocator)
      else (.ok (), { allocator with reserveZone := zone })

/-- `zns_allocator_has_space`: ordinary space only, the reserve excluded. -/
def hasSpace (allocator : Allocator) : Bool :=
  (List.range allocator.zones.length).any fun i =>
    match allocator.zones[i]? with
    | none => false
    | some zone => i ≠ allocator.reserveZone ∧ zone.CanAppend allocator.sectorsPerBlock

/-- `zns_allocator_alloc_gc`. -/
def allocGc (allocator : Allocator) : Except Errno Nat × Allocator :=
  match allocator.zones[allocator.reserveZone]? with
  | none => (.error .einval, allocator)
  | some zone =>
    if zone.CanAppend allocator.sectorsPerBlock then
      let advanced := { zone with writePointer := zone.writePointer + allocator.sectorsPerBlock }
      (.ok zone.writePointer, { allocator with zones := allocator.zones.set allocator.reserveZone advanced })
    else (.error .enospc, allocator)

/-- `zns_allocator_set_reserve_after_reset`: memory only, after the device
confirmed the reset. -/
def setReserveAfterReset (allocator : Allocator) (victim : Nat) : Except Errno Unit × Allocator :=
  if victim = allocator.reserveZone then (.error .einval, allocator)
  else match allocator.zones[victim]? with
    | none => (.error .einval, allocator)
    | some zone =>
      let emptied := { zone with writePointer := zone.startSector, condition := .empty }
      (.ok (), { allocator with zones := allocator.zones.set victim emptied, reserveZone := victim })

end Allocator
end ZnsBase
