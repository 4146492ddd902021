import Mathlib.Data.Stream.Init
import ZnsBase.Library.Bytes
import ZnsBase.Library.Effect
import ZnsBase.Zone

/-! Everything below the target: the zoned block device and the kernel's memory
allocator. Which calls fail, and how, is fixed in advance by an oracle, so one
statement over all oracles covers every pattern of failures. -/

namespace ZnsBase
open Library

/-- The fixed part of a zone report. -/
structure Extent where
  start : Nat
  len : Nat
  capacity : Nat
  deriving DecidableEq, Repr

/-- Sequential-write-required zones in ascending order. The block layer keeps a
device's size in bytes in a signed 64-bit number, which bounds every sector. -/
structure Geometry where
  zones : List Extent
  ordered : zones.Pairwise (fun first second => first.start + first.len ≤ second.start)
  capacity_le : ∀ zone ∈ zones, zone.capacity ≤ zone.len
  bounded : ∀ zone ∈ zones, zone.start + zone.len ≤ 2 ^ 54

/-- What a failed write may leave behind in its zone: the write pointer anywhere,
another condition, and any bytes from the old write pointer on. -/
structure Spill where
  writePointer : Nat
  condition : ZoneCond
  bytes : Nat → UInt8

/-- The outcome of one request to the device. -/
inductive Fate where
  | ok
  | fail (error : Errno) (spill : Option Spill)

/-- Outcomes of the calls to come: memory allocations, requests to the data
zones, requests to the metadata zone. -/
structure Oracle where
  alloc : Stream' Bool
  data : Stream' Fate
  metadata : Stream' Fate

/-- Which of the two streams of requests a request belongs to. -/
inductive Lane where
  | data
  | metadata
  deriving DecidableEq, Repr

/-- A write handed to the device, with the zone state it met. -/
structure Submission where
  lane : Lane
  sector : Nat
  writePointer : Nat → Nat
  condition : Nat → ZoneCond

/-- The device and the outcomes of the calls to come. `submitted` records the
writes, newest first; no function of the target reads it. -/
structure World where
  geometry : Geometry
  writePointer : Nat → Nat
  condition : Nat → ZoneCond
  media : Nat → UInt8
  /-- Whether a full zone reports its write pointer at the end of the zone
  rather than at the end of its capacity. -/
  fullAtLength : Bool
  oracle : Oracle
  submitted : List Submission

namespace World

/-- The 4 KiB that start at a sector, and whatever follows them. -/
def block (world : World) (sector : Nat) : Nat → UInt8 := fun index =>
  world.media (sector * sectorBytes + index)

/-- The zone that holds a sector. -/
def zoneOf (world : World) (sector : Nat) : Option Nat :=
  world.geometry.zones.findIdx? (fun zone => zone.start ≤ sector ∧ sector < zone.start + zone.len)

def isActive (condition : ZoneCond) : Bool :=
  condition = .impOpen ∨ condition = .expOpen ∨ condition = .closed

/-- A truthful report of one zone (`zns_zone_report_cb`). -/
def report (world : World) (id index : Nat) (extent : Extent) : Zone where
  id := id
  startSector := extent.start
  length := extent.len
  capacity := extent.capacity
  writePointer := world.writePointer index
  condition := world.condition index
  active := isActive (world.condition index)

/-- The device takes a write only at the write pointer of a zone that is open to
writes and has room for it. -/
def Accepts (world : World) (index : Nat) (extent : Extent) (sector : Nat) : Prop :=
  world.condition index ≠ .full ∧ world.condition index ≠ .readonly ∧ world.condition index ≠ .offline ∧
    sector = world.writePointer index ∧ sector + blockSectors ≤ extent.start + extent.capacity

instance (world : World) (index : Nat) (extent : Extent) (sector : Nat) :
    Decidable (world.Accepts index extent sector) := inferInstanceAs (Decidable (_ ∧ _ ∧ _ ∧ _ ∧ _))

def setZone (world : World) (index writePointer : Nat) (condition : ZoneCond) : World :=
  { world with
    writePointer := fun other => if other = index then writePointer else world.writePointer other
    condition := fun other => if other = index then condition else world.condition other }

/-- Carry out an accepted write. -/
def commit (world : World) (index : Nat) (extent : Extent) (sector : Nat) (bytes : Nat → UInt8) : World :=
  let stored := { world with media := overlay world.media (sector * sectorBytes) blockBytes bytes }
  if sector + blockSectors = extent.start + extent.capacity then
    stored.setZone index (if world.fullAtLength then extent.start + extent.len else sector + blockSectors) .full
  else
    stored.setZone index (sector + blockSectors) (if world.condition index = .expOpen then .expOpen else .impOpen)

/-- Leave the traces of a failed write. -/
def scatter (world : World) (index : Nat) (extent : Extent) (spill : Spill) : World :=
  let oldPointer := world.writePointer index
  let stained := { world with
    media := fun address =>
      if oldPointer * sectorBytes ≤ address ∧ address < (extent.start + extent.len) * sectorBytes then
        spill.bytes address
      else world.media address }
  stained.setZone index spill.writePointer spill.condition

def record (world : World) (lane : Lane) (sector : Nat) : World :=
  { world with submitted := ⟨lane, sector, world.writePointer, world.condition⟩ :: world.submitted }

end World

/-- Take the outcome of the next request on a lane. -/
def draw (lane : Lane) : Effect World Errno Fate := fun world =>
  match lane with
  | .data => (.ok world.oracle.data.head, { world with oracle.data := world.oracle.data.tail })
  | .metadata => (.ok world.oracle.metadata.head, { world with oracle.metadata := world.oracle.metadata.tail })

/-- An allocation by `kmalloc` and its relatives, or by `xa_reserve`. -/
def allocate : Effect World Errno Unit := fun world =>
  (if world.oracle.alloc.head then .ok () else .error .enomem,
    { world with oracle.alloc := world.oracle.alloc.tail })

/-- `zns_block_read`, and a cloned bio read of one block. -/
def blockRead (lane : Lane) (sector : Nat) : Effect World Errno (Nat → UInt8) := do
  match ← draw lane with
  | .ok => do
    let world ← Effect.get
    pure (world.block sector)
  | .fail error _ => Effect.fail error

/-- Submit one block at a sector whose zone is known. -/
def submit (index : Nat) (extent : Extent) (sector : Nat) (bytes : Nat → UInt8) (fate : Fate) :
    Effect World Errno Unit := do
  let world ← Effect.get
  if world.Accepts index extent sector then
    match fate with
    | .ok => Effect.modify fun world => world.commit index extent sector bytes
    | .fail error spill => do
      Effect.modify fun world => match spill with
        | none => world
        | some spill => world.scatter index extent spill
      Effect.fail error
  else Effect.fail .eio

/-- `zns_block_write`, and a cloned bio write of one block. -/
def blockWrite (lane : Lane) (sector : Nat) (bytes : Nat → UInt8) : Effect World Errno Unit := do
  let fate ← draw lane
  Effect.modify fun world => world.record lane sector
  let world ← Effect.get
  match world.zoneOf sector with
  | none => Effect.fail .eio
  | some index =>
    match world.geometry.zones[index]? with
    | none => Effect.fail .eio
    | some extent => submit index extent sector bytes fate

/-- `blkdev_zone_mgmt(REQ_OP_ZONE_RESET)` of one zone. A refused reset leaves the
zone as it was. -/
def zoneReset (start : Nat) : Effect World Errno Unit := do
  match ← draw .data with
  | .fail error _ => Effect.fail error
  | .ok => do
    let world ← Effect.get
    match world.zoneOf start with
    | none => Effect.fail .eio
    | some index =>
      match world.geometry.zones[index]? with
      | none => Effect.fail .eio
      | some extent =>
        if world.condition index = .readonly ∨ world.condition index = .offline then Effect.fail .eio
        else Effect.modify fun world =>
          { world with
            media := overlay world.media (extent.start * sectorBytes) (extent.len * sectorBytes) (fun _ => 0)
            }.setZone index extent.start .empty

/-- `zns_zone_report_one`: the zone that holds a sector, id left at zero. -/
def zoneReportOne (sector : Nat) : Effect World Errno Zone := do
  match ← draw .data with
  | .fail error _ => Effect.fail error
  | .ok => do
    let world ← Effect.get
    match world.zoneOf sector with
    | none => Effect.fail .eio
    | some index =>
      match world.geometry.zones[index]? with
      | none => Effect.fail .eio
      | some extent => pure (world.report 0 index extent)

/-- `zns_zone_table_init`. The block layer counts the reported zones in an `int`,
so a report of `2 ^ 31` zones or more comes back as an error. -/
def zoneTableInit : Effect World Errno (List Zone) := do
  let world ← Effect.get
  if world.geometry.zones = [] then Effect.fail .enodev
  else do
    allocate
    match ← draw .data with
    | .fail error _ => Effect.fail error
    | .ok =>
      if world.geometry.zones.length ≥ 2 ^ 31 then Effect.fail .eio
      else pure (world.geometry.zones.mapIdx fun index extent => world.report index index extent)

end ZnsBase
