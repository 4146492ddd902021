import ZnsBase.Append4k
import ZnsBase.Target

/-! `.map()` of the two 4 KiB append engines over a lower device. A remapped bio
is the lower device's, which carries it out at any later time, in any order with
the other bios it holds. -/

namespace ZnsBase
open Library

/-- Where a bio stands. `zeroFilled` bios were completed by the engine itself. -/
inductive BioPc where
  | submitted
  | placed (physicalSector : Nat)
  | remapped (physicalSector : Nat)
  | zeroFilled
  | killed
  | completed (physicalSector : Nat) (result : Except Errno (Nat → UInt8))

/-- What the lower device makes of a bio: a failed write leaves anything in the
sectors it was for. -/
inductive LowerIo where
  | done
  | failed (error : Errno) (left : Nat → UInt8)

/-- The lower device carries out a bio at a sector: its status, its data and the
media. Bios are whole sectors. -/
def lowerIo (bio : Bio) (sector : Nat) (fate : LowerIo) (media : Nat → UInt8) : Except Errno (Nat → UInt8) × (Nat → UInt8) :=
  match bio.op, fate with
  | .write, .done => (.ok bio.data, overlay media (sector * sectorBytes) (bio.sectors * sectorBytes) bio.data)
  | .write, .failed error left => (.error error, overlay media (sector * sectorBytes) (bio.sectors * sectorBytes) left)
  | .read, .done =>
    (.ok (overlay bio.data 0 (bio.sectors * sectorBytes) fun index => media (sector * sectorBytes + index)), media)
  | _, .done => (.ok bio.data, media)
  | _, .failed error _ => (.error error, media)

/-- Where every bio stands, and the lower device. `stored` has the writes by the
stores of their mappings, oldest first; no step reads it. -/
structure Traffic where
  pc : Nat → BioPc
  media : Nat → UInt8
  stored : List Nat

namespace Traffic

def start (media : Nat → UInt8) : Traffic := ⟨fun _ => .submitted, media, []⟩

def setPc (traffic : Traffic) (thread : Nat) (pc : BioPc) : Traffic :=
  { traffic with pc := fun other => if other = thread then pc else traffic.pc other }

def store (traffic : Traffic) (thread : Nat) : Traffic := { traffic with stored := traffic.stored ++ [thread] }

/-- The lower device carries out the bio it was handed. -/
def lower (bios : Nat → Bio) (fates : Nat → LowerIo) (traffic : Traffic) (thread physicalSector : Nat) : Traffic :=
  let carried := lowerIo (bios thread) physicalSector (fates thread) traffic.media
  { traffic with media := carried.2 }.setPc thread (.completed physicalSector carried.1)

end Traffic

/-- The read branch of both `zns_engine_map`. -/
def append4kMapRead : Except Errno Nat → BioPc
  | .ok physicalSector => .remapped physicalSector
  | .error .enodata => .zeroFilled
  | .error _ => .killed

namespace Append4k

/-- `zns_engine_map` of `append4k`. -/
def engineMap (bio : Bio) (m : Append4k) : BioPc × Append4k :=
  match bio.op with
  | .flush => (.remapped bio.sector, m)
  | .read => (append4kMapRead (m.read bio.sector bio.sectors), m)
  | .write =>
    match m.write bio.sector bio.sectors with
    | (.error _, m) => (.killed, m)
    | (.ok physicalSector, m) => (.remapped physicalSector, m)
  | .other => (.killed, m)

/-- One critical section, or the lower device's work on one bio. -/
def turn (bios : Nat → Bio) (fates : Nat → LowerIo) (state : Append4k × Traffic) (thread : Nat) : Append4k × Traffic :=
  match state.2.pc thread with
  | .submitted =>
    match engineMap (bios thread) state.1 with
    | (.remapped physicalSector, m) =>
      let mapped := state.2.setPc thread (.remapped physicalSector)
      (m, if (bios thread).op = .write then mapped.store thread else mapped)
    | (pc, m) => (m, state.2.setPc thread pc)
  | .remapped physicalSector => (state.1, state.2.lower bios fates thread physicalSector)
  | _ => state

/-- Any interleaving of the bios, each with a thread of its own. -/
def serve (bios : Nat → Bio) (fates : Nat → LowerIo) (state : Append4k × Traffic) (schedule : List Nat) : Append4k × Traffic :=
  schedule.foldl (turn bios fates) state

end Append4k

namespace Append4kAlloc

/-- `zns_engine_map` of `append4k-alloc` up to the return of `zns_allocator_alloc`
for a write, to its end for any other bio. -/
def engineMap (bio : Bio) (m : Append4kAlloc) : BioPc × Append4kAlloc :=
  match bio.op with
  | .flush => (.remapped bio.sector, m)
  | .read => (append4kMapRead (m.read bio.sector bio.sectors), m)
  | .write =>
    match m.writeAlloc bio.sector bio.sectors with
    | (.error _, m) => (.killed, m)
    | (.ok physicalSector, m) => (.placed physicalSector, m)
  | .other => (.killed, m)

def turn (bios : Nat → Bio) (fates : Nat → LowerIo) (state : Append4kAlloc × Traffic) (thread : Nat) :
    Append4kAlloc × Traffic :=
  match state.2.pc thread with
  | .submitted => ((engineMap (bios thread) state.1).2, state.2.setPc thread (engineMap (bios thread) state.1).1)
  | .placed physicalSector =>
    (state.1.writeStore (bios thread).sector physicalSector, (state.2.setPc thread (.remapped physicalSector)).store thread)
  | .remapped physicalSector => (state.1, state.2.lower bios fates thread physicalSector)
  | _ => state

def serve (bios : Nat → Bio) (fates : Nat → LowerIo) (state : Append4kAlloc × Traffic) (schedule : List Nat) :
    Append4kAlloc × Traffic := schedule.foldl (turn bios fates) state

end Append4kAlloc
end ZnsBase
