import ZnsBase.LsmInit

/-! Block I/O requests as the target serves them: the range check of `.map()`,
the ordered I/O worker, and the fragment loops behind partial requests. -/

namespace ZnsBase
open Library

inductive BioOp where
  | read
  | write
  | flush
  | other
  deriving DecidableEq, Repr

/-- A bio: its segments' lengths in bytes, and its data as if the segments were
one memory. -/
structure Bio where
  op : BioOp
  sector : Nat
  segments : List Nat
  data : Nat → UInt8

namespace Bio

def size (bio : Bio) : Nat := bio.segments.sum

def sectors (bio : Bio) : Nat := bio.size / sectorBytes

end Bio

/-- The loop variables of `zns_lsm_copy_fragment`: where the current segment
starts, the offset left, the bytes copied, and both memories. -/
structure FragmentCopy where
  base : Nat
  offset : Nat
  copied : Nat
  data : Nat → UInt8
  buffer : Nat → UInt8

/-- The loop of `zns_lsm_copy_fragment` over the segments left, between the bio
and the part of the buffer that starts at `place`. -/
def copySegments (place bytes : Nat) (toBio : Bool) : List Nat → FragmentCopy → Except Errno Unit × FragmentCopy
  | [], copy => (.error .eio, copy)
  | length :: rest, copy =>
    if copy.offset ≥ length then
      copySegments place bytes toBio rest
        { copy with base := copy.base + length, offset := copy.offset - length }
    else
      let chunk := min (bytes - copy.copied) (length - copy.offset)
      let copy :=
        if toBio then
          { copy with
            data := overlay copy.data (copy.base + copy.offset) chunk
              fun index => copy.buffer (place + copy.copied + index) }
        else
          { copy with
            buffer := overlay copy.buffer (place + copy.copied) chunk
              fun index => copy.data (copy.base + copy.offset + index) }
      let copy := { copy with copied := copy.copied + chunk }
      if copy.copied = bytes then (.ok (), copy)
      else copySegments place bytes toBio rest { copy with base := copy.base + length, offset := 0 }

def copyFragment (bio : Bio) (offset : Nat) (buffer : Nat → UInt8) (place bytes : Nat) (toBio : Bool) :
    Except Errno Unit × FragmentCopy :=
  copySegments place bytes toBio bio.segments ⟨0, offset, 0, bio.data, buffer⟩

namespace Lsm

/-- The part of a fragment loop's iteration that both directions share: offset
in the block, and sectors up to the end of the block or of the request. -/
def fragmentOffset (sector : Nat) : Nat := sector % blockSectors

def fragmentSectors (sector remaining : Nat) : Nat := min remaining (blockSectors - fragmentOffset sector)

/-- The block a fragment lies in, zeros if it was never written. -/
def fetchBlock (blockSector : Nat) : Effect Machine Errno (Nat → UInt8) := do
  match ← Effect.attempt (read blockSector blockSectors) with
  | .error .enodata => pure fun _ => 0
  | .error error => Effect.fail error
  | .ok physicalSector => onWorld (blockRead .data physicalSector)

/-- The loop of `zns_lsm_read_partial`. Every fragment covers a sector, so as
many rounds as sectors are enough. -/
def readFragments : Nat → Nat → Nat → Nat → Bio → Effect Machine Errno Bio
  | 0, _, _, _, bio => pure bio
  | rounds + 1, sector, remaining, bioOffset, bio =>
    if remaining = 0 then pure bio
    else do
      let offset := fragmentOffset sector
      let sectors := fragmentSectors sector remaining
      let bytes := sectors * sectorBytes
      let buffer ← fetchBlock (sector - offset)
      match copyFragment bio bioOffset buffer (offset * sectorBytes) bytes true with
      | (.error error, _) => Effect.fail error
      | (.ok (), copy) =>
        readFragments rounds (sector + sectors) (remaining - sectors) (bioOffset + bytes)
          { bio with data := copy.data }

def readPartial (bio : Bio) : Effect Machine Errno Bio := do
  onWorld allocate
  readFragments bio.sectors bio.sector bio.sectors 0 bio

/-- How a write request ended: its status, and the sectors left when it did. The
fragments before those were acknowledged one by one. -/
structure WriteOutcome where
  status : Except Errno Unit
  remaining : Nat
  deriving DecidableEq, Repr

variable [Kernel]

/-- One iteration of `zns_lsm_write_partial`: the buffer it leaves behind. A full
fragment overwrites the whole buffer and needs no read. -/
def writeFragment (params : Params) (sector remaining bioOffset : Nat) (bio : Bio) (buffer : Nat → UInt8) :
    Effect Machine Errno (Nat → UInt8) := do
  let offset := fragmentOffset sector
  let sectors := fragmentSectors sector remaining
  let buffer ← if offset ≠ 0 ∨ sectors ≠ blockSectors then fetchBlock (sector - offset) else pure buffer
  match copyFragment bio bioOffset buffer (offset * sectorBytes) (sectors * sectorBytes) false with
  | (.error error, _) => Effect.fail error
  | (.ok (), copy) => do
    appendWrite params (sector - offset) copy.buffer
    pure copy.buffer

/-- The loop of `zns_lsm_write_partial`. Requests are not transactions: earlier
fragments stay when a later one fails. -/
def writeFragments (params : Params) : Nat → Nat → Nat → Nat → Bio → (Nat → UInt8) → Machine → WriteOutcome × Machine
  | 0, _, remaining, _, _, _, machine => (⟨.ok (), remaining⟩, machine)
  | rounds + 1, sector, remaining, bioOffset, bio, buffer, machine =>
    if remaining = 0 then (⟨.ok (), remaining⟩, machine)
    else match writeFragment params sector remaining bioOffset bio buffer machine with
      | (.error error, machine) => (⟨.error error, remaining⟩, machine)
      | (.ok buffer, machine) =>
        let sectors := fragmentSectors sector remaining
        writeFragments params rounds (sector + sectors) (remaining - sectors) (bioOffset + sectors * sectorBytes)
          bio buffer machine

def writePartial (params : Params) (bio : Bio) (machine : Machine) : WriteOutcome × Machine :=
  if machine.lsm.writesStopped then (⟨.error .eio, bio.sectors⟩, machine)
  else match onWorld allocate machine with
    | (.error error, machine) => (⟨.error error, bio.sectors⟩, machine)
    | (.ok (), machine) => writeFragments params bio.sectors bio.sector bio.sectors 0 bio (fun _ => 0) machine

/-- The read half of `zns_lsm_io_worker`; an aligned block goes through a clone
of the bio. -/
def ioRead (bio : Bio) : Effect Machine Errno Bio := do
  if isAlignedIo bio.sector bio.sectors = false then readPartial bio
  else do
    onWorld allocate
    match ← Effect.attempt (read bio.sector bio.sectors) with
    | .error .enodata => pure { bio with data := overlay bio.data 0 bio.size fun _ => 0 }
    | .error error => Effect.fail error
    | .ok physicalSector => do
      let block ← onWorld (blockRead .data physicalSector)
      pure { bio with data := overlay bio.data 0 bio.size block }

/-- The write half of `zns_lsm_io_worker`. -/
def ioWrite (params : Params) (bio : Bio) (machine : Machine) : WriteOutcome × Machine :=
  if isAlignedIo bio.sector bio.sectors = false then writePartial params bio machine
  else match onWorld allocate machine with
    | (.error error, machine) => (⟨.error error, bio.sectors⟩, machine)
    | (.ok (), machine) =>
      match appendWrite params bio.sector bio.data machine with
      | (.error error, machine) => (⟨.error error, bio.sectors⟩, machine)
      | (.ok (), machine) => (⟨.ok (), 0⟩, machine)

/-- How the target answered a bio: refused by `.map()`, or completed. -/
inductive Reply where
  | killed
  | read (result : Except Errno Bio)
  | wrote (outcome : WriteOutcome)
  | flushed (result : Except Errno Unit)

omit [Kernel] in
/-- A flush goes to the lower device as it is. -/
def ioFlush : Effect Machine Errno Unit := do
  onWorld allocate
  match ← onWorld (draw .data) with
  | .ok => pure ()
  | .fail error _ => Effect.fail error

/-- `zns_lsm_io_worker`; `.map()` queues nothing else. -/
def ioWorker (params : Params) (bio : Bio) (machine : Machine) : Reply × Machine :=
  match bio.op with
  | .read => (.read (ioRead bio machine).1, (ioRead bio machine).2)
  | .write => (.wrote (ioWrite params bio machine).1, (ioWrite params bio machine).2)
  | .flush => (.flushed (ioFlush machine).1, (ioFlush machine).2)
  | .other => (.killed, machine)

/-- `zns_lsm_queue_io`; the ordered queue serves one request at a time. -/
def queueIo (params : Params) (bio : Bio) (machine : Machine) : Reply × Machine :=
  match onWorld allocate machine with
  | (.error _, machine) => (.killed, machine)
  | (.ok (), machine) => ioWorker params bio machine

omit [Kernel] in
/-- What `zns_engine_map` lets through: whole sectors inside the target. -/
def InRange (lsm : Lsm) (bio : Bio) : Prop :=
  bio.size ≠ 0 ∧ bio.size % sectorBytes = 0 ∧ bio.sector < lsm.super.logicalSectors ∧
    bio.sectors ≤ lsm.super.logicalSectors - bio.sector

omit [Kernel] in
instance (lsm : Lsm) (bio : Bio) : Decidable (InRange lsm bio) := inferInstanceAs (Decidable (_ ∧ _ ∧ _ ∧ _))

/-- `zns_engine_map`. -/
def engineMap (params : Params) (bio : Bio) (machine : Machine) : Reply × Machine :=
  match bio.op with
  | .flush => queueIo params bio machine
  | .read | .write => if InRange machine.lsm bio then queueIo params bio machine else (.killed, machine)
  | .other => (.killed, machine)

/-- What can happen to an attached engine: a bio arrives, or the flush
workqueue gets to run between two bios. -/
inductive Event where
  | bio (bio : Bio)
  | flushWork

/-- Handle one event; a reply goes out for each bio. -/
def handle (params : Params) : Event → Machine → Option Reply × Machine
  | .bio bio, machine => (some (engineMap params bio machine).1, (engineMap params bio machine).2)
  | .flushWork, machine => (none, flushWorker machine)

/-- Handle events in order. -/
def run (params : Params) : List Event → Machine → Machine
  | [], machine => machine
  | event :: events, machine => run params events (handle params event machine).2

end Lsm
end ZnsBase
