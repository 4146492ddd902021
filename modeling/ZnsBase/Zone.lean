import Mathlib.Algebra.Order.Ring.Nat

/-! Zones as the target keeps them (`zns-zone.h`), and the status codes shared
by every component. Sectors are natural numbers: the zones the allocator accepts
end below `2 ^ 64`, so none of the sums below wraps. -/

namespace ZnsBase

/-- The negative return values of the C code. A lower I/O error may carry any
code the block layer reports, so the list is open. -/
inductive Errno where
  | einval
  | enomem
  | enospc
  | eio
  | enodata
  | eexist
  | ebusy
  | enodev
  | eopnotsupp
  | other (code : Nat)
  deriving DecidableEq, Repr

instance decidableEqExcept {ε α : Type} [DecidableEq ε] [DecidableEq α] : DecidableEq (Except ε α)
  | .ok first, .ok second => decidable_of_iff (first = second) ⟨congrArg Except.ok, Except.ok.inj⟩
  | .error first, .error second => decidable_of_iff (first = second) ⟨congrArg Except.error, Except.error.inj⟩
  | .ok _, .error _ => .isFalse nofun
  | .error _, .ok _ => .isFalse nofun

/-- `BLK_ZONE_COND_*`. -/
inductive ZoneCond where
  | notWp
  | empty
  | impOpen
  | expOpen
  | closed
  | readonly
  | full
  | offline
  | reserved (code : Nat)
  deriving DecidableEq, Repr

/-- `ZNS_SST_BLOCK_SECTORS`, and the only block size `zns_engine_init` takes. -/
def blockSectors : Nat := 8

def sectorBytes : Nat := 512

/-- `ZNS_SST_BLOCK_BYTES`. -/
def blockBytes : Nat := 4096

/-- `struct zns_zone`. -/
structure Zone where
  id : Nat
  startSector : Nat
  length : Nat
  capacity : Nat
  writePointer : Nat
  condition : ZoneCond
  active : Bool
  deriving DecidableEq, Repr

namespace Zone

def endSector (zone : Zone) : Nat := zone.startSector + zone.capacity

/-- `zns_zone_can_append`. -/
def CanAppend (zone : Zone) (sectorsPerBlock : Nat) : Prop :=
  zone.condition ≠ .full ∧ zone.condition ≠ .readonly ∧ zone.condition ≠ .offline ∧
    zone.writePointer ≤ zone.endSector ∧ sectorsPerBlock ≤ zone.endSector - zone.writePointer

instance (zone : Zone) (sectorsPerBlock : Nat) : Decidable (zone.CanAppend sectorsPerBlock) :=
  inferInstanceAs (Decidable (_ ∧ _))

/-- `zns_zone_is_writable`. -/
def IsWritable (zone : Zone) : Prop :=
  zone.condition ≠ .full ∧ zone.condition ≠ .readonly ∧ zone.condition ≠ .offline

instance (zone : Zone) : Decidable zone.IsWritable := inferInstanceAs (Decidable (_ ∧ _))

/-- `zns_zone_metadata_valid`. -/
def MetadataValid (zone : Zone) : Prop :=
  zone.length ≠ 0 ∧ zone.capacity ≤ zone.length ∧
    zone.capacity ≤ 2 ^ 64 - 1 - zone.startSector ∧
    (zone.IsWritable → zone.startSector ≤ zone.writePointer ∧ zone.writePointer ≤ zone.endSector)

instance (zone : Zone) : Decidable zone.MetadataValid :=
  inferInstanceAs (Decidable (_ ∧ _ ∧ _ ∧ (_ → _)))

theorem CanAppend.isWritable {zone : Zone} {sectorsPerBlock : Nat} (room : zone.CanAppend sectorsPerBlock) :
    zone.IsWritable := ⟨room.1, room.2.1, room.2.2.1⟩

theorem CanAppend.fits {zone : Zone} {sectorsPerBlock : Nat} (room : zone.CanAppend sectorsPerBlock) :
    zone.writePointer + sectorsPerBlock ≤ zone.endSector := by
  obtain ⟨_, _, _, below, fits⟩ := room
  omega

theorem canAppend_iff {zone : Zone} {sectorsPerBlock : Nat} (positive : 0 < sectorsPerBlock) :
    zone.CanAppend sectorsPerBlock ↔
      zone.IsWritable ∧ zone.writePointer + sectorsPerBlock ≤ zone.endSector := by
  constructor
  · exact fun room => ⟨room.isWritable, room.fits⟩
  · rintro ⟨⟨notFull, notReadonly, notOffline⟩, fits⟩
    exact ⟨notFull, notReadonly, notOffline, by omega, by omega⟩

end Zone
end ZnsBase
