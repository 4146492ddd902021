import ZnsBase.Sstable

/-! The superblock of the metadata zone (`lsm-super.c`): the geometry a format
was made with, written once and compared at every later start. -/

namespace ZnsBase
open Library

structure Super where
  uuid : Nat
  logicalSectors : Nat
  zoneSizeSectors : Nat
  nrZones : Nat
  metaZoneId : Nat
  sectorsPerBlock : Nat
  deriving DecidableEq, Repr

def superMagic : Nat := 0x5a4e535355504552
def superVersion : Nat := 1

/-- Everything from the uuid on, padding included. -/
def superCrc (block : Nat → UInt8) : Nat := (crc32Le 0 block 16 (blockBytes - 16)).toNat

/-- The fields of the superblock before its checksum is filled in. -/
def superFields (super : Super) : Nat → UInt8 :=
  let block := leStore (fun _ => 0) 0 8 superMagic
  let block := leStore block 8 4 superVersion
  let block := leStore block 16 8 super.uuid
  let block := leStore block 24 8 super.logicalSectors
  let block := leStore block 32 8 super.zoneSizeSectors
  let block := leStore block 40 4 super.nrZones
  let block := leStore block 44 4 super.metaZoneId
  leStore block 48 4 super.sectorsPerBlock

def superEncode (super : Super) : Nat → UInt8 :=
  leStore (superFields super) 12 4 (superCrc (superFields super))

def superDecode (block : Nat → UInt8) : Except Errno Super :=
  if leValue block 0 8 ≠ superMagic then .error .einval
  else if leValue block 8 4 ≠ superVersion then .error .einval
  else if leValue block 12 4 ≠ superCrc block then .error .einval
  else .ok {
    uuid := leValue block 16 8
    logicalSectors := leValue block 24 8
    zoneSizeSectors := leValue block 32 8
    nrZones := leValue block 40 4
    metaZoneId := leValue block 44 4
    sectorsPerBlock := leValue block 48 4 }

def superCompare (onDisk device : Nat) : Except Errno Unit :=
  if onDisk = device then .ok () else .error .einval

/-- The uuid identifies one format and is not compared. -/
def superMatches (onDisk device : Super) : Except Errno Unit := do
  superCompare onDisk.sectorsPerBlock device.sectorsPerBlock
  superCompare onDisk.nrZones device.nrZones
  superCompare onDisk.zoneSizeSectors device.zoneSizeSectors
  superCompare onDisk.metaZoneId device.metaZoneId
  superCompare onDisk.logicalSectors device.logicalSectors

def superWrite (sector : Nat) (super : Super) : Effect World Errno Unit := do
  allocate
  blockWrite .metadata sector (superEncode super)

def superRead (sector : Nat) : Effect World Errno Super := do
  allocate
  let block ← blockRead .metadata sector
  Effect.ofExcept (superDecode block)

end ZnsBase
