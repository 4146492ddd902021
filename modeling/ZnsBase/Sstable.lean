import ZnsBase.Memtable

/-! On-disk SSTables (`lsm-sstable.c`): a header block followed by blocks of 256
entries in logical-block order, the last one padded with zeros. Blocks are byte
memories of which the first 4096 bytes count. -/

namespace ZnsBase
open Library

/-- One step of the kernel's `crc32_le`: reflected polynomial, no inversion. -/
def crc32Bit (crc : BitVec 32) : BitVec 32 :=
  if crc.getLsbD 0 then (crc >>> 1) ^^^ 0xEDB88320#32 else crc >>> 1

def crc32Byte (crc : BitVec 32) (byte : UInt8) : BitVec 32 :=
  let folded := crc ^^^ BitVec.ofNat 32 byte.toNat
  crc32Bit (crc32Bit (crc32Bit (crc32Bit (crc32Bit (crc32Bit (crc32Bit (crc32Bit folded)))))))

/-- `crc32_le` over `count` bytes from `start` on. -/
def crc32Le (crc : BitVec 32) (memory : Nat → UInt8) (start : Nat) : Nat → BitVec 32
  | 0 => crc
  | count + 1 => crc32Byte (crc32Le crc memory start count) (memory (start + count))

/-- `struct zns_sstable`, the in-memory index of one flushed table. -/
structure Sstable where
  startSector : Nat
  nrEntries : Nat
  nrBlocks : Nat
  minKey : Nat
  maxKey : Nat
  seq : Nat
  payloadCrc : Nat
  deriving DecidableEq, Repr

def sstMagic : Nat := 0x5a4e53535354424b
def sstVersion : Nat := 1
def entriesPerBlock : Nat := 256
def entryBytes : Nat := 16

def sstNrBlocks (nrEntries : Nat) : Nat := (1 + (nrEntries + entriesPerBlock - 1) / entriesPerBlock) % 2 ^ 32

def sstEntriesInBlock (nrEntries blockIndex : Nat) : Nat :=
  let consumed := blockIndex * entriesPerBlock % 2 ^ 32
  if consumed ≥ nrEntries then 0 else min (nrEntries - consumed) entriesPerBlock

def sstEncodeHeader (sst : Sstable) (payloadCrc : Nat) : Nat → UInt8 :=
  let block := leStore (fun _ => 0) 0 8 sstMagic
  let block := leStore block 8 4 sstVersion
  let block := leStore block 12 4 sst.nrEntries
  let block := leStore block 16 4 sst.nrBlocks
  let block := leStore block 20 4 payloadCrc
  let block := leStore block 24 8 sst.seq
  let block := leStore block 32 8 sst.minKey
  leStore block 40 8 sst.maxKey

/-- `zns_sst_decode_header` with the caller's `start_sector`. -/
def sstDecodeHeader (block : Nat → UInt8) (startSector : Nat) : Except Errno Sstable :=
  if leValue block 0 8 ≠ sstMagic then .error .einval
  else if leValue block 8 4 ≠ sstVersion then .error .einval
  else
    let nrEntries := leValue block 12 4
    let nrBlocks := leValue block 16 4
    if nrEntries = 0 ∨ nrBlocks ≠ sstNrBlocks nrEntries then .error .einval
    else
      let minKey := leValue block 32 8
      let maxKey := leValue block 40 8
      if minKey > maxKey then .error .einval
      else .ok {
        startSector, nrEntries, nrBlocks, minKey, maxKey
        seq := leValue block 24 8
        payloadCrc := leValue block 20 4 }

/-- `struct zns_sst_disk_entry` number `index` of a payload block. -/
def sstEntryKey (block : Nat → UInt8) (index : Nat) : Nat := leValue block (index * entryBytes) 8

def sstEntrySector (block : Nat → UInt8) (index : Nat) : Nat := leValue block (index * entryBytes + 8) 8

def sstStoreEntry (block : Nat → UInt8) (index : Nat) (entry : Entry) : Nat → UInt8 :=
  leStore (leStore block (index * entryBytes) 8 entry.logicalBlock) (index * entryBytes + 8) 8 entry.physicalSector

def sstBlockFirstKey (block : Nat → UInt8) : Nat := sstEntryKey block 0

/-- The search of `zns_sst_block_find`; each round at least halves the range, so
as many rounds as entries are more than enough. -/
def sstBlockSearch (block : Nat → UInt8) (logicalBlock : Nat) : Nat → Nat → Nat → Except Errno Nat
  | 0, _, _ => .error .enodata
  | rounds + 1, low, high =>
    if low < high then
      let mid := low + (high - low) / 2
      let key := sstEntryKey block mid
      if key < logicalBlock then sstBlockSearch block logicalBlock rounds (mid + 1) high
      else if key > logicalBlock then sstBlockSearch block logicalBlock rounds low mid
      else .ok (sstEntrySector block mid)
    else .error .enodata

def sstBlockFind (block : Nat → UInt8) (nrInBlock logicalBlock : Nat) : Except Errno Nat :=
  if nrInBlock = 0 ∨ nrInBlock > entriesPerBlock then .error .einval
  else sstBlockSearch block logicalBlock (nrInBlock + 1) 0 nrInBlock

/-- `struct zns_sst_write_ctx` together with the device it writes to. -/
structure SstWriter where
  sector : Nat
  crc : BitVec 32
  write : Bool
  world : World

/-- `zns_sst_consume_block`. -/
def sstConsumeBlock (block : Nat → UInt8) : Effect SstWriter Errno Unit := do
  Effect.modify fun writer => { writer with crc := crc32Le writer.crc block 0 blockBytes }
  let writer ← Effect.get
  if writer.write = false then pure ()
  else do
    Effect.zoom SstWriter.world (fun writer world => { writer with world })
      (blockWrite .metadata writer.sector block)
    Effect.modify fun writer => { writer with sector := writer.sector + blockSectors }

/-- The walk of `zns_sst_emit_payload` from a block already holding `nrInBlock`
entries. -/
def sstEmitEntries : List Entry → (Nat → UInt8) → Nat → Effect SstWriter Errno Unit
  | [], block, nrInBlock => if nrInBlock = 0 then pure () else sstConsumeBlock block
  | entry :: rest, block, nrInBlock =>
    let block := sstStoreEntry block nrInBlock entry
    if nrInBlock + 1 < entriesPerBlock then sstEmitEntries rest block (nrInBlock + 1)
    else do
      sstConsumeBlock block
      sstEmitEntries rest (fun _ => 0) 0

def sstEmitPayload (memtable : Memtable) : Effect SstWriter Errno Unit :=
  sstEmitEntries memtable.root.inorder (fun _ => 0) 0

/-- `zns_sst_scan_memtable`, from what has been counted so far. -/
def sstScanEntries : List Entry → Sstable → Sstable
  | [], sst => sst
  | entry :: rest, sst =>
    sstScanEntries rest
      { sst with
        minKey := if sst.nrEntries = 0 then entry.logicalBlock else sst.minKey
        maxKey := entry.logicalBlock
        nrEntries := (sst.nrEntries + 1) % 2 ^ 32 }

/-- Status, index and `*consumed` of a call of `zns_sst_write`. -/
structure SstWritten where
  result : Except Errno Sstable
  consumed : Nat
  deriving DecidableEq, Repr

/-- The two passes over the payload: the checksum first, since the header
carries it, then header and payload. -/
def sstWriteBlocks (memtable : Memtable) (sst : Sstable) (world : World) : SstWritten × World :=
  let summed := (sstEmitPayload memtable ⟨sst.startSector + blockSectors, 0, false, world⟩).2
  match blockWrite .metadata sst.startSector (sstEncodeHeader sst summed.crc.toNat) summed.world with
  | (.error error, world) => (⟨.error error, 0⟩, world)
  | (.ok (), world) =>
    match sstEmitPayload memtable ⟨sst.startSector + blockSectors, 0, true, world⟩ with
    -- What reached the zone is reported even on failure.
    | (.error error, writer) => (⟨.error error, writer.sector - sst.startSector⟩, writer.world)
    | (.ok (), writer) => (⟨.ok sst, writer.sector - sst.startSector⟩, writer.world)

def sstWrite (memtable : Memtable) (startSector endSector seq : Nat) (world : World) : SstWritten × World :=
  if startSector ≥ endSector then (⟨.error .enospc, 0⟩, world)
  else match allocate world with
    | (.error error, world) => (⟨.error error, 0⟩, world)
    | (.ok (), world) =>
      let scanned := sstScanEntries memtable.root.inorder ⟨startSector, 0, 0, 0, 0, seq, 0⟩
      if scanned.nrEntries = 0 then (⟨.error .enodata, 0⟩, world)
      else
        let sst := { scanned with nrBlocks := sstNrBlocks scanned.nrEntries }
        if sst.nrBlocks * blockSectors > endSector - startSector then (⟨.error .enospc, 0⟩, world)
        else match allocate world with
          | (.error error, world) => (⟨.error error, 0⟩, world)
          | (.ok (), world) => sstWriteBlocks memtable sst world

/-- A header that claims more blocks than lie below `limit` is refused: its
payload never reached the zone. -/
def sstLoad (sector limit : Nat) : Effect World Errno Sstable := do
  if sector ≥ limit then Effect.fail .einval
  else do
    allocate
    allocate
    let block ← blockRead .metadata sector
    let sst ← Effect.ofExcept (sstDecodeHeader block sector)
    if sst.nrBlocks * blockSectors > limit - sector then Effect.fail .einval
    else pure sst

/-- The bounce block of `zns_sst_lookup` and the payload block it holds. -/
structure SstCache where
  cached : Nat
  block : Nat → UInt8

def sstReadPayloadBlock (sst : Sstable) (blockIndex : Nat) (cache : SstCache) : Effect World Errno SstCache :=
  if cache.cached = blockIndex then pure cache
  else do
    let block ← blockRead .metadata (sst.startSector + (blockIndex + 1) * blockSectors)
    pure ⟨blockIndex, block⟩

/-- Locate the last payload block whose first key is not above the wanted one. -/
def sstLocate (sst : Sstable) (logicalBlock : Nat) : Nat → Nat → Nat → SstCache → Effect World Errno (Nat × SstCache)
  | 0, low, _, cache => pure (low, cache)
  | rounds + 1, low, high, cache =>
    if low < high then do
      let mid := low + (high - low + 1) / 2
      let cache ← sstReadPayloadBlock sst mid cache
      if sstBlockFirstKey cache.block ≤ logicalBlock then sstLocate sst logicalBlock rounds mid high cache
      else sstLocate sst logicalBlock rounds low (mid - 1) cache
    else pure (low, cache)

def sstLookup (sst : Sstable) (logicalBlock : Nat) : Effect World Errno Nat := do
  if sst.nrBlocks < 2 then Effect.fail .einval
  else if logicalBlock < sst.minKey ∨ logicalBlock > sst.maxKey then Effect.fail .enodata
  else do
    allocate
    let high := sst.nrBlocks - 2
    let (low, cache) ← sstLocate sst logicalBlock (high + 1) 0 high ⟨2 ^ 32 - 1, fun _ => 0⟩
    let cache ← sstReadPayloadBlock sst low cache
    Effect.ofExcept (sstBlockFind cache.block (sstEntriesInBlock sst.nrEntries low) logicalBlock)

end ZnsBase
