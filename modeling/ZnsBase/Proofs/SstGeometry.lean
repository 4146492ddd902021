import ZnsBase.Proofs.SstImage

/-! The block layout of a table, from the widths of the C types: how many payload
blocks there are, how many entries each of them has, and where it starts. -/

namespace ZnsBase
open Library

/-- `(sector_t)(block_index + 1) * ZNS_SST_BLOCK_SECTORS` of
`zns_sst_read_payload_block`: the sum has 32 bits, the product 64. -/
def readPayloadOffset (blockIndex : Nat) : Nat := (blockIndex + 1) % 2 ^ 32 * blockSectors % 2 ^ 64

/-- `(page + 1) * ZNS_SST_BLOCK_SECTORS` of `zns_lsm_gc_rebuild`, all in 32 bits. -/
def gcRebuildOffset (page : Nat) : Nat := (page + 1) % 2 ^ 32 * blockSectors % 2 ^ 32

/-- Store entries in a block from a place on. -/
def fillBlock : List Entry → (Nat → UInt8) → Nat → (Nat → UInt8)
  | [], block, _ => block
  | entry :: rest, block, nrInBlock => fillBlock rest (sstStoreEntry block nrInBlock entry) (nrInBlock + 1)

/-- The walk fills the open block and starts over with the entries that are left. -/
theorem payloadBlocks_cons (entries : List Entry) (block : Nat → UInt8) {nrInBlock : Nat} (bound : nrInBlock < 256)
    (some_ : nrInBlock ≠ 0 ∨ entries ≠ []) : payloadBlocks entries block nrInBlock =
      fillBlock (entries.take (256 - nrInBlock)) block nrInBlock :: payloadBlocks (entries.drop (256 - nrInBlock)) (fun _ => 0) 0 := by
  induction entries generalizing block nrInBlock with
  | nil =>
    rw [payloadBlocks, if_neg (by simpa using some_), List.take_nil, List.drop_nil]
    rfl
  | cons entry rest ih =>
    rw [payloadBlocks]
    unfold entriesPerBlock
    split
    next more =>
      rw [ih _ more (Or.inl (Nat.succ_ne_zero nrInBlock)), show 256 - nrInBlock = 256 - (nrInBlock + 1) + 1 by omega,
        List.take_succ_cons, List.drop_succ_cons, fillBlock]
    next full =>
      rw [show 256 - nrInBlock = 0 + 1 by omega, List.take_succ_cons, List.drop_succ_cons, List.take_zero, List.drop_zero]
      rfl

theorem payloadBlocks_pages (entries : List Entry) : payloadBlocks entries (fun _ => 0) 0 =
    (List.range ((entries.length + 255) / 256)).map fun page =>
      fillBlock ((entries.drop (page * 256)).take 256) (fun _ => 0) 0 := by
  generalize size : (entries.length + 255) / 256 = pages
  induction pages generalizing entries with
  | zero =>
    obtain rfl : entries = [] := List.length_eq_zero_iff.mp (by omega)
    rfl
  | succ pages ih =>
    have some_ : entries ≠ [] := by
      rintro rfl
      simp at size
    have left : ((entries.drop 256).length + 255) / 256 = pages := by
      rw [List.length_drop]
      omega
    rw [payloadBlocks_cons entries _ (by omega) (Or.inr some_), Nat.sub_zero, ih _ left, List.range_succ_eq_map, List.map_cons,
      List.map_map, Nat.zero_mul, List.drop_zero]
    refine congrArg _ (List.map_congr_left fun page _ => ?_)
    rw [Function.comp_apply, List.drop_drop, Nat.succ_mul, Nat.add_comm 256]

/-- The entries of the first blocks. -/
theorem sum_entriesInBlock {nrEntries : Nat} (limited : nrEntries < 2 ^ 32) (pages : Nat)
    (covered : pages ≤ (nrEntries + 255) / 256) :
    ((List.range pages).map (sstEntriesInBlock nrEntries)).sum = min nrEntries (pages * 256) := by
  induction pages with
  | zero => simp
  | succ pages ih =>
    rw [List.range_succ, List.map_append, List.sum_append, ih (by omega), List.map_singleton, List.sum_singleton,
      sstEntriesInBlock_eq limited (by omega)]
    omega

theorem payload_offsets {page : Nat} (small : page + 1 < 2 ^ 29) :
    gcRebuildOffset page = (page + 1) * blockSectors ∧ readPayloadOffset page = (page + 1) * blockSectors := by
  unfold gcRebuildOffset readPayloadOffset blockSectors
  omega

/-- Writer, lookup and rebuild see one layout, for every count a header can carry:
no product or sum in it is cut off. -/
theorem sst_geometry_never_truncates (nrEntries : Nat) (some_ : 1 ≤ nrEntries) (limited : nrEntries < 2 ^ 32) :
    (∀ page < sstNrBlocks nrEntries - 1, 1 ≤ sstEntriesInBlock nrEntries page ∧ sstEntriesInBlock nrEntries page ≤ 256 ∧
      (page + 1 < sstNrBlocks nrEntries - 1 → sstEntriesInBlock nrEntries page = 256)) ∧
    ((List.range (sstNrBlocks nrEntries - 1)).map (sstEntriesInBlock nrEntries)).sum = nrEntries ∧
    (∀ memtable : Memtable, memtable.root.inorder.length = nrEntries →
      (∀ page < sstNrBlocks nrEntries - 1,
        ((memtable.root.inorder.drop (page * 256)).take (sstEntriesInBlock nrEntries page)).length =
          sstEntriesInBlock nrEntries page) ∧
      sstEmitPayload memtable = consumeBlocks ((List.range (sstNrBlocks nrEntries - 1)).map fun page =>
        fillBlock ((memtable.root.inorder.drop (page * 256)).take (sstEntriesInBlock nrEntries page)) (fun _ => 0) 0)) ∧
    ∀ page < sstNrBlocks nrEntries - 1,
      gcRebuildOffset page = (page + 1) * blockSectors ∧ readPayloadOffset page = (page + 1) * blockSectors := by
  have blocks : sstNrBlocks nrEntries - 1 = (nrEntries + 255) / 256 := by
    rw [sstNrBlocks_eq limited]
    omega
  have count (page : Nat) (inside : page < (nrEntries + 255) / 256) :
      sstEntriesInBlock nrEntries page = min (nrEntries - page * 256) 256 := sstEntriesInBlock_eq limited (by omega)
  rw [blocks]
  refine ⟨fun page inside => ?_, ?_, fun memtable size => ⟨fun page inside => ?_, ?_⟩, fun page inside => payload_offsets (by omega)⟩
  · rw [count page inside]
    omega
  · rw [sum_entriesInBlock limited _ (Nat.le_refl _)]
    omega
  · rw [count page inside, List.length_take, List.length_drop, size]
    omega
  · rw [sstEmitPayload, sstEmitEntries_eq, payloadBlocks_pages, size]
    refine congrArg consumeBlocks (List.map_congr_left fun page inside => ?_)
    rw [count page (List.mem_range.mp inside)]
    congr 1
    rw [List.take_eq_take_iff, List.length_drop, size]
    omega

/-- The largest count of the format: `2 ^ 24` payload blocks, the last one entry short. -/
theorem sst_geometry_never_truncates_largest :
    ((List.range (sstNrBlocks (2 ^ 32 - 1) - 1)).map (sstEntriesInBlock (2 ^ 32 - 1))).sum = 2 ^ 32 - 1 ∧
      gcRebuildOffset (2 ^ 24 - 1) = 2 ^ 24 * 8 := by
  obtain ⟨_, sum, _, offsets⟩ := sst_geometry_never_truncates (2 ^ 32 - 1) (by decide) (by decide)
  exact ⟨sum, (offsets (2 ^ 24 - 1) (by decide)).1⟩

end ZnsBase
