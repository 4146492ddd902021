import ZnsBase.Library.Layers
import ZnsBase.Proofs.WorldFrame
import ZnsBase.Sstable

/-! Searching an SSTable. The payload is one sorted array of entries on the
device; the search over first keys of blocks and the search inside a block find
an entry exactly when the array has it. -/

namespace ZnsBase
open Library

namespace Sstable

def payloadStart (sst : Sstable) : Nat := (sst.startSector + blockSectors) * sectorBytes

def keyAt (media : Nat → UInt8) (sst : Sstable) (index : Nat) : Nat :=
  leValue media (sst.payloadStart + index * entryBytes) 8

def sectorAt (media : Nat → UInt8) (sst : Sstable) (index : Nat) : Nat :=
  leValue media (sst.payloadStart + index * entryBytes + 8) 8

/-- The mappings of a table as they lie on the device. -/
def entries (media : Nat → UInt8) (sst : Sstable) : List (Nat × Nat) :=
  (List.range sst.nrEntries).map fun index => (sst.keyAt media index, sst.sectorAt media index)

/-- The counts of a header fit together. -/
structure Sized (sst : Sstable) : Prop where
  limited : sst.nrEntries < 2 ^ 32
  blocks : sst.nrBlocks = sstNrBlocks sst.nrEntries

/-- What the search relies on. -/
structure Searchable (media : Nat → UInt8) (sst : Sstable) : Prop where
  filled : 0 < sst.nrEntries
  limited : sst.nrEntries < 2 ^ 32
  blocks : sst.nrBlocks = sstNrBlocks sst.nrEntries
  sorted : ∀ first second, first < second → second < sst.nrEntries → sst.keyAt media first < sst.keyAt media second
  lowest : sst.minKey = sst.keyAt media 0
  highest : sst.maxKey = sst.keyAt media (sst.nrEntries - 1)

theorem mem_entries {media : Nat → UInt8} {sst : Sstable} {pair : Nat × Nat} :
    pair ∈ sst.entries media ↔
      ∃ index < sst.nrEntries, sst.keyAt media index = pair.1 ∧ sst.sectorAt media index = pair.2 := by
  simp only [entries, List.mem_map, List.mem_range, Prod.ext_iff]

theorem Searchable.distinct {media : Nat → UInt8} {sst : Sstable} (searchable : sst.Searchable media) :
    (sst.entries media).Pairwise (fun first second => first.1 ≠ second.1) := by
  rw [entries, List.pairwise_map, List.pairwise_iff_getElem]
  intro first second low high less
  simp only [List.getElem_range]
  simp only [List.length_range] at high
  exact (searchable.sorted first second less high).ne

theorem Searchable.lookup_at {media : Nat → UInt8} {sst : Sstable} (searchable : sst.Searchable media) {index : Nat}
    (inside : index < sst.nrEntries) :
    (sst.entries media).lookup (sst.keyAt media index) = some (sst.sectorAt media index) := by
  rw [lookup_eq_some_iff searchable.distinct, mem_entries]
  exact ⟨index, inside, rfl, rfl⟩

theorem lookup_absent {media : Nat → UInt8} {sst : Sstable} {wanted : Nat}
    (absent : ∀ index < sst.nrEntries, sst.keyAt media index ≠ wanted) : (sst.entries media).lookup wanted = none := by
  rw [lookup_eq_none_iff]
  intro pair member
  obtain ⟨index, inside, key, _⟩ := mem_entries.mp member
  exact key ▸ absent index inside

theorem Searchable.monotone {media : Nat → UInt8} {sst : Sstable} (searchable : sst.Searchable media)
    {first second : Nat} (order : first ≤ second) (inside : second < sst.nrEntries) :
    sst.keyAt media first ≤ sst.keyAt media second := by
  rcases Nat.eq_or_lt_of_le order with rfl | less
  · exact Nat.le_refl _
  · exact (searchable.sorted first second less inside).le

end Sstable

/-- The search inside a block whose keys are sorted up to `count`. -/
private theorem sstBlockSearch_spec {block : Nat → UInt8} {count : Nat} (wanted rounds low high : Nat)
    (sorted : ∀ first second, first < second → second < count → sstEntryKey block first < sstEntryKey block second)
    (bound : high ≤ count) (enough : high - low < rounds) :
    (∀ index, low ≤ index → index < high → sstEntryKey block index = wanted →
      sstBlockSearch block wanted rounds low high = .ok (sstEntrySector block index)) ∧
    ((∀ index, low ≤ index → index < high → sstEntryKey block index ≠ wanted) →
      sstBlockSearch block wanted rounds low high = .error .enodata) := by
  induction rounds generalizing low high with
  | zero => omega
  | succ rounds ih =>
    rw [sstBlockSearch]
    by_cases open_ : low < high
    · rw [if_pos open_]
      dsimp only
      generalize same : low + (high - low) / 2 = mid
      have inside : low ≤ mid ∧ mid < high := by omega
      by_cases below : sstEntryKey block mid < wanted
      · rw [if_pos below]
        obtain ⟨finds, misses⟩ := ih (mid + 1) high bound (by omega)
        have passed : ∀ index, index ≤ mid → sstEntryKey block index ≠ wanted := by
          intro index order
          rcases Nat.eq_or_lt_of_le order with rfl | less
          · omega
          · have := sorted index mid less (by omega)
            omega
        refine ⟨fun index _ less key => ?_, fun absent => misses (fun index order less => absent index (by omega) less)⟩
        have : ¬ index ≤ mid := fun order => passed index order key
        exact finds index (by omega) less key
      · rw [if_neg below]
        by_cases above : sstEntryKey block mid > wanted
        · rw [if_pos above]
          obtain ⟨finds, misses⟩ := ih low mid (by omega) (by omega)
          refine ⟨fun index order less key => ?_, fun absent => misses (fun index order less => absent index order (by omega))⟩
          have : index < mid := by
            by_contra later
            rcases Nat.eq_or_lt_of_le (Nat.not_lt.mp later) with rfl | more
            · omega
            · have := sorted mid index more (by omega)
              omega
          exact finds index order this key
        · rw [if_neg above]
          have here : sstEntryKey block mid = wanted := by omega
          refine ⟨fun index order less key => ?_, fun absent => absurd here (absent mid inside.1 inside.2)⟩
          rcases Nat.lt_trichotomy index mid with before | rfl | after
          · have := sorted index mid before (by omega)
            omega
          · rfl
          · have := sorted mid index after (by omega)
            omega
    · rw [if_neg open_]
      exact ⟨fun index order less => by omega, fun _ => rfl⟩

section Payload
variable {world : World} {sst : Sstable}

private theorem leValue_block (world : World) (sector offset width : Nat) :
    leValue (world.block sector) offset width = leValue world.media (sector * sectorBytes + offset) width := by
  apply leValue_congr
  intro index _
  simp only [World.block, Nat.add_assoc]

private theorem page_address (page index : Nat) :
    (sst.startSector + (page + 1) * blockSectors) * sectorBytes + index * entryBytes =
      sst.payloadStart + (page * entriesPerBlock + index) * entryBytes := by
  simp only [Sstable.payloadStart, blockSectors, sectorBytes, entriesPerBlock, entryBytes]
  ring

theorem sstEntryKey_page (page index : Nat) :
    sstEntryKey (world.block (sst.startSector + (page + 1) * blockSectors)) index =
      sst.keyAt world.media (page * entriesPerBlock + index) := by
  rw [sstEntryKey, leValue_block, page_address, Sstable.keyAt]

theorem sstEntrySector_page (page index : Nat) :
    sstEntrySector (world.block (sst.startSector + (page + 1) * blockSectors)) index =
      sst.sectorAt world.media (page * entriesPerBlock + index) := by
  rw [sstEntrySector, leValue_block, ← Nat.add_assoc, page_address, Sstable.sectorAt]

/-- The bounce block holds the payload block it claims to hold. -/
def Cached (world : World) (sst : Sstable) (cache : SstCache) : Prop :=
  cache.cached < sst.nrBlocks - 1 → cache.block = world.block (sst.startSector + (cache.cached + 1) * blockSectors)

/-- Outcomes of a search step that could not read the device. -/
def ReadFailed (world : World) {α : Type} (result : Except Errno α) : Prop :=
  ∃ error, result = .error error ∧ world.oracle.Reports .metadata error

theorem sstReadPayloadBlock_spec {cache : SstCache} {page : Nat} {start : World} (before : world.Quiet start)
    (inside : page < sst.nrBlocks - 1) (cached : Cached world sst cache) :
    Effect.Ensures (sstReadPayloadBlock sst page cache) start (fun result after => world.Quiet after ∧
      ((∃ read, result = .ok read ∧ Cached world sst read ∧
          read.block = world.block (sst.startSector + (page + 1) * blockSectors)) ∨ ReadFailed world result)) := by
  unfold sstReadPayloadBlock
  split
  next same =>
    subst same
    exact ⟨before, Or.inl ⟨cache, rfl, cached, cached inside⟩⟩
  next _ =>
    refine Effect.Ensures.bind (blockRead_spec .metadata _ start) ?_ ?_
    · rintro block after ⟨quiet, same | ⟨_, same, _⟩⟩
      · cases same
        exact ⟨before.trans quiet, Or.inl ⟨_, rfl, fun _ => before.block _, before.block _⟩⟩
      · cases same
    · rintro error after ⟨quiet, same | ⟨_, same, reports⟩⟩
      · cases same
      · cases same
        exact ⟨before.trans quiet, Or.inr ⟨error, rfl, reports.later before.later⟩⟩

theorem sstNrBlocks_eq {nrEntries : Nat} (limited : nrEntries < 2 ^ 32) :
    sstNrBlocks nrEntries = 1 + (nrEntries + 255) / 256 := by
  unfold sstNrBlocks entriesPerBlock
  omega

theorem sstEntriesInBlock_eq {nrEntries page : Nat} (limited : nrEntries < 2 ^ 32) (start : page * 256 < nrEntries) :
    sstEntriesInBlock nrEntries page = min (nrEntries - page * 256) 256 := by
  unfold sstEntriesInBlock entriesPerBlock
  have : page * 256 % 2 ^ 32 = page * 256 := Nat.mod_eq_of_lt (by omega)
  simp only [this]
  rw [if_neg (by omega)]

/-- The search over first keys keeps whatever its two moves keep. -/
theorem sstLocate_keeps {wanted : Nat} {Holds : Nat → Nat → Prop}
    (up : ∀ low mid high, low < mid → mid ≤ high → high < sst.nrBlocks - 1 → Holds low high →
      sst.keyAt world.media (mid * entriesPerBlock) ≤ wanted → Holds mid high)
    (down : ∀ low mid high, low < mid → mid ≤ high → high < sst.nrBlocks - 1 → Holds low high →
      wanted < sst.keyAt world.media (mid * entriesPerBlock) → Holds low (mid - 1))
    (rounds low high : Nat) {start : World} (before : world.Quiet start) {cache : SstCache} (cached : Cached world sst cache)
    (inside : high < sst.nrBlocks - 1) (order : low ≤ high) (enough : high - low < rounds) (holds : Holds low high) :
    Effect.Ensures (sstLocate sst wanted rounds low high cache) start (fun result after => world.Quiet after ∧
      ((∃ page read, result = .ok (page, read) ∧ Cached world sst read ∧ page < sst.nrBlocks - 1 ∧ Holds page page) ∨
        ReadFailed world result)) := by
  induction rounds generalizing low high start cache with
  | zero => omega
  | succ rounds ih =>
    rw [sstLocate]
    by_cases apart : low < high
    · rw [if_pos apart]
      dsimp only
      generalize same : low + (high - low + 1) / 2 = mid
      have bounds : low < mid ∧ mid ≤ high := by omega
      refine Effect.Ensures.bind (sstReadPayloadBlock_spec before (by omega) cached) ?_ ?_
      · rintro read after ⟨quiet, ⟨_, same, cached, content⟩ | ⟨_, same, _⟩⟩
        · cases same
          have first : sstBlockFirstKey read.block = sst.keyAt world.media (mid * entriesPerBlock) := by
            rw [sstBlockFirstKey, content, sstEntryKey_page, Nat.add_zero]
          rw [first]
          split
          next notAbove =>
            exact ih mid high quiet cached inside bounds.2 (by omega) (up low mid high bounds.1 bounds.2 inside holds notAbove)
          next above =>
            exact ih low (mid - 1) quiet cached (by omega) (by omega) (by omega)
              (down low mid high bounds.1 bounds.2 inside holds (Nat.not_le.mp above))
        · cases same
      · rintro error after ⟨quiet, ⟨_, same, _⟩ | ⟨_, same, reports⟩⟩
        · cases same
        · cases same
          exact ⟨quiet, Or.inr ⟨error, rfl, reports⟩⟩
    · rw [if_neg apart]
      obtain rfl : low = high := by omega
      exact ⟨before, Or.inl ⟨low, cache, rfl, cached, inside, holds⟩⟩

variable (searchable : sst.Searchable world.media)
include searchable

private theorem pages_cover : sst.nrBlocks - 1 = (sst.nrEntries + 255) / 256 := by
  rw [searchable.blocks, sstNrBlocks_eq searchable.limited]
  omega

/-- The block located is the only one that can hold the wanted key. -/
private def Located (world : World) (sst : Sstable) (wanted low high : Nat) : Prop :=
  (low = 0 ∨ sst.keyAt world.media (low * entriesPerBlock) ≤ wanted) ∧
    ∀ index, (high + 1) * entriesPerBlock ≤ index → index < sst.nrEntries → wanted < sst.keyAt world.media index

private theorem sstLocate_spec {wanted : Nat} (rounds low high : Nat) {start : World} (before : world.Quiet start)
    {cache : SstCache} (cached : Cached world sst cache) (inside : high < sst.nrBlocks - 1) (order : low ≤ high)
    (enough : high - low < rounds) (located : Located world sst wanted low high) :
    Effect.Ensures (sstLocate sst wanted rounds low high cache) start (fun result after => world.Quiet after ∧
      ((∃ page read, result = .ok (page, read) ∧ Cached world sst read ∧ page < sst.nrBlocks - 1 ∧
          Located world sst wanted page page) ∨ ReadFailed world result)) := by
  refine sstLocate_keeps ?_ ?_ rounds low high before cached inside order enough located
  · exact fun low mid high _ _ _ located notAbove => ⟨Or.inr notAbove, located.2⟩
  · intro low mid high less _ _ located above
    refine ⟨located.1, fun index reached inside => ?_⟩
    rw [show mid - 1 + 1 = mid by omega] at reached
    exact above.trans_le (searchable.monotone reached inside)

private theorem sstBlockFind_spec {wanted page : Nat} (inside : page < sst.nrBlocks - 1)
    (located : Located world sst wanted page page) :
    sstBlockFind (world.block (sst.startSector + (page + 1) * blockSectors)) (sstEntriesInBlock sst.nrEntries page) wanted =
      match (sst.entries world.media).lookup wanted with
      | none => .error .enodata
      | some physicalSector => .ok physicalSector := by
  have pages := pages_cover searchable
  have limit := searchable.limited
  have filled := searchable.filled
  have start : page * 256 < sst.nrEntries := by omega
  have count := sstEntriesInBlock_eq limit start
  have within (index : Nat) (bound : index < min (sst.nrEntries - page * 256) 256) :
      page * 256 + index < sst.nrEntries := by
    exact Nat.add_lt_of_lt_sub' (lt_min_iff.mp bound).1
  rw [count]
  obtain ⟨left, right⟩ := located
  simp only [entriesPerBlock] at left right
  have sorted : ∀ first second, first < second → second < min (sst.nrEntries - page * 256) 256 →
      sstEntryKey (world.block (sst.startSector + (page + 1) * blockSectors)) first <
        sstEntryKey (world.block (sst.startSector + (page + 1) * blockSectors)) second := by
    intro first second less bound
    rw [sstEntryKey_page, sstEntryKey_page]
    exact searchable.sorted _ _ (Nat.add_lt_add_left less _) (within second bound)
  obtain ⟨finds, misses⟩ := sstBlockSearch_spec wanted (min (sst.nrEntries - page * 256) 256 + 1) 0 _ sorted (Nat.le_refl _) (by omega)
  rw [sstBlockFind, if_neg (by unfold entriesPerBlock; omega)]
  by_cases present : ∃ index < sst.nrEntries, sst.keyAt world.media index = wanted
  · obtain ⟨index, bound, rfl⟩ := present
    have high : index < (page + 1) * 256 := by
      by_contra beyond
      exact (right index (Nat.not_lt.mp beyond) bound).false
    have low : page * 256 ≤ index := by
      rcases left with rfl | notAbove
      · exact Nat.zero_le _
      · by_contra before
        exact absurd notAbove (Nat.not_le.mpr (searchable.sorted index (page * 256) (Nat.not_le.mp before) start))
    have place : page * entriesPerBlock + (index - page * 256) = index := by
      simp only [entriesPerBlock]
      omega
    rw [searchable.lookup_at bound,
      finds (index - page * 256) (Nat.zero_le _) (by omega) (by rw [sstEntryKey_page, place]),
      sstEntrySector_page, place]
  · have absent : ∀ index < sst.nrEntries, sst.keyAt world.media index ≠ wanted :=
      fun index bound key => present ⟨index, bound, key⟩
    rw [Sstable.lookup_absent absent]
    refine misses (fun index _ bound => ?_)
    rw [sstEntryKey_page]
    exact absent _ (within index bound)

/-- A lookup answers from the entries, unless memory or the device fails. -/
theorem sstLookup_spec (wanted : Nat) :
    Effect.Ensures (sstLookup sst wanted) world (fun result after => world.Quiet after ∧
      ((result = match (sst.entries world.media).lookup wanted with
          | none => .error .enodata
          | some physicalSector => .ok physicalSector) ∨
        ∃ error, result = .error error ∧
          (world.oracle.Reports .metadata error ∨ error = .enomem ∧ ¬ world.oracle.Healthy))) := by
  have pages := pages_cover searchable
  have filled := searchable.filled
  have limit := searchable.limited
  rw [sstLookup, if_neg (by omega)]
  split
  next outside =>
    refine ⟨.refl _, Or.inl ?_⟩
    rw [Sstable.lookup_absent]
    · rfl
    · intro index bound key
      have low := searchable.monotone (Nat.zero_le index) bound
      have high := searchable.monotone (show index ≤ sst.nrEntries - 1 by omega) (by omega)
      rw [searchable.lowest, searchable.highest] at outside
      omega
  next inside =>
    refine Effect.Ensures.bind (allocate_quiet world) ?_ ?_
    · rintro _ allocated ⟨before, _⟩
      dsimp only
      have nothing : Cached world sst ⟨2 ^ 32 - 1, fun _ => 0⟩ := by
        intro small
        simp only at small
        omega
      have start : Located world sst wanted 0 (sst.nrBlocks - 2) := by
        refine ⟨Or.inl rfl, fun index low high => ?_⟩
        simp only [entriesPerBlock] at low
        omega
      refine Effect.Ensures.bind (sstLocate_spec searchable (sst.nrBlocks - 2 + 1) 0 (sst.nrBlocks - 2) before nothing
        (by omega) (Nat.zero_le _) (by omega) start) ?_ ?_
      · rintro ⟨page, read⟩ after ⟨quiet, ⟨_, _, same, cached, bound, located⟩ | ⟨_, same, _⟩⟩
        · cases same
          refine Effect.Ensures.bind (sstReadPayloadBlock_spec quiet bound cached) ?_ ?_
          · rintro final done ⟨quiet', ⟨_, same, _, content⟩ | ⟨_, same, _⟩⟩
            · cases same
              refine ⟨quiet', Or.inl ?_⟩
              rw [content]
              exact sstBlockFind_spec searchable bound located
            · cases same
          · rintro error done ⟨quiet', ⟨_, same, _⟩ | ⟨_, same, reports⟩⟩
            · cases same
            · cases same
              exact ⟨quiet', Or.inr ⟨error, rfl, Or.inl reports⟩⟩
        · cases same
      · rintro error after ⟨quiet, ⟨_, _, same, _⟩ | ⟨_, same, reports⟩⟩
        · cases same
        · cases same
          exact ⟨quiet, Or.inr ⟨error, rfl, Or.inl reports⟩⟩
    · rintro error after ⟨quiet, same | ⟨same, sick⟩⟩
      · cases same
      · cases same
        exact ⟨quiet, Or.inr ⟨.enomem, rfl, Or.inr ⟨rfl, sick⟩⟩⟩

end Payload
end ZnsBase
