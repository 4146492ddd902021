import ZnsBase.Proofs.GcIndex
import ZnsBase.Proofs.StartupFrame
import ZnsBase.Proofs.SuperBlock

/-! `zns_lsm_gc_rebuild`. The entries of the tables are replayed newest first, so
after any prefix of them the indexes hold what a lookup in that prefix finds. -/

namespace ZnsBase
open Library

namespace Lsm

/-- The indexes hold the lookups of `pairs`. -/
structure Restored (before after : Machine) (pairs : List (Nat × Nat)) : Prop where
  reindexes : Reindexes before after
  indexed : Indexed after.lsm
  latest : ∀ logicalBlock, after.lsm.latest logicalBlock = (pairs.lookup logicalBlock).map encodePhysicalSector
  inRange : ∀ pair ∈ pairs, pair.1 < before.lsm.logicalBlocks

/-- Entries that can all be replayed: blocks of the target, the newest of each in
a written slot of its own. -/
structure Restorable (lsm : Lsm) (pairs : List (Nat × Nat)) : Prop where
  inRange : ∀ pair ∈ pairs, pair.1 < lsm.logicalBlocks
  written : ∀ logicalBlock sector, pairs.lookup logicalBlock = some sector →
    ∃ index slot, lsm.SlotAt index slot sector ∧ lsm.Written index slot
  apart : ∀ logicalBlock other sector, pairs.lookup logicalBlock = some sector → pairs.lookup other = some sector →
    logicalBlock = other

theorem Reindexes.allocator {before after : Machine} (reindexes : Reindexes before after) :
    after.lsm.allocator = before.lsm.allocator := by rw [reindexes.engine]

theorem Reindexes.logicalBlocks {before after : Machine} (reindexes : Reindexes before after) :
    after.lsm.logicalBlocks = before.lsm.logicalBlocks := by rw [reindexes.engine]; rfl

theorem Reindexes.attached {before after : Machine} {log : Extent} (reindexes : Reindexes before after)
    (attached : Attached before log) : Attached after log :=
  (attached.onDevice reindexes.quiet.geometry).onEngine reindexes.allocator (by rw [reindexes.engine])
    (by rw [reindexes.engine])

/-- What was replayed could be replayed. -/
theorem Restored.restorable {before after : Machine} {log : Extent} {pairs : List (Nat × Nat)} (attached : Attached before log)
    (restored : Restored before after pairs) : Restorable before.lsm pairs := by
  have apart := slotsApart (restored.reindexes.attached attached)
  have held {logicalBlock sector : Nat} (found : pairs.lookup logicalBlock = some sector) :
      after.lsm.latest logicalBlock = some (encodePhysicalSector sector) := by
    rw [restored.latest, found]
    rfl
  refine ⟨restored.inRange, fun logicalBlock sector found => ?_, fun logicalBlock other sector found found' => ?_⟩
  · obtain ⟨index, slot, place, entry⟩ := (restored.indexed.located _ _).mp (held found)
    have written := restored.indexed.written index slot (by rw [entry]; exact encodeLogicalBlock_ne_zero _)
    unfold SlotAt at place
    unfold Written at written
    rw [restored.reindexes.allocator] at place written
    exact ⟨index, slot, place, written⟩
  · exact restored.indexed.block_unique apart (held found) (held found')

theorem gcMapInit_indexed {lsm : Lsm} (gcZones : lsm.gcZones = gcMapInit lsm.allocator.zones)
    (latest : lsm.latest = fun _ => none) (validBlocks : lsm.validBlocks = 0) : Indexed lsm := by
  refine ⟨gcMapInit_mapped gcZones, ?_, ?_, ?_, ?_, ?_⟩
  · intro logicalBlock sector
    simp only [latest, gcMapInit_empty gcZones]
    constructor
    · rintro ⟨⟩
    · rintro ⟨_, _, _, wrong⟩
      exact absurd wrong.symm (encodeLogicalBlock_ne_zero _)
  · simp [latest]
  · simp [latest]
  · simp [latest, validBlocks]
  · simp [gcZones, gcMapInit, validBlocks, Function.comp_def]

section Replay
variable {before machine : Machine} {log : Extent} {done : List (Nat × Nat)} (attached : Attached before log)
  (restored : Restored before machine done)
include attached restored

/-- `zns_lsm_gc_restore_entry` of the next entry. -/
theorem gcRestoreEntry_spec {logicalBlock : Nat} (sector : Nat) (small : logicalBlock < 2 ^ 64) :
    Effect.Ensures (gcRestoreEntry logicalBlock sector) machine (fun result after =>
      (result = .ok () ∧ Restored before after (done ++ [(logicalBlock, sector)])) ∨
      ∃ error, result = .error error ∧ after.lsm = machine.lsm ∧
        ¬ (before.world.oracle.Healthy ∧ ∃ rest, Restorable before.lsm (done ++ (logicalBlock, sector) :: rest))) := by
  have attached' := restored.reindexes.attached attached
  have healthy (fine : before.world.oracle.Healthy) : machine.world.oracle.Healthy :=
    fine.later restored.reindexes.quiet.later
  apply Effect.Ensures.get_bind
  split
  next outside =>
    refine Or.inr ⟨.einval, rfl, rfl, fun ⟨_, rest, restorable⟩ => ?_⟩
    have inside := restorable.inRange (logicalBlock, sector) (by simp)
    rw [restored.reindexes.logicalBlocks] at outside
    dsimp only at inside
    omega
  next inside =>
    have bound : logicalBlock < before.lsm.logicalBlocks := by
      rw [← restored.reindexes.logicalBlocks]
      omega
    have inRange : ∀ pair ∈ done ++ [(logicalBlock, sector)], pair.1 < before.lsm.logicalBlocks := by
      intro pair member
      rcases List.mem_append.mp member with old | new
      · exact restored.inRange pair old
      · rw [List.mem_singleton.mp new]
        exact bound
    split
    next known =>
      refine Or.inl ⟨rfl, restored.reindexes, restored.indexed, fun other => ?_, inRange⟩
      refine (restored.latest other).trans (congrArg _ ?_)
      rw [restored.latest, Option.isSome_map] at known
      rw [lookup_concat]
      cases held : done.lookup other with
      | some _ => rfl
      | none =>
        have different : other ≠ logicalBlock := by
          rintro rfl
          simp [held] at known
        rw [if_neg different]
        rfl
    next unknown =>
      have absent : done.lookup logicalBlock = none := by
        rw [restored.latest, Option.isSome_map] at unknown
        exact Option.not_isSome_iff_eq_none.mp unknown
      have found (rest : List (Nat × Nat)) : (done ++ (logicalBlock, sector) :: rest).lookup logicalBlock = some sector := by
        rw [List.lookup_append, absent, List.lookup_cons_self]
        rfl
      split
      next stray =>
        refine Or.inr ⟨.einval, rfl, rfl, fun ⟨_, rest, restorable⟩ => ?_⟩
        obtain ⟨index, slot, place, written⟩ := restorable.written logicalBlock sector (found rest)
        unfold SlotAt at place
        unfold Written at written
        rw [← restored.reindexes.allocator] at place written
        rw [physicalToGcSlot_written attached' place written] at stray
        cases stray
      next slot placed =>
        obtain ⟨place, written⟩ := physicalToGcSlot_ok placed
        split
        next taken =>
          refine Or.inr ⟨.einval, rfl, rfl, fun ⟨_, rest, restorable⟩ => ?_⟩
          have entry : machine.lsm.gcEntry slot.1 slot.2 = encodeLogicalBlock (machine.lsm.gcEntry slot.1 slot.2 - 1) :=
            (Nat.succ_pred_eq_of_ne_zero taken).symm
          have other := (restored.indexed.located _ _).mpr ⟨slot.1, slot.2, place, entry⟩
          rw [restored.latest, Option.map_eq_some_iff] at other
          obtain ⟨physical, held, same⟩ := other
          have same : physical = sector := Nat.succ.inj same
          subst same
          have clash := restorable.apart _ logicalBlock physical (by rw [List.lookup_append, held]; rfl) (found rest)
          rw [clash, absent] at held
          cases held
        next free =>
          have free : machine.lsm.gcEntry slot.1 slot.2 = 0 := not_not.mp free
          have reserve : Effect.Ensures (onWorld allocate) machine (fun result after => after.lsm = machine.lsm ∧
              machine.world.Quiet after.world ∧ ∀ error, result = .error error → ¬ machine.world.oracle.Healthy) := by
            refine onWorld_ensures ((allocate_quiet machine.world).mono ?_)
            rintro result world ⟨quiet, rfl | ⟨rfl, sick⟩⟩
            · exact ⟨rfl, quiet, nofun⟩
            · exact ⟨rfl, quiet, fun _ _ => sick⟩
          refine Effect.Ensures.bind reserve ?_ (fun error after spec => Or.inr ⟨error, rfl, spec.1, fun wrong =>
            spec.2.2 error rfl (healthy wrong.1)⟩)
          rintro _ ⟨lsm, world⟩ ⟨same, quiet, _⟩
          dsimp only at same quiet
          subst same
          refine Or.inl ⟨rfl, restored.reindexes.trans ⟨rfl, quiet, gcCommit_narrow _ _ _ small⟩, ?_, fun other => ?_, inRange⟩
          · refine restored.indexed.insert place written free ?_ ?_
            · rw [restored.reindexes.logicalBlocks]
              exact bound
            · rw [restored.latest, absent]
              rfl
          · change (if other = logicalBlock then some (encodePhysicalSector sector) else machine.lsm.latest other) = _
            rw [lookup_concat]
            by_cases here : other = logicalBlock
            · subst here
              rw [if_pos rfl, absent, if_pos rfl]
              rfl
            · rw [if_neg here, restored.latest, if_neg here, Option.or_none]

end Replay

section Tables
variable {before : Machine} {log : Extent} (attached : Attached before log)
include attached

omit attached in
private theorem entries_take_succ {sst : Sstable} {media : Nat → UInt8} {index : Nat} (inside : index < sst.nrEntries) :
    (sst.entries media).take (index + 1) = (sst.entries media).take index ++ [(sst.keyAt media index, sst.sectorAt media index)] := by
  have held : (sst.entries media)[index]? = some (sst.keyAt media index, sst.sectorAt media index) := by
    simp [Sstable.entries, inside]
  rw [List.take_add_one, held]
  rfl

omit attached in
private theorem entries_split {sst : Sstable} {media : Nat → UInt8} {index : Nat} (inside : index < sst.nrEntries) :
    sst.entries media = (sst.entries media).take index ++
      (sst.keyAt media index, sst.sectorAt media index) :: (sst.entries media).drop (index + 1) := by
  conv_lhs => rw [← List.take_append_drop (index + 1) (sst.entries media), entries_take_succ inside]
  rw [List.append_assoc, List.singleton_append]

/-- The entries of one payload block. -/
theorem gcRestoreEntries_spec (sst : Sstable) (done : List (Nat × Nat)) (page first count : Nat) {machine : Machine}
    (within : page * entriesPerBlock + first + count ≤ sst.nrEntries)
    (restored : Restored before machine (done ++ (sst.entries before.world.media).take (page * entriesPerBlock + first))) :
    Effect.Ensures (gcRestoreEntries (before.world.block (sst.startSector + (page + 1) * blockSectors))
        (List.range' first count)) machine (fun result after =>
      (result = .ok () ∧
        Restored before after (done ++ (sst.entries before.world.media).take (page * entriesPerBlock + first + count))) ∨
      ∃ error, result = .error error ∧
        ¬ (before.world.oracle.Healthy ∧ ∃ rest, Restorable before.lsm (done ++ sst.entries before.world.media ++ rest))) := by
  have keys := @sstEntryKey_page before.world sst page
  have sectors := @sstEntrySector_page before.world sst page
  generalize page * entriesPerBlock = base at within restored keys sectors ⊢
  induction count generalizing first machine with
  | zero => exact Or.inl ⟨rfl, restored⟩
  | succ count ih =>
    rw [List.range'_succ, gcRestoreEntries, keys, sectors]
    have inside : base + first < sst.nrEntries := by omega
    refine Effect.Ensures.bind (gcRestoreEntry_spec attached restored _ (leValue_lt _ _ 8)) ?_ ?_
    · rintro _ after (⟨_, more⟩ | ⟨_, failed, _⟩)
      · rw [List.append_assoc, ← entries_take_succ inside] at more
        have rest := ih (first + 1) (by omega) more
        rw [show base + (first + 1) + count = base + first + (count + 1) by omega] at rest
        exact rest
      · cases failed
    · rintro error after (⟨failed, _⟩ | ⟨_, _, _, cause⟩)
      · cases failed
      · refine Or.inr ⟨error, rfl, fun ⟨healthy, rest, restorable⟩ => cause ⟨healthy, ?_⟩⟩
        rw [entries_split inside] at restorable
        refine ⟨(sst.entries before.world.media).drop (base + first + 1) ++ rest, ?_⟩
        simpa only [List.append_assoc, List.cons_append] using restorable

/-- The blocks of one table, with the checksum over them. -/
theorem gcRebuildPages_spec {sst : Sstable} (sized : sst.Sized) (done : List (Nat × Nat))
    (page count : Nat) (crc : BitVec 32) {machine : Machine} (total : page + count = sst.nrBlocks - 1)
    (restored : Restored before machine (done ++ (sst.entries before.world.media).take (page * entriesPerBlock))) :
    Effect.Ensures (gcRebuildPages sst (List.range' page count) crc) machine (fun result after =>
      (∃ sum, result = .ok sum ∧ Restored before after (done ++ sst.entries before.world.media) ∧
        sum = payloadCrc crc ((List.range' page count).map fun page =>
          before.world.block (sst.startSector + (page + 1) * blockSectors))) ∨
      ∃ error, result = .error error ∧
        ¬ (before.world.oracle.Healthy ∧ ∃ rest, Restorable before.lsm (done ++ sst.entries before.world.media ++ rest))) := by
  have limited := sized.limited
  have pages : sst.nrBlocks = 1 + (sst.nrEntries + 255) / 256 := by rw [sized.blocks, sstNrBlocks_eq limited]
  have size : entriesPerBlock = 256 := rfl
  induction count generalizing page crc machine with
  | zero =>
    refine Or.inl ⟨crc, rfl, ?_, rfl⟩
    rw [List.take_of_length_le] at restored
    · exact restored
    · simp only [Sstable.entries, List.length_map, List.length_range, size]
      omega
  | succ count ih =>
    rw [List.range'_succ, gcRebuildPages]
    have start : page * 256 < sst.nrEntries := by omega
    have read : Effect.Ensures (onWorld (blockRead .metadata (sst.startSector + (page + 1) * blockSectors))) machine
        (fun result after => Restored before after (done ++ (sst.entries before.world.media).take (page * entriesPerBlock)) ∧
          (result = .ok (before.world.block (sst.startSector + (page + 1) * blockSectors)) ∨
            ∃ error, result = .error error ∧ ¬ before.world.oracle.Healthy)) := by
      refine onWorld_ensures ((blockRead_spec .metadata _ machine.world).mono ?_)
      rintro result world ⟨quiet, outcome⟩
      refine ⟨⟨restored.reindexes.trans ⟨rfl, quiet, id⟩, restored.indexed, restored.latest, restored.inRange⟩, ?_⟩
      rcases outcome with same | ⟨error, failed, reports⟩
      · refine Or.inl ?_
        rw [same, restored.reindexes.quiet.block]
      · exact Or.inr ⟨error, failed, fun healthy => healthy.requests _ _ (reports.later restored.reindexes.quiet.later)⟩
    refine Effect.Ensures.bind read ?_ ?_
    · rintro block after ⟨restored, same | ⟨_, failed, _⟩⟩
      · cases same
        rw [sstEntriesInBlock_eq limited start, List.range_eq_range']
        have within : min (sst.nrEntries - page * 256) 256 ≤ sst.nrEntries - page * 256 := Nat.min_le_left _ _
        refine Effect.Ensures.bind (gcRestoreEntries_spec attached sst done page 0 (min (sst.nrEntries - page * 256) 256)
          (by rw [size]; omega) (by rw [Nat.add_zero]; exact restored)) ?_ ?_
        · rintro _ after' (⟨_, more⟩ | ⟨_, failed, _⟩)
          · have full : (sst.entries before.world.media).take (page * entriesPerBlock + 0 + min (sst.nrEntries - page * 256) 256) =
                (sst.entries before.world.media).take ((page + 1) * entriesPerBlock) := by
              have length : (sst.entries before.world.media).length = sst.nrEntries := by simp [Sstable.entries]
              rw [size, Nat.add_zero]
              rcases Nat.le_total (sst.nrEntries - page * 256) 256 with few | many
              · rw [Nat.min_eq_left few, List.take_of_length_le (by omega), List.take_of_length_le (by omega)]
              · rw [Nat.min_eq_right many, Nat.add_mul]
            rw [full] at more
            refine (ih (page + 1) (crc32Le crc (before.world.block (sst.startSector + (page + 1) * blockSectors)) 0 blockBytes)
              (by omega) more).mono ?_
            rintro result final (⟨sum, ok, restored, summed⟩ | failed)
            · exact Or.inl ⟨sum, ok, restored, summed⟩
            · exact Or.inr failed
          · cases failed
        · rintro error after' (⟨failed, _⟩ | ⟨_, _, cause⟩)
          · cases failed
          · exact Or.inr ⟨error, rfl, cause⟩
      · cases failed
    · rintro error after ⟨_, failed | ⟨_, _, sick⟩⟩
      · cases failed
      · exact Or.inr ⟨error, rfl, fun fine => sick fine.1⟩

omit attached in
/-- The checksum in a table's index is the one over its payload. -/
def Summed (world : World) (sst : Sstable) : Prop :=
  sst.payloadCrc = (payloadCrc 0 ((List.range (sst.nrBlocks - 1)).map fun page =>
    world.block (sst.startSector + (page + 1) * blockSectors))).toNat

theorem gcRebuildTables_spec (sstables : List Sstable) (done : List (Nat × Nat)) {machine : Machine}
    (sized : ∀ sst ∈ sstables, sst.Sized) (restored : Restored before machine done) :
    Effect.Ensures (gcRebuildTables sstables) machine (fun result after =>
      (result = .ok () ∧ Restored before after (done ++ (sstables.map (Sstable.entries before.world.media)).flatten)) ∨
      ∃ error, result = .error error ∧ ¬ (before.world.oracle.Healthy ∧ (∀ sst ∈ sstables, Summed before.world sst) ∧
        Restorable before.lsm (done ++ (sstables.map (Sstable.entries before.world.media)).flatten))) := by
  induction sstables generalizing done machine with
  | nil =>
    refine Or.inl ⟨rfl, ?_⟩
    rw [List.map_nil, List.flatten_nil, List.append_nil]
    exact restored
  | cons sst rest ih =>
    rw [gcRebuildTables, List.map_cons, List.flatten_cons, ← List.append_assoc]
    have start : Restored before machine (done ++ (sst.entries before.world.media).take (0 * entriesPerBlock)) := by
      simpa using restored
    have spec := gcRebuildPages_spec attached (sized sst List.mem_cons_self) done 0 (sst.nrBlocks - 1) 0 (Nat.zero_add _)
      start
    rw [← List.range_eq_range'] at spec
    refine Effect.Ensures.bind spec ?_ ?_
    · rintro crc after (⟨sum, same, restored, summed⟩ | ⟨_, failed, _⟩)
      · cases same
        split
        next differs =>
          refine Or.inr ⟨.einval, rfl, ?_⟩
          rintro ⟨_, sums, _⟩
          refine differs ?_
          rw [summed]
          exact (sums sst List.mem_cons_self).symm
        next _ =>
          refine (ih _ (fun other member => sized other (List.mem_cons_of_mem _ member)) restored).mono ?_
          rintro result final (done | ⟨error, failed, cause⟩)
          · exact Or.inl done
          · refine Or.inr ⟨error, failed, ?_⟩
            rintro ⟨healthy, sums, restorable⟩
            exact cause ⟨healthy, fun other member => sums other (List.mem_cons_of_mem _ member), restorable⟩
      · cases failed
    · rintro error after (⟨_, failed, _⟩ | ⟨_, _, cause⟩)
      · cases failed
      · refine Or.inr ⟨error, rfl, ?_⟩
        rintro ⟨healthy, _, restorable⟩
        exact cause ⟨healthy, _, restorable⟩

/-- `zns_lsm_gc_rebuild`: the newest entry of each block is indexed, or some
entry has no slot of its own. -/
theorem gcRebuild_spec (sized : ∀ sst ∈ before.lsm.sstables, sst.Sized)
    (indexed : Indexed before.lsm) (latest : before.lsm.latest = fun _ => none) :
    Effect.Ensures gcRebuild before (fun result after =>
      (result = .ok () ∧
        Restored before after (before.lsm.sstables.map (Sstable.entries before.world.media)).flatten) ∨
      ∃ error, result = .error error ∧ ¬ (before.world.oracle.Healthy ∧ (∀ sst ∈ before.lsm.sstables, Summed before.world sst) ∧
        Restorable before.lsm (before.lsm.sstables.map (Sstable.entries before.world.media)).flatten)) := by
  have buffer : Effect.Ensures (onWorld allocate) before (fun result after => after.lsm = before.lsm ∧
      Restored before after [] ∧ ∀ error, result = .error error → ¬ before.world.oracle.Healthy) := by
    refine onWorld_ensures ((allocate_quiet before.world).mono ?_)
    have start {world : World} (quiet : before.world.Quiet world) : Restored before { before with world } [] :=
      ⟨⟨rfl, quiet, id⟩, indexed, fun _ => by rw [latest]; rfl, nofun⟩
    rintro result world ⟨quiet, rfl | ⟨rfl, sick⟩⟩
    · exact ⟨rfl, start quiet, nofun⟩
    · exact ⟨rfl, start quiet, fun _ _ => sick⟩
  refine Effect.Ensures.bind buffer ?_ (fun error after spec => Or.inr ⟨error, rfl, fun fine => spec.2.2 error rfl fine.1⟩)
  rintro _ after ⟨same, restored, _⟩
  apply Effect.Ensures.get_bind
  rw [same]
  have spec := gcRebuildTables_spec attached before.lsm.sstables [] sized restored
  rw [List.nil_append] at spec
  exact spec

end Tables

/-- A loaded table passes its check. -/
theorem summed_loaded [Kernel] {world : World} {memtable : Memtable} {startSector seq : Nat}
    (stored : Stored world.media (sstLoaded memtable startSector seq) memtable) :
    Summed world (sstLoaded memtable startSector seq) := by
  have start : (sstLoaded memtable startSector seq).startSector = startSector := sstSummary_startSector ..
  have length := stored.image_length
  rw [sstImage, List.length_cons] at length
  have pages (crc : BitVec 32) (page : Nat) (blocks : List (Nat → UInt8))
      (held : Holds world.media (startSector + (page + 1) * blockSectors) blocks) :
      payloadCrc crc ((List.range' page blocks.length).map fun page =>
        world.block (startSector + (page + 1) * blockSectors)) = payloadCrc crc blocks := by
    induction blocks generalizing crc page with
    | nil => rfl
    | cons block rest ih =>
      rw [List.length_cons, List.range'_succ, List.map_cons, payloadCrc, List.foldl_cons, payloadCrc, List.foldl_cons]
      have first := held 0 block rfl
      rw [Nat.zero_mul, Nat.add_zero] at first
      have same : crc32Le crc (world.block (startSector + (page + 1) * blockSectors)) 0 blockBytes =
          crc32Le crc block 0 blockBytes :=
        crc32Le_congr crc 0 blockBytes fun index inside => by rw [Nat.zero_add]; exact first index inside
      rw [same]
      refine ih _ (page + 1) fun index other found byte inside => ?_
      have next := held (index + 1) other (by simpa using found) byte inside
      rw [show startSector + (page + 1 + 1) * blockSectors + index * blockSectors =
        startSector + (page + 1) * blockSectors + (index + 1) * blockSectors by
          simp only [Nat.add_mul]; omega]
      exact next
  have tail : Holds world.media (startSector + (0 + 1) * blockSectors) (sstPayload memtable) := by
    intro index block found byte inside
    have held := stored.image (index + 1) block (by rw [sstImage, List.getElem?_cons_succ]; exact found) byte inside
    rw [start] at held
    rw [show startSector + (0 + 1) * blockSectors + index * blockSectors = startSector + (index + 1) * blockSectors by
      simp only [Nat.add_mul]; omega]
    exact held
  unfold Summed
  rw [start, ← length, Nat.add_sub_cancel, List.range_eq_range', pages 0 0 (sstPayload memtable) tail]
  rfl

end Lsm
end ZnsBase
