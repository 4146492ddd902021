import ZnsBase.Proofs.MetadataLog
import ZnsBase.Proofs.ReadPath

/-! Detach and recovery. A detach appends the tables still in memory to a log of
complete tables and stops at the first one that fails; the next start finds the
tables that were written completely, in their order. -/

namespace ZnsBase
open Library

/-- An index without its checksum, which only loading a table fills in. -/
def Sstable.unsummed (sst : Sstable) : Sstable := { sst with payloadCrc := 0 }

section Log
variable [Kernel] {tables : List (Memtable × Nat)} {table : Memtable} {index start metaWp seq : Nat} {extent : Extent}
  {world after : World} {written : SstWritten}

theorem Tiled.frame {media other : Nat → UInt8} {sector : Nat} (tiled : Tiled media sector tables)
    (same : ∀ address, sector * sectorBytes ≤ address → address < logEnd sector tables * sectorBytes →
      other address = media address) : Tiled other sector tables := by
  induction tables generalizing sector with
  | nil => trivial
  | cons entry rest ih =>
    obtain ⟨table, seq⟩ := entry
    obtain ⟨stored, tiled⟩ := tiled
    have beyond := le_logEnd (sector + table.logSectors) rest
    obtain ⟨begins, _⟩ := sstLoaded_place table sector seq
    refine ⟨stored.frame fun address low high => ?_, ih tiled fun address low high => ?_⟩
    · rw [begins] at low
      rw [begins, Lsm.sstLoaded_logSectors stored] at high
      exact same address low (high.trans_le (Nat.mul_le_mul_right _ (by rw [logEnd]; omega)))
    · exact same address ((Nat.mul_le_mul_right _ (Nat.le_add_right _ _)).trans low) high

/-- How an attempt to append a table to a log may end: with the table, with the
head of it, or with the log as it was. -/
inductive Extends (table : Memtable) (index : Nat) (extent : Extent) (start : Nat) (tables : List (Memtable × Nat))
    (metaWp seq : Nat) (world : World) : SstWritten → World → Prop
  | complete {after : World} (filled : table.root.inorder ≠ []) (tiled : Tiled after.media start (tables ++ [(table, seq)]))
      (ends : after.LogEnd index extent (metaWp + table.logSectors))
      (room : metaWp + table.logSectors ≤ extent.start + extent.capacity) :
      Extends table index extent start tables metaWp seq world ⟨.ok (sstSummary table metaWp seq), table.logSectors⟩ after
  | nothing {after : World} {error : Errno} (tiled : Tiled after.media start tables) (ends : after.LogEnd index extent metaWp)
      (cause : error = .enodata → table.root.inorder = [] ∨ world.oracle.Reports .metadata .enodata) :
      Extends table index extent start tables metaWp seq world ⟨.error error, 0⟩ after
  | torn {after : World} {error : Errno} {consumed : Nat} (filled : table.root.inorder ≠ []) (some_ : 0 < consumed)
      (short : consumed < table.logSectors) (tiled : Tiled after.media start tables)
      (header : Holds after.media metaWp ((sstImage table metaWp seq).take 1))
      (ends : after.LogEnd index extent (metaWp + consumed)) (room : metaWp + consumed ≤ extent.start + extent.capacity)
      (cause : error = .enodata → world.oracle.Reports .metadata .enodata) (sick : ¬ world.oracle.Healthy) :
      Extends table index extent start tables metaWp seq world ⟨.error error, consumed⟩ after

theorem SstWrite.extends (write : SstWrite table index extent metaWp seq world written after) (sound : table.Sound)
    (dry : ¬ world.oracle.Spills .metadata) (tiled : Tiled world.media start tables) (last : logEnd start tables = metaWp)
    (ends : world.LogEnd index extent metaWp) :
    Extends table index extent start tables metaWp seq world written after := by
  obtain ⟨appended, _, _⟩ := write.appended
  have kept : Tiled after.media start tables :=
    tiled.frame fun address _ high => appended.media address (Or.inl (by rw [← last]; exact high))
  cases write with
  | empty quiet nothing => exact .nothing kept (quiet.toSameDevice.logEnd ends) fun _ => Or.inl nothing
  | short quiet _ => exact .nothing kept (quiet.toSameDevice.logEnd ends) nofun
  | starved quiet _ => exact .nothing kept (quiet.toSameDevice.logEnd ends) nofun
  | @wrote _ result count filled room blocks =>
    obtain ⟨idle, busy⟩ := blocks.ended (Or.inr dry)
    cases result with
    | ok _ =>
      have all := blocks.complete rfl
      have size : count * blockSectors = table.logSectors := by rw [all, sstImage_sectors]
      have positive : 0 < count := by
        rw [all, sstImage_length]
        omega
      rw [size]
      rw [sstImage_sectors] at room
      refine .complete filled ?_ (by rw [← size]; exact (busy positive).1) room
      rw [tiled_append, last]
      exact ⟨kept, (blocks.stored sound filled).loaded, trivial⟩
    | error error =>
      obtain ⟨less, cause⟩ := blocks.stopped error rfl
      have short : count * blockSectors < table.logSectors := by
        rw [← sstImage_sectors table metaWp seq]
        exact Nat.mul_lt_mul_of_pos_right less (by decide)
      rw [sstImage_sectors] at room
      have reported (same : error = .enodata) : world.oracle.Reports .metadata .enodata := by
        rcases cause with reports | ⟨_, other, _⟩
        · exact same ▸ reports
        · cases same.symm.trans other
      rcases Nat.eq_zero_or_pos count with rfl | positive
      · rw [Nat.zero_mul]
        exact .nothing kept ((idle rfl).logEnd ends) fun same => Or.inr (reported same)
      · have held := blocks.held.head
        rw [List.take_take, Nat.min_eq_left positive] at held
        refine .torn filled (Nat.mul_pos positive (by decide)) short kept held (busy positive).1 (by omega) reported fun healthy => ?_
        rcases cause with reports | ⟨none_, _⟩
        · exact healthy.requests _ _ reports
        · omega

omit [Kernel] in
/-- Where its zone stands after an attempt, if failed writes leave no traces. -/
theorem SstWrite.zone_kept (write : SstWrite table index extent metaWp seq world written after)
    (dry : ¬ world.oracle.Spills .metadata) (low : extent.start ≤ metaWp) :
    (extent.start ≤ world.writePointer index → extent.start ≤ after.writePointer index) ∧
      (world.condition index ≠ .readonly ∧ world.condition index ≠ .offline →
        after.condition index ≠ .readonly ∧ after.condition index ≠ .offline) := by
  have still (same : world.SameDevice after) : (extent.start ≤ world.writePointer index → extent.start ≤ after.writePointer index) ∧
      (world.condition index ≠ .readonly ∧ world.condition index ≠ .offline →
        after.condition index ≠ .readonly ∧ after.condition index ≠ .offline) := by
    rw [same.writePointer, same.condition]
    exact ⟨id, id⟩
  cases write with
  | empty quiet _ => exact still quiet.toSameDevice
  | short quiet _ => exact still quiet.toSameDevice
  | starved quiet _ => exact still quiet.toSameDevice
  | @wrote _ result count filled room blocks =>
    obtain ⟨idle, busy⟩ := blocks.ended (Or.inr dry)
    rcases Nat.eq_zero_or_pos count with none_ | positive
    · exact still (idle none_)
    · obtain ⟨_, writable, online, above⟩ := busy positive
      exact ⟨fun _ => low.trans above, fun _ => ⟨writable, online⟩⟩

end Log

namespace Lsm

/-- What a later start wants of the log zone besides the tables in it: the
superblock of this device. A usable zone can be written, too. -/
structure Formatted (world : World) (count : Nat) (log : Extent) (limit : Nat) (usable : Prop) : Prop where
  some_ : 0 < count
  few : count + 1 < 2 ^ 31
  whole : limit % blockSectors = 0
  low : log.start ≤ world.writePointer count
  writable : usable → world.condition count ≠ .readonly ∧ world.condition count ≠ .offline
  superblock : ∃ uuid, superDecode (world.block log.start) = .ok ⟨uuid, limit, log.len, count + 1, count, blockSectors⟩

theorem Formatted.frame {world after : World} {count limit : Nat} {log : Extent} {usable : Prop}
    (formatted : Formatted world count log limit usable) (low : log.start ≤ after.writePointer count)
    (writable : usable → after.condition count ≠ .readonly ∧ after.condition count ≠ .offline)
    (same : ∀ address, log.start * sectorBytes ≤ address → address < (log.start + blockSectors) * sectorBytes →
      after.media address = world.media address) : Formatted after count log limit usable := by
  obtain ⟨uuid, decoded⟩ := formatted.superblock
  refine ⟨formatted.some_, formatted.few, formatted.whole, low, writable, uuid, ?_⟩
  rw [← decoded]
  refine superDecode_congr fun byte inside => same _ (Nat.le_add_right _ _) ?_
  rw [Nat.add_mul]
  exact Nat.add_lt_add_left inside _

/-- Appending behind the superblock. -/
theorem SstWrite.formatted {table : Memtable} {count metaWp seq limit : Nat} {log : Extent} {world after : World}
    {written : SstWritten} {usable : Prop} (formatted : Formatted world count log limit usable)
    (write : SstWrite table count log metaWp seq world written after)
    (dry : ¬ world.oracle.Spills .metadata) (behind : log.start + blockSectors ≤ metaWp) :
    Formatted after count log limit usable := by
  obtain ⟨low, writable⟩ := write.zone_kept dry ((Nat.le_add_right _ _).trans behind)
  refine formatted.frame (low formatted.low) (fun fit => writable (formatted.writable fit)) fun address _ high => ?_
  exact write.appended.1.media address (Or.inl (high.trans_le (Nat.mul_le_mul_right _ behind)))

variable [Kernel] {log : Extent} {limit : Nat} {tables : List (Memtable × Nat)}

/-- The log of an engine is a superblock and these tables, oldest first. No
number is larger than the place of its table: the engine counts from 1. -/
structure LogHeld (machine : Machine) (log : Extent) (tables : List (Memtable × Nat)) : Prop where
  tiled : Tiled machine.world.media (log.start + blockSectors) tables
  last : logEnd (log.start + blockSectors) tables = machine.lsm.metaWp
  ends : machine.world.LogEnd machine.lsm.allocator.zones.length log machine.lsm.metaWp
  inside : machine.lsm.metaWp ≤ log.start + log.capacity
  numbered : ∀ place entry, tables[place]? = some entry → entry.2 ≤ place + 1
  next : machine.lsm.nextSstSeq ≤ tables.length + 1

omit [Kernel] in
/-- The tables among these generations that hold anything. -/
def filledTables (generations : List (Option Memtable)) : List Memtable :=
  (generations.filterMap id).filter fun table => !table.root.inorder.isEmpty

omit [Kernel] in
/-- The tables a detach has to write, oldest first. -/
def unsaved (lsm : Lsm) : List Memtable := filledTables [lsm.flushing, lsm.tables.immutable, some lsm.tables.active]

omit [Kernel] in
theorem filledTables_filled {table : Memtable} (filled : table.root.inorder ≠ []) (generations : List (Option Memtable)) :
    filledTables (some table :: generations) = table :: filledTables generations := by
  have some_ : (!table.root.inorder.isEmpty) = true := by simpa using filled
  exact List.filter_cons_of_pos some_

omit [Kernel] in
theorem filledTables_empty {table : Memtable} (empty : table.root.inorder = []) (generations : List (Option Memtable)) :
    filledTables (some table :: generations) = filledTables generations := by
  have none_ : ¬ (!table.root.inorder.isEmpty) = true := by simpa using empty
  exact List.filter_cons_of_neg none_

/-- What a detach leaves of a log: some more tables complete, and behind them at
most the head of the next. -/
structure Saved (world : World) (index : Nat) (log : Extent) (tables : List (Memtable × Nat)) (rest : List Memtable) : Prop where
  tiled : Tiled world.media (log.start + blockSectors) tables
  numbered : ∀ place entry, tables[place]? = some entry → entry.2 ≤ place + 1
  stops : ∃ sector, world.LogEnd index log sector ∧ LogTail world.media (logEnd (log.start + blockSectors) tables) sector ∧
    sector ≤ log.start + log.capacity ∧ ∀ table ∈ rest.head?, sector < logEnd (log.start + blockSectors) tables + table.logSectors

omit [Kernel] in
private theorem numbered_concat {seq : Nat} {table : Memtable}
    (numbered : ∀ place entry, tables[place]? = some entry → entry.2 ≤ place + 1) (next : seq ≤ tables.length + 1) :
    ∀ place entry, (tables ++ [(table, seq)])[place]? = some entry → entry.2 ≤ place + 1 := by
  intro place entry found
  rcases Nat.lt_trichotomy place tables.length with less | same | more
  · rw [List.getElem?_append_left less] at found
    exact numbered place entry found
  · rw [List.getElem?_append_right (by omega), same, Nat.sub_self] at found
    cases found
    rw [same]
    exact next
  · rw [List.getElem?_eq_none (by rw [List.length_append, List.length_singleton]; omega)] at found
    cases found

theorem LogHeld.saved {machine : Machine} (held : LogHeld machine log tables) (rest : List Memtable) :
    Saved machine.world machine.lsm.allocator.zones.length log tables rest := by
  refine ⟨held.tiled, held.numbered, _, held.ends, .clean held.last, held.inside, fun table _ => ?_⟩
  have size := table.logSectors_pos
  simp only [blockSectors] at size
  rw [held.last]
  omega

omit [Kernel] in
/-- One round of `zns_lsm_flush_all_sync`. -/
theorem flushGenerations_round {table : Memtable} (generations : List (Option Memtable)) {machine : Machine} {world : World}
    {written : SstWritten}
    (ran : sstWrite table machine.lsm.metaWp machine.lsm.metaEnd machine.lsm.nextSstSeq machine.world = (written, world)) :
    (∀ sst, written.result = .ok sst → flushGenerations (some table :: generations) machine =
      flushGenerations generations ⟨{ machine.lsm with
        metaWp := machine.lsm.metaWp + written.consumed, nextSstSeq := machine.lsm.nextSstSeq + 1 }, world⟩) ∧
    (written.result = .error .enodata → flushGenerations (some table :: generations) machine =
      flushGenerations generations ⟨{ machine.lsm with metaWp := machine.lsm.metaWp + written.consumed }, world⟩) ∧
    ∀ error, written.result = .error error → error ≠ .enodata → flushGenerations (some table :: generations) machine =
      (.error error, ⟨{ machine.lsm with metaWp := machine.lsm.metaWp + written.consumed }, world⟩) := by
  rw [flushGenerations, ran]
  exact ⟨fun sst done => by simp only [done], fun done => by simp only [done], fun error done other => by simp only [done]⟩

/-- The device is too small for sequence numbers to wrap around. -/
theorem LogHeld.next_lt {machine : Machine} (held : LogHeld machine log tables) (attached : Attached machine log) :
    machine.lsm.nextSstSeq < 2 ^ 64 := by
  have capacity := machine.world.geometry.capacity_le log (by rw [attached.geometry]; simp)
  have zone := machine.world.geometry.bounded log (by rw [attached.geometry]; simp)
  have room := le_logEnd (log.start + blockSectors) tables
  have inside := held.inside
  have next := held.next
  rw [held.last] at room
  simp only [blockSectors] at room
  omega

/-- The loop of `zns_lsm_flush_all_sync`: it writes the tables in order and stops
at the first that fails. -/
theorem flushGenerations_saved (generations : List (Option Memtable)) {machine : Machine} (flushable : Flushable machine log)
    (held : LogHeld machine log tables) (sound : ∀ table, some table ∈ generations → table.Sound)
    (dry : ¬ machine.world.oracle.Spills .metadata) (distinct : machine.world.oracle.Distinct) :
    ∃ written rest, filledTables generations = written ++ rest ∧
      Saved (flushGenerations generations machine).2.world machine.lsm.allocator.zones.length log
        (tables ++ written.zipIdx machine.lsm.nextSstSeq) rest ∧
      ((flushGenerations generations machine).1 = .ok () → rest = []) ∧
      ((flushGenerations generations machine).1 = .ok () ∨ machine.world.oracle.Healthy →
        LogHeld (flushGenerations generations machine).2 log (tables ++ written.zipIdx machine.lsm.nextSstSeq)) := by
  induction generations generalizing machine tables with
  | nil =>
    rw [flushGenerations]
    refine ⟨[], [], rfl, ?_, fun _ => rfl, fun _ => ?_⟩
    · rw [List.zipIdx_nil, List.append_nil]
      exact held.saved []
    · rw [List.zipIdx_nil, List.append_nil]
      exact held
  | cons generation generations ih =>
    have others : ∀ table, some table ∈ generations → table.Sound :=
      fun table member => sound table (List.mem_cons_of_mem _ member)
    cases generation with
    | none => exact ih flushable held others dry distinct
    | some table =>
      have resident := sound table List.mem_cons_self
      have write := sstWrite_attached flushable resident.toRegular machine.lsm.nextSstSeq
      obtain ⟨appended, _, later⟩ := write.appended
      have outcome := write.extends resident dry held.tiled held.last held.ends
      cases ran : sstWrite table machine.lsm.metaWp machine.lsm.metaEnd machine.lsm.nextSstSeq machine.world with
      | mk written world =>
      rw [ran] at appended later outcome
      obtain ⟨goesOn, skips, stops⟩ := flushGenerations_round generations ran
      have onward (consumed nextSstSeq : Nat) :
          Flushable ⟨{ machine.lsm with metaWp := machine.lsm.metaWp + consumed, nextSstSeq }, world⟩ log :=
        ⟨(flushable.attached.onDevice appended.geometry).onEngine rfl rfl rfl, flushable.regular,
          flushable.logStart.trans (Nat.le_add_right _ _)⟩
      have dry' : ¬ world.oracle.Spills .metadata := fun spills => dry (spills.later later)
      have distinct' : world.oracle.Distinct := distinct.later later
      cases outcome with
      | complete filled tiled ends room =>
        have held' : LogHeld ⟨{ machine.lsm with
            metaWp := machine.lsm.metaWp + table.logSectors, nextSstSeq := machine.lsm.nextSstSeq + 1 }, world⟩ log
            (tables ++ [(table, machine.lsm.nextSstSeq)]) := by
          refine ⟨tiled, ?_, ends, room, numbered_concat held.numbered held.next, ?_⟩
          · rw [logEnd_append, held.last]
            rfl
          · rw [List.length_append, List.length_singleton]
            exact Nat.succ_le_succ held.next
        obtain ⟨written, rest, parts, saved, finished, whole⟩ := ih (onward _ _) held' others dry' distinct'
        rw [goesOn _ rfl]
        rw [List.append_assoc] at saved whole
        refine ⟨table :: written, rest, ?_, saved, finished, fun fine => whole (fine.imp_right fun healthy => healthy.later later)⟩
        rw [filledTables_filled filled, parts, List.cons_append]
      | @nothing _ error tiled ends cause =>
        have held' : LogHeld ⟨{ machine.lsm with metaWp := machine.lsm.metaWp + 0 }, world⟩ log tables :=
          ⟨tiled, held.last, ends, held.inside, held.numbered, held.next⟩
        by_cases empty : error = .enodata
        · subst empty
          rw [skips rfl, filledTables_empty ((cause rfl).resolve_right distinct)]
          obtain ⟨written, rest, parts, saved, finished, whole⟩ := ih (onward 0 _) held' others dry' distinct'
          exact ⟨written, rest, parts, saved, finished, fun fine => whole (fine.imp_right fun healthy => healthy.later later)⟩
        · rw [stops error rfl empty]
          refine ⟨[], _, rfl, ?_, (by rintro ⟨⟩), fun _ => ?_⟩
          · rw [List.zipIdx_nil, List.append_nil]
            exact held'.saved _
          · rw [List.zipIdx_nil, List.append_nil]
            exact held'
      | @torn _ error consumed filled some_ short tiled header ends room cause sick =>
        rw [stops error rfl fun same => distinct (cause same), filledTables_filled filled]
        refine ⟨[], _, rfl, ?_, (by rintro ⟨⟩), fun fine => ?_⟩
        rotate_left
        · rcases fine with done | healthy
          · cases done
          · exact absurd healthy sick
        rw [List.zipIdx_nil, List.append_nil]
        have numberSmall := held.next_lt flushable.attached
        refine ⟨tiled, held.numbered, _, ends, ?_, room, ?_⟩
        · rw [held.last]
          exact .torn table machine.lsm.nextSstSeq resident filled numberSmall header (by omega) (by omega)
        · intro first same
          cases same
          rw [held.last]
          omega

omit [Kernel] in
theorem flushGenerations_allocator (generations : List (Option Memtable)) (machine : Machine) :
    (flushGenerations generations machine).2.lsm.allocator = machine.lsm.allocator := by
  induction generations generalizing machine with
  | nil => rfl
  | cons generation generations ih =>
    cases generation with
    | none => exact ih machine
    | some table =>
      cases ran : sstWrite table machine.lsm.metaWp machine.lsm.metaEnd machine.lsm.nextSstSeq machine.world with
      | mk written world =>
      obtain ⟨goesOn, skips, stops⟩ := flushGenerations_round generations ran
      cases done : written.result with
      | ok sst => rw [goesOn sst done, ih]
      | error error =>
        by_cases empty : error = .enodata
        · subst empty
          rw [skips done, ih]
        · rw [stops error done empty]

/-- A detach writes behind the log only. -/
theorem flushGenerations_appended (generations : List (Option Memtable)) {machine : Machine} {usable : Prop}
    (flushable : Flushable machine log) (regular : ∀ table, some table ∈ generations → table.Regular)
    (dry : ¬ machine.world.oracle.Spills .metadata) (behind : log.start + blockSectors ≤ machine.lsm.metaWp)
    (formatted : Formatted machine.world machine.lsm.allocator.zones.length log limit usable) :
    machine.world.Appended (flushGenerations generations machine).2.world machine.lsm.allocator.zones.length log
        machine.lsm.metaWp ∧
      (flushGenerations generations machine).2.world.dataWrites = machine.world.dataWrites ∧
      Formatted (flushGenerations generations machine).2.world machine.lsm.allocator.zones.length log limit usable := by
  induction generations generalizing machine with
  | nil => exact ⟨(World.SameDevice.refl _).appended _ _ _, rfl, formatted⟩
  | cons generation generations ih =>
    have others : ∀ table, some table ∈ generations → table.Regular :=
      fun table member => regular table (List.mem_cons_of_mem _ member)
    cases generation with
    | none => exact ih flushable others dry behind formatted
    | some table =>
      have write := sstWrite_attached flushable (regular table List.mem_cons_self) machine.lsm.nextSstSeq
      have formatted' := SstWrite.formatted formatted write dry behind
      obtain ⟨appended, dataWrites, later⟩ := write.appended
      cases ran : sstWrite table machine.lsm.metaWp machine.lsm.metaEnd machine.lsm.nextSstSeq machine.world with
      | mk written world =>
      rw [ran] at appended dataWrites later formatted'
      obtain ⟨goesOn, skips, stops⟩ := flushGenerations_round generations ran
      have onward (nextSstSeq : Nat) := @ih ⟨{ machine.lsm with metaWp := machine.lsm.metaWp + written.consumed, nextSstSeq }, world⟩
        ⟨(flushable.attached.onDevice appended.geometry).onEngine rfl rfl rfl, flushable.regular,
          flushable.logStart.trans (Nat.le_add_right _ _)⟩ others (fun spills => dry (spills.later later))
        (behind.trans (Nat.le_add_right _ _)) formatted'
      cases done : written.result with
      | ok sst =>
        rw [goesOn sst done]
        obtain ⟨more, same, last⟩ := onward (machine.lsm.nextSstSeq + 1)
        exact ⟨appended.trans more (Nat.le_add_right _ _), same.trans dataWrites, last⟩
      | error error =>
        by_cases empty : error = .enodata
        · subst empty
          rw [skips done]
          obtain ⟨more, same, last⟩ := onward machine.lsm.nextSstSeq
          exact ⟨appended.trans more (Nat.le_add_right _ _), same.trans dataWrites, last⟩
        · rw [stops error done empty]
          exact ⟨appended, dataWrites, formatted'⟩

/-- What adopting tables in order leaves. -/
structure Adopted (before after : Lsm) (listed : List Sstable) : Prop where
  sstables : after.sstables = listed.reverse ++ before.sstables
  residents : after.residents = before.residents
  next : before.nextSstSeq ≤ after.nextSstSeq
  numbered : ∀ sst ∈ listed, sst.seq < after.nextSstSeq
  bounded : ∀ bound, before.nextSstSeq ≤ bound → (∀ sst ∈ listed, sst.seq + 1 ≤ bound) → after.nextSstSeq ≤ bound

omit [Kernel] in
theorem adoptSstable_all (listed : List Sstable) (lsm : Lsm) (small : ∀ sst ∈ listed, sst.seq + 1 < 2 ^ 64) :
    Adopted lsm (listed.foldl adoptSstable lsm) listed := by
  induction listed generalizing lsm with
  | nil => exact ⟨rfl, rfl, Nat.le_refl _, nofun, fun _ start _ => start⟩
  | cons sst rest ih =>
    obtain ⟨low, small⟩ := List.forall_mem_cons.mp small
    have next : (lsm.adoptSstable sst).nextSstSeq = max lsm.nextSstSeq (sst.seq + 1) := by
      rw [adoptSstable]
      dsimp only
      split
      · rw [Nat.mod_eq_of_lt low]
        omega
      · omega
    have later := ih (lsm.adoptSstable sst) small
    have forward := later.next
    rw [List.foldl_cons]
    refine ⟨?_, later.residents, by omega, ?_, fun bound start fits => ?_⟩
    · rw [later.sstables, List.reverse_cons, List.append_assoc]
      rfl
    · rw [List.forall_mem_cons]
      exact ⟨by omega, later.numbered⟩
    · obtain ⟨here, others⟩ := List.forall_mem_cons.mp fits
      exact later.bounded bound (by omega) others

omit [Kernel] in
theorem logTables_seq {sst : Sstable} {sector : Nat} (member : sst ∈ logTables sector tables) :
    ∃ entry ∈ tables, sst.seq = entry.2 := by
  induction tables generalizing sector with
  | nil => cases member
  | cons entry rest ih =>
    obtain ⟨table, seq⟩ := entry
    rcases List.mem_cons.mp member with rfl | other
    · exact ⟨_, List.mem_cons_self, (sstLoaded_place table sector seq).2⟩
    · obtain ⟨found, inside, same⟩ := ih other
      exact ⟨found, List.mem_cons_of_mem _ inside, same⟩

/-- What the tables of a log hold. -/
theorem tiled_entries {media : Nat → UInt8} {sector : Nat} (tiled : Tiled media sector tables) :
    (logTables sector tables).map (Sstable.entries media) = tables.map fun entry => entry.1.pairs := by
  induction tables generalizing sector with
  | nil => rfl
  | cons entry rest ih =>
    obtain ⟨stored, tiled⟩ := tiled
    rw [logTables, List.map_cons, List.map_cons, ih tiled, stored.entries_eq]

theorem tiled_genuine {media : Nat → UInt8} {sector : Nat} (tiled : Tiled media sector tables) :
    ∀ sst ∈ logTables sector tables, ∃ memtable, Stored media sst memtable := by
  induction tables generalizing sector with
  | nil => nofun
  | cons entry rest ih =>
    obtain ⟨stored, tiled⟩ := tiled
    exact List.forall_mem_cons.mpr ⟨⟨_, stored⟩, ih tiled⟩

section Recovery
variable {world : World} {data : List Extent} {rest : List Memtable} {params : Params} {logicalSectors uuid : Nat}
  {opened : Machine} (saved : Saved world data.length log tables rest) (split : world.geometry.zones = data ++ [log])
  (opening : Opened params logicalSectors uuid world opened.world data log opened.lsm)
include saved opening

/-- The engine opens such a log where it ends. -/
theorem Saved.reopened : Tiled opened.world.media (log.start + blockSectors) tables ∧
    LogTail opened.world.media (logEnd (log.start + blockSectors) tables) opened.lsm.metaWp ∧
    logEnd (log.start + blockSectors) tables ≤ opened.lsm.metaWp ∧ world.Quiet opened.world := by
  obtain ⟨sector, ends, tail, _, _⟩ := saved.stops
  have beyond : logEnd (log.start + blockSectors) tables ≤ sector := by
    cases tail with
    | clean same => exact same.le
    | torn _ _ _ _ _ _ begun _ => exact begun.le
  obtain ⟨middle, quiet, logged⟩ := opening.opening
  generalize same : (⟨opened.lsm.metaStart, opened.lsm.metaWp, opened.lsm.metaEnd, opened.lsm.super⟩ : Metadata) = metadata
    at logged
  have pointer : opened.lsm.metaWp = metadata.metaWp := by rw [← same]
  rw [pointer]
  cases logged with
  | formatted empty landed later dataWrites =>
    have first := le_logEnd (log.start + blockSectors) tables
    have clash : log.start = sector := empty.trans ends.symm
    simp only [blockSectors] at first beyond
    omega
  | @found metaWp _ still found used decoded matched =>
    obtain rfl : metaWp = sector := found.trans ends.symm
    have media : opened.world.media = world.media := (still.trans quiet).media
    rw [media]
    exact ⟨saved.tiled, tail, beyond, still.trans quiet⟩

include split in
theorem Saved.few : ∀ entry ∈ tables, entry.2 + 1 < 2 ^ 64 := by
  obtain ⟨_, _, beyond, _⟩ := saved.reopened opening
  have few := opening.tables_few split beyond
  intro entry member
  obtain ⟨place, found⟩ := List.mem_iff_getElem?.mp member
  obtain ⟨bound, _⟩ := List.getElem?_eq_some_iff.mp found
  have number := saved.numbered place entry found
  omega

include split in
/-- `zns_lsm_recover_sstables` on what a detach left, when every read succeeds:
the complete tables, newest first. -/
theorem Saved.recovers (healthy : world.oracle.Healthy) : ∃ recovered, recoverSstables opened = (.ok (), recovered) ∧
    opened.world.Quiet recovered.world ∧
    recovered.lsm.sstables = (logTables (log.start + blockSectors) tables).reverse ∧
    (∀ sst ∈ recovered.lsm.sstables, sst.seq < recovered.lsm.nextSstSeq) ∧
    ∀ logicalBlock, lookup recovered logicalBlock =
      answer (Layers.resolve (tables.reverse.map fun entry => entry.1.pairs) logicalBlock) := by
  obtain ⟨tiled, tail, _, quiet⟩ := saved.reopened opening
  have few := saved.few split opening
  have small : ∀ entry ∈ tables, entry.2 < 2 ^ 64 := fun entry member => (Nat.lt_succ_self _).trans (few entry member)
  have sound : opened.world.oracle.Healthy := healthy.later quiet.later
  have walk : Effect.Ensures (recoverFrom (opened.lsm.metaWp + 1) (log.start + blockSectors)) opened
      (Walked opened (log.start + blockSectors) tables) := recoverFrom_walk tables tiled tail small (by omega)
  have started : recoverSstables opened = recoverFrom (opened.lsm.metaWp + 1) (log.start + blockSectors) opened := by
    rw [recoverSstables, Effect.get_bind_run, (opening.attached split).metaStart]
  obtain ⟨found, _, adopted, still, ends⟩ := walk
  generalize recoverFrom (opened.lsm.metaWp + 1) (log.start + blockSectors) opened = outcome at started adopted still ends
  obtain ⟨result, recovered⟩ := outcome
  obtain ⟨done, all⟩ : result = .ok () ∧ found = tables := by
    rcases ends with ⟨done, all | reports⟩ | ⟨_, _, sick⟩
    · exact ⟨done, all⟩
    · exact absurd reports (sound.requests _ _)
    · exact absurd sound sick
  subst done all
  have adopts := adoptSstable_all (logTables (log.start + blockSectors) found) opened.lsm fun sst member => by
    obtain ⟨entry, inside, same⟩ := logTables_seq member
    rw [same]
    exact few entry inside
  dsimp only at adopted still
  rw [← adopted] at adopts
  have unlisted : opened.lsm.sstables = [] := by
    rw [opening.engine]
    rfl
  have listed : recovered.lsm.sstables = (logTables (log.start + blockSectors) found).reverse := by
    rw [adopts.sstables, unlisted, List.append_nil]
  have residents : recovered.lsm.residents = [Memtable.init] := by rw [adopts.residents, opening.residents]
  refine ⟨recovered, started, still, listed, ?_, fun logicalBlock => ?_⟩
  · rw [listed]
    exact fun sst member => adopts.numbered sst (List.mem_reverse.mp member)
  · have findable : Findable recovered := by
      refine ⟨?_, ?_⟩
      · rw [residents]
        intro table member
        rw [List.mem_singleton.mp member]
        exact Memtable.init_regular
      · rw [listed, still.media]
        intro sst member
        obtain ⟨_, stored⟩ := tiled_genuine tiled sst (List.mem_reverse.mp member)
        exact stored.searchable
    rw [findable.lookup_eq, mapping, layers, residents, listed, still.media, List.map_reverse, tiled_entries tiled,
      List.map_reverse]
    rfl

end Recovery

/-- A session whose log is these tables and nothing else. It lists them; all of
them if its own start saw the whole log. -/
structure Recorded (machine : Machine) (log : Extent) (limit : Nat) (whole usable : Prop) (tables : List (Memtable × Nat)) :
    Prop where
  settled : Settled machine log limit machine.logView
  dry : ¬ machine.world.oracle.Spills .metadata
  held : LogHeld machine log tables
  formatted : Formatted machine.world machine.lsm.allocator.zones.length log limit usable
  listed : (machine.lsm.sstables.map Sstable.unsummed).Sublist
    ((logTables (log.start + blockSectors) tables).reverse.map Sstable.unsummed)
  complete : whole → machine.lsm.sstables.map Sstable.unsummed =
    (logTables (log.start + blockSectors) tables).reverse.map Sstable.unsummed

section Session
variable {whole usable : Prop} {machine after : Machine} (recorded : Recorded machine log limit whole usable tables)
include recorded

theorem Recorded.behind : log.start + blockSectors ≤ machine.lsm.metaWp := by
  rw [← recorded.held.last]
  exact (Nat.le_add_right _ _).trans (le_logEnd _ tables)


/-- Whatever leaves the log alone. -/
theorem Recorded.beside (settled : Settled after log limit machine.logView) : Recorded after log limit whole usable tables := by
  have of := settled.1.of
  have attached := recorded.settled.1.attached
  have index : after.world.logIndex = machine.world.logIndex := congrArg LogDevice.index of.device
  have length : after.lsm.allocator.zones.length = machine.lsm.allocator.zones.length := by
    rw [← settled.1.attached.logIndex, index, attached.logIndex]
  have pointer : after.world.writePointer after.world.logIndex = machine.world.writePointer machine.world.logIndex :=
    congrArg LogDevice.writePointer of.device
  have condition : after.world.condition after.world.logIndex = machine.world.condition machine.world.logIndex :=
    congrArg LogDevice.condition of.device
  have metaWp : after.lsm.metaWp = machine.lsm.metaWp := congrArg LogState.metaWp of.state
  have sstables : after.lsm.sstables = machine.lsm.sstables := congrArg LogState.sstables of.state
  have next : after.lsm.nextSstSeq = machine.lsm.nextSstSeq := congrArg LogState.nextSstSeq of.state
  have media (address : Nat) (above : log.start * sectorBytes ≤ address) :
      after.world.media address = machine.world.media address := by
    have bytes := congrFun (congrArg LogDevice.bytes of.device) (address - log.start * sectorBytes)
    simp only [Machine.logView, World.logDevice, settled.1.attached.logStart, attached.logStart] at bytes
    rw [Nat.add_sub_cancel' above] at bytes
    exact bytes
  refine ⟨⟨{ settled.1 with of := ⟨rfl, rfl, .refl _⟩ }, settled.2⟩, fun spills => recorded.dry (spills.later of.later),
    ⟨?_, by rw [metaWp]; exact recorded.held.last, ?_, by rw [metaWp]; exact recorded.held.inside, recorded.held.numbered,
    by rw [next]; exact recorded.held.next⟩, ?_, ?_, ?_⟩
  · refine recorded.held.tiled.frame fun address low _ => media address ((Nat.mul_le_mul_right _ ?_).trans low)
    exact Nat.le_add_right _ _
  · rw [settled.1.attached.logIndex, attached.logIndex] at pointer condition
    rw [metaWp, World.LogEnd, pointer, condition]
    exact recorded.held.ends
  · rw [length]
    rw [settled.1.attached.logIndex, attached.logIndex, length] at pointer condition
    refine recorded.formatted.frame ?_ ?_ fun address low _ => media address low
    · rw [pointer]
      exact recorded.formatted.low
    · rw [condition]
      exact recorded.formatted.writable
  · rw [sstables]
    exact recorded.listed
  · rw [sstables]
    exact recorded.complete

/-- An attempt to append one of the tables in memory, and what the engine notes
of it. -/
theorem Recorded.attempt (narrow : limit < 2 ^ 64) {table : Memtable} (resident : table ∈ machine.lsm.residents)
    (flushes : Flushes machine after log) (world : after.world = (attemptTable table machine).2)
    (metaWp : after.lsm.metaWp = machine.lsm.metaWp + (attemptTable table machine).1.consumed)
    (noted : (∃ sst, (attemptTable table machine).1.result = .ok sst ∧ after.lsm.sstables = sst :: machine.lsm.sstables ∧
        after.lsm.nextSstSeq = machine.lsm.nextSstSeq + 1) ∨
      (attemptTable table machine).1.consumed = 0 ∧ after.lsm.sstables = machine.lsm.sstables ∧
        after.lsm.nextSstSeq = machine.lsm.nextSstSeq) :
    ∃ tables, Recorded after log limit whole usable tables := by
  have disciplined := recorded.settled.1
  have held := recorded.held
  have sound : table.Sound := (disciplined.narrow narrow).1 table resident
  have settled : Settled after log limit after.logView := by
    refine ⟨{ flushes.disciplined disciplined with of := ⟨rfl, rfl, .refl _⟩ }, fun running => ?_⟩
    rw [flushes.writesStopped] at running
    exact flushes.synced (recorded.settled.2 running)
  have dry : ¬ after.world.oracle.Spills .metadata := fun spills => recorded.dry (spills.later flushes.later)
  have write := sstWrite_attached disciplined.flushable sound.toRegular machine.lsm.nextSstSeq
  have outcome := write.extends sound recorded.dry held.tiled held.last held.ends
  change Extends _ _ _ _ _ _ _ _ (attemptTable table machine).1 (attemptTable table machine).2 at outcome
  have zones : after.lsm.allocator.zones.length = machine.lsm.allocator.zones.length := by rw [flushes.allocator]
  have formatted : Formatted after.world after.lsm.allocator.zones.length log limit usable := by
    rw [world, zones]
    exact SstWrite.formatted recorded.formatted write recorded.dry recorded.behind
  rcases noted with ⟨sst, done, sstables, next⟩ | ⟨none_, sstables, next⟩
  · generalize attemptTable table machine = attempted at outcome world metaWp done
    obtain ⟨written, written'⟩ := attempted
    dsimp only at outcome world metaWp done
    subst world
    cases outcome with
    | nothing => cases done
    | torn => cases done
    | complete filled tiled ends room =>
      cases done
      have start : logEnd (log.start + blockSectors) tables = machine.lsm.metaWp := held.last
      have listed : after.lsm.sstables.map Sstable.unsummed = (sstSummary table machine.lsm.metaWp machine.lsm.nextSstSeq).unsummed ::
          machine.lsm.sstables.map Sstable.unsummed := by rw [sstables, List.map_cons]
      have logged : (logTables (log.start + blockSectors) (tables ++ [(table, machine.lsm.nextSstSeq)])).reverse.map Sstable.unsummed =
          (sstSummary table machine.lsm.metaWp machine.lsm.nextSstSeq).unsummed ::
            (logTables (log.start + blockSectors) tables).reverse.map Sstable.unsummed := by
        rw [logTables_append, start, List.reverse_append, List.map_append]
        rfl
      refine ⟨tables ++ [(table, machine.lsm.nextSstSeq)], settled, dry, ⟨tiled, ?_, ?_, by rw [metaWp]; exact room,
        numbered_concat held.numbered held.next, ?_⟩, formatted, ?_, fun all => ?_⟩
      · rw [logEnd_append, start, metaWp]
        rfl
      · rw [zones, metaWp]
        exact ends
      · rw [next, List.length_append, List.length_singleton]
        exact Nat.succ_le_succ held.next
      · rw [listed, logged]
        exact recorded.listed.cons_cons _
      · rw [listed, logged, recorded.complete all]
  · generalize attemptTable table machine = attempted at outcome world metaWp none_
    obtain ⟨written, written'⟩ := attempted
    dsimp only at outcome world metaWp none_
    subst world
    cases outcome with
    | complete filled =>
      have size := table.logSectors_pos
      simp only [blockSectors] at size
      dsimp only at none_
      omega
    | torn _ some_ =>
      dsimp only at none_
      omega
    | nothing tiled ends =>
      refine ⟨tables, settled, dry, ⟨tiled, ?_, ?_, by rw [metaWp]; exact held.inside, held.numbered,
        by rw [next]; exact held.next⟩, formatted, by rw [sstables]; exact recorded.listed,
        by rw [sstables]; exact recorded.complete⟩
      · rw [metaWp]
        exact held.last
      · rw [zones, metaWp]
        exact ends

theorem Recorded.request (params : Params) (bio : Bio) : Settled (engineMap params bio machine).2 log limit machine.logView :=
  engineMap_preserves (fun _ settled => settled.1.logicalSectors) (fun _ _ settled same => settled.same same)
    (fun _ _ bytes settled _ inside => appendWrite_settled params bytes settled inside) bio recorded.settled

theorem Recorded.step {params : Params} (narrow : limit < 2 ^ 64) (step : Step params machine after)
    (unburned : after.lsm.metaWp = machine.lsm.metaWp ∨ after.lsm.nrSstables = machine.lsm.nrSstables + 1) :
    ∃ tables, Recorded after log limit whole usable tables := by
  have settled := recorded.settled
  have same {lsm : Lsm} (flushes : Flushes machine { machine with lsm } log) (state : lsm.logState = machine.lsm.logState) :
      Settled { machine with lsm } log limit machine.logView := by
    refine ⟨{ flushes.disciplined settled.1 with of := ⟨state, rfl, .refl _⟩ }, fun running => ?_⟩
    rw [flushes.writesStopped] at running
    exact flushes.synced (settled.2 running)
  cases step with
  | request bio => exact ⟨tables, recorded.beside (recorded.request params bio)⟩
  | claim =>
    refine ⟨tables, recorded.beside (same (claimFlushVictim_flushes machine log) ?_)⟩
    unfold claimFlushVictim
    split <;> rfl
  | flags flushInFlight flushPending =>
    have flushes : Flushes machine { machine with lsm := { machine.lsm with flushInFlight, flushPending } } log :=
      ⟨rfl, rfl, rfl, rfl, Nat.le_refl _, rfl, rfl, rfl, rfl, rfl, rfl, rfl, fun _ member => member,
        (World.SameDevice.refl _).appended _ _ _, rfl, .refl _⟩
    exact ⟨tables, recorded.beside (same flushes rfl)⟩
  | @attempt victim slot =>
    have resident : victim ∈ machine.lsm.residents := by simp [residents, slot]
    obtain ⟨world, state⟩ := flushVictim_log victim machine
    refine recorded.attempt narrow resident (flushVictim_flushes settled.1.flushable slot) world ?_ ?_
    · rcases state with ⟨_, _, moved⟩ | ⟨sst, _, published⟩
      · exact congrArg LogState.metaWp moved
      · exact congrArg LogState.metaWp published
    · rcases state with ⟨_, _, moved⟩ | ⟨sst, done, published⟩
      · have metaWp : (flushVictim victim machine).2.lsm.metaWp = _ := congrArg LogState.metaWp moved
        have nrSstables : (flushVictim victim machine).2.lsm.nrSstables = machine.lsm.nrSstables :=
          congrArg LogState.nrSstables moved
        refine Or.inr ⟨?_, congrArg LogState.sstables moved, congrArg LogState.nextSstSeq moved⟩
        rw [metaWp, nrSstables] at unburned
        dsimp only [logState] at unburned
        omega
      · exact Or.inl ⟨sst, done, congrArg LogState.sstables published, congrArg LogState.nextSstSeq published⟩
  | @detach table resident =>
    have sound : table.Sound := (settled.1.narrow narrow).1 table resident
    obtain ⟨_, _, _, flushes⟩ := flushGenerations_single settled.1.flushable sound.toRegular
    obtain ⟨goesOn, skips, stops⟩ := @flushGenerations_round table [] machine (attemptTable table machine).2
      (attemptTable table machine).1 rfl
    cases done : (attemptTable table machine).1.result with
    | ok sst =>
      -- A table that is written here is not listed, so its blocks count as burned.
      have ended := goesOn sst done
      have outcome := (sstWrite_attached settled.1.flushable sound.toRegular machine.lsm.nextSstSeq).extends sound recorded.dry
        recorded.held.tiled recorded.held.last recorded.held.ends
      change Extends _ _ _ _ _ _ _ _ (attemptTable table machine).1 (attemptTable table machine).2 at outcome
      rw [ended] at unburned
      change machine.lsm.metaWp + (attemptTable table machine).1.consumed = _ ∨ machine.lsm.nrSstables = _ at unburned
      generalize attemptTable table machine = attempted at outcome done unburned
      obtain ⟨written, world⟩ := attempted
      cases outcome with
      | complete filled =>
        have size := table.logSectors_pos
        simp only [blockSectors] at size
        dsimp only at unburned
        omega
      | nothing => cases done
      | torn => cases done
    | error error =>
      have ended : (flushGenerations [some table] machine).2 =
          ⟨{ machine.lsm with metaWp := machine.lsm.metaWp + (attemptTable table machine).1.consumed }, (attemptTable table machine).2⟩ := by
        by_cases empty : error = .enodata
        · subst empty
          rw [skips done]
          rfl
        · rw [stops error done empty]
      refine recorded.attempt narrow resident flushes (by rw [ended]) (by rw [ended]) (Or.inr ⟨?_, by rw [ended], by rw [ended]⟩)
      rw [ended] at unburned
      dsimp only at unburned
      omega

/-- A step draws from the oracle and never looks back. -/
theorem Recorded.later {params : Params} (step : Step params machine after) :
    machine.world.oracle.Later after.world.oracle := by
  have settled := recorded.settled
  cases step with
  | request bio => exact (recorded.request params bio).1.of.later
  | claim => exact .refl _
  | flags => exact .refl _
  | attempt slot => exact (flushVictim_flushes settled.1.flushable slot).later
  | @detach table resident =>
    obtain ⟨_, _, _, flushes⟩ := flushGenerations_single settled.1.flushable (settled.1.regular table resident)
    exact flushes.later

/-- When nothing fails, an attempt that does not finish leaves no blocks behind. -/
theorem Recorded.attempt_unburned (healthy : machine.world.oracle.Healthy) {victim : Memtable}
    (slot : machine.lsm.flushing = some victim) :
    (flushVictim victim machine).2.lsm.metaWp = machine.lsm.metaWp ∨
      (flushVictim victim machine).2.lsm.nrSstables = machine.lsm.nrSstables + 1 := by
  obtain ⟨_, state⟩ := flushVictim_log victim machine
  rcases state with ⟨error, failed, moved⟩ | ⟨sst, _, published⟩
  · have regular := recorded.settled.1.regular victim (by simp [residents, slot])
    have write := sstWrite_attached recorded.settled.1.flushable regular machine.lsm.nextSstSeq
    change SstWrite victim _ _ _ _ _ (attemptTable victim machine).1 (attemptTable victim machine).2 at write
    have metaWp : (flushVictim victim machine).2.lsm.metaWp = machine.lsm.metaWp + (attemptTable victim machine).1.consumed :=
      congrArg LogState.metaWp moved
    generalize attemptTable victim machine = attempted at write metaWp failed
    obtain ⟨written, world⟩ := attempted
    dsimp only at failed metaWp
    refine Or.inl ?_
    rw [metaWp]
    cases write with
    | empty => rfl
    | short => rfl
    | starved => rfl
    | @wrote _ result count filled room blocks =>
      cases result with
      | ok => cases failed
      | error error =>
        obtain ⟨_, reports | ⟨none_, _⟩⟩ := blocks.stopped error rfl
        · exact absurd reports (healthy.requests _ _)
        · rw [none_, Nat.zero_mul, Nat.add_zero]
  · exact Or.inr (congrArg LogState.nrSstables published)

/-- So on a healthy device the flush worker keeps the log whole. -/
theorem Recorded.flushWorker (narrow : limit < 2 ^ 64) (healthy : machine.world.oracle.Healthy) :
    ∃ tables, Recorded (Lsm.flushWorker machine) log limit whole usable tables := by
  have links : Relation.ReflTransGen (fun before after =>
      ((∃ tables, Recorded before log limit whole usable tables) ∧ before.world.oracle.Healthy) →
        (∃ tables, Recorded after log limit whole usable tables) ∧ after.world.oracle.Healthy)
      machine (Lsm.flushWorker machine) := by
    have link {before after : Machine} (step : Step ⟨.none, 1, 0, 0, 0⟩ before after)
        (unburned : ∀ tables, Recorded before log limit whole usable tables → before.world.oracle.Healthy →
          after.lsm.metaWp = before.lsm.metaWp ∨ after.lsm.nrSstables = before.lsm.nrSstables + 1)
        (holds : (∃ tables, Recorded before log limit whole usable tables) ∧ before.world.oracle.Healthy) :
        (∃ tables, Recorded after log limit whole usable tables) ∧ after.world.oracle.Healthy := by
      obtain ⟨⟨tables, recorded⟩, healthy⟩ := holds
      exact ⟨recorded.step narrow step (unburned tables recorded healthy), healthy.later (recorded.later step)⟩
    refine flushWorker_links (fun before => link .claim fun _ _ _ => Or.inl ?_)
      (fun before victim slot => link (.attempt slot) fun _ recorded healthy => recorded.attempt_unburned healthy slot)
      (fun before flushInFlight flushPending => link (.flags flushInFlight flushPending) fun _ _ _ => Or.inl rfl) machine
    unfold claimFlushVictim
    split <;> rfl
  generalize Lsm.flushWorker machine = final at links
  suffices holds : (∃ tables, Recorded final log limit whole usable tables) ∧ final.world.oracle.Healthy from holds.1
  induction links with
  | refl => exact ⟨⟨tables, recorded⟩, healthy⟩
  | tail _ link ih => exact link ih

end Session

/-- The log of this device is a superblock and these tables, or it is yet to be
formatted. -/
def LogOf (world : World) (data : List Extent) (log : Extent) (tables : List (Memtable × Nat)) : Prop :=
  (world.LogEnd data.length log log.start ∧ tables = []) ∨
    (Tiled world.media (log.start + blockSectors) tables ∧
      world.LogEnd data.length log (logEnd (log.start + blockSectors) tables) ∧
      ∀ place entry, tables[place]? = some entry → entry.2 ≤ place + 1)

/-- A step of a session after which every block of the log belongs to a listed
table: no flush left a part of one. -/
def Unburned (params : Params) (before after : Machine) : Prop :=
  Step params before after ∧
    (after.lsm.metaWp = before.lsm.metaWp ∨ after.lsm.nrSstables = before.lsm.nrSstables + 1)

section Start
variable {params : Params} {logicalSectors uuid : Nat} {world : World} {data : List Extent} {opened after : Machine}
  (logOf : LogOf world data log tables) (split : world.geometry.zones = data ++ [log])
  (opening : Opened params logicalSectors uuid world opened.world data log opened.lsm)
include logOf opening

theorem LogOf.opened_log : Tiled opened.world.media (log.start + blockSectors) tables ∧
    logEnd (log.start + blockSectors) tables = opened.lsm.metaWp ∧
    (∀ place entry, tables[place]? = some entry → entry.2 ≤ place + 1) := by
  obtain ⟨middle, quiet, logged⟩ := opening.opening
  generalize same : (⟨opened.lsm.metaStart, opened.lsm.metaWp, opened.lsm.metaEnd, opened.lsm.super⟩ : Metadata) = metadata
    at logged
  have pointer : opened.lsm.metaWp = metadata.metaWp := by rw [← same]
  rw [pointer, quiet.media]
  cases logged with
  | formatted ends landed later dataWrites =>
    rcases logOf with ⟨_, rfl⟩ | ⟨_, other, _⟩
    · exact ⟨trivial, rfl, nofun⟩
    · have first := le_logEnd (log.start + blockSectors) tables
      have clash : logEnd (log.start + blockSectors) tables = log.start := other.trans ends.symm
      simp only [blockSectors] at first clash
      omega
  | found still ends used decoded matched =>
    rcases logOf with ⟨empty, _⟩ | ⟨tiled, other, numbered⟩
    · exact absurd (ends.trans empty.symm) used
    · exact ⟨by rw [still.media]; exact tiled, other.trans ends.symm, numbered⟩

omit logOf [Kernel] in
include split in
/-- A start leaves a superblock, whether it found one or wrote one. -/
theorem Opened.formatted {usable : Prop} (narrow : logicalSectors < 2 ^ 64)
    (fit : usable → world.condition data.length ≠ .readonly ∧ world.condition data.length ≠ .offline) :
    Formatted opened.world data.length log logicalSectors usable := by
  have bounded := world.geometry.bounded log (by rw [split]; simp)
  have capacity := world.geometry.capacity_le log (by rw [split]; simp)
  have few := opening.few
  rw [split, List.length_append, List.length_singleton] at few
  have some_ : 0 < data.length := List.length_pos_iff.mpr opening.dataZones
  obtain ⟨middle, quiet, logged⟩ := opening.opening
  generalize (⟨opened.lsm.metaStart, opened.lsm.metaWp, opened.lsm.metaEnd, opened.lsm.super⟩ : Metadata) = metadata at logged
  suffices formatted : Formatted middle data.length log logicalSectors usable by
    refine formatted.frame ?_ ?_ fun address _ _ => by rw [quiet.media]
    · rw [quiet.writePointer]
      exact formatted.low
    · rw [quiet.condition]
      exact formatted.writable
  cases logged with
  | @found _ super still ends used decoded matched =>
    refine ⟨some_, few, opening.whole, ?_, ?_, super.uuid, ?_⟩
    · rw [still.writePointer]
      exact opening.low
    · rw [still.condition]
      exact fit
    · rw [still.block, decoded, matched]
      rfl
  | formatted ends landed later dataWrites =>
    cases landed with
    | committed accepted same =>
      obtain ⟨_, writable, online⟩ := world.commit_ends data.length log log.start
        (superEncode (deviceSuper data log logicalSectors uuid))
      have pointer := @World.commit_pointer world data.length log.start log
        (superEncode (deviceSuper data log logicalSectors uuid)) capacity
      refine ⟨some_, few, opening.whole, ?_, fun _ => ?_, uuid % 2 ^ 64, ?_⟩
      · rw [same.writePointer]
        omega
      · rw [same.condition]
        exact ⟨writable, online⟩
      · refine @superDecode_encode (deviceSuper data log logicalSectors (uuid % 2 ^ 64)) _ ?_ fun byte inside => ?_
        · exact ⟨Nat.mod_lt _ (by decide), narrow, by dsimp only [deviceSuper]; omega, by dsimp only [deviceSuper]; omega,
            by dsimp only [deviceSuper]; omega, by dsimp only [deviceSuper, blockSectors]; omega⟩
        · have cut := superEncode_uuid (deviceSuper data log logicalSectors uuid)
          change superEncode (deviceSuper data log logicalSectors (uuid % 2 ^ 64)) = _ at cut
          rw [cut, World.block, same.media, World.commit_media, overlay_inside (by omega) (by omega), Nat.add_sub_cancel_left]

include split in
theorem LogOf.recorded {usable : Prop} (started : Started opened after) (plain : ¬ world.oracle.Spills .metadata)
    (orderly : Orderly world) (narrow : logicalSectors < 2 ^ 64)
    (fit : usable → world.condition data.length ≠ .readonly ∧ world.condition data.length ≠ .offline) :
    Recorded after log logicalSectors (¬ world.oracle.Reports .metadata .einval) usable tables := by
  obtain ⟨tiled, last, numbered⟩ := logOf.opened_log opening
  have few := opening.tables_few split last.le
  obtain ⟨middle, quiet, logged⟩ := opening.opening
  have later : world.oracle.Later opened.world.oracle := logged.later.trans quiet.later
  have attached := started.attached split opening
  have zones : after.lsm.allocator.zones.length = data.length := by
    rw [← attached.logIndex, World.logIndex, started.device.geometry, (opening.appended split).1.geometry, split]
    simp
  have small (entry : Memtable × Nat) (member : entry ∈ tables) : entry.2 + 1 ≤ tables.length + 1 := by
    obtain ⟨place, found⟩ := List.mem_iff_getElem?.mp member
    obtain ⟨bound, _⟩ := List.getElem?_eq_some_iff.mp found
    have number := numbered place entry found
    omega
  have walk : Effect.Ensures (recoverFrom (opened.lsm.metaWp + 1) (log.start + blockSectors)) opened
      (Walked opened (log.start + blockSectors) tables) :=
    recoverFrom_walk tables tiled (.clean last) (fun entry member => by have := small entry member; omega) (by omega)
  obtain ⟨recovered, walked, state, still⟩ := started.recovered
  rw [recoverSstables, Effect.get_bind_run, (opening.attached split).metaStart] at walked
  unfold Effect.Ensures at walk
  rw [walked] at walk
  obtain ⟨found, ⟨missed, rfl⟩, adopted, walked, ends⟩ := walk
  dsimp only at adopted walked ends
  have within (sst : Sstable) (member : sst ∈ logTables (log.start + blockSectors) found) :
      sst.seq + 1 ≤ (found ++ missed).length + 1 := by
    obtain ⟨entry, inside, same⟩ := logTables_seq member
    rw [same]
    exact small entry (List.mem_append_left _ inside)
  have adopts := adoptSstable_all (logTables (log.start + blockSectors) found) opened.lsm
    fun sst member => by have := within sst member; omega
  rw [← adopted] at adopts
  have fresh : opened.lsm.sstables = [] ∧ opened.lsm.nextSstSeq = 1 := by
    rw [opening.engine]
    exact ⟨rfl, rfl⟩
  have sstables : after.lsm.sstables = (logTables (log.start + blockSectors) found).reverse := by
    rw [show after.lsm.sstables = recovered.lsm.sstables from congrArg LogState.sstables state, adopts.sstables, fresh.1,
      List.append_nil]
  refine ⟨started.settled split opening orderly, fun spills => plain ((spills.later started.device.later).later later),
    ⟨?_, ?_, ?_, ?_, numbered, ?_⟩, ?_, ?_, fun clean => ?_⟩
  · rw [started.device.media]
    exact tiled
  · rw [last, started.sameLog.metaWp]
  · rw [zones, started.sameLog.metaWp]
    exact started.device.logEnd (quiet.logEnd logged.bounds.2.2.2)
  · rw [started.sameLog.metaWp]
    exact opening.logEnd
  · rw [show after.lsm.nextSstSeq = recovered.lsm.nextSstSeq from congrArg LogState.nextSstSeq state]
    exact adopts.bounded _ (by rw [fresh.2]; omega) within
  · have formatted := opening.formatted split narrow fit
    rw [zones]
    refine formatted.frame ?_ ?_ fun address _ _ => by rw [started.device.media]
    · rw [started.device.writePointer]
      exact formatted.low
    · rw [started.device.condition]
      exact formatted.writable
  · rw [sstables, logTables_append, List.reverse_append, List.map_append]
    exact List.sublist_append_right _ _
  · rcases ends with ⟨_, all | reports⟩ | ⟨_, failed, _⟩
    · rw [sstables, ← all]
    · exact absurd (reports.later later) clean
    · cases failed

end Start

theorem Recorded.reached {params : Params} {whole usable : Prop} {first last : Machine} (narrow : limit < 2 ^ 64)
    (start : Recorded first log limit whole usable tables) (reached : Relation.ReflTransGen (Unburned params) first last) :
    (∃ tables, Recorded last log limit whole usable tables) ∧ first.world.oracle.Later last.world.oracle := by
  induction reached with
  | refl => exact ⟨⟨tables, start⟩, .refl _⟩
  | tail _ step ih =>
    obtain ⟨⟨tables, recorded⟩, later⟩ := ih
    exact ⟨recorded.step narrow step.1 step.2, later.trans (recorded.later step.1)⟩

omit [Kernel] in
/-- Tables without entries answer no lookup. -/
theorem resolve_filledTables (generations : List (Option Memtable)) (older : List (List (Nat × Nat))) (logicalBlock : Nat) :
    Layers.resolve ((filledTables generations).reverse.map Memtable.pairs ++ older) logicalBlock =
      Layers.resolve ((generations.filterMap id).reverse.map Memtable.pairs ++ older) logicalBlock := by
  rw [filledTables, ← List.filter_reverse]
  induction (generations.filterMap id).reverse with
  | nil => rfl
  | cons table rest ih =>
    by_cases empty : table.root.inorder = []
    · have nothing : table.pairs.lookup logicalBlock = none := by
        rw [Memtable.pairs, empty]
        rfl
      rw [List.filter_cons_of_neg (by simpa using empty), ih, List.map_cons, List.cons_append, Layers.resolve_cons, nothing,
        Option.none_or]
    · rw [List.filter_cons_of_pos (by simpa using empty), List.map_cons, List.map_cons, List.cons_append, List.cons_append,
        Layers.resolve_cons, Layers.resolve_cons, ih]

omit [Kernel] in
theorem residents_unsaved (lsm : Lsm) (older : List (List (Nat × Nat))) (logicalBlock : Nat) :
    Layers.resolve (lsm.unsaved.reverse.map Memtable.pairs ++ older) logicalBlock =
      Layers.resolve (lsm.residents.map Memtable.pairs ++ older) logicalBlock := by
  rw [unsaved, resolve_filledTables, residents, Generations.tables]
  cases lsm.flushing <;> cases lsm.tables.immutable <;> rfl

/-- The tables a session lists are on the device. -/
theorem Recorded.genuine {whole usable : Prop} {machine : Machine} (recorded : Recorded machine log limit whole usable tables) :
    ∀ sst ∈ machine.lsm.sstables, Genuine machine.world sst := by
  intro sst member
  have listed := recorded.listed.subset (List.mem_map_of_mem member)
  obtain ⟨loaded, held, same⟩ := List.mem_map.mp listed
  obtain ⟨memtable, stored⟩ := tiled_genuine recorded.held.tiled loaded (List.mem_reverse.mp held)
  have alike : { loaded with payloadCrc := sst.payloadCrc } = sst := by
    have fields := congrArg (fun index : Sstable => { index with payloadCrc := sst.payloadCrc }) same
    exact fields
  rw [← alike]
  exact ⟨memtable, stored.sound, stored.filled, stored.index, stored.image⟩

theorem Recorded.findable {whole usable : Prop} {machine : Machine} (recorded : Recorded machine log limit whole usable tables) :
    Findable machine := by
  refine ⟨recorded.settled.1.regular, fun sst member => ?_⟩
  obtain ⟨_, stored⟩ := recorded.genuine sst member
  exact stored.searchable

theorem Recorded.entries {whole usable : Prop} {machine : Machine} (recorded : Recorded machine log limit whole usable tables)
    (all : whole) :
    machine.lsm.sstables.map (Sstable.entries machine.world.media) = tables.reverse.map fun entry => entry.1.pairs := by
  have unsummed (sstables : List Sstable) : sstables.map (Sstable.entries machine.world.media) =
      (sstables.map Sstable.unsummed).map (Sstable.entries machine.world.media) := by
    rw [List.map_map]
    rfl
  rw [unsummed, recorded.complete all, ← unsummed, List.map_reverse, tiled_entries recorded.held.tiled, List.map_reverse]

theorem Recorded.mapping {whole usable : Prop} {machine : Machine} (recorded : Recorded machine log limit whole usable tables)
    (all : whole) (logicalBlock : Nat) : Lsm.mapping machine logicalBlock =
      Layers.resolve (machine.lsm.residents.map Memtable.pairs ++ tables.reverse.map fun entry => entry.1.pairs)
        logicalBlock := by
  rw [Lsm.mapping, layers, recorded.entries all]

end Lsm
end ZnsBase
