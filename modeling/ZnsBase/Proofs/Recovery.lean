import ZnsBase.Proofs.ShutdownLog

/-! The start after a detach: the engine opens the log where the detach left it,
and finds the tables that were written completely. -/

namespace ZnsBase
open Library

/-- Appending to the log changes no report of a data zone. -/
theorem World.Appended.dataZones {before after : World} {data : List Extent} {log : Extent} {sector : Nat}
    (appended : before.Appended after data.length log sector) (split : before.geometry.zones = data ++ [log]) :
    after.zoneTable.dropLast = before.zoneTable.dropLast := by
  rw [World.zoneTable_dropLast split, World.zoneTable_dropLast (by rw [appended.geometry]; exact split)]
  refine List.ext_getElem? fun index => ?_
  rw [List.getElem?_mapIdx, List.getElem?_mapIdx]
  rcases Nat.lt_or_ge index data.length with inside | outside
  · obtain ⟨pointer, condition⟩ := appended.others index (by omega)
    simp only [World.report, pointer, condition]
  · rw [List.getElem?_eq_none outside]
    rfl

namespace Lsm
variable {log : Extent} {limit : Nat} {usable : Prop}

/-- A formatted log can be opened, if the data zones are as the allocator wants
them and nothing fails. -/
theorem Formatted.opens {world : World} {data : List Extent} {sector : Nat}
    (formatted : Formatted world data.length log limit usable) (split : world.geometry.zones = data ++ [log])
    (ends : world.LogEnd data.length log sector) (behind : log.start + blockSectors ≤ sector)
    (inside : sector ≤ log.start + log.capacity) (valid : ∀ zone ∈ world.zoneTable.dropLast, zone.MetadataValid)
    (healthy : world.oracle.Healthy) {params : Params} (threshold : params.memtableThreshold ≠ 0) (uuid : Nat)
    {physicalSectors : Nat} (wholePhysical : physicalSectors % blockSectors = 0) :
    ∃ opened : Machine, openEngine params uuid limit physicalSectors blockSectors world = (.ok opened.lsm, opened.world) ∧
      Opened params limit uuid world opened.world data log opened.lsm := by
  have used : ¬ world.LogEnd data.length log log.start := by
    intro other
    have same : log.start = sector := other.trans ends.symm
    simp only [blockSectors] at behind
    omega
  obtain ⟨stored, superblock⟩ := formatted.superblock
  have readable : Readable world data log limit := by
    refine ⟨List.length_pos_iff.mp formatted.some_, by omega, formatted.low, ?_, fun other => absurd other used,
      fun _ => ⟨stored, superblock⟩⟩
    by_cases full : world.condition data.length = .full
    · exact Or.inl full
    · rw [World.LogEnd, if_neg full] at ends
      exact Or.inr (ends ▸ inside)
  have few : world.geometry.zones.length < 2 ^ 31 := by
    rw [split, List.length_append, List.length_singleton]
    exact formatted.few
  have spec := openEngine_spec split params uuid limit physicalSectors blockSectors
  unfold Effect.Ensures at spec
  cases ran : openEngine params uuid limit physicalSectors blockSectors world with
  | mk result after =>
    rw [ran] at spec
    rcases spec with ⟨lsm, same, opening⟩ | ⟨_, _, sick⟩
    · cases same
      exact ⟨⟨lsm, after⟩, rfl, opening⟩
    · exact absurd ⟨rfl, healthy, threshold, formatted.whole, wholePhysical, few, readable, valid⟩ sick

variable [Kernel] {machine : Machine} {whole : Prop} {before : List (Memtable × Nat)} {written rest : List Memtable}

/-- A detach that is to write these generations: it wrote `written` and then
failed on `rest`. -/
structure Detaches (generations : List (Option Memtable)) (machine : Machine) (log : Extent) (limit : Nat) (usable : Prop)
    (before : List (Memtable × Nat)) (written rest : List Memtable) : Prop where
  parts : filledTables generations = written ++ rest
  finished : (flushGenerations generations machine).1 = .ok () → rest = []
  held : (flushGenerations generations machine).1 = .ok () ∨ machine.world.oracle.Healthy →
    LogHeld (flushGenerations generations machine).2 log (before ++ written.zipIdx machine.lsm.nextSstSeq)
  saved : Saved (flushGenerations generations machine).2.world machine.lsm.allocator.zones.length log
    (before ++ written.zipIdx machine.lsm.nextSstSeq) rest
  appended : machine.world.Appended (flushGenerations generations machine).2.world machine.lsm.allocator.zones.length log
    machine.lsm.metaWp
  dataWrites : (flushGenerations generations machine).2.world.dataWrites = machine.world.dataWrites
  formatted : Formatted (flushGenerations generations machine).2.world machine.lsm.allocator.zones.length log limit usable

theorem Recorded.detaches (recorded : Recorded machine log limit whole usable before) (narrow : limit < 2 ^ 64)
    (distinct : machine.world.oracle.Distinct) {generations : List (Option Memtable)}
    (resident : ∀ table, some table ∈ generations → table ∈ machine.lsm.residents) :
    ∃ written rest, Detaches generations machine log limit usable before written rest := by
  have disciplined := recorded.settled.1
  have sound (table : Memtable) (member : some table ∈ generations) : table.Sound :=
    (disciplined.narrow narrow).1 table (resident table member)
  obtain ⟨written, rest, parts, saved, finished, held⟩ :=
    flushGenerations_saved generations disciplined.flushable recorded.held sound recorded.dry distinct
  obtain ⟨appended, dataWrites, formatted⟩ := flushGenerations_appended generations disciplined.flushable
    (fun table member => (sound table member).toRegular) recorded.dry recorded.behind recorded.formatted
  exact ⟨written, rest, parts, finished, held, saved, appended, dataWrites, formatted⟩

omit [Kernel] in
theorem mem_residents {lsm : Lsm} (table : Memtable)
    (member : some table ∈ [lsm.flushing, lsm.tables.immutable, some lsm.tables.active]) : table ∈ lsm.residents := by
  simp only [residents, Generations.tables, List.mem_append]
  simp at member
  rcases member with slot | slot | slot <;> simp [slot]

section Again
variable {generations : List (Option Memtable)} (detaches : Detaches generations machine log limit usable before written rest)
  (attached : Attached machine log) (oracle : Oracle)
include detaches attached

theorem Detaches.split : ({ (flushGenerations generations machine).2.world with oracle } : World).geometry.zones =
    machine.lsm.allocator.zones.map Zone.extent ++ [log] := by
  rw [← attached.geometry, ← detaches.appended.geometry]

omit attached in
theorem Detaches.found : Saved { (flushGenerations generations machine).2.world with oracle }
    (machine.lsm.allocator.zones.map Zone.extent).length log (before ++ written.zipIdx machine.lsm.nextSstSeq) rest := by
  rw [List.length_map]
  exact ⟨detaches.saved.tiled, detaches.saved.numbered, detaches.saved.stops⟩

/-- The engine opens the device a detach left. -/
theorem Detaches.reopens (healthy : oracle.Healthy) (valid : ∀ zone ∈ machine.world.zoneTable.dropLast, zone.MetadataValid)
    {params : Params} (threshold : params.memtableThreshold ≠ 0) (uuid : Nat) {physicalSectors : Nat}
    (wholePhysical : physicalSectors % blockSectors = 0) :
    ∃ opened : Machine, openEngine params uuid limit physicalSectors blockSectors
        { (flushGenerations generations machine).2.world with oracle } = (.ok opened.lsm, opened.world) ∧
      Opened params limit uuid { (flushGenerations generations machine).2.world with oracle } opened.world
        (machine.lsm.allocator.zones.map Zone.extent) log opened.lsm := by
  obtain ⟨sector, ends, tail, inside, _⟩ := detaches.saved.stops
  have beyond : log.start + blockSectors ≤ sector := by
    have first := le_logEnd (log.start + blockSectors) (before ++ written.zipIdx machine.lsm.nextSstSeq)
    cases tail with
    | clean same => omega
    | torn _ _ _ _ _ _ begun _ => omega
  have formatted : Formatted { (flushGenerations generations machine).2.world with oracle }
      (machine.lsm.allocator.zones.map Zone.extent).length log limit usable := by
    rw [List.length_map]
    obtain ⟨some_, few, whole, low, writable, superblock⟩ := detaches.formatted
    exact ⟨some_, few, whole, low, writable, superblock⟩
  have appended : machine.world.Appended { (flushGenerations generations machine).2.world with oracle }
      (machine.lsm.allocator.zones.map Zone.extent).length log machine.lsm.metaWp := by
    rw [List.length_map]
    obtain ⟨geometry, fullAtLength, others, media⟩ := detaches.appended
    exact ⟨geometry, fullAtLength, others, media⟩
  refine formatted.opens (detaches.split attached oracle) ?_ beyond inside ?_ healthy threshold uuid wholePhysical
  · rw [List.length_map]
    exact ends
  · rw [appended.dataZones attached.geometry]
    exact valid

end Again

omit [Kernel] in
/-- What the tables of a log hold once more were appended, newest first. -/
theorem numbered_pairs (before : List (Memtable × Nat)) (written : List Memtable) (seq : Nat) :
    (before ++ written.zipIdx seq).reverse.map (fun entry => entry.1.pairs) =
      written.reverse.map Memtable.pairs ++ before.reverse.map fun entry => entry.1.pairs := by
  have numbers : (written.zipIdx seq).map (fun entry => entry.1.pairs) = written.map Memtable.pairs := by
    conv_rhs => rw [← List.zipIdx_map_fst seq written, List.map_map]
    rfl
  rw [List.reverse_append, List.map_append, List.map_reverse, numbers, ← List.map_reverse]

/-- A session that burns no blocks, from its start. -/
theorem session_recorded {params : Params} {uuid logicalSectors physicalSectors sectorsPerBlock : Nat} {world after : World}
    {lsm : Lsm} {data : List Extent} {log : Extent} {tables : List (Memtable × Nat)}
    (split : world.geometry.zones = data ++ [log]) (unwritten : world.submitted = []) (narrow : logicalSectors < 2 ^ 64)
    (dry : ¬ world.oracle.Spills .metadata) (logOf : LogOf world data log tables)
    (ran : engineInit params uuid logicalSectors physicalSectors sectorsPerBlock world = (.ok lsm, after)) {machine : Machine}
    (reached : Relation.ReflTransGen (Unburned params) ⟨lsm, after⟩ machine) :
    (∃ before, Recorded machine log logicalSectors (¬ world.oracle.Reports .metadata .einval) False before) ∧
      world.oracle.Later machine.world.oracle := by
  obtain ⟨opened, opening, started⟩ := engineInit_ok split ran
  have orderly : Orderly world := by
    intro write member
    simp [World.dataWrites, unwritten] at member
  obtain ⟨middle, quiet, logged⟩ := opening.opening
  have start : Recorded ⟨lsm, after⟩ log logicalSectors (¬ world.oracle.Reports .metadata .einval) False tables :=
    logOf.recorded split opening started dry orderly narrow (by rintro ⟨⟩)
  obtain ⟨recorded, later⟩ := start.reached narrow reached
  exact ⟨recorded, ((logged.later.trans quiet.later).trans started.device.later).trans later⟩

/-- A run that left the log where it was burned nothing. -/
theorem Logging.unburned {params : Params} {origin : List Submission} {first last : Machine}
    (logging : Logging first log limit origin) (reached : Relation.ReflTransGen (Step params) first last)
    (unmoved : last.lsm.metaWp ≤ first.lsm.metaWp) : Relation.ReflTransGen (Unburned params) first last := by
  have forward {next : Machine} (reached : Relation.ReflTransGen (Step params) first next) :
      first.lsm.metaWp ≤ next.lsm.metaWp := by
    induction reached with
    | refl => exact Nat.le_refl _
    | tail before step ih => exact ih.trans ((logging.steps before).step step).2
  induction reached with
  | refl => exact .refl
  | @tail middle final before step ih =>
    have moved := ((logging.steps before).step step).2
    have reached := forward before
    exact (ih (moved.trans unmoved)).tail ⟨step, Or.inl (by omega)⟩

/-- What a start makes of the log after a detach. The log held `before`, of the
tables in memory the detach wrote `written` and then failed on `rest`. -/
structure Recovery (whole : Prop) (log : Extent) (machine recovered : Machine) (before : List (Memtable × Nat))
    (written rest : List Memtable) : Prop where
  listed : (machine.lsm.sstables.map Sstable.unsummed).Sublist
    ((logTables (log.start + blockSectors) before).reverse.map Sstable.unsummed)
  complete : whole → machine.lsm.sstables.map Sstable.unsummed =
    (logTables (log.start + blockSectors) before).reverse.map Sstable.unsummed
  parts : machine.lsm.unsaved = written ++ rest
  finished : (flushAllSync machine).1 = .ok () → rest = []
  saved : Saved (flushAllSync machine).2.world machine.lsm.allocator.zones.length log
    (before ++ written.zipIdx machine.lsm.nextSstSeq) rest
  sstables : recovered.lsm.sstables =
    (logTables (log.start + blockSectors) (before ++ written.zipIdx machine.lsm.nextSstSeq)).reverse
  numbered : ∀ sst ∈ recovered.lsm.sstables, sst.seq < recovered.lsm.nextSstSeq
  lookups : ∀ logicalBlock, lookup recovered logicalBlock = answer (Layers.resolve
    (written.reverse.map Memtable.pairs ++ before.reverse.map fun entry => entry.1.pairs) logicalBlock)
  unchanged : whole → rest = [] → ∀ logicalBlock, lookup recovered logicalBlock = lookup machine logicalBlock

omit [Kernel] in
/-- A request that does what it should. -/
def Fate.isOk : Fate → Bool
  | .ok => true
  | .fail _ _ => false

omit [Kernel] in
/-- A device whose log writes fail: twice for good reasons, then with the code of
an empty table. -/
def failingDetach : World :=
  { World.fresh smallGeometry with
    oracle := { Oracle.calm with metadata := Stream'.cons .ok (Stream'.cons (.fail .eio none) (Stream'.cons (.fail .eio none)
      (Stream'.cons (.fail .enodata none) (Stream'.const .ok)))) } }

omit [Kernel] in
theorem failingDetach_dry : ¬ failingDetach.oracle.Spills .metadata := by
  rintro ⟨n, error, spill, failed⟩
  rcases n with _ | _ | _ | _ | n <;> cases failed

omit [Kernel] in
/-- Past its four bad outcomes the device reports no error. -/
theorem failingDetach_distinct {oracle : Oracle} (later : failingDetach.oracle.Later oracle)
    (calm : ∀ n ∈ List.range 4, Fate.isOk (oracle.metadata.get n) = true) : oracle.Distinct := by
  obtain ⟨_, _, drawn, _, _, same⟩ := later
  rintro ⟨n, spill, failed⟩
  change oracle.metadata.get n = _ at failed
  rw [same, Stream'.get_drop] at failed
  rcases Nat.lt_or_ge drawn 4 with early | late
  · have bad := calm (3 - drawn) (List.mem_range.mpr (by omega))
    rw [same, Stream'.get_drop, Nat.add_sub_cancel' (by omega)] at bad
    cases bad
  · obtain ⟨more, rfl⟩ := Nat.exists_eq_add_of_le late
    rw [show 4 + more + n = more + n + 4 by omega] at failed
    cases failed

/-- What the device refuses at the detach, what it takes after it, and what is
in memory by then. -/
structure Skips (lsm : Lsm) (machine : Machine) (older : Memtable) : Prop where
  unmoved : lsm.metaWp = 72 ∧ machine.lsm.metaWp = 72
  slot : machine.lsm.flushing = some older
  immutable : machine.lsm.tables.immutable = none
  active : machine.lsm.tables.active.pairs = [(0, 16)]
  refused : (attemptTable older machine).1 = ⟨.error .enodata, 0⟩
  finished : (flushAllSync machine).1 = .ok ()
  lookup : lookup machine 1 = .ok 8
  calm : ∀ n ∈ List.range 4, Fate.isOk ((flushGenerations [some older] machine).2.world.oracle.metadata.get n) = true
  valid : ∀ zone ∈ (flushGenerations [some older] machine).2.world.zoneTable.dropLast, zone.MetadataValid

omit [Kernel] in
private theorem failingDetach_skips : ∃ lsm after older,
    engineInit { plainParams with memtableThreshold := 2 } 0 16 16 blockSectors failingDetach = (.ok lsm, after) ∧
      Skips lsm (@run Generations.plainKernel { plainParams with memtableThreshold := 2 }
        [writeBlock 0 1, writeBlock 1 2, .flushWork, writeBlock 0 3, .flushWork] ⟨lsm, after⟩) older := by
  have ends : startsAnd { plainParams with memtableThreshold := 2 } failingDetach (fun lsm after =>
        let machine := @run Generations.plainKernel { plainParams with memtableThreshold := 2 }
          [writeBlock 0 1, writeBlock 1 2, .flushWork, writeBlock 0 3, .flushWork] ⟨lsm, after⟩
        machine.lsm.flushing.any fun older => decide ((lsm.metaWp = 72 ∧ machine.lsm.metaWp = 72) ∧
          machine.lsm.tables.immutable = none ∧
          machine.lsm.tables.active.pairs = [(0, 16)] ∧ (attemptTable older machine).1 = ⟨.error .enodata, 0⟩ ∧
          (flushAllSync machine).1 = .ok () ∧ lookup machine 1 = .ok 8 ∧
          (∀ n ∈ List.range 4, Fate.isOk ((flushGenerations [some older] machine).2.world.oracle.metadata.get n) = true) ∧
          ∀ zone ∈ (flushGenerations [some older] machine).2.world.zoneTable.dropLast, zone.MetadataValid)) = true := by
    decide +kernel
  obtain ⟨lsm, after, ran, ends⟩ := startsAnd_spec ends
  obtain ⟨older, slot, facts⟩ := (Option.any_eq_true _ _).mp ends
  obtain ⟨unmoved, immutable, active, refused, finished, lookup, calm, valid⟩ := of_decide_eq_true facts
  exact ⟨lsm, after, older, ran, unmoved, slot, immutable, active, refused, finished, lookup, calm, valid⟩

end Lsm
end ZnsBase
