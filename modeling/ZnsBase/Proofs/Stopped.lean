import ZnsBase.Proofs.HealthyRuns

/-! Targets that stopped taking writes, and their recreation. What a failed GC left
in its reserve decides whether there is an empty zone for the next start. -/

namespace ZnsBase
open Library

namespace Lsm
variable [Kernel] {log : Extent} {limit : Nat} {lossless : Prop} {machine after : Machine}

section Serving
variable (serving : Serving machine log limit lossless)
include serving

theorem Serving.flushed (flushed : Flushed machine after log limit lossless) : Serving after log limit lossless := by
  refine ⟨flushed.coherent, fun running => flushed.ready (serving.ready ?_), ?_⟩
  · rw [← flushed.flushes.writesStopped]
    exact running
  · rw [flushed.flushes.gcIndexFailures]
    exact serving.gcIndexFailures

/-- A table that a detach writes stays in memory, too. -/
theorem Serving.detached {table : Memtable} (resident : table ∈ machine.lsm.residents)
    (inside : (flushGenerations [some table] machine).2.lsm.metaWp ≤ log.start + log.capacity) :
    Serving (flushGenerations [some table] machine).2 log limit lossless := by
  have coherent := serving.coherent
  obtain ⟨nextSstSeq, _, ends, flushes⟩ :=
    flushGenerations_single coherent.flushable (coherent.sound table resident).toRegular
  have appended := flushes.appended
  rw [ends] at inside appended flushes ⊢
  obtain ⟨moved, same⟩ := coherent.advance (Nat.le_add_right _ _) inside appended
  exact serving.flushed ⟨flushes, { moved with
    attached := moved.attached.onEngine rfl rfl rfl
    indexed := moved.indexed.congr rfl rfl rfl rfl rfl }, same⟩

/-- Every step leaves an engine that serves, whatever fails on the data zones. -/
theorem Serving.step {params : Params} (distinct : lossless → machine.world.oracle.Distinct)
    (step : Step params machine after) (inside : after.lsm.metaWp ≤ log.start + log.capacity) : Serving after log limit lossless := by
  cases step with
  | request bio =>
    exact @engineMap_preserves _ params (fun machine => Serving machine log limit lossless) limit
      (fun _ serving => serving.coherent.logicalSectors) (fun _ _ serving same => serving.same same)
      (fun machine sector bytes serving aligned inside =>
        (serving.append params bytes aligned inside).mono fun _ _ appends => appends.1)
      bio machine serving
  | claim => exact serving.flushed (claimFlushVictim_flushed serving.coherent)
  | attempt slot => exact serving.flushed (flushVictim_flushed serving.coherent slot distinct)
  | flags flushInFlight flushPending =>
    have alike : Alike machine { machine with lsm := { machine.lsm with flushInFlight, flushPending } } := ⟨rfl, .refl _⟩
    refine ⟨(serving.coherent.alike alike).1, fun running => ?_, serving.gcIndexFailures⟩
    exact (serving.ready running).of_same rfl (.refl _)
  | detach resident => exact serving.detached resident inside

end Serving

/-- The metadata zone of a device whose failures are told apart from what the log
says: a failed write leaves nothing behind, and no error code is one of the
engine's own for an empty table or the end of the log. -/
structure PlainLog (world : World) : Prop where
  dry : ¬ world.oracle.Spills .metadata
  distinct : world.oracle.Distinct
  complete : ¬ world.oracle.Reports .metadata .einval

/-- An engine of which every table it wrote is in the log and listed. -/
structure Lasting (machine : Machine) (log : Extent) (limit : Nat) : Prop where
  serving : Serving machine log limit True
  recorded : ∃ tables, Recorded machine log limit True False tables
  distinct : machine.world.oracle.Distinct

theorem Lasting.step {params : Params} (lasting : Lasting machine log limit) (step : Unburned params machine after) :
    Lasting after log limit := by
  obtain ⟨serving, ⟨_, recorded⟩, distinct⟩ := lasting
  obtain ⟨tables, recorded'⟩ := recorded.step serving.coherent.narrow step.1 step.2
  exact ⟨serving.step (fun _ => distinct) step.1 recorded'.held.inside, ⟨tables, recorded'⟩,
    distinct.later (recorded.later step.1)⟩

/-- A session from its start, with any failures on the data zones. -/
theorem session_lasting {params : Params} {uuid logicalSectors physicalSectors sectorsPerBlock : Nat} {world after : World}
    {lsm : Lsm} {data : List Extent} {log : Extent} {tables : List (Memtable × Nat)}
    (split : world.geometry.zones = data ++ [log]) (unwritten : world.submitted = []) (narrow : logicalSectors < 2 ^ 64)
    (whole : WholeBlocks world) (plain : PlainLog world) (logOf : LogOf world data log tables)
    (ran : engineInit params uuid logicalSectors physicalSectors sectorsPerBlock world = (.ok lsm, after)) {machine : Machine}
    (reached : Relation.ReflTransGen (Unburned params) ⟨lsm, after⟩ machine) : Lasting machine log logicalSectors := by
  induction reached with
  | refl =>
    obtain ⟨opened, opening, started⟩ := engineInit_ok split ran
    obtain ⟨_, later⟩ := session_recorded split unwritten narrow plain.dry logOf ran .refl
    have orderly : Orderly world := by
      intro write member
      simp [World.dataWrites, unwritten] at member
    have recorded : Recorded ⟨lsm, after⟩ log logicalSectors (¬ world.oracle.Reports .metadata .einval) False tables :=
      logOf.recorded split opening started plain.dry orderly narrow (by rintro ⟨⟩)
    exact ⟨⟨started.coherent split opening narrow whole fun _ => recorded.genuine, fun _ => started.ready split opening,
      (started.settings opening).2.1⟩, ⟨tables, { recorded with complete := fun _ => recorded.complete plain.complete }⟩,
      plain.distinct.later later⟩
  | tail _ step ih => exact ih.step step

/-- A start that succeeded found the data zones as it needs them. -/
theorem Detaches.resumable {params : Params} {uuid : Nat} {usable : Prop} {opened : Machine} {before : List (Memtable × Nat)}
    {written : List Memtable} {oracle : Oracle} {lsm : Lsm} {world : World}
    (recorded : Recorded machine log limit True usable before)
    (detaches : Detaches [machine.lsm.flushing, machine.lsm.tables.immutable, some machine.lsm.tables.active] machine log limit
      usable before written []) (coherent : Coherent machine log limit True)
    (opening : Opened params limit uuid { (flushAllSync machine).2.world with oracle } opened.world
      (machine.lsm.allocator.zones.map Zone.extent) log opened.lsm) (started : Started opened ⟨lsm, world⟩)
    (sstables : lsm.sstables =
      (logTables (log.start + blockSectors) (before ++ written.zipIdx machine.lsm.nextSstSeq)).reverse) : Resumable machine := by
  have split := detaches.split coherent.attached oracle
  have zones : lsm.allocator.zones = ({ (flushAllSync machine).2.world with oracle } : World).zoneTable.dropLast := by
    rw [show lsm.allocator.zones = _ from started.zones, opening.allocator]
  refine ⟨fun zone member => ?_, fun index zone slot found held => ?_, ?_⟩
  · refine opening.valid zone ?_
    change zone ∈ (flushAllSync machine).2.world.zoneTable.dropLast
    have same := detaches.appended
    rw [← List.length_map Zone.extent] at same
    exact (same.dataZones coherent.attached.geometry).symm ▸ member
  · obtain ⟨indexed, _⟩ := started.restored split opening fun sst member => (started.placed opening sst member).1
    have gcZones := (detaches.reindexed recorded coherent oracle opening started sstables).2.1
    rw [gcEntry, ← gcZones] at held
    obtain ⟨_, known, _, below⟩ := indexed.written index slot held
    have reported := detaches.reported coherent.attached oracle found
    change lsm.allocator.zones[index]? = _ at known
    rw [zones] at known
    cases reported.symm.trans known
    exact below
  · obtain ⟨rebuilt, reserve, zone, done, found, vacant, _⟩ := started
    rw [done.allocator, opening.allocator] at found
    change ({ (flushAllSync machine).2.world with oracle } : World).zoneTable.dropLast[reserve]? = some zone at found
    obtain ⟨bound, _⟩ := List.getElem?_eq_some_iff.mp found
    have inside : reserve < machine.lsm.allocator.zones.length := by
      have length := congrArg List.length (World.zoneTable_dropLast split)
      rw [List.length_mapIdx, List.length_map] at length
      exact length ▸ bound
    have known := List.getElem?_eq_getElem inside
    cases found.symm.trans (detaches.reported coherent.attached oracle known)
    exact ⟨reserve, _, known, vacant⟩

/-- A target that was recreated: the start succeeded, every block reads as before,
and writes are taken again. -/
def Recreated (machine : Machine) (started : Except Errno Lsm × World) : Prop :=
  ∃ lsm after, started = (.ok lsm, after) ∧ disk ⟨lsm, after⟩ = disk machine ∧ lsm.writesStopped = false

section Recreation
variable (lasting : Lasting machine log limit) (left : (flushAllSync machine).1 = .ok ()) {oracle : Oracle}
  (healthy : oracle.Healthy) {params : Params} {uuid physicalSectors : Nat}
include lasting left healthy

theorem Lasting.resumable (recreated : Recreated machine (engineInit params uuid limit physicalSectors blockSectors
    { (flushAllSync machine).2.world with oracle })) : Resumable machine := by
  obtain ⟨serving, ⟨before, recorded⟩, distinct⟩ := lasting
  have coherent := serving.coherent
  obtain ⟨written, rest, detaches⟩ := recorded.detaches coherent.narrow distinct mem_residents
  obtain rfl := detaches.finished left
  obtain ⟨lsm, after, ran, _⟩ := recreated
  obtain ⟨opened, opening, started⟩ := engineInit_ok (detaches.split coherent.attached oracle) ran
  have sstables := detaches.relists coherent.attached oracle opening started healthy
  exact detaches.resumable recorded coherent opening started sstables

theorem Lasting.recreated (threshold : params.memtableThreshold ≠ 0) (wholePhysical : physicalSectors % blockSectors = 0)
    (resumable : Resumable machine) : Recreated machine (engineInit params uuid limit physicalSectors blockSectors
      { (flushAllSync machine).2.world with oracle }) := by
  obtain ⟨serving, ⟨before, recorded⟩, distinct⟩ := lasting
  have coherent := serving.coherent
  obtain ⟨written, rest, detaches⟩ := recorded.detaches coherent.narrow distinct mem_residents
  obtain rfl := detaches.finished left
  obtain ⟨opened, lsm, after, ran, opening, started, sstables⟩ :=
    detaches.resumes recorded coherent oracle resumable healthy threshold uuid wholePhysical
  exact ⟨lsm, after, ran, detaches.redisked recorded coherent oracle opening started sstables, (started.settings opening).2.2⟩

end Recreation

omit [Kernel] in
/-- The first zone fills up with two blocks written twice, and the fifth write
starts a GC of them. -/
def overwrites : List Event := [writeBlock 0 1, writeBlock 1 2, writeBlock 0 3, writeBlock 1 4, writeBlock 0 5]

omit [Kernel] in
/-- A GC that fails with the write of its first or of its second block. -/
def failingMove (attempt : Nat) : Params := { plainParams with failGcMoveWriteAt := attempt }

theorem fresh_logOf : LogOf (World.fresh smallGeometry) [⟨0, 32, 32⟩, ⟨32, 32, 32⟩] ⟨64, 64, 64⟩ [] :=
  Or.inl ⟨rfl, rfl⟩

omit [Kernel] in
theorem fresh_plainLog (geometry : Geometry) : PlainLog (World.fresh geometry) := by
  have calm : (World.fresh geometry).oracle.Healthy := Oracle.calm_healthy
  exact ⟨Healthy.dry calm _, calm.distinct, calm.requests _ _⟩

instance (zone : Zone) : Decidable (Vacant zone) := inferInstanceAs (Decidable (_ ∧ _ ∧ _))

omit [Kernel] in
/-- The zones of the engine and those the device reports are the same. -/
theorem spare_iff (attached : Attached machine log) : (∃ zone ∈ machine.world.zoneTable.dropLast, Vacant zone) ↔
    ∃ index zone, machine.lsm.allocator.zones[index]? = some zone ∧
      Vacant (machine.world.report index index zone.extent) := by
  rw [World.zoneTable_dropLast attached.geometry]
  constructor
  · rintro ⟨zone, member, vacant⟩
    obtain ⟨index, found⟩ := List.mem_iff_getElem?.mp member
    obtain ⟨extent, held, rfl⟩ := World.getElem?_reports found
    rw [List.getElem?_map] at held
    obtain ⟨zone, known, rfl⟩ := Option.map_eq_some_iff.mp held
    exact ⟨index, zone, known, vacant⟩
  · rintro ⟨index, zone, known, vacant⟩
    refine ⟨_, List.mem_iff_getElem?.mpr ⟨index, ?_⟩, vacant⟩
    rw [List.getElem?_mapIdx, List.getElem?_map, known]
    rfl

omit [Kernel] in
/-- The data zones of the small device can be taken up again, every zone that
blocks are mapped to being full. -/
def takenUp (machine : Machine) : Bool :=
  decide ((∀ zone ∈ machine.world.zoneTable.dropLast, zone.MetadataValid) ∧
    (∀ zone ∈ machine.lsm.allocator.zones, zone.capacity = 32) ∧ machine.lsm.allocator.zones.length = 2 ∧
    (∀ index ∈ List.range 2, ∀ slot ∈ List.range 4,
      machine.lsm.gcEntry index slot ≠ 0 → machine.world.condition index = .full) ∧
    ∃ zone ∈ machine.world.zoneTable.dropLast, Vacant zone)

omit [Kernel] in
theorem takenUp_spec (attached : Attached machine log) (indexed : Indexed machine.lsm) (passes : takenUp machine = true) :
    Resumable machine := by
  obtain ⟨valid, capacity, length, full, vacant⟩ := of_decide_eq_true passes
  refine ⟨valid, fun index zone slot found held => ?_, (spare_iff attached).mp vacant⟩
  obtain ⟨_, known, fits, _⟩ := indexed.written index slot held
  cases found.symm.trans known
  obtain ⟨bound, _⟩ := List.getElem?_eq_some_iff.mp found
  rw [capacity zone (List.mem_of_getElem? found)] at fits
  simp only [blockSectors] at fits
  exact Or.inr (full index (List.mem_range.mpr (by omega)) slot (List.mem_range.mpr (by omega)) held)

/-- Such a session, if none of its tables went to the log. -/
theorem overwrites_reach {attempt : Nat} {lsm : Lsm} {after : World}
    (ran : engineInit (failingMove attempt) 0 16 16 blockSectors (World.fresh smallGeometry) = (.ok lsm, after))
    (unmoved : (run (failingMove attempt) overwrites ⟨lsm, after⟩).lsm.metaWp = lsm.metaWp) :
    Relation.ReflTransGen (Unburned (failingMove attempt)) ⟨lsm, after⟩
      (run (failingMove attempt) overwrites ⟨lsm, after⟩) := by
  have split : (World.fresh smallGeometry).geometry.zones = [⟨0, 32, 32⟩, ⟨32, 32, 32⟩] ++ [⟨64, 64, 64⟩] := rfl
  obtain ⟨opened, opening, started⟩ := engineInit_ok split ran
  have complete : CompleteLog (World.fresh smallGeometry) [⟨0, 32, 32⟩, ⟨32, 32, 32⟩] ⟨64, 64, 64⟩ := Or.inl rfl
  have logging := complete.logging opening split started ⟨(fresh_plainLog smallGeometry).dry, rfl⟩ (by rintro _ ⟨⟩)
  exact logging.unburned (run_steps overwrites ⟨lsm, after⟩) unmoved.le

theorem overwrites_lasting {attempt : Nat} {lsm : Lsm} {after : World}
    (ran : engineInit (failingMove attempt) 0 16 16 blockSectors (World.fresh smallGeometry) = (.ok lsm, after))
    (unmoved : (run (failingMove attempt) overwrites ⟨lsm, after⟩).lsm.metaWp = lsm.metaWp) :
    Lasting (run (failingMove attempt) overwrites ⟨lsm, after⟩) ⟨64, 64, 64⟩ 16 :=
  session_lasting rfl rfl (by decide) (fresh_wholeBlocks _) (fresh_plainLog _) fresh_logOf ran (overwrites_reach ran unmoved)

end Lsm
end ZnsBase
