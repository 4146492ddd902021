import ZnsBase.Proofs.FlatDisk
import ZnsBase.Proofs.Recovery

/-! Clean restarts. The indexes the engine kept up to date while it ran, and those
a start rebuilds from the log in one pass, are the same function of the mapping. -/

namespace ZnsBase
open Library

namespace Lsm

section Determined
variable {before after : Lsm}

theorem slotAt_extents (extents : after.allocator.zones.map Zone.extent = before.allocator.zones.map Zone.extent)
    (index slot sector : Nat) : after.SlotAt index slot sector ↔ before.SlotAt index slot sector := by
  have zone := congrArg (fun zones : List Extent => zones[index]?) extents
  simp only [List.getElem?_map] at zone
  unfold SlotAt
  generalize after.allocator.zones[index]? = left at zone
  generalize before.allocator.zones[index]? = right at zone
  match left, right, zone with
  | none, none, _ => rfl
  | some left, some right, zone =>
    have same : left.extent = right.extent := Option.some.inj zone
    have start : left.startSector = right.startSector := congrArg Extent.start same
    have capacity : left.capacity = right.capacity := congrArg Extent.capacity same
    simp only [Option.some.injEq, exists_eq_left', start, capacity]

private theorem entry_determined {first second : Lsm} (indexed : Indexed first) (indexed' : Indexed second)
    (apart : second.SlotsApart) (slots : ∀ index slot sector, first.SlotAt index slot sector → second.SlotAt index slot sector)
    (latest : second.latest = first.latest) {index slot : Nat} (held : first.gcEntry index slot ≠ 0) :
    second.gcEntry index slot = first.gcEntry index slot := by
  obtain ⟨logicalBlock, entry⟩ : ∃ logicalBlock, first.gcEntry index slot = encodeLogicalBlock logicalBlock :=
    ⟨_, (Nat.succ_pred held).symm⟩
  obtain ⟨sector, place⟩ := (indexed.written index slot held).slotAt
  have located := (indexed.located logicalBlock sector).mpr ⟨index, slot, place, entry⟩
  rw [← latest] at located
  obtain ⟨index', slot', place', entry'⟩ := (indexed'.located logicalBlock sector).mp located
  obtain ⟨rfl, rfl⟩ := apart _ _ _ _ _ (slots _ _ _ place) place'
  rw [entry, entry']

/-- Two engines on the same zones with the same latest map have the same indexes. -/
theorem Indexed.determined (indexed : Indexed before) (indexed' : Indexed after) (apart : before.SlotsApart)
    (extents : after.allocator.zones.map Zone.extent = before.allocator.zones.map Zone.extent)
    (logicalBlocks : after.logicalBlocks = before.logicalBlocks) (latest : after.latest = before.latest) :
    after.gcZones = before.gcZones ∧ after.validBlocks = before.validBlocks := by
  have slots := slotAt_extents extents
  have apart' : after.SlotsApart := fun index slot index' slot' sector left right =>
    apart index slot index' slot' sector ((slots _ _ _).mp left) ((slots _ _ _).mp right)
  have entries (index slot : Nat) : after.gcEntry index slot = before.gcEntry index slot := by
    by_cases held : before.gcEntry index slot = 0
    · by_contra differs
      have held' : after.gcEntry index slot ≠ 0 := fun none_ => differs (none_.trans held.symm)
      exact differs (entry_determined indexed' indexed apart (fun _ _ _ => (slots _ _ _).mp) latest.symm held').symm
    · exact entry_determined indexed indexed' apart' (fun _ _ _ => (slots _ _ _).mpr) latest held
  have lengths : after.allocator.zones.length = before.allocator.zones.length := by
    simpa using congrArg List.length extents
  constructor
  · refine List.ext_getElem? fun index => ?_
    cases found : before.gcZones[index]? with
    | none =>
      rw [List.getElem?_eq_none_iff] at found ⊢
      rw [indexed'.zones, lengths, ← indexed.zones]
      exact found
    | some gcZone =>
      obtain ⟨bound, _⟩ := List.getElem?_eq_some_iff.mp found
      have bound' : index < after.gcZones.length := by rw [indexed'.zones, lengths, ← indexed.zones]; exact bound
      have found' := List.getElem?_eq_getElem bound'
      generalize after.gcZones[index] = gcZone' at found'
      rw [indexed.zones] at bound
      have zone := List.getElem?_eq_getElem bound
      have zone' := List.getElem?_eq_getElem (lengths ▸ bound)
      have capacity : after.allocator.zones[index].capacity = before.allocator.zones[index].capacity := by
        have same := congrArg (fun zones : List Extent => zones[index]?) extents
        simp only [List.getElem?_map, zone, zone', Option.map_some, Option.some.injEq] at same
        exact congrArg Extent.capacity same
      obtain ⟨size, blocks⟩ := indexed.sizes index _ gcZone zone found
      obtain ⟨size', blocks'⟩ := indexed'.sizes index _ gcZone' zone' found'
      have sameBlocks : gcZone'.logicalBlocks = gcZone.logicalBlocks := by
        refine List.ext_getElem (by rw [blocks, blocks', capacity]) fun slot inside inside' => ?_
        have entry := entries index slot
        rw [gcEntry_eq found, gcEntry_eq found', List.getElem?_eq_getElem inside, List.getElem?_eq_getElem inside'] at entry
        exact entry
      have counted := indexed.counted gcZone (List.mem_of_getElem? found)
      have counted' := indexed'.counted gcZone' (List.mem_of_getElem? found')
      rw [sameBlocks, ← counted] at counted'
      rw [capacity, ← size] at size'
      rw [found']
      obtain ⟨_, _, _⟩ := gcZone
      obtain ⟨_, _, _⟩ := gcZone'
      cases sameBlocks
      cases counted'
      cases size'
      rfl
  · rw [indexed.total, indexed'.total, logicalBlocks, latest]

end Determined

/-- What a later start needs of the data zones to take up this engine's
mappings: zones it accepts, every mapped block below the write pointer of its
zone, and an empty zone for the reserve. -/
structure Resumable (machine : Machine) : Prop where
  valid : ∀ zone ∈ machine.world.zoneTable.dropLast, zone.MetadataValid
  backed : ∀ index zone slot, machine.lsm.allocator.zones[index]? = some zone → machine.lsm.gcEntry index slot ≠ 0 →
    zone.startSector + slot * blockSectors < machine.world.writePointer index ∨ machine.world.condition index = .full
  spare : ∃ index zone, machine.lsm.allocator.zones[index]? = some zone ∧ Vacant (machine.world.report index index zone.extent)

theorem Mirror.valid {zone : Zone} {world : World} {index : Nat}
    (mirror : Mirror zone (world.writePointer index) (world.condition index)) (positive : 0 < zone.length)
    (found : world.geometry.zones[index]? = some zone.extent) : (world.report index index zone.extent).MetadataValid := by
  have bounded := world.geometry.bounded _ (List.mem_of_getElem? found)
  have capacity : zone.capacity ≤ zone.length := Geometry.capacity_le_len found
  simp only [Zone.extent] at bounded
  refine ⟨?_, capacity, ?_, fun writable => ?_⟩
  · dsimp only [World.report, Zone.extent]
    omega
  · dsimp only [World.report, Zone.extent]
    omega
  · obtain ⟨unfilled, writable, online⟩ := writable
    cases mirror with
    | inUse known _ same readonly offline bounds =>
      have placed := bounds ⟨known, fun stuck => writable (readonly.mpr stuck), fun gone => online (offline.mpr gone)⟩
      rw [← same] at placed
      exact placed
    | filled full _ => exact absurd full unfilled

theorem Mirror.vacant {zone : Zone} {world : World} {index : Nat}
    (mirror : Mirror zone (world.writePointer index) (world.condition index)) (vacant : Vacant zone) :
    Vacant (world.report index index zone.extent) := by
  obtain ⟨writable, room, empty⟩ := vacant
  cases mirror with
  | inUse known unfilled same readonly offline bounds =>
    exact ⟨⟨unfilled, fun stuck => writable.2.1 (readonly.mp stuck), fun gone => writable.2.2 (offline.mp gone)⟩, room,
      same.trans empty⟩
  | filled _ known =>
    rcases known with full | ⟨_, ends⟩
    · exact absurd full writable.1
    · rw [empty, Zone.endSector] at ends
      simp only [blockSectors] at room
      omega

/-- An engine that still takes writes leaves such zones. -/
theorem Ready.resumable {machine : Machine} {log : Extent} (ready : Ready machine) (attached : Attached machine log)
    (indexed : Indexed machine.lsm) : Resumable machine := by
  refine ⟨fun zone member => ?_, fun index zone slot found held => ?_, ?_⟩
  · rw [World.zoneTable_dropLast attached.geometry] at member
    obtain ⟨index, found⟩ := List.mem_iff_getElem?.mp member
    obtain ⟨extent, held, rfl⟩ := World.getElem?_reports found
    rw [List.getElem?_map] at held
    obtain ⟨zone, known, rfl⟩ := Option.map_eq_some_iff.mp held
    exact (ready.mirrors index zone known).valid (attached.positive zone (List.mem_of_getElem? known)) (attached.extent known)
  · obtain ⟨_, known, _, written⟩ := indexed.written index slot held
    cases found.symm.trans known
    exact (ready.mirrors index zone found).written written
  · obtain ⟨zone, found, vacant⟩ := ready.reserve
    exact ⟨_, zone, found, (ready.mirrors _ zone found).vacant vacant⟩

theorem tiled_summed [Kernel] {world : World} {tables : List (Memtable × Nat)} {sector : Nat}
    (tiled : Tiled world.media sector tables) : ∀ sst ∈ logTables sector tables, Summed world sst := by
  induction tables generalizing sector with
  | nil => nofun
  | cons entry rest ih =>
    obtain ⟨stored, tiled⟩ := tiled
    exact List.forall_mem_cons.mpr ⟨summed_loaded stored, ih tiled⟩

section Restart
variable [Kernel] {machine : Machine} {log : Extent} {limit : Nat} {usable : Prop} {before : List (Memtable × Nat)}
  {written rest : List Memtable} {generations : List (Option Memtable)}
  (detaches : Detaches generations machine log limit usable before written rest) (attached : Attached machine log) (oracle : Oracle)
include detaches attached

/-- The data zones as the next start knows them. -/
theorem Detaches.reported {index : Nat} {zone : Zone} (found : machine.lsm.allocator.zones[index]? = some zone) :
    ({ (flushGenerations generations machine).2.world with oracle } : World).zoneTable.dropLast[index]? =
      some (machine.world.report index index zone.extent) := by
  obtain ⟨bound, _⟩ := List.getElem?_eq_some_iff.mp found
  obtain ⟨pointer, condition⟩ := detaches.appended.others index (by omega)
  rw [World.zoneTable_dropLast (detaches.split attached oracle), List.getElem?_mapIdx, List.getElem?_map, found]
  simp only [Option.map_some, World.report, pointer, condition]

/-- A start lists every table of the log. -/
theorem Detaches.relists {params : Params} {uuid : Nat} {opened after : Machine}
    (opening : Opened params limit uuid { (flushGenerations generations machine).2.world with oracle } opened.world
      (machine.lsm.allocator.zones.map Zone.extent) log opened.lsm) (started : Started opened after) (healthy : oracle.Healthy) :
    after.lsm.sstables =
      (logTables (log.start + blockSectors) (before ++ written.zipIdx machine.lsm.nextSstSeq)).reverse := by
  obtain ⟨recovered, walked, _, sstables, _⟩ :=
    (detaches.found oracle).recovers (detaches.split attached oracle) opening healthy
  obtain ⟨_, again, state, _⟩ := started.recovered
  cases walked.symm.trans again
  exact (congrArg LogState.sstables state).trans sstables

/-- A start after a detach succeeds if nothing fails any more, the log can be
replayed, and there is a zone for the reserve. -/
theorem Detaches.restarts (valid : ∀ zone ∈ machine.world.zoneTable.dropLast, zone.MetadataValid)
    (spare : ∃ index zone, machine.lsm.allocator.zones[index]? = some zone ∧ Vacant (machine.world.report index index zone.extent))
    (healthy : oracle.Healthy) {params : Params} (threshold : params.memtableThreshold ≠ 0) (uuid : Nat) {physicalSectors : Nat}
    (wholePhysical : physicalSectors % blockSectors = 0)
    (restorable : ∀ opened recovered : Machine,
      Opened params limit uuid { (flushGenerations generations machine).2.world with oracle } opened.world
        (machine.lsm.allocator.zones.map Zone.extent) log opened.lsm → Adopts opened recovered →
      recovered.lsm.sstables =
        (logTables (log.start + blockSectors) (before ++ written.zipIdx machine.lsm.nextSstSeq)).reverse →
      Tiled recovered.world.media (log.start + blockSectors) (before ++ written.zipIdx machine.lsm.nextSstSeq) →
      Restorable recovered.lsm (recovered.lsm.sstables.map (Sstable.entries recovered.world.media)).flatten) :
    ∃ (opened : Machine) (lsm : Lsm) (after : World),
      engineInit params uuid limit physicalSectors blockSectors { (flushGenerations generations machine).2.world with oracle } =
        (.ok lsm, after) ∧
      Opened params limit uuid { (flushGenerations generations machine).2.world with oracle } opened.world
        (machine.lsm.allocator.zones.map Zone.extent) log opened.lsm ∧
      Started opened ⟨lsm, after⟩ ∧
      lsm.sstables = (logTables (log.start + blockSectors) (before ++ written.zipIdx machine.lsm.nextSstSeq)).reverse := by
  obtain ⟨opened, opens, opening⟩ := detaches.reopens attached oracle healthy valid threshold uuid wholePhysical
  have split := detaches.split attached oracle
  obtain ⟨recovered, walked, still, sstables, _⟩ := (detaches.found oracle).recovers split opening healthy
  obtain ⟨tiled, _, _, quiet⟩ := (detaches.found oracle).reopened opening
  rw [← still.media] at tiled
  have sized : ∀ sst ∈ recovered.lsm.sstables, sst.Sized := by
    have placed := recoverFrom_tiles (opened.lsm.metaWp + 1) (opened.lsm.metaStart + blockSectors) opened
    rw [Effect.Ensures, show recoverFrom _ _ opened = (.ok (), recovered) from walked] at placed
    obtain ⟨_, tables, last, tiles⟩ := placed
    intro sst member
    rw [tiles.listed, show opened.lsm.sstables = [] by rw [opening.engine]; rfl, List.append_nil, List.mem_reverse] at member
    exact (tiles.sized sst member).1
  obtain ⟨adopts, rebuilds⟩ := recovered_rebuilds split opening walked sized
  have healthy' : recovered.world.oracle.Healthy := healthy.later (quiet.trans still).later
  have summed : ∀ sst ∈ recovered.lsm.sstables, Summed recovered.world sst := by
    rw [sstables]
    exact fun sst member => tiled_summed tiled sst (List.mem_reverse.mp member)
  unfold Effect.Ensures at rebuilds
  cases ran : gcRebuild recovered with
  | mk result rebuilt =>
  rw [ran] at rebuilds
  rcases rebuilds with ⟨rfl, restored⟩ | ⟨_, _, sick⟩
  · have done : Rebuilt opened rebuilt := ⟨recovered, walked, ran⟩
    obtain ⟨index, zone, found, vacant⟩ := spare
    have reported : rebuilt.lsm.allocator.zones[index]? = some (machine.world.report index index zone.extent) := by
      rw [done.allocator, opening.allocator]
      exact detaches.reported attached oracle found
    have attached' := opening.attached split
    have starts := startup_spec attached'.zoned attached'.block
    unfold Effect.Ensures at starts
    cases started : startup opened with
    | mk result final =>
    rw [started] at starts
    rcases starts with ⟨rfl, starts⟩ | ⟨_, _, sick⟩
    · refine ⟨opened, final.lsm, final.world, ?_, opening, starts, ?_⟩
      · rw [engineInit, Effect.bind_ok opens, startEngine, show startup ⟨opened.lsm, opened.world⟩ = _ from started]
      · exact detaches.relists attached oracle opening starts healthy
    · exact absurd ⟨rebuilt, index, _, done, reported, vacant, healthy'.later restored.reindexes.quiet.later⟩ sick
  · exact absurd ⟨healthy', summed, restorable opened recovered opening adopts sstables tiled⟩ sick

variable {params : Params} {uuid : Nat} {opened : Machine} {lsm : Lsm} {after : World}
  (opening : Opened params limit uuid { (flushGenerations generations machine).2.world with oracle } opened.world
    (machine.lsm.allocator.zones.map Zone.extent) log opened.lsm) (started : Started opened ⟨lsm, after⟩)
  (sstables : lsm.sstables =
    (logTables (log.start + blockSectors) (before ++ written.zipIdx machine.lsm.nextSstSeq)).reverse)
include opening started sstables

omit attached in
/-- What the tables it finds hold. -/
theorem Detaches.entries : lsm.sstables.map (Sstable.entries after.media) =
    (before ++ written.zipIdx machine.lsm.nextSstSeq).reverse.map fun entry => entry.1.pairs := by
  obtain ⟨tiled, _⟩ := (detaches.found oracle).reopened opening
  rw [← started.device.media] at tiled
  rw [sstables, List.map_reverse, tiled_entries tiled, List.map_reverse]

omit attached in
/-- After a restart the log resolves alone. -/
theorem Detaches.recalls (logicalBlock : Nat) : mapping ⟨lsm, after⟩ logicalBlock =
    Layers.resolve ((before ++ written.zipIdx machine.lsm.nextSstSeq).reverse.map fun entry => entry.1.pairs) logicalBlock := by
  have residents : lsm.residents = [Memtable.init] := started.residents opening
  rw [← detaches.entries oracle opening started sstables, mapping, layers, residents]
  rfl

end Restart

section Resume
variable [Kernel] {machine : Machine} {log : Extent} {limit : Nat} {usable : Prop} {before : List (Memtable × Nat)}
  {written : List Memtable} (recorded : Recorded machine log limit True usable before)
  (detaches : Detaches [machine.lsm.flushing, machine.lsm.tables.immutable, some machine.lsm.tables.active] machine log limit
    usable before written [])
include recorded detaches

/-- After a complete detach the log resolves as the engine did. -/
theorem Detaches.resolves (logicalBlock : Nat) :
    Layers.resolve ((before ++ written.zipIdx machine.lsm.nextSstSeq).reverse.map fun entry => entry.1.pairs) logicalBlock =
      mapping machine logicalBlock := by
  have parts : machine.lsm.unsaved = written ++ [] := detaches.parts
  rw [List.append_nil] at parts
  rw [numbered_pairs, recorded.mapping trivial, ← residents_unsaved, parts]

variable (coherent : Coherent machine log limit True)
include coherent

theorem Detaches.within : ∀ entry ∈ before ++ written.zipIdx machine.lsm.nextSstSeq, entry.1.Within (limit / blockSectors) := by
  intro entry member
  rcases List.mem_append.mp member with old | new
  · have listed : entry.1.pairs ∈ machine.lsm.sstables.map (Sstable.entries machine.world.media) := by
      rw [recorded.entries trivial]
      exact List.mem_map_of_mem (List.mem_reverse.mpr old)
    obtain ⟨sst, held, same⟩ := List.mem_map.mp listed
    obtain ⟨⟨memtable, stored, within⟩, _⟩ := coherent.stored trivial sst held
    rw [Memtable.within_iff] at within ⊢
    rw [← same, stored.entries_eq]
    exact within
  · have resident : entry.1 ∈ machine.lsm.residents := by
      have saved : entry.1 ∈ written := by
        rw [← List.zipIdx_map_fst machine.lsm.nextSstSeq written]
        exact List.mem_map_of_mem new
      have parts := detaches.parts
      rw [List.append_nil] at parts
      rw [← parts, filledTables, List.mem_filter, List.mem_filterMap] at saved
      obtain ⟨⟨_, generation, rfl⟩, _⟩ := saved
      exact mem_residents _ generation
    have bounded := coherent.bounded entry.1 resident
    rw [logicalBlocks, coherent.logicalSectors] at bounded
    exact bounded

variable (oracle : Oracle) {params : Params} {uuid : Nat} {opened recovered : Machine}
  (opening : Opened params limit uuid { (flushAllSync machine).2.world with oracle } opened.world
    (machine.lsm.allocator.zones.map Zone.extent) log opened.lsm)

include opening

/-- What the log holds can be replayed on the device the engine left. -/
theorem Detaches.restorable (resumable : Resumable machine) (adopts : Adopts opened recovered)
    (sstables : recovered.lsm.sstables =
      (logTables (log.start + blockSectors) (before ++ written.zipIdx machine.lsm.nextSstSeq)).reverse)
    (tiled : Tiled recovered.world.media (log.start + blockSectors) (before ++ written.zipIdx machine.lsm.nextSstSeq)) :
    Restorable recovered.lsm (recovered.lsm.sstables.map (Sstable.entries recovered.world.media)).flatten := by
  have layers : recovered.lsm.sstables.map (Sstable.entries recovered.world.media) =
      (before ++ written.zipIdx machine.lsm.nextSstSeq).reverse.map fun entry => entry.1.pairs := by
    rw [sstables, List.map_reverse, tiled_entries tiled, List.map_reverse]
  have resolves (logicalBlock : Nat) : (recovered.lsm.sstables.map (Sstable.entries recovered.world.media)).flatten.lookup
      logicalBlock = mapping machine logicalBlock := by
    rw [layers, Layers.lookup_flatten, detaches.resolves recorded]
  have zones : recovered.lsm.allocator.zones = ({ (flushAllSync machine).2.world with oracle } : World).zoneTable.dropLast := by
    rw [adopts.engine]
    dsimp only
    rw [opening.allocator]
  have logical : recovered.lsm.logicalBlocks = limit / blockSectors := by
    obtain ⟨_, _, opens⟩ := opening.opening
    rw [adopts.engine]
    exact congrArg (· / blockSectors) opens.bounds.2.2.1
  refine ⟨fun pair member => ?_, fun logicalBlock sector held => ?_, fun logicalBlock other sector held held' => ?_⟩
  · rw [layers] at member
    obtain ⟨_, listed, inside⟩ := List.mem_flatten.mp member
    obtain ⟨entry, tabled, rfl⟩ := List.mem_map.mp listed
    rw [logical]
    exact Memtable.within_iff.mp (detaches.within recorded coherent entry (List.mem_reverse.mp tabled)) pair inside
  · rw [resolves] at held
    obtain ⟨index, slot, ⟨zone, found, same, fits⟩, entry⟩ := coherent.located trivial held
    have reported : recovered.lsm.allocator.zones[index]? = some (machine.world.report index index zone.extent) := by
      rw [zones]
      exact detaches.reported coherent.attached oracle found
    have backed := resumable.backed index zone slot found (by rw [entry]; exact encodeLogicalBlock_ne_zero _)
    exact ⟨index, slot, ⟨_, reported, same, fits⟩, ⟨_, reported, fits, backed⟩⟩
  · rw [resolves] at held held'
    refine coherent.indexed.block_unique coherent.apart ?_ (show machine.lsm.latest other = some (encodePhysicalSector sector) from ?_)
    · rw [coherent.agrees trivial, held]
      rfl
    · rw [coherent.agrees trivial, held']
      rfl

omit opening in
/-- The engine starts again on the device it left, and finds its tables. -/
theorem Detaches.resumes (resumable : Resumable machine) (healthy : oracle.Healthy) (threshold : params.memtableThreshold ≠ 0)
    (uuid : Nat) {physicalSectors : Nat} (wholePhysical : physicalSectors % blockSectors = 0) :
    ∃ (opened : Machine) (lsm : Lsm) (after : World),
      engineInit params uuid limit physicalSectors blockSectors { (flushAllSync machine).2.world with oracle } = (.ok lsm, after) ∧
      Opened params limit uuid { (flushAllSync machine).2.world with oracle } opened.world
        (machine.lsm.allocator.zones.map Zone.extent) log opened.lsm ∧
      Started opened ⟨lsm, after⟩ ∧
      lsm.sstables = (logTables (log.start + blockSectors) (before ++ written.zipIdx machine.lsm.nextSstSeq)).reverse :=
  detaches.restarts coherent.attached oracle resumable.valid resumable.spare healthy threshold uuid wholePhysical
    fun _ _ opening adopts sstables tiled => detaches.restorable recorded coherent oracle opening resumable adopts sstables tiled

include opening in
/-- The indexes after a restart are those before it. -/
theorem Detaches.reindexed {lsm : Lsm} {after : World} (started : Started opened ⟨lsm, after⟩)
    (sstables : lsm.sstables =
      (logTables (log.start + blockSectors) (before ++ written.zipIdx machine.lsm.nextSstSeq)).reverse) :
    lsm.latest = machine.lsm.latest ∧ lsm.gcZones = machine.lsm.gcZones ∧ lsm.validBlocks = machine.lsm.validBlocks := by
  have split := detaches.split coherent.attached oracle
  obtain ⟨_, _, _, quiet⟩ := (detaches.found oracle).reopened opening
  have attached := started.attached split opening
  obtain ⟨indexed, _, resolved⟩ := started.restored split opening fun sst member => (started.placed opening sst member).1
  have latest : lsm.latest = machine.lsm.latest := by
    funext logicalBlock
    rw [coherent.agrees trivial, ← detaches.resolves recorded, ← detaches.entries oracle opening started sstables]
    exact resolved logicalBlock
  have logical : lsm.logicalBlocks = machine.lsm.logicalBlocks := by
    obtain ⟨_, _, opens⟩ := opening.opening
    rw [logicalBlocks, logicalBlocks, started.sameLog.super, coherent.logicalSectors]
    exact congrArg (· / blockSectors) opens.bounds.2.2.1
  have extents : lsm.allocator.zones.map Zone.extent = machine.lsm.allocator.zones.map Zone.extent := by
    have geometry := attached.geometry
    rw [show after.geometry = _ from started.device.geometry, quiet.geometry, split] at geometry
    exact (List.append_inj_left' geometry rfl).symm
  exact ⟨latest, coherent.indexed.determined indexed coherent.apart extents logical latest⟩

include opening in
/-- And every block reads as before. -/
theorem Detaches.redisked {lsm : Lsm} {after : World} (started : Started opened ⟨lsm, after⟩)
    (sstables : lsm.sstables =
      (logTables (log.start + blockSectors) (before ++ written.zipIdx machine.lsm.nextSstSeq)).reverse) :
    disk ⟨lsm, after⟩ = disk machine := by
  have media : after.media = (flushAllSync machine).2.world.media := by
    obtain ⟨_, _, _, quiet⟩ := (detaches.found oracle).reopened opening
    exact (quiet.trans started.device).media
  refine disk_congr ?_ fun logicalBlock sector held byte inside => ?_
  · funext logicalBlock
    rw [detaches.recalls oracle opening started sstables, detaches.resolves recorded]
  · change after.media (sector * sectorBytes + byte) = _
    rw [media]
    refine detaches.appended.media _ (Or.inl ?_)
    exact (coherent.below trivial held inside).trans_le (Nat.mul_le_mul_right _ coherent.logStart)

end Resume

end Lsm
end ZnsBase
