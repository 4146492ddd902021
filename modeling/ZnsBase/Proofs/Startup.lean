import ZnsBase.Proofs.FlushPath
import ZnsBase.Proofs.Rebuild

/-! From a successful start to a coherent engine: the tables found in the log are
the layers, the rebuilt indexes repeat them, and the zones are as reported. -/

namespace ZnsBase
open Library

namespace Lsm

/-- Tables one behind the other, from a sector up to a cursor. -/
def Adjacent : Nat → List Sstable → Nat → Prop
  | sector, [], cursor => cursor = sector
  | sector, sst :: rest, cursor => sst.startSector = sector ∧ Adjacent (sector + sst.nrBlocks * blockSectors) rest cursor

theorem Adjacent.above {sector cursor : Nat} {tables : List Sstable} (adjacent : Adjacent sector tables cursor) :
    sector ≤ cursor ∧ ∀ sst ∈ tables, sector ≤ sst.startSector := by
  induction tables generalizing sector with
  | nil => exact ⟨adjacent.ge, by rintro _ ⟨⟩⟩
  | cons first rest ih =>
    obtain ⟨start, behind⟩ := adjacent
    obtain ⟨below, placed⟩ := ih behind
    refine ⟨by omega, List.forall_mem_cons.mpr ⟨start.ge, fun sst member => ?_⟩⟩
    have := placed sst member
    omega

/-- What a walk from a sector leaves: more tables in front of the old ones, one
behind the other below the limit. -/
structure Tiles (machine : Machine) (sector : Nat) (after : Machine) (tables : List Sstable) (cursor : Nat) : Prop where
  listed : after.lsm.sstables = tables.reverse ++ machine.lsm.sstables
  adjacent : Adjacent sector tables cursor
  inside : sector ≤ machine.lsm.metaWp → cursor ≤ machine.lsm.metaWp
  sized : ∀ sst ∈ tables, sst.Sized ∧ 0 < sst.nrEntries ∧ sst.startSector + sst.nrBlocks * blockSectors ≤ machine.lsm.metaWp

theorem Tiles.here {machine after : Machine} {sector : Nat} (same : after.lsm = machine.lsm) :
    Tiles machine sector after [] sector :=
  ⟨by rw [same]; rfl, rfl, id, by rintro _ ⟨⟩⟩

theorem Tiles.on {machine loaded after : Machine} {sst : Sstable} {sector cursor : Nat} {tables : List Sstable}
    (same : loaded.lsm = machine.lsm) (sized : sst.Sized) (filled : 0 < sst.nrEntries) (start : sst.startSector = sector)
    (fits : sst.startSector + sst.nrBlocks * blockSectors ≤ machine.lsm.metaWp)
    (rest : Tiles { loaded with lsm := loaded.lsm.adoptSstable sst } (sector + sst.nrBlocks * blockSectors) after tables cursor) :
    Tiles machine sector after (sst :: tables) cursor := by
  have metaWp : (loaded.lsm.adoptSstable sst).metaWp = machine.lsm.metaWp := by rw [same]; rfl
  refine ⟨?_, ⟨start, rest.adjacent⟩, fun _ => (rest.inside ?_).trans metaWp.le, ?_⟩
  · rw [rest.listed, List.reverse_cons, List.append_assoc, ← same]
    rfl
  · rw [← start]
    exact fits.trans metaWp.ge
  · rw [List.forall_mem_cons, ← metaWp]
    exact ⟨⟨sized, filled, fits.trans metaWp.ge⟩, rest.sized⟩

/-- The walk over a log with any bytes in it. -/
theorem recoverFrom_tiles (rounds cursor : Nat) (machine : Machine) :
    Effect.Ensures (recoverFrom rounds cursor) machine (fun result after =>
      (machine.world.oracle.Healthy → result = .ok ()) ∧ ∃ tables last, Tiles machine cursor after tables last) := by
  induction rounds generalizing cursor machine with
  | zero => exact ⟨fun _ => rfl, [], cursor, .here rfl⟩
  | succ rounds ih =>
    rw [recoverFrom]
    apply Effect.Ensures.get_bind
    split
    next below =>
      have loads : Effect.Ensures (onWorld (sstLoad cursor machine.lsm.metaWp)) machine (fun result after =>
          after.lsm = machine.lsm ∧ machine.world.Quiet after.world ∧
          (∀ sst, result = .ok sst → sst.Sized ∧ 0 < sst.nrEntries ∧ sst.startSector = cursor ∧
            sst.startSector + sst.nrBlocks * blockSectors ≤ machine.lsm.metaWp) ∧
          ∀ error, result = .error error → error = .einval ∨ ¬ machine.world.oracle.Healthy) :=
        onWorld_ensures ((sstLoad_spec cursor _ machine.world).mono fun _ _ spec => ⟨rfl, spec⟩)
      refine Effect.Ensures.attempt_bind loads ?_
      rintro result after ⟨same, quiet, found, fails⟩
      split
      next => exact ⟨fun _ => rfl, [], cursor, .here same⟩
      next error other =>
        refine ⟨fun healthy => ?_, [], cursor, .here same⟩
        rcases fails error rfl with rfl | sick
        · exact absurd rfl other
        · exact absurd healthy sick
      next sst =>
        obtain ⟨sized, filled, start, fits⟩ := found sst rfl
        apply Effect.Ensures.modify_bind
        refine (ih _ _).mono ?_
        rintro final ended ⟨ends, tables, last, rest⟩
        exact ⟨fun healthy => ends (healthy.later quiet.later), sst :: tables, last, .on same sized filled start fits rest⟩
    next => exact ⟨fun _ => rfl, [], cursor, .here rfl⟩

theorem chooseThreshold_ne_zero {memtableThreshold : Nat} (some_ : memtableThreshold ≠ 0) (logicalSectors : Nat) :
    chooseThreshold memtableThreshold logicalSectors ≠ 0 := by
  unfold chooseThreshold
  split
  · omega
  · exact some_

/-- Every data zone still open to writes holds whole blocks. -/
def WholeBlocks (world : World) : Prop :=
  ∀ index extent, world.geometry.zones.dropLast[index]? = some extent →
    (world.report index index extent).CanAppend blockSectors → (world.writePointer index - extent.start) % blockSectors = 0

theorem Started.zones {opened after : Machine} (started : Started opened after) :
    after.lsm.allocator.zones = opened.lsm.allocator.zones := by
  obtain ⟨rebuilt, reserve, zone, done, _, _, engine, _⟩ := started
  rw [engine, ← done.allocator]

theorem Started.device {opened after : Machine} (started : Started opened after) :
    opened.world.Quiet after.world := by
  obtain ⟨rebuilt, reserve, zone, done, _, _, _, quiet⟩ := started
  exact done.quiet.trans quiet

theorem Started.sameLog {opened after : Machine} (started : Started opened after) : SameLog opened.lsm after.lsm := by
  obtain ⟨rebuilt, reserve, vacant, done, held, isVacant, engine, quiet⟩ := started
  obtain ⟨recovered, adopts, reindexes⟩ := done.frame
  rw [engine, reindexes.engine, adopts.engine]
  exact ⟨rfl, rfl, rfl, rfl⟩

section Start
variable {params : Params} {logicalSectors uuid : Nat} {world : World} {data : List Extent} {log : Extent}
  {opened after : Machine} (split : world.geometry.zones = data ++ [log])
  (opening : Opened params logicalSectors uuid world opened.world data log opened.lsm) (started : Started opened after)
include split opening started

theorem Started.attached : Attached after log := by
  have attached := opening.attached split
  have zones := started.zones
  obtain ⟨rebuilt, reserve, zone, done, _, _, engine, quiet⟩ := started
  obtain ⟨recovered, adopts, reindexes⟩ := done.frame
  have rebuilds := reindexes.engine
  rw [adopts.engine] at rebuilds
  refine ⟨?_, ?_, ?_, ?_, ?_, ?_, ?_⟩
  · rw [engine, rebuilds]
    exact attached.zoned
  · rw [engine, rebuilds]
    exact attached.block
  · rw [zones, (done.quiet.trans quiet).geometry]
    exact attached.geometry
  · rw [engine, rebuilds]
    exact attached.metaStart
  · rw [engine, rebuilds]
    exact attached.metaEnd
  · rw [zones]
    exact attached.positive
  · rw [zones]
    exact attached.placed

/-- The zones are known as the device has them. -/
theorem Started.ready : Ready after := by
  have zones := started.zones
  have device := started.device
  obtain ⟨rebuilt, reserve, vacant, done, held, isVacant, engine, quiet⟩ := started
  refine ⟨?_, vacant, ?_, isVacant⟩
  · intro index zone found
    rw [zones] at found
    have member := List.mem_of_getElem? found
    rw [opening.allocator] at member
    obtain ⟨_, _, _, bounds⟩ := opening.valid zone member
    obtain ⟨extent, _, rfl⟩ := opening.zone split found
    rw [device.writePointer, device.condition]
    by_cases full : opened.world.condition index = .full
    · exact .filled full (Or.inl full)
    · exact .inUse full full rfl Iff.rfl Iff.rfl bounds
  · rw [engine]
    exact held

omit started in
/-- `zns_lsm_gc_rebuild` as a start calls it. -/
theorem recovered_rebuilds {recovered : Machine} (recovers : recoverSstables opened = (.ok (), recovered))
    (sized : ∀ sst ∈ recovered.lsm.sstables, sst.Sized) :
    Adopts opened recovered ∧ Effect.Ensures gcRebuild recovered (fun result after =>
      (result = .ok () ∧
        Restored recovered after (recovered.lsm.sstables.map (Sstable.entries recovered.world.media)).flatten) ∨
      ∃ error, result = .error error ∧
        ¬ (recovered.world.oracle.Healthy ∧ (∀ sst ∈ recovered.lsm.sstables, Summed recovered.world sst) ∧
          Restorable recovered.lsm (recovered.lsm.sstables.map (Sstable.entries recovered.world.media)).flatten)) := by
  have adopts : Adopts opened recovered := by
    have adopts := recoverFrom_adopts (opened.lsm.metaWp + 1) (opened.lsm.metaStart + blockSectors) opened
    change Adopts opened (recoverSstables opened).2 at adopts
    rw [recovers] at adopts
    exact adopts
  have fresh := adopts.engine
  rw [opening.engine] at fresh
  have attached : Attached recovered log := ((opening.attached split).onDevice adopts.quiet.geometry).onEngine
    (by rw [adopts.engine]) (by rw [adopts.engine]) (by rw [adopts.engine])
  exact ⟨adopts, gcRebuild_spec attached sized
    (gcMapInit_indexed (by rw [fresh]; rfl) (by rw [fresh]; rfl) (by rw [fresh]; rfl)) (by rw [fresh]; rfl)⟩

/-- The indexes are rebuilt from the tables found, whatever wrote those. -/
theorem Started.restored (sized : ∀ sst ∈ after.lsm.sstables, sst.Sized) :
    Indexed after.lsm ∧
      (∀ sst ∈ after.lsm.sstables, ∀ pair ∈ sst.entries after.world.media, pair.1 < after.lsm.logicalBlocks) ∧
      ∀ logicalBlock, after.lsm.latest logicalBlock =
        (Layers.resolve (after.lsm.sstables.map (Sstable.entries after.world.media)) logicalBlock).map encodePhysicalSector := by
  obtain ⟨rebuilt, reserve, vacant, done, held, isVacant, engine, quiet⟩ := started
  obtain ⟨recovered, recovers, rebuilds⟩ := done
  have reindexes := gcRebuild_reindexes recovered
  rw [Effect.Ensures, rebuilds] at reindexes
  have sstables : after.lsm.sstables = recovered.lsm.sstables := by rw [engine, reindexes.engine]
  have media : after.world.media = recovered.world.media := by rw [quiet.media, reindexes.quiet.media]
  rw [sstables] at sized
  obtain ⟨_, rebuilt_spec⟩ := recovered_rebuilds split opening recovers sized
  rw [Effect.Ensures, rebuilds] at rebuilt_spec
  obtain ⟨_, restored⟩ | ⟨_, failed, _⟩ := rebuilt_spec
  · refine ⟨restored.indexed.congr (by rw [engine]) (by rw [engine]) (by rw [engine]) (by rw [engine]) (by rw [engine]), ?_, ?_⟩
    · intro sst member pair held
      rw [sstables] at member
      rw [media] at held
      have inRange := restored.inRange pair (List.mem_flatten_of_mem (List.mem_map_of_mem member) held)
      rw [engine, reindexes.engine]
      exact inRange
    · intro logicalBlock
      rw [sstables, media, ← Layers.lookup_flatten, ← restored.latest, engine]
  · cases failed

omit split in
theorem Started.placed : ∀ sst ∈ after.lsm.sstables, sst.Sized ∧
    log.start ≤ sst.startSector ∧ sst.startSector + sst.nrBlocks * blockSectors ≤ after.lsm.metaWp := by
  obtain ⟨_, _, opens⟩ := opening.opening
  obtain ⟨metaStart, _, _, _⟩ := opens.bounds
  dsimp only at metaStart
  have empty : opened.lsm.sstables = [] := by rw [opening.engine]; rfl
  obtain ⟨rebuilt, reserve, vacant, done, held, isVacant, engine, quiet⟩ := started
  obtain ⟨recovered, recovers, rebuilds⟩ := done
  have placed := recoverFrom_tiles (opened.lsm.metaWp + 1) (opened.lsm.metaStart + blockSectors) opened
  have adopts := recoverFrom_adopts (opened.lsm.metaWp + 1) (opened.lsm.metaStart + blockSectors) opened
  change Adopts opened (recoverSstables opened).2 at adopts
  have reindexes := gcRebuild_reindexes recovered
  rw [Effect.Ensures, rebuilds] at reindexes
  rw [Effect.Ensures, show recoverFrom _ _ opened = (.ok (), recovered) from recovers] at placed
  rw [recovers] at adopts
  obtain ⟨_, tables, last, tiles⟩ := placed
  intro sst member
  rw [engine, reindexes.engine] at member ⊢
  dsimp only at member ⊢
  rw [adopts.engine]
  rw [tiles.listed, empty, List.append_nil, List.mem_reverse] at member
  obtain ⟨sized, _, high⟩ := tiles.sized sst member
  have low := tiles.adjacent.above.2 sst member
  exact ⟨sized, by omega, high⟩

omit split in
theorem Started.residents : after.lsm.residents = [Memtable.init] := by
  have fresh := opening.residents
  obtain ⟨rebuilt, reserve, vacant, done, held, isVacant, engine, quiet⟩ := started
  obtain ⟨recovered, adopts, reindexes⟩ := done.frame
  rw [engine, reindexes.engine, adopts.engine]
  exact fresh

omit split in
theorem Started.narrow [Kernel] : after.lsm.Narrow := by
  refine ⟨?_, ?_⟩
  · rw [started.residents opening]
    intro table member
    rw [List.mem_singleton.mp member]
    exact Memtable.init_sound
  · obtain ⟨rebuilt, reserve, vacant, done, held, isVacant, engine, quiet⟩ := started
    obtain ⟨recovered, adopts, reindexes⟩ := done.frame
    have maps : recovered.lsm.NarrowMaps := by
      rw [adopts.engine]
      exact opening.narrowMaps
    rw [engine]
    exact reindexes.maps maps

omit split in
theorem Started.settings : after.lsm.memtableThreshold = chooseThreshold params.memtableThreshold logicalSectors ∧
    after.lsm.gcIndexFailures = 0 ∧ after.lsm.writesStopped = false := by
  obtain ⟨rebuilt, reserve, vacant, done, held, isVacant, engine, quiet⟩ := started
  obtain ⟨recovered, adopts, reindexes⟩ := done.frame
  rw [engine, reindexes.engine, adopts.engine]
  dsimp only
  rw [opening.engine]
  exact ⟨rfl, rfl, rfl⟩

omit split in
/-- No flush is under way at the start. -/
theorem Started.idle : after.lsm.flushInFlight = false ∧ after.lsm.flushPending = false ∧
    after.lsm.tables = ⟨Memtable.init, none⟩ ∧ after.lsm.flushing = none := by
  obtain ⟨rebuilt, reserve, vacant, done, held, isVacant, engine, quiet⟩ := started
  obtain ⟨recovered, adopts, reindexes⟩ := done.frame
  rw [engine, reindexes.engine, adopts.engine]
  dsimp only
  rw [opening.engine]
  exact ⟨rfl, rfl, rfl, rfl⟩

/-- The engine takes up its work; what it found is trusted as far as an engine
wrote it. -/
theorem Started.coherent [Kernel] (narrow : logicalSectors < 2 ^ 64) (whole : WholeBlocks world)
    (stored : lossless → ∀ sst ∈ after.lsm.sstables, ∃ memtable, Stored after.world.media sst memtable) :
    Coherent after log logicalSectors lossless := by
  have residents := started.residents opening
  have metaWp := started.sameLog.metaWp
  have placed := started.placed opening
  obtain ⟨indexed, inRange, latest⟩ := started.restored split opening fun sst member => (placed sst member).1
  obtain ⟨middle, quiet, opens⟩ := opening.opening
  obtain ⟨_, _, logical, ends⟩ := opens.bounds
  refine ⟨started.attached split opening, ?_, ?_, narrow, opening.whole, ?_, ?_, ?_, ?_, indexed, ?_, ?_, ?_⟩
  · rw [started.sameLog.super]
    exact logical
  · rw [(started.settings opening).1]
    exact chooseThreshold_ne_zero opening.threshold logicalSectors
  · rw [metaWp]
    exact opening.logStart
  · rw [metaWp]
    exact opening.logEnd
  · rw [residents]
    intro table member
    rw [List.mem_singleton.mp member]
    exact Memtable.init_sound
  · intro trusted sst member
    obtain ⟨memtable, held⟩ := stored trusted sst member
    refine ⟨⟨memtable, held, fun entry inside => ?_⟩, (placed sst member).2⟩
    have pair := inRange sst member (entry.logicalBlock, entry.physicalSector)
    rw [held.entries_eq, logicalBlocks, started.sameLog.super, logical] at pair
    exact pair (List.mem_map_of_mem inside)
  · rw [residents]
    intro table member entry held
    rw [List.mem_singleton.mp member] at held
    cases held
  · intro _ logicalBlock
    rw [latest, mapping, layers, residents]
    rfl
  · intro zone member room
    obtain ⟨index, found⟩ := List.mem_iff_getElem?.mp member
    rw [started.zones] at found
    obtain ⟨extent, held, rfl⟩ := opening.zone split found
    obtain ⟨bound, _⟩ := List.getElem?_eq_some_iff.mp held
    obtain ⟨pointer, condition⟩ := (opening.appended split).1.others index (by omega)
    simp only [World.report, pointer, condition] at room ⊢
    refine whole index extent ?_ room
    rw [split, List.dropLast_concat]
    exact held

end Start

end Lsm
end ZnsBase
