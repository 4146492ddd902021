import ZnsBase.LsmInit
import ZnsBase.Proofs.Discipline
import ZnsBase.Proofs.SuperBlock

/-! Opening the device. Whether the metadata zone is formatted or found again,
the engine ends up with a truthful picture of the zones, and its log ends where
the zone was written to. -/

namespace ZnsBase
open Library

namespace World

/-- What `zns_zone_table_init` reports. -/
def zoneTable (world : World) : List Zone := world.geometry.zones.mapIdx fun index extent => world.report index index extent

theorem Quiet.zoneTable {before after : World} (quiet : before.Quiet after) : after.zoneTable = before.zoneTable := by
  simp only [World.zoneTable, World.report, quiet.geometry, quiet.writePointer, quiet.condition]

theorem exists_split {world : World} (some_ : world.geometry.zones ≠ []) :
    ∃ data log, world.geometry.zones = data ++ [log] :=
  ⟨_, _, (List.dropLast_append_getLast some_).symm⟩

theorem getElem?_reports {world : World} {data : List Extent} {index : Nat} {zone : Zone}
    (found : (data.mapIdx fun index extent => world.report index index extent)[index]? = some zone) :
    ∃ extent, data[index]? = some extent ∧ zone = world.report index index extent := by
  rw [List.getElem?_mapIdx, Option.map_eq_some_iff] at found
  obtain ⟨extent, held, same⟩ := found
  exact ⟨extent, held, same.symm⟩

section Split
variable {world : World} {data : List Extent} {log : Extent} (split : world.geometry.zones = data ++ [log])
include split

theorem zoneTable_split : world.zoneTable =
    (data.mapIdx fun index extent => world.report index index extent) ++ [world.report data.length data.length log] := by
  rw [zoneTable, split, List.mapIdx_append]
  simp

theorem zoneTable_dropLast :
    world.zoneTable.dropLast = data.mapIdx fun index extent => world.report index index extent := by
  rw [zoneTable_split split, List.dropLast_concat]

theorem zoneTable_getLast? : world.zoneTable.getLast? = some (world.report data.length data.length log) := by
  rw [zoneTable_split split, List.getLast?_concat]

theorem zoneTable_length : world.zoneTable.length = data.length + 1 := by
  rw [zoneTable_split split, List.length_append, List.length_mapIdx]
  rfl

theorem logZone : world.geometry.zones[data.length]? = some log := by
  rw [split, List.getElem?_append_right (Nat.le_refl _)]
  simp

theorem dataZone {index : Nat} {extent : Extent} (found : data[index]? = some extent) :
    world.geometry.zones[index]? = some extent := by
  obtain ⟨bound, _⟩ := List.getElem?_eq_some_iff.mp found
  rw [split, List.getElem?_append_left bound, found]

end Split
end World

theorem zoneTableInit_spec (world : World) :
    Effect.Ensures zoneTableInit world (fun result after => world.Quiet after ∧
      ((result = .ok world.zoneTable ∧ world.geometry.zones ≠ [] ∧ world.geometry.zones.length < 2 ^ 31) ∨
        ∃ error, result = .error error ∧
          ¬ (world.oracle.Healthy ∧ world.geometry.zones ≠ [] ∧ world.geometry.zones.length < 2 ^ 31))) := by
  apply Effect.Ensures.get_bind
  split
  next none_ => exact ⟨.refl _, Or.inr ⟨.enodev, rfl, fun ready => ready.2.1 none_⟩⟩
  next some_ =>
    refine Effect.Ensures.bind (allocate_quiet world) ?_ ?_
    · rintro _ allocated ⟨quiet, _⟩
      refine Effect.Ensures.bind (draw_quiet .data allocated) ?_ ?_
      · rintro fate after ⟨quiet', _, same, drew⟩
        cases same
        cases fate with
        | fail error spill =>
          refine ⟨quiet.trans quiet', Or.inr ⟨error, rfl, fun ready => ?_⟩⟩
          exact (ready.1.later quiet.later).requests .data error ⟨0, spill, drew⟩
        | ok =>
          dsimp only
          split
          next many => exact ⟨quiet.trans quiet', Or.inr ⟨.eio, rfl, fun ready => by omega⟩⟩
          next few => exact ⟨quiet.trans quiet', Or.inl ⟨rfl, some_, by omega⟩⟩
      · rintro error after ⟨_, _, same, _⟩
        cases same
    · rintro error after ⟨quiet, same | ⟨_, sick⟩⟩
      · cases same
      · exact ⟨quiet, Or.inr ⟨error, rfl, fun ready => sick ready.1⟩⟩

namespace Lsm

/-- The superblock of a format of this device. -/
def deviceSuper (data : List Extent) (log : Extent) (logicalSectors uuid : Nat) : Super where
  uuid := uuid
  logicalSectors := logicalSectors
  zoneSizeSectors := log.len
  nrZones := data.length + 1
  metaZoneId := data.length
  sectorsPerBlock := blockSectors

/-- The metadata zone can be opened: it has room, its pointer is in place, and
it is fresh or starts with a superblock of this device. -/
structure Readable (world : World) (data : List Extent) (log : Extent) (logicalSectors : Nat) : Prop where
  dataZones : data ≠ []
  room : blockSectors ≤ log.capacity
  low : log.start ≤ world.writePointer data.length
  high : world.condition data.length = .full ∨ world.writePointer data.length ≤ log.start + log.capacity
  fresh : world.LogEnd data.length log log.start →
    world.condition data.length ≠ .readonly ∧ world.condition data.length ≠ .offline
  formatted : ¬ world.LogEnd data.length log log.start →
    ∃ uuid, superDecode (world.block log.start) = .ok (deviceSuper data log logicalSectors uuid)

/-- How the metadata zone was opened. -/
inductive OpenedLog (world after : World) (data : List Extent) (log : Extent) (logicalSectors uuid : Nat) : Metadata → Prop
  | found {metaWp : Nat} {super : Super} (quiet : world.Quiet after) (ends : world.LogEnd data.length log metaWp)
      (used : metaWp ≠ log.start) (decoded : superDecode (world.block log.start) = .ok super)
      (matched : super = deviceSuper data log logicalSectors super.uuid) :
      OpenedLog world after data log logicalSectors uuid ⟨log.start, metaWp, log.start + log.capacity, super⟩
  | formatted (ends : world.LogEnd data.length log log.start)
      (landed : world.Landed data.length log log.start (superEncode (deviceSuper data log logicalSectors uuid)) (.ok ()) after)
      (later : world.oracle.Later after.oracle) (dataWrites : after.dataWrites = world.dataWrites) :
      OpenedLog world after data log logicalSectors uuid ⟨log.start, log.start + blockSectors, log.start + log.capacity,
        deviceSuper data log logicalSectors uuid⟩

private theorem superRead_spec (sector : Nat) (world : World) :
    Effect.Ensures (superRead sector) world (fun result after => world.Quiet after ∧
      (result = superDecode (world.block sector) ∨ ∃ error, result = .error error ∧ ¬ world.oracle.Healthy)) := by
  refine Effect.Ensures.bind (allocate_quiet world) ?_ ?_
  · rintro _ allocated ⟨quiet, _⟩
    refine Effect.Ensures.bind (blockRead_spec .metadata sector allocated) ?_ ?_
    · rintro block after ⟨quiet', same | ⟨_, same, _⟩⟩
      · cases same
        exact ⟨quiet.trans quiet', Or.inl (by rw [quiet.block]; rfl)⟩
      · cases same
    · rintro error after ⟨quiet', same | ⟨_, same, reports⟩⟩
      · cases same
      · exact ⟨quiet.trans quiet', Or.inr ⟨error, rfl, fun healthy =>
          (healthy.later quiet.later).requests .metadata _ reports⟩⟩
  · rintro error after ⟨quiet, same | ⟨_, sick⟩⟩
    · cases same
    · exact ⟨quiet, Or.inr ⟨error, rfl, sick⟩⟩

private theorem metadataWritePointer_spec (world : World) (index : Nat) (log : Extent) :
    (∃ metaWp, metadataWritePointer (world.report index index log) = .ok metaWp ∧ world.LogEnd index log metaWp ∧
        (world.condition index = .full ∨ world.writePointer index ≤ log.start + log.capacity)) ∨
      (metadataWritePointer (world.report index index log) = .error .einval ∧
        ¬ (world.condition index = .full ∨ world.writePointer index ≤ log.start + log.capacity)) := by
  unfold metadataWritePointer World.LogEnd
  simp only [World.report, Zone.endSector]
  by_cases full : world.condition index = .full
  · simp [full]
  · by_cases past : world.writePointer index > log.start + log.capacity
    · simp [full, past]
    · simp [full, past]
      omega

private theorem superWrite_spec {world : World} {data : List Extent} {log : Extent}
    (split : world.geometry.zones = data ++ [log]) (logicalSectors uuid : Nat) (room : blockSectors ≤ log.capacity)
    (ends : world.LogEnd data.length log log.start) :
    Effect.Ensures (superWrite log.start (deviceSuper data log logicalSectors uuid)) world (fun result after =>
      (result = .ok () ∧ OpenedLog world after data log logicalSectors uuid ⟨log.start, log.start + blockSectors,
        log.start + log.capacity, deviceSuper data log logicalSectors uuid⟩) ∨
      ∃ error, result = .error error ∧ ¬ (world.oracle.Healthy ∧ Readable world data log logicalSectors)) := by
  have capacity := Geometry.capacity_le_len (World.logZone split)
  have size : blockSectors = 8 := rfl
  refine Effect.Ensures.bind (allocate_quiet world) ?_ ?_
  · rintro _ allocated ⟨quiet, _⟩
    have zone : allocated.geometry.zones[data.length]? = some log := by rw [quiet.geometry, World.logZone split]
    refine (blockWrite_spec .metadata _ zone (Nat.le_refl _) (by omega)).mono ?_
    rintro result after ⟨landed, recorded, failed⟩
    cases result with
    | ok value =>
      refine Or.inl ⟨rfl, .formatted ends (landed.of_same quiet.toSameDevice) (quiet.later.trans recorded.later) ?_⟩
      rw [recorded.dataWrites, quiet.dataWrites]
    | error error =>
      refine Or.inr ⟨error, rfl, fun ready => ?_⟩
      obtain ⟨writable, online⟩ := ready.2.fresh ends
      rcases (failed error rfl).1 with reports | refused
      · exact (ready.1.later quiet.later).requests .metadata error reports
      · exact refused.2 ((quiet.accepts _ _ _).mpr (ends.accepts writable online (by omega)))
  · rintro error after ⟨quiet, same | ⟨_, sick⟩⟩
    · cases same
    · exact Or.inr ⟨error, rfl, fun ready => sick ready.1⟩

theorem openMetadata_spec {world : World} {data : List Extent} {log : Extent}
    (split : world.geometry.zones = data ++ [log]) (logicalSectors uuid : Nat) :
    Effect.Ensures (openMetadata world.zoneTable logicalSectors uuid) world (fun result after =>
      (∃ metadata, result = .ok metadata ∧ OpenedLog world after data log logicalSectors uuid metadata ∧
        data ≠ [] ∧ blockSectors ≤ log.capacity ∧ log.start ≤ world.writePointer data.length ∧
        (world.condition data.length = .full ∨ world.writePointer data.length ≤ log.start + log.capacity)) ∨
      (∃ error, result = .error error ∧ ¬ (world.oracle.Healthy ∧ Readable world data log logicalSectors))) := by
  unfold openMetadata
  rw [World.zoneTable_getLast? split]
  dsimp only
  rw [World.zoneTable_length split]
  split
  next few =>
    refine Or.inr ⟨.einval, rfl, fun ready => ready.2.dataZones (List.length_eq_zero_iff.mp (by omega))⟩
  next many =>
    have dataZones : data ≠ [] := by
      rintro rfl
      simp at many
    split
    next tiny => exact Or.inr ⟨.einval, rfl, fun ready => Nat.not_le.mpr tiny ready.2.room⟩
    next room =>
      have room : blockSectors ≤ log.capacity := Nat.not_lt.mp room
      split
      next before => exact Or.inr ⟨.einval, rfl, fun ready => Nat.not_le.mpr before ready.2.low⟩
      next low =>
        have low : log.start ≤ world.writePointer data.length := Nat.not_lt.mp low
        rcases metadataWritePointer_spec world data.length log with ⟨metaWp, same, ends, high⟩ | ⟨same, past⟩
        · rw [same]
          refine Effect.Ensures.ofExcept_bind ?_ nofun
          intro _ found
          cases found
          split
          next used =>
            refine Effect.Ensures.bind (superRead_spec log.start world) ?_ ?_
            · rintro onDisk after ⟨quiet, decoded | ⟨_, failed, _⟩⟩
              · refine Effect.Ensures.ofExcept_bind ?_ ?_
                · intro _ matched
                  exact Or.inl ⟨_, rfl, .found quiet ends used decoded.symm (superMatches_iff.mp matched),
                    dataZones, room, low, high⟩
                · intro error differs
                  refine Or.inr ⟨error, rfl, fun ready => ?_⟩
                  obtain ⟨other, decoded'⟩ := ready.2.formatted (fun start => used (ends.trans start.symm))
                  rw [← decoded] at decoded'
                  cases decoded'
                  have matches_ := superMatches_iff.mpr
                    (show deviceSuper data log logicalSectors other = { deviceSuper data log logicalSectors uuid with
                      uuid := (deviceSuper data log logicalSectors other).uuid } from rfl)
                  have refused : superMatches (deviceSuper data log logicalSectors other)
                    (deviceSuper data log logicalSectors uuid) = .error error := differs
                  rw [refused] at matches_
                  cases matches_
              · cases failed
            · rintro error after ⟨quiet, decoded | ⟨_, failed, sick⟩⟩
              · refine Or.inr ⟨error, rfl, fun ready => ?_⟩
                obtain ⟨other, decoded'⟩ := ready.2.formatted (fun start => used (ends.trans start.symm))
                rw [← decoded] at decoded'
                cases decoded'
              · exact Or.inr ⟨error, rfl, fun ready => sick ready.1⟩
          next unused =>
            have start : metaWp = log.start := not_not.mp unused
            subst start
            have writes := superWrite_spec split logicalSectors uuid room ends
            refine Effect.Ensures.bind writes ?_ ?_
            · rintro _ after (⟨_, opened⟩ | ⟨_, failed, _⟩)
              · exact Or.inl ⟨_, rfl, opened, dataZones, room, low, high⟩
              · cases failed
            · rintro error after (⟨failed, _⟩ | ⟨_, same, sick⟩)
              · cases failed
              · cases same
                exact Or.inr ⟨error, rfl, sick⟩
        · rw [same]
          exact Or.inr ⟨.einval, rfl, fun ready => past ready.2.high⟩

/-- The engine before recovery, and the device it was opened on. -/
structure Opened (params : Params) (logicalSectors uuid : Nat) (world after : World) (data : List Extent) (log : Extent)
    (lsm : Lsm) : Prop where
  opening : ∃ middle, middle.Quiet after ∧ OpenedLog world middle data log logicalSectors uuid
    ⟨lsm.metaStart, lsm.metaWp, lsm.metaEnd, lsm.super⟩
  engine : lsm = unrecovered lsm.allocator (chooseThreshold params.memtableThreshold logicalSectors)
    ⟨lsm.metaStart, lsm.metaWp, lsm.metaEnd, lsm.super⟩
  allocator : lsm.allocator =
    { Allocator.reset with zones := world.zoneTable.dropLast, sectorsPerBlock := blockSectors, mode := .zoned }
  valid : ∀ zone ∈ world.zoneTable.dropLast, zone.MetadataValid
  room : blockSectors ≤ log.capacity
  low : log.start ≤ world.writePointer data.length
  high : world.condition data.length = .full ∨ world.writePointer data.length ≤ log.start + log.capacity
  threshold : params.memtableThreshold ≠ 0
  whole : logicalSectors % blockSectors = 0
  few : world.geometry.zones.length < 2 ^ 31
  dataZones : data ≠ []

/-- Nothing about the device or the parameters keeps the engine from opening. -/
structure Openable (params : Params) (logicalSectors physicalSectors : Nat) (world : World) (data : List Extent)
    (log : Extent) : Prop where
  threshold : params.memtableThreshold ≠ 0
  whole : logicalSectors % blockSectors = 0
  wholePhysical : physicalSectors % blockSectors = 0
  few : world.geometry.zones.length < 2 ^ 31
  readable : Readable world data log logicalSectors
  valid : ∀ zone ∈ world.zoneTable.dropLast, zone.MetadataValid

theorem allocateTimes_spec (count : Nat) (world : World) :
    Effect.Ensures (allocateTimes count) world (fun result after => world.Quiet after ∧
      (result = .ok () ∨ ∃ error, result = .error error ∧ ¬ world.oracle.Healthy)) := by
  induction count generalizing world with
  | zero => exact ⟨.refl _, Or.inl rfl⟩
  | succ count ih =>
    refine Effect.Ensures.bind (allocate_quiet world) ?_ ?_
    · rintro _ after ⟨quiet, _⟩
      refine (ih after).mono ?_
      rintro result final ⟨quiet', done | ⟨error, failed, sick⟩⟩
      · exact ⟨quiet.trans quiet', Or.inl done⟩
      · exact ⟨quiet.trans quiet', Or.inr ⟨error, failed, fun healthy => sick (healthy.later quiet.later)⟩⟩
    · rintro error after ⟨quiet, same | ⟨_, sick⟩⟩
      · cases same
      · exact ⟨quiet, Or.inr ⟨error, rfl, sick⟩⟩

theorem OpenedLog.frame {world start after : World} {data : List Extent} {log : Extent} {logicalSectors uuid : Nat}
    {metadata : Metadata} (quiet : world.Quiet start)
    (opened : OpenedLog start after data log logicalSectors uuid metadata) :
    OpenedLog world after data log logicalSectors uuid metadata := by
  have logEnd {sector : Nat} (ends : start.LogEnd data.length log sector) : world.LogEnd data.length log sector := by
    rw [World.LogEnd, ← quiet.condition, ← quiet.writePointer]
    exact ends
  cases opened with
  | found quiet' ends used decoded matched =>
    exact .found (quiet.trans quiet') (logEnd ends) used (by rw [← quiet.block]; exact decoded) matched
  | formatted ends landed later dataWrites =>
    exact .formatted (logEnd ends) (landed.of_same quiet.toSameDevice) (quiet.later.trans later)
      (by rw [dataWrites, quiet.dataWrites])

theorem OpenedLog.later {world after : World} {data : List Extent} {log : Extent} {logicalSectors uuid : Nat}
    {metadata : Metadata} (opened : OpenedLog world after data log logicalSectors uuid metadata) :
    world.oracle.Later after.oracle := by
  cases opened with
  | found quiet _ _ _ _ => exact quiet.later
  | formatted _ _ later _ => exact later

theorem Readable.frame {world after : World} {data : List Extent} {log : Extent} {logicalSectors : Nat}
    (readable : Readable world data log logicalSectors) (same : world.SameDevice after) :
    Readable after data log logicalSectors := by
  obtain ⟨dataZones, room, low, high, fresh, formatted⟩ := readable
  refine ⟨dataZones, room, ?_, ?_, ?_, ?_⟩
  all_goals simp only [World.LogEnd, same.writePointer, same.condition, same.block]
  exacts [low, high, fresh, formatted]

theorem openEngine_spec {world : World} {data : List Extent} {log : Extent}
    (split : world.geometry.zones = data ++ [log]) (params : Params)
    (uuid logicalSectors physicalSectors sectorsPerBlock : Nat) :
    Effect.Ensures (openEngine params uuid logicalSectors physicalSectors sectorsPerBlock) world (fun result after =>
      (∃ lsm, result = .ok lsm ∧ Opened params logicalSectors uuid world after data log lsm) ∨
      (∃ error, result = .error error ∧ ¬ (sectorsPerBlock = blockSectors ∧ world.oracle.Healthy ∧
        Openable params logicalSectors physicalSectors world data log))) := by
  unfold openEngine
  split
  next wrong =>
    refine Or.inr ⟨.einval, rfl, fun ready => ?_⟩
    obtain ⟨rfl, _, openable⟩ := ready
    rcases wrong with zero | other | ragged | ragged
    · exact openable.threshold zero
    · exact other rfl
    · exact ragged openable.whole
    · exact ragged openable.wholePhysical
  next right =>
    obtain ⟨threshold, block, whole, _⟩ : params.memtableThreshold ≠ 0 ∧ sectorsPerBlock = blockSectors ∧
        logicalSectors % sectorsPerBlock = 0 ∧ physicalSectors % sectorsPerBlock = 0 := by
      refine ⟨fun zero => right (Or.inl zero), ?_, ?_, ?_⟩
      · exact not_not.mp fun other => right (Or.inr (Or.inl other))
      · exact not_not.mp fun ragged => right (Or.inr (Or.inr (Or.inl ragged)))
      · exact not_not.mp fun ragged => right (Or.inr (Or.inr (Or.inr ragged)))
    subst block
    refine Effect.Ensures.bind (allocate_quiet world) ?_ ?_
    · rintro _ first ⟨quiet, _⟩
      refine Effect.Ensures.bind (zoneTableInit_spec first) ?_ ?_
      · rintro zones second ⟨quiet', ⟨same, _, few⟩ | ⟨_, failed, _⟩⟩
        · cases same
          have quiet := quiet.trans quiet'
          have split : second.geometry.zones = data ++ [log] := by rw [quiet.geometry, split]
          rw [quiet'.geometry.symm, quiet.geometry] at few
          rw [← quiet'.zoneTable]
          refine Effect.Ensures.bind (openMetadata_spec split logicalSectors uuid) ?_ ?_
          · rintro metadata third (⟨_, same, opening, dataZones, room, low, high⟩ | ⟨_, failed, _⟩)
            · cases same
              rw [quiet.writePointer] at low high
              rw [quiet.condition] at high
              have table := quiet.zoneTable
              refine Effect.Ensures.ofExcept_bind ?_ ?_
              · intro allocator initialised
                rw [table, Allocator.initZoned] at initialised
                split at initialised
                · cases initialised
                split at initialised
                next valid =>
                  cases initialised
                  refine Effect.Ensures.bind (allocate_quiet third) ?_ ?_
                  · rintro _ fourth ⟨more, _⟩
                    refine Effect.Ensures.bind (allocateTimes_spec _ fourth) ?_ ?_
                    · rintro _ fifth ⟨rest, _⟩
                      refine Or.inl ⟨_, rfl, ⟨third, more.trans rest, ?_⟩, rfl, rfl, valid, room, low, high, threshold, whole,
                        few, dataZones⟩
                      exact opening.frame quiet
                    · rintro error fifth ⟨rest, done | ⟨_, _, sick⟩⟩
                      · cases done
                      · refine Or.inr ⟨error, rfl, fun ready => sick ?_⟩
                        exact ready.2.1.later ((quiet.later.trans opening.later).trans more.later)
                  · rintro error fourth ⟨more, done | ⟨_, sick⟩⟩
                    · cases done
                    · refine Or.inr ⟨error, rfl, fun ready => sick ?_⟩
                      exact ready.2.1.later (quiet.later.trans opening.later)
                next _ => cases initialised
              · intro error refused
                refine Or.inr ⟨error, rfl, fun ready => ?_⟩
                rw [table, Allocator.initZoned, if_neg ?_, if_pos ready.2.2.valid] at refused
                · cases refused
                · rw [World.zoneTable_dropLast (quiet.geometry ▸ split)]
                  simpa [blockSectors] using dataZones
            · cases failed
          · rintro error third (⟨_, same, _⟩ | ⟨_, failed, sick⟩)
            · cases same
            · exact Or.inr ⟨error, rfl, fun ready =>
                sick ⟨ready.2.1.later quiet.later, ready.2.2.readable.frame quiet.toSameDevice⟩⟩
        · cases failed
      · rintro error second ⟨quiet', ⟨same, _⟩ | ⟨_, failed, sick⟩⟩
        · cases same
        · refine Or.inr ⟨error, rfl, fun ready => sick ⟨ready.2.1.later quiet.later, ?_, ?_⟩⟩
          · rw [quiet.geometry, split]
            simp
          · rw [quiet.geometry]
            exact ready.2.2.few
    · rintro error first ⟨quiet, same | ⟨_, sick⟩⟩
      · cases same
      · exact Or.inr ⟨error, rfl, fun ready => sick ready.2.1⟩

theorem OpenedLog.appended {world after : World} {data : List Extent} {log : Extent} {logicalSectors uuid : Nat}
    {metadata : Metadata} (split : world.geometry.zones = data ++ [log])
    (opened : OpenedLog world after data log logicalSectors uuid metadata) :
    world.Appended after data.length log log.start ∧ after.dataWrites = world.dataWrites := by
  cases opened with
  | found quiet _ _ _ _ => exact ⟨quiet.appended _ _ _, quiet.dataWrites⟩
  | formatted _ landed _ dataWrites => exact ⟨landed.appended (World.logZone split), dataWrites⟩

theorem OpenedLog.bounds {world after : World} {data : List Extent} {log : Extent} {logicalSectors uuid : Nat}
    {metadata : Metadata} (opened : OpenedLog world after data log logicalSectors uuid metadata) :
    metadata.metaStart = log.start ∧ metadata.metaEnd = log.start + log.capacity ∧
      metadata.super.logicalSectors = logicalSectors ∧ after.LogEnd data.length log metadata.metaWp := by
  cases opened with
  | found quiet ends used decoded matched => exact ⟨rfl, rfl, by rw [matched]; rfl, quiet.logEnd ends⟩
  | formatted ends landed later dataWrites =>
    cases landed with
    | committed accepted same => exact ⟨rfl, rfl, rfl, same.logEnd (world.commit_ends _ _ _ _).1⟩

namespace Opened
variable {params : Params} {logicalSectors uuid : Nat} {world after : World} {data : List Extent} {log : Extent}
  {lsm : Lsm} (opened : Opened params logicalSectors uuid world after data log lsm)
  (split : world.geometry.zones = data ++ [log])
include opened split

theorem appended : world.Appended after data.length log log.start ∧ after.dataWrites = world.dataWrites := by
  obtain ⟨middle, quiet, opening⟩ := opened.opening
  obtain ⟨appended, dataWrites⟩ := opening.appended split
  exact ⟨appended.trans (quiet.appended _ _ _) (Nat.le_refl _), quiet.dataWrites.trans dataWrites⟩

/-- The allocator knows the data zones as they are. -/
theorem zone {index : Nat} {zone : Zone} (found : lsm.allocator.zones[index]? = some zone) :
    ∃ extent, data[index]? = some extent ∧ zone = after.report index index extent := by
  rw [opened.allocator, World.zoneTable_dropLast split] at found
  obtain ⟨extent, held, rfl⟩ := World.getElem?_reports found
  obtain ⟨bound, _⟩ := List.getElem?_eq_some_iff.mp held
  obtain ⟨pointer, condition⟩ := (opened.appended split).1.others index (by omega)
  exact ⟨extent, held, by simp only [World.report, pointer, condition]⟩

theorem synced : Synced ⟨lsm, after⟩ := by
  intro index zone found _
  obtain ⟨extent, _, rfl⟩ := opened.zone split found
  rfl

omit split in
theorem residents : lsm.residents = [Memtable.init] := by
  rw [opened.engine]
  rfl

omit split in
theorem narrowMaps : lsm.NarrowMaps := by
  rw [opened.engine]
  intro gcZone member entry held
  obtain ⟨zone, _, rfl⟩ := List.mem_map.mp member
  rw [List.eq_of_mem_replicate held]
  exact Nat.zero_le _

theorem attached : Attached ⟨lsm, after⟩ log := by
  obtain ⟨middle, quiet, opening⟩ := opened.opening
  obtain ⟨metaStart, metaEnd, _, _⟩ := opening.bounds
  have valid (zone : Zone) (member : zone ∈ lsm.allocator.zones) : zone.MetadataValid := by
    rw [opened.allocator] at member
    exact opened.valid zone member
  refine ⟨by rw [opened.allocator], by rw [opened.allocator], ?_, metaStart, metaEnd, ?_, ?_⟩
  · rw [(opened.appended split).1.geometry, split, opened.allocator, World.zoneTable_dropLast split]
    congr 1
    apply List.ext_getElem?
    intro index
    rw [List.getElem?_map, List.getElem?_mapIdx, Option.map_map]
    cases data[index]? <;> rfl
  · exact fun zone member => Nat.pos_of_ne_zero (valid zone member).1
  · exact fun zone member writable => ((valid zone member).2.2.2 writable).1

omit split in
theorem logStart : log.start ≤ lsm.metaWp := by
  obtain ⟨middle, _, opening⟩ := opened.opening
  have low := opened.low
  generalize same : (⟨lsm.metaStart, lsm.metaWp, lsm.metaEnd, lsm.super⟩ : Metadata) = metadata at opening
  have start : lsm.metaWp = metadata.metaWp := by rw [← same]
  rw [start]
  cases opening with
  | found quiet ends used decoded matched =>
    dsimp only
    unfold World.LogEnd at ends
    split at ends <;> omega
  | formatted ends landed later dataWrites => exact Nat.le_add_right _ _

omit split in
theorem logEnd : lsm.metaWp ≤ log.start + log.capacity := by
  obtain ⟨middle, _, opening⟩ := opened.opening
  have high := opened.high
  have room := opened.room
  generalize same : (⟨lsm.metaStart, lsm.metaWp, lsm.metaEnd, lsm.super⟩ : Metadata) = metadata at opening
  have start : lsm.metaWp = metadata.metaWp := by rw [← same]
  rw [start]
  cases opening with
  | found quiet ends used decoded matched =>
    dsimp only
    unfold World.LogEnd at ends
    split at ends
    · omega
    next notFull =>
      rcases high with full | below
      · exact absurd full notFull
      · omega
  | formatted ends landed later dataWrites => exact Nat.add_le_add_left room _

theorem disciplined [Kernel] (orderly : Orderly world) :
    Disciplined ⟨lsm, after⟩ log logicalSectors (Machine.logView ⟨lsm, after⟩) := by
  obtain ⟨appended, dataWrites⟩ := opened.appended split
  refine ⟨opened.attached split, orderly.of_same appended.geometry dataWrites, ?_, fun _ => ⟨?_, ?_⟩, ?_, ?_, rfl, rfl, .refl _⟩
  · rw [opened.residents]
    intro table member
    rw [List.mem_singleton.mp member]
    exact Memtable.init_regular
  · rw [opened.residents]
    intro table member
    rw [List.mem_singleton.mp member]
    exact Memtable.init_sound
  · exact opened.narrowMaps
  · exact opened.logStart
  · obtain ⟨middle, quiet, opening⟩ := opened.opening
    exact opening.bounds.2.2.1

end Opened

end Lsm
end ZnsBase
