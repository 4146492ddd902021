import ZnsBase.World

/-! What one call can do to the device and to the outcomes still to come. Calls
only consume outcomes, so a property of every outcome to come survives them. -/

namespace ZnsBase
open Library

namespace Oracle

/-- Some of the outcomes have been consumed. -/
def Later (before after : Oracle) : Prop :=
  ∃ allocs datas metadatas, after.alloc = before.alloc.drop allocs ∧ after.data = before.data.drop datas ∧
    after.metadata = before.metadata.drop metadatas

theorem Later.refl (oracle : Oracle) : Later oracle oracle := ⟨0, 0, 0, rfl, rfl, rfl⟩

theorem Later.trans {first second third : Oracle} (earlier : Later first second) (later : Later second third) :
    Later first third := by
  obtain ⟨a, d, m, alloc, data, metadata⟩ := earlier
  obtain ⟨a', d', m', alloc', data', metadata'⟩ := later
  refine ⟨a' + a, d' + d, m' + m, ?_, ?_, ?_⟩
  · rw [alloc', alloc, Stream'.drop_drop, Nat.add_comm]
  · rw [data', data, Stream'.drop_drop, Nat.add_comm]
  · rw [metadata', metadata, Stream'.drop_drop, Nat.add_comm]

/-- The outcomes to come on one lane. -/
def fates (oracle : Oracle) : Lane → Stream' Fate
  | .data => oracle.data
  | .metadata => oracle.metadata

/-- Some request to come on this lane fails with this code. -/
def Reports (oracle : Oracle) (lane : Lane) (error : Errno) : Prop :=
  ∃ n spill, (oracle.fates lane).get n = .fail error spill

/-- Some write to come on this lane fails after the device took part of it. -/
def Spills (oracle : Oracle) (lane : Lane) : Prop :=
  ∃ n error spill, (oracle.fates lane).get n = .fail error (some spill)

/-- No failed request to the metadata zone is reported as `-ENODATA`, the code
the engine also uses for a missing mapping and an empty table. -/
def Distinct (oracle : Oracle) : Prop := ¬ oracle.Reports .metadata .enodata

/-- Nothing fails. -/
structure Healthy (oracle : Oracle) : Prop where
  alloc : ∀ n, oracle.alloc.get n = true
  requests : ∀ lane error, ¬ oracle.Reports lane error

theorem Later.fates {before after : Oracle} (later : Later before after) (lane : Lane) (n : Nat) :
    ∃ k, (after.fates lane).get n = (before.fates lane).get k := by
  obtain ⟨_, d, m, _, data, metadata⟩ := later
  cases lane with
  | data => exact ⟨_, by rw [Oracle.fates, data, Stream'.get_drop]; rfl⟩
  | metadata => exact ⟨_, by rw [Oracle.fates, metadata, Stream'.get_drop]; rfl⟩

theorem Reports.later {before after : Oracle} {lane : Lane} {error : Errno} (later : Later before after)
    (reports : after.Reports lane error) : before.Reports lane error := by
  obtain ⟨n, spill, failed⟩ := reports
  obtain ⟨k, same⟩ := later.fates lane n
  exact ⟨k, spill, same ▸ failed⟩

theorem Spills.later {before after : Oracle} {lane : Lane} (later : Later before after)
    (spills : after.Spills lane) : before.Spills lane := by
  obtain ⟨n, error, spill, failed⟩ := spills
  obtain ⟨k, same⟩ := later.fates lane n
  exact ⟨k, error, spill, same ▸ failed⟩

theorem Distinct.later {before after : Oracle} (distinct : Distinct before) (later : Later before after) :
    Distinct after := fun reports => distinct (reports.later later)

theorem Healthy.later {before after : Oracle} (healthy : Healthy before) (later : Later before after) :
    Healthy after := by
  refine ⟨?_, fun lane error reports => healthy.requests lane error (reports.later later)⟩
  obtain ⟨_, _, _, alloc, _, _⟩ := later
  intro n
  rw [alloc, Stream'.get_drop]
  exact healthy.alloc _

theorem Healthy.distinct {oracle : Oracle} (healthy : Healthy oracle) : Distinct oracle :=
  healthy.requests .metadata .enodata

/-- Nothing fails. -/
def calm : Oracle where
  alloc := Stream'.const true
  data := Stream'.const .ok
  metadata := Stream'.const .ok

theorem calm_healthy : Healthy calm where
  alloc _ := rfl
  requests := by
    rintro (_ | _) error ⟨n, spill, fails⟩
    all_goals cases fails

end Oracle

namespace World

/-- A device as delivered: every zone empty, nothing written, nothing failing. -/
def fresh (geometry : Geometry) : World where
  geometry := geometry
  writePointer index := (geometry.zones[index]?.map Extent.start).getD 0
  condition _ := .empty
  media _ := 0
  fullAtLength := false
  oracle := .calm
  submitted := []

/-- Two worlds with the same device. -/
structure SameDevice (before after : World) : Prop where
  geometry : after.geometry = before.geometry
  writePointer : after.writePointer = before.writePointer
  condition : after.condition = before.condition
  media : after.media = before.media
  fullAtLength : after.fullAtLength = before.fullAtLength

/-- A call that neither writes nor resets. -/
structure Quiet (before after : World) : Prop extends SameDevice before after where
  later : before.oracle.Later after.oracle
  submitted : after.submitted = before.submitted

theorem SameDevice.refl (world : World) : SameDevice world world := ⟨rfl, rfl, rfl, rfl, rfl⟩

theorem SameDevice.trans {first second third : World} (earlier : SameDevice first second)
    (later : SameDevice second third) : SameDevice first third :=
  ⟨later.geometry.trans earlier.geometry, later.writePointer.trans earlier.writePointer,
    later.condition.trans earlier.condition, later.media.trans earlier.media,
    later.fullAtLength.trans earlier.fullAtLength⟩

theorem Quiet.refl (world : World) : Quiet world world := ⟨.refl _, .refl _, rfl⟩

theorem Quiet.trans {first second third : World} (earlier : Quiet first second) (later : Quiet second third) :
    Quiet first third :=
  ⟨earlier.toSameDevice.trans later.toSameDevice, earlier.later.trans later.later,
    later.submitted.trans earlier.submitted⟩

theorem SameDevice.block {before after : World} (same : SameDevice before after) (sector : Nat) :
    after.block sector = before.block sector := by
  funext index
  simp only [World.block, same.media]

end World

theorem draw_quiet (lane : Lane) (world : World) :
    Effect.Ensures (draw lane) world (fun result after => world.Quiet after ∧
      ∃ fate, result = .ok fate ∧ (world.oracle.fates lane).get 0 = fate) := by
  cases lane with
  | data => exact ⟨⟨⟨rfl, rfl, rfl, rfl, rfl⟩, ⟨0, 1, 0, rfl, rfl, rfl⟩, rfl⟩, _, rfl, rfl⟩
  | metadata => exact ⟨⟨⟨rfl, rfl, rfl, rfl, rfl⟩, ⟨0, 0, 1, rfl, rfl, rfl⟩, rfl⟩, _, rfl, rfl⟩

theorem allocate_quiet (world : World) :
    Effect.Ensures allocate world (fun result after => world.Quiet after ∧
      (result = .ok () ∨ result = .error .enomem ∧ ¬ world.oracle.Healthy)) := by
  refine ⟨⟨⟨rfl, rfl, rfl, rfl, rfl⟩, ⟨1, 0, 0, rfl, rfl, rfl⟩, rfl⟩, ?_⟩
  cases seen : world.oracle.alloc.head with
  | true => exact Or.inl (by simp [allocate, seen])
  | false =>
    refine Or.inr ⟨by simp [allocate, seen], fun healthy => ?_⟩
    have available : world.oracle.alloc.head = true := healthy.alloc 0
    simp [seen] at available

theorem blockRead_spec (lane : Lane) (sector : Nat) (world : World) :
    Effect.Ensures (blockRead lane sector) world (fun result after => world.Quiet after ∧
      (result = .ok (world.block sector) ∨ ∃ error, result = .error error ∧ world.oracle.Reports lane error)) := by
  refine Effect.Ensures.bind (draw_quiet lane world) ?_ ?_
  · rintro fate after ⟨quiet, _, same, drew⟩
    cases same
    cases fate with
    | ok => exact ⟨quiet, Or.inl (by simp [quiet.block])⟩
    | fail error spill => exact ⟨quiet, Or.inr ⟨error, rfl, 0, spill, drew⟩⟩
  · rintro error after ⟨_, _, same, _⟩
    cases same

namespace Geometry

theorem apart {geometry : Geometry} {first second : Nat} {low high : Extent}
    (left : geometry.zones[first]? = some low) (right : geometry.zones[second]? = some high) (less : first < second) :
    low.start + low.len ≤ high.start := by
  obtain ⟨leftBound, rfl⟩ := List.getElem?_eq_some_iff.mp left
  obtain ⟨rightBound, rfl⟩ := List.getElem?_eq_some_iff.mp right
  exact List.pairwise_iff_getElem.mp geometry.ordered first second leftBound rightBound less

/-- A sector lies in one zone at most. -/
theorem zone_unique {geometry : Geometry} {first second sector : Nat} {one other : Extent}
    (left : geometry.zones[first]? = some one) (right : geometry.zones[second]? = some other)
    (low : one.start ≤ sector) (high : sector < one.start + one.len)
    (otherLow : other.start ≤ sector) (otherHigh : sector < other.start + other.len) : first = second := by
  rcases Nat.lt_trichotomy first second with less | same | more
  · have := apart left right less
    omega
  · exact same
  · have := apart right left more
    omega

theorem capacity_le_len {geometry : Geometry} {index : Nat} {extent : Extent}
    (zone : geometry.zones[index]? = some extent) : extent.capacity ≤ extent.len :=
  geometry.capacity_le extent (List.mem_of_getElem? zone)

end Geometry

namespace World

theorem zoneOf_eq_some {world : World} {index sector : Nat} {extent : Extent}
    (zone : world.geometry.zones[index]? = some extent) (low : extent.start ≤ sector)
    (high : sector < extent.start + extent.len) : world.zoneOf sector = some index := by
  obtain ⟨bound, held⟩ := List.getElem?_eq_some_iff.mp zone
  rw [zoneOf, List.findIdx?_eq_some_iff_getElem]
  refine ⟨bound, by simp [held, low, high], ?_⟩
  intro earlier less
  have before := Geometry.apart (List.getElem?_eq_getElem (by omega)) zone less
  simp only [Bool.not_eq_true, decide_eq_false_iff_not]
  omega

/-- A write at `sector` of zone `index`: carried out, refused, or failed after
the device took it. -/
inductive Landed (world : World) (index : Nat) (extent : Extent) (sector : Nat) (bytes : Nat → UInt8) :
    Except Errno Unit → World → Prop
  | committed {after : World} (accepted : world.Accepts index extent sector)
      (same : (world.commit index extent sector bytes).SameDevice after) : Landed world index extent sector bytes (.ok ()) after
  | refused {after : World} (error : Errno) (same : world.SameDevice after) :
      Landed world index extent sector bytes (.error error) after
  | scattered {after : World} (error : Errno) (spill : Spill) (accepted : world.Accepts index extent sector)
      (same : (world.scatter index extent spill).SameDevice after) :
      Landed world index extent sector bytes (.error error) after

/-- Only the part of one zone from a sector on may have changed. -/
structure Appended (before after : World) (index : Nat) (extent : Extent) (sector : Nat) : Prop where
  geometry : after.geometry = before.geometry
  fullAtLength : after.fullAtLength = before.fullAtLength
  others : ∀ other, other ≠ index →
    after.writePointer other = before.writePointer other ∧ after.condition other = before.condition other
  media : ∀ address, address < sector * sectorBytes ∨ (extent.start + extent.len) * sectorBytes ≤ address →
    after.media address = before.media address

theorem SameDevice.appended {before after : World} (same : SameDevice before after) (index : Nat) (extent : Extent)
    (sector : Nat) : Appended before after index extent sector :=
  ⟨same.geometry, same.fullAtLength, fun other _ => ⟨by rw [same.writePointer], by rw [same.condition]⟩,
    fun address _ => by rw [same.media]⟩

theorem Appended.trans {first second third : World} {index sector next : Nat} {extent : Extent}
    (earlier : Appended first second index extent sector) (later : Appended second third index extent next)
    (order : sector ≤ next) : Appended first third index extent sector := by
  refine ⟨later.geometry.trans earlier.geometry, later.fullAtLength.trans earlier.fullAtLength, ?_, ?_⟩
  · intro other different
    obtain ⟨pointer, condition⟩ := earlier.others other different
    obtain ⟨pointer', condition'⟩ := later.others other different
    exact ⟨pointer'.trans pointer, condition'.trans condition⟩
  · intro address outside
    refine (later.media address ?_).trans (earlier.media address outside)
    rcases outside with below | above
    · exact Or.inl (below.trans_le (Nat.mul_le_mul_right _ order))
    · exact Or.inr above

private theorem commit_appended {world : World} {index sector : Nat} {extent : Extent} {bytes : Nat → UInt8}
    (zone : world.geometry.zones[index]? = some extent) (accepted : world.Accepts index extent sector) :
    world.Appended (world.commit index extent sector bytes) index extent sector := by
  obtain ⟨_, _, _, _, room⟩ := accepted
  have capacity := Geometry.capacity_le_len zone
  have sizes : blockBytes = blockSectors * sectorBytes := rfl
  have untouched : ∀ address, address < sector * sectorBytes ∨ (extent.start + extent.len) * sectorBytes ≤ address →
      overlay world.media (sector * sectorBytes) blockBytes bytes address = world.media address := by
    intro address outside
    apply overlay_outside
    have top : (sector + blockSectors) * sectorBytes ≤ (extent.start + extent.len) * sectorBytes :=
      Nat.mul_le_mul_right _ (by omega)
    rw [sizes, ← Nat.add_mul]
    omega
  unfold commit
  split
  · exact ⟨rfl, rfl, fun other different => by simp [setZone, different], untouched⟩
  · exact ⟨rfl, rfl, fun other different => by simp [setZone, different], untouched⟩

private theorem scatter_appended (world : World) (index : Nat) (extent : Extent) (spill : Spill) :
    world.Appended (world.scatter index extent spill) index extent (world.writePointer index) := by
  refine ⟨rfl, rfl, fun other different => by simp [scatter, setZone, different], ?_⟩
  intro address outside
  have : ¬ (world.writePointer index * sectorBytes ≤ address ∧
    address < (extent.start + extent.len) * sectorBytes) := by omega
  simp only [scatter, setZone, this, ite_false]

theorem Landed.appended {world after : World} {index sector : Nat} {extent : Extent} {bytes : Nat → UInt8}
    {result : Except Errno Unit} (zone : world.geometry.zones[index]? = some extent)
    (landed : world.Landed index extent sector bytes result after) : world.Appended after index extent sector := by
  cases landed with
  | committed accepted same => exact (commit_appended zone accepted).trans (same.appended _ _ _) (Nat.le_refl _)
  | refused error same => exact same.appended _ _ _
  | scattered error spill accepted same =>
    rw [accepted.2.2.2.1]
    exact (scatter_appended _ _ _ _).trans (same.appended _ _ _) (Nat.le_refl _)

theorem SameDevice.accepts {before after : World} (same : SameDevice before after) (index : Nat) (extent : Extent)
    (sector : Nat) : after.Accepts index extent sector ↔ before.Accepts index extent sector := by
  simp only [Accepts, same.condition, same.writePointer]

theorem Landed.of_same {before world after : World} {index sector : Nat} {extent : Extent} {bytes : Nat → UInt8}
    {result : Except Errno Unit} (same : SameDevice before world)
    (landed : world.Landed index extent sector bytes result after) :
    before.Landed index extent sector bytes result after := by
  cases landed with
  | committed accepted device =>
    refine .committed ((same.accepts _ _ _).mp accepted) (.trans ?_ device)
    unfold commit
    split
    · exact ⟨same.geometry, by simp [setZone, same.writePointer, same.fullAtLength],
        by simp [setZone, same.condition], by simp [setZone, same.media], same.fullAtLength⟩
    · exact ⟨same.geometry, by simp [setZone, same.writePointer], by simp [setZone, same.condition],
        by simp [setZone, same.media], same.fullAtLength⟩
  | refused error device => exact .refused error (same.trans device)
  | scattered error spill accepted device =>
    refine .scattered error spill ((same.accepts _ _ _).mp accepted) (.trans ?_ device)
    exact ⟨same.geometry, by simp [scatter, setZone, same.writePointer], by simp [scatter, setZone, same.condition],
      by simp [scatter, setZone, same.media, same.writePointer], same.fullAtLength⟩

/-- Where the log in a zone ends: a full zone is written up to its capacity,
whatever its write pointer says. -/
def LogEnd (world : World) (index : Nat) (extent : Extent) (sector : Nat) : Prop :=
  sector = if world.condition index = .full then extent.start + extent.capacity else world.writePointer index

theorem SameDevice.logEnd {before after : World} (same : SameDevice before after) {index sector : Nat} {extent : Extent}
    (ended : before.LogEnd index extent sector) : after.LogEnd index extent sector := by
  rw [LogEnd, same.condition, same.writePointer]
  exact ended

theorem commit_ends (world : World) (index : Nat) (extent : Extent) (sector : Nat) (bytes : Nat → UInt8) :
    (world.commit index extent sector bytes).LogEnd index extent (sector + blockSectors) ∧
      (world.commit index extent sector bytes).condition index ≠ .readonly ∧
      (world.commit index extent sector bytes).condition index ≠ .offline := by
  unfold commit
  split
  next ends => simp [LogEnd, setZone, ends]
  next _ =>
    simp only [LogEnd, setZone, ite_true]
    split <;> simp

theorem commit_pointer {world : World} {index sector : Nat} {extent : Extent} (bytes : Nat → UInt8)
    (capacity : extent.capacity ≤ extent.len) :
    sector + blockSectors ≤ (world.commit index extent sector bytes).writePointer index := by
  unfold commit
  split
  · simp only [setZone, ite_true]
    split <;> omega
  · simp only [setZone, ite_true, Nat.le_refl]

theorem commit_media {world : World} {index sector : Nat} {extent : Extent} {bytes : Nat → UInt8} :
    (world.commit index extent sector bytes).media = overlay world.media (sector * sectorBytes) blockBytes bytes := by
  unfold commit
  split <;> rfl

theorem LogEnd.accepts {world : World} {index sector : Nat} {extent : Extent} (ended : world.LogEnd index extent sector)
    (writable : world.condition index ≠ .readonly) (online : world.condition index ≠ .offline)
    (room : sector + blockSectors ≤ extent.start + extent.capacity) : world.Accepts index extent sector := by
  unfold LogEnd at ended
  split at ended
  next _ =>
    simp only [blockSectors] at room
    omega
  next open_ => exact ⟨open_, writable, online, ended, room⟩

/-- Another write joined the record. -/
structure Recorded (before after : World) (lane : Lane) (sector : Nat) : Prop where
  later : before.oracle.Later after.oracle
  submitted : after.submitted = ⟨lane, sector, before.writePointer, before.condition⟩ :: before.submitted

end World

private theorem submit_landed {index sector : Nat} {extent : Extent} (bytes : Nat → UInt8) (fate : Fate) (world : World) :
    Effect.Ensures (submit index extent sector bytes fate) world (fun result after =>
      world.Landed index extent sector bytes result after ∧ after.oracle = world.oracle ∧
      after.submitted = world.submitted ∧
      ∀ error, result = .error error →
        ((∃ spill, fate = .fail error spill) ∨ error = .eio ∧ ¬ world.Accepts index extent sector) ∧
        (world.SameDevice after ∨ ∃ spill, fate = .fail error (some spill))) := by
  apply Effect.Ensures.get_bind
  split
  next accepted =>
    cases fate with
    | ok =>
      refine ⟨.committed accepted (.refl _), ?_, ?_, fun error failed => by cases failed⟩
      · simp only [Effect.modify, World.commit]
        split <;> rfl
      · simp only [Effect.modify, World.commit]
        split <;> rfl
    | fail error spill =>
      apply Effect.Ensures.modify_bind
      cases spill with
      | none =>
        exact ⟨.refused error (.refl _), rfl, rfl,
          fun other failed => by cases failed; exact ⟨Or.inl ⟨_, rfl⟩, Or.inl (.refl _)⟩⟩
      | some spill =>
        exact ⟨.scattered error spill accepted (.refl _), rfl, rfl,
          fun other failed => by cases failed; exact ⟨Or.inl ⟨_, rfl⟩, Or.inr ⟨_, rfl⟩⟩⟩
  next refused =>
    exact ⟨.refused .eio (.refl _), rfl, rfl, fun _ same => ⟨Or.inr ⟨(Except.error.inj same).symm, refused⟩, Or.inl (.refl _)⟩⟩

theorem blockWrite_spec {index : Nat} {extent : Extent} {sector : Nat} {world : World} (lane : Lane)
    (bytes : Nat → UInt8) (zone : world.geometry.zones[index]? = some extent) (low : extent.start ≤ sector)
    (high : sector < extent.start + extent.len) :
    Effect.Ensures (blockWrite lane sector bytes) world (fun result after =>
      world.Landed index extent sector bytes result after ∧ world.Recorded after lane sector ∧
      ∀ error, result = .error error →
        (world.oracle.Reports lane error ∨ error = .eio ∧ ¬ world.Accepts index extent sector) ∧
        (world.SameDevice after ∨ world.oracle.Spills lane)) := by
  refine Effect.Ensures.bind (draw_quiet lane world) ?_ ?_
  · rintro fate drawn ⟨quiet, _, same, drew⟩
    cases same
    apply Effect.Ensures.modify_bind
    apply Effect.Ensures.get_bind
    have located : (drawn.record lane sector).geometry.zones[index]? = some extent := by
      rw [← zone]
      exact congrArg (fun geometry : Geometry => geometry.zones[index]?) quiet.geometry
    rw [World.zoneOf_eq_some located low high]
    simp only [located]
    have device : world.SameDevice (drawn.record lane sector) :=
      ⟨quiet.geometry, quiet.writePointer, quiet.condition, quiet.media, quiet.fullAtLength⟩
    refine (submit_landed bytes fate (drawn.record lane sector)).mono ?_
    rintro result after ⟨landed, oracle, submitted, failed⟩
    refine ⟨landed.of_same device, ⟨?_, ?_⟩, ?_⟩
    · rw [oracle]
      exact quiet.later
    · rw [submitted]
      simp only [World.record, quiet.writePointer, quiet.condition, quiet.submitted]
    · intro error stopped
      obtain ⟨cause, traces⟩ := failed error stopped
      constructor
      · rcases cause with ⟨spill, same⟩ | ⟨code, refused⟩
        · exact Or.inl ⟨0, spill, drew.trans same⟩
        · exact Or.inr ⟨code, fun accepted => refused ((device.accepts _ _ _).mpr accepted)⟩
      · rcases traces with same | ⟨spill, same⟩
        · exact Or.inl (device.trans same)
        · exact Or.inr ⟨0, error, spill, drew.trans same⟩
  · rintro error after ⟨_, _, same, _⟩
    cases same

/-- A reset empties one zone or changes nothing. -/
theorem zoneReset_spec {index : Nat} {extent : Extent} {world : World}
    (zone : world.geometry.zones[index]? = some extent) (positive : 0 < extent.len) :
    Effect.Ensures (zoneReset extent.start) world (fun result after =>
      world.oracle.Later after.oracle ∧ after.submitted = world.submitted ∧
      ((result = .ok () ∧ ({ world with
          media := overlay world.media (extent.start * sectorBytes) (extent.len * sectorBytes) (fun _ => 0)
          }.setZone index extent.start .empty).SameDevice after) ∨
        ∃ error, result = .error error ∧ world.SameDevice after ∧ (world.oracle.Reports .data error ∨
          world.condition index = .readonly ∨ world.condition index = .offline))) := by
  refine Effect.Ensures.bind (draw_quiet .data world) ?_ ?_
  · rintro fate drawn ⟨quiet, _, same, drew⟩
    cases same
    cases fate with
    | fail error spill =>
      exact ⟨quiet.later, quiet.submitted, Or.inr ⟨error, rfl, quiet.toSameDevice, Or.inl ⟨0, spill, drew⟩⟩⟩
    | ok =>
      apply Effect.Ensures.get_bind
      have located : drawn.geometry.zones[index]? = some extent := by rw [quiet.geometry, zone]
      rw [World.zoneOf_eq_some located (Nat.le_refl _) (by omega)]
      simp only [located]
      split
      next stuck =>
        rw [quiet.condition] at stuck
        exact ⟨quiet.later, quiet.submitted, Or.inr ⟨.eio, rfl, quiet.toSameDevice, Or.inr stuck⟩⟩
      next _ =>
        refine ⟨quiet.later, quiet.submitted, Or.inl ⟨rfl, ?_⟩⟩
        exact ⟨quiet.geometry, by simp [Effect.modify, World.setZone, quiet.writePointer],
          by simp [Effect.modify, World.setZone, quiet.condition], by simp [Effect.modify, World.setZone, quiet.media],
          quiet.fullAtLength⟩
  · rintro error after ⟨_, _, same, _⟩
    cases same

theorem zoneReportOne_spec {index sector : Nat} {extent : Extent} {world : World}
    (zone : world.geometry.zones[index]? = some extent) (low : extent.start ≤ sector)
    (high : sector < extent.start + extent.len) :
    Effect.Ensures (zoneReportOne sector) world (fun result after => world.Quiet after ∧
      (result = .ok (world.report 0 index extent) ∨
        ∃ error, result = .error error ∧ world.oracle.Reports .data error)) := by
  refine Effect.Ensures.bind (draw_quiet .data world) ?_ ?_
  · rintro fate drawn ⟨quiet, _, same, drew⟩
    cases same
    cases fate with
    | fail error spill => exact ⟨quiet, Or.inr ⟨error, rfl, 0, spill, drew⟩⟩
    | ok =>
      apply Effect.Ensures.get_bind
      have located : drawn.geometry.zones[index]? = some extent := by rw [quiet.geometry, zone]
      rw [World.zoneOf_eq_some located low high]
      simp only [located]
      exact ⟨quiet, Or.inl (by simp [World.report, quiet.writePointer, quiet.condition])⟩
  · rintro error after ⟨_, _, same, _⟩
    cases same

end ZnsBase
