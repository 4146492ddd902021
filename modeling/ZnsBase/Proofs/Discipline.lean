import ZnsBase.Proofs.Attach
import ZnsBase.Target

/-! Sequential writes. The allocator's write pointer runs ahead of the device
for one request at most: the request brings the device along, or the allocator
is resynchronised from a report, or writes are stopped. -/

namespace ZnsBase
open Library

/-- Where the allocator would append, the device would accept. -/
def Synced (machine : Machine) : Prop :=
  ∀ index zone, machine.lsm.allocator.zones[index]? = some zone → zone.CanAppend blockSectors →
    machine.world.writePointer index = zone.writePointer

/-- A write that met the device's write pointer in a data zone with room for it. -/
def InOrder (dataZones : List Extent) (write : Submission) : Prop :=
  ∃ index extent, dataZones[index]? = some extent ∧ write.sector = write.writePointer index ∧
    extent.start ≤ write.sector ∧ write.sector + blockSectors ≤ extent.start + extent.capacity

def Orderly (world : World) : Prop := ∀ write ∈ world.dataWrites, InOrder world.geometry.zones.dropLast write

/-- The tables in memory, newest first. -/
def Lsm.residents (lsm : Lsm) : List Memtable := lsm.tables.tables ++ lsm.flushing.toList

/-- What the engine knows of its log. -/
structure LogState where
  sstables : List Sstable
  nrSstables : Nat
  nrSstEntries : Nat
  nextSstSeq : Nat
  metaStart : Nat
  metaWp : Nat
  metaEnd : Nat
  super : Super

def Lsm.logState (lsm : Lsm) : LogState :=
  ⟨lsm.sstables, lsm.nrSstables, lsm.nrSstEntries, lsm.nextSstSeq, lsm.metaStart, lsm.metaWp, lsm.metaEnd, lsm.super⟩

/-- The last zone of the device, the bytes from its start on, and the writes to
it so far. -/
structure LogDevice where
  index : Nat
  writePointer : Nat
  condition : ZoneCond
  fullAtLength : Bool
  bytes : Nat → UInt8
  writes : List Submission

def World.logIndex (world : World) : Nat := world.geometry.zones.length - 1

def World.logStart (world : World) : Nat := (world.geometry.zones.getLast?.map Extent.start).getD 0

def World.logDevice (world : World) : LogDevice :=
  ⟨world.logIndex, world.writePointer world.logIndex, world.condition world.logIndex, world.fullAtLength,
    fun offset => world.media (world.logStart * sectorBytes + offset), world.metaWrites⟩

/-- What no request touches, and the outcomes all later ones are drawn from. -/
structure LogView where
  state : LogState
  device : LogDevice
  origin : Oracle

structure LogView.Of (view : LogView) (machine : Machine) : Prop where
  state : machine.lsm.logState = view.state
  device : machine.world.logDevice = view.device
  later : view.origin.Later machine.world.oracle

def Machine.logView (machine : Machine) : LogView := ⟨machine.lsm.logState, machine.world.logDevice, machine.world.oracle⟩

theorem LogView.Of.onEngine {view : LogView} {machine : Machine} (of : view.Of machine) {lsm : Lsm}
    (state : lsm.logState = machine.lsm.logState) : view.Of { machine with lsm } :=
  ⟨state.trans of.state, of.device, of.later⟩

theorem World.SameDevice.logDevice {before after : World} (same : before.SameDevice after)
    (writes : after.metaWrites = before.metaWrites) : after.logDevice = before.logDevice := by
  simp only [World.logDevice, World.logIndex, World.logStart, same.geometry, same.writePointer, same.condition, same.fullAtLength,
    same.media, writes]

/-- Where another zone changes, the log does not. -/
theorem World.logDevice_of_others {before after : World} {index : Nat} (geometry : after.geometry = before.geometry)
    (fullAtLength : after.fullAtLength = before.fullAtLength) (writes : after.metaWrites = before.metaWrites)
    (others : ∀ other, other ≠ index →
      after.writePointer other = before.writePointer other ∧ after.condition other = before.condition other)
    (apart : before.logIndex ≠ index)
    (media : ∀ address, before.logStart * sectorBytes ≤ address → after.media address = before.media address) :
    after.logDevice = before.logDevice := by
  obtain ⟨pointer, condition⟩ := others _ apart
  have bytes : (fun offset => after.media (before.logStart * sectorBytes + offset)) =
      fun offset => before.media (before.logStart * sectorBytes + offset) :=
    funext fun offset => media _ (Nat.le_add_right _ _)
  rw [World.logDevice, World.logDevice, show after.logIndex = before.logIndex by rw [World.logIndex, geometry, World.logIndex],
    show after.logStart = before.logStart by rw [World.logStart, geometry, World.logStart], bytes, pointer, condition,
    fullAtLength, writes]

theorem Attached.logIndex {machine : Machine} {log : Extent} (attached : Attached machine log) :
    machine.world.logIndex = machine.lsm.allocator.zones.length := by
  rw [World.logIndex, attached.geometry]
  simp

theorem Attached.logStart {machine : Machine} {log : Extent} (attached : Attached machine log) :
    machine.world.logStart = log.start := by
  rw [World.logStart, attached.geometry]
  simp

/-- Data zones lie below the log. -/
theorem Attached.past_data {machine : Machine} {log : Extent} (attached : Attached machine log) {index : Nat} {zone : Zone}
    (found : machine.lsm.allocator.zones[index]? = some zone) {address : Nat}
    (above : machine.world.logStart * sectorBytes ≤ address) :
    (zone.extent.start + zone.extent.len) * sectorBytes ≤ address := by
  have ordered := machine.world.geometry.ordered
  rw [attached.geometry, List.pairwise_append] at ordered
  have below := ordered.2.2 zone.extent (List.mem_map_of_mem (List.mem_of_getElem? found)) log List.mem_cons_self
  rw [attached.logStart] at above
  exact (Nat.mul_le_mul_right _ below).trans above

/-- Every entry of the reverse maps is a block number that fits 64 bits, plus one. -/
def Lsm.NarrowMaps (lsm : Lsm) : Prop := ∀ gcZone ∈ lsm.gcZones, ∀ entry ∈ gcZone.logicalBlocks, entry ≤ 2 ^ 64

/-- Every number the engine may still write to its log fits its field there. -/
def Lsm.Narrow [Kernel] (lsm : Lsm) : Prop := (∀ table ∈ lsm.residents, table.Sound) ∧ lsm.NarrowMaps

/-- What holds at every step of a request to a target of `limit` sectors. -/
structure Disciplined [Kernel] (machine : Machine) (log : Extent) (limit : Nat) (view : LogView) : Prop where
  attached : Attached machine log
  orderly : Orderly machine.world
  regular : ∀ table ∈ machine.lsm.residents, table.Regular
  narrow : limit < 2 ^ 64 → machine.lsm.Narrow
  logStart : log.start ≤ machine.lsm.metaWp
  logicalSectors : machine.lsm.super.logicalSectors = limit
  of : view.Of machine

theorem Orderly.of_same {before after : World} (orderly : Orderly before) (geometry : after.geometry = before.geometry)
    (writes : after.dataWrites = before.dataWrites) : Orderly after := by
  unfold Orderly
  rw [geometry, writes]
  exact orderly

theorem World.Quiet.dataWrites {before after : World} (quiet : before.Quiet after) : after.dataWrites = before.dataWrites := by
  rw [World.dataWrites, quiet.submitted, World.dataWrites]

/-- The parts of the engine that describe its log and its device. -/
structure SameLog (before after : Lsm) : Prop where
  metaStart : after.metaStart = before.metaStart
  metaEnd : after.metaEnd = before.metaEnd
  metaWp : after.metaWp = before.metaWp
  super : after.super = before.super

theorem SameLog.refl (lsm : Lsm) : SameLog lsm lsm := ⟨rfl, rfl, rfl, rfl⟩

theorem SameLog.trans {first second third : Lsm} (earlier : SameLog first second) (later : SameLog second third) :
    SameLog first third :=
  ⟨later.metaStart.trans earlier.metaStart, later.metaEnd.trans earlier.metaEnd, later.metaWp.trans earlier.metaWp,
    later.super.trans earlier.super⟩

/-- Steps of the engine on small numbers that leave zones, log and device alone. -/
structure Undisturbed [Kernel] (small : Prop) (before after : Machine) : Prop where
  allocator : after.lsm.allocator = before.lsm.allocator
  state : after.lsm.logState = before.lsm.logState
  quiet : before.world.Quiet after.world
  regular : (∀ table ∈ before.lsm.residents, table.Regular) → ∀ table ∈ after.lsm.residents, table.Regular
  narrow : small → before.lsm.Narrow → after.lsm.Narrow

section Undisturbed
variable [Kernel] {small : Prop}

theorem Undisturbed.refl (machine : Machine) : Undisturbed small machine machine := ⟨rfl, rfl, .refl _, id, fun _ => id⟩

theorem Undisturbed.trans {first second third : Machine} (earlier : Undisturbed small first second)
    (later : Undisturbed small second third) : Undisturbed small first third :=
  ⟨later.allocator.trans earlier.allocator, later.state.trans earlier.state, earlier.quiet.trans later.quiet,
    later.regular ∘ earlier.regular, fun inside => later.narrow inside ∘ earlier.narrow inside⟩

theorem Undisturbed.disciplined {before after : Machine} {log : Extent} {limit : Nat} {view : LogView}
    (undisturbed : Undisturbed (limit < 2 ^ 64) before after)
    (disciplined : Disciplined before log limit view) : Disciplined after log limit view :=
  have metaStart : after.lsm.metaStart = before.lsm.metaStart := congrArg LogState.metaStart undisturbed.state
  have metaEnd : after.lsm.metaEnd = before.lsm.metaEnd := congrArg LogState.metaEnd undisturbed.state
  have metaWp : after.lsm.metaWp = before.lsm.metaWp := congrArg LogState.metaWp undisturbed.state
  have super_ : after.lsm.super = before.lsm.super := congrArg LogState.super undisturbed.state
  ⟨(disciplined.attached.onDevice undisturbed.quiet.geometry).onEngine undisturbed.allocator metaStart metaEnd,
    disciplined.orderly.of_same undisturbed.quiet.geometry undisturbed.quiet.dataWrites,
    undisturbed.regular disciplined.regular, fun inside => undisturbed.narrow inside (disciplined.narrow inside), by rw [metaWp]; exact disciplined.logStart,
    by rw [super_]; exact disciplined.logicalSectors, undisturbed.state.trans disciplined.of.state,
    (undisturbed.quiet.logDevice undisturbed.quiet.metaWrites).trans disciplined.of.device,
    disciplined.of.later.trans undisturbed.quiet.later⟩

theorem Undisturbed.synced {before after : Machine} (undisturbed : Undisturbed small before after) (synced : Synced before) :
    Synced after := by
  intro index zone found room
  rw [undisturbed.allocator] at found
  exact (congrFun undisturbed.quiet.writePointer index).trans (synced index zone found room)

end Undisturbed

/-- All zones but one are in step with the device. -/
def SyncedBut (machine : Machine) (index : Nat) : Prop :=
  ∀ other zone, other ≠ index → machine.lsm.allocator.zones[other]? = some zone → zone.CanAppend blockSectors →
    machine.world.writePointer other = zone.writePointer

/-- The allocator is one block ahead of the device in one zone. -/
structure Ahead (machine : Machine) (index : Nat) (zone : Zone) : Prop where
  found : machine.lsm.allocator.zones[index]? = some { zone with writePointer := zone.writePointer + blockSectors }
  room : zone.CanAppend blockSectors
  low : zone.startSector ≤ zone.writePointer
  pointer : machine.world.writePointer index = zone.writePointer
  others : SyncedBut machine index

theorem Synced.ahead {machine : Machine} {log : Extent} {allocator : Allocator} {index : Nat} {zone : Zone}
    (synced : Synced machine) (attached : Attached machine log)
    (takes : machine.lsm.allocator.Takes allocator index zone) :
    Ahead { machine with lsm.allocator := allocator } index zone := by
  have room := takes.room
  rw [attached.block] at room
  obtain ⟨bound, _⟩ := List.getElem?_eq_some_iff.mp takes.found
  refine ⟨?_, room, ?_, ?_, ?_⟩
  · simp only [takes.zones, List.getElem?_set_self bound, attached.block]
  · exact (attached.inside takes.found takes.room).1
  · exact synced index zone takes.found room
  · intro other held different found room
    simp only [takes.zones, List.getElem?_set_ne (Ne.symm different)] at found
    exact synced other held found room

namespace Ahead
variable {machine : Machine} {log : Extent} {index : Nat} {zone : Zone} (ahead : Ahead machine index zone)
include ahead

theorem extent (attached : Attached machine log) : machine.world.geometry.zones[index]? = some zone.extent := by
  have located := attached.extent ahead.found
  exact located

theorem inZone (attached : Attached machine log) : zone.writePointer < zone.startSector + zone.length := by
  have capacity : zone.capacity ≤ zone.length := Geometry.capacity_le_len (ahead.extent attached)
  have fits := ahead.room.fits
  simp only [Zone.endSector, blockSectors] at fits
  omega

theorem small (attached : Attached machine log) : zone.writePointer < 2 ^ 64 := by
  have inside := ahead.inZone attached
  have bounded := machine.world.geometry.bounded _ (List.mem_of_getElem? (ahead.extent attached))
  simp only [Zone.extent] at bounded
  omega

/-- After the device took the block, both pointers agree again. -/
theorem synced {world : World} {bytes : Nat → UInt8}
    (same : (machine.world.commit index zone.extent zone.writePointer bytes).SameDevice world) :
    Synced { machine with world } := by
  intro other held found room
  by_cases here : other = index
  · subst here
    rw [ahead.found] at found
    cases found
    have fits := room.fits
    have size : blockSectors = 8 := rfl
    change world.writePointer other = _
    rw [same.writePointer]
    simp only [Zone.endSector] at fits
    unfold World.commit
    rw [if_neg (by simp only [Zone.extent]; omega)]
    simp [World.setZone]
  · change world.writePointer other = _
    rw [same.writePointer, ← ahead.others other held here found room]
    unfold World.commit
    split <;> simp [World.setZone, here]

end Ahead

namespace Lsm

theorem onWorld_ensures {α : Type} {program : Effect World Errno α} {machine : Machine}
    {post : Except Errno α → Machine → Prop}
    (valid : Effect.Ensures program machine.world (fun result world => post result { machine with world })) :
    Effect.Ensures (onWorld program) machine post := valid

theorem onAllocator_bind {α β : Type} {operation : Allocator → Except Errno α × Allocator}
    {next : α → Effect Machine Errno β} {machine : Machine} {post : Except Errno β → Machine → Prop}
    (resume : ∀ value allocator, operation machine.lsm.allocator = (.ok value, allocator) →
      Effect.Ensures (next value) { machine with lsm.allocator := allocator } post)
    (stop : ∀ error allocator, operation machine.lsm.allocator = (.error error, allocator) →
      post (.error error) { machine with lsm.allocator := allocator }) :
    Effect.Ensures (onAllocator operation >>= next) machine post := by
  cases ran : operation machine.lsm.allocator with
  | mk result allocator =>
    have moved : onAllocator operation machine = (result, { machine with lsm.allocator := allocator }) := by
      simp only [onAllocator, onLsm, Effect.zoom, ran]
    unfold Effect.Ensures
    cases result with
    | ok value =>
      rw [Effect.bind_ok moved]
      exact resume value allocator ran
    | error error =>
      rw [Effect.bind_error moved]
      exact stop error allocator ran

theorem updateGcBlockLocation_frame (logicalBlock physicalSector : Nat) (lsm : Lsm) :
    Effect.Ensures (updateGcBlockLocation logicalBlock physicalSector) lsm (fun _ after =>
      after.allocator = lsm.allocator ∧ after.logState = lsm.logState ∧ after.tables = lsm.tables ∧
      after.flushing = lsm.flushing) := by
  unfold Effect.Ensures updateGcBlockLocation gcCommit
  repeat' split
  all_goals exact ⟨rfl, rfl, rfl, rfl⟩

private theorem mem_modify {α : Type} {change : α → α} {list : List α} {index : Nat} {value : α}
    (member : value ∈ list.modify index change) : value ∈ list ∨ ∃ old ∈ list, value = change old := by
  obtain ⟨place, found⟩ := List.mem_iff_getElem?.mp member
  rw [List.getElem?_modify] at found
  obtain ⟨old, held, same⟩ := Option.map_eq_some_iff.mp found
  split at same
  · exact Or.inr ⟨old, List.mem_of_getElem? held, same.symm⟩
  · exact Or.inl (same ▸ List.mem_of_getElem? held)

theorem gcCommit_narrow {lsm : Lsm} {logicalBlock : Nat} (physicalSector : Nat) (old : Option (Nat × Nat)) (new : Nat × Nat)
    (inside : logicalBlock < 2 ^ 64) (narrow : lsm.NarrowMaps) :
    (lsm.gcCommit logicalBlock physicalSector old new).NarrowMaps := by
  have set_ {gcZones : List GcZone} {index slot value : Nat} {change : GcZone → GcZone} (small : value ≤ 2 ^ 64)
      (sets : ∀ gcZone, (change gcZone).logicalBlocks = gcZone.logicalBlocks.set slot value)
      (narrow : ∀ gcZone ∈ gcZones, ∀ entry ∈ gcZone.logicalBlocks, entry ≤ 2 ^ 64) :
      ∀ gcZone ∈ gcZones.modify index change, ∀ entry ∈ gcZone.logicalBlocks, entry ≤ 2 ^ 64 := by
    intro gcZone member entry held
    rcases mem_modify member with same | ⟨before, same, rfl⟩
    · exact narrow gcZone same entry held
    · rw [sets] at held
      rcases List.mem_or_eq_of_mem_set held with kept | rfl
      · exact narrow before same entry kept
      · exact small
  have encoded : encodeLogicalBlock logicalBlock ≤ 2 ^ 64 := inside
  unfold gcCommit NarrowMaps
  cases old with
  | none => exact set_ encoded (fun _ => rfl) narrow
  | some place => exact set_ encoded (fun _ => rfl) (set_ (Nat.zero_le _) (fun _ => rfl) narrow)

theorem gcEntry_narrow {lsm : Lsm} (narrow : lsm.NarrowMaps) (index slot : Nat) : lsm.gcEntry index slot ≤ 2 ^ 64 := by
  unfold gcEntry
  split
  · exact Nat.zero_le _
  next gcZone found =>
    cases held : gcZone.logicalBlocks[slot]? with
    | none => exact Nat.zero_le _
    | some entry => exact narrow gcZone (List.mem_of_getElem? found) entry (List.mem_of_getElem? held)

theorem updateGcBlockLocation_narrow (logicalBlock physicalSector : Nat) (lsm : Lsm) :
    Effect.Ensures (updateGcBlockLocation logicalBlock physicalSector) lsm (fun _ after =>
      logicalBlock < 2 ^ 64 → lsm.NarrowMaps → after.NarrowMaps) := by
  unfold Effect.Ensures updateGcBlockLocation
  repeat' split
  all_goals first | exact fun _ narrow => narrow | exact gcCommit_narrow _ _ _

variable [Kernel]

/-- A step that only takes memory or reads. -/
theorem onWorld_quiet {α : Type} {small : Prop} {program : Effect World Errno α} {machine : Machine}
    (valid : Effect.Ensures program machine.world (fun _ world => machine.world.Quiet world)) :
    Effect.Ensures (onWorld program) machine (fun _ after => Undisturbed small machine after) :=
  onWorld_ensures (valid.mono fun _ _ quiet => ⟨rfl, rfl, quiet, id, fun _ => id⟩)

theorem submitUnlessInjected_spec {machine : Machine} {log : Extent} {limit : Nat} {view : LogView} {index : Nat} {zone : Zone} (failAt attempt : Nat)
    (bytes : Nat → UInt8) (disciplined : Disciplined machine log limit view) (ahead : Ahead machine index zone) :
    Effect.Ensures (submitUnlessInjected failAt attempt zone.writePointer bytes) machine (fun result after =>
      after.lsm = machine.lsm ∧ after.world.geometry = machine.world.geometry ∧ Disciplined after log limit view ∧
      SyncedBut after index ∧ (result = .ok () → Synced after)) := by
  unfold submitUnlessInjected
  split
  next _ => exact ⟨rfl, rfl, disciplined, ahead.others, nofun⟩
  next _ =>
    have extent := ahead.extent disciplined.attached
    refine onWorld_ensures ((blockWrite_spec .data bytes extent ahead.low (ahead.inZone disciplined.attached)).mono ?_)
    rintro result world ⟨landed, recorded, _⟩
    have appended := landed.appended extent
    obtain ⟨bound, _⟩ := List.getElem?_eq_some_iff.mp ahead.found
    have device : world.logDevice = machine.world.logDevice :=
      World.logDevice_of_others appended.geometry appended.fullAtLength recorded.metaWrites_data appended.others
        (by rw [disciplined.attached.logIndex]; exact Nat.ne_of_gt bound)
        fun address above => appended.media address (Or.inr (disciplined.attached.past_data ahead.found above))
    refine ⟨rfl, appended.geometry, ⟨disciplined.attached.onDevice appended.geometry, ?_, disciplined.regular, disciplined.narrow, disciplined.logStart,
      disciplined.logicalSectors, disciplined.of.state, device.trans disciplined.of.device,
      disciplined.of.later.trans recorded.later⟩, ?_, ?_⟩
    · intro write member
      change InOrder world.geometry.zones.dropLast write
      rw [appended.geometry]
      simp only [World.dataWrites, recorded.submitted, decide_true, List.filter_cons_of_pos, List.mem_cons] at member
      rcases member with rfl | old
      · refine ⟨index, zone.extent, ?_, ahead.pointer.symm, ahead.low, ahead.room.fits⟩
        have located := disciplined.attached.dataExtent ahead.found
        exact located
      · exact disciplined.orderly write old
    · intro other held different found room
      exact ((appended.others other different).1).trans (ahead.others other held different found room)
    · intro done
      cases done
      cases landed with
      | committed accepted same => exact ahead.synced same

/-- After a failed write the pointers agree again, or writes stay stopped. -/
theorem recoverWritePointer_spec {machine : Machine} {log : Extent} {limit : Nat} {view : LogView} {index : Nat} {zone : Zone}
    (disciplined : Disciplined machine log limit view) (others : SyncedBut machine index)
    (found : machine.lsm.allocator.zones[index]? = some { zone with writePointer := zone.writePointer + blockSectors })
    (low : zone.startSector ≤ zone.writePointer) (high : zone.writePointer < zone.startSector + zone.length) :
    Effect.Ensures (recoverWritePointer zone.writePointer) machine (fun _ after =>
      Disciplined after log limit view ∧ (after.lsm.writesStopped = false → Synced after)) := by
  apply Effect.Ensures.modify_bind
  have extent : machine.world.geometry.zones[index]? = some zone.extent := by
    have located := disciplined.attached.extent found
    exact located
  have reports : Effect.Ensures (onWorld (zoneReportOne zone.writePointer))
      { machine with lsm := { machine.lsm with writesStopped := true } } (fun result after =>
      (∃ world, after = ⟨{ machine.lsm with writesStopped := true }, world⟩ ∧ machine.world.Quiet world) ∧
      ∀ reported, result = .ok reported → reported = machine.world.report 0 index zone.extent) := by
    refine onWorld_ensures ((zoneReportOne_spec extent low high).mono ?_)
    rintro result world ⟨quiet, rfl | ⟨error, rfl, _⟩⟩
    · exact ⟨⟨world, rfl, quiet⟩, fun reported same => by cases same; rfl⟩
    · exact ⟨⟨world, rfl, quiet⟩, nofun⟩
  refine Effect.Ensures.bind reports ?_ ?_
  · rintro reported after ⟨⟨world, rfl, quiet⟩, truthful⟩
    obtain rfl := truthful reported rfl
    have stopped : Undisturbed (limit < 2 ^ 64) machine ⟨{ machine.lsm with writesStopped := true }, world⟩ :=
      ⟨rfl, rfl, quiet, id, fun _ => id⟩
    have starting : machine.lsm.allocator.zoneStarting zone.startSector = some index := by
      have start := disciplined.attached.zoneStarting_eq found
      exact start
    have resynced := machine.lsm.allocator.resync_spec zone.writePointer (machine.world.report 0 index zone.extent)
    refine onAllocator_bind ?_ ?_
    · intro _ allocator ran
      change machine.lsm.allocator.resync zone.writePointer (machine.world.report 0 index zone.extent) = _ at ran
      rw [ran] at resynced
      rcases resynced with ⟨other, held, _, same, present, accepts, keeps, zones⟩ | ⟨failed, _⟩
      · obtain rfl : index = other := Option.some.inj (starting.symm.trans same)
        cases found.symm.trans present
        have attached := (stopped.disciplined disciplined).attached.onZone keeps.mode keeps.sectorsPerBlock found zones rfl
          (fun writable => (accepts.2.2.1.2.2.2 writable).1)
        refine ⟨⟨attached.onEngine rfl rfl rfl, (stopped.disciplined disciplined).orderly, disciplined.regular, disciplined.narrow,
          disciplined.logStart, disciplined.logicalSectors, (stopped.disciplined disciplined).of.onEngine rfl⟩, fun _ => ?_⟩
        intro other current present room
        change allocator.zones[other]? = _ at present
        change world.writePointer other = _
        rw [quiet.writePointer]
        rw [zones] at present
        by_cases here : other = index
        · subst here
          obtain ⟨bound, _⟩ := List.getElem?_eq_some_iff.mp found
          rw [List.getElem?_set_self bound] at present
          cases present
          rfl
        · rw [List.getElem?_set_ne (Ne.symm here)] at present
          exact others other current here present room
      · cases failed
    · intro error allocator ran
      change machine.lsm.allocator.resync zone.writePointer (machine.world.report 0 index zone.extent) = _ at ran
      rw [ran] at resynced
      rcases resynced with ⟨_, _, ok, _⟩ | ⟨_, same⟩
      · cases ok
      · subst same
        exact ⟨stopped.disciplined disciplined, nofun⟩
  · rintro error after ⟨⟨world, rfl, quiet⟩, _⟩
    have stopped : Undisturbed (limit < 2 ^ 64) machine ⟨{ machine.lsm with writesStopped := true }, world⟩ :=
      ⟨rfl, rfl, quiet, id, fun _ => id⟩
    exact ⟨stopped.disciplined disciplined, nofun⟩

private theorem putActive_sound (generations : Generations) (threshold logicalBlock physicalSector : Nat) (world : World) :
    Effect.Ensures (generations.putActive threshold logicalBlock physicalSector) world (fun result _ =>
      ∀ tables, result = .ok tables →
        logicalBlock < 2 ^ 64 → physicalSector < 2 ^ 64 → generations.Sound → tables.Sound) := by
  intro tables done block sector sound
  obtain ⟨_, ⟨put, same, updates⟩ | ⟨error, same, _⟩⟩ := Generations.putActive_spec threshold world sound block sector
  · cases done.symm.trans same
    exact updates.1
  · cases done.symm.trans same

private theorem putActive_undisturbed {small : Prop} (logicalBlock physicalSector : Nat) {machine : Machine}
    (regular : ∀ table ∈ machine.lsm.residents, table.Regular)
    (fits : small → logicalBlock < 2 ^ 64 ∧ physicalSector < 2 ^ 64) :
    Effect.Ensures (putActive logicalBlock physicalSector) machine (fun _ after => Undisturbed small machine after) := by
  apply Effect.Ensures.get_bind
  have tablesRegular : machine.lsm.tables.Regular := fun table member => regular table (List.mem_append_left _ member)
  have stored := (Generations.putActive_regular machine.lsm.memtableThreshold logicalBlock physicalSector machine.world
    tablesRegular).and (putActive_sound machine.lsm.tables machine.lsm.memtableThreshold logicalBlock physicalSector
      machine.world)
  have put : Effect.Ensures
      (onWorld (machine.lsm.tables.putActive machine.lsm.memtableThreshold logicalBlock physicalSector)) machine
      (fun result after => Undisturbed small machine after ∧ after.lsm = machine.lsm ∧
        ∀ tables, result = .ok tables → tables.Regular ∧
          (logicalBlock < 2 ^ 64 → physicalSector < 2 ^ 64 → machine.lsm.tables.Sound → tables.Sound)) :=
    onWorld_ensures (stored.mono fun result world spec =>
      ⟨⟨rfl, rfl, spec.1.1, id, fun _ => id⟩, rfl, fun tables done => ⟨spec.1.2 tables done, spec.2 tables done⟩⟩)
  refine Effect.Ensures.bind put ?_ (fun error after spec => spec.1)
  rintro tables after ⟨undisturbed, same, putTables⟩
  obtain ⟨putRegular, putSound⟩ := putTables tables rfl
  refine undisturbed.trans ⟨rfl, rfl, .refl _, fun _ table member => ?_, fun inside narrow => ⟨fun table member => ?_, narrow.2⟩⟩
  · rcases List.mem_append.mp member with new | old
    · exact putRegular table new
    · refine regular table (List.mem_append_right _ ?_)
      rw [← same]
      exact old
  · rw [same] at narrow
    rcases List.mem_append.mp member with new | old
    · exact putSound (fits inside).1 (fits inside).2 (fun table member => narrow.1 table (List.mem_append_left _ member)) table new
    · refine narrow.1 table (List.mem_append_right _ ?_)
      rw [← same]
      exact old

theorem publishWrite_undisturbed {small : Prop} (logicalSector physicalSector : Nat) {machine : Machine}
    (regular : ∀ table ∈ machine.lsm.residents, table.Regular)
    (fits : small → logicalSector / blockSectors < 2 ^ 64 ∧ physicalSector < 2 ^ 64) :
    Effect.Ensures (publishWrite logicalSector physicalSector) machine (fun _ after => Undisturbed small machine after) := by
  refine Effect.Ensures.bind (onWorld_quiet ((allocate_quiet machine.world).mono fun _ _ spec => spec.1)) ?_
    (fun error after undisturbed => undisturbed)
  intro _ reserved undisturbed
  refine Effect.Ensures.bind (putActive_undisturbed _ physicalSector (undisturbed.regular regular) fits) ?_
    (fun error after more => undisturbed.trans more)
  intro _ put more
  have indexed : Effect.Ensures (onLsm (updateGcBlockLocation (logicalSector / blockSectors) physicalSector)) put
      (fun _ after => Undisturbed small machine after) := by
    refine Effect.Ensures.zoom ((updateGcBlockLocation_frame _ physicalSector put.lsm).and
      (updateGcBlockLocation_narrow _ physicalSector put.lsm)) ?_
    rintro result lsm ⟨⟨allocator, state, tables, flushing⟩, maps⟩
    refine (undisturbed.trans more).trans ⟨allocator, state, .refl _, fun regular => ?_, fun inside narrow => ⟨?_, ?_⟩⟩
    · simpa only [residents, tables, flushing] using regular
    · simpa only [residents, tables, flushing] using narrow.1
    · exact maps (fits inside).1 narrow.2
  refine Effect.Ensures.attempt_bind indexed ?_
  intro result after kept
  cases result with
  | error error => exact kept.trans ⟨rfl, rfl, .refl _, id, fun _ => id⟩
  | ok value =>
    refine kept.trans ?_
    change Undisturbed small after { after with lsm := maybeQueueFlush after.lsm }
    unfold maybeQueueFlush
    split <;> exact ⟨rfl, rfl, .refl _, id, fun _ => id⟩

section Collect
variable {log : Extent} {limit : Nat} {view : LogView}

private def InStep (log : Extent) (limit : Nat) (view : LogView) (result : Except Errno Unit) (machine : Machine) : Prop :=
  Disciplined machine log limit view ∧ (result = .ok () → Synced machine)

/-- Moves change neither the zones nor which of them is the reserve. -/
private structure Fixed (before after : Machine) : Prop where
  geometry : after.world.geometry = before.world.geometry
  reserveZone : after.lsm.allocator.reserveZone = before.lsm.allocator.reserveZone

private theorem gcRelocateBlock_inStep (params : Params) {logicalBlock : Nat} (sourceSector : Nat) {machine : Machine}
    (disciplined : Disciplined machine log limit view) (synced : Synced machine) (block : limit < 2 ^ 64 → logicalBlock < 2 ^ 64) :
    Effect.Ensures (gcRelocateBlock params logicalBlock sourceSector) machine (fun result after =>
      InStep log limit view result after ∧ Fixed machine after) := by
  refine Effect.Ensures.bind (onWorld_quiet ((blockRead_spec .data sourceSector machine.world).mono fun _ _ spec => spec.1))
    ?_ (fun error after read => ⟨⟨read.disciplined disciplined, nofun⟩, read.quiet.geometry, by rw [read.allocator]⟩)
  intro buffer after read
  have disciplined := read.disciplined disciplined
  have synced := read.synced synced
  refine onAllocator_bind ?_ ?_
  · intro destination allocator ran
    have spec := after.lsm.allocator.allocGc_spec
    rw [ran] at spec
    rcases spec with ⟨zone, same, takes⟩ | ⟨_, same, _⟩
    · cases same
      have ahead := synced.ahead disciplined.attached takes
      have taken : Disciplined { after with lsm.allocator := allocator } log limit view :=
        ⟨disciplined.attached.onTake takes, disciplined.orderly, disciplined.regular, disciplined.narrow, disciplined.logStart,
          disciplined.logicalSectors, disciplined.of.onEngine rfl⟩
      have counted : Disciplined { after with lsm := { after.lsm with
          allocator := allocator
          gcMoveWriteAttempts := after.lsm.gcMoveWriteAttempts + 1 } } log limit view :=
        ⟨taken.attached.onEngine rfl rfl rfl, taken.orderly, taken.regular, taken.narrow, taken.logStart, taken.logicalSectors,
          taken.of.onEngine rfl⟩
      apply Effect.Ensures.modify_bind
      apply Effect.Ensures.get_bind
      have reserve : allocator.reserveZone = machine.lsm.allocator.reserveZone := by
        rw [takes.reserveZone, read.allocator]
      refine Effect.Ensures.bind (submitUnlessInjected_spec _ _ buffer counted
        ⟨ahead.found, ahead.room, ahead.low, ahead.pointer, ahead.others⟩) ?_ ?_
      · rintro _ written ⟨same, geometry, disciplined, _, synced⟩
        have geometry : written.world.geometry = machine.world.geometry := geometry.trans read.quiet.geometry
        have reserve : written.lsm.allocator.reserveZone = machine.lsm.allocator.reserveZone := by rw [same]; exact reserve
        have synced := synced rfl
        have fits (inside : limit < 2 ^ 64) :
            logicalBlock * blockSectors / blockSectors < 2 ^ 64 ∧ zone.writePointer < 2 ^ 64 := by
          rw [Nat.mul_div_cancel _ (by decide)]
          exact ⟨block inside, ahead.small taken.attached⟩
        refine Effect.Ensures.bind (publishWrite_undisturbed _ _ disciplined.regular fits) ?_ ?_
        · intro _ published undisturbed
          have moved : Undisturbed (limit < 2 ^ 64) written
              { published with lsm := { published.lsm with gcMoved := published.lsm.gcMoved + 1 } } :=
            undisturbed.trans ⟨rfl, rfl, .refl _, id, fun _ => id⟩
          exact ⟨⟨moved.disciplined disciplined, fun _ => moved.synced synced⟩, moved.quiet.geometry.trans geometry,
            (congrArg Allocator.reserveZone moved.allocator).trans reserve⟩
        · intro error published undisturbed
          exact ⟨⟨undisturbed.disciplined disciplined, nofun⟩, undisturbed.quiet.geometry.trans geometry, by
            rw [undisturbed.allocator, reserve]⟩
      · rintro error written ⟨same, geometry, disciplined, _, _⟩
        exact ⟨⟨disciplined, nofun⟩, geometry.trans read.quiet.geometry, by rw [same]; exact reserve⟩
    · cases same
  · intro error allocator ran
    have spec := after.lsm.allocator.allocGc_spec
    rw [ran] at spec
    rcases spec with ⟨_, same, _⟩ | ⟨_, _, same, _⟩
    · cases same
    · subst same
      exact ⟨⟨disciplined, nofun⟩, read.quiet.geometry, by rw [read.allocator]⟩

private theorem gcMoveSlots_inStep (params : Params) (id start : Nat) (slots : List Nat) {machine : Machine}
    (disciplined : Disciplined machine log limit view) (synced : Synced machine) :
    Effect.Ensures (gcMoveSlots params id start slots) machine (fun result after =>
      InStep log limit view result after ∧ Fixed machine after) := by
  induction slots generalizing machine with
  | nil => exact ⟨⟨disciplined, fun _ => synced⟩, rfl, rfl⟩
  | cons slot slots ih =>
    rw [gcMoveSlots]
    apply Effect.Ensures.get_bind
    dsimp only
    split
    · exact ih disciplined synced
    next live =>
      have block (inside : limit < 2 ^ 64) : decodeLogicalBlock (machine.lsm.gcEntry id slot) < 2 ^ 64 := by
        have small := gcEntry_narrow (disciplined.narrow inside).2 id slot
        simp only [decodeLogicalBlock]
        omega
      refine Effect.Ensures.bind (gcRelocateBlock_inStep params _ disciplined synced block) ?_ (fun error after spec => spec)
      rintro _ after ⟨⟨disciplined, synced⟩, fixed⟩
      refine (ih disciplined (synced rfl)).mono ?_
      rintro result final ⟨inStep, fixed'⟩
      exact ⟨inStep, fixed'.geometry.trans fixed.geometry, fixed'.reserveZone.trans fixed.reserveZone⟩

private theorem gcCollect_inStep (params : Params) {id : Nat} {victim : Zone} {machine : Machine}
    (disciplined : Disciplined machine log limit view) (synced : Synced machine)
    (found : machine.lsm.allocator.zones[id]? = some victim) (apart : id ≠ machine.lsm.allocator.reserveZone) :
    Effect.Ensures (gcCollect params id victim) machine (InStep log limit view) := by
  have extent := disciplined.attached.extent found
  have chosen := disciplined.attached.dataExtent found
  apply Effect.Ensures.get_bind
  refine Effect.Ensures.bind (gcMoveSlots_inStep params id victim.startSector _ disciplined synced) ?_
    (fun error after spec => spec.1)
  rintro _ moved ⟨⟨disciplined, synced⟩, fixed⟩
  have synced := synced rfl
  apply Effect.Ensures.get_bind
  split
  · exact ⟨disciplined, (by rintro ⟨⟩)⟩
  apply Effect.Ensures.modify_bind
  apply Effect.Ensures.get_bind
  have counted : Disciplined { moved with lsm := { moved.lsm with
      gcZoneResetAttempts := moved.lsm.gcZoneResetAttempts + 1 } } log limit view :=
    ⟨disciplined.attached.onEngine rfl rfl rfl, disciplined.orderly, disciplined.regular, disciplined.narrow, disciplined.logStart,
      disciplined.logicalSectors, disciplined.of.onEngine rfl⟩
  split
  · exact ⟨counted, (by rintro ⟨⟩)⟩
  -- The zone is where it was when it was chosen.
  obtain ⟨zone, held, same⟩ : ∃ zone, moved.lsm.allocator.zones[id]? = some zone ∧ zone.extent = victim.extent := by
    rw [← fixed.geometry, disciplined.attached.dataExtents, List.getElem?_map, Option.map_eq_some_iff] at chosen
    exact chosen
  have located : moved.world.geometry.zones[id]? = some victim.extent := by rw [fixed.geometry, extent]
  have long : 0 < victim.extent.len := by
    rw [← same]
    exact disciplined.attached.positive zone (List.mem_of_getElem? held)
  have reset : Effect.Ensures (onWorld (zoneReset victim.startSector)) { moved with lsm := { moved.lsm with
      gcZoneResetAttempts := moved.lsm.gcZoneResetAttempts + 1 } } (fun result after =>
      Disciplined after log limit view ∧ after.lsm.allocator = moved.lsm.allocator ∧
      (result = .ok () → after.world.writePointer id = zone.startSector ∧ SyncedBut after id)) := by
    refine onWorld_ensures ((zoneReset_spec located long).mono ?_)
    rintro result world ⟨later, submitted, ⟨rfl, device⟩ | ⟨error, rfl, device, _⟩⟩
    · obtain ⟨bound, _⟩ := List.getElem?_eq_some_iff.mp held
      have untouched : world.logDevice = moved.world.logDevice := by
        refine @World.logDevice_of_others moved.world world id device.geometry device.fullAtLength
          (by rw [World.metaWrites, submitted, World.metaWrites]) (fun other different => ?_)
          (by rw [disciplined.attached.logIndex]; exact Nat.ne_of_gt bound) (fun address above => ?_)
        · rw [device.writePointer, device.condition]
          simp [World.setZone, different]
        · have past := disciplined.attached.past_data held above
          rw [same, Nat.add_mul] at past
          rw [device.media]
          simp only [World.setZone]
          exact overlay_outside (Or.inr past)
      refine ⟨⟨counted.attached.onDevice device.geometry, counted.orderly.of_same device.geometry ?_, counted.regular, counted.narrow,
        counted.logStart, counted.logicalSectors, counted.of.state, untouched.trans counted.of.device,
        counted.of.later.trans later⟩, rfl, fun _ => ⟨?_, ?_⟩⟩
      · rw [World.dataWrites, submitted, World.dataWrites]
      · change world.writePointer id = _
        rw [device.writePointer]
        simp only [World.setZone, ite_true, ← same]
        rfl
      · intro other current different present room
        change world.writePointer other = _
        rw [device.writePointer]
        simp only [World.setZone, different, ite_false]
        exact synced other current present room
    · refine ⟨⟨counted.attached.onDevice device.geometry, counted.orderly.of_same device.geometry ?_, counted.regular, counted.narrow,
        counted.logStart, counted.logicalSectors, counted.of.state,
        (device.logDevice (by rw [World.metaWrites, submitted, World.metaWrites])).trans counted.of.device,
        counted.of.later.trans later⟩, rfl, (by rintro ⟨⟩)⟩
      rw [World.dataWrites, submitted, World.dataWrites]
  refine Effect.Ensures.bind reset ?_ (fun error after spec => ⟨spec.1, (by rintro ⟨⟩)⟩)
  rintro _ emptied ⟨disciplined, allocator, restarted⟩
  obtain ⟨pointer, others⟩ := restarted rfl
  apply Effect.Ensures.modify_bind
  have rotated : emptied.lsm.allocator.setReserveAfterReset id = (.ok (), { emptied.lsm.allocator with
      zones := emptied.lsm.allocator.zones.set id { zone with writePointer := zone.startSector, condition := .empty }
      reserveZone := id }) := by
    rw [allocator, Allocator.setReserveAfterReset, if_neg (by rw [fixed.reserveZone]; exact apart), held]
  refine onAllocator_bind ?_ ?_
  · intro _ rotatedAllocator ran
    cases rotated.symm.trans ran
    have found : emptied.lsm.allocator.zones[id]? = some zone := by rw [allocator, held]
    have attached : Attached { emptied with lsm.allocator := { emptied.lsm.allocator with
        zones := emptied.lsm.allocator.zones.set id { zone with writePointer := zone.startSector, condition := .empty }
        reserveZone := id } } log :=
      disciplined.attached.onZone rfl rfl found rfl rfl (fun _ => Nat.le_refl _)
    refine ⟨⟨attached.onEngine rfl rfl rfl, disciplined.orderly, disciplined.regular, disciplined.narrow, disciplined.logStart,
      disciplined.logicalSectors, disciplined.of.onEngine rfl⟩, fun _ => ?_⟩
    intro other current present room
    change (emptied.lsm.allocator.zones.set id _)[other]? = _ at present
    change emptied.world.writePointer other = _
    by_cases here : other = id
    · subst here
      obtain ⟨bound, _⟩ := List.getElem?_eq_some_iff.mp found
      rw [List.getElem?_set_self bound] at present
      cases present
      exact pointer
    · rw [List.getElem?_set_ne (Ne.symm here)] at present
      exact others other current here present room
  · intro error rotatedAllocator ran
    cases rotated.symm.trans ran

end Collect

/-- Between two requests: the pointers agree unless writes are stopped. -/
def Settled (machine : Machine) (log : Extent) (limit : Nat) (view : LogView) : Prop :=
  Disciplined machine log limit view ∧ (machine.lsm.writesStopped = false → Synced machine)

variable {log : Extent} {limit : Nat} {view : LogView}

private theorem gcClean_settled (params : Params) (id : Nat) {machine : Machine} (disciplined : Disciplined machine log limit view)
    (synced : Synced machine) :
    Effect.Ensures (gcClean params id) machine (fun result after =>
      Settled after log limit view ∧ (result = .ok () → Synced after)) := by
  apply Effect.Ensures.get_bind
  refine Effect.Ensures.ofExcept_bind ?_ (fun error _ => ⟨⟨disciplined, fun _ => synced⟩, nofun⟩)
  · intro value valid
    have apart : id ≠ machine.lsm.allocator.reserveZone := by
      intro same
      unfold gcValidateVictim at valid
      split at valid
      · rw [if_pos same] at valid
        cases valid
      · cases valid
    refine Effect.Ensures.bind (onWorld_quiet ((allocate_quiet machine.world).mono fun _ _ spec => spec.1)) ?_
      (fun error after kept => ⟨⟨kept.disciplined disciplined, fun _ => kept.synced synced⟩, nofun⟩)
    intro _ buffered kept
    split
    · exact ⟨⟨kept.disciplined disciplined, fun _ => kept.synced synced⟩, nofun⟩
    · next victim found =>
      rw [← kept.allocator] at found apart
      refine Effect.Ensures.attempt_bind
        (gcCollect_inStep params (kept.disciplined disciplined) (kept.synced synced) found apart) ?_
      rintro result after ⟨disciplined, synced⟩
      cases result with
      | ok value => exact ⟨⟨disciplined, fun _ => synced rfl⟩, fun _ => synced rfl⟩
      | error error =>
        exact ⟨⟨⟨disciplined.attached.onEngine rfl rfl rfl, disciplined.orderly, disciplined.regular, disciplined.narrow, disciplined.logStart,
          disciplined.logicalSectors, disciplined.of.onEngine rfl⟩, nofun⟩, nofun⟩

private theorem runGcIfNeeded_settled (params : Params) {machine : Machine} (disciplined : Disciplined machine log limit view)
    (synced : Synced machine) :
    Effect.Ensures (runGcIfNeeded params) machine (fun result after =>
      Settled after log limit view ∧ (result = .ok () → Synced after)) := by
  apply Effect.Ensures.get_bind
  split
  · exact ⟨⟨disciplined, fun _ => synced⟩, nofun⟩
  · dsimp only
    split
    · exact ⟨⟨disciplined, fun _ => synced⟩, fun _ => synced⟩
    · exact Effect.Ensures.ofExcept_bind (fun victim _ => gcClean_settled params victim disciplined synced)
        (fun error _ => ⟨⟨disciplined, fun _ => synced⟩, nofun⟩)

/-- One append, with whatever fails in it. -/
theorem appendWrite_settled (params : Params) {logicalSector : Nat} (bytes : Nat → UInt8) {machine : Machine}
    (settled : Settled machine log limit view) (inside : logicalSector < limit) :
    Effect.Ensures (appendWrite params logicalSector bytes) machine (fun _ after => Settled after log limit view) := by
  obtain ⟨disciplined, running⟩ := settled
  apply Effect.Ensures.get_bind
  cases stopped : machine.lsm.writesStopped with
  | true => exact ⟨disciplined, running⟩
  | false =>
    refine Effect.Ensures.bind (runGcIfNeeded_settled params disciplined (running stopped)) ?_ (fun error after spec => spec.1)
    rintro _ collected ⟨⟨disciplined, _⟩, synced⟩
    have synced := synced rfl
    refine onAllocator_bind ?_ ?_
    · intro sector allocator ran
      have spec := Allocator.alloc_spec disciplined.attached.zoned
      rw [ran] at spec
      rcases spec with ⟨index, zone, same, _, takes⟩ | ⟨same, _⟩
      · cases same
        have ahead := synced.ahead disciplined.attached takes
        have taken := disciplined.attached.onTake takes
        apply Effect.Ensures.modify_bind
        apply Effect.Ensures.get_bind
        have counted : Disciplined { collected with lsm := { collected.lsm with
            allocator := allocator
            dataWriteAttempts := collected.lsm.dataWriteAttempts + 1 } } log limit view :=
          ⟨taken.onEngine rfl rfl rfl, disciplined.orderly, disciplined.regular, disciplined.narrow, disciplined.logStart,
            disciplined.logicalSectors, disciplined.of.onEngine rfl⟩
        refine Effect.Ensures.attempt_bind (submitUnlessInjected_spec _ _ bytes counted
          ⟨ahead.found, ahead.room, ahead.low, ahead.pointer, ahead.others⟩) ?_
        rintro result written ⟨same, _, disciplined, others, synced⟩
        cases result with
        | error error =>
          refine Effect.Ensures.attempt_bind (recoverWritePointer_spec disciplined others ?_ ahead.low ?_) ?_
          · rw [same]
            exact ahead.found
          · exact ahead.inZone taken
          · intro result recovered spec
            exact spec
        | ok value =>
          have fits (small : limit < 2 ^ 64) : logicalSector / blockSectors < 2 ^ 64 ∧ zone.writePointer < 2 ^ 64 :=
            ⟨(Nat.div_le_self _ _).trans_lt (inside.trans small), ahead.small taken⟩
          refine (publishWrite_undisturbed logicalSector zone.writePointer disciplined.regular fits).mono ?_
          intro result published undisturbed
          exact ⟨undisturbed.disciplined disciplined, fun _ => undisturbed.synced (synced rfl)⟩
      · cases same
    · intro error allocator ran
      have spec := Allocator.alloc_spec disciplined.attached.zoned
      rw [ran] at spec
      rcases spec with ⟨_, _, same, _⟩ | ⟨_, keeps, zones, _⟩
      · cases same
      · refine ⟨⟨disciplined.attached.onSearch keeps zones, disciplined.orderly, disciplined.regular, disciplined.narrow, disciplined.logStart,
          disciplined.logicalSectors, disciplined.of.onEngine rfl⟩, fun _ => ?_⟩
        intro index zone found room
        exact synced index zone (zones ▸ found) room

end Lsm
end ZnsBase
