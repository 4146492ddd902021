import ZnsBase.Library.Snapshots
import ZnsBase.Proofs.Collection
import ZnsBase.Proofs.FlushPath
import ZnsBase.Proofs.Lifting

/-! What the tables that no longer change say about the past. As long as no zone is
reset, every block they name keeps its bytes, so the frozen tables of an engine
show the target as it was when the newest of them was frozen. -/

namespace ZnsBase
open Library

namespace Lsm

/-- A whole block of a data zone that the allocator has given out. -/
def Sealed (lsm : Lsm) (sector : Nat) : Prop := ∃ index slot, lsm.SlotAt index slot sector ∧ lsm.Written index slot

def blockAt (world : World) (sector : Nat) : Fin blockBytes → UInt8 := fun byte => world.block sector byte

/-- The bytes of a target from its blocks, and back. -/
def flat (moment : Nat → Fin blockBytes → UInt8) (address : Nat) : UInt8 :=
  moment (address / blockBytes) ⟨address % blockBytes, Nat.mod_lt _ (by decide)⟩

def blocksOf (contents : Nat → UInt8) (logicalBlock : Nat) : Fin blockBytes → UInt8 := fun byte =>
  contents (logicalBlock * blockBytes + byte)

theorem flat_blocksOf (contents : Nat → UInt8) : flat (blocksOf contents) = contents := by
  funext address
  exact congrArg contents (Nat.div_add_mod' address blockBytes)

/-- The tables that no request changes any more, newest first. -/
def frozen (machine : Machine) : List (List (Nat × Nat)) :=
  machine.lsm.tables.immutable.toList.map Memtable.pairs ++ olderLayers machine

theorem layers_eq (machine : Machine) : layers machine = machine.lsm.tables.active.pairs :: frozen machine := by
  simp [layers, frozen, olderLayers, residents, Generations.tables]

/-- The frozen tables with at least `base` layers each show some earlier contents. -/
def Remembers (machine : Machine) (base : Nat) (past : (Nat → UInt8) → Prop) : Prop :=
  Layers.Chronicle machine.lsm.Sealed (blockAt machine.world) (fun _ => 0) base (frozen machine) fun moment => past (flat moment)

/-- Blocks once given out stay given out and keep their bytes. -/
def Retains (before after : Machine) : Prop :=
  ∀ sector, before.lsm.Sealed sector → after.lsm.Sealed sector ∧ blockAt after.world sector = blockAt before.world sector

theorem Retains.trans {first second third : Machine} (earlier : Retains first second) (later : Retains second third) :
    Retains first third := by
  intro sector held
  obtain ⟨kept, same⟩ := earlier sector held
  obtain ⟨still, again⟩ := later sector kept
  exact ⟨still, again.trans same⟩

theorem Retains.of_same {before after : Machine} (zones : after.lsm.allocator.zones = before.lsm.allocator.zones)
    (media : after.world.media = before.world.media) : Retains before after := by
  rintro sector ⟨index, slot, place, written⟩
  refine ⟨⟨index, slot, ?_, ?_⟩, ?_⟩
  · simpa only [SlotAt, zones] using place
  · simpa only [Written, zones] using written
  · funext byte
    simp only [blockAt, World.block, media]

theorem Remembers.keep {before after : Machine} {base : Nat} {past : (Nat → UInt8) → Prop} (remembers : Remembers before base past)
    (retains : Retains before after) (same : frozen after = frozen before) : Remembers after base past := by
  unfold Remembers
  rw [same]
  exact Layers.Chronicle.keep remembers retains

section Coherent
variable [Kernel] {machine after : Machine} {log : Extent} {limit : Nat} {lossless : Prop}
  (coherent : Coherent machine log limit lossless)
include coherent

/-- The layers of an engine show the target. -/
theorem Coherent.shows (trusted : lossless) :
    Layers.Shows machine.lsm.Sealed (blockAt machine.world) (fun _ => 0) (layers machine) (blocksOf (disk machine)) := by
  refine ⟨fun logicalBlock => ?_, fun logicalBlock sector held => ?_, fun logicalBlock other sector held held' => ?_⟩
  · funext byte
    have whole : (logicalBlock * blockBytes + byte) / blockBytes = logicalBlock := by
      rw [Nat.mul_comm, Nat.mul_add_div (by decide), Nat.div_eq_of_lt byte.isLt, Nat.add_zero]
    have part : (logicalBlock * blockBytes + byte) % blockBytes = byte := by
      rw [Nat.mul_comm, Nat.mul_add_mod, Nat.mod_eq_of_lt byte.isLt]
    unfold blocksOf disk
    rw [whole, part, mapping, Layers.view]
    cases Layers.resolve (layers machine) logicalBlock <;> rfl
  · obtain ⟨index, slot, place, entry⟩ := coherent.located trusted held
    exact ⟨index, slot, place, coherent.indexed.written index slot (by rw [entry]; exact encodeLogicalBlock_ne_zero _)⟩
  · have latest (block : Nat) (found : mapping machine block = some sector) :
        machine.lsm.latest block = some (encodePhysicalSector sector) := by
      rw [coherent.agrees trusted, found]
      rfl
    exact coherent.indexed.block_unique coherent.apart (latest _ held) (latest _ held')

/-- One zone moves on, and only bytes from its old write pointer on change. -/
theorem Coherent.retains {index : Nat} {zone updated : Zone} (found : machine.lsm.allocator.zones[index]? = some zone)
    (room : zone.CanAppend blockSectors) (zones : after.lsm.allocator.zones = machine.lsm.allocator.zones.set index updated)
    (extent : updated.extent = zone.extent) (forward : zone.writePointer ≤ updated.writePointer)
    (media : ∀ address, address < zone.writePointer * sectorBytes ∨ (zone.startSector + zone.length) * sectorBytes ≤ address →
      after.world.media address = machine.world.media address) : Retains machine after := by
  have size : blockSectors = 8 := rfl
  have bytes : blockBytes = 8 * sectorBytes := rfl
  obtain ⟨start, length, capacity⟩ : updated.startSector = zone.startSector ∧ updated.length = zone.length ∧
      updated.capacity = zone.capacity := by simpa only [Zone.extent, Extent.mk.injEq] using extent
  obtain ⟨bound, _⟩ := List.getElem?_eq_some_iff.mp found
  have aligned := coherent.aligned zone (List.mem_of_getElem? found) room
  have placed := coherent.attached.placed zone (List.mem_of_getElem? found) room.isWritable
  rintro sector ⟨other, slot, ⟨held, present, same, inside⟩, ⟨held', present', inside', written⟩⟩
  cases present.symm.trans present'
  by_cases here : other = index
  · subst here
    cases found.symm.trans present
    have below : zone.startSector + slot * blockSectors < zone.writePointer := written.resolve_right fun full => room.1 full
    have current : after.lsm.allocator.zones[other]? = some updated := by rw [zones, List.getElem?_set_self bound]
    refine ⟨⟨other, slot, ⟨updated, current, by rw [start, same], by rw [capacity]; exact inside⟩,
      ⟨updated, current, by rw [capacity]; exact inside, Or.inl ?_⟩⟩, ?_⟩
    · rw [start]
      exact below.trans_le forward
    · funext byte
      refine media _ (Or.inl ?_)
      have order : (sector + 8) * sectorBytes ≤ zone.writePointer * sectorBytes := by
        refine Nat.mul_le_mul_right _ ?_
        rw [size] at same below aligned
        omega
      rw [Nat.add_mul, ← bytes] at order
      exact (Nat.add_lt_add_left byte.isLt _).trans_le order
  · have current : after.lsm.allocator.zones[other]? = some held := by
      rw [zones, List.getElem?_set_ne (Ne.symm here)]
      exact present
    refine ⟨⟨other, slot, ⟨held, current, same, inside⟩, ⟨held, current, inside, written⟩⟩, ?_⟩
    funext byte
    refine media _ ?_
    have narrow : held.capacity ≤ held.length := Geometry.capacity_le_len (coherent.attached.extent present)
    rw [size] at same inside
    rcases Nat.lt_or_gt_of_ne here with less | more
    · have apart := Geometry.apart (coherent.attached.extent present) (coherent.attached.extent found) less
      simp only [Zone.extent] at apart
      have order : (sector + 8) * sectorBytes ≤ zone.writePointer * sectorBytes := Nat.mul_le_mul_right _ (by omega)
      rw [Nat.add_mul, ← bytes] at order
      exact Or.inl ((Nat.add_lt_add_left byte.isLt _).trans_le order)
    · have apart := Geometry.apart (coherent.attached.extent found) (coherent.attached.extent present) more
      simp only [Zone.extent] at apart
      have order : (zone.startSector + zone.length) * sectorBytes ≤ sector * sectorBytes := Nat.mul_le_mul_right _ (by omega)
      exact Or.inr (order.trans (Nat.le_add_right _ _))

/-- Requests leave the log and the table on its way there alone. -/
theorem Coherent.olderLayers_eq (trusted : lossless) (beside : Beside machine after log) :
    olderLayers after = olderLayers machine := by
  have tables : after.lsm.sstables.map (Sstable.entries after.world.media) =
      machine.lsm.sstables.map (Sstable.entries machine.world.media) := by
    rw [beside.sstables]
    refine List.map_congr_left fun sst member => ?_
    obtain ⟨⟨memtable, stored, _⟩, low, _⟩ := coherent.stored trusted sst member
    have kept := stored.frame fun address above _ =>
      beside.media address ((Nat.mul_le_mul_right _ low).trans above)
    rw [kept.entries_eq, stored.entries_eq]
  rw [olderLayers, olderLayers, beside.flushing, tables]

theorem Coherent.frozen_eq (trusted : lossless) (beside : Beside machine after log)
    (immutable : after.lsm.tables.immutable = machine.lsm.tables.immutable) : frozen after = frozen machine := by
  rw [frozen, frozen, coherent.olderLayers_eq trusted beside, immutable]

end Coherent

/-- Without a reset in between, what was remembered still is, and the contents
before and after are all that is new. -/
def Passes (before after : Machine) : Prop :=
  before.lsm.gcResets ≤ after.lsm.gcResets ∧ (after.lsm.gcResets = before.lsm.gcResets →
    ∀ base past, past (disk before) → past (disk after) → Remembers before base past → Remembers after base past)

theorem Passes.of_retains {before after : Machine} (gcResets : after.lsm.gcResets = before.lsm.gcResets)
    (retains : Retains before after) (same : frozen after = frozen before) : Passes before after :=
  ⟨gcResets.ge, fun _ _ _ _ _ remembers => remembers.keep retains same⟩

theorem Passes.trans {first second third : Machine} (earlier : Passes first second) (later : Passes second third)
    (between : disk second = disk first ∨ disk second = disk third) : Passes first third := by
  refine ⟨earlier.1.trans later.1, fun same base past old new remembers => ?_⟩
  have order := earlier.1
  have order' := later.1
  have middle : past (disk second) := by
    rcases between with unchanged | done
    · rw [unchanged]
      exact old
    · rw [done]
      exact new
  exact later.2 (by omega) base past middle new (earlier.2 (by omega) base past old middle remembers)

/-- A reset forgets. -/
theorem Passes.of_reset {before after : Machine} (more : before.lsm.gcResets < after.lsm.gcResets) : Passes before after :=
  ⟨more.le, fun same => absurd same more.ne'⟩

section Freeze
variable [Kernel]

/-- A write freezes the active table or leaves the immutable one alone. -/
theorem putActive_freezes (tables : Generations) (threshold logicalBlock physicalSector : Nat) (world : World) :
    Effect.Ensures (tables.putActive threshold logicalBlock physicalSector) world (fun result _ =>
      ∀ put, result = .ok put → put.immutable = tables.immutable ∨ put.active.pairs = []) := by
  unfold Generations.putActive Generations.putActiveWithOps
  split
  · rintro put ⟨⟩
  refine Effect.Ensures.bind (tables.active.put_spec logicalBlock physicalSector world) (fun active after _ => ?_) fun _ _ _ => nofun
  split
  · rintro put same
    cases same
    exact Or.inl rfl
  split
  · refine Effect.Ensures.attempt_bind (Memtable.create_spec after) fun result created spec => ?_
    cases result with
    | error error => exact fun put same => by cases same; exact Or.inl rfl
    | ok empty =>
      intro put same
      cases same
      rw [spec.2 empty rfl]
      exact Or.inr rfl
  next immutable _ =>
    refine Effect.Ensures.attempt_bind (Memtable.compact_regular immutable active after) fun result merged _ => ?_
    cases result with
    | error error => exact fun put same => by cases same; exact Or.inl rfl
    | ok both =>
      refine Effect.Ensures.attempt_bind (Memtable.create_spec merged) fun result created spec => ?_
      cases result with
      | error error => exact fun put same => by cases same; exact Or.inl rfl
      | ok empty =>
        intro put same
        cases same
        rw [spec.2 empty rfl]
        exact Or.inr rfl

theorem publishWrite_freezes (logicalSector physicalSector : Nat) (machine : Machine) :
    Effect.Ensures (publishWrite logicalSector physicalSector) machine (fun _ after =>
      after.lsm.tables.immutable = machine.lsm.tables.immutable ∨ after.lsm.tables.active.pairs = []) := by
  have granted : Effect.Ensures (onWorld allocate) machine (fun _ after => after.lsm = machine.lsm) := rfl
  refine Effect.Ensures.bind granted (fun _ granted same => ?_) fun _ _ same => Or.inl (by rw [same])
  have put : Effect.Ensures (putActive (logicalSector / blockSectors) physicalSector) granted (fun _ after =>
      after.lsm.tables.immutable = machine.lsm.tables.immutable ∨ after.lsm.tables.active.pairs = []) := by
    apply Effect.Ensures.get_bind
    have stored : Effect.Ensures (onWorld (granted.lsm.tables.putActive granted.lsm.memtableThreshold
        (logicalSector / blockSectors) physicalSector)) granted (fun result after => after.lsm = granted.lsm ∧
        ∀ put, result = .ok put → put.immutable = granted.lsm.tables.immutable ∨ put.active.pairs = []) :=
      onWorld_ensures ((putActive_freezes _ _ _ _ granted.world).mono fun result after freezes => ⟨rfl, freezes⟩)
    refine Effect.Ensures.bind stored (fun tables after spec => ?_) fun _ _ spec => Or.inl (by rw [spec.1, same])
    have freezes := spec.2 tables rfl
    rw [same] at freezes
    exact freezes
  refine Effect.Ensures.bind put (fun _ stored freezes => ?_) fun _ _ freezes => freezes
  have indexed : Effect.Ensures (onLsm (updateGcBlockLocation (logicalSector / blockSectors) physicalSector)) stored
      (fun _ after => after.lsm.tables.immutable = machine.lsm.tables.immutable ∨ after.lsm.tables.active.pairs = []) := by
    refine Effect.Ensures.zoom (updateGcBlockLocation_indexes _ _ stored.lsm) fun _ after same => ?_
    rw [same]
    exact freezes
  refine Effect.Ensures.attempt_bind indexed fun result after freezes => ?_
  cases result with
  | error error => exact freezes
  | ok value =>
    change (maybeQueueFlush after.lsm).tables.immutable = _ ∨ (maybeQueueFlush after.lsm).tables.active.pairs = []
    unfold maybeQueueFlush
    split
    · exact freezes
    · exact freezes

variable {before after : Machine} {log : Extent} {limit logicalBlock sector : Nat} {lossless : Prop}

/-- A publication adds the contents after it, if it froze a table. -/
theorem Published.passes (published : Published before after log limit lossless logicalBlock sector)
    (coherent : Coherent before log limit lossless) (trusted : lossless) (gcResets : after.lsm.gcResets = before.lsm.gcResets)
    (freezes : after.lsm.tables.immutable = before.lsm.tables.immutable ∨ after.lsm.tables.active.pairs = []) :
    Passes before after := by
  have retains : Retains before after :=
    .of_same (congrArg Allocator.zones published.allocator) published.device.media
  rcases freezes with same | empty
  · exact .of_retains gcResets retains (coherent.frozen_eq trusted published.beside same)
  refine ⟨gcResets.ge, fun _ base past _ new remembers => ?_⟩
  have older := coherent.olderLayers_eq trusted published.beside
  have kept := Layers.Chronicle.keep remembers retains
  have shows_ := published.coherent.shows trusted
  rw [layers_eq, empty] at shows_
  have behind : olderLayers after <:+ frozen before := older ▸ List.suffix_append _ _
  unfold Remembers
  cases frozenTable : after.lsm.tables.immutable with
  | none =>
    have whole : frozen after = olderLayers after := by rw [frozen, frozenTable]; rfl
    rw [whole]
    exact kept.tail behind
  | some table =>
    have whole : frozen after = table.pairs :: olderLayers after := by rw [frozen, frozenTable]; rfl
    rw [whole] at shows_ ⊢
    have moment : past (flat (blocksOf (Lsm.disk after))) := by
      rw [flat_blocksOf]
      exact new
    refine kept.push behind moment (shows_.congr fun key => ?_)
    rw [Layers.resolve_cons [] (table.pairs :: olderLayers after), List.lookup_nil, Option.none_or]

end Freeze

/-- Counters and flags hold nothing. -/
theorem Coherent.alike_passes [Kernel] {machine after : Machine} {log : Extent} {limit : Nat} {lossless : Prop}
    (coherent : Coherent machine log limit lossless) (trusted : lossless) (alike : Alike machine after)
    (gcResets : after.lsm.gcResets = machine.lsm.gcResets) : Passes machine after := by
  have allocator : after.lsm.allocator = machine.lsm.allocator := by rw [alike.engine]
  have tables : after.lsm.tables = machine.lsm.tables := by rw [alike.engine]
  exact .of_retains gcResets (.of_same (congrArg Allocator.zones allocator) alike.quiet.media)
    (coherent.frozen_eq trusted (.of_alike alike) (congrArg Generations.immutable tables))

section Walk
variable [Kernel] {machine : Machine} {log : Extent} {limit : Nat} {lossless : Prop}

theorem publishWrite_passes {logicalSector index slot sector : Nat} (coherent : Coherent machine log limit lossless)
    (trusted : lossless) (fresh : Fresh machine.lsm index slot sector)
    (bound : logicalSector / blockSectors < machine.lsm.logicalBlocks) :
    Effect.Ensures (publishWrite logicalSector sector) machine (fun _ after => Passes machine after) := by
  have counted : Effect.Ensures (publishWrite logicalSector sector) machine (fun _ after =>
      after.lsm.gcResets = machine.lsm.gcResets) :=
    @publishWrite_keeps _ (fun after => after.lsm.gcResets = machine.lsm.gcResets) logicalSector sector
      (fun _ _ same => same) (fun _ _ _ _ _ _ _ _ _ same => same) _ rfl
  refine (((publishWrite_spec coherent fresh bound).and (publishWrite_freezes logicalSector sector machine)).and counted).mono ?_
  rintro result after ⟨⟨⟨_, published⟩ | ⟨_, _, same, quiet, _⟩, freezes⟩, gcResets⟩
  · exact published.passes coherent trusted gcResets freezes
  · exact coherent.alike_passes trusted ⟨by rw [same], quiet⟩ gcResets

omit [Kernel] in
/-- A submitted block shows at its sector or behind. -/
theorem submitUnlessInjected_appended {index sector : Nat} {extent : Extent} (failAt attempt : Nat) (bytes : Nat → UInt8)
    (found : machine.world.geometry.zones[index]? = some extent) (low : extent.start ≤ sector)
    (high : sector < extent.start + extent.len) :
    Effect.Ensures (submitUnlessInjected failAt attempt sector bytes) machine (fun _ after =>
      after.lsm = machine.lsm ∧ machine.world.Appended after.world index extent sector) := by
  unfold submitUnlessInjected
  split
  · exact ⟨rfl, (World.SameDevice.refl _).appended index extent sector⟩
  · exact onWorld_ensures ((blockWrite_spec .data bytes found low high).mono fun _ _ spec => ⟨rfl, spec.1.appended found⟩)

/-- A block handed out and submitted, whatever became of it. -/
theorem Coherent.passes_on {after : Machine} {index : Nat} {zone updated : Zone} (coherent : Coherent machine log limit lossless)
    (trusted : lossless) (found : machine.lsm.allocator.zones[index]? = some zone) (room : zone.CanAppend blockSectors)
    (zones : after.lsm.allocator.zones = machine.lsm.allocator.zones.set index updated) (extent : updated.extent = zone.extent)
    (forward : zone.writePointer ≤ updated.writePointer)
    (appended : machine.world.Appended after.world index zone.extent zone.writePointer) (beside : Beside machine after log)
    (immutable : after.lsm.tables.immutable = machine.lsm.tables.immutable)
    (gcResets : after.lsm.gcResets = machine.lsm.gcResets) : Passes machine after :=
  .of_retains gcResets (coherent.retains found room zones extent forward appended.media)
    (coherent.frozen_eq trusted beside immutable)

/-- A block that was handed out and submitted, before anything is published. -/
structure Landing (machine : Machine) (log : Extent) (limit : Nat) (lossless : Prop) (index slot : Nat) (zone : Zone)
    (landed : Machine) : Prop where
  kept : Kept machine landed log limit lossless
  passes : Passes machine landed
  zones : landed.lsm.allocator.zones =
    machine.lsm.allocator.zones.set index { zone with writePointer := zone.writePointer + blockSectors }
  immutable : landed.lsm.tables.immutable = machine.lsm.tables.immutable
  gcResets : landed.lsm.gcResets = machine.lsm.gcResets
  appended : machine.world.Appended landed.world index zone.extent zone.writePointer
  fresh : Fresh landed.lsm index slot zone.writePointer
  others : MirrorsBut landed index

theorem Coherent.landing (coherent : Coherent machine log limit lossless) (trusted : lossless) (mirrors : Mirrors machine)
    {allocator : Allocator} {index : Nat} {zone : Zone} (takes : machine.lsm.allocator.Takes allocator index zone)
    {started : Machine} (alike : Alike { machine with lsm.allocator := allocator } started)
    (gcResets : started.lsm.gcResets = machine.lsm.gcResets) (failAt attempt : Nat) (bytes : Nat → UInt8) :
    Effect.Ensures (submitUnlessInjected failAt attempt zone.writePointer bytes) started (fun result landed =>
      landed.lsm = started.lsm ∧
      Landing machine log limit lossless index ((zone.writePointer - zone.startSector) / blockSectors) zone landed ∧
      (result = .ok () → Mirrors landed ∧ ∀ byte < blockBytes, landed.world.block zone.writePointer byte = bytes byte)) := by
  obtain ⟨coherent', taken⟩ := coherent.taken mirrors takes
  have lengths : allocator.zones.length = machine.lsm.allocator.zones.length := by rw [takes.zones, List.length_set]
  have starting := (Kept.onAllocator lengths coherent').trans (Kept.alike coherent' alike)
  have same : started.lsm.allocator = allocator := by rw [alike.engine]
  have entries : started.lsm.gcZones = machine.lsm.gcZones := by rw [alike.engine]
  have tables : started.lsm.tables = machine.lsm.tables := by rw [alike.engine]
  have fresh : Fresh started.lsm index ((zone.writePointer - zone.startSector) / blockSectors) zone.writePointer := by
    obtain ⟨place, written, free, last⟩ := taken.fresh
    constructor <;> simpa only [SlotAt, Written, gcEntry, same, entries] using ‹_›
  have device := alike.quiet.toSameDevice
  have extent : started.world.geometry.zones[index]? = some zone.extent := by
    rw [device.geometry]
    exact coherent.attached.extent takes.found
  have room : zone.CanAppend blockSectors := taken.room
  have high : zone.writePointer < zone.startSector + zone.length := by
    have capacity : zone.capacity ≤ zone.length := Geometry.capacity_le_len extent
    have fits := room.fits
    simp only [Zone.endSector, blockSectors] at fits
    omega
  have held : Taken started index ((zone.writePointer - zone.startSector) / blockSectors) zone := by
    refine ⟨fresh, by rw [same]; exact taken.found, room, ?_, ?_⟩
    · rw [device.writePointer, device.condition]
      exact taken.mirror
    · exact taken.others.of_same (fun other _ => by rw [same]) fun other _ =>
        ⟨by rw [device.writePointer], by rw [device.condition]⟩
  refine ((submitUnlessInjected_appended failAt attempt bytes extent taken.low high).and
    (submitUnlessInjected_kept failAt attempt bytes starting.coherent held)).mono ?_
  rintro result landed ⟨⟨engine, appended⟩, _, wrote, others, _, done, _⟩
  have whole := starting.trans wrote
  have since : machine.world.Appended landed.world index zone.extent zone.writePointer :=
    (device.appended index zone.extent zone.writePointer).trans appended (Nat.le_refl _)
  have zones : landed.lsm.allocator.zones =
      machine.lsm.allocator.zones.set index { zone with writePointer := zone.writePointer + blockSectors } := by
    rw [engine, same, takes.zones, coherent.attached.block]
  have immutable : landed.lsm.tables.immutable = machine.lsm.tables.immutable := by rw [engine, tables]
  have counted : landed.lsm.gcResets = machine.lsm.gcResets := by rw [engine, gcResets]
  exact ⟨engine, ⟨whole, coherent.passes_on trusted takes.found room zones rfl (Nat.le_add_right _ _) since whole.beside
    immutable counted, zones, immutable, counted, since, by rw [engine]; exact fresh, others⟩, done⟩

/-- A relocated block shows the same contents wherever the relocation ends. -/
theorem gcRelocateBlock_passes (params : Params) {id slot source logicalBlock : Nat} {reserve : Zone} (trusted : lossless)
    (coherent : Coherent machine log limit lossless) (mirrors : Mirrors machine)
    (found : machine.lsm.allocator.zones[machine.lsm.allocator.reserveZone]? = some reserve)
    (held : machine.lsm.gcEntry id slot = encodeLogicalBlock logicalBlock) (place : machine.lsm.SlotAt id slot source) :
    Effect.Ensures (gcRelocateBlock params logicalBlock source) machine (fun _ after => Passes machine after) := by
  have latest := (coherent.indexed.located logicalBlock source).mpr ⟨id, slot, place, held⟩
  have read : Effect.Ensures (onWorld (blockRead .data source)) machine (fun _ after => Alike machine after ∧ after.lsm = machine.lsm) :=
    onWorld_ensures ((blockRead_spec .data source machine.world).mono fun _ world spec => ⟨⟨rfl, spec.1⟩, rfl⟩)
  refine Effect.Ensures.bind read ?_ fun _ _ spec => coherent.alike_passes trusted spec.1 (by rw [spec.2])
  rintro buffer ⟨lsm, world⟩ ⟨alike, same⟩
  dsimp only at same
  subst same
  have kept := Kept.alike coherent alike
  have quiet := coherent.alike_passes trusted alike rfl
  have spec := machine.lsm.allocator.allocGc_spec
  refine onAllocator_bind ?_ ?_
  · intro destination allocator ran
    change machine.lsm.allocator.allocGc = _ at ran
    rw [ran] at spec
    rcases spec with ⟨zone, same, takes⟩ | ⟨_, same, _⟩
    · cases same
      cases found.symm.trans takes.found
      apply Effect.Ensures.modify_bind
      apply Effect.Ensures.get_bind
      have counted : Alike ⟨{ machine.lsm with allocator }, world⟩ ⟨{ machine.lsm with
          allocator
          gcMoveWriteAttempts := machine.lsm.gcMoveWriteAttempts + 1 }, world⟩ := ⟨rfl, .refl _⟩
      refine Effect.Ensures.bind (kept.coherent.landing trusted (mirrors.of_same rfl alike.quiet.toSameDevice) takes counted rfl
        params.failGcMoveWriteAt (machine.lsm.gcMoveWriteAttempts + 1) buffer) ?_ ?_
      · rintro _ landed ⟨same, landing, _⟩
        have whole := quiet.trans landing.passes (Or.inl (kept.disk trusted))
        have still : Lsm.disk landed = Lsm.disk machine := (landing.kept.disk trusted).trans (kept.disk trusted)
        have inRange : logicalBlock * blockSectors / blockSectors < landed.lsm.logicalBlocks := by
          rw [Nat.mul_div_cancel _ (by decide), same]
          exact coherent.indexed.inRange logicalBlock (by rw [latest]; rfl)
        have publishes := publishWrite_passes landing.kept.coherent trusted landing.fresh inRange
        refine Effect.Ensures.bind publishes ?_ fun _ _ published => whole.trans published (Or.inl still)
        rintro _ published passes
        have done := whole.trans passes (Or.inl still)
        exact ⟨done.1, fun same base past old new => done.2 same base past old new⟩
      · rintro error landed ⟨_, landing, _⟩
        exact quiet.trans landing.passes (Or.inl (kept.disk trusted))
    · cases same
  · intro error allocator ran
    change machine.lsm.allocator.allocGc = _ at ran
    rw [ran] at spec
    rcases spec with ⟨_, same, _⟩ | ⟨_, _, same, _⟩
    · cases same
    · dsimp only at same
      subst same
      exact quiet

theorem gcMoveSlots_passes (params : Params) (trusted : lossless) {slots : List Nat} {machine : Machine} {id : Nat}
    {victim reserve : Zone} (coherent : Coherent machine log limit lossless) (mirrors : Mirrors machine)
    (found : machine.lsm.allocator.zones[machine.lsm.allocator.reserveZone]? = some reserve)
    (apart : id ≠ machine.lsm.allocator.reserveZone) (chosen : machine.lsm.allocator.zones[id]? = some victim) :
    Effect.Ensures (gcMoveSlots params id victim.startSector slots) machine (fun _ after => Passes machine after) := by
  induction slots generalizing machine reserve with
  | nil => exact .of_retains rfl (.of_same rfl rfl) rfl
  | cons slot slots ih =>
    rw [gcMoveSlots]
    apply Effect.Ensures.get_bind
    dsimp only
    split
    · exact ih coherent mirrors found apart chosen
    next live =>
      obtain ⟨logicalBlock, held⟩ : ∃ logicalBlock, machine.lsm.gcEntry id slot = encodeLogicalBlock logicalBlock :=
        ⟨_, (Nat.succ_pred_eq_of_ne_zero live).symm⟩
      have decoded : decodeLogicalBlock (machine.lsm.gcEntry id slot) = logicalBlock := by rw [held]; rfl
      rw [decoded]
      have place : machine.lsm.SlotAt id slot (victim.startSector + slot * blockSectors) := by
        obtain ⟨zone, present, inside, _⟩ := coherent.indexed.written id slot live
        cases chosen.symm.trans present
        exact ⟨victim, chosen, rfl, inside⟩
      refine Effect.Ensures.bind ((gcRelocateBlock_kept params coherent mirrors found apart held place).and
        (gcRelocateBlock_passes params trusted coherent mirrors found held place)) ?_ fun _ _ spec => spec.2
      rintro _ moved ⟨⟨kept, _, _, done, _⟩, passes⟩
      obtain ⟨step, _⟩ := done rfl
      have reserveZone := step.keeps.reserveZone
      have further := ih kept.coherent step.mirrors (by rw [reserveZone]; exact step.reserve found) (by rw [reserveZone]; exact apart)
        ((step.others apart).trans chosen)
      exact further.mono fun _ after later => passes.trans later (Or.inl (kept.disk trusted))

omit [Kernel] in
/-- A zone that could not be reset is as it was. -/
theorem zoneReset_refused (machine : Machine) {index : Nat} {extent : Extent} (found : machine.world.geometry.zones[index]? = some extent)
    (positive : 0 < extent.len) : Effect.Ensures (onWorld (zoneReset extent.start)) machine (fun result after =>
      after.lsm = machine.lsm ∧ ∀ error, result = .error error → machine.world.Quiet after.world) := by
  refine onWorld_ensures ((zoneReset_spec found positive).mono ?_)
  rintro result world ⟨later, submitted, ⟨rfl, _⟩ | ⟨error, rfl, device, _⟩⟩
  · exact ⟨rfl, by rintro _ ⟨⟩⟩
  · exact ⟨rfl, fun _ _ => ⟨device, later, submitted⟩⟩

theorem gcCollect_passes (params : Params) {id : Nat} {victim : Zone} (trusted : lossless)
    (coherent : Coherent machine log limit lossless) (ready : Ready machine)
    (chosen : machine.lsm.allocator.zones[id]? = some victim) (apart : id ≠ machine.lsm.allocator.reserveZone) :
    Effect.Ensures (gcCollect params id victim) machine (fun _ after => Passes machine after) := by
  obtain ⟨reserve, found, _⟩ := ready.reserve
  apply Effect.Ensures.get_bind
  have distinct : (List.range (machine.lsm.gcNrBlocks id)).Nodup := List.nodup_range
  have moves := gcMoveSlots_kept params distinct coherent ready.mirrors found apart chosen
  refine Effect.Ensures.bind (moves.and (gcMoveSlots_passes params trusted coherent ready.mirrors found apart chosen)) ?_
    fun _ _ spec => spec.2
  rintro _ moved ⟨⟨kept, _, _, done, _⟩, passes⟩
  have still : moved.lsm.allocator.zones[id]? = some victim := ((done rfl).1.others apart).trans chosen
  have unchanged := kept.disk trusted
  apply Effect.Ensures.get_bind
  split
  · exact passes
  apply Effect.Ensures.modify_bind
  apply Effect.Ensures.get_bind
  have counted : Passes moved { moved with lsm := { moved.lsm with gcZoneResetAttempts := moved.lsm.gcZoneResetAttempts + 1 } } :=
    kept.coherent.alike_passes trusted ⟨rfl, .refl _⟩ rfl
  have attempted := passes.trans counted (Or.inl unchanged)
  split
  · exact attempted
  have extent := kept.coherent.attached.extent still
  have positive : 0 < victim.extent.len := kept.coherent.attached.positive victim (List.mem_of_getElem? still)
  have reset := zoneReset_refused { moved with lsm := { moved.lsm with
    gcZoneResetAttempts := moved.lsm.gcZoneResetAttempts + 1 } } extent positive
  refine Effect.Ensures.bind reset ?_ ?_
  · rintro _ ⟨lsm, world⟩ ⟨same, _⟩
    dsimp only at same
    subst same
    have more (after : Machine) (counts : moved.lsm.gcResets + 1 = after.lsm.gcResets) : Passes machine after :=
      .of_reset (counts ▸ Nat.lt_succ_of_le passes.1)
    apply Effect.Ensures.modify_bind
    refine onAllocator_bind ?_ ?_
    · exact fun _ allocator _ => more _ rfl
    · exact fun _ allocator _ => more _ rfl
  · rintro error ⟨lsm, world⟩ ⟨same, refused⟩
    dsimp only at same
    subst same
    exact passes.trans (kept.coherent.alike_passes trusted ⟨rfl, refused error rfl⟩ rfl) (Or.inl unchanged)

theorem runGcIfNeeded_passes (params : Params) (trusted : lossless) (coherent : Coherent machine log limit lossless)
    (ready : Ready machine) : Effect.Ensures (runGcIfNeeded params) machine (fun _ after => Passes machine after) := by
  have here : Passes machine machine := .of_retains rfl (.of_same rfl rfl) rfl
  apply Effect.Ensures.get_bind
  split
  · exact here
  dsimp only
  split
  · exact here
  refine Effect.Ensures.ofExcept_bind (fun id _ => ?_) fun _ _ => here
  apply Effect.Ensures.get_bind
  refine Effect.Ensures.ofExcept_bind (fun _ valid => ?_) fun _ _ => here
  have buffer : Effect.Ensures (onWorld allocate) machine (fun _ after => after.lsm = machine.lsm ∧ machine.world.Quiet after.world) :=
    onWorld_ensures ((allocate_quiet machine.world).mono fun _ world spec => ⟨rfl, spec.1⟩)
  have quiet {world : World} (quiet : machine.world.Quiet world) : Passes machine ⟨machine.lsm, world⟩ :=
    coherent.alike_passes trusted ⟨rfl, quiet⟩ rfl
  refine Effect.Ensures.bind buffer ?_ ?_
  · rintro _ ⟨lsm, world⟩ ⟨same, still⟩
    dsimp only at same
    subst same
    have kept : Kept machine ⟨machine.lsm, world⟩ log limit lossless := Kept.alike coherent ⟨rfl, still⟩
    split
    · exact quiet still
    next victim chosen =>
      have apart : id ≠ machine.lsm.allocator.reserveZone := by
        rintro rfl
        unfold gcValidateVictim at valid
        simp only [chosen] at valid
        cases valid
      refine Effect.Ensures.attempt_bind ((gcCollect_passes params trusted kept.coherent
        (ready.of_same rfl still.toSameDevice) chosen apart)) fun result after passes => ?_
      have whole := (quiet still).trans passes (Or.inl (kept.disk trusted))
      cases result with
      | ok value => exact whole
      | error error => exact ⟨whole.1, fun same base past old new => whole.2 same base past old new⟩
  · rintro _ ⟨lsm, world⟩ ⟨same, still⟩
    dsimp only at same
    subst same
    exact quiet still

omit [Kernel] in
/-- A recovery may take back the block handed out last. -/
private theorem recoverWritePointer_forward {index : Nat} {zone : Zone} (attached : Attached machine log)
    (found : machine.lsm.allocator.zones[index]? = some { zone with writePointer := zone.writePointer + blockSectors })
    (low : zone.startSector ≤ zone.writePointer) (high : zone.writePointer < zone.startSector + zone.length) :
    Effect.Ensures (recoverWritePointer zone.writePointer) machine (fun _ after => machine.world.Quiet after.world ∧
      after.lsm.tables = machine.lsm.tables ∧ after.lsm.gcResets = machine.lsm.gcResets ∧
      ∃ updated, after.lsm.allocator.zones = machine.lsm.allocator.zones.set index updated ∧ updated.extent = zone.extent ∧
        zone.writePointer ≤ updated.writePointer) := by
  have extent : machine.world.geometry.zones[index]? = some zone.extent := by
    have located := attached.extent found
    exact located
  have still : machine.lsm.allocator.zones =
      machine.lsm.allocator.zones.set index { zone with writePointer := zone.writePointer + blockSectors } := by
    obtain ⟨bound, same⟩ := List.getElem?_eq_some_iff.mp found
    rw [← same, List.set_getElem_self]
  apply Effect.Ensures.modify_bind
  have reports : Effect.Ensures (onWorld (zoneReportOne zone.writePointer))
      { machine with lsm := { machine.lsm with writesStopped := true } } (fun result after =>
      after.lsm = { machine.lsm with writesStopped := true } ∧ machine.world.Quiet after.world ∧
      ∀ reported, result = .ok reported → reported = machine.world.report 0 index zone.extent) := by
    refine onWorld_ensures ((zoneReportOne_spec extent low high).mono ?_)
    rintro result world ⟨quiet, rfl | ⟨error, rfl, _⟩⟩
    · exact ⟨rfl, quiet, fun reported same => by cases same; rfl⟩
    · exact ⟨rfl, quiet, by rintro _ ⟨⟩⟩
  refine Effect.Ensures.bind reports ?_ ?_
  · rintro reported ⟨lsm, world⟩ ⟨same, quiet, truthful⟩
    dsimp only at same
    subst same
    obtain rfl := truthful reported rfl
    have resynced := machine.lsm.allocator.resync_spec zone.writePointer (machine.world.report 0 index zone.extent)
    refine onAllocator_bind ?_ ?_
    · intro _ allocator ran
      change machine.lsm.allocator.resync zone.writePointer (machine.world.report 0 index zone.extent) = _ at ran
      rw [ran] at resynced
      rcases resynced with ⟨other, held, _, starting, present, accepts, _, zones⟩ | ⟨failed, _⟩
      · obtain rfl : index = other := Option.some.inj ((attached.zoneStarting_eq found).symm.trans starting)
        cases found.symm.trans present
        obtain ⟨_, _, _, _, _, _, _, _, pointer, _⟩ := accepts
        refine ⟨quiet, rfl, rfl, _, zones, rfl, ?_⟩
        change zone.writePointer ≤ (machine.world.report 0 index zone.extent).writePointer
        rcases pointer with same | same
        · exact same.ge
        · rw [same]
          exact Nat.le_add_right _ _
      · cases failed
    · intro error allocator ran
      change machine.lsm.allocator.resync zone.writePointer (machine.world.report 0 index zone.extent) = _ at ran
      rw [ran] at resynced
      rcases resynced with ⟨_, _, done, _⟩ | ⟨_, same⟩
      · cases done
      · dsimp only at same
        subst same
        exact ⟨quiet, rfl, rfl, _, still, rfl, Nat.le_add_right _ _⟩
  · rintro error ⟨lsm, world⟩ ⟨same, quiet, _⟩
    dsimp only at same
    subst same
    exact ⟨quiet, rfl, rfl, _, still, rfl, Nat.le_add_right _ _⟩

theorem Landing.recovers {index slot : Nat} {zone : Zone} {landed : Machine}
    (landing : Landing machine log limit lossless index slot zone landed) (coherent : Coherent machine log limit lossless)
    (trusted : lossless) (found : machine.lsm.allocator.zones[index]? = some zone) (room : zone.CanAppend blockSectors) :
    Effect.Ensures (recoverWritePointer zone.writePointer) landed (fun _ after => Passes machine after) := by
  obtain ⟨bound, _⟩ := List.getElem?_eq_some_iff.mp found
  have taken : landed.lsm.allocator.zones[index]? = some { zone with writePointer := zone.writePointer + blockSectors } := by
    rw [landing.zones, List.getElem?_set_self bound]
  have low : zone.startSector ≤ zone.writePointer :=
    coherent.attached.placed zone (List.mem_of_getElem? found) room.isWritable
  have high : zone.writePointer < zone.startSector + zone.length := by
    have capacity : zone.capacity ≤ zone.length := Geometry.capacity_le_len (coherent.attached.extent found)
    have fits := room.fits
    simp only [Zone.endSector, blockSectors] at fits
    omega
  refine ((recoverWritePointer_forward landing.kept.coherent.attached taken low high).and
    (recoverWritePointer_kept landing.kept.coherent landing.fresh taken room landing.others)).mono ?_
  rintro _ after ⟨⟨quiet, tables, gcResets, updated, zones, extent, forward⟩, kept, _⟩
  rw [landing.zones, List.set_set] at zones
  refine coherent.passes_on trusted found room zones extent forward ?_ (landing.kept.beside.trans kept.beside)
    (by rw [tables, landing.immutable]) (gcResets.trans landing.gcResets)
  exact landing.appended.trans (quiet.toSameDevice.appended index zone.extent zone.writePointer) (Nat.le_refl _)

/-- Whatever an append meets, it passes. -/
theorem appendWrite_passes (params : Params) (trusted : lossless) {sector : Nat} (bytes : Nat → UInt8)
    (coherent : Coherent machine log limit lossless) (ready : machine.lsm.writesStopped = false → Ready machine)
    (aligned : sector % blockSectors = 0) (inside : sector < limit) :
    Effect.Ensures (appendWrite params sector bytes) machine (fun _ after => Passes machine after) := by
  apply Effect.Ensures.get_bind
  cases stopped : machine.lsm.writesStopped with
  | true => exact .of_retains rfl (.of_same rfl rfl) rfl
  | false =>
    refine Effect.Ensures.bind ((runGcIfNeeded_kept params coherent (ready stopped) stopped).and
      (runGcIfNeeded_passes params trusted coherent (ready stopped))) ?_ fun _ _ spec => spec.2
    rintro _ collected ⟨⟨kept, _, done, _⟩, passes⟩
    obtain ⟨ready', _, _⟩ := done rfl
    have spec := Allocator.alloc_spec kept.coherent.attached.zoned
    refine onAllocator_bind ?_ ?_
    · intro physical allocator ran
      rw [ran] at spec
      rcases spec with ⟨index, zone, same, apart, takes⟩ | ⟨same, _⟩
      · cases same
        apply Effect.Ensures.modify_bind
        apply Effect.Ensures.get_bind
        have counted : Alike { collected with lsm.allocator := allocator } { collected with lsm := { collected.lsm with
            allocator
            dataWriteAttempts := collected.lsm.dataWriteAttempts + 1 } } := ⟨rfl, .refl _⟩
        refine Effect.Ensures.attempt_bind (kept.coherent.landing trusted ready'.mirrors takes counted rfl
          params.failDataWriteAt (collected.lsm.dataWriteAttempts + 1) bytes) ?_
        rintro result landed ⟨same, landing, _⟩
        have unchanged := kept.disk trusted
        cases result with
        | error error =>
          have room := takes.room
          rw [kept.coherent.attached.block] at room
          refine Effect.Ensures.attempt_bind (landing.recovers kept.coherent trusted takes.found room) ?_
          exact fun _ recovered later => passes.trans later (Or.inl unchanged)
        | ok value =>
          have bound : sector / blockSectors < landed.lsm.logicalBlocks := by
            have whole := coherent.whole
            rw [logicalBlocks, landing.kept.coherent.logicalSectors]
            simp only [blockSectors] at aligned whole ⊢
            omega
          refine (publishWrite_passes landing.kept.coherent trusted landing.fresh bound).mono fun _ final published => ?_
          have still := (landing.kept.disk trusted).trans unchanged
          exact (passes.trans landing.passes (Or.inl unchanged)).trans published (Or.inl still)
      · cases same
    · intro error allocator ran
      rw [ran] at spec
      rcases spec with ⟨_, _, same, _⟩ | ⟨_, _, zones, _⟩
      · cases same
      · have searched : Passes collected { collected with lsm.allocator := allocator } := .of_retains rfl (.of_same zones rfl) rfl
        exact passes.trans searched (Or.inl (kept.disk trusted))

end Walk

section Flush
variable [Kernel] {machine : Machine} {log : Extent} {limit : Nat} {lossless : Prop}
  (coherent : Coherent machine log limit lossless)
include coherent

theorem Coherent.sealed_below {sector byte : Nat} (held : machine.lsm.Sealed sector) (inside : byte < blockBytes) :
    sector * sectorBytes + byte < log.start * sectorBytes := by
  obtain ⟨index, slot, ⟨zone, found, same, fits⟩, _⟩ := held
  obtain ⟨bound, _⟩ := List.getElem?_eq_some_iff.mp found
  have apart := Geometry.apart (coherent.attached.extent found) coherent.attached.logExtent bound
  have capacity : zone.capacity ≤ zone.length := Geometry.capacity_le_len (coherent.attached.extent found)
  have bytes : blockBytes = blockSectors * sectorBytes := rfl
  simp only [Zone.extent] at apart
  rw [Nat.add_mul, Nat.one_mul] at fits
  have order : (sector + blockSectors) * sectorBytes ≤ log.start * sectorBytes := Nat.mul_le_mul_right _ (by omega)
  rw [Nat.add_mul, ← bytes] at order
  omega

/-- What is written at the log's end shows in no table. A flush turns a frozen
table into one of the log, or drops an empty one. -/
theorem Coherent.flush_passes {after : Machine} (allocator : after.lsm.allocator = machine.lsm.allocator)
    (gcResets : after.lsm.gcResets = machine.lsm.gcResets)
    (appended : machine.world.Appended after.world machine.lsm.allocator.zones.length log machine.lsm.metaWp)
    (same : frozen after = frozen machine ∨
      ∃ newer older, frozen machine = newer ++ [] :: older ∧ frozen after = newer ++ older) : Passes machine after := by
  have retains : Retains machine after := by
    rintro sector held
    refine ⟨?_, funext fun byte => appended.media _ (Or.inl ?_)⟩
    · simpa only [Sealed, SlotAt, Written, allocator] using held
    · exact (coherent.sealed_below held byte.isLt).trans_le (Nat.mul_le_mul_right _ coherent.logStart)
  rcases same with same | ⟨newer, older, old, new⟩
  · exact .of_retains gcResets retains same
  · refine ⟨gcResets.ge, fun _ base past _ _ remembers => ?_⟩
    have kept := Layers.Chronicle.keep remembers retains
    rw [old] at kept
    unfold Remembers
    rw [new]
    exact kept.drop

/-- The tables of the log stay what they are while it grows. -/
theorem Coherent.logged_eq (trusted : lossless) {world : World}
    (appended : machine.world.Appended world machine.lsm.allocator.zones.length log machine.lsm.metaWp) :
    machine.lsm.sstables.map (Sstable.entries world.media) = machine.lsm.sstables.map (Sstable.entries machine.world.media) := by
  refine List.map_congr_left fun sst member => ?_
  obtain ⟨⟨memtable, stored, _⟩, _, high⟩ := coherent.stored trusted sst member
  have kept := stored.frame fun address _ below =>
    appended.media address (Or.inl (below.trans_le (Nat.mul_le_mul_right _ high)))
  rw [kept.entries_eq, stored.entries_eq]

theorem flushVictim_passes (trusted : lossless) (distinct : machine.world.oracle.Distinct) {victim : Memtable}
    (slot : machine.lsm.flushing = some victim) : Passes machine (flushVictim victim machine).2 := by
  have member : victim ∈ machine.lsm.residents := by simp [residents, slot]
  have sound := coherent.sound victim member
  have write := sstWrite_attached coherent.flushable sound.toRegular machine.lsm.nextSstSeq
  have before : frozen machine = machine.lsm.tables.immutable.toList.map Memtable.pairs ++
      victim.pairs :: machine.lsm.sstables.map (Sstable.entries machine.world.media) := by
    rw [frozen, olderLayers, slot]
    rfl
  have flushes := flushVictim_flushes coherent.flushable slot
  unfold flushVictim at flushes ⊢
  dsimp only at flushes ⊢
  generalize sstWrite victim machine.lsm.metaWp machine.lsm.metaEnd machine.lsm.nextSstSeq machine.world = written at write flushes ⊢
  obtain ⟨written, world⟩ := written
  dsimp only at write flushes ⊢
  have logged := coherent.logged_eq trusted write.appended.1
  rw [advanceMetaWp_eq] at flushes ⊢
  have parked (lsm : Lsm) (tables : lsm.tables = machine.lsm.tables) (flushing : lsm.flushing = machine.lsm.flushing)
      (sstables : lsm.sstables = machine.lsm.sstables) : frozen ⟨lsm, world⟩ = frozen machine := by
    rw [frozen, olderLayers, tables, flushing, sstables, logged]
    rfl
  cases write with
  | empty quiet nothing =>
    refine coherent.flush_passes flushes.allocator rfl flushes.appended (Or.inr ⟨machine.lsm.tables.immutable.toList.map
      Memtable.pairs, machine.lsm.sstables.map (Sstable.entries machine.world.media), ?_, ?_⟩)
    · rw [before, show victim.pairs = [] by rw [Memtable.pairs, nothing]; rfl]
    · rw [← logged]
      rfl
  | short quiet full => exact coherent.flush_passes flushes.allocator rfl flushes.appended (Or.inl (parked _ rfl rfl rfl))
  | starved quiet sick => exact coherent.flush_passes flushes.allocator rfl flushes.appended (Or.inl (parked _ rfl rfl rfl))
  | @wrote _ result count filled room blocks =>
    cases result with
    | ok value =>
      have stored := blocks.stored sound filled
      refine coherent.flush_passes flushes.allocator rfl flushes.appended (Or.inl ?_)
      rw [before, ← stored.entries_eq, ← logged]
      rfl
    | error error =>
      obtain ⟨_, cause⟩ := blocks.stopped error rfl
      cases error with
      | enodata =>
        -- Such a failure would be taken for an empty table.
        rcases cause with reports | ⟨_, code, _⟩
        · exact absurd reports distinct
        · cases code
      | _ => exact coherent.flush_passes flushes.allocator rfl flushes.appended (Or.inl (parked _ rfl rfl rfl))

omit [Kernel] coherent in
theorem claimFlushVictim_passes (machine : Machine) : Passes machine { machine with lsm := machine.lsm.claimFlushVictim } := by
  have same : machine.lsm.claimFlushVictim.gcResets = machine.lsm.gcResets ∧
      machine.lsm.claimFlushVictim.allocator = machine.lsm.allocator := by
    unfold claimFlushVictim
    split <;> exact ⟨rfl, rfl⟩
  refine .of_retains same.1 (.of_same (congrArg Allocator.zones same.2) rfl) ?_
  · rw [frozen, frozen, olderLayers, olderLayers]
    unfold claimFlushVictim
    split
    · rfl
    next none_ => simp [none_]

end Flush

end Lsm
end ZnsBase
