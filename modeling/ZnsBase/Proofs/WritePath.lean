import ZnsBase.Proofs.Mirror

/-! The write path on a coherent engine. Collection moves blocks without changing
a byte of the target, an append changes exactly its own block, and a failed one
changes nothing. -/

namespace ZnsBase
open Library

namespace Lsm
variable [Kernel] {log : Extent} {limit : Nat} {lossless : Prop}

/-- A step that leaves log and contents alone. -/
structure Kept (before after : Machine) (log : Extent) (limit : Nat) (lossless : Prop) : Prop where
  coherent : Coherent after log limit lossless
  beside : Beside before after log
  disk : lossless → disk after = disk before
  mapped : ∀ logicalBlock, (after.lsm.latest logicalBlock).isSome = (before.lsm.latest logicalBlock).isSome

theorem Kept.refl {machine : Machine} (coherent : Coherent machine log limit lossless) : Kept machine machine log limit lossless :=
  ⟨coherent, .refl _, fun _ => rfl, fun _ => rfl⟩

theorem Kept.trans {first second third : Machine} (earlier : Kept first second log limit lossless)
    (later : Kept second third log limit lossless) : Kept first third log limit lossless :=
  ⟨later.coherent, earlier.beside.trans later.beside, fun trusted => (later.disk trusted).trans (earlier.disk trusted),
    fun logicalBlock => (later.mapped logicalBlock).trans (earlier.mapped logicalBlock)⟩

theorem Kept.alike {before after : Machine} (coherent : Coherent before log limit lossless) (alike : Alike before after) :
    Kept before after log limit lossless :=
  ⟨(coherent.alike alike).1, .of_alike alike, disk_alike coherent alike, fun _ => by rw [alike.engine]⟩

/-- Steps of the allocator move no mapping. -/
theorem Kept.onAllocator {machine : Machine} {allocator : Allocator}
    (zones : allocator.zones.length = machine.lsm.allocator.zones.length)
    (coherent : Coherent { machine with lsm.allocator := allocator } log limit lossless) :
    Kept machine { machine with lsm.allocator := allocator } log limit lossless :=
  ⟨coherent, ⟨⟨rfl, rfl, rfl, rfl⟩, rfl, rfl, rfl, rfl, rfl, zones, rfl, rfl, rfl, rfl, fun _ _ => rfl, rfl, .refl _⟩, fun _ => rfl,
    fun _ => rfl⟩

/-- Whatever happened, this zone was neither written nor emptied. -/
structure Spared (before after : Machine) (id : Nat) : Prop where
  reserveZone : after.lsm.allocator.reserveZone = before.lsm.allocator.reserveZone
  zone : after.lsm.allocator.zones[id]? = before.lsm.allocator.zones[id]?
  geometry : after.world.geometry = before.world.geometry
  pointer : after.world.writePointer id = before.world.writePointer id
  condition : after.world.condition id = before.world.condition id
  media : ∀ extent, before.world.geometry.zones[id]? = some extent → ∀ address, extent.start * sectorBytes ≤ address →
    address < (extent.start + extent.len) * sectorBytes → after.world.media address = before.world.media address

omit [Kernel] in
theorem Spared.of_same {before after : Machine} (id : Nat) (allocator : after.lsm.allocator = before.lsm.allocator)
    (device : before.world.SameDevice after.world) : Spared before after id :=
  ⟨by rw [allocator], by rw [allocator], device.geometry, by rw [device.writePointer], by rw [device.condition],
    fun _ _ _ _ _ => by rw [device.media]⟩

omit [Kernel] in
theorem Spared.of_alike {before after : Machine} (id : Nat) (alike : Alike before after) : Spared before after id :=
  .of_same id (by rw [alike.engine]) alike.quiet.toSameDevice

omit [Kernel] in
theorem Spared.trans {first second third : Machine} {id : Nat} (earlier : Spared first second id)
    (later : Spared second third id) : Spared first third id where
  reserveZone := later.reserveZone.trans earlier.reserveZone
  zone := later.zone.trans earlier.zone
  geometry := later.geometry.trans earlier.geometry
  pointer := later.pointer.trans earlier.pointer
  condition := later.condition.trans earlier.condition
  media := fun extent found address above below =>
    (later.media extent (by rw [earlier.geometry]; exact found) address above below).trans
      (earlier.media extent found address above below)

omit [Kernel] in
/-- A write into one zone spares the others. -/
theorem Spared.of_appended {machine : Machine} {world : World} {index other sector : Nat} {extent : Extent}
    (found : machine.world.geometry.zones[index]? = some extent) (low : extent.start ≤ sector)
    (appended : machine.world.Appended world index extent sector) (different : other ≠ index) :
    Spared machine { machine with world } other := by
  obtain ⟨pointer, condition⟩ := appended.others other different
  refine ⟨rfl, rfl, appended.geometry, pointer, condition, fun held present address above below => appended.media address ?_⟩
  rcases Nat.lt_or_gt_of_ne different with less | more
  · have apart := Nat.mul_le_mul_right sectorBytes (Geometry.apart present found less)
    have start := Nat.mul_le_mul_right sectorBytes low
    exact Or.inl (by omega)
  · have apart := Nat.mul_le_mul_right sectorBytes (Geometry.apart found present more)
    exact Or.inr (by omega)

theorem Published.disk {before after : Machine} {logicalBlock sector : Nat}
    (published : Published before after log limit lossless logicalBlock sector) (trusted : lossless) (address : Nat) :
    disk after address =
      if address / blockBytes = logicalBlock then before.world.block sector (address % blockBytes)
      else Lsm.disk before address := by
  unfold Lsm.disk
  rw [published.mapping trusted]
  by_cases here : address / blockBytes = logicalBlock
  · simp only [here, ite_true, published.device.block]
  · simp only [here, ite_false, published.device.block]

omit [Kernel] in
/-- A block holds the bytes of the target at its place. -/
theorem disk_of_mapping {machine : Machine} {logicalBlock sector : Nat} (held : mapping machine logicalBlock = some sector)
    {address : Nat} (here : address / blockBytes = logicalBlock) :
    disk machine address = machine.world.block sector (address % blockBytes) := by
  unfold disk
  rw [here, held]

/-- The block in flight lands in its slot or leaves no trace in mapped data. -/
theorem submitUnlessInjected_kept {machine : Machine} {index slot : Nat} {zone : Zone} (failAt attempt : Nat)
    (bytes : Nat → UInt8) (coherent : Coherent machine log limit lossless) (taken : Taken machine index slot zone) :
    Effect.Ensures (submitUnlessInjected failAt attempt zone.writePointer bytes) machine (fun result after =>
      after.lsm = machine.lsm ∧ Kept machine after log limit lossless ∧ MirrorsBut after index ∧
      (∀ other, other ≠ index → Spared machine after other) ∧
      (result = .ok () → Mirrors after ∧ ∀ byte < blockBytes, after.world.block zone.writePointer byte = bytes byte) ∧
      ∀ error, result = .error error → ¬ (machine.world.oracle.Healthy ∧ failAt = 0)) := by
  unfold submitUnlessInjected
  split
  next injected =>
    exact ⟨rfl, .refl coherent, taken.others, fun _ _ => .of_same _ rfl (.refl _), nofun, fun _ _ fine => injected.1 fine.2⟩
  next _ =>
    have extent : machine.world.geometry.zones[index]? = some zone.extent := by
      have located := coherent.attached.extent taken.found
      exact located
    have capacity : zone.capacity ≤ zone.length := Geometry.capacity_le_len extent
    have fits := taken.room.fits
    have inside : zone.writePointer < zone.startSector + zone.length := by
      simp only [Zone.endSector, blockSectors] at fits
      omega
    refine onWorld_ensures ((blockWrite_spec .data bytes extent taken.low inside).mono ?_)
    rintro result world ⟨landed, recorded, failed⟩
    have appended := landed.appended extent
    obtain ⟨coherent', disk⟩ := coherent.land taken.fresh taken.found appended
    obtain ⟨bound, _⟩ := List.getElem?_eq_some_iff.mp taken.found
    have far := Geometry.apart extent coherent.attached.logExtent bound
    have others : MirrorsBut { machine with world } index :=
      taken.others.of_same (fun _ _ => rfl) (fun other different => appended.others other different)
    obtain ⟨pointer, condition⟩ := appended.others machine.lsm.allocator.zones.length (by omega)
    refine ⟨rfl, ⟨coherent', ⟨.refl _, rfl, rfl, rfl, rfl, rfl, rfl, appended.geometry, appended.fullAtLength, pointer,
      condition, ?_, recorded.metaWrites_data, recorded.later⟩, disk, fun _ => rfl⟩, others, fun _ => .of_appended extent taken.low appended,
      ?_, ?_⟩
    · intro address above
      exact appended.media address (Or.inr ((Nat.mul_le_mul_right _ far).trans above))
    · intro done
      cases done
      cases landed with
      | committed accepted same =>
        refine ⟨others.mirrors taken.found (.commit taken.room taken.low same), ?_⟩
        intro byte within
        rw [same.block]
        simp only [World.block, World.commit_media]
        rw [overlay_inside (by omega) (by omega), Nat.add_sub_cancel_left]
    · intro error stopped fine
      obtain ⟨cause, _⟩ := failed error stopped
      rcases cause with reports | ⟨_, refused⟩
      · exact fine.1.requests _ _ reports
      · exact refused (taken.mirror.accepts taken.room)

/-- After a failed write the allocator follows the device again, or writes stay
stopped. -/
theorem recoverWritePointer_kept {machine : Machine} {index slot : Nat} {zone : Zone}
    (coherent : Coherent machine log limit lossless) (fresh : Fresh machine.lsm index slot zone.writePointer)
    (found : machine.lsm.allocator.zones[index]? = some { zone with writePointer := zone.writePointer + blockSectors })
    (room : zone.CanAppend blockSectors) (others : MirrorsBut machine index) :
    Effect.Ensures (recoverWritePointer zone.writePointer) machine (fun _ after =>
      Kept machine after log limit lossless ∧ after.lsm.allocator.reserveZone = machine.lsm.allocator.reserveZone ∧
      (∀ other, other ≠ index → after.lsm.allocator.zones[other]? = machine.lsm.allocator.zones[other]?) ∧
      (after.lsm.writesStopped = false → Mirrors after)) := by
  have size : blockSectors = 8 := rfl
  have extent : machine.world.geometry.zones[index]? = some zone.extent := by
    have located := coherent.attached.extent found
    exact located
  obtain ⟨_, present, same, inside⟩ := fresh.place
  cases found.symm.trans present
  dsimp only at same inside
  have low : zone.startSector ≤ zone.writePointer := by omega
  have high : zone.writePointer < zone.startSector + zone.length := by
    have capacity : zone.capacity ≤ zone.length := Geometry.capacity_le_len extent
    have fits := room.fits
    simp only [Zone.endSector, size] at fits
    omega
  apply Effect.Ensures.modify_bind
  have reports : Effect.Ensures (onWorld (zoneReportOne zone.writePointer))
      { machine with lsm := { machine.lsm with writesStopped := true } } (fun result after =>
      (∃ world, after = ⟨{ machine.lsm with writesStopped := true }, world⟩ ∧ machine.world.Quiet world) ∧
      ∀ reported, result = .ok reported → reported = machine.world.report 0 index zone.extent) := by
    refine onWorld_ensures ((zoneReportOne_spec extent low high).mono ?_)
    rintro result world ⟨quiet, rfl | ⟨error, rfl, _⟩⟩
    · exact ⟨⟨world, rfl, quiet⟩, fun reported same => by cases same; rfl⟩
    · exact ⟨⟨world, rfl, quiet⟩, (by rintro _ ⟨⟩)⟩
  have stopped {world : World} (quiet : machine.world.Quiet world) :
      Alike machine ⟨{ machine.lsm with writesStopped := true }, world⟩ := ⟨rfl, quiet⟩
  refine Effect.Ensures.bind reports ?_ ?_
  · rintro reported after ⟨⟨world, rfl, quiet⟩, truthful⟩
    obtain rfl := truthful reported rfl
    have kept := Kept.alike coherent (stopped quiet)
    have resynced := machine.lsm.allocator.resync_spec zone.writePointer (machine.world.report 0 index zone.extent)
    refine onAllocator_bind ?_ ?_
    · intro _ allocator ran
      change machine.lsm.allocator.resync zone.writePointer (machine.world.report 0 index zone.extent) = _ at ran
      rw [ran] at resynced
      rcases resynced with ⟨other, held, _, starting, present, accepts, keeps, zones⟩ | ⟨failed, _⟩
      · obtain rfl : index = other := by
          have start := coherent.attached.zoneStarting_eq found
          exact Option.some.inj (start.symm.trans starting)
        cases found.symm.trans present
        obtain ⟨bound, _⟩ := List.getElem?_eq_some_iff.mp found
        obtain ⟨_, _, valid, _, _, _, _, _, pointer, condition⟩ := accepts
        have pointers : machine.world.writePointer index = zone.writePointer ∨
            machine.world.writePointer index = zone.writePointer + blockSectors := by
          rw [coherent.attached.block] at pointer
          exact pointer
        have moved : Coherent ⟨{ machine.lsm with writesStopped := true, allocator }, world⟩ log limit lossless := by
          refine kept.coherent.onZone keeps.mode keeps.sectorsPerBlock found zones rfl (fun writable => (valid.2.2.2 writable).1)
            ?_ ?_
          · intro spot occupied
            have before := fresh.last spot occupied
            left
            simp only [World.report, size] at pointers same ⊢
            omega
          · intro _
            simp only [World.report, size] at pointers same ⊢
            omega
        have resynced : Kept ⟨{ machine.lsm with writesStopped := true }, world⟩
            ⟨{ machine.lsm with writesStopped := true, allocator }, world⟩ log limit lossless :=
          Kept.onAllocator (by rw [show allocator.zones = _ from zones, List.length_set]) moved
        have running : Alike ⟨{ machine.lsm with writesStopped := true, allocator }, world⟩
            ⟨{ machine.lsm with writesStopped := false, allocator }, world⟩ := ⟨rfl, .refl _⟩
        refine ⟨(kept.trans resynced).trans (Kept.alike moved running), keeps.reserveZone, ?_, fun _ => ?_⟩
        · intro other different
          change allocator.zones[other]? = _
          rw [zones, List.getElem?_set_ne (Ne.symm different)]
        · intro other current held
          change allocator.zones[other]? = _ at held
          change Mirror current (world.writePointer other) (world.condition other)
          rw [quiet.writePointer, quiet.condition]
          rw [zones] at held
          by_cases here : other = index
          · subst here
            rw [List.getElem?_set_self bound] at held
            cases held
            by_cases full : machine.world.condition other = .full
            · exact .filled full (Or.inl full)
            · exact .inUse full full rfl Iff.rfl Iff.rfl valid.2.2.2
          · rw [List.getElem?_set_ne (Ne.symm here)] at held
            exact others other current here held
      · cases failed
    · intro error allocator ran
      change machine.lsm.allocator.resync zone.writePointer (machine.world.report 0 index zone.extent) = _ at ran
      rw [ran] at resynced
      rcases resynced with ⟨_, _, ok, _⟩ | ⟨_, same⟩
      · cases ok
      · subst same
        exact ⟨kept, rfl, fun _ _ => rfl, (by rintro ⟨⟩)⟩
  · rintro error after ⟨⟨world, rfl, quiet⟩, _⟩
    exact ⟨Kept.alike coherent (stopped quiet), rfl, fun _ _ => rfl, (by rintro ⟨⟩)⟩

/-- `count` blocks went to the reserve. -/
structure Moved (before after : Machine) (reserve : Zone) (count : Nat) : Prop where
  mirrors : Mirrors after
  writesStopped : after.lsm.writesStopped = before.lsm.writesStopped
  gcMoved : after.lsm.gcMoved = before.lsm.gcMoved + count
  keeps : before.lsm.allocator.Keeps after.lsm.allocator
  zones : after.lsm.allocator.zones = before.lsm.allocator.zones.set before.lsm.allocator.reserveZone
    { reserve with writePointer := reserve.writePointer + count * blockSectors }

theorem Coherent.entry_iff {machine : Machine} (coherent : Coherent machine log limit lossless) (index slot logicalBlock : Nat) :
    machine.lsm.gcEntry index slot = encodeLogicalBlock logicalBlock ↔
      ∃ sector, machine.lsm.SlotAt index slot sector ∧
        machine.lsm.latest logicalBlock = some (encodePhysicalSector sector) := by
  constructor
  · intro held
    have written := coherent.indexed.written index slot (by rw [held]; exact encodeLogicalBlock_ne_zero _)
    obtain ⟨sector, place⟩ := written.slotAt
    exact ⟨sector, place, (coherent.indexed.located logicalBlock sector).mpr ⟨index, slot, place, held⟩⟩
  · rintro ⟨sector, place, held⟩
    obtain ⟨other, spot, there, entry⟩ := (coherent.indexed.located logicalBlock sector).mp held
    obtain ⟨rfl, rfl⟩ := coherent.apart _ _ _ _ _ place there
    exact entry

/-- Publishing elsewhere frees the block's old slot and no other. -/
theorem Published.vacates {before after : Machine} {id slot index spot logicalBlock sector : Nat}
    (coherent : Coherent before log limit lossless) (published : Published before after log limit lossless logicalBlock sector)
    (held : before.lsm.gcEntry id slot = encodeLogicalBlock logicalBlock) (place : before.lsm.SlotAt index spot sector)
    (apart : id ≠ index) (other : Nat) :
    after.lsm.gcEntry id other = if other = slot then 0 else before.lsm.gcEntry id other := by
  have slots (id slot sector : Nat) : after.lsm.SlotAt id slot sector ↔ before.lsm.SlotAt id slot sector := by
    simp only [SlotAt, published.allocator]
  have entry (block : Nat) : after.lsm.gcEntry id other = encodeLogicalBlock block ↔
      block ≠ logicalBlock ∧ before.lsm.gcEntry id other = encodeLogicalBlock block := by
    rw [published.coherent.entry_iff, coherent.entry_iff]
    simp only [slots, published.latest]
    constructor
    · rintro ⟨physical, there, mapped⟩
      split at mapped
      next same =>
        cases mapped
        exact absurd (coherent.apart _ _ _ _ _ there place).1 apart
      next different => exact ⟨different, physical, there, mapped⟩
    · rintro ⟨different, physical, there, mapped⟩
      exact ⟨physical, there, by rw [if_neg different, mapped]⟩
  have nonzero (entry : Nat) : entry ≠ 0 ↔ ∃ block, entry = encodeLogicalBlock block :=
    ⟨fun filled => ⟨entry - 1, (Nat.succ_pred_eq_of_ne_zero filled).symm⟩, by
      rintro ⟨block, rfl⟩
      exact encodeLogicalBlock_ne_zero block⟩
  split
  next here =>
    subst here
    refine not_not.mp fun filled => ?_
    obtain ⟨block, same⟩ := (nonzero _).mp filled
    obtain ⟨different, old⟩ := (entry block).mp same
    exact different (Nat.succ.inj (old.symm.trans held))
  next elsewhere =>
    by_cases filled : before.lsm.gcEntry id other = 0
    · rw [filled]
      refine not_not.mp fun occupied => ?_
      obtain ⟨block, same⟩ := (nonzero _).mp occupied
      rw [((entry block).mp same).2] at filled
      exact encodeLogicalBlock_ne_zero block filled
    · obtain ⟨block, same⟩ := (nonzero _).mp filled
      rw [same]
      refine (entry block).mpr ⟨?_, same⟩
      rintro rfl
      exact elsewhere (coherent.indexed.slot_unique coherent.apart same held).2

/-- `zns_lsm_gc_relocate_block` of a live block. -/
theorem gcRelocateBlock_kept (params : Params) {machine : Machine} {id slot source logicalBlock : Nat} {reserve : Zone}
    (coherent : Coherent machine log limit lossless) (mirrors : Mirrors machine)
    (found : machine.lsm.allocator.zones[machine.lsm.allocator.reserveZone]? = some reserve)
    (apart : id ≠ machine.lsm.allocator.reserveZone)
    (held : machine.lsm.gcEntry id slot = encodeLogicalBlock logicalBlock) (place : machine.lsm.SlotAt id slot source) :
    Effect.Ensures (gcRelocateBlock params logicalBlock source) machine (fun result after =>
      Kept machine after log limit lossless ∧ after.lsm.writesStopped = machine.lsm.writesStopped ∧ Spared machine after id ∧
      (result = .ok () → Moved machine after reserve 1 ∧
        ∀ other, after.lsm.gcEntry id other = if other = slot then 0 else machine.lsm.gcEntry id other) ∧
      ∀ error, result = .error error →
        ¬ (Supplied machine ∧ params.failGcMoveWriteAt = 0) ∨ ¬ reserve.CanAppend blockSectors) := by
  have latest := (coherent.indexed.located logicalBlock source).mpr ⟨id, slot, place, held⟩
  have read : Effect.Ensures (onWorld (blockRead .data source)) machine (fun result after =>
      Alike machine after ∧ after.lsm = machine.lsm ∧ (∀ buffer, result = .ok buffer → buffer = machine.world.block source) ∧
      ∀ error, result = .error error → ¬ Supplied machine) := by
    refine onWorld_ensures ((blockRead_spec .data source machine.world).mono ?_)
    rintro result world ⟨quiet, rfl | ⟨error, rfl, reports⟩⟩
    · exact ⟨⟨rfl, quiet⟩, rfl, fun buffer same => by cases same; rfl, nofun⟩
    · exact ⟨⟨rfl, quiet⟩, rfl, nofun, fun _ _ supplied => supplied.healthy.requests _ _ reports⟩
  refine Effect.Ensures.bind read ?_ (fun error after spec => ⟨Kept.alike coherent spec.1, by rw [spec.2.1],
    .of_alike id spec.1, nofun, fun _ _ => Or.inl fun fine => spec.2.2.2 error rfl fine.1⟩)
  rintro buffer ⟨lsm, world⟩ ⟨alike, same, contents, _⟩
  dsimp only at same
  subst same
  obtain rfl := contents buffer rfl
  have kept := Kept.alike coherent alike
  have mirrors : Mirrors ⟨machine.lsm, world⟩ := mirrors.of_same rfl alike.quiet.toSameDevice
  have spec := machine.lsm.allocator.allocGc_spec
  refine onAllocator_bind ?_ ?_
  · intro destination allocator ran
    change machine.lsm.allocator.allocGc = _ at ran
    rw [ran] at spec
    rcases spec with ⟨zone, same, takes⟩ | ⟨_, same, _⟩
    · cases same
      cases found.symm.trans takes.found
      have zones : allocator.zones = machine.lsm.allocator.zones.set machine.lsm.allocator.reserveZone
          { reserve with writePointer := reserve.writePointer + 1 * blockSectors } := by
        rw [Nat.one_mul, ← coherent.attached.block]
        exact takes.zones
      obtain ⟨coherent', taken⟩ := kept.coherent.taken mirrors takes
      have taking : Kept machine ⟨{ machine.lsm with allocator }, world⟩ log limit lossless :=
        kept.trans (Kept.onAllocator (by rw [zones, List.length_set]) coherent')
      apply Effect.Ensures.modify_bind
      apply Effect.Ensures.get_bind
      have counted : Alike ⟨{ machine.lsm with allocator }, world⟩ ⟨{ machine.lsm with
          allocator
          gcMoveWriteAttempts := machine.lsm.gcMoveWriteAttempts + 1 }, world⟩ := ⟨rfl, .refl _⟩
      have started := taking.trans (Kept.alike coherent' counted)
      have spared : Spared machine ⟨{ machine.lsm with
          allocator
          gcMoveWriteAttempts := machine.lsm.gcMoveWriteAttempts + 1 }, world⟩ id := by
        refine (Spared.of_alike id alike).trans ⟨takes.reserveZone, ?_, rfl, rfl, rfl, fun _ _ _ _ _ => rfl⟩
        change allocator.zones[id]? = _
        rw [zones, List.getElem?_set_ne (Ne.symm apart)]
      refine Effect.Ensures.bind (submitUnlessInjected_kept _ _ (machine.world.block source) started.coherent
        ⟨⟨taken.fresh.place, taken.fresh.written, taken.fresh.free, taken.fresh.last⟩, taken.found, taken.room, taken.mirror,
          taken.others⟩) ?_ ?_
      · rintro _ ⟨lsm, landed⟩ ⟨same, wrote, _, others, done, _⟩
        have spared := spared.trans (others id apart)
        obtain ⟨mirrors, holds⟩ := done rfl
        dsimp only at same
        subst same
        have wrote := started.trans wrote
        have fresh : Fresh { machine.lsm with
            allocator
            gcMoveWriteAttempts := machine.lsm.gcMoveWriteAttempts + 1 } machine.lsm.allocator.reserveZone
            ((reserve.writePointer - reserve.startSector) / blockSectors) reserve.writePointer :=
          ⟨taken.fresh.place, taken.fresh.written, taken.fresh.free, taken.fresh.last⟩
        have whole : logicalBlock * blockSectors / blockSectors = logicalBlock := Nat.mul_div_cancel _ (by decide)
        have inRange : logicalBlock * blockSectors / blockSectors < machine.lsm.logicalBlocks := by
          rw [whole]
          exact coherent.indexed.inRange logicalBlock (by rw [latest]; rfl)
        refine Effect.Ensures.bind (publishWrite_spec wrote.coherent fresh inRange) ?_ ?_
        · rintro _ ⟨lsm, published⟩ (⟨_, done⟩ | ⟨_, failed, _⟩)
          · rw [whole] at done
            have finished : Alike ⟨lsm, published⟩ ⟨{ lsm with gcMoved := lsm.gcMoved + 1 }, published⟩ := ⟨rfl, .refl _⟩
            have last := Kept.alike done.coherent finished
            -- The destination holds what the source held.
            have unchanged (trusted : lossless) : disk ⟨lsm, published⟩ = disk machine := by
              funext address
              rw [done.disk trusted]
              split
              next here =>
                rw [holds _ (Nat.mod_lt _ (by decide))]
                exact (disk_of_mapping (coherent.occupied trusted held place) here).symm
              next _ => rw [wrote.disk trusted]
            have isMapped (block : Nat) : (lsm.latest block).isSome = (machine.lsm.latest block).isSome := by
              rw [show lsm.latest block = _ from done.latest block]
              split
              next here => rw [here, latest]; rfl
              next _ => rfl
            have allocator : lsm.allocator = allocator := done.allocator
            refine ⟨⟨last.coherent, (wrote.beside.trans done.beside).trans last.beside, fun trusted => (last.disk trusted).trans (unchanged trusted),
              fun block => (last.mapped block).trans (isMapped block)⟩,
              done.writesStopped, (spared.trans (.of_same id done.allocator done.device.toSameDevice)).trans (.of_alike id finished),
              fun _ => ⟨⟨?_, done.writesStopped, congrArg Nat.succ done.gcMoved, ?_, ?_⟩, ?_⟩, nofun⟩
            · exact mirrors.of_same done.allocator done.device.toSameDevice
            · change machine.lsm.allocator.Keeps lsm.allocator
              rw [allocator]
              exact takes.toKeeps
            · change lsm.allocator.zones = _
              rw [allocator, zones]
            · have freed := done.vacates wrote.coherent held fresh.place apart
              exact freed
          · cases failed
        · rintro error ⟨lsm, published⟩ (⟨failed, _⟩ | ⟨_, _, same, quiet, starved⟩)
          · cases failed
          · dsimp only at same
            subst same
            refine ⟨wrote.trans (Kept.alike wrote.coherent ⟨rfl, quiet⟩), rfl, spared.trans (.of_same id rfl quiet.toSameDevice),
              nofun, fun _ _ => Or.inl fun fine => ?_⟩
            exact starved (fine.1.beside wrote.beside)
      · rintro error ⟨lsm, landed⟩ ⟨same, wrote, _, others, _, failed⟩
        dsimp only at same
        subst same
        refine ⟨started.trans wrote, rfl, spared.trans (others id apart), nofun, fun _ _ => Or.inl fun fine => failed error rfl ⟨?_, fine.2⟩⟩
        exact fine.1.healthy.later alike.quiet.later
    · cases same
  · intro error allocator ran
    change machine.lsm.allocator.allocGc = _ at ran
    rw [ran] at spec
    rcases spec with ⟨_, same, _⟩ | ⟨_, _, same, full⟩
    · cases same
    · dsimp only at same
      subst same
      refine ⟨kept, rfl, .of_alike id alike, nofun, fun _ _ => Or.inr ?_⟩
      rw [← coherent.attached.block]
      exact full reserve found

omit [Kernel] in
theorem Moved.none {machine : Machine} {reserve : Zone} (mirrors : Mirrors machine)
    (found : machine.lsm.allocator.zones[machine.lsm.allocator.reserveZone]? = some reserve) :
    Moved machine machine reserve 0 := by
  obtain ⟨bound, held⟩ := List.getElem?_eq_some_iff.mp found
  refine ⟨mirrors, rfl, rfl, .refl _, ?_⟩
  rw [Nat.zero_mul, Nat.add_zero]
  change _ = machine.lsm.allocator.zones.set _ reserve
  rw [← held, List.set_getElem_self]

omit [Kernel] in
theorem Moved.trans {first second third : Machine} {reserve : Zone} {count more : Nat}
    (earlier : Moved first second reserve count)
    (later : Moved second third { reserve with writePointer := reserve.writePointer + count * blockSectors } more) :
    Moved first third reserve (count + more) := by
  refine ⟨later.mirrors, later.writesStopped.trans earlier.writesStopped, ?_, earlier.keeps.trans later.keeps, ?_⟩
  · rw [later.gcMoved, earlier.gcMoved, Nat.add_assoc]
  rw [later.zones, earlier.zones, earlier.keeps.reserveZone, List.set_set, Nat.add_mul, Nat.add_assoc]

omit [Kernel] in
theorem Moved.reserve {before after : Machine} {reserve : Zone} {count : Nat} (moved : Moved before after reserve count)
    (found : before.lsm.allocator.zones[before.lsm.allocator.reserveZone]? = some reserve) :
    after.lsm.allocator.zones[before.lsm.allocator.reserveZone]? =
      some { reserve with writePointer := reserve.writePointer + count * blockSectors } := by
  obtain ⟨bound, _⟩ := List.getElem?_eq_some_iff.mp found
  rw [moved.zones, List.getElem?_set_self bound]

omit [Kernel] in
theorem Moved.others {before after : Machine} {reserve : Zone} {count index : Nat} (moved : Moved before after reserve count)
    (apart : index ≠ before.lsm.allocator.reserveZone) :
    after.lsm.allocator.zones[index]? = before.lsm.allocator.zones[index]? := by
  rw [moved.zones, List.getElem?_set_ne (Ne.symm apart)]

/-- Live blocks among these slots of a zone. -/
def pending (lsm : Lsm) (id : Nat) (slots : List Nat) : Nat := slots.countP fun slot => lsm.gcEntry id slot ≠ 0

/-- Room in the reserve for this many blocks. -/
def Holds (reserve : Zone) (count : Nat) : Prop :=
  reserve.IsWritable ∧ reserve.writePointer + count * blockSectors ≤ reserve.endSector

/-- The relocation loop of `zns_lsm_gc_clean`. -/
theorem gcMoveSlots_kept (params : Params) {slots : List Nat} (distinct : slots.Nodup) {machine : Machine} {id : Nat}
    {victim reserve : Zone} (coherent : Coherent machine log limit lossless) (mirrors : Mirrors machine)
    (found : machine.lsm.allocator.zones[machine.lsm.allocator.reserveZone]? = some reserve)
    (apart : id ≠ machine.lsm.allocator.reserveZone) (chosen : machine.lsm.allocator.zones[id]? = some victim) :
    Effect.Ensures (gcMoveSlots params id victim.startSector slots) machine (fun result after =>
      Kept machine after log limit lossless ∧ after.lsm.writesStopped = machine.lsm.writesStopped ∧ Spared machine after id ∧
      (result = .ok () → Moved machine after reserve (machine.lsm.pending id slots) ∧
        ∀ slot, after.lsm.gcEntry id slot = if slot ∈ slots then 0 else machine.lsm.gcEntry id slot) ∧
      ∀ error, result = .error error →
        ¬ (Supplied machine ∧ params.failGcMoveWriteAt = 0) ∨ ¬ Holds reserve (machine.lsm.pending id slots)) := by
  induction slots generalizing machine reserve with
  | nil =>
    exact ⟨.refl coherent, rfl, .of_same id rfl (.refl _),
      fun _ => ⟨.none mirrors found, fun slot => by rw [if_neg List.not_mem_nil]; rfl⟩, (by rintro _ ⟨⟩)⟩
  | cons slot slots ih =>
    obtain ⟨fresh, distinct⟩ := List.nodup_cons.mp distinct
    rw [gcMoveSlots]
    apply Effect.Ensures.get_bind
    dsimp only
    split
    next empty =>
      have same : machine.lsm.pending id (slot :: slots) = machine.lsm.pending id slots := by
        simp [pending, empty]
      rw [same]
      refine (ih distinct coherent mirrors found apart chosen).mono ?_
      rintro result after ⟨kept, stopped, spared, done, failed⟩
      refine ⟨kept, stopped, spared, fun ok => ⟨(done ok).1, fun other => ?_⟩, failed⟩
      rw [(done ok).2 other]
      by_cases here : other = slot
      · simp [here, fresh, empty]
      · simp [here]
    next live =>
      obtain ⟨logicalBlock, held⟩ : ∃ logicalBlock, machine.lsm.gcEntry id slot = encodeLogicalBlock logicalBlock :=
        ⟨_, (Nat.succ_pred_eq_of_ne_zero live).symm⟩
      have decoded : decodeLogicalBlock (machine.lsm.gcEntry id slot) = logicalBlock := by rw [held]; rfl
      rw [decoded]
      have place : machine.lsm.SlotAt id slot (victim.startSector + slot * blockSectors) := by
        obtain ⟨zone, present, inside, _⟩ := coherent.indexed.written id slot live
        cases chosen.symm.trans present
        exact ⟨victim, chosen, rfl, inside⟩
      have count : machine.lsm.pending id (slot :: slots) = machine.lsm.pending id slots + 1 := by
        simp [pending, live]
      rw [count]
      refine Effect.Ensures.bind (gcRelocateBlock_kept params coherent mirrors found apart held place) ?_ ?_
      · rintro _ moved ⟨kept, stopped, spared, done, _⟩
        obtain ⟨step, entries⟩ := done rfl
        have still : moved.lsm.allocator.zones[moved.lsm.allocator.reserveZone]? =
            some { reserve with writePointer := reserve.writePointer + 1 * blockSectors } := by
          rw [step.keeps.reserveZone]
          exact step.reserve found
        have unmoved : moved.lsm.allocator.zones[id]? = some victim := (step.others apart).trans chosen
        have rest : moved.lsm.pending id slots = machine.lsm.pending id slots := by
          unfold pending
          apply List.countP_congr
          intro other member
          have different : other ≠ slot := fun same => fresh (same ▸ member)
          simp [entries, different]
        have further := ih distinct kept.coherent step.mirrors still (by rw [step.keeps.reserveZone]; exact apart) unmoved
        rw [rest] at further
        refine further.mono ?_
        rintro result after ⟨kept', stopped', spared', done', failed⟩
        refine ⟨kept.trans kept', stopped'.trans stopped, spared.trans spared', fun ok => ?_, fun error stop => ?_⟩
        · obtain ⟨steps, entries'⟩ := done' ok
          refine ⟨Nat.add_comm 1 (machine.lsm.pending id slots) ▸ step.trans steps, fun other => ?_⟩
          rw [entries' other, entries other]
          by_cases here : other = slot
          · simp [here]
          · simp [here]
        · refine (failed error stop).imp (fun sick fine => sick ⟨fine.1.beside kept.beside, fine.2⟩) (fun short room => ?_)
          refine short ⟨room.1, ?_⟩
          have fits := room.2
          simp only [Zone.endSector, Nat.add_mul] at fits ⊢
          omega
      · rintro error after ⟨kept, stopped, spared, _, failed⟩
        refine ⟨kept, stopped, spared, (by rintro ⟨⟩), fun _ _ => (failed error rfl).imp_right fun full room => full ?_⟩
        obtain ⟨writable, fits⟩ := room
        rw [Nat.add_mul] at fits
        refine ⟨writable.1, writable.2.1, writable.2.2, by omega, by omega⟩

end Lsm
end ZnsBase
