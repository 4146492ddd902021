import ZnsBase.Proofs.Sessions

/-! Sectors and the slots of the reverse maps, for any table of zones that passed
its checks. -/

namespace ZnsBase
open Library

def Zone.Covers (zone : Zone) (sector : Nat) : Prop := zone.startSector ≤ sector ∧ sector < zone.endSector

/-- No sector lies in two zones of the table. -/
def ZonesApart (zones : List Zone) : Prop :=
  ∀ (index other : Nat) (zone zone' : Zone) (sector : Nat), zones[index]? = some zone → zones[other]? = some zone' → zone.Covers sector →
    zone'.Covers sector → index = other

namespace Lsm

/-- `gcSlotFrom` in the 64-bit arithmetic of the source, wrap-around included. -/
def gcSlotFromWrapping (physicalSector : Nat) : List Zone → Nat → Except Errno (Nat × Nat)
  | [], _ => .error .einval
  | zone :: rest, zoneId =>
    let stop := (zone.startSector + zone.capacity) % 2 ^ 64
    let offset := (physicalSector + 2 ^ 64 - zone.startSector) % 2 ^ 64
    if physicalSector < zone.startSector ∨ physicalSector ≥ stop then gcSlotFromWrapping physicalSector rest (zoneId + 1)
    else if offset % blockSectors ≠ 0 ∨ blockSectors > (stop + 2 ^ 64 - physicalSector) % 2 ^ 64 ∨
        (physicalSector ≥ zone.writePointer ∧ zone.condition ≠ .full) then
      .error .einval
    else .ok (zoneId, offset / blockSectors)

theorem gcSlotFromWrapping_eq {physicalSector : Nat} (narrow : physicalSector < 2 ^ 64) (zones : List Zone)
    (valid : ∀ zone ∈ zones, zone.MetadataValid) (first : Nat) :
    gcSlotFromWrapping physicalSector zones first = gcSlotFrom physicalSector zones first := by
  induction zones generalizing first with
  | nil => rfl
  | cons zone rest ih =>
    obtain ⟨⟨_, _, room, _⟩, valid⟩ := List.forall_mem_cons.mp valid
    rw [gcSlotFromWrapping, gcSlotFrom, ih valid]
    by_cases before : physicalSector < zone.startSector
    · rw [if_pos (Or.inl before), if_pos (Or.inl before)]
    · have stop : (zone.startSector + zone.capacity) % 2 ^ 64 = zone.endSector := Nat.mod_eq_of_lt (by omega)
      have offset : (physicalSector + 2 ^ 64 - zone.startSector) % 2 ^ 64 = physicalSector - zone.startSector := by
        omega
      rw [stop, offset]
      by_cases beyond : physicalSector ≥ zone.endSector
      · rw [if_pos (Or.inr beyond), if_pos (Or.inr beyond)]
      · have left : (zone.endSector + 2 ^ 64 - physicalSector) % 2 ^ 64 = zone.endSector - physicalSector := by
          unfold Zone.endSector at beyond ⊢
          omega
        rw [left]

/-- The conversion succeeds on written slots and on nothing else. -/
theorem physicalToGcSlot_iff {lsm : Lsm} (apart : ZonesApart lsm.allocator.zones) (sector index slot : Nat) :
    lsm.physicalToGcSlot sector = .ok (index, slot) ↔ ∃ zone, lsm.allocator.zones[index]? = some zone ∧
      sector = zone.startSector + slot * blockSectors ∧ slot < zone.capacity / blockSectors ∧
      (sector < zone.writePointer ∨ zone.condition = .full) := by
  have whole (zone : Zone) : (slot + 1) * blockSectors ≤ zone.capacity ↔ slot < zone.capacity / blockSectors :=
    (Nat.le_div_iff_mul_le (by decide)).symm
  constructor
  · intro ok
    obtain ⟨zone, _, found, same, inside, written⟩ := gcSlotFrom_ok sector lsm.allocator.zones 0 index slot ok
    exact ⟨zone, found, same, (whole zone).mp inside, written⟩
  · rintro ⟨zone, found, same, inside, written⟩
    have fits := (whole zone).mpr inside
    have spec := gcSlotFrom_written lsm.allocator.zones 0 found same fits written ?_
    · rw [Nat.zero_add] at spec
      exact spec
    · intro earlier other less held
      by_contra covered
      have covers : zone.Covers sector := by
        unfold Zone.Covers Zone.endSector
        simp only [blockSectors] at same fits
        omega
      have := apart earlier index other zone sector held found (by unfold Zone.Covers; omega) covers
      omega

theorem Written.converts {lsm : Lsm} (apart : ZonesApart lsm.allocator.zones) {index slot : Nat} {zone : Zone}
    (written : lsm.Written index slot) (found : lsm.allocator.zones[index]? = some zone) :
    lsm.physicalToGcSlot (zone.startSector + slot * blockSectors) = .ok (index, slot) := by
  obtain ⟨_, found', inside, state⟩ := written
  cases found.symm.trans found'
  exact (physicalToGcSlot_iff apart _ _ _).mpr ⟨zone, found, rfl, (Nat.le_div_iff_mul_le (by decide)).mpr inside, state⟩

/-- A move between slots that the checks allow keeps the maps. -/
theorem Mapped.commit {lsm : Lsm} (mapped : Mapped lsm) {logicalBlock physicalSector : Nat} {old : Option (Nat × Nat)}
    {new : Nat × Nat} (written : lsm.Written new.1 new.2) (free : lsm.gcEntry new.1 new.2 = 0)
    (held : ∀ place, old = some place → lsm.gcEntry place.1 place.2 ≠ 0) :
    Mapped (lsm.gcCommit logicalBlock physicalSector old new) := by
  cases old with
  | none => exact (mapped.occupy written free (encodeLogicalBlock_ne_zero logicalBlock)).1.onEngine rfl rfl
  | some place =>
    obtain ⟨vacated, entries, _⟩ := mapped.vacate (held place rfl)
    have still : gcEntry { lsm with gcZones := lsm.gcZones.modify place.1 (GcZone.vacate place.2) } new.1 new.2 = 0 := by
      rw [entries]
      split
      · rfl
      · exact free
    exact (vacated.occupy written still (encodeLogicalBlock_ne_zero logicalBlock)).1.onEngine rfl rfl

theorem updateGcBlockLocation_mapped {lsm : Lsm} (mapped : Mapped lsm) (logicalBlock physicalSector : Nat) :
    Mapped (updateGcBlockLocation logicalBlock physicalSector lsm).2 ∧
      (updateGcBlockLocation logicalBlock physicalSector lsm).2.allocator = lsm.allocator := by
  unfold updateGcBlockLocation
  split
  · exact ⟨mapped, rfl⟩
  next new converts =>
    have written := (physicalToGcSlot_ok converts).2
    split
    · exact ⟨mapped, rfl⟩
    next free =>
      have free := not_not.mp free
      split
      · refine ⟨@Mapped.commit lsm mapped logicalBlock physicalSector none new written free ?_, rfl⟩
        rintro _ ⟨⟩
      next =>
        split
        · exact ⟨mapped, rfl⟩
        next old _ =>
          split
          · exact ⟨mapped, rfl⟩
          next records =>
            refine ⟨@Mapped.commit lsm mapped logicalBlock physicalSector (some old) new written free ?_, rfl⟩
            rintro _ ⟨⟩
            rw [not_not.mp records]
            exact encodeLogicalBlock_ne_zero logicalBlock

theorem gcRestoreEntry_mapped {machine : Machine} (mapped : Mapped machine.lsm) (logicalBlock physicalSector : Nat) :
    Effect.Ensures (gcRestoreEntry logicalBlock physicalSector) machine (fun _ after =>
      Mapped after.lsm ∧ after.lsm.allocator = machine.lsm.allocator) := by
  apply Effect.Ensures.get_bind
  split
  · exact ⟨mapped, rfl⟩
  split
  · exact ⟨mapped, rfl⟩
  split
  · exact ⟨mapped, rfl⟩
  next new converts =>
    split
    · exact ⟨mapped, rfl⟩
    next free =>
      have reserves : Effect.Ensures (onWorld allocate) machine (fun _ after => after.lsm = machine.lsm) :=
        onWorld_ensures ((allocate_quiet machine.world).mono fun _ _ _ => rfl)
      refine Effect.Ensures.bind reserves ?_ ?_
      · intro _ after same
        change Mapped (after.lsm.gcCommit logicalBlock physicalSector none new) ∧ after.lsm.allocator = _
        rw [same]
        refine ⟨mapped.commit (physicalToGcSlot_ok converts).2 (not_not.mp free) ?_, rfl⟩
        rintro _ ⟨⟩
      · intro error after same
        rw [same]
        exact ⟨mapped, rfl⟩

/-- The calls that fill the reverse maps. -/
inductive GcCall where
  | update (logicalBlock physicalSector : Nat)
  | restore (logicalBlock physicalSector : Nat)

def gcCall (machine : Machine) : GcCall → Machine
  | .update logicalBlock physicalSector => (onLsm (updateGcBlockLocation logicalBlock physicalSector) machine).2
  | .restore logicalBlock physicalSector => (gcRestoreEntry logicalBlock physicalSector machine).2

theorem gcCalls_mapped {machine : Machine} (mapped : Mapped machine.lsm) (calls : List GcCall) :
    Mapped (calls.foldl gcCall machine).lsm ∧ (calls.foldl gcCall machine).lsm.allocator = machine.lsm.allocator := by
  induction calls generalizing machine with
  | nil => exact ⟨mapped, rfl⟩
  | cons call rest ih =>
    have step : Mapped (gcCall machine call).lsm ∧ (gcCall machine call).lsm.allocator = machine.lsm.allocator := by
      cases call with
      | update logicalBlock physicalSector => exact updateGcBlockLocation_mapped mapped logicalBlock physicalSector
      | restore logicalBlock physicalSector => exact gcRestoreEntry_mapped mapped logicalBlock physicalSector
    obtain ⟨after, table⟩ := ih step.1
    exact ⟨after, table.trans step.2⟩

/-- In a session an occupied slot always holds written data. -/
theorem Serving.converts [Kernel] {machine : Machine} {log : Extent} {limit : Nat} {lossless : Prop}
    (serving : Serving machine log limit lossless) {index slot : Nat} {zone : Zone}
    (found : machine.lsm.allocator.zones[index]? = some zone) (occupied : machine.lsm.gcEntry index slot ≠ 0) :
    machine.lsm.physicalToGcSlot (zone.startSector + slot * blockSectors) = .ok (index, slot) := by
  have written := serving.coherent.indexed.written index slot occupied
  obtain ⟨_, found', inside, _⟩ := id written
  cases found.symm.trans found'
  exact physicalToGcSlot_written serving.coherent.attached ⟨zone, found, rfl, inside⟩ written

/-- Conversion is a bijection between the written slots of any validated table and
their sectors, its results fit the reverse maps, and the source of a GC move
converts back, for maps filled in any way and in any session. -/
theorem gc_slots_are_exact [Kernel] (machine : Machine) (valid : ∀ zone ∈ machine.lsm.allocator.zones, zone.MetadataValid)
    (apart : ZonesApart machine.lsm.allocator.zones) (fresh : machine.lsm.gcZones = gcMapInit machine.lsm.allocator.zones)
    (calls : List GcCall) :
    let lsm := (calls.foldl gcCall machine).lsm
    lsm.allocator = machine.lsm.allocator ∧
    (∀ sector < 2 ^ 64, gcSlotFromWrapping sector lsm.allocator.zones 0 = lsm.physicalToGcSlot sector) ∧
    (∀ sector index slot, lsm.physicalToGcSlot sector = .ok (index, slot) ↔ ∃ zone, lsm.allocator.zones[index]? = some zone ∧
      sector = zone.startSector + slot * blockSectors ∧ slot < zone.capacity / blockSectors ∧
      (sector < zone.writePointer ∨ zone.condition = .full)) ∧
    (∀ sector index slot, lsm.physicalToGcSlot sector = .ok (index, slot) → ∃ gcZone, lsm.gcZones[index]? = some gcZone ∧
      slot < gcZone.nrBlocks ∧ gcZone.nrBlocks = gcZone.logicalBlocks.length) ∧
    (∀ sector other place, lsm.physicalToGcSlot sector = .ok place → lsm.physicalToGcSlot other = .ok place → sector = other) ∧
    (∀ index slot zone, lsm.allocator.zones[index]? = some zone → lsm.gcEntry index slot ≠ 0 →
      (zone.startSector + slot * blockSectors % 2 ^ 64) % 2 ^ 64 = zone.startSector + slot * blockSectors ∧
      lsm.physicalToGcSlot (zone.startSector + slot * blockSectors) = .ok (index, slot)) ∧
    ∀ (params : Params) (uuid logicalSectors physicalSectors sectorsPerBlock : Nat) (world after : World) (started : Lsm)
      (events : List Event), engineInit params uuid logicalSectors physicalSectors sectorsPerBlock world = (.ok started, after) →
      logicalSectors < 2 ^ 64 → WholeBlocks world → ∀ index slot zone,
      (Lsm.run params events ⟨started, after⟩).lsm.allocator.zones[index]? = some zone →
      (Lsm.run params events ⟨started, after⟩).lsm.gcEntry index slot ≠ 0 →
      (Lsm.run params events ⟨started, after⟩).lsm.physicalToGcSlot (zone.startSector + slot * blockSectors) = .ok (index, slot) := by
  obtain ⟨mapped, table⟩ := gcCalls_mapped (gcMapInit_mapped fresh) calls
  generalize (calls.foldl gcCall machine).lsm = lsm at mapped table
  rw [← table] at valid apart
  refine ⟨table, fun sector narrow => gcSlotFromWrapping_eq narrow _ valid 0, physicalToGcSlot_iff apart, ?_, ?_, ?_, ?_⟩
  · intro sector index slot converts
    obtain ⟨zone, found, _, inside, _⟩ := (physicalToGcSlot_iff apart sector index slot).mp converts
    obtain ⟨gcZone, _, held, _⟩ := mapped.gcZone (physicalToGcSlot_ok converts).2
    obtain ⟨size, length⟩ := mapped.sizes index zone gcZone found held
    exact ⟨gcZone, held, by rw [size]; exact inside, size.trans length.symm⟩
  · rintro sector other ⟨index, slot⟩ converts converts'
    exact (physicalToGcSlot_ok converts).1.sector_eq (physicalToGcSlot_ok converts').1
  · intro index slot zone found occupied
    have written := mapped.written index slot occupied
    obtain ⟨_, found', inside, _⟩ := id written
    cases found.symm.trans found'
    obtain ⟨_, _, room, _⟩ := valid zone (List.mem_of_getElem? found)
    refine ⟨?_, written.converts apart found⟩
    simp only [blockSectors] at inside ⊢
    omega
  · intro params uuid logicalSectors physicalSectors sectorsPerBlock world after started events ran narrow whole index slot zone
      found occupied
    obtain ⟨log, serving, _⟩ := @engineInit_serving _ False _ _ _ _ _ _ _ _ ran narrow whole (by rintro ⟨⟩)
    obtain ⟨serving, _⟩ := serving.run params events (by rintro ⟨⟩)
    exact serving.converts found occupied

/-- A zone of two blocks and a partial tail, both blocks written. -/
def partialTail : Zone := ⟨0, 16, 24, 20, 32, .impOpen, true⟩

def onPartialTail (lsm : Lsm) : Machine :=
  ⟨{ lsm with allocator.zones := [partialTail], gcZones := gcMapInit [partialTail] }, World.fresh smallGeometry⟩

theorem gc_slots_are_exact_partialTail : ∃ lsm : Lsm, lsm.allocator.zones = [partialTail] ∧ lsm.gcEntry 0 1 = 4 ∧
    lsm.physicalToGcSlot 24 = .ok (0, 1) ∧ ∀ place, lsm.physicalToGcSlot 32 ≠ .ok place := by
  have starts : startsAnd plainParams (World.fresh smallGeometry) (fun lsm _ =>
      decide (([.update 3 24].foldl gcCall (onPartialTail lsm)).lsm.gcEntry 0 1 = 4)) = true := by decide +kernel
  obtain ⟨lsm, _, _, passes⟩ := startsAnd_spec starts
  have occupied := of_decide_eq_true passes
  have alone : ZonesApart (onPartialTail lsm).lsm.allocator.zones := by
    intro index other zone zone' sector found found' _ _
    obtain ⟨inside, _⟩ := List.getElem?_eq_some_iff.mp found
    obtain ⟨inside', _⟩ := List.getElem?_eq_some_iff.mp found'
    exact (Nat.lt_one_iff.mp inside).trans (Nat.lt_one_iff.mp inside').symm
  obtain ⟨table, _, exact_, _, _, sources, _⟩ := @gc_slots_are_exact Generations.plainKernel (onPartialTail lsm)
    (show ∀ zone ∈ [partialTail], zone.MetadataValid by decide) alone rfl [.update 3 24]
  have zones := congrArg Allocator.zones table
  have found : ([.update 3 24].foldl gcCall (onPartialTail lsm)).lsm.allocator.zones[0]? = some partialTail := by
    rw [zones]
    rfl
  have converts := (sources 0 1 partialTail found (by rw [occupied]; decide)).2
  refine ⟨_, zones, occupied, converts, ?_⟩
  rintro ⟨index, slot⟩ accepted
  obtain ⟨zone, found, place, inside, _⟩ := (exact_ 32 index slot).mp accepted
  rw [zones] at found
  obtain ⟨first, held⟩ := List.getElem?_eq_some_iff.mp found
  obtain rfl := Nat.lt_one_iff.mp first
  subst held
  change 32 = 16 + slot * 8 at place
  change slot < 20 / 8 at inside
  omega

end Lsm
end ZnsBase
