import ZnsBase.Library.Counting
import ZnsBase.Proofs.Attach

/-! The two GC indexes. `latest` and the reverse maps describe one relation
between logical blocks and written slots, and the counters count it. -/

namespace ZnsBase
open Library

namespace Lsm

/-- Sector `p` is slot `slot` of zone `index`. -/
def SlotAt (lsm : Lsm) (index slot sector : Nat) : Prop :=
  ∃ zone, lsm.allocator.zones[index]? = some zone ∧ sector = zone.startSector + slot * blockSectors ∧
    (slot + 1) * blockSectors ≤ zone.capacity

/-- The zones' slots do not overlap. -/
def SlotsApart (lsm : Lsm) : Prop :=
  ∀ index slot index' slot' sector, lsm.SlotAt index slot sector → lsm.SlotAt index' slot' sector →
    index = index' ∧ slot = slot'

theorem slotsApart {machine : Machine} {log : Extent} (attached : Attached machine log) : machine.lsm.SlotsApart := by
  rintro index slot index' slot' sector ⟨zone, found, same, inside⟩ ⟨zone', found', same', inside'⟩
  have size : blockSectors = 8 := rfl
  have capacity : zone.capacity ≤ zone.length := Geometry.capacity_le_len (attached.extent found)
  have capacity' : zone'.capacity ≤ zone'.length := Geometry.capacity_le_len (attached.extent found')
  rw [size] at same inside same' inside'
  have here : index = index' := by
    refine @Geometry.zone_unique _ index index' sector _ _ (attached.extent found) (attached.extent found') ?_ ?_ ?_ ?_
    all_goals
      simp only [Zone.extent]
      omega
  subst here
  cases found.symm.trans found'
  exact ⟨rfl, by omega⟩

/-- A slot holds written data: it lies below the write pointer, or its zone is
full. -/
def Written (lsm : Lsm) (index slot : Nat) : Prop :=
  ∃ zone, lsm.allocator.zones[index]? = some zone ∧ (slot + 1) * blockSectors ≤ zone.capacity ∧
    (zone.startSector + slot * blockSectors < zone.writePointer ∨ zone.condition = .full)

/-- The slots of the reverse maps and their counters. -/
structure Mapped (lsm : Lsm) : Prop where
  zones : lsm.gcZones.length = lsm.allocator.zones.length
  sizes : ∀ (index : Nat) (zone : Zone) (gcZone : GcZone), lsm.allocator.zones[index]? = some zone →
    lsm.gcZones[index]? = some gcZone →
    gcZone.nrBlocks = zone.capacity / blockSectors ∧ gcZone.logicalBlocks.length = zone.capacity / blockSectors
  counted : ∀ gcZone ∈ lsm.gcZones, gcZone.nrValidBlocks = gcZone.logicalBlocks.countP (· ≠ 0)
  written : ∀ index slot, lsm.gcEntry index slot ≠ 0 → lsm.Written index slot

/-- Both indexes describe the same mappings. -/
structure Indexed (lsm : Lsm) : Prop extends Mapped lsm where
  located : ∀ logicalBlock physicalSector, lsm.latest logicalBlock = some (encodePhysicalSector physicalSector) ↔
    ∃ index slot, lsm.SlotAt index slot physicalSector ∧ lsm.gcEntry index slot = encodeLogicalBlock logicalBlock
  encoded : ∀ logicalBlock entry, lsm.latest logicalBlock = some entry → entry ≠ 0
  inRange : ∀ logicalBlock, (lsm.latest logicalBlock).isSome → logicalBlock < lsm.logicalBlocks
  total : lsm.validBlocks = (List.range lsm.logicalBlocks).countP (fun logicalBlock => (lsm.latest logicalBlock).isSome)
  summed : lsm.validBlocks = (lsm.gcZones.map GcZone.nrValidBlocks).sum

theorem gcEntry_eq {lsm : Lsm} {index : Nat} {gcZone : GcZone} (found : lsm.gcZones[index]? = some gcZone) (slot : Nat) :
    lsm.gcEntry index slot = gcZone.logicalBlocks[slot]?.getD 0 := by
  simp only [gcEntry, found]

theorem gcMapInit_empty {lsm : Lsm} (gcZones : lsm.gcZones = gcMapInit lsm.allocator.zones) (index slot : Nat) :
    lsm.gcEntry index slot = 0 := by
  simp only [gcEntry, gcZones, gcMapInit, List.getElem?_map]
  cases lsm.allocator.zones[index]? with
  | none => rfl
  | some zone =>
    simp only [Option.map_some, List.getElem?_replicate]
    split <;> rfl

theorem gcMapInit_mapped {lsm : Lsm} (gcZones : lsm.gcZones = gcMapInit lsm.allocator.zones) : Mapped lsm := by
  refine ⟨?_, ?_, ?_, ?_⟩
  · simp [gcZones, gcMapInit]
  · intro index zone gcZone found held
    simp only [gcZones, gcMapInit, List.getElem?_map, found, Option.map_some, Option.some.injEq] at held
    subst held
    simp
  · intro gcZone member
    simp only [gcZones, gcMapInit, List.mem_map] at member
    obtain ⟨zone, _, rfl⟩ := member
    exact (List.countP_eq_zero.mpr fun entry held => by simp [List.eq_of_mem_replicate held]).symm
  · exact fun index slot held => absurd (gcMapInit_empty gcZones index slot) held

theorem gcSlotFrom_ok (sector : Nat) (zones : List Zone) (first index slot : Nat)
    (ok : gcSlotFrom sector zones first = .ok (index, slot)) :
    ∃ zone, first ≤ index ∧ zones[index - first]? = some zone ∧ sector = zone.startSector + slot * blockSectors ∧
      (slot + 1) * blockSectors ≤ zone.capacity ∧ (sector < zone.writePointer ∨ zone.condition = .full) := by
  induction zones generalizing first with
  | nil => cases ok
  | cons zone rest ih =>
    rw [gcSlotFrom] at ok
    split at ok
    next outside =>
      obtain ⟨held, low, found, spec⟩ := ih (first + 1) ok
      refine ⟨held, by omega, ?_, spec⟩
      rw [show index - first = index - (first + 1) + 1 by omega, List.getElem?_cons_succ]
      exact found
    next inside =>
      split at ok
      · cases ok
      next fit =>
        cases ok
        refine ⟨zone, Nat.le_refl _, by simp, ?_, ?_, ?_⟩
        · simp only [blockSectors] at fit ⊢
          omega
        · simp only [blockSectors, Zone.endSector] at fit inside ⊢
          omega
        · by_cases full : zone.condition = .full
          · exact Or.inr full
          · refine Or.inl (Nat.not_le.mp fun beyond => fit (Or.inr (Or.inr ⟨beyond, full⟩)))

/-- A sector that passes the check is a slot of written data. -/
theorem physicalToGcSlot_ok {lsm : Lsm} {sector index slot : Nat} (ok : lsm.physicalToGcSlot sector = .ok (index, slot)) :
    lsm.SlotAt index slot sector ∧ lsm.Written index slot := by
  obtain ⟨zone, _, found, same, inside, written⟩ := gcSlotFrom_ok sector lsm.allocator.zones 0 index slot ok
  rw [Nat.sub_zero] at found
  exact ⟨⟨zone, found, same, inside⟩, zone, found, inside, same ▸ written⟩

theorem gcSlotFrom_written {sector slot : Nat} (zones : List Zone) (first : Nat) {index : Nat} {zone : Zone}
    (found : zones[index]? = some zone) (same : sector = zone.startSector + slot * blockSectors)
    (inside : (slot + 1) * blockSectors ≤ zone.capacity) (written : sector < zone.writePointer ∨ zone.condition = .full)
    (apart : ∀ earlier other, earlier < index → zones[earlier]? = some other →
      sector < other.startSector ∨ other.endSector ≤ sector) :
    gcSlotFrom sector zones first = .ok (first + index, slot) := by
  induction zones generalizing first index with
  | nil => simp at found
  | cons head rest ih =>
    rw [gcSlotFrom]
    cases index with
    | zero =>
      obtain rfl : head = zone := by simpa using found
      have size : blockSectors = 8 := rfl
      rw [size] at same inside
      rw [if_neg (by simp only [Zone.endSector]; omega), if_neg]
      · simp only [Nat.add_zero, size]
        congr 2
        omega
      · rintro (ragged | short | ⟨beyond, notFull⟩)
        · rw [size] at ragged
          omega
        · simp only [Zone.endSector] at short
          omega
        · rcases written with below | full
          · omega
          · exact notFull full
    | succ index =>
      have outside := apart 0 head (by omega) rfl
      rw [if_pos (by omega), ih (first + 1) (by simpa using found)]
      · congr 2
        omega
      · intro earlier other less held
        exact apart (earlier + 1) other (by omega) (by simpa using held)

/-- The converse: written slots pass. -/
theorem physicalToGcSlot_written {machine : Machine} {log : Extent} {sector index slot : Nat}
    (attached : Attached machine log) (place : machine.lsm.SlotAt index slot sector)
    (written : machine.lsm.Written index slot) : machine.lsm.physicalToGcSlot sector = .ok (index, slot) := by
  obtain ⟨zone, found, same, inside⟩ := place
  obtain ⟨_, found', _, state⟩ := written
  cases found.symm.trans found'
  have size : blockSectors = 8 := rfl
  have spec := @gcSlotFrom_written sector slot machine.lsm.allocator.zones 0 index zone found same inside (same ▸ state) ?_
  · rw [Nat.zero_add] at spec
    exact spec
  · intro earlier other less held
    have apart := Geometry.apart (attached.extent held) (attached.extent found) less
    have capacity : other.capacity ≤ other.length := Geometry.capacity_le_len (attached.extent held)
    simp only [Zone.extent] at apart
    simp only [Zone.endSector]
    omega

section Slots
variable {lsm : Lsm} {index slot : Nat}

private theorem gcZone_modify {change : GcZone → GcZone} {other : Nat} {gcZone : GcZone}
    (found : (lsm.gcZones.modify index change)[other]? = some gcZone) :
    ∃ before, lsm.gcZones[other]? = some before ∧ gcZone = if other = index then change before else before := by
  rw [List.getElem?_modify, Option.map_eq_map, Option.map_eq_some_iff] at found
  obtain ⟨before, held, same⟩ := found
  refine ⟨before, held, ?_⟩
  rw [← same]
  by_cases here : other = index
  · simp [here]
  · simp [here, Ne.symm here]

private theorem gcEntry_set {change : GcZone → GcZone} {entry : Nat} {gcZone : GcZone}
    (found : lsm.gcZones[index]? = some gcZone) (inside : slot < gcZone.logicalBlocks.length)
    (blocks : (change gcZone).logicalBlocks = gcZone.logicalBlocks.set slot entry) (other place : Nat) :
    gcEntry { lsm with gcZones := lsm.gcZones.modify index change } other place =
      if other = index ∧ place = slot then entry else lsm.gcEntry other place := by
  simp only [gcEntry, List.getElem?_modify]
  by_cases here : other = index
  · subst here
    rw [found]
    simp only [Option.map_eq_map, Option.map_some, ite_true, blocks, true_and]
    by_cases same : place = slot
    · subst same
      simp [inside]
    · rw [List.getElem?_set_ne (Ne.symm same), if_neg same]
  · simp [here, Ne.symm here]

end Slots

section Commit
variable {lsm : Lsm} {index slot : Nat}

/-- One slot of the reverse map gets a new entry, and the count follows. -/
private theorem Mapped.set (mapped : Mapped lsm) {change : GcZone → GcZone} {entry : Nat} {gcZone : GcZone}
    (found : lsm.gcZones[index]? = some gcZone) (inside : slot < gcZone.logicalBlocks.length)
    (blocks : (change gcZone).logicalBlocks = gcZone.logicalBlocks.set slot entry)
    (size : (change gcZone).nrBlocks = gcZone.nrBlocks)
    (counted : (change gcZone).nrValidBlocks = (gcZone.logicalBlocks.set slot entry).countP (· ≠ 0))
    (written : entry ≠ 0 → lsm.Written index slot) :
    Mapped { lsm with gcZones := lsm.gcZones.modify index change } := by
  refine ⟨by simpa using mapped.zones, ?_, ?_, ?_⟩
  · intro other zone current place held
    obtain ⟨before, old, rfl⟩ := gcZone_modify held
    obtain ⟨nrBlocks, length⟩ := mapped.sizes other zone before place old
    split
    next here =>
      subst here
      cases found.symm.trans old
      rw [size, blocks, List.length_set]
      exact ⟨nrBlocks, length⟩
    next _ => exact ⟨nrBlocks, length⟩
  · intro current member
    obtain ⟨other, held⟩ := List.getElem?_of_mem member
    obtain ⟨before, old, rfl⟩ := gcZone_modify held
    split
    next here =>
      subst here
      cases found.symm.trans old
      rw [counted, blocks]
    next _ => exact mapped.counted before (List.mem_of_getElem? old)
  · intro other place taken
    rw [gcEntry_set found inside blocks] at taken
    split at taken
    next here =>
      obtain ⟨rfl, rfl⟩ := here
      exact written taken
    next _ => exact mapped.written other place taken

theorem Mapped.gcZone (mapped : Mapped lsm) (written : lsm.Written index slot) :
    ∃ gcZone entry, lsm.gcZones[index]? = some gcZone ∧ gcZone.logicalBlocks[slot]? = some entry ∧
      lsm.gcEntry index slot = entry := by
  obtain ⟨zone, found, inside, _⟩ := written
  obtain ⟨bound, _⟩ := List.getElem?_eq_some_iff.mp found
  rw [← mapped.zones] at bound
  have held := List.getElem?_eq_getElem bound
  obtain ⟨_, length⟩ := mapped.sizes index zone _ found held
  have room : slot < lsm.gcZones[index].logicalBlocks.length := by
    rw [length, Nat.lt_div_iff_mul_lt (by decide)]
    simp only [blockSectors] at inside ⊢
    omega
  refine ⟨_, _, held, List.getElem?_eq_getElem room, ?_⟩
  rw [gcEntry_eq held, List.getElem?_eq_getElem room, Option.getD_some]

/-- The first half of a move: a slot is given up. -/
theorem Mapped.vacate (mapped : Mapped lsm) (held : lsm.gcEntry index slot ≠ 0) :
    Mapped { lsm with gcZones := lsm.gcZones.modify index (GcZone.vacate slot) } ∧
      (∀ other place, gcEntry { lsm with gcZones := lsm.gcZones.modify index (GcZone.vacate slot) } other place =
        if other = index ∧ place = slot then 0 else lsm.gcEntry other place) ∧
      ((lsm.gcZones.modify index (GcZone.vacate slot)).map GcZone.nrValidBlocks).sum + 1 =
        (lsm.gcZones.map GcZone.nrValidBlocks).sum := by
  obtain ⟨gcZone, entry, found, old, same⟩ := mapped.gcZone (mapped.written index slot held)
  rw [same] at held
  obtain ⟨inside, _⟩ := List.getElem?_eq_some_iff.mp old
  have count := countP_set (· ≠ 0) gcZone.logicalBlocks 0 old
  simp only [decide_not, held, decide_false, Bool.not_false, ite_true, decide_true, Bool.not_true, Bool.false_eq_true,
    ite_false, Nat.add_zero] at count
  have counted := mapped.counted gcZone (List.mem_of_getElem? found)
  simp only [decide_not] at counted
  refine ⟨mapped.set found inside rfl rfl ?_ (fun zero => absurd rfl zero), gcEntry_set found inside rfl, ?_⟩
  · change gcZone.nrValidBlocks - 1 = _
    simp only [decide_not]
    omega
  · have total := sum_map_modify GcZone.nrValidBlocks (GcZone.vacate slot) lsm.gcZones found
    change _ + gcZone.nrValidBlocks = _ + (gcZone.nrValidBlocks - 1) at total
    omega

/-- The second half: a free slot is taken. -/
theorem Mapped.occupy (mapped : Mapped lsm) (written : lsm.Written index slot) (free : lsm.gcEntry index slot = 0)
    {entry : Nat} (filled : entry ≠ 0) :
    Mapped { lsm with gcZones := lsm.gcZones.modify index (GcZone.occupy slot entry) } ∧
      (∀ other place, gcEntry { lsm with gcZones := lsm.gcZones.modify index (GcZone.occupy slot entry) } other place =
        if other = index ∧ place = slot then entry else lsm.gcEntry other place) ∧
      ((lsm.gcZones.modify index (GcZone.occupy slot entry)).map GcZone.nrValidBlocks).sum =
        (lsm.gcZones.map GcZone.nrValidBlocks).sum + 1 := by
  obtain ⟨gcZone, empty, found, old, same⟩ := mapped.gcZone written
  rw [same] at free
  subst free
  obtain ⟨inside, _⟩ := List.getElem?_eq_some_iff.mp old
  have count := countP_set (· ≠ 0) gcZone.logicalBlocks entry old
  simp only [decide_not, filled, decide_false, Bool.not_false, ite_true, decide_true, Bool.not_true, Bool.false_eq_true,
    ite_false, Nat.add_zero] at count
  have counted := mapped.counted gcZone (List.mem_of_getElem? found)
  simp only [decide_not] at counted
  refine ⟨mapped.set found inside rfl rfl ?_ (fun _ => written), gcEntry_set found inside rfl, ?_⟩
  · change gcZone.nrValidBlocks + 1 = _
    simp only [decide_not]
    omega
  · have total := sum_map_modify GcZone.nrValidBlocks (GcZone.occupy slot entry) lsm.gcZones found
    change _ + gcZone.nrValidBlocks = _ + (gcZone.nrValidBlocks + 1) at total
    omega

theorem Mapped.onEngine {before after : Lsm} (mapped : Mapped before) (allocator : after.allocator = before.allocator)
    (gcZones : after.gcZones = before.gcZones) : Mapped after := by
  refine ⟨?_, ?_, ?_, ?_⟩
  · rw [allocator, gcZones]
    exact mapped.zones
  · rw [allocator, gcZones]
    exact mapped.sizes
  · rw [gcZones]
    exact mapped.counted
  · intro index slot held
    have same : before.gcEntry index slot = after.gcEntry index slot := by simp only [gcEntry, gcZones]
    obtain ⟨zone, found, rest⟩ := mapped.written index slot (same ▸ held)
    exact ⟨zone, allocator ▸ found, rest⟩

theorem encodeLogicalBlock_ne_zero (logicalBlock : Nat) : encodeLogicalBlock logicalBlock ≠ 0 := Nat.succ_ne_zero _

end Commit

section Index
variable {lsm : Lsm} (indexed : Indexed lsm)

theorem SlotAt.sector_eq {index slot sector other : Nat} (place : lsm.SlotAt index slot sector)
    (place' : lsm.SlotAt index slot other) : sector = other := by
  obtain ⟨zone, found, same, _⟩ := place
  obtain ⟨_, found', same', _⟩ := place'
  cases found.symm.trans found'
  rw [same, same']

theorem Written.slotAt {index slot : Nat} (written : lsm.Written index slot) : ∃ sector, lsm.SlotAt index slot sector := by
  obtain ⟨zone, found, inside, _⟩ := written
  exact ⟨_, zone, found, rfl, inside⟩

include indexed

/-- A block has one place in the reverse maps. -/
theorem Indexed.slot_unique (apart : lsm.SlotsApart) {index slot index' slot' logicalBlock : Nat}
    (held : lsm.gcEntry index slot = encodeLogicalBlock logicalBlock)
    (held' : lsm.gcEntry index' slot' = encodeLogicalBlock logicalBlock) : index = index' ∧ slot = slot' := by
  obtain ⟨sector, place⟩ := (indexed.written index slot (by rw [held]; exact Nat.succ_ne_zero _)).slotAt
  obtain ⟨sector', place'⟩ := (indexed.written index' slot' (by rw [held']; exact Nat.succ_ne_zero _)).slotAt
  have first := (indexed.located logicalBlock sector).mpr ⟨index, slot, place, held⟩
  have second := (indexed.located logicalBlock sector').mpr ⟨index', slot', place', held'⟩
  have same : sector = sector' := Nat.succ.inj (Option.some.inj (first.symm.trans second))
  exact apart index slot index' slot' sector place (same ▸ place')

/-- A sector serves one block. -/
theorem Indexed.block_unique {logicalBlock other sector : Nat} (apart : lsm.SlotsApart)
    (held : lsm.latest logicalBlock = some (encodePhysicalSector sector))
    (held' : lsm.latest other = some (encodePhysicalSector sector)) : logicalBlock = other := by
  obtain ⟨index, slot, place, entry⟩ := (indexed.located _ _).mp held
  obtain ⟨index', slot', place', entry'⟩ := (indexed.located _ _).mp held'
  obtain ⟨rfl, rfl⟩ := apart index slot index' slot' sector place place'
  exact Nat.succ.inj (entry.symm.trans entry')

/-- The location that `zns_lsm_update_gc_block_location` gives up. -/
def Replaces (lsm : Lsm) (logicalBlock : Nat) : Option (Nat × Nat) → Prop
  | none => lsm.latest logicalBlock = none
  | some (index, slot) => lsm.gcEntry index slot = encodeLogicalBlock logicalBlock

private theorem located_commit {after : Lsm} {logicalBlock physicalSector index slot : Nat}
    (place : lsm.SlotAt index slot physicalSector) (free : lsm.gcEntry index slot = 0)
    (allocator : after.allocator = lsm.allocator)
    (latest : after.latest = fun block =>
      if block = logicalBlock then some (encodePhysicalSector physicalSector) else lsm.latest block)
    (entries : ∀ other spot, after.gcEntry other spot =
      if other = index ∧ spot = slot then encodeLogicalBlock logicalBlock
      else if lsm.gcEntry other spot = encodeLogicalBlock logicalBlock then 0 else lsm.gcEntry other spot)
    (block sector : Nat) :
    after.latest block = some (encodePhysicalSector sector) ↔
      ∃ other spot, after.SlotAt other spot sector ∧ after.gcEntry other spot = encodeLogicalBlock block := by
  have slots (other spot sector : Nat) : after.SlotAt other spot sector ↔ lsm.SlotAt other spot sector := by
    unfold SlotAt
    rw [allocator]
  simp only [latest, slots, entries]
  by_cases here : block = logicalBlock
  · subst here
    simp only [ite_true, Option.some.injEq, encodePhysicalSector, Nat.add_right_cancel_iff]
    constructor
    · rintro rfl
      exact ⟨index, slot, place, by simp⟩
    · rintro ⟨other, spot, place', held⟩
      split at held
      next same =>
        obtain ⟨rfl, rfl⟩ := same
        exact place.sector_eq place'
      next _ =>
        split at held
        · cases held
        next different => exact absurd held different
  · rw [if_neg here, indexed.located]
    constructor
    · rintro ⟨other, spot, place', held⟩
      refine ⟨other, spot, place', ?_⟩
      have different : ¬ (other = index ∧ spot = slot) := by
        rintro ⟨rfl, rfl⟩
        rw [free] at held
        cases held
      rw [if_neg different, if_neg, held]
      rw [held]
      exact fun same => here (Nat.succ.inj same)
    · rintro ⟨other, spot, place', held⟩
      refine ⟨other, spot, place', ?_⟩
      split at held
      · exact absurd (Nat.succ.inj held).symm here
      · split at held
        · cases held
        · exact held

/-- A new block enters the index. -/
theorem Indexed.insert {logicalBlock physicalSector index slot : Nat}
    (place : lsm.SlotAt index slot physicalSector) (written : lsm.Written index slot) (free : lsm.gcEntry index slot = 0)
    (bound : logicalBlock < lsm.logicalBlocks) (absent : lsm.latest logicalBlock = none) :
    Indexed (lsm.gcCommit logicalBlock physicalSector none (index, slot)) := by
  obtain ⟨mapped, entries, sum⟩ := indexed.toMapped.occupy written free (encodeLogicalBlock_ne_zero logicalBlock)
  have unheld (other spot : Nat) : lsm.gcEntry other spot ≠ encodeLogicalBlock logicalBlock := by
    intro held
    obtain ⟨sector, place⟩ := (indexed.written other spot (by rw [held]; exact Nat.succ_ne_zero _)).slotAt
    rw [(indexed.located logicalBlock sector).mpr ⟨other, spot, place, held⟩] at absent
    cases absent
  refine ⟨mapped.onEngine rfl rfl, located_commit indexed place free rfl rfl ?_, ?_, ?_, ?_, ?_⟩
  · intro other spot
    rw [if_neg (unheld other spot)]
    exact entries other spot
  · intro block entry held
    simp only [gcCommit] at held
    split at held
    · cases held
      exact Nat.succ_ne_zero _
    · exact indexed.encoded block entry held
  · intro block held
    simp only [gcCommit] at held
    split at held
    next same => rwa [same]
    next _ => exact indexed.inRange block held
  · have added := countP_range_insert (fun block => (lsm.latest block).isSome) bound (by rw [absent]; rfl)
    have total := indexed.total
    simp only [gcCommit, logicalBlocks] at total added ⊢
    rw [total, ← added]
    apply List.countP_congr
    intro block _
    by_cases here : block = logicalBlock <;> simp [here]
  · have summed := indexed.summed
    refine Eq.trans ?_ sum.symm
    simp only [gcCommit]
    omega

/-- A block that was indexed moves. -/
private theorem Indexed.relocate {logicalBlock physicalSector index slot oldIndex oldSlot : Nat} (apart : lsm.SlotsApart)
    (place : lsm.SlotAt index slot physicalSector) (written : lsm.Written index slot) (free : lsm.gcEntry index slot = 0)
    (held : lsm.gcEntry oldIndex oldSlot = encodeLogicalBlock logicalBlock) :
    Indexed (lsm.gcCommit logicalBlock physicalSector (some (oldIndex, oldSlot)) (index, slot)) := by
  have filled : lsm.gcEntry oldIndex oldSlot ≠ 0 := by rw [held]; exact Nat.succ_ne_zero _
  obtain ⟨vacated, cleared, less⟩ := indexed.toMapped.vacate filled
  have free' : gcEntry { lsm with gcZones := lsm.gcZones.modify oldIndex (GcZone.vacate oldSlot) } index slot = 0 := by
    rw [cleared, free, ite_self]
  have known : (lsm.latest logicalBlock).isSome := by
    obtain ⟨sector, oldPlace⟩ := (indexed.written oldIndex oldSlot filled).slotAt
    rw [(indexed.located logicalBlock sector).mpr ⟨oldIndex, oldSlot, oldPlace, held⟩]
    rfl
  obtain ⟨mapped, entries, sum⟩ := vacated.occupy written free' (encodeLogicalBlock_ne_zero logicalBlock)
  refine ⟨mapped.onEngine rfl rfl, located_commit indexed place free rfl rfl ?_, ?_, ?_, ?_, ?_⟩
  · intro other spot
    refine (entries other spot).trans ?_
    rw [cleared]
    by_cases here : other = index ∧ spot = slot
    · rw [if_pos here, if_pos here]
    · rw [if_neg here, if_neg here]
      by_cases old : other = oldIndex ∧ spot = oldSlot
      · rw [if_pos old, old.1, old.2, if_pos held]
      · rw [if_neg old, if_neg]
        exact fun same => old (indexed.slot_unique apart same held)
  · intro block entry held
    simp only [gcCommit] at held
    split at held
    · cases held
      exact Nat.succ_ne_zero _
    · exact indexed.encoded block entry held
  · intro block held
    simp only [gcCommit] at held
    split at held
    next same =>
      rw [same]
      exact indexed.inRange logicalBlock known
    next _ => exact indexed.inRange block held
  · have total := indexed.total
    simp only [gcCommit, logicalBlocks] at total ⊢
    rw [total]
    apply List.countP_congr
    intro block _
    by_cases here : block = logicalBlock
    · subst here
      simp [known]
    · simp [here]
  · have summed := indexed.summed
    refine Eq.trans ?_ sum.symm
    simp only [gcCommit]
    omega

end Index

/-- `zns_lsm_update_gc_block_location` with a slot that was just written: it
never fails, and the indexes stay in step. -/
theorem updateGcBlockLocation_fresh {machine : Machine} {log : Extent} {logicalBlock physicalSector index slot : Nat}
    (attached : Attached machine log) (indexed : Indexed machine.lsm) (place : machine.lsm.SlotAt index slot physicalSector)
    (written : machine.lsm.Written index slot) (free : machine.lsm.gcEntry index slot = 0)
    (bound : logicalBlock < machine.lsm.logicalBlocks) :
    ∃ old, updateGcBlockLocation logicalBlock physicalSector machine.lsm =
        (.ok (), machine.lsm.gcCommit logicalBlock physicalSector old (index, slot)) ∧
      Indexed (machine.lsm.gcCommit logicalBlock physicalSector old (index, slot)) := by
  have apart := slotsApart attached
  rw [updateGcBlockLocation, physicalToGcSlot_written attached place written]
  dsimp only
  rw [if_neg (by rw [free]; exact fun differs => differs rfl)]
  cases known : machine.lsm.latest logicalBlock with
  | none => exact ⟨none, rfl, indexed.insert place written free bound known⟩
  | some entry =>
    obtain ⟨sector, rfl⟩ : ∃ sector, entry = encodePhysicalSector sector :=
      ⟨entry - 1, (Nat.succ_pred_eq_of_ne_zero (indexed.encoded logicalBlock entry known)).symm⟩
    obtain ⟨oldIndex, oldSlot, oldPlace, held⟩ := (indexed.located logicalBlock sector).mp known
    have oldWritten := indexed.written oldIndex oldSlot (by rw [held]; exact Nat.succ_ne_zero _)
    have decoded : decodePhysicalSector (encodePhysicalSector sector) = sector := rfl
    dsimp only
    rw [decoded, physicalToGcSlot_written attached oldPlace oldWritten]
    dsimp only
    rw [if_neg (fun differs => differs held)]
    exact ⟨some (oldIndex, oldSlot), rfl, indexed.relocate apart place written free held⟩

/-- Its failures come before any change. -/
theorem updateGcBlockLocation_error {lsm after : Lsm} {logicalBlock physicalSector : Nat} {error : Errno}
    (ran : updateGcBlockLocation logicalBlock physicalSector lsm = (.error error, after)) : after = lsm := by
  unfold updateGcBlockLocation at ran
  repeat' split at ran
  all_goals cases ran
  all_goals rfl

end Lsm
end ZnsBase
