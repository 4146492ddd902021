import ZnsBase.Proofs.WriteSteps

/-! The allocator's picture of the device while writes are not stopped: every
data zone has the device's write pointer, or is full on both sides. -/

namespace ZnsBase
open Library

namespace Lsm

/-- One zone of the allocator, and where the device has it. -/
inductive Mirror (zone : Zone) (pointer : Nat) (condition : ZoneCond) : Prop
  | inUse (known : zone.condition ≠ .full) (unfilled : condition ≠ .full) (same : pointer = zone.writePointer)
      (readonly : condition = .readonly ↔ zone.condition = .readonly)
      (offline : condition = .offline ↔ zone.condition = .offline)
      (bounds : zone.IsWritable → zone.startSector ≤ zone.writePointer ∧ zone.writePointer ≤ zone.endSector)
  | filled (full : condition = .full)
      (known : zone.condition = .full ∨ zone.IsWritable ∧ zone.writePointer = zone.endSector)

/-- All data zones but one are where the allocator has them. -/
def MirrorsBut (machine : Machine) (index : Nat) : Prop :=
  ∀ other zone, other ≠ index → machine.lsm.allocator.zones[other]? = some zone →
    Mirror zone (machine.world.writePointer other) (machine.world.condition other)

def Mirrors (machine : Machine) : Prop :=
  ∀ index zone, machine.lsm.allocator.zones[index]? = some zone →
    Mirror zone (machine.world.writePointer index) (machine.world.condition index)

/-- Writes may go on: the zones are as the allocator knows them, and the reserve
is empty. -/
structure Ready (machine : Machine) : Prop where
  mirrors : Mirrors machine
  reserve : ∃ zone, machine.lsm.allocator.zones[machine.lsm.allocator.reserveZone]? = some zone ∧ Vacant zone

theorem Mirror.room {zone : Zone} {pointer : Nat} {condition : ZoneCond} (mirror : Mirror zone pointer condition)
    (room : zone.CanAppend blockSectors) :
    pointer = zone.writePointer ∧ condition ≠ .full ∧ condition ≠ .readonly ∧ condition ≠ .offline := by
  cases mirror with
  | inUse _ unfilled same readonly offline _ =>
    exact ⟨same, unfilled, fun stuck => room.2.1 (readonly.mp stuck), fun gone => room.2.2.1 (offline.mp gone)⟩
  | filled _ known =>
    rcases known with full | ⟨_, ends⟩
    · exact absurd full room.1
    · have fits := room.fits
      simp only [blockSectors] at fits
      omega

/-- Where the allocator appends, the device accepts. -/
theorem Mirror.accepts {zone : Zone} {world : World} {index : Nat}
    (mirror : Mirror zone (world.writePointer index) (world.condition index)) (room : zone.CanAppend blockSectors) :
    world.Accepts index zone.extent zone.writePointer := by
  obtain ⟨pointer, unfilled, writable, online⟩ := mirror.room room
  exact ⟨unfilled, writable, online, pointer.symm, room.fits⟩

/-- A committed block brings the device to where the allocator went ahead. -/
theorem Mirror.commit {zone : Zone} {world after : World} {index : Nat} {bytes : Nat → UInt8}
    (room : zone.CanAppend blockSectors) (low : zone.startSector ≤ zone.writePointer)
    (same : (world.commit index zone.extent zone.writePointer bytes).SameDevice after) :
    Mirror { zone with writePointer := zone.writePointer + blockSectors } (after.writePointer index)
      (after.condition index) := by
  have fits := room.fits
  rw [same.writePointer, same.condition]
  unfold World.commit
  split
  next ends =>
    refine .filled (by simp [World.setZone]) (Or.inr ⟨⟨room.1, room.2.1, room.2.2.1⟩, ?_⟩)
    exact ends
  next _ =>
    refine .inUse room.1 ?_ (by simp [World.setZone]) ?_ ?_ (fun _ => ⟨?_, ?_⟩)
    · simp only [World.setZone, ite_true]
      split <;> simp
    · simp only [World.setZone, ite_true, room.2.1, iff_false]
      split <;> simp
    · simp only [World.setZone, ite_true, room.2.2.1, iff_false]
      split <;> simp
    · exact low.trans (Nat.le_add_right _ _)
    · exact fits

/-- Everything mapped is below the device's own write pointer. -/
theorem Mirror.written {zone : Zone} {pointer sector : Nat} {condition : ZoneCond} (mirror : Mirror zone pointer condition)
    (written : sector < zone.writePointer ∨ zone.condition = .full) : sector < pointer ∨ condition = .full := by
  cases mirror with
  | inUse known _ same _ _ _ =>
    rcases written with below | full
    · exact Or.inl (same ▸ below)
    · exact absurd full known
  | filled full _ => exact Or.inr full

theorem Mirrors.but {machine : Machine} (mirrors : Mirrors machine) (index : Nat) : MirrorsBut machine index :=
  fun other zone _ found => mirrors other zone found

theorem MirrorsBut.mirrors {machine : Machine} {index : Nat} {zone : Zone} (others : MirrorsBut machine index)
    (found : machine.lsm.allocator.zones[index]? = some zone)
    (mirror : Mirror zone (machine.world.writePointer index) (machine.world.condition index)) : Mirrors machine := by
  intro other current held
  by_cases here : other = index
  · subst here
    cases found.symm.trans held
    exact mirror
  · exact others other current here held

theorem MirrorsBut.of_same {before after : Machine} {index : Nat} (others : MirrorsBut before index)
    (zones : ∀ other, other ≠ index → after.lsm.allocator.zones[other]? = before.lsm.allocator.zones[other]?)
    (device : ∀ other, other ≠ index → after.world.writePointer other = before.world.writePointer other ∧
      after.world.condition other = before.world.condition other) : MirrorsBut after index := by
  intro other zone different found
  rw [zones other different] at found
  obtain ⟨pointer, condition⟩ := device other different
  rw [pointer, condition]
  exact others other zone different found

theorem Mirrors.of_same {before after : Machine} (mirrors : Mirrors before)
    (allocator : after.lsm.allocator = before.lsm.allocator) (device : before.world.SameDevice after.world) :
    Mirrors after := by
  intro index zone found
  rw [allocator] at found
  rw [device.writePointer, device.condition]
  exact mirrors index zone found

theorem Ready.of_same {before after : Machine} (ready : Ready before)
    (allocator : after.lsm.allocator = before.lsm.allocator) (device : before.world.SameDevice after.world) :
    Ready after :=
  ⟨ready.mirrors.of_same allocator device, by rw [allocator]; exact ready.reserve⟩

/-- A block was handed out and not written yet. -/
structure Taken (machine : Machine) (index slot : Nat) (zone : Zone) : Prop where
  fresh : Fresh machine.lsm index slot zone.writePointer
  found : machine.lsm.allocator.zones[index]? = some { zone with writePointer := zone.writePointer + blockSectors }
  room : zone.CanAppend blockSectors
  mirror : Mirror zone (machine.world.writePointer index) (machine.world.condition index)
  others : MirrorsBut machine index

theorem Taken.low {machine : Machine} {index slot : Nat} {zone : Zone} (taken : Taken machine index slot zone) :
    zone.startSector ≤ zone.writePointer := by
  obtain ⟨held, found, same, _⟩ := taken.fresh.place
  cases taken.found.symm.trans found
  dsimp only at same
  omega

theorem Coherent.taken [Kernel] {machine : Machine} {log : Extent} {limit : Nat} {lossless : Prop} (coherent : Coherent machine log limit lossless)
    (mirrors : Mirrors machine) {allocator : Allocator} {index : Nat} {zone : Zone}
    (takes : machine.lsm.allocator.Takes allocator index zone) :
    Coherent { machine with lsm.allocator := allocator } log limit lossless ∧
      Taken { machine with lsm.allocator := allocator } index ((zone.writePointer - zone.startSector) / blockSectors) zone := by
  obtain ⟨coherent', fresh⟩ := coherent.take takes
  have room := takes.room
  have zones := takes.zones
  rw [coherent.attached.block] at room zones
  obtain ⟨bound, _⟩ := List.getElem?_eq_some_iff.mp takes.found
  refine ⟨coherent', fresh, ?_, room, mirrors index zone takes.found, ?_⟩
  · simp only [zones, List.getElem?_set_self bound]
  · refine (mirrors.but index).of_same (fun other different => ?_) (fun other _ => ⟨rfl, rfl⟩)
    simp only [zones, List.getElem?_set_ne (Ne.symm different)]

end Lsm
end ZnsBase
