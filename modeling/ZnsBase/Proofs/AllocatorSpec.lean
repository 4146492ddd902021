import ZnsBase.Allocator

/-! What the allocator hands out: the write pointer of a zone with room, outside
the reserve for user writes and inside it for moves. An allocation that fails
found no room anywhere it may look. -/

namespace ZnsBase
namespace Allocator

/-- The parts of an allocator no append operation touches. -/
structure Keeps (before after : Allocator) : Prop where
  mode : after.mode = before.mode
  sectorsPerBlock : after.sectorsPerBlock = before.sectorsPerBlock
  reserveZone : after.reserveZone = before.reserveZone

theorem Keeps.refl (allocator : Allocator) : Keeps allocator allocator := ⟨rfl, rfl, rfl⟩

theorem Keeps.trans {first second third : Allocator} (earlier : Keeps first second) (later : Keeps second third) :
    Keeps first third :=
  ⟨later.mode.trans earlier.mode, later.sectorsPerBlock.trans earlier.sectorsPerBlock,
    later.reserveZone.trans earlier.reserveZone⟩

/-- One block of zone `index` was handed out. -/
structure Takes (before after : Allocator) (index : Nat) (zone : Zone) : Prop extends Keeps before after where
  found : before.zones[index]? = some zone
  room : zone.CanAppend before.sectorsPerBlock
  zones : after.zones =
    before.zones.set index { zone with writePointer := zone.writePointer + before.sectorsPerBlock }

/-- A zone user writes may still go to. -/
def Open (allocator : Allocator) (index : Nat) : Prop :=
  ∃ zone, allocator.zones[index]? = some zone ∧ index ≠ allocator.reserveZone ∧
    zone.CanAppend allocator.sectorsPerBlock

theorem hasSpace_iff (allocator : Allocator) : allocator.hasSpace = true ↔ ∃ index, allocator.Open index := by
  simp only [hasSpace, List.any_eq_true, List.mem_range]
  constructor
  · rintro ⟨index, bound, holds⟩
    rw [List.getElem?_eq_getElem bound] at holds
    exact ⟨index, _, List.getElem?_eq_getElem bound, by simpa using holds⟩
  · rintro ⟨index, zone, found, room⟩
    obtain ⟨bound, _⟩ := List.getElem?_eq_some_iff.mp found
    refine ⟨index, bound, ?_⟩
    rw [found]
    simpa using room

/-- The zone `step` places after `first`, cyclically. -/
def cyclic (allocator : Allocator) (first step : Nat) : Nat := (first + step) % allocator.zones.length

/-- A scan took a block of the first open zone from `first` on. -/
structure TakesFirst (before after : Allocator) (first step : Nat) (zone : Zone) : Prop where
  bound : step < before.zones.length
  found : before.zones[before.cyclic first step]? = some zone
  apart : before.cyclic first step ≠ before.reserveZone
  room : zone.CanAppend before.sectorsPerBlock
  skipped : ∀ earlier < step, ¬ before.Open (before.cyclic first earlier)
  after_eq : after = { before with
    zones := before.zones.set (before.cyclic first step)
      { zone with writePointer := zone.writePointer + before.sectorsPerBlock }
    activeZone := after.activeZone }

theorem TakesFirst.takes {before after : Allocator} {first step : Nat} {zone : Zone}
    (takes : TakesFirst before after first step zone) : before.Takes after (before.cyclic first step) zone := by
  obtain ⟨_, found, _, room, _, same⟩ := takes
  rw [same]
  exact ⟨⟨rfl, rfl, rfl⟩, found, room, rfl⟩

private theorem allocScan_spec (checks : Nat) (allocator : Allocator) (inside : allocator.activeZone < allocator.zones.length)
    (enough : checks ≤ allocator.zones.length) :
    (∃ step zone, step < checks ∧ (allocScan allocator checks).1 = .ok zone.writePointer ∧
        TakesFirst allocator (allocScan allocator checks).2 allocator.activeZone step zone) ∨
      ((allocScan allocator checks).1 = .error .enospc ∧
        (allocScan allocator checks).2 = { allocator with activeZone := (allocScan allocator checks).2.activeZone } ∧
        ∀ step < checks, ¬ allocator.Open (allocator.cyclic allocator.activeZone step)) := by
  induction checks generalizing allocator with
  | zero => exact Or.inr ⟨rfl, rfl, fun step less => absurd less (Nat.not_lt_zero _)⟩
  | succ checks ih =>
    have found := List.getElem?_eq_getElem inside
    have here : allocator.cyclic allocator.activeZone 0 = allocator.activeZone := Nat.mod_eq_of_lt inside
    rw [allocScan, found]
    dsimp only
    split
    next room =>
      refine Or.inl ⟨0, _, Nat.succ_pos _, rfl, ?_⟩
      refine ⟨by omega, by rw [here]; exact found, by rw [here]; exact room.1, room.2,
        fun earlier less => absurd less (Nat.not_lt_zero _), ?_⟩
      rw [here]
    next closed =>
      have positive : 0 < allocator.zones.length := by omega
      have next (step : Nat) : cyclic { allocator with activeZone := (allocator.activeZone + 1) % allocator.zones.length }
          ((allocator.activeZone + 1) % allocator.zones.length) step = allocator.cyclic allocator.activeZone (step + 1) := by
        simp only [cyclic, Nat.mod_add_mod]
        congr 1
        omega
      have skipped (more : Nat) (later : ∀ step < more, ¬ allocator.Open (allocator.cyclic allocator.activeZone (step + 1))) :
          ∀ step < more + 1, ¬ allocator.Open (allocator.cyclic allocator.activeZone step) := by
        intro step less
        cases step with
        | zero =>
          rw [here]
          rintro ⟨zone, same, room⟩
          rw [found] at same
          cases same
          exact closed room
        | succ step => exact later step (by omega)
      have further := ih { allocator with activeZone := (allocator.activeZone + 1) % allocator.zones.length }
        (Nat.mod_lt _ positive) (by dsimp only; omega)
      dsimp only at further
      rcases further with ⟨step, zone, less, ok, takes⟩ | ⟨failed, same, shut⟩
      · refine Or.inl ⟨step + 1, zone, by omega, ok, ?_⟩
        obtain ⟨bound, there, apart, room, earlier, same⟩ := takes
        simp only [next] at there apart earlier same
        exact ⟨by omega, there, apart, room, skipped step earlier, same⟩
      · simp only [next] at shut
        exact Or.inr ⟨failed, same, skipped checks shut⟩

/-- Where `zns_allocator_alloc_zoned` begins its scan. -/
def scanStart (allocator : Allocator) : Nat :=
  if allocator.activeZone ≥ allocator.zones.length then 0 else allocator.activeZone

/-- Every zone is some number of steps after the first one looked at. -/
private theorem cyclic_reaches {allocator : Allocator} {first index : Nat} (inside : first < allocator.zones.length)
    (bound : index < allocator.zones.length) : ∃ step < allocator.zones.length, allocator.cyclic first step = index := by
  refine ⟨(index + allocator.zones.length - first) % allocator.zones.length, Nat.mod_lt _ (by omega), ?_⟩
  rw [cyclic, Nat.add_mod_mod, show first + (index + allocator.zones.length - first) = index + allocator.zones.length by omega,
    Nat.add_mod_right, Nat.mod_eq_of_lt bound]

theorem alloc_first {allocator : Allocator} (zoned : allocator.mode = .zoned) :
    (∃ step zone, allocator.alloc.1 = .ok zone.writePointer ∧
        TakesFirst allocator allocator.alloc.2 allocator.scanStart step zone) ∨
      (allocator.alloc.1 = .error .enospc ∧
        allocator.alloc.2 = { allocator with activeZone := allocator.alloc.2.activeZone } ∧ allocator.hasSpace = false) := by
  have scan : allocator.alloc = allocScan { allocator with activeZone := allocator.scanStart } allocator.zones.length := by
    rw [alloc, if_pos zoned]
    rfl
  rw [scan]
  rcases Nat.eq_zero_or_pos allocator.zones.length with none_ | some_
  · rw [none_]
    refine Or.inr ⟨rfl, rfl, ?_⟩
    simp [hasSpace, none_]
  · have inside : allocator.scanStart < allocator.zones.length := by
      unfold scanStart
      split <;> omega
    rcases allocScan_spec allocator.zones.length { allocator with activeZone := allocator.scanStart } inside (Nat.le_refl _) with
      ⟨step, zone, _, ok, takes⟩ | ⟨failed, same, shut⟩
    · exact Or.inl ⟨step, zone, ok, takes.bound, takes.found, takes.apart, takes.room, takes.skipped, takes.after_eq⟩
    · refine Or.inr ⟨failed, same, ?_⟩
      rw [← Bool.not_eq_true, hasSpace_iff]
      rintro ⟨index, zone, found, apart, room⟩
      obtain ⟨bound, _⟩ := List.getElem?_eq_some_iff.mp found
      obtain ⟨step, less, reached⟩ := cyclic_reaches inside bound
      refine shut step less ⟨zone, ?_, ?_, room⟩
      · change allocator.zones[allocator.cyclic allocator.scanStart step]? = some zone
        rw [reached]
        exact found
      · change allocator.cyclic allocator.scanStart step ≠ allocator.reserveZone
        rw [reached]
        exact apart

theorem alloc_spec {allocator : Allocator} (zoned : allocator.mode = .zoned) :
    (∃ index zone, allocator.alloc.1 = .ok zone.writePointer ∧ index ≠ allocator.reserveZone ∧
        allocator.Takes allocator.alloc.2 index zone) ∨
      (allocator.alloc.1 = .error .enospc ∧ allocator.Keeps allocator.alloc.2 ∧
        allocator.alloc.2.zones = allocator.zones ∧ allocator.hasSpace = false) := by
  rcases alloc_first zoned with ⟨step, zone, ok, takes⟩ | ⟨failed, same, full⟩
  · exact Or.inl ⟨_, zone, ok, takes.apart, takes.takes⟩
  · refine Or.inr ⟨failed, ?_, ?_, full⟩
    · rw [same]
      exact ⟨rfl, rfl, rfl⟩
    · rw [same]

/-- User allocation and the check for space agree, whatever the cursor and the
reserve: the first open zone in cyclic order gives its next block, and no other
zone changes. -/
theorem alloc_agrees_with_hasSpace (allocator : Allocator) (zoned : allocator.mode = .zoned) :
    ((∃ sector, allocator.alloc.1 = .ok sector) ↔ allocator.hasSpace = true) ∧
    (allocator.hasSpace = true → ∃ step zone, allocator.alloc.1 = .ok zone.writePointer ∧
      TakesFirst allocator allocator.alloc.2 allocator.scanStart step zone) ∧
    (allocator.hasSpace = false → allocator.alloc.1 = .error .enospc ∧
      allocator.alloc.2 = { allocator with activeZone := allocator.alloc.2.activeZone }) := by
  rcases alloc_first zoned with ⟨step, zone, ok, takes⟩ | ⟨failed, same, full⟩
  · have space : allocator.hasSpace = true :=
      (hasSpace_iff allocator).mpr ⟨_, zone, takes.found, takes.apart, takes.room⟩
    refine ⟨⟨fun _ => space, fun _ => ⟨_, ok⟩⟩, fun _ => ⟨step, zone, ok, takes⟩, fun none_ => ?_⟩
    rw [space] at none_
    cases none_
  · refine ⟨⟨fun ⟨sector, ok⟩ => ?_, fun space => ?_⟩, fun space => ?_, fun _ => ⟨failed, same⟩⟩
    · rw [failed] at ok
      cases ok
    · rw [full] at space
      cases space
    · rw [full] at space
      cases space

/-- With the reserve first and the cursor past the end, the second zone serves. -/
theorem alloc_skips_reserve : ∃ sector, (Allocator.alloc ⟨0, 0, [⟨0, 0, 16, 16, 0, .empty, false⟩,
    ⟨1, 16, 16, 16, 24, .impOpen, true⟩], 2, 0, 8, .zoned⟩).1 = .ok sector :=
  (alloc_agrees_with_hasSpace _ rfl).1.mpr rfl

theorem allocGc_spec (allocator : Allocator) :
    (∃ zone, allocator.allocGc.1 = .ok zone.writePointer ∧
        allocator.Takes allocator.allocGc.2 allocator.reserveZone zone) ∨
      (∃ error, allocator.allocGc.1 = .error error ∧ allocator.allocGc.2 = allocator ∧
        ∀ zone, allocator.zones[allocator.reserveZone]? = some zone → ¬ zone.CanAppend allocator.sectorsPerBlock) := by
  unfold allocGc
  cases found : allocator.zones[allocator.reserveZone]? with
  | none => exact Or.inr ⟨.einval, rfl, rfl, nofun⟩
  | some zone =>
    dsimp only
    split
    next room => exact Or.inl ⟨zone, rfl, ⟨rfl, rfl, rfl⟩, found, room, rfl⟩
    next full => exact Or.inr ⟨.enospc, rfl, rfl, fun other same => by cases same; exact full⟩

theorem setReserveAfterReset_spec (allocator : Allocator) (victim : Nat) :
    (∃ zone, allocator.zones[victim]? = some zone ∧ victim ≠ allocator.reserveZone ∧
        allocator.setReserveAfterReset victim = (.ok (), { allocator with
          zones := allocator.zones.set victim { zone with writePointer := zone.startSector, condition := .empty }
          reserveZone := victim })) ∨
      allocator.setReserveAfterReset victim = (.error .einval, allocator) := by
  unfold setReserveAfterReset
  split
  next _ => exact Or.inr rfl
  next apart =>
    cases found : allocator.zones[victim]? with
    | none => exact Or.inr rfl
    | some zone => exact Or.inl ⟨zone, rfl, apart, rfl⟩

theorem zoneStarting_eq_some {allocator : Allocator} {index : Nat} {zone : Zone} (found : allocator.zones[index]? = some zone)
    (unique : ∀ (other : Nat) (current : Zone), allocator.zones[other]? = some current →
      current.startSector = zone.startSector → other = index) :
    allocator.zoneStarting zone.startSector = some index := by
  obtain ⟨bound, held⟩ := List.getElem?_eq_some_iff.mp found
  rw [zoneStarting, List.findIdx?_eq_some_iff_getElem]
  refine ⟨bound, by simp [held], ?_⟩
  intro earlier less same
  simp only [decide_eq_true_eq] at same
  have := unique earlier _ (List.getElem?_eq_getElem (by omega)) same
  omega

theorem zoneStarting_start {allocator : Allocator} {start index : Nat} {zone : Zone}
    (starting : allocator.zoneStarting start = some index) (found : allocator.zones[index]? = some zone) :
    zone.startSector = start := by
  obtain ⟨bound, held⟩ := List.getElem?_eq_some_iff.mp found
  rw [zoneStarting, List.findIdx?_eq_some_iff_getElem] at starting
  obtain ⟨_, same, _⟩ := starting
  simp only [decide_eq_true_eq] at same
  rw [← held]
  exact same

/-- What adopting a report does. The cursor goes to the zone, or past it when no
block is left there. -/
theorem resync_eq {allocator : Allocator} {failedSector index : Nat} {reported zone : Zone}
    (zoned : allocator.mode = .zoned) (positive : 0 < allocator.sectorsPerBlock)
    (starting : allocator.zoneStarting reported.startSector = some index) (found : allocator.zones[index]? = some zone)
    (accepts : ResyncAccepts zone allocator.sectorsPerBlock failedSector reported) :
    allocator.resync failedSector reported = (.ok (), { allocator with
      zones := allocator.zones.set index { zone with
        writePointer := reported.writePointer
        condition := reported.condition
        active := reported.active }
      activeZone := if reported.condition = .full ∨
        allocator.sectorsPerBlock > zone.endSector - reported.writePointer then index + 1 else index }) := by
  unfold resync
  dsimp only
  rw [if_neg (by rintro (linear | zero) <;> [exact linear zoned; omega]), starting]
  dsimp only
  rw [found]
  dsimp only
  rw [if_pos accepts]

/-- An open zone under the cursor is the one that serves. -/
theorem alloc_active {allocator : Allocator} {zone : Zone} (zoned : allocator.mode = .zoned)
    (found : allocator.zones[allocator.activeZone]? = some zone) (apart : allocator.activeZone ≠ allocator.reserveZone)
    (room : zone.CanAppend allocator.sectorsPerBlock) : allocator.alloc.1 = .ok zone.writePointer := by
  obtain ⟨bound, _⟩ := List.getElem?_eq_some_iff.mp found
  obtain ⟨others, count⟩ : ∃ others, allocator.zones.length = others + 1 := ⟨allocator.zones.length - 1, by omega⟩
  rw [alloc, if_pos zoned, allocZoned, if_neg (by omega), count, allocScan, found]
  dsimp only
  rw [if_pos ⟨apart, room⟩]

/-- A report is adopted for the one zone with its start, or nothing changes. -/
theorem resync_spec (allocator : Allocator) (failedSector : Nat) (reported : Zone) :
    (∃ index zone, (allocator.resync failedSector reported).1 = .ok () ∧
        allocator.zoneStarting reported.startSector = some index ∧ allocator.zones[index]? = some zone ∧
        ResyncAccepts zone allocator.sectorsPerBlock failedSector reported ∧
        allocator.Keeps (allocator.resync failedSector reported).2 ∧
        (allocator.resync failedSector reported).2.zones = allocator.zones.set index { zone with
          writePointer := reported.writePointer
          condition := reported.condition
          active := reported.active }) ∨
      ((allocator.resync failedSector reported).1 = .error .eio ∧
        (allocator.resync failedSector reported).2 = allocator) := by
  unfold resync
  dsimp only
  split
  next _ => exact Or.inr ⟨rfl, rfl⟩
  next _ =>
    cases started : allocator.zoneStarting reported.startSector with
    | none => exact Or.inr ⟨rfl, rfl⟩
    | some index =>
      dsimp only
      cases found : allocator.zones[index]? with
      | none => exact Or.inr ⟨rfl, rfl⟩
      | some zone =>
        dsimp only
        split
        next accepts => exact Or.inl ⟨index, zone, rfl, rfl, found, accepts, ⟨rfl, rfl, rfl⟩, rfl⟩
        next _ => exact Or.inr ⟨rfl, rfl⟩

end Allocator
end ZnsBase
