import ZnsBase.Proofs.Policies
import ZnsBase.Proofs.WritePath

/-! Collection of a zone and the append it makes room for. -/

namespace ZnsBase
open Library

namespace Lsm
variable [Kernel] {log : Extent} {limit : Nat} {lossless : Prop}

/-- Nothing fails, by the device or by injection. -/
structure Fine (params : Params) (machine : Machine) : Prop extends Supplied machine where
  dataWrites : params.failDataWriteAt = 0
  moveWrites : params.failGcMoveWriteAt = 0
  resets : params.failGcZoneResetAt = 0

theorem Fine.beside {params : Params} {before after : Machine} (fine : Fine params before) (beside : Beside before after log) :
    Fine params after :=
  ⟨fine.toSupplied.beside beside, fine.dataWrites, fine.moveWrites, fine.resets⟩

omit [Kernel] in
theorem pending_all {lsm : Lsm} (indexed : Indexed lsm) {id : Nat} {zone : Zone}
    (found : lsm.allocator.zones[id]? = some zone) :
    lsm.pending id (List.range (lsm.gcNrBlocks id)) = lsm.gcValid id := by
  obtain ⟨bound, _⟩ := List.getElem?_eq_some_iff.mp found
  rw [← indexed.zones] at bound
  have held := List.getElem?_eq_getElem bound
  obtain ⟨nrBlocks, length⟩ := indexed.sizes id zone _ found held
  have counted := indexed.counted _ (List.getElem_mem bound)
  simp only [pending, gcNrBlocks, gcValid, held, Option.map_some, Option.getD_some, gcEntry_eq held]
  rw [counted, nrBlocks, ← length]
  exact countP_range_getD (fun entry => decide (entry ≠ 0)) _ 0

omit [Kernel] in
theorem Indexed.slot_lt {lsm : Lsm} (indexed : Indexed lsm) {id slot : Nat} (filled : lsm.gcEntry id slot ≠ 0) :
    slot < lsm.gcNrBlocks id := by
  obtain ⟨zone, found, inside, _⟩ := indexed.written id slot filled
  obtain ⟨bound, _⟩ := List.getElem?_eq_some_iff.mp found
  rw [← indexed.zones] at bound
  have held := List.getElem?_eq_getElem bound
  obtain ⟨nrBlocks, _⟩ := indexed.sizes id zone _ found held
  simp only [gcNrBlocks, held, Option.map_some, Option.getD_some, nrBlocks]
  rw [Nat.lt_div_iff_mul_lt (by decide)]
  simp only [blockSectors] at inside ⊢
  omega

omit [Kernel] in
/-- No live block is left when the count says so, and conversely. -/
theorem gcValid_eq_zero {lsm : Lsm} (indexed : Indexed lsm) {id : Nat} {zone : Zone}
    (found : lsm.allocator.zones[id]? = some zone) :
    lsm.gcValid id = 0 ↔ ∀ slot, lsm.gcEntry id slot = 0 := by
  rw [← pending_all indexed found, pending, List.countP_eq_zero]
  constructor
  · intro none_ slot
    refine not_not.mp fun filled => ?_
    exact none_ slot (List.mem_range.mpr (indexed.slot_lt filled)) (by simpa using filled)
  · intro empty slot _
    simp [empty]

/-- A zone was collected into the reserve and took its place. -/
structure Collected (before after : Machine) (id : Nat) : Prop where
  ready : Ready after
  writesStopped : after.lsm.writesStopped = before.lsm.writesStopped
  gcMoved : after.lsm.gcMoved = before.lsm.gcMoved + before.lsm.gcValid id
  keeps : before.lsm.allocator.Keeps { after.lsm.allocator with reserveZone := before.lsm.allocator.reserveZone }
  reserveZone : after.lsm.allocator.reserveZone = id
  apart : id ≠ before.lsm.allocator.reserveZone
  zones : ∀ victim reserve, before.lsm.allocator.zones[id]? = some victim →
    before.lsm.allocator.zones[before.lsm.allocator.reserveZone]? = some reserve →
    after.lsm.allocator.zones =
      (before.lsm.allocator.zones.set before.lsm.allocator.reserveZone
        { reserve with writePointer := reserve.writePointer + before.lsm.gcValid id * blockSectors }).set id
        { victim with writePointer := victim.startSector, condition := .empty }
  emptied : ∀ slot, after.lsm.gcEntry id slot = 0
  device : ∀ victim, before.lsm.allocator.zones[id]? = some victim →
    after.world.writePointer id = victim.startSector ∧ after.world.condition id = .empty

omit [Kernel] in
theorem Collected.usable {before after : Machine} {id : Nat} {victim reserve : Zone} (collected : Collected before after id)
    (chosen : before.lsm.allocator.zones[id]? = some victim)
    (found : before.lsm.allocator.zones[before.lsm.allocator.reserveZone]? = some reserve)
    {usable : ZoneCond → Prop} (reset : usable .empty) (known : ∀ zone ∈ before.lsm.allocator.zones, usable zone.condition) :
    ∀ zone ∈ after.lsm.allocator.zones, usable zone.condition := by
  intro zone member
  rw [collected.zones victim reserve chosen found] at member
  rcases List.mem_or_eq_of_mem_set member with old | rfl
  · rcases List.mem_or_eq_of_mem_set old with older | rfl
    · exact known zone older
    · exact known reserve (List.mem_of_getElem? found)
  · exact reset

/-- Reset of the emptied victim, and the rotation of the reserve. -/
private theorem rotate_kept {machine : Machine} {id : Nat} {victim : Zone} (coherent : Coherent machine log limit lossless)
    (mirrors : Mirrors machine) (found : machine.lsm.allocator.zones[id]? = some victim)
    (empty : ∀ slot, machine.lsm.gcEntry id slot = 0) (apart : id ≠ machine.lsm.allocator.reserveZone)
    (room : blockSectors ≤ victim.capacity) :
    Effect.Ensures (do
      onWorld (zoneReset victim.startSector)
      modifyLsm fun lsm => { lsm with gcResets := lsm.gcResets + 1 }
      onAllocator fun allocator => allocator.setReserveAfterReset id
      modifyLsm fun lsm => { lsm with gcRuns := lsm.gcRuns + 1 }) machine (fun result after =>
      Kept machine after log limit lossless ∧ (∀ error, result = .error error → Spared machine after id) ∧
      (result = .ok () → Ready after ∧ after.lsm.writesStopped = machine.lsm.writesStopped ∧
        after.lsm.gcMoved = machine.lsm.gcMoved ∧ after.lsm.gcZones = machine.lsm.gcZones ∧
        (after.world.writePointer id = victim.startSector ∧ after.world.condition id = .empty) ∧
        after.lsm.allocator = { machine.lsm.allocator with
          zones := machine.lsm.allocator.zones.set id { victim with writePointer := victim.startSector, condition := .empty }
          reserveZone := id }) ∧
      ∀ error, result = .error error → victim.condition ≠ .readonly → victim.condition ≠ .offline →
        ¬ machine.world.oracle.Healthy) := by
  have extent := coherent.attached.extent found
  have long : 0 < victim.extent.len := coherent.attached.positive victim (List.mem_of_getElem? found)
  obtain ⟨bound, _⟩ := List.getElem?_eq_some_iff.mp found
  have far := Geometry.apart extent coherent.attached.logExtent bound
  have reset : Effect.Ensures (onWorld (zoneReset victim.startSector)) machine (fun result after =>
      after.lsm = machine.lsm ∧ Kept machine after log limit lossless ∧
      (∀ error, result = .error error → Spared machine after id) ∧
      (result = .ok () → after.world.writePointer id = victim.startSector ∧ after.world.condition id = .empty ∧
        MirrorsBut after id) ∧
      ∀ error, result = .error error → victim.condition ≠ .readonly → victim.condition ≠ .offline →
        ¬ machine.world.oracle.Healthy) := by
    refine onWorld_ensures ((zoneReset_spec extent long).mono ?_)
    rintro result world ⟨later, submitted, ⟨rfl, device⟩ | ⟨error, rfl, device, cause⟩⟩
    · obtain ⟨coherent', disk⟩ := coherent.reset found empty device
      have others (other : Nat) (different : other ≠ id) : world.writePointer other = machine.world.writePointer other ∧
          world.condition other = machine.world.condition other := by
        rw [device.writePointer, device.condition]
        simp [World.setZone, different]
      obtain ⟨pointer, condition⟩ := others machine.lsm.allocator.zones.length (by omega)
      refine ⟨rfl, ⟨coherent', ⟨.refl _, rfl, rfl, rfl, rfl, rfl, rfl, device.geometry, device.fullAtLength, pointer, condition,
        ?_, by rw [World.metaWrites, submitted, World.metaWrites], later⟩, disk, fun _ => rfl⟩, (by rintro _ ⟨⟩), fun _ => ⟨?_, ?_, ?_⟩, (by rintro _ ⟨⟩)⟩
      · intro address above
        rw [device.media]
        simp only [World.setZone]
        refine overlay_outside (Or.inr ?_)
        rw [← Nat.add_mul]
        exact (Nat.mul_le_mul_right _ far).trans above
      · rw [device.writePointer]
        simp [World.setZone, Zone.extent]
      · rw [device.condition]
        simp [World.setZone]
      · exact (mirrors.but id).of_same (fun _ _ => rfl) others
    · obtain ⟨coherent', mapped⟩ := coherent.onWorld device.geometry (fun address _ _ => by rw [device.media])
      refine ⟨rfl, ⟨coherent', ⟨.refl _, rfl, rfl, rfl, rfl, rfl, rfl, device.geometry, device.fullAtLength,
        by rw [device.writePointer], by rw [device.condition], fun _ _ => by rw [device.media],
        by rw [World.metaWrites, submitted, World.metaWrites], later⟩,
        fun trusted => disk_congr (mapped trusted) fun _ sector _ byte _ => congrFun (device.block sector) byte, fun _ => rfl⟩,
        fun _ _ => .of_same id rfl device, (by rintro ⟨⟩), ?_⟩
      intro _ _ writable online healthy
      rcases cause with reports | readonly | offline
      · exact healthy.requests _ _ reports
      · cases mirrors id victim found with
        | inUse _ _ _ same _ _ => exact writable (same.mp readonly)
        | filled full _ => rw [full] at readonly; cases readonly
      · cases mirrors id victim found with
        | inUse _ _ _ _ same _ => exact online (same.mp offline)
        | filled full _ => rw [full] at offline; cases offline
  refine Effect.Ensures.bind reset ?_ (fun error after spec => ⟨spec.2.1, fun _ _ => spec.2.2.1 error rfl, (by rintro ⟨⟩),
    fun _ _ => spec.2.2.2.2 error rfl⟩)
  rintro _ ⟨lsm, world⟩ ⟨same, kept, _, done, _⟩
  dsimp only at same
  subst same
  obtain ⟨pointer, condition, others⟩ := done rfl
  apply Effect.Ensures.modify_bind
  have rotated : machine.lsm.allocator.setReserveAfterReset id = (.ok (), { machine.lsm.allocator with
      zones := machine.lsm.allocator.zones.set id { victim with writePointer := victim.startSector, condition := .empty }
      reserveZone := id }) := by
    rw [Allocator.setReserveAfterReset, if_neg apart, found]
  refine onAllocator_bind ?_ ?_
  · intro _ allocator ran
    cases rotated.symm.trans ran
    have counted : Alike ⟨machine.lsm, world⟩ ⟨{ machine.lsm with gcResets := machine.lsm.gcResets + 1 }, world⟩ :=
      ⟨rfl, .refl _⟩
    have resets := kept.trans (Kept.alike kept.coherent counted)
    have turned : Coherent ⟨{ machine.lsm with
        gcResets := machine.lsm.gcResets + 1
        allocator := { machine.lsm.allocator with
          zones := machine.lsm.allocator.zones.set id { victim with writePointer := victim.startSector, condition := .empty }
          reserveZone := id } }, world⟩ log limit lossless :=
      resets.coherent.onZone rfl rfl found rfl rfl (fun _ => Nat.le_refl _)
        (fun slot filled => absurd (empty slot) filled) (fun _ => by simp)
    have rotates := resets.trans (Kept.onAllocator (by simp only [List.length_set]) turned)
    refine ⟨rotates.trans (Kept.alike turned ⟨rfl, .refl _⟩), (by rintro _ ⟨⟩), fun _ => ⟨⟨?_, ?_⟩, rfl, rfl, rfl, ⟨pointer, condition⟩, rfl⟩, (by rintro _ ⟨⟩)⟩
    · refine @MirrorsBut.mirrors _ id _ ?_ (List.getElem?_set_self bound) (.inUse (by rintro ⟨⟩) ?_ pointer ?_ ?_ ?_)
      · exact others.of_same (fun other different => List.getElem?_set_ne (Ne.symm different)) (fun _ _ => ⟨rfl, rfl⟩)
      · change world.condition id ≠ _
        rw [condition]
        rintro ⟨⟩
      · change world.condition id = _ ↔ _
        rw [condition]
      · change world.condition id = _ ↔ _
        rw [condition]
      · exact fun _ => ⟨Nat.le_refl _, Nat.le_add_right _ _⟩
    · exact ⟨_, List.getElem?_set_self bound, ⟨(by rintro ⟨⟩), (by rintro ⟨⟩), (by rintro ⟨⟩)⟩, room, rfl⟩
  · intro error allocator ran
    cases rotated.symm.trans ran

/-- `zns_lsm_gc_clean` after its buffer allocation. -/
theorem gcCollect_kept (params : Params) {machine : Machine} {id : Nat} {victim : Zone}
    (coherent : Coherent machine log limit lossless) (ready : Ready machine)
    (chosen : machine.lsm.allocator.zones[id]? = some victim) (apart : id ≠ machine.lsm.allocator.reserveZone)
    (room : blockSectors ≤ victim.capacity) :
    Effect.Ensures (gcCollect params id victim) machine (fun result after =>
      Kept machine after log limit lossless ∧ (result = .ok () → Collected machine after id) ∧
      (∀ error, result = .error error → Spared machine after id) ∧
      ∀ error, result = .error error → Fine params machine → victim.condition ≠ .readonly → victim.condition ≠ .offline →
        ∀ reserve, machine.lsm.allocator.zones[machine.lsm.allocator.reserveZone]? = some reserve →
          ¬ Holds reserve (machine.lsm.gcValid id)) := by
  obtain ⟨reserve, found, vacant⟩ := ready.reserve
  apply Effect.Ensures.get_bind
  have distinct : (List.range (machine.lsm.gcNrBlocks id)).Nodup := List.nodup_range
  have moves := gcMoveSlots_kept params distinct coherent ready.mirrors found apart chosen
  rw [pending_all coherent.indexed chosen] at moves
  refine Effect.Ensures.bind moves ?_ ?_
  · rintro _ moved ⟨kept, stopped, spared, done, _⟩
    obtain ⟨steps, entries⟩ := done rfl
    have still : moved.lsm.allocator.zones[id]? = some victim := (steps.others apart).trans chosen
    have empty : ∀ slot, moved.lsm.gcEntry id slot = 0 := by
      intro slot
      rw [entries]
      split
      · rfl
      next outside =>
        exact not_not.mp fun filled => outside (List.mem_range.mpr (coherent.indexed.slot_lt filled))
    apply Effect.Ensures.get_bind
    rw [if_neg (not_not.mpr ((gcValid_eq_zero kept.coherent.indexed still).mpr empty))]
    apply Effect.Ensures.modify_bind
    apply Effect.Ensures.get_bind
    have counted : Alike moved { moved with lsm := { moved.lsm with
        gcZoneResetAttempts := moved.lsm.gcZoneResetAttempts + 1 } } := ⟨rfl, .refl _⟩
    have started := kept.trans (Kept.alike kept.coherent counted)
    have spared := spared.trans (.of_alike id counted)
    split
    next injected => exact ⟨started, (by rintro ⟨⟩), fun _ _ => spared, fun _ _ fine => absurd fine.resets injected.1⟩
    next _ =>
      have rotation := rotate_kept started.coherent (steps.mirrors.of_same rfl (.refl _)) still empty
        (by rw [steps.keeps.reserveZone]; exact apart) room
      refine rotation.mono ?_
      rintro result after ⟨kept', spared', done, failed⟩
      refine ⟨started.trans kept', fun ok => ?_, fun error stop => spared.trans (spared' error stop),
        fun error stop fine writable online => ?_⟩
      · obtain ⟨ready, sameStopped, gcMoved, gcZones, device, allocator⟩ := done ok
        refine ⟨ready, sameStopped.trans stopped, gcMoved.trans steps.gcMoved, ?_, by rw [allocator], apart,
          fun _ _ held held' => ?_, fun slot => ?_, fun _ held => ?_⟩
        · rw [allocator]
          exact ⟨steps.keeps.mode, steps.keeps.sectorsPerBlock, rfl⟩
        · cases chosen.symm.trans held
          cases found.symm.trans held'
          rw [allocator, show moved.lsm.allocator.zones = _ from steps.zones]
        · simp only [gcEntry, gcZones]
          exact empty slot
        · cases chosen.symm.trans held
          exact device
      · exact absurd (fine.healthy.later started.beside.later) (failed error stop writable online)
  · rintro error after ⟨kept, _, spared, _, failed⟩
    refine ⟨kept, (by rintro ⟨⟩), fun _ _ => spared, fun _ _ fine _ _ other held holds => ?_⟩
    cases found.symm.trans held
    rcases failed error rfl with sick | short
    · exact sick ⟨fine.toSupplied, fine.moveWrites⟩
    · exact short holds

omit [Kernel] in
private theorem gcValidateVictim_ok {lsm : Lsm} {id : Nat} (valid : gcValidateVictim lsm id = .ok ()) :
    ∃ victim reserve, lsm.allocator.zones[id]? = some victim ∧
      lsm.allocator.zones[lsm.allocator.reserveZone]? = some reserve ∧ id ≠ lsm.allocator.reserveZone ∧
      victim.condition ≠ .readonly ∧ victim.condition ≠ .offline ∧ lsm.gcValid id ≤ zoneFreeBlocks reserve := by
  unfold gcValidateVictim at valid
  split at valid
  next victim reserve found held =>
    split at valid
    · cases valid
    next apart =>
      split at valid
      · cases valid
      next writable =>
        split at valid
        · cases valid
        next fits =>
          exact ⟨victim, reserve, found, held, apart, fun stuck => writable (Or.inl stuck), fun gone => writable (Or.inr gone),
            by omega⟩
  · cases valid

omit [Kernel] in
theorem Vacant.holds {reserve : Zone} (vacant : Vacant reserve) {count : Nat} (fits : count ≤ zoneFreeBlocks reserve) :
    Holds reserve count := by
  obtain ⟨writable, _, empty⟩ := vacant
  refine ⟨writable, ?_⟩
  rw [zoneFreeBlocks, if_neg (by simp only [Zone.endSector]; omega), Nat.le_div_iff_mul_le (by decide)] at fits
  simp only [Zone.endSector] at fits ⊢
  omega

/-- `zns_lsm_gc_clean`. -/
theorem gcClean_kept (params : Params) {machine : Machine} {id : Nat} (coherent : Coherent machine log limit lossless)
    (ready : Ready machine) (room : ∀ victim, machine.lsm.allocator.zones[id]? = some victim → blockSectors ≤ victim.capacity) :
    Effect.Ensures (gcClean params id) machine (fun result after =>
      Kept machine after log limit lossless ∧ (after.lsm.writesStopped = false → Ready after) ∧
      (result = .ok () → Collected machine after id) ∧
      (∀ error, result = .error error → Spared machine after id ∧
        (gcValidateVictim machine.lsm id = .ok () → (onWorld allocate machine).1 = .ok () →
          after.lsm.writesStopped = true)) ∧
      ∀ error, result = .error error → Fine params machine → gcValidateVictim machine.lsm id ≠ .ok ()) := by
  apply Effect.Ensures.get_bind
  refine Effect.Ensures.ofExcept_bind ?_ (fun error invalid => ⟨.refl coherent, fun _ => ready, nofun,
    fun _ _ => ⟨.of_same id rfl (.refl _), fun valid => by rw [invalid] at valid; cases valid⟩, fun _ _ _ => ?_⟩)
  · rintro ⟨⟩ valid
    obtain ⟨victim, reserve, chosen, found, apart, writable, online, fits⟩ := gcValidateVictim_ok valid
    have buffer : Effect.Ensures (onWorld allocate) machine (fun result after => after.lsm = machine.lsm ∧
        machine.world.Quiet after.world ∧ (onWorld allocate machine).1 = result ∧
        ∀ error, result = .error error → ¬ machine.world.oracle.Healthy) := by
      have spec : Effect.Ensures (onWorld allocate) machine (fun result after => after.lsm = machine.lsm ∧
          machine.world.Quiet after.world ∧ ∀ error, result = .error error → ¬ machine.world.oracle.Healthy) := by
        refine onWorld_ensures ((allocate_quiet machine.world).mono ?_)
        rintro result world ⟨quiet, rfl | ⟨rfl, sick⟩⟩
        · exact ⟨rfl, quiet, nofun⟩
        · exact ⟨rfl, quiet, fun _ _ => sick⟩
      exact ⟨spec.1, spec.2.1, rfl, spec.2.2⟩
    refine Effect.Ensures.bind buffer ?_ ?_
    · rintro _ ⟨lsm, world⟩ ⟨same, quiet, _, _⟩
      dsimp only at same quiet
      subst same
      have kept : Kept machine ⟨machine.lsm, world⟩ log limit lossless := Kept.alike coherent ⟨rfl, quiet⟩
      have ready : Ready ⟨machine.lsm, world⟩ := ready.of_same rfl quiet.toSameDevice
      simp only [chosen]
      refine Effect.Ensures.attempt_bind
        (gcCollect_kept params kept.coherent ready chosen apart (room victim chosen)) ?_
      rintro result after ⟨kept', done, spared, failed⟩
      cases result with
      | ok value =>
        have collected := done rfl
        exact ⟨kept.trans kept', fun _ => collected.ready, fun _ => ⟨collected.ready, collected.writesStopped,
          collected.gcMoved, collected.keeps, collected.reserveZone, collected.apart, collected.zones, collected.emptied,
          collected.device⟩,
          nofun, nofun⟩
      | error error =>
        have stopped : Alike after { after with lsm := { after.lsm with writesStopped := true } } := ⟨rfl, .refl _⟩
        have untouched : Spared machine ⟨machine.lsm, world⟩ id := .of_same id rfl quiet.toSameDevice
        refine ⟨(kept.trans kept').trans (Kept.alike kept'.coherent stopped), nofun, nofun,
          fun _ _ => ⟨(untouched.trans (spared error rfl)).trans (.of_alike id stopped), fun _ _ => rfl⟩, fun _ _ fine => ?_⟩
        obtain ⟨held, present, vacant⟩ := ready.reserve
        cases found.symm.trans present
        exact absurd (vacant.holds fits) (failed error rfl (fine.beside kept.beside) writable online reserve found)
    · rintro error ⟨lsm, world⟩ ⟨same, quiet, denied, failed⟩
      dsimp only at same quiet
      subst same
      exact ⟨Kept.alike coherent ⟨rfl, quiet⟩, fun _ => ready.of_same rfl quiet.toSameDevice, nofun,
        fun _ _ => ⟨.of_same id rfl quiet.toSameDevice, fun _ granted => by rw [denied] at granted; cases granted⟩,
        fun _ _ fine => absurd fine.healthy (failed error rfl)⟩
  · rw [invalid]
    nofun

omit [Kernel] in
theorem Eligible.chosen {lsm : Lsm} {reserve : Zone} {id : Nat}
    (eligible : GcPolicy.Eligible (gcContext lsm reserve) (gcGetZoneInfo lsm id)) :
    ∃ victim, lsm.allocator.zones[id]? = some victim := by
  have resettable := eligible.2.1
  unfold gcGetZoneInfo at resettable
  split at resettable
  · cases resettable
  next victim found => exact ⟨victim, found⟩

omit [Kernel] in
/-- What the policies offer passes the check before a collection. -/
theorem gcValidateVictim_eligible {lsm : Lsm} {reserve : Zone} {id : Nat}
    (found : lsm.allocator.zones[lsm.allocator.reserveZone]? = some reserve)
    (eligible : GcPolicy.Eligible (gcContext lsm reserve) (gcGetZoneInfo lsm id)) : gcValidateVictim lsm id = .ok () := by
  obtain ⟨victim, held⟩ := Eligible.chosen eligible
  obtain ⟨notReserve, resettable, _, _, fits⟩ := eligible
  simp only [gcContext, gcGetZoneInfo, held] at notReserve resettable fits
  unfold gcValidateVictim
  simp only [held, found]
  rw [if_neg (by simpa using notReserve), if_neg (by simpa [not_or] using resettable), if_neg (by omega)]

omit [Kernel] in
theorem Eligible.room {lsm : Lsm} {reserve victim : Zone} {id : Nat}
    (eligible : GcPolicy.Eligible (gcContext lsm reserve) (gcGetZoneInfo lsm id))
    (held : lsm.allocator.zones[id]? = some victim) : blockSectors ≤ victim.capacity := by
  have fewer := eligible.2.2.2.1
  simp only [gcGetZoneInfo, held] at fewer
  simp only [blockSectors] at fewer ⊢
  omega

omit [Kernel] in
/-- The counts a policy sees fit in 64 bits. -/
theorem gcContext_small {machine : Machine} (attached : Attached machine log) (reserve : Zone) (id : Nat) :
    ((gcContext machine.lsm reserve).zoneInfo id).capacityBlocks < 2 ^ 64 := by
  simp only [gcContext, gcGetZoneInfo]
  split
  · decide
  next zone held =>
    have bound := machine.world.geometry.bounded _ (List.mem_of_getElem? (attached.extent held))
    have capacity : zone.capacity ≤ zone.length := Geometry.capacity_le_len (attached.extent held)
    simp only [Zone.extent] at bound
    exact (Nat.div_le_self zone.capacity blockSectors).trans_lt (by omega)

/-- `zns_lsm_run_gc_if_needed`: nothing to do, or a zone the policy found
eligible is collected. -/
theorem runGcIfNeeded_kept (params : Params) {machine : Machine} (coherent : Coherent machine log limit lossless)
    (ready : Ready machine) (running : machine.lsm.writesStopped = false) :
    Effect.Ensures (runGcIfNeeded params) machine (fun result after =>
      Kept machine after log limit lossless ∧ (after.lsm.writesStopped = false → Ready after) ∧
      (result = .ok () → Ready after ∧ after.lsm.writesStopped = false ∧
        (after = machine ∧ (params.policy = .none ∨ machine.lsm.allocator.hasSpace = true) ∨
          ∃ id reserve, machine.lsm.allocator.zones[machine.lsm.allocator.reserveZone]? = some reserve ∧
            params.policy.policy.selectVictim (gcContext machine.lsm reserve) = .ok id ∧
            GcPolicy.Eligible (gcContext machine.lsm reserve) (gcGetZoneInfo machine.lsm id) ∧ Collected machine after id)) ∧
      ∀ error, result = .error error → Fine params machine → error = .enospc ∧ after = machine ∧ params.policy ≠ .none ∧
        machine.lsm.allocator.hasSpace = false ∧
        ∀ reserve, machine.lsm.allocator.zones[machine.lsm.allocator.reserveZone]? = some reserve →
          ∀ id < machine.lsm.allocator.zones.length,
            ¬ GcPolicy.Eligible (gcContext machine.lsm reserve) (gcGetZoneInfo machine.lsm id)) := by
  obtain ⟨reserve, found, vacant⟩ := ready.reserve
  have small := gcContext_small coherent.attached reserve
  apply Effect.Ensures.get_bind
  simp only [found]
  split
  next idle =>
    refine ⟨.refl coherent, fun _ => ready, fun _ => ⟨ready, running, Or.inl ⟨rfl, ?_⟩⟩, (by rintro _ ⟨⟩)⟩
    rw [← Bool.not_eq_true, GcPolicy.shouldGc_iff, not_and_or, not_not, Bool.not_eq_false] at idle
    exact idle
  next busy =>
    obtain ⟨collects, full⟩ := GcPolicy.shouldGc_iff.mp (Bool.not_eq_false _ ▸ busy)
    refine Effect.Ensures.ofExcept_bind ?_ ?_
    · intro id chosen
      obtain ⟨inside, eligible⟩ := GcPolicy.selectVictim_ok small chosen
      refine (gcClean_kept params coherent ready (fun victim held => Eligible.room eligible held)).mono ?_
      rintro result after ⟨kept, still, done, _, failed⟩
      refine ⟨kept, still, fun ok => ?_, fun error stop fine => ?_⟩
      · have collected := done ok
        exact ⟨collected.ready, collected.writesStopped.trans running, Or.inr ⟨id, reserve, rfl, chosen, eligible, collected⟩⟩
      · exact absurd (gcValidateVictim_eligible found eligible) (failed error stop fine)
    · intro error failed
      refine ⟨.refl coherent, fun _ => ready, (by rintro ⟨⟩), fun other same fine => ?_⟩
      cases same
      obtain ⟨rfl, none_⟩ := GcPolicy.selectVictim_error collects small failed
      refine ⟨rfl, rfl, collects, full, fun other same => ?_⟩
      cases same
      exact fun id inside eligible => none_ id ⟨inside, eligible⟩

/-- Why an append fails when nothing below it does. -/
def Stuck (params : Params) (machine : Machine) : Prop :=
  params.policy = .none ∨
    (machine.lsm.allocator.hasSpace = false ∧
      ∀ reserve, machine.lsm.allocator.zones[machine.lsm.allocator.reserveZone]? = some reserve →
        ∀ id < machine.lsm.allocator.zones.length,
          ¬ GcPolicy.Eligible (gcContext machine.lsm reserve) (gcGetZoneInfo machine.lsm id)) ∨
    ∃ id reserve after, machine.lsm.allocator.zones[machine.lsm.allocator.reserveZone]? = some reserve ∧
      GcPolicy.Eligible (gcContext machine.lsm reserve) (gcGetZoneInfo machine.lsm id) ∧ Collected machine after id ∧
      after.lsm.allocator.hasSpace = false

/-- What one append does to the target. -/
structure Appends (params : Params) (log : Extent) (limit : Nat) (lossless : Prop) (sector : Nat) (bytes : Nat → UInt8) (before : Machine)
    (result : Except Errno Unit) (after : Machine) : Prop where
  coherent : Coherent after log limit lossless
  beside : Beside before after log
  ready : after.lsm.writesStopped = false → Ready after
  written : result = .ok () →
    (lossless → disk after = overlay (disk before) (sector * sectorBytes) blockBytes bytes) ∧
    after.lsm.writesStopped = false ∧
    (∀ logicalBlock, (after.lsm.latest logicalBlock).isSome =
      (decide (logicalBlock = sector / blockSectors) || (before.lsm.latest logicalBlock).isSome)) ∧
    ∀ usable : ZoneCond → Prop, usable .empty → (∀ zone ∈ before.lsm.allocator.zones, usable zone.condition) →
      ∀ zone ∈ after.lsm.allocator.zones, usable zone.condition
  refused : ∀ error, result = .error error → (lossless → disk after = disk before) ∧
    (Fine params before → before.lsm.writesStopped = false →
      error = .enospc ∧ Stuck params before ∧ after.lsm.writesStopped = false)

omit [Kernel] in
private theorem overlay_block (memory : Nat → UInt8) (bytes : Nat → UInt8) {sector : Nat}
    (aligned : sector % blockSectors = 0) (address : Nat) :
    overlay memory (sector * sectorBytes) blockBytes bytes address =
      if address / blockBytes = sector / blockSectors then bytes (address % blockBytes) else memory address := by
  have sizes : blockBytes = 4096 ∧ blockSectors = 8 ∧ sectorBytes = 512 := ⟨rfl, rfl, rfl⟩
  obtain ⟨bytesEq, sectorsEq, sectorEq⟩ := sizes
  by_cases here : address / blockBytes = sector / blockSectors
  · rw [if_pos here]
    rw [bytesEq, sectorsEq] at here
    rw [sectorsEq] at aligned
    rw [bytesEq, sectorEq, overlay_inside (by omega) (by omega)]
    congr 1
    omega
  · rw [if_neg here]
    rw [bytesEq, sectorsEq] at here
    rw [sectorsEq] at aligned
    rw [bytesEq, sectorEq, overlay_outside (by omega)]

/-- `zns_lsm_append_write`. -/
theorem appendWrite_spec (params : Params) {machine : Machine} {sector : Nat} (bytes : Nat → UInt8)
    (coherent : Coherent machine log limit lossless) (ready : machine.lsm.writesStopped = false → Ready machine)
    (aligned : sector % blockSectors = 0) (inside : sector < limit) :
    Effect.Ensures (appendWrite params sector bytes) machine (Appends params log limit lossless sector bytes machine) := by
  apply Effect.Ensures.get_bind
  cases stopped : machine.lsm.writesStopped with
  | true =>
    exact ⟨coherent, .refl _, ready, (by rintro ⟨⟩), fun error _ => ⟨fun _ => rfl, fun _ running => by rw [stopped] at running; cases running⟩⟩
  | false =>
    have inRange : sector / blockSectors < limit / blockSectors := by
      have whole := coherent.whole
      simp only [blockSectors] at aligned whole ⊢
      omega
    refine Effect.Ensures.bind (runGcIfNeeded_kept params coherent (ready stopped) stopped) ?_ ?_
    · rintro _ collected ⟨kept, _, done, _⟩
      obtain ⟨ready', running, how⟩ := done rfl
      have spec := Allocator.alloc_spec kept.coherent.attached.zoned
      refine onAllocator_bind ?_ ?_
      · intro physical allocator ran
        rw [ran] at spec
        rcases spec with ⟨index, zone, same, apart, takes⟩ | ⟨same, _⟩
        · cases same
          obtain ⟨coherent', taken⟩ := kept.coherent.taken ready'.mirrors takes
          have lengths : allocator.zones.length = collected.lsm.allocator.zones.length := by rw [takes.zones, List.length_set]
          have taking := kept.trans (Kept.onAllocator lengths coherent')
          have counted : Alike { collected with lsm.allocator := allocator } { collected with lsm := { collected.lsm with
              allocator
              dataWriteAttempts := collected.lsm.dataWriteAttempts + 1 } } := ⟨rfl, .refl _⟩
          have started := taking.trans (Kept.alike coherent' counted)
          have fresh : Fresh { collected.lsm with allocator, dataWriteAttempts := collected.lsm.dataWriteAttempts + 1 } index
              ((zone.writePointer - zone.startSector) / blockSectors) zone.writePointer :=
            ⟨taken.fresh.place, taken.fresh.written, taken.fresh.free, taken.fresh.last⟩
          have reserve : ∃ zone, allocator.zones[allocator.reserveZone]? = some zone ∧ Vacant zone := by
            obtain ⟨held, found, vacant⟩ := ready'.reserve
            refine ⟨held, ?_, vacant⟩
            rw [takes.reserveZone, takes.zones, List.getElem?_set_ne apart]
            exact found
          apply Effect.Ensures.modify_bind
          apply Effect.Ensures.get_bind
          refine Effect.Ensures.attempt_bind (submitUnlessInjected_kept _ _ bytes started.coherent
            ⟨fresh, taken.found, taken.room, taken.mirror, taken.others⟩) ?_
          rintro result ⟨lsm, landed⟩ ⟨same, wrote, others, _, done, failed⟩
          dsimp only at same
          subst same
          have wrote := started.trans wrote
          cases result with
          | error error =>
            refine Effect.Ensures.attempt_bind (recoverWritePointer_kept wrote.coherent fresh taken.found taken.room others) ?_
            rintro _ recovered ⟨kept', reserveZone, unmoved, mirrors⟩
            have all := wrote.trans kept'
            refine ⟨all.coherent, all.beside, fun running => ⟨mirrors running, ?_⟩, (by rintro ⟨⟩), fun other _ => ⟨all.disk, fun fine _ => ?_⟩⟩
            · obtain ⟨held, found, vacant⟩ := reserve
              refine ⟨held, ?_, vacant⟩
              change recovered.lsm.allocator.reserveZone = allocator.reserveZone at reserveZone
              change recovered.lsm.allocator.zones[recovered.lsm.allocator.reserveZone]? = _
              rw [reserveZone, unmoved _ (by rw [show allocator.reserveZone = _ from takes.reserveZone]; exact Ne.symm apart)]
              exact found
            · exact absurd ⟨fine.healthy.later started.beside.later, fine.dataWrites⟩ (failed error rfl)
          | ok value =>
            obtain ⟨mirrors, holds⟩ := done rfl
            have bound : sector / blockSectors < collected.lsm.logicalBlocks := by
              rw [logicalBlocks, kept.coherent.logicalSectors]
              exact inRange
            refine (publishWrite_spec wrote.coherent fresh bound).mono ?_
            rintro result final (⟨rfl, done⟩ | ⟨error, rfl, same, quiet, starved⟩)
            · refine ⟨done.coherent, wrote.beside.trans done.beside, fun _ => ⟨?_, ?_⟩, fun _ => ⟨?_, ?_, ?_, ?_⟩, (by rintro _ ⟨⟩)⟩
              · exact mirrors.of_same done.allocator done.device.toSameDevice
              · rw [done.allocator]
                exact reserve
              · intro trusted
                funext address
                rw [overlay_block _ _ aligned, done.disk trusted, wrote.disk trusted]
                split
                · exact holds _ (Nat.mod_lt _ (by decide))
                · rfl
              · exact done.writesStopped.trans running
              · intro block
                rw [done.latest]
                by_cases here : block = sector / blockSectors
                · simp [here]
                · simp [here, ← kept.mapped]
              · intro usable reset known zone' member
                have collectedUsable : ∀ zone ∈ collected.lsm.allocator.zones, usable zone.condition := by
                  rcases how with ⟨rfl, _⟩ | ⟨id, held, found, _, eligible, collects⟩
                  · exact known
                  · obtain ⟨victim, chosen⟩ := Eligible.chosen eligible
                    exact collects.usable chosen found reset known
                rw [done.allocator] at member
                change zone' ∈ allocator.zones at member
                rw [takes.zones] at member
                rcases List.mem_or_eq_of_mem_set member with old | rfl
                · exact collectedUsable zone' old
                · exact collectedUsable zone (List.mem_of_getElem? takes.found)
            · have all := wrote.trans (Kept.alike wrote.coherent ⟨by rw [same], quiet⟩)
              refine ⟨all.coherent, all.beside, fun _ => ⟨mirrors.of_same (by rw [same]) quiet.toSameDevice, ?_⟩, (by rintro ⟨⟩),
                fun other _ => ⟨all.disk, fun fine _ => ?_⟩⟩
              · rw [same]
                exact reserve
              exact absurd (fine.toSupplied.beside wrote.beside) starved
        · cases same
      · intro error allocator ran
        rw [ran] at spec
        rcases spec with ⟨_, _, same, _⟩ | ⟨same, keeps, zones, full⟩
        · cases same
        · cases same
          have searched := kept.trans (Kept.onAllocator (by rw [zones]) (kept.coherent.onSearch keeps zones))
          refine ⟨searched.coherent, searched.beside, fun _ => ?_, (by rintro ⟨⟩), fun error same => ⟨searched.disk, fun fine _ => ?_⟩⟩
          · obtain ⟨mirrors, reserve⟩ := ready'
            refine ⟨fun index zone found => mirrors index zone (zones ▸ found), ?_⟩
            obtain ⟨zone, found, vacant⟩ := reserve
            refine ⟨zone, ?_, vacant⟩
            change allocator.zones[allocator.reserveZone]? = _
            rw [keeps.reserveZone, zones, found]
          · cases same
            refine ⟨rfl, ?_, running⟩
            rcases how with ⟨rfl, none_ | space⟩ | ⟨id, reserve, found, _, eligible, collects⟩
            · exact Or.inl none_
            · rw [space] at full
              cases full
            · exact Or.inr (Or.inr ⟨id, reserve, collected, found, eligible, collects, full⟩)
    · rintro error after ⟨kept, still, _, failed⟩
      refine ⟨kept.coherent, kept.beside, still, (by rintro ⟨⟩), fun other same => ⟨kept.disk, fun fine _ => ?_⟩⟩
      cases same
      obtain ⟨same, rfl, _, full, none_⟩ := failed error rfl fine
      exact ⟨same, Or.inr (Or.inl ⟨full, none_⟩), stopped⟩

end Lsm
end ZnsBase
