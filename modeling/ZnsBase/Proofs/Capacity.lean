import ZnsBase.Proofs.Fragments
import ZnsBase.Proofs.GcRuns
import ZnsBase.Proofs.HealthyRuns

/-! The capacity a target is offered. On a device where nothing fails every write
finds space, as long as not all of the ordinary zones can be filled with live
blocks; a target as long as these zones can fill them. -/

namespace ZnsBase
open Library

namespace Lsm
variable [Kernel] {log : Extent} {limit : Nat} {machine after : Machine} {zones blocks : Nat}

/-- Data zones of one capacity in blocks, all of them usable. -/
structure Provisioned (machine : Machine) (zones blocks : Nat) : Prop where
  count : machine.lsm.allocator.zones.length = zones
  equal : ∀ zone ∈ machine.lsm.allocator.zones, zone.capacity / blockSectors = blocks
  online : ∀ zone ∈ machine.lsm.allocator.zones, zone.condition ≠ .readonly ∧ zone.condition ≠ .offline

omit [Kernel] in
theorem extents_of_geometry (later : Attached after log) (attached : Attached machine log)
    (geometry : after.world.geometry = machine.world.geometry) :
    after.lsm.allocator.zones.map Zone.extent = machine.lsm.allocator.zones.map Zone.extent := by
  have same := later.geometry
  rw [geometry, attached.geometry] at same
  exact (List.append_inj_left' same rfl).symm

omit [Kernel] in
theorem Provisioned.of_extents (provisioned : Provisioned machine zones blocks)
    (extents : after.lsm.allocator.zones.map Zone.extent = machine.lsm.allocator.zones.map Zone.extent)
    (online : ∀ zone ∈ after.lsm.allocator.zones, zone.condition ≠ .readonly ∧ zone.condition ≠ .offline) :
    Provisioned after zones blocks := by
  refine ⟨?_, fun zone member => ?_, online⟩
  · rw [← provisioned.count, ← List.length_map Zone.extent, extents, List.length_map]
  · obtain ⟨old, known, same⟩ := List.mem_map.mp (extents ▸ List.mem_map_of_mem member)
    rw [← provisioned.equal old known]
    exact congrArg (fun extent : Extent => extent.capacity / blockSectors) same.symm

omit [Kernel] in
/-- The reserve of an engine that takes writes holds no block. -/
theorem gcValid_reserve (ready : Ready machine) (indexed : Indexed machine.lsm) :
    machine.lsm.gcValid machine.lsm.allocator.reserveZone = 0 := by
  obtain ⟨reserve, found, vacant⟩ := ready.reserve
  refine (gcValid_eq_zero indexed found).mpr fun slot => not_not.mp fun filled => ?_
  obtain ⟨zone, known, _, below⟩ := indexed.written _ slot filled
  cases found.symm.trans known
  rcases below with below | full
  · rw [vacant.2.2] at below
    omega
  · exact vacant.1.1 full

omit [Kernel] in
/-- When fewer blocks are mapped than the ordinary zones hold, one of these zones
has room or garbage. -/
theorem Provisioned.garbage (provisioned : Provisioned machine zones blocks) (indexed : Indexed machine.lsm)
    (below : machine.lsm.logicalBlocks < (zones - 1) * blocks) :
    ∃ id < machine.lsm.allocator.zones.length, id ≠ machine.lsm.allocator.reserveZone ∧ machine.lsm.gcValid id < blocks := by
  by_contra none_
  have most : machine.lsm.validBlocks ≤ machine.lsm.logicalBlocks := by
    rw [indexed.total]
    exact List.countP_le_length.trans_eq List.length_range
  have least := sum_at_least (machine.lsm.gcZones.map GcZone.nrValidBlocks) blocks machine.lsm.allocator.reserveZone
    fun id value found apart => by
      rw [List.getElem?_map] at found
      obtain ⟨gcZone, held, rfl⟩ := Option.map_eq_some_iff.mp found
      obtain ⟨bound, _⟩ := List.getElem?_eq_some_iff.mp held
      rw [indexed.zones] at bound
      have live := Nat.le_of_not_lt fun fewer => none_ ⟨id, bound, apart, fewer⟩
      simpa only [gcValid, held, Option.map_some, Option.getD_some] using live
  rw [List.length_map, indexed.zones, provisioned.count, ← indexed.summed] at least
  rw [Nat.sub_mul, Nat.one_mul] at below
  split at least <;> omega

omit [Kernel] in
theorem gcValid_le {lsm : Lsm} (indexed : Indexed lsm) {id : Nat} {zone : Zone} (found : lsm.allocator.zones[id]? = some zone) :
    lsm.gcValid id ≤ zone.capacity / blockSectors := by
  obtain ⟨bound, _⟩ := List.getElem?_eq_some_iff.mp found
  rw [← indexed.zones] at bound
  have held := List.getElem?_eq_getElem bound
  rw [gcValid, held, Option.map_some, Option.getD_some, indexed.counted _ (List.getElem_mem bound),
    ← (indexed.sizes id zone _ found held).2]
  exact List.countP_le_length

/-- A zone that takes another write has a slot without a live block. -/
theorem gcValid_lt {lossless : Prop} (coherent : Coherent machine log limit lossless) {id : Nat} {zone : Zone}
    (found : machine.lsm.allocator.zones[id]? = some zone) (room : zone.CanAppend blockSectors) :
    machine.lsm.gcValid id < zone.capacity / blockSectors := by
  have indexed := coherent.indexed
  refine Nat.lt_of_le_of_ne (gcValid_le indexed found) fun live => ?_
  obtain ⟨bound, _⟩ := List.getElem?_eq_some_iff.mp found
  rw [← indexed.zones] at bound
  have size := (indexed.sizes id zone _ found (List.getElem?_eq_getElem bound)).1
  have slots : machine.lsm.gcNrBlocks id = zone.capacity / blockSectors := by
    rw [gcNrBlocks, List.getElem?_eq_getElem bound, Option.map_some, Option.getD_some, size]
  rw [← pending_all indexed found, slots, pending] at live
  have aligned := coherent.aligned zone (List.mem_of_getElem? found) room
  have placed := coherent.attached.placed zone (List.mem_of_getElem? found) room.isWritable
  have fits := room.fits
  have block : blockSectors = 8 := rfl
  rw [block] at aligned fits live
  simp only [Zone.endSector] at fits
  have next : (zone.writePointer - zone.startSector) / 8 < zone.capacity / 8 := by omega
  have filled := (List.countP_eq_length.mp (live.trans List.length_range.symm)) _ (List.mem_range.mpr next)
  simp only [decide_eq_true_eq] at filled
  obtain ⟨held, known, _, below | full⟩ := indexed.written _ _ filled
  · cases found.symm.trans known
    rw [block] at below
    omega
  · cases found.symm.trans known
    exact room.1 full

omit [Kernel] in
/-- When as many blocks are mapped as the ordinary zones hold, none of them has
room or garbage. -/
theorem Provisioned.live (provisioned : Provisioned machine zones blocks) (ready : Ready machine) (indexed : Indexed machine.lsm)
    (all : machine.lsm.validBlocks = (zones - 1) * blocks) {id : Nat} (bound : id < machine.lsm.allocator.zones.length)
    (ordinary : id ≠ machine.lsm.allocator.reserveZone) : blocks ≤ machine.lsm.gcValid id := by
  obtain ⟨reserve, found, vacant⟩ := ready.reserve
  obtain ⟨within, _⟩ := List.getElem?_eq_some_iff.mp found
  have counts (id : Nat) (bound : id < machine.lsm.allocator.zones.length) :
      (machine.lsm.gcZones.map GcZone.nrValidBlocks)[id]? = some (machine.lsm.gcValid id) := by
    rw [← indexed.zones] at bound
    simp only [gcValid, List.getElem?_map, List.getElem?_eq_getElem bound, Option.map_some, Option.getD_some]
  have most : ∀ value ∈ machine.lsm.gcZones.map GcZone.nrValidBlocks, value ≤ blocks := by
    intro value member
    obtain ⟨place, held⟩ := List.mem_iff_getElem?.mp member
    obtain ⟨inside, _⟩ := List.getElem?_eq_some_iff.mp held
    rw [List.length_map, indexed.zones] at inside
    cases (counts place inside).symm.trans held
    rw [← provisioned.equal _ (List.getElem_mem inside)]
    exact gcValid_le indexed (List.getElem?_eq_getElem inside)
  have short := sum_at_most_two most (counts _ within) (counts _ bound) (Ne.symm ordinary)
  rw [← indexed.summed, all, gcValid_reserve ready indexed, List.length_map, indexed.zones, provisioned.count, Nat.sub_mul,
    Nat.one_mul] at short
  have one : blocks ≤ zones * blocks := Nat.le_mul_of_pos_left blocks (by rw [← provisioned.count]; omega)
  omega

/-- A target on a device where nothing fails. -/
structure Able (machine : Machine) (log : Extent) (limit zones blocks : Nat) : Prop where
  serving : Serving machine log limit True
  running : machine.lsm.writesStopped = false
  healthy : machine.world.oracle.Healthy
  provisioned : Provisioned machine zones blocks

section Able
variable (able : Able machine log limit zones blocks)
include able

theorem Able.same (same : Same machine after) : Able after log limit zones blocks := by
  obtain ⟨serving, running, healthy, provisioned⟩ := able
  have lsm := same.1
  refine ⟨serving.same same, ?_, healthy.later same.2.later, ?_, ?_, ?_⟩
  all_goals rw [lsm]
  · exact running
  · exact provisioned.count
  · exact provisioned.equal
  · exact provisioned.online

/-- Nothing keeps an append from its success. -/
theorem Able.notStuck {params : Params} (collects : params.policy ≠ .none) (below : limit / blockSectors < (zones - 1) * blocks) :
    ¬ Stuck params machine := by
  have ready := able.serving.ready able.running
  have coherent := able.serving.coherent
  have block := coherent.attached.block
  have provisioned := able.provisioned
  have logical : machine.lsm.logicalBlocks = limit / blockSectors := by rw [logicalBlocks, coherent.logicalSectors]
  obtain ⟨reserve, found, vacant⟩ := ready.reserve
  have room := provisioned.equal reserve (List.mem_of_getElem? found)
  rintro (idle | ⟨full, none_⟩ | ⟨id, present, later, held, eligible, collected, full⟩)
  · exact collects idle
  · obtain ⟨id, bound, ordinary, fewer⟩ := provisioned.garbage coherent.indexed (logical ▸ below)
    have member := List.getElem_mem bound
    exact none_ reserve found id bound (garbage_eligible block full vacant room (List.getElem?_eq_getElem bound)
      (provisioned.equal _ member) (provisioned.online _ member) ordinary fewer)
  · cases found.symm.trans held
    obtain ⟨victim, chosen⟩ := Eligible.chosen eligible
    have fewer := Eligible.fewer eligible chosen (provisioned.equal victim (List.mem_of_getElem? chosen))
    rw [← room] at fewer
    rw [collected.hasSpace block chosen found vacant fewer] at full
    cases full

/-- An append that succeeds leaves such a target, with one more block mapped. -/
theorem Able.appended (params : Params) {sector : Nat} (bytes : Nat → UInt8) (aligned : sector % blockSectors = 0)
    (inside : sector < limit) : Effect.Ensures (appendWrite params sector bytes) machine (fun result after =>
      (∀ error, result = .error error → Fine params machine → Stuck params machine) ∧
      (result = .ok () → Able after log limit zones blocks ∧ ∀ logicalBlock, (after.lsm.latest logicalBlock).isSome =
        (decide (logicalBlock = sector / blockSectors) || (machine.lsm.latest logicalBlock).isSome))) := by
  have coherent := able.serving.coherent
  have provisioned := able.provisioned
  refine (able.serving.append params bytes aligned inside).mono ?_
  rintro result after ⟨serving, appends⟩
  refine ⟨fun error failed fine => ((appends.refused error failed).2 fine able.running).2.1, fun done => ?_⟩
  obtain ⟨_, running, mapped, conditions⟩ := appends.written done
  have extents : after.lsm.allocator.zones.map Zone.extent = machine.lsm.allocator.zones.map Zone.extent :=
    extents_of_geometry serving.coherent.attached coherent.attached appends.beside.geometry
  refine ⟨⟨serving, running, able.healthy.later appends.beside.later, provisioned.of_extents extents ?_⟩, mapped⟩
  exact conditions (fun condition => condition ≠ .readonly ∧ condition ≠ .offline) (by decide) provisioned.online

/-- Every append succeeds, and leaves such a target. -/
theorem Able.append {params : Params} (collects : params.policy ≠ .none) (uninjected : Uninjected params)
    (below : limit / blockSectors < (zones - 1) * blocks) (roomy : limit / blockSectors < Kernel.entryLimit)
    {sector : Nat} (bytes : Nat → UInt8) (aligned : sector % blockSectors = 0) (inside : sector < limit) :
    Effect.Ensures (appendWrite params sector bytes) machine (fun result after =>
      result = .ok () ∧ Able after log limit zones blocks) := by
  refine (able.appended params bytes aligned inside).mono ?_
  rintro result after ⟨refused, done⟩
  cases result with
  | error error =>
    have fine : Fine params machine := by
      refine ⟨⟨able.healthy, ?_⟩, uninjected.1, uninjected.2.1, uninjected.2.2⟩
      rw [logicalBlocks, able.serving.coherent.logicalSectors]
      exact roomy
    exact absurd (refused error rfl fine) (able.notStuck collects below)
  | ok value => exact ⟨rfl, (done rfl).1⟩

/-- With every block of the ordinary zones live, nothing can be appended. -/
theorem Able.append_full {params : Params} (collects : params.policy ≠ .none)
    (all : machine.lsm.validBlocks = (zones - 1) * blocks) (sector : Nat) (bytes : Nat → UInt8) :
    Effect.Ensures (appendWrite params sector bytes) machine (fun result _ => result ≠ .ok ()) := by
  have coherent := able.serving.coherent
  have ready := able.serving.ready able.running
  have provisioned := able.provisioned
  have live {id : Nat} {zone : Zone} (found : machine.lsm.allocator.zones[id]? = some zone)
      (ordinary : id ≠ machine.lsm.allocator.reserveZone) : ¬ machine.lsm.gcValid id < blocks :=
    Nat.not_lt.mpr (provisioned.live ready coherent.indexed all (List.getElem?_eq_some_iff.mp found).1 ordinary)
  apply Effect.Ensures.get_bind
  rw [able.running, if_neg Bool.false_ne_true]
  refine Effect.Ensures.bind (runGcIfNeeded_kept params coherent ready able.running) ?_ ?_
  · rintro _ after ⟨_, _, done, _⟩
    obtain ⟨_, _, ⟨_, idle | space⟩ | ⟨id, reserve, _, _, eligible, _⟩⟩ := done rfl
    · exact absurd idle collects
    · obtain ⟨id, zone, found, ordinary, room⟩ := (Allocator.hasSpace_iff _).mp space
      rw [coherent.attached.block] at room
      have spare := gcValid_lt coherent found room
      rw [provisioned.equal zone (List.mem_of_getElem? found)] at spare
      exact absurd spare (live found ordinary)
    · obtain ⟨victim, found⟩ := Eligible.chosen eligible
      have spare := Eligible.fewer eligible found (provisioned.equal victim (List.mem_of_getElem? found))
      have ordinary : id ≠ machine.lsm.allocator.reserveZone := by
        have reserve := eligible.1
        simpa only [gcGetZoneInfo, found, decide_eq_false_iff_not] using reserve
      exact absurd spare (live found ordinary)
  · rintro error after _ ⟨⟩
/-- Every block can be fetched. -/
theorem Able.fetch {blockSector : Nat} (aligned : blockSector % blockSectors = 0) :
    Effect.Ensures (fetchBlock blockSector) machine (fun result after =>
      (∃ bytes, result = .ok bytes) ∧ Able after log limit zones blocks) := by
  have fetched : Effect.Ensures (fetchBlock blockSector) machine (fun result _ => ∃ bytes, result = .ok bytes) := by
    refine Effect.Ensures.attempt_bind (read_spec able.serving.coherent trivial able.healthy.distinct aligned) ?_
    rintro result after ⟨same, rfl | ⟨_, _, _, sick⟩⟩
    · cases mapping machine (blockSector / blockSectors) with
      | none => exact ⟨_, rfl⟩
      | some sector =>
        refine onWorld_ensures ((blockRead_spec .data sector after.world).mono ?_)
        rintro result world ⟨_, rfl | ⟨error, _, reports⟩⟩
        · exact ⟨_, rfl⟩
        · exact absurd reports ((able.healthy.later same.2.later).requests _ _)
    · exact absurd able.healthy sick
  exact fetched.and ((fetchBlock_same blockSector machine).mono fun _ _ same => able.same same)

theorem Able.allocate : ∃ after, onWorld ZnsBase.allocate machine = (.ok (), after) ∧ Same machine after ∧
    Able after log limit zones blocks := by
  have spec : Effect.Ensures (onWorld ZnsBase.allocate) machine (fun result _ =>
      result = .ok () ∨ result = .error .enomem ∧ ¬ machine.world.oracle.Healthy) :=
    onWorld_ensures ((allocate_quiet machine.world).mono fun _ _ spec => spec.2)
  have same := allocate_same machine
  unfold Effect.Ensures at spec same
  cases ran : onWorld ZnsBase.allocate machine with
  | mk result after =>
    rw [ran] at spec same
    rcases spec with granted | ⟨_, sick⟩
    · cases granted
      exact ⟨after, rfl, same, able.same same⟩
    · exact absurd able.healthy sick

end Able

section Writes
variable {params : Params} (collects : params.policy ≠ .none) (uninjected : Uninjected params)
  (below : limit / blockSectors < (zones - 1) * blocks) (roomy : limit / blockSectors < Kernel.entryLimit)
include collects uninjected below roomy

theorem writeOne_succeeds (bio : Bio) {fragment : Fragment} (buffer : Nat → UInt8) (able : Able machine log limit zones blocks)
    (aligned : fragment.block % blockSectors = 0) (inside : fragment.block < limit) :
    Effect.Ensures (writeOne params bio fragment buffer) machine (fun result after =>
      (∃ merged, result = .ok merged) ∧ Able after log limit zones blocks) := by
  have rest {machine : Machine} (able : Able machine log limit zones blocks) (merged : Nat → UInt8) :
      Effect.Ensures (do
        appendWrite params fragment.block merged
        pure merged) machine (fun result after => (∃ merged, result = .ok merged) ∧ Able after log limit zones blocks) := by
    refine Effect.Ensures.bind (able.append collects uninjected below roomy merged aligned inside) ?_ ?_
    · rintro _ after ⟨_, able⟩
      exact ⟨⟨merged, rfl⟩, able⟩
    · rintro error after ⟨failed, _⟩
      cases failed
  unfold writeOne
  split
  · refine Effect.Ensures.bind (able.fetch aligned) ?_ ?_
    · rintro fetched after ⟨_, able⟩
      exact rest able _
    · rintro error after ⟨⟨_, failed⟩, _⟩
      cases failed
  · exact rest able _

theorem writeEach_succeeds (bio : Bio) (fragments : List Fragment) (buffer : Nat → UInt8)
    (able : Able machine log limit zones blocks)
    (inside : ∀ fragment ∈ fragments, fragment.block % blockSectors = 0 ∧ fragment.block < limit) :
    (writeEach params bio fragments buffer machine).1 = ⟨.ok (), 0⟩ ∧
      Able (writeEach params bio fragments buffer machine).2 log limit zones blocks := by
  induction fragments generalizing machine buffer with
  | nil => exact ⟨rfl, able⟩
  | cons fragment rest ih =>
    obtain ⟨⟨aligned, low⟩, others⟩ := List.forall_mem_cons.mp inside
    have step := writeOne_succeeds collects uninjected below roomy bio buffer able aligned low
    unfold Effect.Ensures at step
    rw [writeEach]
    cases ran : writeOne params bio fragment buffer machine with
    | mk result after =>
      rw [ran] at step
      obtain ⟨⟨merged, done⟩, able⟩ := step
      cases done
      exact ih merged able others

theorem ioWrite_succeeds {bio : Bio} (able : Able machine log limit zones blocks) (whole : bio.size % sectorBytes = 0)
    (inside : bio.sector + bio.sectors ≤ limit) :
    (ioWrite params bio machine).1 = ⟨.ok (), 0⟩ ∧ Able (ioWrite params bio machine).2 log limit zones blocks := by
  obtain ⟨cloned, ran, _, able'⟩ := able.allocate
  unfold ioWrite
  split
  · have lies : (⟨bio.sector, bio.sectors, 0⟩ : Fragment).Lies bio := ⟨(Nat.add_zero _).symm, Nat.zero_add _⟩
    obtain ⟨_, fits⟩ := fragments_partition bio.sectors lies (Nat.le_refl _)
    unfold writePartial
    rw [able.running, if_neg Bool.false_ne_true, ran]
    dsimp only
    rw [writeFragments_each params bio.sectors lies (Nat.le_refl _)]
    refine writeEach_succeeds collects uninjected below roomy bio _ _ able' fun fragment member => ?_
    obtain ⟨more, fits⟩ := fits fragment member
    refine ⟨fits.aligned, ?_⟩
    have address := fits.address
    have covered := fits.covered
    simp only [Bio.sectors, sectorBytes] at whole inside address
    omega
  next aligned =>
    simp only [isAlignedIo, Bool.not_eq_false, decide_eq_true_eq] at aligned
    have step := able'.append collects uninjected below roomy bio.data aligned.2 (show bio.sector < limit by
      have sectors := aligned.1
      simp only [blockSectors] at sectors
      omega)
    unfold Effect.Ensures at step
    rw [ran]
    dsimp only
    cases wrote : appendWrite params bio.sector bio.data cloned with
    | mk result after =>
      rw [wrote] at step
      obtain ⟨done, able⟩ := step
      cases done
      exact ⟨rfl, able⟩

/-- Every write in range is taken and written. -/
theorem engineMap_succeeds {bio : Bio} (able : Able machine log limit zones blocks) (write : bio.op = .write)
    (inRange : InRange machine.lsm bio) : (engineMap params bio machine).1 = .wrote ⟨.ok (), 0⟩ ∧
      Able (engineMap params bio machine).2 log limit zones blocks := by
  obtain ⟨queued, ran, _, able'⟩ := able.allocate
  have range := inRange
  obtain ⟨_, whole, low, high⟩ := range
  rw [able.serving.coherent.logicalSectors] at low high
  obtain ⟨done, able⟩ := ioWrite_succeeds collects uninjected below roomy able' whole (by omega)
  unfold engineMap queueIo ioWorker
  simp only [write, if_pos inRange, ran]
  exact ⟨congrArg Reply.wrote done, able⟩

end Writes

omit [Kernel] in
/-- A start finds the zones as the device has them. -/
theorem started_provisioned {params : Params} {uuid : Nat} {world : World} {data : List Extent} {opened : Machine}
    (split : world.geometry.zones = data ++ [log])
    (opening : Opened params limit uuid world opened.world data log opened.lsm) (started : Started opened after)
    (equal : ∀ extent ∈ data, extent.capacity / blockSectors = blocks)
    (online : ∀ index < data.length, world.condition index ≠ .readonly ∧ world.condition index ≠ .offline) :
    Provisioned after data.length blocks := by
  have reports : after.lsm.allocator.zones = data.mapIdx fun index extent => world.report index index extent := by
    rw [started.zones, opening.allocator]
    exact World.zoneTable_dropLast split
  have reported {zone : Zone} (member : zone ∈ after.lsm.allocator.zones) :
      ∃ index extent, data[index]? = some extent ∧ zone = world.report index index extent := by
    rw [reports] at member
    obtain ⟨index, found⟩ := List.mem_iff_getElem?.mp member
    obtain ⟨extent, held, same⟩ := World.getElem?_reports found
    exact ⟨index, extent, held, same⟩
  refine ⟨by rw [reports, List.length_mapIdx], fun zone member => ?_, fun zone member => ?_⟩
  · obtain ⟨index, extent, held, rfl⟩ := reported member
    exact equal extent (List.mem_of_getElem? held)
  · obtain ⟨index, extent, held, rfl⟩ := reported member
    exact online index (List.getElem?_eq_some_iff.mp held).1

/-- What becomes of a target on a device where nothing fails, with a collecting
policy: requests and flushes in any order, detaches and starts. -/
inductive Lives (limit : Nat) (start : Machine) : Machine → Prop
  | start : Lives limit start start
  | event {params : Params} (collects : params.policy ≠ .none) (uninjected : Uninjected params) (event : Event)
      {machine : Machine} (lives : Lives limit start machine) : Lives limit start (handle params event machine).2
  | restart {params : Params} {uuid physicalSectors sectorsPerBlock : Nat} {oracle : Oracle} {machine : Machine}
      {lsm : Lsm} {after : World} (lives : Lives limit start machine) (healthy : oracle.Healthy)
      (ran : engineInit params uuid limit physicalSectors sectorsPerBlock { (engineExit machine).2 with oracle } =
        (.ok lsm, after)) : Lives limit start ⟨lsm, after⟩

section Clean
variable (clean : Clean machine log limit) (provisioned : Provisioned machine zones blocks)
include clean provisioned

theorem Clean.able : Able machine log limit zones blocks := ⟨clean.serving, clean.running, clean.healthy, provisioned⟩

theorem Clean.flushWorker_provisioned : Provisioned (Lsm.flushWorker machine) zones blocks := by
  have flushed := flushWorker_flushed clean.serving.coherent fun _ => clean.healthy.distinct
  obtain ⟨count, equal, online⟩ := provisioned
  rw [← flushed.flushes.allocator] at count equal online
  exact ⟨count, equal, online⟩

/-- The device keeps its data zones usable. -/
theorem Clean.online (index : Nat) (inside : index < machine.lsm.allocator.zones.length) :
    machine.world.condition index ≠ .readonly ∧ machine.world.condition index ≠ .offline := by
  have online := provisioned.online _ (List.getElem_mem inside)
  cases clean.ready.mirrors index _ (List.getElem?_eq_getElem inside) with
  | inUse _ _ _ readonly offline _ => exact ⟨fun stuck => online.1 (readonly.mp stuck), fun gone => online.2 (offline.mp gone)⟩
  | filled full _ =>
    rw [full]
    exact ⟨by rintro ⟨⟩, by rintro ⟨⟩⟩

theorem Clean.restart_provisioned {params : Params} {uuid physicalSectors sectorsPerBlock : Nat} {oracle : Oracle}
    {lsm : Lsm} {world : World}
    (ran : engineInit params uuid limit physicalSectors sectorsPerBlock { (flushAllSync machine).2.world with oracle } =
      (.ok lsm, world)) : Provisioned ⟨lsm, world⟩ zones blocks := by
  obtain ⟨before, written, rest, recorded, detaches⟩ := clean.detaches
  have split := detaches.split clean.serving.coherent.attached oracle
  obtain ⟨opened, opening, started⟩ := engineInit_ok split ran
  have again := @started_provisioned log limit _ blocks _ _ _ _ _ split opening started (fun extent member => ?_) fun index inside => ?_
  · rw [List.length_map, provisioned.count] at again
    exact again
  · obtain ⟨zone, known, rfl⟩ := List.mem_map.mp member
    exact provisioned.equal zone known
  · rw [List.length_map] at inside
    obtain ⟨_, condition⟩ := detaches.appended.others index (by omega)
    change (flushGenerations _ machine).2.world.condition index ≠ _ ∧ (flushGenerations _ machine).2.world.condition index ≠ _
    rw [condition]
    exact clean.online provisioned index inside

end Clean

theorem Lives.able {start : Machine} (lives : Lives limit start machine) (clean : Clean start log limit)
    (provisioned : Provisioned start zones blocks) (below : limit / blockSectors < (zones - 1) * blocks)
    (roomy : limit / blockSectors < Kernel.entryLimit) : Clean machine log limit ∧ Provisioned machine zones blocks := by
  induction lives with
  | start => exact ⟨clean, provisioned⟩
  | @event params collects uninjected event machine _ ih =>
    obtain ⟨clean, provisioned⟩ := ih
    cases event with
    | flushWork => exact ⟨clean.flushWorker, clean.flushWorker_provisioned provisioned⟩
    | bio bio =>
      refine ⟨clean.bio uninjected bio (Or.inl roomy), Able.provisioned (?_ : Able _ log limit zones blocks)⟩
      exact @engineMap_preserves _ params (fun machine => Able machine log limit zones blocks) limit
        (fun _ able => able.serving.coherent.logicalSectors) (fun _ _ able same => able.same same)
        (fun machine sector bytes able aligned inside =>
          (able.append collects uninjected below roomy bytes aligned inside).mono fun _ _ done => done.2)
        bio machine (clean.able provisioned)
  | restart _ healthy ran ih =>
    obtain ⟨clean, provisioned⟩ := ih
    exact ⟨clean.flushWorker.restart healthy ran,
      clean.flushWorker.restart_provisioned (clean.flushWorker_provisioned provisioned) ran⟩

theorem Lives.run {params : Params} {start : Machine} (collects : params.policy ≠ .none) (uninjected : Uninjected params)
    (events : List Event) (lives : Lives limit start machine) : Lives limit start (Lsm.run params events machine) := by
  induction events generalizing machine with
  | nil => exact lives
  | cons event events ih => exact ih (lives.event collects uninjected event)

omit [Kernel] in
theorem capacityOf_equal {dataZones : List Zone} {size : Nat} (equal : ∀ zone ∈ dataZones, zone.capacity = size) :
    capacityOf dataZones = (dataZones.length - 1) * usableSectors size := by
  have same : (dataZones.map fun zone => usableSectors zone.capacity) = List.replicate dataZones.length (usableSectors size) := by
    rw [← List.map_const']
    exact List.map_congr_left fun zone member => by rw [equal zone member]
  have largest (count : Nat) (highest : Nat) (above : usableSectors size ≤ highest) :
      (List.replicate count (usableSectors size)).foldl max highest = highest := by
    induction count with
    | zero => rfl
    | succ count ih => rw [List.replicate_succ, List.foldl_cons, Nat.max_eq_left above, ih]
  rw [capacityOf, same, List.sum_replicate_nat]
  cases dataZones.length with
  | zero => simp
  | succ count =>
    rw [List.replicate_succ, List.foldl_cons, Nat.max_eq_right (Nat.zero_le _), largest count _ (Nat.le_refl _), Nat.succ_mul,
      Nat.add_sub_cancel, Nat.add_sub_cancel]

omit [Kernel] in
theorem engineCapacity_spec (world : World) : Effect.Ensures engineCapacity world (fun result after => world.Quiet after ∧
    ∃ capacity, result = .ok capacity ∧ (capacity = 0 ∨ capacity = capacityOf world.zoneTable.dropLast)) := by
  refine Effect.Ensures.attempt_bind (zoneTableInit_spec world) ?_
  rintro result after ⟨quiet, ⟨rfl, _, _⟩ | ⟨error, rfl, _⟩⟩
  · dsimp only
    split
    · exact ⟨quiet, 0, rfl, Or.inl rfl⟩
    · exact ⟨quiet, _, rfl, Or.inr rfl⟩
  · exact ⟨quiet, 0, rfl, Or.inl rfl⟩

omit [Kernel] in
/-- A target that was constructed is no longer than the capacity on offer. -/
theorem baseCtr_ok {params : Params} {uuid len : Nat} {world after : World} {lsm : Lsm}
    (ran : baseCtr params uuid len world = (.ok lsm, after)) : ∃ capacity offered, (engineCapacity world).1 = .ok capacity ∧
      capacity = capacityOf world.zoneTable.dropLast ∧ len ≤ capacity ∧ world.Quiet offered ∧
      engineInit params uuid len len blockSectors offered = (.ok lsm, after) := by
  have spec := engineCapacity_spec world
  unfold Effect.Ensures at spec
  unfold baseCtr at ran
  cases offer : engineCapacity world with
  | mk result offered =>
    rw [offer] at spec
    obtain ⟨quiet, capacity, same, none_⟩ := spec
    dsimp only at same
    subst same
    rw [Effect.bind_ok offer] at ran
    split at ran
    · cases (congrArg Prod.fst ran)
    next fits =>
      obtain ⟨some_, short⟩ := not_or.mp fits
      exact ⟨capacity, offered, rfl, none_.resolve_left some_, Nat.le_of_not_gt short, quiet, ran⟩

/-- A device as it comes: data zones of one capacity, all empty, and an empty
metadata zone. -/
structure Blank (world : World) (data : List Extent) (log : Extent) (size : Nat) : Prop where
  split : world.geometry.zones = data ++ [log]
  equal : ∀ extent ∈ data, extent.capacity = size
  empty : ∀ index extent, data[index]? = some extent →
    world.condition index = .empty ∧ world.writePointer index = extent.start
  unformatted : world.LogEnd data.length log log.start
  healthy : world.oracle.Healthy
  unwritten : world.submitted = []

section Blank
variable {world : World} {data : List Extent} {size : Nat} (blank : Blank world data log size)
include blank

omit [Kernel] in
theorem Blank.wholeBlocks : WholeBlocks world := by
  intro index extent found _
  rw [blank.split, List.dropLast_concat] at found
  rw [(blank.empty index extent found).2, Nat.sub_self, Nat.zero_mod]

omit [Kernel] in
theorem Blank.capacity : capacityOf world.zoneTable.dropLast = (data.length - 1) * usableSectors size := by
  rw [World.zoneTable_dropLast blank.split, capacityOf_equal (fun zone member => ?_), List.length_mapIdx]
  obtain ⟨index, found⟩ := List.mem_iff_getElem?.mp member
  obtain ⟨extent, held, rfl⟩ := World.getElem?_reports found
  exact blank.equal extent (List.mem_of_getElem? held)

omit [Kernel] in
theorem Blank.quiet {offered : World} (quiet : world.Quiet offered) : Blank offered data log size := by
  obtain ⟨split, equal, empty, unformatted, healthy, unwritten⟩ := blank
  refine ⟨quiet.geometry ▸ split, equal, ?_, quiet.toSameDevice.logEnd unformatted, healthy.later quiet.later, ?_⟩
  · rw [quiet.condition, quiet.writePointer]
    exact empty
  · rw [quiet.submitted, unwritten]

/-- A target constructed on it starts with nothing amiss. -/
theorem Blank.starts {params : Params} {uuid : Nat} {lsm : Lsm} {final : World} (narrow : limit < 2 ^ 64)
    (ran : engineInit params uuid limit limit blockSectors world = (.ok lsm, final)) :
    Clean ⟨lsm, final⟩ log limit ∧ Provisioned ⟨lsm, final⟩ data.length (size / blockSectors) := by
  obtain ⟨log', clean⟩ := Clean.format narrow blank.healthy ⟨data, log, blank.split, blank.unformatted⟩ blank.wholeBlocks
    blank.unwritten ran
  obtain ⟨opened, opening, started⟩ := engineInit_ok blank.split ran
  have provisioned := @started_provisioned log limit ⟨lsm, final⟩ (size / blockSectors) _ _ _ _ _ blank.split opening started
    (fun extent member => by rw [blank.equal extent member]) fun index inside => by
      rw [(blank.empty index _ (List.getElem?_eq_getElem inside)).1]
      exact ⟨by rintro ⟨⟩, by rintro ⟨⟩⟩
  have same : log' = log := by
    have here := clean.serving.coherent.attached.geometry
    have there := (started.attached blank.split opening).geometry
    rw [there] at here
    exact (List.append_inj_right' here rfl |> List.head_eq_of_cons_eq).symm
  exact ⟨same ▸ clean, provisioned⟩

end Blank

/-- A write of one whole block. -/
def oneBlock (logicalBlock : Nat) : Bio := ⟨.write, logicalBlock * blockSectors, [blockBytes], fun _ => 0⟩

omit [Kernel] in
theorem oneBlock_size (logicalBlock : Nat) : (oneBlock logicalBlock).size = blockBytes := rfl

omit [Kernel] in
theorem oneBlock_sector (logicalBlock : Nat) : (oneBlock logicalBlock).sector = logicalBlock * blockSectors := rfl

omit [Kernel] in
theorem oneBlock_sectors (logicalBlock : Nat) : (oneBlock logicalBlock).sectors = blockSectors := by
  rw [Bio.sectors, oneBlock_size]
  rfl

omit [Kernel] in
theorem oneBlock_inRange {lsm : Lsm} (logicalSectors : lsm.super.logicalSectors = limit) {logicalBlock : Nat}
    (inside : logicalBlock < limit / blockSectors) : InRange lsm (oneBlock logicalBlock) := by
  rw [InRange, oneBlock_size, oneBlock_sectors, oneBlock_sector, logicalSectors]
  simp only [blockSectors] at inside ⊢
  exact ⟨by decide, by decide, by omega, by omega⟩

/-- Such a write is one append. -/
theorem engineMap_oneBlock (params : Params) (able : Able machine log limit zones blocks) {logicalBlock : Nat}
    (inside : logicalBlock < limit / blockSectors) : ∃ cloned, Same machine cloned ∧ Able cloned log limit zones blocks ∧
      ((engineMap params (oneBlock logicalBlock) machine).1 = .wrote ⟨.ok (), 0⟩ →
        appendWrite params (logicalBlock * blockSectors) (fun _ => 0) cloned =
          (.ok (), (engineMap params (oneBlock logicalBlock) machine).2)) := by
  obtain ⟨queued, ran, same, able'⟩ := able.allocate
  obtain ⟨cloned, ran', same', able''⟩ := able'.allocate
  have write : (oneBlock logicalBlock).op = .write := rfl
  have aligned : isAlignedIo (oneBlock logicalBlock).sector (oneBlock logicalBlock).sectors = true := by
    simp only [isAlignedIo, oneBlock_sectors, oneBlock_sector, Nat.mul_mod_left, and_self, decide_true]
  refine ⟨cloned, same.trans same', able'', fun done => ?_⟩
  unfold engineMap queueIo ioWorker ioWrite at done ⊢
  simp only [write, if_pos (oneBlock_inRange able.serving.coherent.logicalSectors inside), ran, aligned, Bool.true_eq_false,
    if_false, ran'] at done ⊢
  change (appendWrite params (oneBlock logicalBlock).sector (oneBlock logicalBlock).data cloned) = _
  cases wrote : appendWrite params (oneBlock logicalBlock).sector (oneBlock logicalBlock).data cloned with
  | mk result after =>
    rw [wrote] at done
    cases result with
    | ok value => rfl
    | error error => cases done

/-- Every write in range that reaches a target ends with success. -/
def AlwaysWrites (limit : Nat) (start : Machine) : Prop :=
  ∀ machine, Lives limit start machine → ∀ params : Params, params.policy ≠ .none → Uninjected params →
    ∀ bio : Bio, bio.op = .write → InRange machine.lsm bio → (engineMap params bio machine).1 = .wrote ⟨.ok (), 0⟩

section Filling
variable {start : Machine} (clean : Clean start log limit) (provisioned : Provisioned start zones blocks)
  (roomy : limit / blockSectors < Kernel.entryLimit)
include clean provisioned

/-- The build the filling run uses. -/
private def collecting : Params := ⟨.greedy, 16384, 0, 0, 0⟩

include roomy in
/-- If every write succeeds, a run can map the blocks one after the other. -/
theorem fills (always : AlwaysWrites limit start) (count : Nat) (inside : count ≤ limit / blockSectors) :
    ∃ machine, Lives limit start machine ∧ Clean machine log limit ∧ Provisioned machine zones blocks ∧
      ∀ logicalBlock < count, (machine.lsm.latest logicalBlock).isSome = true := by
  induction count with
  | zero => exact ⟨start, .start, clean, provisioned, fun _ below => absurd below (Nat.not_lt_zero _)⟩
  | succ count ih =>
    obtain ⟨machine, lives, clean, provisioned, mapped⟩ := ih (Nat.le_of_succ_le inside)
    have able := clean.able provisioned
    have coherent := clean.serving.coherent
    have uninjected : Uninjected collecting := ⟨rfl, rfl, rfl⟩
    obtain ⟨cloned, same, able, appends⟩ := engineMap_oneBlock collecting able inside
    have done := appends (always machine lives collecting (by decide) uninjected (oneBlock count) rfl
      (oneBlock_inRange coherent.logicalSectors inside))
    have low : count * blockSectors < limit := by
      have below := Nat.div_mul_le_self limit blockSectors
      simp only [blockSectors] at inside below ⊢
      omega
    have spec := able.appended collecting (fun _ => 0) (Nat.mul_mod_left count blockSectors) low
    rw [Effect.Ensures, done] at spec
    obtain ⟨able, latest⟩ := spec.2 rfl
    refine ⟨_, lives.event (by decide) uninjected (.bio (oneBlock count)),
      clean.bio uninjected (oneBlock count) (Or.inl roomy), able.provisioned, fun logicalBlock below => ?_⟩
    change ((engineMap collecting (oneBlock count) machine).2.lsm.latest logicalBlock).isSome = true
    rw [latest, Nat.mul_div_cancel _ (by decide), same.1]
    rcases Nat.lt_succ_iff_lt_or_eq.mp below with earlier | rfl
    · rw [mapped _ earlier, Bool.or_true]
    · rw [decide_eq_true rfl, Bool.true_or]

include roomy in
/-- A target as long as the ordinary zones does not always write: once every block
is mapped, no block can be written again. -/
theorem AlwaysWrites.spare (always : AlwaysWrites limit start) (positive : 0 < limit / blockSectors) :
    limit / blockSectors ≠ (zones - 1) * blocks := by
  intro whole
  obtain ⟨machine, lives, clean, provisioned, mapped⟩ := fills clean provisioned roomy always _ (Nat.le_refl _)
  have coherent := clean.serving.coherent
  have uninjected : Uninjected collecting := ⟨rfl, rfl, rfl⟩
  obtain ⟨cloned, same, able, appends⟩ := engineMap_oneBlock collecting (clean.able provisioned) positive
  have done := appends (always machine lives collecting (by decide) uninjected (oneBlock 0) rfl
    (oneBlock_inRange coherent.logicalSectors positive))
  have all : cloned.lsm.validBlocks = (zones - 1) * blocks := by
    rw [same.1, coherent.indexed.total, logicalBlocks, coherent.logicalSectors, ← whole]
    refine (List.countP_eq_length.mpr fun logicalBlock member => ?_).trans List.length_range
    exact mapped logicalBlock (List.mem_range.mp member)
  have full := able.append_full (show collecting.policy ≠ .none by decide) all (0 * blockSectors) fun _ => 0
  rw [Effect.Ensures, done] at full
  exact full rfl

end Filling

omit [Kernel] in
theorem fresh_blank {geometry : Geometry} {data : List Extent} {size : Nat} (split : geometry.zones = data ++ [log])
    (equal : ∀ extent ∈ data, extent.capacity = size) : Blank (World.fresh geometry) data log size := by
  have pointer {index : Nat} {extent : Extent} (found : geometry.zones[index]? = some extent) :
      (World.fresh geometry).writePointer index = extent.start := by
    simp only [World.fresh, found, Option.map_some, Option.getD_some]
  refine ⟨split, equal, fun index extent found => ⟨rfl, pointer ?_⟩, (pointer ?_).symm, Oracle.calm_healthy, rfl⟩
  · exact @World.dataZone (World.fresh geometry) _ _ split _ _ found
  · exact @World.logZone (World.fresh geometry) _ _ split

omit [Kernel] in
/-- Two data zones of four blocks, of which one is held back. -/
theorem small_blank : Blank (World.fresh smallGeometry) [⟨0, 32, 32⟩, ⟨32, 32, 32⟩] ⟨64, 64, 64⟩ 32 :=
  fresh_blank rfl (by decide)

omit [Kernel] in
theorem capacity_offered : (engineCapacity (World.fresh smallGeometry)).1 = .ok 32 := by decide +kernel

omit [Kernel] in
/-- Run a target of some length on the small device. -/
def constructsAnd (len : Nat) (test : Machine → Bool) : Bool :=
  match baseCtr plainParams 0 len (World.fresh smallGeometry) with
  | (.ok lsm, after) => test ⟨lsm, after⟩
  | (.error _, _) => false

omit [Kernel] in
theorem constructsAnd_spec {len : Nat} {test : Machine → Bool} (passes : constructsAnd len test = true) : ∃ lsm after,
    baseCtr plainParams 0 len (World.fresh smallGeometry) = (.ok lsm, after) ∧ test ⟨lsm, after⟩ = true := by
  unfold constructsAnd at passes
  split at passes
  next lsm after ran => exact ⟨lsm, after, ran, passes⟩
  next => cases passes

omit [Kernel] in
/-- How a write ended. -/
def Reply.outcome : Reply → Option WriteOutcome
  | .wrote outcome => some outcome
  | _ => none

omit [Kernel] in
/-- Every block of a target of four blocks is written once. -/
def writeAll : List Event := [writeBlock 0 1, writeBlock 1 1, writeBlock 2 1, writeBlock 3 1]

end Lsm
end ZnsBase
