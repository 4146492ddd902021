import ZnsBase.Proofs.Coherence

/-! The single steps of the write path on a coherent engine: a slot is taken, a
block lands in it, the mapping moves to it, a failed write is resynchronised, an
emptied zone becomes the reserve. -/

namespace ZnsBase
open Library

namespace Lsm

/-- A slot handed out last in its zone, with nothing mapped to it yet. -/
structure Fresh (lsm : Lsm) (index slot sector : Nat) : Prop where
  place : lsm.SlotAt index slot sector
  written : lsm.Written index slot
  free : lsm.gcEntry index slot = 0
  last : ∀ other, lsm.gcEntry index other ≠ 0 → other < slot

theorem slotAt_set {lsm : Lsm} {allocator : Allocator} {index : Nat} {zone updated : Zone}
    (found : lsm.allocator.zones[index]? = some zone) (zones : allocator.zones = lsm.allocator.zones.set index updated)
    (extent : updated.extent = zone.extent) (other slot sector : Nat) :
    SlotAt { lsm with allocator } other slot sector ↔ lsm.SlotAt other slot sector := by
  obtain ⟨bound, _⟩ := List.getElem?_eq_some_iff.mp found
  have start : updated.startSector = zone.startSector := congrArg Extent.start extent
  have capacity : updated.capacity = zone.capacity := congrArg Extent.capacity extent
  simp only [SlotAt, zones]
  by_cases here : other = index
  · subst here
    rw [List.getElem?_set_self bound, found]
    simp only [Option.some.injEq, exists_eq_left', start, capacity]
  · rw [List.getElem?_set_ne (Ne.symm here)]

/-- A zone changes under the indexes; what is mapped in it stays written. -/
theorem Indexed.onZone {lsm : Lsm} {allocator : Allocator} {index : Nat} {zone updated : Zone} (indexed : Indexed lsm)
    (found : lsm.allocator.zones[index]? = some zone) (zones : allocator.zones = lsm.allocator.zones.set index updated)
    (extent : updated.extent = zone.extent)
    (written : ∀ slot, lsm.gcEntry index slot ≠ 0 →
      zone.startSector + slot * blockSectors < updated.writePointer ∨ updated.condition = .full) :
    Indexed { lsm with allocator } := by
  obtain ⟨bound, _⟩ := List.getElem?_eq_some_iff.mp found
  have start : updated.startSector = zone.startSector := congrArg Extent.start extent
  have capacity : updated.capacity = zone.capacity := congrArg Extent.capacity extent
  refine ⟨⟨?_, ?_, indexed.counted, ?_⟩, ?_, indexed.encoded, indexed.inRange, indexed.total, indexed.summed⟩
  · simp only [zones, List.length_set]
    exact indexed.zones
  · intro other current gcZone held
    simp only [zones] at held
    by_cases here : other = index
    · subst here
      rw [List.getElem?_set_self bound] at held
      cases held
      rw [capacity]
      exact indexed.sizes other zone gcZone found
    · rw [List.getElem?_set_ne (Ne.symm here)] at held
      exact indexed.sizes other current gcZone held
  · intro other slot occupied
    obtain ⟨current, held, inside, state⟩ := indexed.written other slot occupied
    by_cases here : other = index
    · subst here
      cases found.symm.trans held
      refine ⟨updated, ?_, ?_, ?_⟩
      · simp only [zones, List.getElem?_set_self bound]
      · rw [capacity]
        exact inside
      · rw [start]
        exact written slot occupied
    · refine ⟨current, ?_, inside, state⟩
      simp only [zones, List.getElem?_set_ne (Ne.symm here)]
      exact held
  · intro logicalBlock sector
    simp only [slotAt_set found zones extent]
    exact indexed.located logicalBlock sector

section Steps
variable [Kernel] {machine : Machine} {log : Extent} {limit : Nat} {lossless : Prop} (coherent : Coherent machine log limit lossless)
include coherent

/-- A zone of the allocator changes without losing what is mapped in it. -/
theorem Coherent.onZone {allocator : Allocator} {index : Nat} {zone updated : Zone}
    (mode : allocator.mode = machine.lsm.allocator.mode)
    (block : allocator.sectorsPerBlock = machine.lsm.allocator.sectorsPerBlock)
    (found : machine.lsm.allocator.zones[index]? = some zone)
    (zones : allocator.zones = machine.lsm.allocator.zones.set index updated) (extent : updated.extent = zone.extent)
    (placed : updated.IsWritable → updated.startSector ≤ updated.writePointer)
    (written : ∀ slot, machine.lsm.gcEntry index slot ≠ 0 →
      zone.startSector + slot * blockSectors < updated.writePointer ∨ updated.condition = .full)
    (aligned : updated.CanAppend blockSectors → (updated.writePointer - updated.startSector) % blockSectors = 0) :
    Coherent { machine with lsm.allocator := allocator } log limit lossless := by
  refine { coherent with
    attached := coherent.attached.onZone mode block found zones extent placed
    indexed := coherent.indexed.onZone found zones extent written
    agrees := coherent.agrees
    aligned := ?_ }
  intro other member room
  simp only [zones] at member
  rcases List.mem_or_eq_of_mem_set member with old | rfl
  · exact coherent.aligned other old room
  · exact aligned room

/-- The cursor of the allocator is no part of the picture. -/
theorem Coherent.onSearch {allocator : Allocator} (keeps : machine.lsm.allocator.Keeps allocator)
    (zones : allocator.zones = machine.lsm.allocator.zones) :
    Coherent { machine with lsm.allocator := allocator } log limit lossless := by
  refine { coherent with
    attached := coherent.attached.onSearch keeps zones
    indexed := ?_
    agrees := coherent.agrees
    aligned := ?_ }
  · have indexed := coherent.indexed
    refine ⟨⟨?_, ?_, indexed.counted, ?_⟩, ?_, indexed.encoded, indexed.inRange, indexed.total, indexed.summed⟩
    all_goals simp only [zones, Written, SlotAt]
    exacts [indexed.zones, indexed.sizes, indexed.written, indexed.located]
  · simp only [zones]
    exact coherent.aligned

/-- Taking a block gives a fresh slot. -/
theorem Coherent.take {allocator : Allocator} {index : Nat} {zone : Zone}
    (takes : machine.lsm.allocator.Takes allocator index zone) :
    Coherent { machine with lsm.allocator := allocator } log limit lossless ∧
      Fresh { machine.lsm with allocator } index ((zone.writePointer - zone.startSector) / blockSectors)
        zone.writePointer := by
  have size : blockSectors = 8 := rfl
  have room := takes.room
  rw [coherent.attached.block] at room
  have aligned := coherent.aligned zone (List.mem_of_getElem? takes.found) room
  obtain ⟨low, high, _⟩ := coherent.attached.inside takes.found takes.room
  have fits := room.fits
  have indexed := coherent.indexed
  have zones := takes.zones
  rw [coherent.attached.block] at zones
  have below : ∀ slot, machine.lsm.gcEntry index slot ≠ 0 →
      zone.startSector + slot * blockSectors < zone.writePointer := by
    intro slot occupied
    obtain ⟨current, held, _, state⟩ := indexed.written index slot occupied
    cases takes.found.symm.trans held
    rcases state with below | full
    · exact below
    · exact absurd full room.isWritable.1
  obtain ⟨bound, _⟩ := List.getElem?_eq_some_iff.mp takes.found
  have found : allocator.zones[index]? = some { zone with writePointer := zone.writePointer + blockSectors } := by
    rw [zones, List.getElem?_set_self bound]
  have place : zone.startSector + (zone.writePointer - zone.startSector) / blockSectors * blockSectors =
      zone.writePointer := by
    rw [size] at aligned ⊢
    omega
  have inside : ((zone.writePointer - zone.startSector) / blockSectors + 1) * blockSectors ≤ zone.capacity := by
    rw [size] at aligned high ⊢
    simp only [Zone.endSector] at high
    omega
  have last : ∀ other, machine.lsm.gcEntry index other ≠ 0 →
      other < (zone.writePointer - zone.startSector) / blockSectors := by
    intro other occupied
    have := below other occupied
    rw [size] at this ⊢
    rw [size] at aligned
    omega
  constructor
  · refine coherent.onZone takes.mode takes.sectorsPerBlock takes.found zones rfl (fun _ => ?_) ?_ (fun _ => ?_)
    · exact low.trans (Nat.le_add_right _ _)
    · exact fun slot occupied => Or.inl ((below slot occupied).trans_le (Nat.le_add_right _ _))
    · rw [size] at aligned ⊢
      dsimp only
      omega
  · refine ⟨⟨_, found, place.symm, inside⟩, ⟨_, found, inside, Or.inl ?_⟩, ?_, last⟩
    · rw [place]
      exact Nat.lt_add_of_pos_right (by decide)
    · refine not_not.mp fun occupied => ?_
      exact Nat.lt_irrefl _ (last _ occupied)

/-- Bytes of other zones. -/
private theorem address_apart {index : Nat} {zone : Zone} (found : machine.lsm.allocator.zones[index]? = some zone) :
    (zone.startSector + zone.length) * sectorBytes ≤ log.start * sectorBytes := by
  obtain ⟨bound, _⟩ := List.getElem?_eq_some_iff.mp found
  have apart := Geometry.apart (coherent.attached.extent found) coherent.attached.logExtent bound
  exact Nat.mul_le_mul_right _ apart

/-- A block lies outside every other zone. -/
private theorem block_outside {index other slot physical byte : Nat} {zone : Zone}
    (found : machine.lsm.allocator.zones[index]? = some zone) (place : machine.lsm.SlotAt other slot physical)
    (different : other ≠ index) (inside : byte < blockBytes) :
    physical * sectorBytes + byte < zone.startSector * sectorBytes ∨
      (zone.startSector + zone.length) * sectorBytes ≤ physical * sectorBytes + byte := by
  obtain ⟨current, present, here, fits⟩ := place
  have bytes : blockBytes = blockSectors * sectorBytes := rfl
  have capacity : current.capacity ≤ current.length := Geometry.capacity_le_len (coherent.attached.extent present)
  rw [Nat.add_mul, Nat.one_mul] at fits
  rcases Nat.lt_or_gt_of_ne different with less | more
  · have apart := Geometry.apart (coherent.attached.extent present) (coherent.attached.extent found) less
    simp only [Zone.extent] at apart
    left
    have order : (physical + blockSectors) * sectorBytes ≤ zone.startSector * sectorBytes :=
      Nat.mul_le_mul_right _ (by omega)
    rw [Nat.add_mul, ← bytes] at order
    omega
  · have apart := Geometry.apart (coherent.attached.extent found) (coherent.attached.extent present) more
    simp only [Zone.extent] at apart
    right
    have order : (zone.startSector + zone.length) * sectorBytes ≤ physical * sectorBytes :=
      Nat.mul_le_mul_right _ (by omega)
    omega

/-- Whatever reaches a fresh slot, no mapped byte changes. -/
theorem Coherent.land {world : World} {index slot sector : Nat} {zone : Zone}
    (fresh : Fresh machine.lsm index slot sector) (found : machine.lsm.allocator.zones[index]? = some zone)
    (appended : machine.world.Appended world index zone.extent sector) :
    Coherent { machine with world } log limit lossless ∧
      (lossless → disk { machine with world } = disk machine) := by
  have far := address_apart coherent found
  obtain ⟨moved, same⟩ := coherent.onWorld appended.geometry (fun address above _ =>
    appended.media address (Or.inr (far.trans above)))
  refine ⟨moved, fun trusted => disk_congr (same trusted) fun logicalBlock physical held byte inside => ?_⟩
  obtain ⟨other, spot, place, entry⟩ := coherent.located trusted held
  obtain ⟨_, found', there, _⟩ := fresh.place
  cases found.symm.trans found'
  refine appended.media _ ?_
  by_cases same : other = index
  · subst same
    obtain ⟨current, present, here, _⟩ := place
    cases found.symm.trans present
    have before := fresh.last spot (by rw [entry]; exact encodeLogicalBlock_ne_zero _)
    left
    have bytes : blockBytes = 8 * sectorBytes := rfl
    have order : (physical + 8) * sectorBytes ≤ sector * sectorBytes := by
      simp only [blockSectors] at here there
      exact Nat.mul_le_mul_right _ (by omega)
    rw [Nat.add_mul, ← bytes] at order
    omega
  · refine (block_outside coherent found place same inside).imp_left fun below => below.trans_le ?_
    exact Nat.mul_le_mul_right _ (by omega)

/-- A zone without live blocks may be emptied. -/
theorem Coherent.reset {world : World} {id : Nat} {zone : Zone} (found : machine.lsm.allocator.zones[id]? = some zone)
    (empty : ∀ slot, machine.lsm.gcEntry id slot = 0)
    (same : ({ machine.world with
      media := overlay machine.world.media (zone.startSector * sectorBytes) (zone.length * sectorBytes) (fun _ => 0)
      }.setZone id zone.startSector .empty).SameDevice world) :
    Coherent { machine with world } log limit lossless ∧
      (lossless → disk { machine with world } = disk machine) := by
  have far := address_apart coherent found
  have outside {address : Nat} (apart : address < zone.startSector * sectorBytes ∨
      (zone.startSector + zone.length) * sectorBytes ≤ address) : world.media address = machine.world.media address := by
    rw [same.media]
    simp only [World.setZone]
    exact overlay_outside (by rw [← Nat.add_mul]; exact apart)
  obtain ⟨moved, mapped⟩ := coherent.onWorld same.geometry (fun address above _ => outside (Or.inr (far.trans above)))
  refine ⟨moved, fun trusted => disk_congr (mapped trusted) fun logicalBlock physical held byte inside => outside ?_⟩
  obtain ⟨other, spot, place, entry⟩ := coherent.located trusted held
  refine block_outside coherent found place ?_ inside
  rintro rfl
  rw [empty] at entry
  exact encodeLogicalBlock_ne_zero _ entry.symm

end Steps

/-- The log, its tables and its zone are as they were. -/
structure Beside (before after : Machine) (log : Extent) : Prop where
  sameLog : SameLog before.lsm after.lsm
  sstables : after.lsm.sstables = before.lsm.sstables
  nextSstSeq : after.lsm.nextSstSeq = before.lsm.nextSstSeq
  memtableThreshold : after.lsm.memtableThreshold = before.lsm.memtableThreshold
  flushing : after.lsm.flushing = before.lsm.flushing
  gcIndexFailures : after.lsm.gcIndexFailures = before.lsm.gcIndexFailures
  zones : after.lsm.allocator.zones.length = before.lsm.allocator.zones.length
  geometry : after.world.geometry = before.world.geometry
  fullAtLength : after.world.fullAtLength = before.world.fullAtLength
  pointer : after.world.writePointer before.lsm.allocator.zones.length =
    before.world.writePointer before.lsm.allocator.zones.length
  condition : after.world.condition before.lsm.allocator.zones.length =
    before.world.condition before.lsm.allocator.zones.length
  media : ∀ address, log.start * sectorBytes ≤ address → after.world.media address = before.world.media address
  metaWrites : after.world.metaWrites = before.world.metaWrites
  later : before.world.oracle.Later after.world.oracle

namespace Beside
variable {log : Extent}

theorem refl (machine : Machine) : Beside machine machine log :=
  ⟨.refl _, rfl, rfl, rfl, rfl, rfl, rfl, rfl, rfl, rfl, rfl, fun _ _ => rfl, rfl, .refl _⟩

theorem trans {first second third : Machine} (earlier : Beside first second log) (later : Beside second third log) :
    Beside first third log where
  sameLog := earlier.sameLog.trans later.sameLog
  sstables := later.sstables.trans earlier.sstables
  nextSstSeq := later.nextSstSeq.trans earlier.nextSstSeq
  memtableThreshold := later.memtableThreshold.trans earlier.memtableThreshold
  flushing := later.flushing.trans earlier.flushing
  gcIndexFailures := later.gcIndexFailures.trans earlier.gcIndexFailures
  zones := later.zones.trans earlier.zones
  geometry := later.geometry.trans earlier.geometry
  fullAtLength := later.fullAtLength.trans earlier.fullAtLength
  pointer := by
    rw [← earlier.pointer, ← earlier.zones]
    exact later.pointer
  condition := by
    rw [← earlier.condition, ← earlier.zones]
    exact later.condition
  media := fun address above => (later.media address above).trans (earlier.media address above)
  metaWrites := later.metaWrites.trans earlier.metaWrites
  later := earlier.later.trans later.later

theorem of_alike {before after : Machine} (alike : Alike before after) : Beside before after log := by
  obtain ⟨engine, quiet⟩ := alike
  refine ⟨⟨?_, ?_, ?_, ?_⟩, ?_, ?_, ?_, ?_, ?_, ?_, quiet.geometry, quiet.fullAtLength, by rw [quiet.writePointer],
    by rw [quiet.condition], fun _ _ => by rw [quiet.media], quiet.metaWrites, quiet.later⟩
  all_goals rw [engine]

end Beside

/-- No allocation fails while tables hold at most one entry per logical block. -/
structure Supplied [Kernel] (machine : Machine) : Prop where
  healthy : machine.world.oracle.Healthy
  roomy : machine.lsm.logicalBlocks < Kernel.entryLimit

theorem Supplied.beside [Kernel] {before after : Machine} {log : Extent} (supplied : Supplied before)
    (beside : Beside before after log) : Supplied after := by
  refine ⟨supplied.healthy.later beside.later, ?_⟩
  rw [logicalBlocks, beside.sameLog.super]
  exact supplied.roomy

section Publish
variable [Kernel] {machine : Machine} {log : Extent} {limit : Nat} {lossless : Prop} (coherent : Coherent machine log limit lossless)
include coherent

theorem Coherent.nrEntries_le {table : Memtable} (member : table ∈ machine.lsm.residents) :
    table.nrEntries ≤ machine.lsm.logicalBlocks := by
  have sound := coherent.sound table member
  have distinct : (table.root.inorder.map Entry.logicalBlock).Nodup := by
    rw [List.Nodup, List.pairwise_map]
    exact sound.ordered.imp (fun less => less.ne)
  have inside : table.root.inorder.map Entry.logicalBlock ⊆ List.range machine.lsm.logicalBlocks := by
    intro block held
    obtain ⟨entry, present, rfl⟩ := List.mem_map.mp held
    exact List.mem_range.mpr (coherent.bounded table member entry present)
  have count := (distinct.subperm inside).length_le
  rw [sound.counted]
  simpa using count

/-- The mapping of one block has moved. -/
structure Published (before after : Machine) (log : Extent) (limit : Nat) (lossless : Prop) (logicalBlock sector : Nat) : Prop where
  coherent : Coherent after log limit lossless
  beside : Beside before after log
  allocator : after.lsm.allocator = before.lsm.allocator
  writesStopped : after.lsm.writesStopped = before.lsm.writesStopped
  gcMoved : after.lsm.gcMoved = before.lsm.gcMoved
  device : before.world.Quiet after.world
  latest : ∀ block, after.lsm.latest block =
    if block = logicalBlock then some (encodePhysicalSector sector) else before.lsm.latest block
  mapping : lossless → ∀ block, Lsm.mapping after block =
    if block = logicalBlock then some sector else Lsm.mapping before block

/-- Once the new entry is in the table, the index update cannot fail. -/
theorem publish_put {tables : Generations} {world : World} {logicalBlock index slot sector : Nat}
    (fresh : Fresh machine.lsm index slot sector) (bound : logicalBlock < machine.lsm.logicalBlocks)
    (quiet : machine.world.Quiet world) (updates : machine.lsm.tables.Updates tables logicalBlock sector) :
    ∃ lsm, updateGcBlockLocation logicalBlock sector { machine.lsm with tables } = (.ok (), lsm) ∧
      Published machine ⟨lsm, world⟩ log limit lossless logicalBlock sector := by
  have attached : Attached ⟨{ machine.lsm with tables }, world⟩ log :=
    (coherent.attached.onDevice quiet.geometry).onEngine rfl rfl rfl
  have indexed : Indexed { machine.lsm with tables } := coherent.indexed.congr rfl rfl rfl rfl rfl
  obtain ⟨old, done, after⟩ := @updateGcBlockLocation_fresh ⟨{ machine.lsm with tables }, world⟩ log logicalBlock sector
    index slot attached indexed fresh.place fresh.written fresh.free bound
  refine ⟨_, done, ?_⟩
  generalize same : gcCommit { machine.lsm with tables } logicalBlock sector old (index, slot) = lsm at done after
  have allocator : lsm.allocator = machine.lsm.allocator := by
    rw [← same]
    cases old <;> rfl
  have engine : lsm = { machine.lsm with
      tables
      gcZones := lsm.gcZones
      validBlocks := lsm.validBlocks
      latest := fun block =>
        if block = logicalBlock then some (encodePhysicalSector sector) else machine.lsm.latest block } := by
    rw [← same]
    cases old <;> rfl
  obtain ⟨moved, _⟩ := coherent.onWorld quiet.geometry (fun address _ _ => by rw [quiet.media])
  have mapped (block : Nat) : mapping ⟨lsm, world⟩ block =
      if block = logicalBlock then some sector else mapping machine block := by
    have older : Layers.resolve (olderLayers ⟨lsm, world⟩) block = Layers.resolve (olderLayers machine) block := by
      rw [engine]
      simp only [olderLayers, quiet.media]
    have held : lsm.tables = tables := by rw [engine]
    rw [mapping_eq, mapping_eq, older, held, updates.2 block]
    split <;> rfl
  refine ⟨⟨?_, ?_, ?_, coherent.narrow, coherent.whole, ?_, ?_, ?_, ?_, after, ?_, ?_, ?_⟩, ⟨⟨?_, ?_, ?_, ?_⟩, ?_, ?_, ?_, ?_, ?_, ?_,
    quiet.geometry, quiet.fullAtLength, by rw [quiet.writePointer], by rw [quiet.condition],
    fun _ _ => by rw [quiet.media], quiet.metaWrites, quiet.later⟩, allocator, by rw [engine], by rw [engine], quiet, by rw [engine]; exact fun _ => rfl,
    fun _ => mapped⟩
  · exact (coherent.attached.onDevice quiet.geometry).onEngine allocator (by rw [engine]) (by rw [engine])
  · rw [engine]
    exact coherent.logicalSectors
  · rw [engine]
    exact coherent.threshold
  · rw [engine]
    exact coherent.logStart
  · rw [engine]
    exact coherent.logEnd
  · rw [engine]
    intro table member
    rcases List.mem_append.mp member with new | old
    · exact updates.1 table new
    · exact coherent.sound table (List.mem_append_right _ old)
  · rw [engine]
    exact moved.stored
  · rw [logicalBlocks, engine]
    intro table member
    rcases List.mem_append.mp member with new | old
    · exact updates.bounded bound (fun older held => coherent.bounded older (List.mem_append_left _ held)) table new
    · exact coherent.bounded table (List.mem_append_right _ old)
  · intro trusted block
    rw [mapped, engine]
    dsimp only
    split
    · rfl
    · exact coherent.agrees trusted block
  · rw [allocator]
    exact coherent.aligned
  all_goals rw [engine]

/-- `zns_lsm_publish_write` into a fresh slot: the mapping moves, or memory runs
out and nothing changes. -/
theorem publishWrite_spec {logicalSector index slot sector : Nat} (fresh : Fresh machine.lsm index slot sector)
    (bound : logicalSector / blockSectors < machine.lsm.logicalBlocks) :
    Effect.Ensures (publishWrite logicalSector sector) machine (fun result after =>
      (result = .ok () ∧ Published machine after log limit lossless (logicalSector / blockSectors) sector) ∨
      (∃ error, result = .error error ∧ after.lsm = machine.lsm ∧ machine.world.Quiet after.world ∧
        ¬ Supplied machine)) := by
  have blocks : machine.lsm.logicalBlocks < 2 ^ 64 := by
    have narrow := coherent.narrow
    rw [logicalBlocks, coherent.logicalSectors]
    exact (Nat.div_le_self _ _).trans_lt narrow
  have physical : sector < 2 ^ 64 := by
    obtain ⟨zone, found, same, inside⟩ := fresh.place
    have capacity : zone.capacity ≤ zone.length := Geometry.capacity_le_len (coherent.attached.extent found)
    have limit := machine.world.geometry.bounded _ (List.mem_of_getElem? (coherent.attached.extent found))
    simp only [Zone.extent, blockSectors] at limit inside same
    omega
  have reserve : Effect.Ensures (onWorld allocate) machine (fun result after => after.lsm = machine.lsm ∧
      machine.world.Quiet after.world ∧ ∀ error, result = .error error → ¬ Supplied machine) := by
    refine onWorld_ensures ((allocate_quiet machine.world).mono ?_)
    rintro result world ⟨quiet, rfl | ⟨rfl, sick⟩⟩
    · exact ⟨rfl, quiet, (by rintro _ ⟨⟩)⟩
    · exact ⟨rfl, quiet, fun _ _ supplied => sick supplied.healthy⟩
  refine Effect.Ensures.bind reserve ?_ (fun error after spec => Or.inr ⟨error, rfl, spec.1, spec.2.1, spec.2.2 error rfl⟩)
  rintro _ ⟨lsm, world⟩ ⟨same, quiet, _⟩
  dsimp only at same quiet
  subst same
  have tablesSound : machine.lsm.tables.Sound := fun table member => coherent.sound table (List.mem_append_left _ member)
  have put : Effect.Ensures (putActive (logicalSector / blockSectors) sector) ⟨machine.lsm, world⟩ (fun result after =>
      (∃ tables last, result = .ok () ∧ after = ⟨{ machine.lsm with tables }, last⟩ ∧ machine.world.Quiet last ∧
        machine.lsm.tables.Updates tables (logicalSector / blockSectors) sector) ∨
      (∃ error, result = .error error ∧ after.lsm = machine.lsm ∧ machine.world.Quiet after.world ∧
        ¬ Supplied machine)) := by
    apply Effect.Ensures.get_bind
    have spec : Effect.Ensures (onWorld (machine.lsm.tables.putActive machine.lsm.memtableThreshold
        (logicalSector / blockSectors) sector)) ⟨machine.lsm, world⟩ (fun result after =>
        (∃ last, after = ⟨machine.lsm, last⟩ ∧ machine.world.Quiet last) ∧
        ((∃ tables, result = .ok tables ∧ machine.lsm.tables.Updates tables (logicalSector / blockSectors) sector) ∨
          ∃ error, result = .error error ∧ ¬ Supplied machine)) := by
      refine onWorld_ensures ((Generations.putActive_spec _ world tablesSound (bound.trans blocks) physical).mono ?_)
      rintro result last ⟨more, done | ⟨error, failed, cause⟩⟩
      · exact ⟨⟨last, rfl, quiet.trans more⟩, Or.inl done⟩
      · refine ⟨⟨last, rfl, quiet.trans more⟩, Or.inr ⟨error, failed, fun supplied => ?_⟩⟩
        rcases cause with zero | full
        · exact coherent.threshold zero
        · have limit := full (supplied.healthy.later quiet.later)
          have count : machine.lsm.tables.active.nrEntries ≤ machine.lsm.logicalBlocks :=
            coherent.nrEntries_le (by simp [residents, Generations.tables])
          have roomy := supplied.roomy
          omega
    refine Effect.Ensures.bind spec ?_ ?_
    · rintro tables _ ⟨⟨last, rfl, more⟩, ⟨_, same, updates⟩ | ⟨_, failed, _⟩⟩
      · cases same
        exact Or.inl ⟨tables, last, rfl, rfl, more, updates⟩
      · cases failed
    · rintro error _ ⟨⟨last, rfl, more⟩, ⟨_, same, _⟩ | ⟨_, failed, cause⟩⟩
      · cases same
      · exact Or.inr ⟨error, rfl, rfl, more, cause⟩
  refine Effect.Ensures.bind put ?_ ?_
  · rintro _ _ (⟨tables, last, _, rfl, more, updates⟩ | ⟨_, failed, _⟩)
    · obtain ⟨lsm, done, published⟩ := publish_put coherent fresh bound more updates
      left
      have indexed : onLsm (updateGcBlockLocation (logicalSector / blockSectors) sector)
          ⟨{ machine.lsm with tables }, last⟩ = (.ok (), ⟨lsm, last⟩) := by
        simp only [onLsm, Effect.zoom, done]
      change ((Effect.attempt _ >>= _) _).1 = _ ∧ Published _ ((Effect.attempt _ >>= _) _).2 _ _ _ _ _
      simp only [Effect.attempt_bind_run, indexed]
      have queued : Alike ⟨lsm, last⟩ ⟨lsm.maybeQueueFlush, last⟩ := by
        unfold maybeQueueFlush
        split <;> exact ⟨rfl, .refl _⟩
      obtain ⟨coherent', mapped⟩ := published.coherent.alike queued
      have engine : lsm.maybeQueueFlush = { lsm with
          flushInFlight := lsm.maybeQueueFlush.flushInFlight
          flushPending := lsm.maybeQueueFlush.flushPending } := by
        unfold maybeQueueFlush
        split <;> rfl
      refine ⟨rfl, coherent', published.beside.trans (.of_alike queued), ?_, ?_, ?_, more, ?_, ?_⟩
      · refine Eq.trans ?_ published.allocator
        change lsm.maybeQueueFlush.allocator = lsm.allocator
        rw [engine]
      · refine Eq.trans ?_ published.writesStopped
        change lsm.maybeQueueFlush.writesStopped = lsm.writesStopped
        rw [engine]
      · refine Eq.trans ?_ published.gcMoved
        change lsm.maybeQueueFlush.gcMoved = lsm.gcMoved
        rw [engine]
      · intro block
        refine Eq.trans ?_ (published.latest block)
        change lsm.maybeQueueFlush.latest block = lsm.latest block
        rw [engine]
      · intro trusted block
        exact (congrFun (mapped trusted) block).trans (published.mapping trusted block)
    · cases failed
  · rintro error after (⟨_, _, failed, _⟩ | ⟨_, failed, spec⟩)
    · cases failed
    · cases failed
      exact Or.inr ⟨error, rfl, spec⟩

end Publish

end Lsm
end ZnsBase
