import ZnsBase.Proofs.FlushQueue
import ZnsBase.Proofs.ReadPath

/-! Lookups while tables move. A generation is in a slot until its SSTable is
listed, and the slots only pass it on, so a lookup that asks the slots first and
the SSTables second cannot miss it. -/

namespace ZnsBase
open Library

/-- The log as the flush worker finds it, in the last zone of the device. -/
structure LogPlace [Kernel] (machine : Machine) (index : Nat) (log : Extent) : Prop where
  zone : machine.world.geometry.zones[index]? = some log
  last : index + 1 = machine.world.geometry.zones.length
  metaStart : machine.lsm.metaStart = log.start
  metaEnd : machine.lsm.metaEnd = log.start + log.capacity
  metaWp : log.start ≤ machine.lsm.metaWp
  stored : ∀ sst ∈ machine.lsm.sstables, (∃ memtable, Stored machine.world.media sst memtable) ∧
    log.start ≤ sst.startSector ∧ sst.startSector + sst.nrBlocks * blockSectors ≤ machine.lsm.metaWp

/-- Where an execution of the flush worker has got with its victim. -/
def FlushPc.Progress [Kernel] (machine : Machine) (log : Extent) : FlushPc → Prop
  | .located _ start _ => start = machine.lsm.metaWp
  | .writing victim start seq done left => start = machine.lsm.metaWp ∧ victim.root.inorder ≠ [] ∧
    left = (sstImage victim start seq).drop done ∧ done ≤ (sstImage victim start seq).length ∧
    start + (sstImage victim start seq).length * blockSectors ≤ log.start + log.capacity ∧
    Holds machine.world.media start ((sstImage victim start seq).take done)
  | .wrote victim start written => start = machine.lsm.metaWp ∧
    (written.result = .error .enodata → victim.root.inorder = []) ∧
    ∀ sst, written.result = .ok sst → Stored machine.world.media sst victim ∧ sst.startSector = start ∧
      sst.nrBlocks * blockSectors = written.consumed
  | .judging victim result => (result = .error .enodata → victim.root.inorder = []) ∧
    ∀ sst, result = .ok sst → Stored machine.world.media sst victim ∧ log.start ≤ sst.startSector ∧
      sst.startSector + sst.nrBlocks * blockSectors ≤ machine.lsm.metaWp
  | .releasing victim => ∀ logicalBlock sector, victim.pairs.lookup logicalBlock = some sector →
    Layers.resolve (machine.lsm.sstables.map (Sstable.entries machine.world.media)) logicalBlock = some sector
  | _ => True

namespace Lsm
variable [Kernel]

/-- The invariant behind lookups. Whatever the slots and the SSTables hold, their
layers together are the stored mappings over what the session began with. -/
structure Consistent (workers : Workers) (index : Nat) (log : Extent) (base : Nat → Option Nat) : Prop where
  queued : workers.Queued
  place : LogPlace workers.machine index log
  sound : ∀ table ∈ workers.machine.lsm.residents, table.Sound
  mapped : ∀ logicalBlock, mapping workers.machine logicalBlock = (workers.puts.lookup logicalBlock).or (base logicalBlock)
  missed : ∀ logicalBlock, workers.io = .missed logicalBlock →
    Layers.resolve (workers.machine.lsm.residents.map Memtable.pairs) logicalBlock = none
  progress : ∀ pc ∈ workers.flushers, pc.Progress workers.machine log
  distinct : workers.machine.world.oracle.Distinct

/-- Steps of the I/O worker leave the log and the flushing slot as they were. -/
structure LogKept (before after : Machine) (log : Extent) : Prop where
  geometry : after.world.geometry = before.world.geometry
  metaStart : after.lsm.metaStart = before.lsm.metaStart
  metaEnd : after.lsm.metaEnd = before.lsm.metaEnd
  metaWp : after.lsm.metaWp = before.lsm.metaWp
  sstables : after.lsm.sstables = before.lsm.sstables
  media : ∀ address, log.start * sectorBytes ≤ address → after.world.media address = before.world.media address
  later : before.world.oracle.Later after.world.oracle

section Frame
variable {before after : Machine} {index : Nat} {log : Extent}

/-- What lies in the log reads the same on another medium that agrees there. -/
theorem stored_kept {media other : Nat → UInt8} (same : ∀ address, log.start * sectorBytes ≤ address → other address = media address)
    {sst : Sstable} {memtable : Memtable} (stored : Stored media sst memtable) (low : log.start ≤ sst.startSector) :
    Stored other sst memtable ∧ sst.entries other = sst.entries media := by
  have moved := stored.frame fun address above _ => same address ((Nat.mul_le_mul_right _ low).trans above)
  exact ⟨moved, moved.entries_eq.trans stored.entries_eq.symm⟩

variable (kept : LogKept before after log)
include kept

theorem LogKept.place (place : LogPlace before index log) : LogPlace after index log := by
  refine ⟨by rw [kept.geometry]; exact place.zone, by rw [kept.geometry]; exact place.last, kept.metaStart.trans place.metaStart,
    kept.metaEnd.trans place.metaEnd, by rw [kept.metaWp]; exact place.metaWp, ?_⟩
  rw [kept.sstables, kept.metaWp]
  intro sst member
  obtain ⟨⟨memtable, stored⟩, low, high⟩ := place.stored sst member
  exact ⟨⟨memtable, (stored_kept kept.media stored low).1⟩, low, high⟩

theorem LogKept.entries (place : LogPlace before index log) :
    after.lsm.sstables.map (Sstable.entries after.world.media) = before.lsm.sstables.map (Sstable.entries before.world.media) := by
  rw [kept.sstables]
  apply List.map_congr_left
  intro sst member
  obtain ⟨⟨memtable, stored⟩, low, _⟩ := place.stored sst member
  exact (stored_kept kept.media stored low).2

theorem LogKept.progress (place : LogPlace before index log) {pc : FlushPc} (progress : pc.Progress before log) :
    pc.Progress after log := by
  have entries := kept.entries place
  cases pc with
  | located victim start seq => exact Eq.trans progress kept.metaWp.symm
  | writing victim start seq done left =>
    obtain ⟨starts, filled, ahead, few, room, held⟩ := progress
    refine ⟨starts.trans kept.metaWp.symm, filled, ahead, few, room, fun position block found byte inside => ?_⟩
    rw [kept.media, held position block found byte inside]
    have low := place.metaWp
    rw [← starts] at low
    simp only [sectorBytes, blockSectors]
    omega
  | wrote victim start written =>
    obtain ⟨starts, empty, done⟩ := progress
    refine ⟨starts.trans kept.metaWp.symm, empty, fun sst same => ?_⟩
    obtain ⟨stored, first, size⟩ := done sst same
    have low := place.metaWp
    rw [← starts, ← first] at low
    exact ⟨(stored_kept kept.media stored low).1, first, size⟩
  | judging victim result =>
    obtain ⟨empty, done⟩ := progress
    refine ⟨empty, fun sst same => ?_⟩
    obtain ⟨stored, low, high⟩ := done sst same
    exact ⟨(stored_kept kept.media stored low).1, low, by rw [kept.metaWp]; exact high⟩
  | releasing victim =>
    intro logicalBlock sector found
    rw [entries]
    exact progress logicalBlock sector found
  | _ => trivial

theorem LogKept.mapping (place : LogPlace before index log) (residents : after.lsm.residents = before.lsm.residents) :
    mapping after = mapping before := by
  funext logicalBlock
  rw [Lsm.mapping, layers, residents, kept.entries place]
  rfl

end Frame

/-- A stored write takes precedence in the active pair of tables. -/
theorem storeWrite_spec {machine : Machine} {logicalBlock physicalSector : Nat} (sound : machine.lsm.tables.Sound)
    (block : logicalBlock < 2 ^ 64) (sector : physicalSector < 2 ^ 64) :
    Effect.Ensures (storeWrite logicalBlock physicalSector) machine (fun result after =>
      machine.world.Quiet after.world ∧ ((result = .ok () ∧ ∃ tables, after.lsm = { machine.lsm with tables } ∧
          machine.lsm.tables.Updates tables logicalBlock physicalSector) ∨
        ∃ error, result = .error error ∧ after.lsm = machine.lsm)) := by
  refine Effect.Ensures.bind (allocate_same machine) ?_ (fun error after same => ⟨same.2, Or.inr ⟨error, rfl, same.1⟩⟩)
  rintro _ ⟨lsm, world⟩ ⟨same, quiet⟩
  dsimp only at same quiet
  subst same
  apply Effect.Ensures.get_bind
  have put : Effect.Ensures (onWorld (machine.lsm.tables.putActive machine.lsm.memtableThreshold logicalBlock physicalSector))
      ⟨machine.lsm, world⟩ (fun result after => after.lsm = machine.lsm ∧ world.Quiet after.world ∧
        ∀ tables, result = .ok tables → machine.lsm.tables.Updates tables logicalBlock physicalSector) := by
    refine onWorld_ensures ((Generations.putActive_spec machine.lsm.memtableThreshold world sound block sector).mono ?_)
    rintro result after ⟨quiet, ⟨tables, rfl, updates⟩ | ⟨error, rfl, _⟩⟩
    · exact ⟨rfl, quiet, fun other same => by cases same; exact updates⟩
    · exact ⟨rfl, quiet, nofun⟩
  refine Effect.Ensures.bind put ?_ (fun error after spec => ⟨quiet.trans spec.2.1, Or.inr ⟨error, rfl, spec.1⟩⟩)
  rintro tables ⟨lsm, after⟩ ⟨same, quiet', updates⟩
  dsimp only at same quiet'
  subst same
  exact ⟨quiet.trans quiet', Or.inl ⟨rfl, tables, rfl, updates tables rfl⟩⟩

section Io
variable {workers after : Workers} {index : Nat} {log : Extent} {base : Nat → Option Nat}
  (consistent : Consistent workers index log base)
include consistent

/-- Steps that leave tables and log alone. -/
theorem Consistent.beside (queued : after.Queued) (kept : LogKept workers.machine after.machine log)
    (residents : after.machine.lsm.residents = workers.machine.lsm.residents) (puts : after.puts = workers.puts)
    (missed : ∀ logicalBlock, after.io = .missed logicalBlock → workers.io = .missed logicalBlock ∨
      Layers.resolve (workers.machine.lsm.residents.map Memtable.pairs) logicalBlock = none)
    (progress : ∀ pc ∈ after.flushers, pc ∈ workers.flushers ∨ pc.Progress after.machine log) :
    Consistent after index log base := by
  refine ⟨queued, kept.place consistent.place, by rw [residents]; exact consistent.sound, ?_, ?_, ?_,
    consistent.distinct.later kept.later⟩
  · rw [kept.mapping consistent.place residents, puts]
    exact consistent.mapped
  · intro logicalBlock here
    rw [residents]
    rcases missed logicalBlock here with before | none_
    · exact consistent.missed logicalBlock before
    · exact none_
  · intro pc member
    rcases progress pc member with old | new
    · exact kept.progress consistent.place (consistent.progress pc old)
    · exact new

/-- The engine changes, tables and log excepted, and the device not at all. -/
theorem Consistent.onFlags (queued : after.Queued) (world : after.machine.world = workers.machine.world)
    (state : after.machine.lsm.logState = workers.machine.lsm.logState) (tables : after.machine.lsm.tables = workers.machine.lsm.tables)
    (flushing : after.machine.lsm.flushing = workers.machine.lsm.flushing) (puts : after.puts = workers.puts)
    (missed : ∀ logicalBlock, after.io = .missed logicalBlock → workers.io = .missed logicalBlock ∨
      Layers.resolve (workers.machine.lsm.residents.map Memtable.pairs) logicalBlock = none)
    (progress : ∀ pc ∈ after.flushers, pc ∈ workers.flushers ∨ pc.Progress after.machine log) :
    Consistent after index log base := by
  refine consistent.beside queued ⟨by rw [world], congrArg LogState.metaStart state, congrArg LogState.metaEnd state,
    congrArg LogState.metaWp state, congrArg LogState.sstables state, fun _ _ => by rw [world], by rw [world]; exact .refl _⟩
    (by rw [residents, tables, flushing, residents]) puts missed progress

theorem prepare_consistent (path : DataPath) : Consistent (takeTurn workers (.prepare path)) index log base := by
  have queued := prepare_queued consistent.queued path
  rw [takeTurn] at queued ⊢
  split at queued
  next idle =>
    rw [if_pos idle]
    refine consistent.beside queued ⟨rfl, rfl, rfl, rfl, rfl, fun address above => ?_, .refl _⟩ rfl rfl (fun _ same => Or.inl same)
      (fun pc member => Or.inl member)
    rw [← consistent.place.metaStart] at above
    exact if_pos above
  next busy =>
    rw [if_neg busy]
    exact consistent

theorem put_consistent {logicalBlock physicalSector : Nat} (block : logicalBlock < 2 ^ 64) (sector : physicalSector < 2 ^ 64) :
    Consistent (takeTurn workers (.put logicalBlock physicalSector)) index log base := by
  have queued := put_queued consistent.queued logicalBlock physicalSector
  have sound : workers.machine.lsm.tables.Sound := fun table member => consistent.sound table (List.mem_append_left _ member)
  have stored := storeWrite_spec sound block sector
  unfold Effect.Ensures at stored
  rw [takeTurn] at queued ⊢
  split
  next idle =>
    rw [if_pos idle] at queued
    split
    next machine ran =>
      rw [ran] at stored queued
      obtain ⟨quiet, ⟨_, tables, same, updated, resolves⟩ | ⟨_, failed, _⟩⟩ := stored
      · dsimp only at same quiet queued ⊢
        have kept : LogKept workers.machine machine log :=
          ⟨quiet.geometry, by rw [same], by rw [same], by rw [same], by rw [same], fun _ _ => by rw [quiet.media], quiet.later⟩
        have entries := kept.entries consistent.place
        refine ⟨queued, kept.place consistent.place, ?_, ?_, (by rintro _ ⟨⟩), fun pc member =>
          kept.progress consistent.place (consistent.progress pc member), consistent.distinct.later quiet.later⟩
        · intro table member
          change table ∈ machine.lsm.residents at member
          rw [same] at member
          rcases List.mem_append.mp member with new | old
          · exact updated table new
          · exact consistent.sound table (List.mem_append_right _ old)
        · intro wanted
          have before := consistent.mapped wanted
          rw [mapping_eq] at before ⊢
          change (Layers.resolve machine.lsm.tables.layers wanted).or (Layers.resolve (olderLayers machine) wanted) = _
          rw [olderLayers, entries, same]
          dsimp only
          rw [resolves wanted, List.lookup_cons]
          by_cases here : wanted = logicalBlock
          · simp [here]
          · rw [if_neg here, show (wanted == logicalBlock) = false by simpa using here]
            exact before
      · cases failed
    next error machine ran =>
      rw [ran] at stored queued
      obtain ⟨quiet, ⟨done, _⟩ | ⟨_, _, same⟩⟩ := stored
      · cases done
      · dsimp only at same quiet
        refine consistent.beside queued ⟨quiet.geometry, ?_, ?_, ?_, ?_, fun _ _ => by rw [quiet.media], quiet.later⟩ ?_ rfl
          (fun _ here => Or.inl here) (fun pc member => Or.inl member)
        all_goals
          dsimp only
          rw [same]
  next _ => exact consistent

theorem lookup_consistent (logicalBlock : Nat) : Consistent (takeTurn workers (.lookup logicalBlock)) index log base := by
  have queued := lookup_queued consistent.queued logicalBlock
  rw [takeTurn] at queued ⊢
  split
  next idle =>
    rw [if_pos idle] at queued
    have found := lookupMemtables_eq (fun table member => (consistent.sound table member).toRegular) logicalBlock
    split
    next missed =>
      rw [missed] at queued
      refine consistent.onFlags queued rfl rfl rfl rfl rfl ?_ (fun pc member => Or.inl member)
      intro other same
      cases same
      rw [missed] at found
      right
      cases held : Layers.resolve (workers.machine.lsm.residents.map Memtable.pairs) logicalBlock with
      | none => rfl
      | some sector =>
        rw [held] at found
        cases found
    next _ => exact consistent
  next _ => exact consistent

theorem ioStep_consistent : Consistent (ioStep workers) index log base := by
  have queued := ioStep_queued consistent.queued
  unfold ioStep at queued ⊢
  dsimp only at queued ⊢
  split
  next _ => exact consistent
  next logicalBlock physicalSector here =>
    have frame := updateGcBlockLocation_frame logicalBlock physicalSector workers.machine.lsm
    unfold Effect.Ensures at frame
    rw [here] at queued
    dsimp only at queued
    split
    next lsm ran =>
      rw [ran] at frame queued
      exact consistent.onFlags queued rfl frame.2.1 frame.2.2.1 frame.2.2.2 rfl nofun (fun pc member => Or.inl member)
    next error lsm ran =>
      rw [ran] at frame queued
      exact consistent.onFlags queued rfl frame.2.1 frame.2.2.1 frame.2.2.2 rfl nofun (fun pc member => Or.inl member)
  next here =>
    rw [here] at queued
    dsimp only at queued
    split
    next wants =>
      rw [if_pos wants] at queued
      exact consistent.onFlags queued rfl rfl rfl rfl rfl nofun (fun pc member => Or.inl member)
    next idle =>
      rw [if_neg idle] at queued
      exact consistent.onFlags queued rfl rfl rfl rfl rfl nofun (fun pc member => Or.inl member)
  next here =>
    rw [here] at queued
    exact consistent.onFlags queued rfl rfl rfl rfl rfl nofun (fun pc member => Or.inl member)
  next logicalBlock here =>
    rw [here] at queued
    exact consistent.onFlags queued rfl rfl rfl rfl rfl nofun (fun pc member => Or.inl member)

theorem start_consistent : Consistent (takeTurn workers .start) index log base := by
  have queued := start_queued consistent.queued
  rw [takeTurn] at queued ⊢
  split
  next pending =>
    rw [if_pos pending] at queued
    refine consistent.onFlags queued rfl rfl rfl rfl rfl (fun _ same => Or.inl same) ?_
    intro pc member
    rcases List.mem_append.mp member with old | new
    · exact Or.inl old
    · rw [List.mem_singleton.mp new]
      exact Or.inr trivial
  next _ => exact consistent

end Io

/-- The head of `zns_sst_write` reads memory only. -/
theorem sstPrepare_spec {victim : Memtable} (start seq : Nat) {log : Extent} {world : World} (regular : victim.Regular) :
    Effect.Ensures (sstPrepare victim start (log.start + log.capacity) seq) world (fun result after => world.Quiet after ∧
      ((result = .ok (sstImage victim start seq) ∧ victim.root.inorder ≠ [] ∧
          start + (sstImage victim start seq).length * blockSectors ≤ log.start + log.capacity) ∨
        ∃ error, result = .error error ∧ (error = .enodata → victim.root.inorder = []))) := by
  have limited : victim.root.inorder.length < 2 ^ 32 := by
    rw [← regular.counted]
    exact regular.limited.trans_lt Kernel.entryLimit_lt
  have count := sstSummary_nrEntries start seq limited
  have size : (sstSummary victim start seq).nrBlocks = (sstImage victim start seq).length := by
    rw [sstSummary_nrBlocks start seq limited, sstImage_length]
  unfold sstPrepare
  split
  · exact ⟨.refl _, Or.inr ⟨_, rfl, nofun⟩⟩
  next before =>
    refine Effect.Ensures.bind (allocate_quiet world) ?_
      (fun error after spec => ⟨spec.1, Or.inr ⟨error, rfl, by rcases spec.2 with same | ⟨same, _⟩ <;> cases same; nofun⟩⟩)
    rintro _ first ⟨quiet, _⟩
    dsimp only
    split
    next empty =>
      refine ⟨quiet, Or.inr ⟨_, rfl, fun _ => List.length_eq_zero_iff.mp ?_⟩⟩
      rw [← count]
      exact empty
    next filled =>
      split
      · exact ⟨quiet, Or.inr ⟨_, rfl, nofun⟩⟩
      next fits =>
        rw [size] at fits
        refine Effect.Ensures.bind (allocate_quiet first) ?_
          (fun error after spec => ⟨quiet.trans spec.1,
            Or.inr ⟨error, rfl, by rcases spec.2 with same | ⟨same, _⟩ <;> cases same; nofun⟩⟩)
        rintro _ second ⟨quiet', _⟩
        refine ⟨quiet.trans quiet', Or.inl ⟨rfl, fun nothing => filled ?_, by omega⟩⟩
        rw [count, nothing]
        rfl

section Flush
variable {workers : Workers} {index : Nat} {log : Extent} {base : Nat → Option Nat}
  (consistent : Consistent workers index log base) {execution : Nat} {pc next : FlushPc}
  (found : workers.flushers[execution]? = some pc) {machine : Machine} {marks : List Mark}
include consistent found

/-- A step of the execution that has a victim or looks for one. -/
theorem Consistent.within (token : pc.token = true)
    (queued : Workers.Queued { workers with machine, flushers := workers.flushers.set execution next, marks })
    (place : LogPlace machine index log)
    (residents : ∀ table ∈ machine.lsm.residents, table ∈ workers.machine.lsm.residents)
    (same : mapping machine = mapping workers.machine) (progress : next.Progress machine log)
    (later : workers.machine.world.oracle.Later machine.world.oracle) :
    Consistent { workers with machine, flushers := workers.flushers.set execution next, marks } index log base := by
  refine ⟨queued, place, fun table member => consistent.sound table (residents table member), ?_, ?_, ?_,
    consistent.distinct.later later⟩
  · intro logicalBlock
    rw [same]
    exact consistent.mapped logicalBlock
  · intro logicalBlock missed
    have none_ := consistent.missed logicalBlock missed
    rw [Layers.resolve_eq_none_iff] at none_ ⊢
    intro layer member
    obtain ⟨table, resident, rfl⟩ := List.mem_map.mp member
    exact none_ _ (List.mem_map.mpr ⟨table, residents table resident, rfl⟩)
  · intro other member
    rcases Workers.mem_set_cases member with rfl | ⟨_, apart, there⟩
    · exact progress
    · have idle := consistent.queued.others found token apart there
      cases other with
      | rechecking => trivial
      | finished => trivial
      | _ => cases idle

/-- The same for steps that change neither tables nor log. -/
theorem Consistent.still (token : pc.token = true)
    (queued : Workers.Queued { workers with machine, flushers := workers.flushers.set execution next, marks })
    (kept : LogKept workers.machine machine log) (residents : machine.lsm.residents = workers.machine.lsm.residents)
    (progress : next.Progress machine log) :
    Consistent { workers with machine, flushers := workers.flushers.set execution next, marks } index log base :=
  consistent.within found token queued (kept.place consistent.place) (fun _ member => residents ▸ member)
    (kept.mapping consistent.place residents) progress kept.later

end Flush

/-- Writing at or above the end of the log changes nothing below it. -/
theorem append_place {machine : Machine} {index : Nat} {log : Extent} {world : World} {sector : Nat}
    (place : LogPlace machine index log) (appended : machine.world.Appended world index log sector)
    (above : machine.lsm.metaWp ≤ sector) :
    LogPlace { machine with world } index log ∧ mapping { machine with world } = mapping machine := by
  have kept {sst : Sstable} {memtable : Memtable} (stored : Stored machine.world.media sst memtable)
      (high : sst.startSector + sst.nrBlocks * blockSectors ≤ machine.lsm.metaWp) : Stored world.media sst memtable :=
    stored.frame fun address _ below =>
      appended.media address (Or.inl (below.trans_le (Nat.mul_le_mul_right _ (high.trans above))))
  refine ⟨⟨?_, ?_, place.metaStart, place.metaEnd, place.metaWp, fun sst member => ?_⟩, ?_⟩
  · change world.geometry.zones[index]? = some log
    rw [appended.geometry]
    exact place.zone
  · change index + 1 = world.geometry.zones.length
    rw [appended.geometry]
    exact place.last
  · obtain ⟨⟨memtable, stored⟩, low, high⟩ := place.stored sst member
    exact ⟨⟨memtable, kept stored high⟩, low, high⟩
  · funext logicalBlock
    have entries : machine.lsm.sstables.map (Sstable.entries world.media) =
        machine.lsm.sstables.map (Sstable.entries machine.world.media) := by
      apply List.map_congr_left
      intro sst member
      obtain ⟨⟨memtable, stored⟩, _, high⟩ := place.stored sst member
      exact (kept stored high).entries_eq.trans stored.entries_eq.symm
    change Layers.resolve (machine.lsm.residents.map Memtable.pairs ++ machine.lsm.sstables.map (Sstable.entries world.media))
      logicalBlock = _
    rw [entries]
    rfl

omit [Kernel] in
/-- One more block of an image. -/
theorem holds_take_succ {media other : Nat → UInt8} {sector count : Nat} {blocks : List (Nat → UInt8)}
    (held : ZnsBase.Holds media sector (blocks.take count)) (bound : count < blocks.length)
    (below : ∀ address, address < (sector + count * blockSectors) * sectorBytes → other address = media address)
    (here : ∀ byte < blockBytes, other ((sector + count * blockSectors) * sectorBytes + byte) = blocks.get ⟨count, bound⟩ byte) :
    ZnsBase.Holds other sector (blocks.take (count + 1)) := by
  intro position block found byte inside
  rw [List.getElem?_take] at found
  split at found
  next few =>
    rcases Nat.lt_succ_iff_lt_or_eq.mp few with less | rfl
    · rw [below, held position block (by rw [List.getElem?_take, if_pos less, found]) byte inside]
      simp only [blockSectors, sectorBytes, blockBytes] at inside ⊢
      omega
    · rw [here byte inside]
      obtain ⟨_, same⟩ := List.getElem?_eq_some_iff.mp found
      rw [← same]
      rfl
  next _ => cases found

section FlushSteps
variable {workers : Workers} {index : Nat} {log : Extent} {base : Nat → Option Nat}
  (consistent : Consistent workers index log base) {execution : Nat}
include consistent

theorem claiming_consistent (found : workers.flushers[execution]? = some .claiming) :
    Consistent (takeTurn workers (.flush execution)) index log base := by
  have queued := flush_queued consistent.queued execution
  rw [takeTurn, found] at queued ⊢
  dsimp only at queued ⊢
  have kept : LogKept workers.machine { workers.machine with lsm := workers.machine.lsm.claimFlushVictim } log := by
    unfold claimFlushVictim
    split <;> exact ⟨rfl, rfl, rfl, rfl, rfl, fun _ _ => rfl, .refl _⟩
  have residents := claimFlushVictim_residents workers.machine.lsm
  unfold flushStep at queued ⊢
  dsimp only at queued ⊢
  split
  next empty =>
    rw [empty] at queued
    exact consistent.still found rfl queued kept residents trivial
  next victim slot =>
    rw [slot] at queued
    exact consistent.still found rfl queued kept residents trivial

theorem claimed_consistent {victim : Memtable} (found : workers.flushers[execution]? = some (.claimed victim)) :
    Consistent (takeTurn workers (.flush execution)) index log base := by
  have queued := flush_queued consistent.queued execution
  rw [takeTurn, found] at queued ⊢
  exact consistent.still found rfl queued ⟨rfl, rfl, rfl, rfl, rfl, fun _ _ => rfl, .refl _⟩ rfl rfl

/-- The table an execution is working on. -/
theorem Consistent.victim {pc : FlushPc} {victim : Memtable} (found : workers.flushers[execution]? = some pc)
    (held : pc.victim = some victim) : workers.machine.lsm.flushing = some victim ∧ victim.Sound := by
  have slot := consistent.queued.held pc (List.mem_of_getElem? found) victim held
  exact ⟨slot, consistent.sound victim (by simp [residents, slot])⟩

theorem located_consistent {victim : Memtable} {start seq : Nat}
    (found : workers.flushers[execution]? = some (.located victim start seq)) :
    Consistent (takeTurn workers (.flush execution)) index log base := by
  have queued := flush_queued consistent.queued execution
  have starts : start = workers.machine.lsm.metaWp := consistent.progress _ (List.mem_of_getElem? found)
  obtain ⟨_, sound⟩ := consistent.victim found rfl
  have prepared := @sstPrepare_spec _ victim start seq log workers.machine.world sound.toRegular
  unfold Effect.Ensures at prepared
  rw [takeTurn, found] at queued ⊢
  unfold flushStep at queued ⊢
  dsimp only at queued ⊢
  rw [consistent.place.metaEnd] at queued ⊢
  split
  next error world ran =>
    rw [ran] at prepared queued
    obtain ⟨quiet, ⟨ok, _⟩ | ⟨_, same, empty⟩⟩ := prepared
    · cases ok
    · cases same
      refine consistent.still found rfl queued ⟨quiet.geometry, rfl, rfl, rfl, rfl, fun _ _ => by rw [quiet.media], quiet.later⟩ rfl
        ⟨starts, fun same => empty (Except.error.inj same), (by rintro _ ⟨⟩)⟩
  next blocks world ran =>
    rw [ran] at prepared queued
    obtain ⟨quiet, ⟨same, filled, room⟩ | ⟨_, failed, _⟩⟩ := prepared
    · cases same
      refine consistent.still found rfl queued ⟨quiet.geometry, rfl, rfl, rfl, rfl, fun _ _ => by rw [quiet.media], quiet.later⟩ rfl
        ⟨starts, filled, rfl, Nat.zero_le _, room, ?_⟩
      intro position block held
      simp at held
    · cases failed

theorem written_consistent {victim : Memtable} {start seq done : Nat}
    (found : workers.flushers[execution]? = some (.writing victim start seq done [])) :
    Consistent (takeTurn workers (.flush execution)) index log base := by
  have queued := flush_queued consistent.queued execution
  obtain ⟨starts, filled, ahead, few, room, held⟩ := consistent.progress _ (List.mem_of_getElem? found)
  obtain ⟨_, sound⟩ := consistent.victim found rfl
  have limited : victim.root.inorder.length < 2 ^ 32 := by
    rw [← sound.counted]
    exact sound.limited.trans_lt Kernel.entryLimit_lt
  have all : done = (sstImage victim start seq).length := by
    have none_ := congrArg List.length ahead
    rw [List.length_drop, List.length_nil] at none_
    omega
  rw [all, List.take_length] at held
  rw [takeTurn, found] at queued ⊢
  refine consistent.still found rfl queued ⟨rfl, rfl, rfl, rfl, rfl, fun _ _ => rfl, .refl _⟩ rfl ⟨starts, (by rintro ⟨⟩), ?_⟩
  intro sst same
  cases same
  refine ⟨stored_of_image sound filled held, sstSummary_startSector .., ?_⟩
  rw [sstSummary_nrBlocks start seq limited, ← sstImage_length victim start seq, ← all]

theorem writing_consistent {victim : Memtable} {start seq done : Nat} {block : Nat → UInt8} {left : List (Nat → UInt8)}
    (found : workers.flushers[execution]? = some (.writing victim start seq done (block :: left))) :
    Consistent (takeTurn workers (.flush execution)) index log base := by
  have queued := flush_queued consistent.queued execution
  obtain ⟨starts, filled, ahead, few, room, held⟩ := consistent.progress _ (List.mem_of_getElem? found)
  have place := consistent.place
  have more : done < (sstImage victim start seq).length := by
    have some_ := congrArg List.length ahead
    rw [List.length_drop, List.length_cons] at some_
    omega
  have capacity := Geometry.capacity_le_len place.zone
  have low := place.metaWp
  have inside : (done + 1) * blockSectors ≤ (sstImage victim start seq).length * blockSectors := Nat.mul_le_mul_right _ more
  rw [Nat.add_mul, Nat.one_mul] at inside
  have size : blockSectors = 8 := rfl
  have spec := blockWrite_spec .metadata block place.zone (show log.start ≤ start + done * blockSectors by omega) (by omega)
  unfold Effect.Ensures at spec
  rw [takeTurn, found] at queued ⊢
  unfold flushStep at queued ⊢
  dsimp only at queued ⊢
  split
  next error world ran =>
    rw [ran] at spec queued
    obtain ⟨landed, recorded, failed⟩ := spec
    have appended := landed.appended place.zone
    obtain ⟨moved, same⟩ := append_place place appended (by omega)
    refine consistent.within found rfl queued moved (fun _ member => member) same ⟨starts, ?_, (by rintro _ ⟨⟩)⟩ recorded.later
    intro enodata
    cases Except.error.inj enodata
    rcases (failed _ rfl).1 with reports | ⟨code, _⟩
    · exact absurd reports consistent.distinct
    · cases code
  next world ran =>
    rw [ran] at spec queued
    obtain ⟨landed, recorded, _⟩ := spec
    have appended := landed.appended place.zone
    obtain ⟨moved, same⟩ := append_place place appended (by omega)
    refine consistent.within found rfl queued moved (fun _ member => member) same ⟨starts, filled, ?_, more, room, ?_⟩ recorded.later
    · rw [List.drop_eq_getElem_cons more] at ahead
      exact (List.cons.inj ahead).2
    · refine holds_take_succ held more (fun address less => appended.media address (Or.inl less)) ?_
      intro byte within
      rw [List.drop_eq_getElem_cons more] at ahead
      cases landed with
      | committed accepted device =>
        change world.media _ = _
        rw [device.media, World.commit_media, overlay_inside (by omega) (by omega), Nat.add_sub_cancel_left, (List.cons.inj ahead).1]
        rfl

theorem wrote_consistent {victim : Memtable} {start : Nat} {written : SstWritten}
    (found : workers.flushers[execution]? = some (.wrote victim start written)) :
    Consistent (takeTurn workers (.flush execution)) index log base := by
  have queued := flush_queued consistent.queued execution
  obtain ⟨starts, empty, done⟩ := consistent.progress _ (List.mem_of_getElem? found)
  have place := consistent.place
  rw [takeTurn, found] at queued ⊢
  unfold flushStep at queued ⊢
  dsimp only at queued ⊢
  rw [starts, advanceMetaWp_eq] at queued ⊢
  have forward : workers.machine.lsm.metaWp ≤ workers.machine.lsm.metaWp + written.consumed := Nat.le_add_right _ _
  refine consistent.within found rfl queued
    ⟨place.zone, place.last, place.metaStart, place.metaEnd, place.metaWp.trans forward, fun sst member => ?_⟩
    (fun _ member => member) rfl ⟨empty, fun sst same => ?_⟩ (.refl _)
  · obtain ⟨stored, low, high⟩ := place.stored sst member
    exact ⟨stored, low, high.trans forward⟩
  · obtain ⟨stored, first, size⟩ := done sst same
    rw [starts] at first
    exact ⟨stored, by rw [first]; exact place.metaWp, by rw [first, size]⟩

theorem judging_consistent {victim : Memtable} {result : Except Errno Sstable}
    (found : workers.flushers[execution]? = some (.judging victim result)) :
    Consistent (takeTurn workers (.flush execution)) index log base := by
  have queued := flush_queued consistent.queued execution
  obtain ⟨slot, _⟩ := consistent.victim found rfl
  obtain ⟨empty, done⟩ := consistent.progress _ (List.mem_of_getElem? found)
  have place := consistent.place
  have idle : LogKept workers.machine workers.machine log := ⟨rfl, rfl, rfl, rfl, rfl, fun _ _ => rfl, .refl _⟩
  rw [takeTurn, found] at queued ⊢
  cases result with
  | error error =>
    cases error with
    | enodata =>
      refine consistent.still found rfl queued idle rfl ?_
      intro logicalBlock sector held
      rw [Memtable.pairs, empty rfl] at held
      cases held
    | _ => exact consistent.still found rfl queued idle rfl trivial
  | ok sst =>
    obtain ⟨stored, low, high⟩ := done sst rfl
    refine consistent.within found rfl queued
      ⟨place.zone, place.last, place.metaStart, place.metaEnd, place.metaWp, fun other member => ?_⟩
      (fun _ member => member) ?_ ?_ (.refl _)
    · rcases List.mem_cons.mp member with rfl | old
      · exact ⟨⟨victim, stored⟩, low, high⟩
      · exact place.stored other old
    · funext logicalBlock
      rw [mapping_eq, mapping_eq, olderLayers, olderLayers]
      simp only [flushStep, publishSstable, slot, List.map_cons, stored.entries_eq, Option.toList_some, List.map_nil,
        List.cons_append, List.nil_append, Layers.resolve_cons]
      cases victim.pairs.lookup logicalBlock with
      | none => rfl
      | some sector => rfl
    · intro logicalBlock sector held
      change Layers.resolve ((sst :: workers.machine.lsm.sstables).map (Sstable.entries workers.machine.world.media)) _ = _
      rw [List.map_cons, Layers.resolve_cons, stored.entries_eq, held]
      rfl

theorem releasing_consistent {victim : Memtable} (found : workers.flushers[execution]? = some (.releasing victim)) :
    Consistent (takeTurn workers (.flush execution)) index log base := by
  have queued := flush_queued consistent.queued execution
  obtain ⟨slot, _⟩ := consistent.victim found rfl
  have listed := consistent.progress _ (List.mem_of_getElem? found)
  have place := consistent.place
  rw [takeTurn, found] at queued ⊢
  refine consistent.within found rfl queued
    ⟨place.zone, place.last, place.metaStart, place.metaEnd, place.metaWp, place.stored⟩ ?_ ?_ trivial (.refl _)
  · intro table member
    simp only [flushStep, releaseFlushVictim, residents, Option.toList_none, List.append_nil] at member
    exact List.mem_append_left _ member
  · funext logicalBlock
    rw [mapping_eq, mapping_eq, olderLayers, olderLayers]
    simp only [flushStep, releaseFlushVictim, slot, Option.toList_none, Option.toList_some, List.map_nil, List.map_cons,
      List.nil_append, List.cons_append, Layers.resolve_cons]
    cases held : victim.pairs.lookup logicalBlock with
    | none => rfl
    | some sector => rw [listed logicalBlock sector held, Option.some_or]

theorem flush_consistent : Consistent (takeTurn workers (.flush execution)) index log base := by
  have queued := flush_queued consistent.queued execution
  -- Outside the loop only flags change.
  have flags {next : FlushPc} {machine : Machine} {marks : List Mark}
      (queued : Workers.Queued { workers with machine, flushers := workers.flushers.set execution next, marks })
      (world : machine.world = workers.machine.world) (state : machine.lsm.logState = workers.machine.lsm.logState)
      (tables : machine.lsm.tables = workers.machine.lsm.tables) (flushing : machine.lsm.flushing = workers.machine.lsm.flushing)
      (progress : next.Progress machine log) :
      Consistent { workers with machine, flushers := workers.flushers.set execution next, marks } index log base := by
    refine consistent.onFlags queued world state tables flushing rfl (fun _ same => Or.inl same) fun pc member => ?_
    rcases Workers.mem_set_cases member with rfl | ⟨_, _, there⟩
    · exact Or.inr progress
    · exact Or.inl (List.mem_of_getElem? there)
  cases found : workers.flushers[execution]? with
  | none =>
    rw [takeTurn, found]
    exact consistent
  | some pc =>
    cases pc with
    | claiming => exact claiming_consistent consistent found
    | claimed victim => exact claimed_consistent consistent found
    | located victim start seq => exact located_consistent consistent found
    | writing victim start seq done left =>
      cases left with
      | nil => exact written_consistent consistent found
      | cons block left => exact writing_consistent consistent found
    | wrote victim start written => exact wrote_consistent consistent found
    | judging victim result => exact judging_consistent consistent found
    | releasing victim => exact releasing_consistent consistent found
    | clearing failed =>
      rw [takeTurn, found] at queued ⊢
      refine flags queued rfl rfl rfl rfl ?_
      unfold flushStep
      dsimp only
      split <;> trivial
    | rechecking =>
      rw [takeTurn, found] at queued ⊢
      dsimp only at queued ⊢
      unfold flushStep at queued ⊢
      dsimp only at queued ⊢
      split
      next wants =>
        rw [if_pos wants] at queued
        exact flags queued rfl rfl rfl rfl trivial
      next idle =>
        rw [if_neg idle] at queued
        exact flags queued rfl rfl rfl rfl trivial
    | queueing =>
      rw [takeTurn, found] at queued ⊢
      exact flags queued rfl rfl rfl rfl trivial
    | finished =>
      rw [takeTurn, found] at queued ⊢
      exact flags queued rfl rfl rfl rfl trivial

end FlushSteps

omit [Kernel] in
/-- Block numbers and sectors are 64-bit numbers. -/
def Turn.Narrow : Turn → Prop
  | .put logicalBlock physicalSector => logicalBlock < 2 ^ 64 ∧ physicalSector < 2 ^ 64
  | _ => True

section Runs
variable {workers : Workers} {index : Nat} {log : Extent} {base : Nat → Option Nat}
  (consistent : Consistent workers index log base)
include consistent

theorem takeTurn_consistent {turn : Turn} (narrow : turn.Narrow) : Consistent (takeTurn workers turn) index log base := by
  cases turn with
  | prepare path => exact prepare_consistent consistent path
  | put logicalBlock physicalSector => exact put_consistent consistent narrow.1 narrow.2
  | lookup logicalBlock => exact lookup_consistent consistent logicalBlock
  | io => exact ioStep_consistent consistent
  | start => exact start_consistent consistent
  | flush execution => exact flush_consistent consistent

theorem interleave_consistent (turns : List Turn) (narrow : ∀ turn ∈ turns, turn.Narrow) :
    Consistent (interleave turns workers) index log base := by
  induction turns generalizing workers with
  | nil => exact consistent
  | cons turn turns ih =>
    exact ih (takeTurn_consistent consistent (narrow turn List.mem_cons_self))
      (fun later member => narrow later (List.mem_cons_of_mem _ member))

/-- Both phases together see every layer. -/
theorem Consistent.answers {logicalBlock : Nat} {result : Except Errno Nat} (answers : Answers workers logicalBlock result) :
    result = answer ((workers.puts.lookup logicalBlock).or (base logicalBlock)) := by
  have split : mapping workers.machine logicalBlock =
      (Layers.resolve (workers.machine.lsm.residents.map Memtable.pairs) logicalBlock).or
        (Layers.resolve (workers.machine.lsm.sstables.map (Sstable.entries workers.machine.world.media)) logicalBlock) :=
    Layers.resolve_append _ _ _
  rw [← consistent.mapped, split]
  cases answers with
  | memtables idle found hit =>
    rw [lookupMemtables_eq (fun table member => (consistent.sound table member).toRegular)] at found
    cases held : Layers.resolve (workers.machine.lsm.residents.map Memtable.pairs) logicalBlock with
    | none =>
      rw [held] at found
      exact absurd found.symm hit
    | some sector =>
      rw [held] at found
      exact found.symm
  | sstables missed =>
    rw [consistent.missed logicalBlock missed, Option.none_or]
    have searchable : ∀ sst ∈ workers.machine.lsm.sstables,
        sst.Searchable ({ workers.machine.world with oracle := .calm } : World).media := by
      intro sst member
      obtain ⟨⟨memtable, stored⟩, _⟩ := consistent.place.stored sst member
      exact stored.searchable
    have spec := lookupSstables_spec _ logicalBlock searchable (Oracle.calm_healthy.requests .metadata .enodata)
    obtain ⟨_, found | ⟨_, _, _, sick⟩⟩ := spec
    · exact found
    · exact absurd Oracle.calm_healthy sick

end Runs

theorem startWorkers_consistent {params : Params} {uuid logicalSectors physicalSectors sectorsPerBlock : Nat} {world after : World}
    {lsm : Lsm} (ran : engineInit params uuid logicalSectors physicalSectors sectorsPerBlock world = (.ok lsm, after))
    (genuine : ∀ sst ∈ lsm.sstables, Genuine after sst) (distinct : world.oracle.Distinct) :
    ∃ index log, Consistent (startWorkers ⟨lsm, after⟩) index log (mapping ⟨lsm, after⟩) := by
  obtain ⟨data, log, split⟩ := engineInit_split ran
  obtain ⟨opened, opening, started⟩ := engineInit_ok split ran
  have attached := started.attached split opening
  have placed := started.placed opening
  have residents := started.residents opening
  obtain ⟨middle, quiet, opens⟩ := opening.opening
  have length : after.geometry.zones.length = lsm.allocator.zones.length + 1 := by
    rw [attached.geometry]
    simp
  refine ⟨lsm.allocator.zones.length, log, startWorkers_queued ran, ⟨attached.logExtent, length.symm, attached.metaStart,
    attached.metaEnd, ?_, ?_⟩, ?_, ?_, nofun, nofun, ?_⟩
  · change log.start ≤ lsm.metaWp
    rw [started.sameLog.metaWp]
    exact opening.logStart
  · exact fun sst member => ⟨genuine sst member, (placed sst member).2⟩
  · intro table member
    change table ∈ lsm.residents at member
    rw [residents, List.mem_singleton] at member
    rw [member]
    exact Memtable.init_sound
  · exact fun logicalBlock => rfl
  · exact ((distinct.later opens.later).later quiet.later).later started.device.later

omit [Kernel] in
/-- A block is stored, its table flushed, and the block looked up. -/
def flushAndMiss (lsm : Lsm) : List Turn := oneFlush lsm ++ List.replicate 8 (.flush 0) ++ [.lookup 0]

omit [Kernel] in
/-- An engine that runs these turns on a device. -/
def raced (world : World) (turns : Lsm → List Turn) : Option Workers :=
  match engineInit eagerParams 0 16 16 blockSectors world with
  | (.ok lsm, after) => some (@interleave Generations.plainKernel (turns lsm) (startWorkers ⟨lsm, after⟩))
  | (.error _, _) => none

omit [Kernel] in
theorem raced_some {world : World} {turns : Lsm → List Turn} {workers : Workers} (held : raced world turns = some workers) :
    ∃ lsm after, engineInit eagerParams 0 16 16 blockSectors world = (.ok lsm, after) ∧
      workers = @interleave Generations.plainKernel (turns lsm) (startWorkers ⟨lsm, after⟩) := by
  unfold raced at held
  split at held
  next lsm after ran => exact ⟨lsm, after, ran, (Option.some.inj held).symm⟩
  next _ => cases held

end Lsm
end ZnsBase
