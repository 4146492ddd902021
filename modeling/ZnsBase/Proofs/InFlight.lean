import ZnsBase.Proofs.LookupRaces
import ZnsBase.Proofs.Stopped

/-! Requests while a flush is under way. Between two of them the flush worker may take
any number of its steps, down to the write of one metadata block; what the target
shows does not depend on how far it got. -/

namespace ZnsBase
open Library

namespace Lsm

/-- An engine, and where its flush worker stands. -/
structure InFlight where
  machine : Machine
  pc : FlushPc

/-- Who runs next. -/
inductive Move where
  | request (bio : Bio)
  | worker

section Moves
variable [Kernel]

omit [Kernel] in
/-- The flush worker goes on. The workqueue starts the work that is pending, not
before the last execution of it is over. -/
def workOn (state : InFlight) : InFlight :=
  match state.pc with
  | .finished =>
    if state.machine.lsm.flushPending then
      ⟨{ state.machine with lsm := { state.machine.lsm with flushPending := false } }, .claiming⟩
    else state
  | pc => ⟨(flushStep state.machine pc).2, (flushStep state.machine pc).1⟩

def takeMove (params : Params) : Move → InFlight → Option Reply × InFlight
  | .request bio, state => (some (engineMap params bio state.machine).1, ⟨(engineMap params bio state.machine).2, state.pc⟩)
  | .worker, state => (none, workOn state)

omit [Kernel] in
def Move.event : Move → Event
  | .request bio => .bio bio
  | .worker => .flushWork

/-- In every state of a run the target shows the contents, and every request gets
what it should. -/
def Serves (params : Params) : List Move → InFlight → (Nat → UInt8) → Prop
  | [], state, contents => disk state.machine = contents
  | move :: moves, state, contents =>
    disk state.machine = contents ∧ Expected contents move.event (takeMove params move state).1 ∧
      Serves params moves (takeMove params move state).2 (contentsAfter contents move.event (takeMove params move state).1)

def takeMoves (params : Params) (moves : List Move) (state : InFlight) : InFlight :=
  moves.foldl (fun state move => (takeMove params move state).2) state

end Moves

section Steps
variable [Kernel] {machine after : Machine} {log : Extent} {limit : Nat} {contents : Nat → UInt8}

theorem Coherent.place (coherent : Coherent machine log limit True) : LogPlace machine machine.lsm.allocator.zones.length log := by
  have geometry := coherent.attached.geometry
  refine ⟨?_, ?_, coherent.attached.metaStart, coherent.attached.metaEnd, coherent.logStart, fun sst member => ?_⟩
  · rw [geometry]
    simp
  · rw [geometry]
    simp
  · obtain ⟨⟨memtable, stored, _⟩, bounds⟩ := coherent.stored trivial sst member
    exact ⟨⟨memtable, stored⟩, bounds⟩

theorem Reflects.flushed (reflects : Reflects machine log limit contents) (flushed : Flushed machine after log limit True) :
    Reflects after log limit contents :=
  ⟨reflects.serving.flushed flushed, reflects.distinct.later flushed.flushes.later,
    (flushed.disk reflects.serving.coherent trivial).trans reflects.disk⟩

section Coherent
variable (coherent : Coherent machine log limit True)
include coherent

/-- The part of the zone above the log changes. -/
theorem Coherent.append {world : World} {sector : Nat}
    (appended : machine.world.Appended world machine.lsm.allocator.zones.length log sector) (above : machine.lsm.metaWp ≤ sector)
    (dataWrites : world.dataWrites = machine.world.dataWrites) (later : machine.world.oracle.Later world.oracle) :
    Flushed machine { machine with world } log limit True := by
  have appended := ((World.SameDevice.refl machine.world).appended _ _ machine.lsm.metaWp).trans appended above
  obtain ⟨moved, same⟩ := coherent.advance (Nat.le_refl _) coherent.logEnd appended
  exact ⟨⟨rfl, rfl, rfl, rfl, Nat.le_refl _, rfl, rfl, rfl, rfl, rfl, rfl, rfl, fun _ member => member, appended, dataWrites, later⟩,
    moved, same⟩

/-- The cursor of the log moves. -/
theorem Coherent.consume {consumed : Nat} (inside : machine.lsm.metaWp + consumed ≤ log.start + log.capacity) :
    Flushed machine { machine with lsm := { machine.lsm with metaWp := machine.lsm.metaWp + consumed } } log limit True := by
  have appended := (World.SameDevice.refl machine.world).appended machine.lsm.allocator.zones.length log machine.lsm.metaWp
  obtain ⟨moved, same⟩ := coherent.advance (Nat.le_add_right _ consumed) inside appended
  exact ⟨⟨rfl, rfl, rfl, rfl, Nat.le_add_right _ _, rfl, rfl, rfl, rfl, rfl, rfl, rfl, fun _ member => member, appended, rfl,
    .refl _⟩, moved, same⟩

theorem Coherent.flags (flushInFlight flushPending : Bool) :
    Flushed machine { machine with lsm := { machine.lsm with flushInFlight, flushPending } } log limit True := by
  have alike : Alike machine { machine with lsm := { machine.lsm with flushInFlight, flushPending } } := ⟨rfl, .refl _⟩
  obtain ⟨moved, same⟩ := coherent.alike alike
  exact ⟨⟨rfl, rfl, rfl, rfl, Nat.le_refl _, rfl, rfl, rfl, rfl, rfl, rfl, rfl, fun _ member => member,
    (World.SameDevice.refl _).appended _ _ _, rfl, .refl _⟩, moved, same⟩

/-- A table is listed while it is still in the flushing slot. -/
theorem Coherent.list {victim : Memtable} {sst : Sstable} (slot : machine.lsm.flushing = some victim)
    (stored : Stored machine.world.media sst victim) (low : log.start ≤ sst.startSector)
    (high : sst.startSector + sst.nrBlocks * blockSectors ≤ machine.lsm.metaWp) :
    Flushed machine { machine with lsm := machine.lsm.publishSstable sst } log limit True := by
  have mapped : mapping { machine with lsm := machine.lsm.publishSstable sst } = mapping machine := by
    funext logicalBlock
    rw [mapping_eq, mapping_eq, olderLayers, olderLayers]
    simp only [publishSstable, slot, List.map_cons, stored.entries_eq, Option.toList_some, List.map_nil,
      List.cons_append, List.nil_append, Layers.resolve_cons]
    cases victim.pairs.lookup logicalBlock with
    | none => rfl
    | some sector => rfl
  refine ⟨⟨rfl, rfl, rfl, rfl, Nat.le_refl _, rfl, rfl, rfl, rfl, rfl, rfl, rfl, fun _ member => member,
    (World.SameDevice.refl _).appended _ _ _, rfl, .refl _⟩, { coherent with
      attached := coherent.attached.onEngine rfl rfl rfl
      stored := fun trusted other member => ?_
      indexed := coherent.indexed.congr rfl rfl rfl rfl rfl
      agrees := fun trusted logicalBlock => ?_ }, fun _ => mapped⟩
  · rcases List.mem_cons.mp member with rfl | old
    · refine ⟨⟨victim, stored, ?_⟩, low, high⟩
      rw [← coherent.logicalSectors]
      exact coherent.bounded victim (by simp [residents, slot])
    · exact coherent.stored trusted other old
  · rw [mapped]
    exact coherent.agrees trusted logicalBlock

/-- It leaves the slot once the SSTables have all of it. -/
theorem Coherent.release {victim : Memtable} (slot : machine.lsm.flushing = some victim)
    (listed : ∀ logicalBlock sector, victim.pairs.lookup logicalBlock = some sector →
      Layers.resolve (machine.lsm.sstables.map (Sstable.entries machine.world.media)) logicalBlock = some sector) :
    Flushed machine { machine with lsm := machine.lsm.releaseFlushVictim } log limit True := by
  have mapped : mapping { machine with lsm := machine.lsm.releaseFlushVictim } = mapping machine := by
    funext logicalBlock
    rw [mapping_eq, mapping_eq, olderLayers, olderLayers]
    simp only [releaseFlushVictim, slot, Option.toList_none, Option.toList_some, List.map_nil, List.map_cons,
      List.nil_append, List.cons_append, Layers.resolve_cons]
    cases held : victim.pairs.lookup logicalBlock with
    | none => rfl
    | some sector => rw [listed logicalBlock sector held, Option.some_or]
  have older : ∀ table ∈ machine.lsm.releaseFlushVictim.residents, table ∈ machine.lsm.residents := by
    intro table member
    simp only [residents, releaseFlushVictim, Option.toList_none, List.append_nil] at member
    exact List.mem_append_left _ member
  refine ⟨⟨rfl, rfl, rfl, rfl, Nat.le_refl _, rfl, rfl, rfl, rfl, rfl, rfl, rfl, older,
    (World.SameDevice.refl _).appended _ _ _, rfl, .refl _⟩, { coherent with
      attached := coherent.attached.onEngine rfl rfl rfl
      sound := fun table member => coherent.sound table (older table member)
      indexed := coherent.indexed.congr rfl rfl rfl rfl rfl
      bounded := fun table member => coherent.bounded table (older table member)
      agrees := fun trusted logicalBlock => ?_ }, fun _ => mapped⟩
  rw [mapped]
  exact coherent.agrees trusted logicalBlock

end Coherent

/-- What holds between two moves. -/
structure Afloat (machine : Machine) (pc : FlushPc) (log : Extent) (limit : Nat) (contents : Nat → UInt8) : Prop where
  reflects : Reflects machine log limit contents
  held : ∀ victim, pc.victim = some victim → machine.lsm.flushing = some victim
  progress : pc.Progress machine log
  room : ∀ victim start written, pc = .wrote victim start written →
    machine.lsm.metaWp + written.consumed ≤ log.start + log.capacity

section Worker
variable {pc : FlushPc}

/-- A step of the flush worker that keeps what the target shows. -/
theorem Afloat.onward {next : FlushPc} (afloat : Afloat machine pc log limit contents) (flushed : Flushed machine after log limit True)
    (held : ∀ victim, next.victim = some victim → after.lsm.flushing = some victim) (progress : next.Progress after log)
    (room : ∀ victim start written, next = .wrote victim start written →
      after.lsm.metaWp + written.consumed ≤ log.start + log.capacity) : Afloat after next log limit contents :=
  ⟨afloat.reflects.flushed flushed, held, progress, room⟩

theorem claiming_afloat (afloat : Afloat machine .claiming log limit contents) :
    Afloat (flushStep machine .claiming).2 (flushStep machine .claiming).1 log limit contents := by
  have flushed := claimFlushVictim_flushed afloat.reflects.serving.coherent
  unfold flushStep
  dsimp only
  split
  · exact afloat.onward flushed (by rintro _ ⟨⟩) trivial (by rintro _ _ _ ⟨⟩)
  next victim slot =>
    refine afloat.onward flushed ?_ trivial (by rintro _ _ _ ⟨⟩)
    rintro _ ⟨⟩
    exact slot

theorem located_afloat {victim : Memtable} {start seq : Nat} (afloat : Afloat machine (.located victim start seq) log limit contents) :
    Afloat (flushStep machine (.located victim start seq)).2 (flushStep machine (.located victim start seq)).1 log limit contents := by
  have coherent := afloat.reflects.serving.coherent
  have slot := afloat.held victim rfl
  have starts : start = machine.lsm.metaWp := afloat.progress
  have sound := coherent.sound victim (by simp [residents, slot])
  have prepared := @sstPrepare_spec _ victim start seq log machine.world sound.toRegular
  unfold Effect.Ensures at prepared
  unfold flushStep
  dsimp only
  rw [coherent.attached.metaEnd]
  split
  next error world ran =>
    rw [ran] at prepared
    obtain ⟨quiet, ⟨ok, _⟩ | ⟨_, same, empty⟩⟩ := prepared
    · cases ok
    · cases same
      refine afloat.onward (coherent.append (quiet.appended _ _ _) le_rfl quiet.dataWrites quiet.later) ?_
        ⟨starts, fun same => empty (Except.error.inj same), by rintro _ ⟨⟩⟩ ?_
      · rintro _ ⟨⟩
        exact slot
      · rintro _ _ _ ⟨⟩
        exact coherent.logEnd
  next blocks world ran =>
    rw [ran] at prepared
    obtain ⟨quiet, ⟨same, filled, room⟩ | ⟨_, failed, _⟩⟩ := prepared
    · cases same
      refine afloat.onward (coherent.append (quiet.appended _ _ _) le_rfl quiet.dataWrites quiet.later) ?_
        ⟨starts, filled, rfl, Nat.zero_le _, room, ?_⟩ (by rintro _ _ _ ⟨⟩)
      · rintro _ ⟨⟩
        exact slot
      · intro position block held
        simp at held
    · cases failed

theorem written_afloat {victim : Memtable} {start seq done : Nat}
    (afloat : Afloat machine (.writing victim start seq done []) log limit contents) :
    Afloat (flushStep machine (.writing victim start seq done [])).2 (flushStep machine (.writing victim start seq done [])).1
      log limit contents := by
  have coherent := afloat.reflects.serving.coherent
  have slot := afloat.held victim rfl
  obtain ⟨starts, filled, ahead, few, room, held⟩ := afloat.progress
  have sound := coherent.sound victim (by simp [residents, slot])
  have limited : victim.root.inorder.length < 2 ^ 32 := by
    rw [← sound.counted]
    exact sound.limited.trans_lt Kernel.entryLimit_lt
  have all : done = (sstImage victim start seq).length := by
    have none_ := congrArg List.length ahead
    rw [List.length_drop, List.length_nil] at none_
    omega
  rw [all, List.take_length] at held
  refine afloat.onward (.refl coherent) ?_ ⟨starts, by rintro ⟨⟩, ?_⟩ ?_
  · rintro _ ⟨⟩
    exact slot
  · intro sst same
    cases same
    refine ⟨stored_of_image sound filled held, sstSummary_startSector .., ?_⟩
    rw [sstSummary_nrBlocks start seq limited, ← sstImage_length victim start seq, ← all]
  · rintro _ _ _ ⟨⟩
    change machine.lsm.metaWp + done * blockSectors ≤ log.start + log.capacity
    rw [← starts, all]
    exact room

/-- One block of the table, written or not. -/
theorem writing_afloat {victim : Memtable} {start seq done : Nat} {block : Nat → UInt8} {left : List (Nat → UInt8)}
    (afloat : Afloat machine (.writing victim start seq done (block :: left)) log limit contents) :
    Afloat (flushStep machine (.writing victim start seq done (block :: left))).2
      (flushStep machine (.writing victim start seq done (block :: left))).1 log limit contents := by
  have coherent := afloat.reflects.serving.coherent
  have slot := afloat.held victim rfl
  have place := coherent.place
  obtain ⟨starts, filled, ahead, few, room, held⟩ := afloat.progress
  have more : done < (sstImage victim start seq).length := by
    have some_ := congrArg List.length ahead
    rw [List.length_drop, List.length_cons] at some_
    omega
  have capacity := Geometry.capacity_le_len place.zone
  have low := place.metaWp
  have inside : (done + 1) * blockSectors ≤ (sstImage victim start seq).length * blockSectors := Nat.mul_le_mul_right _ more
  rw [Nat.add_mul, Nat.one_mul] at inside
  have size : blockSectors = 8 := rfl
  have spec := blockWrite_spec .metadata block place.zone (show log.start ≤ start + done * blockSectors by omega) (by omega)
  unfold Effect.Ensures at spec
  unfold flushStep
  dsimp only
  split
  next error world ran =>
    rw [ran] at spec
    obtain ⟨landed, recorded, failed⟩ := spec
    refine afloat.onward (coherent.append (landed.appended place.zone) (by omega) recorded.dataWrites recorded.later) ?_
      ⟨starts, ?_, by rintro _ ⟨⟩⟩ ?_
    · rintro _ ⟨⟩
      exact slot
    · intro enodata
      cases Except.error.inj enodata
      rcases (failed _ rfl).1 with reports | ⟨code, _⟩
      · exact absurd reports afloat.reflects.distinct
      · cases code
    · rintro _ _ _ ⟨⟩
      change machine.lsm.metaWp + done * blockSectors ≤ log.start + log.capacity
      omega
  next world ran =>
    rw [ran] at spec
    obtain ⟨landed, recorded, _⟩ := spec
    have appended := landed.appended place.zone
    refine afloat.onward (coherent.append appended (by omega) recorded.dataWrites recorded.later) ?_
      ⟨starts, filled, ?_, more, room, ?_⟩ (by rintro _ _ _ ⟨⟩)
    · rintro _ ⟨⟩
      exact slot
    · rw [List.drop_eq_getElem_cons more] at ahead
      exact (List.cons.inj ahead).2
    · refine holds_take_succ held more (fun address less => appended.media address (Or.inl less)) ?_
      intro byte within
      rw [List.drop_eq_getElem_cons more] at ahead
      cases landed with
      | committed accepted device =>
        change world.media _ = _
        rw [device.media, World.commit_media, overlay_inside (by omega) (by omega), Nat.add_sub_cancel_left, (List.cons.inj ahead).1]
        rfl

theorem wrote_afloat {victim : Memtable} {start : Nat} {written : SstWritten}
    (afloat : Afloat machine (.wrote victim start written) log limit contents) :
    Afloat (flushStep machine (.wrote victim start written)).2 (flushStep machine (.wrote victim start written)).1
      log limit contents := by
  have coherent := afloat.reflects.serving.coherent
  have slot := afloat.held victim rfl
  have place := coherent.place
  obtain ⟨starts, empty, done⟩ := afloat.progress
  unfold flushStep
  dsimp only
  rw [starts, advanceMetaWp_eq]
  refine afloat.onward (coherent.consume (afloat.room victim start written rfl)) ?_ ⟨empty, fun sst same => ?_⟩ (by rintro _ _ _ ⟨⟩)
  · rintro _ ⟨⟩
    exact slot
  · obtain ⟨stored, first, size⟩ := done sst same
    rw [starts] at first
    exact ⟨stored, by rw [first]; exact place.metaWp, by rw [first, size]⟩

theorem judging_afloat {victim : Memtable} {result : Except Errno Sstable}
    (afloat : Afloat machine (.judging victim result) log limit contents) :
    Afloat (flushStep machine (.judging victim result)).2 (flushStep machine (.judging victim result)).1 log limit contents := by
  have coherent := afloat.reflects.serving.coherent
  have slot := afloat.held victim rfl
  obtain ⟨empty, done⟩ := afloat.progress
  have keeps {after : Machine} (slot : after.lsm.flushing = some victim) :
      ∀ table, (FlushPc.releasing victim).victim = some table → after.lsm.flushing = some table := by
    rintro _ ⟨⟩
    exact slot
  cases result with
  | error error =>
    cases error with
    | enodata =>
      refine afloat.onward (.refl coherent) (keeps slot) (fun logicalBlock sector held => ?_) (by rintro _ _ _ ⟨⟩)
      rw [Memtable.pairs, empty rfl] at held
      cases held
    | _ => exact afloat.onward (.refl coherent) (by rintro _ ⟨⟩) trivial (by rintro _ _ _ ⟨⟩)
  | ok sst =>
    obtain ⟨stored, low, high⟩ := done sst rfl
    refine afloat.onward (coherent.list slot stored low high) (keeps slot) (fun logicalBlock sector held => ?_) (by rintro _ _ _ ⟨⟩)
    change Layers.resolve ((sst :: machine.lsm.sstables).map (Sstable.entries machine.world.media)) _ = _
    rw [List.map_cons, Layers.resolve_cons, stored.entries_eq, held]
    rfl

/-- Outside the loop only flags change. -/
theorem Afloat.flags {next : FlushPc} (afloat : Afloat machine pc log limit contents) (flushInFlight flushPending : Bool)
    (idle : next = .claiming ∨ next = .rechecking ∨ next = .queueing ∨ next = .finished) :
    Afloat { machine with lsm := { machine.lsm with flushInFlight, flushPending } } next log limit contents := by
  have flushed := afloat.reflects.serving.coherent.flags flushInFlight flushPending
  rcases idle with rfl | rfl | rfl | rfl <;>
    exact afloat.onward flushed (by rintro _ ⟨⟩) trivial (by rintro _ _ _ ⟨⟩)

theorem flushStep_afloat (afloat : Afloat machine pc log limit contents) :
    Afloat (flushStep machine pc).2 (flushStep machine pc).1 log limit contents := by
  have coherent := afloat.reflects.serving.coherent
  cases pc with
  | claiming => exact claiming_afloat afloat
  | claimed victim =>
    refine afloat.onward (.refl coherent) ?_ rfl (by rintro _ _ _ ⟨⟩)
    rintro _ ⟨⟩
    exact afloat.held victim rfl
  | located victim start seq => exact located_afloat afloat
  | writing victim start seq done left =>
    cases left with
    | nil => exact written_afloat afloat
    | cons block left => exact writing_afloat afloat
  | wrote victim start written => exact wrote_afloat afloat
  | judging victim result => exact judging_afloat afloat
  | releasing victim =>
    exact afloat.onward (coherent.release (afloat.held victim rfl) afloat.progress) (by rintro _ ⟨⟩) trivial (by rintro _ _ _ ⟨⟩)
  | clearing failed =>
    cases failed with
    | false => exact afloat.flags false machine.lsm.flushPending (.inr (.inl rfl))
    | true => exact afloat.flags false machine.lsm.flushPending (.inr (.inr (.inr rfl)))
  | rechecking =>
    unfold flushStep
    dsimp only
    split
    · exact afloat.flags true machine.lsm.flushPending (.inr (.inr (.inl rfl)))
    · exact afloat.flags machine.lsm.flushInFlight machine.lsm.flushPending (.inr (.inr (.inr rfl)))
  | queueing => exact afloat.flags machine.lsm.flushInFlight true (.inr (.inr (.inr rfl)))
  | finished => exact afloat

omit [Kernel] in
theorem workOn_eq (state : InFlight) (busy : state.pc ≠ .finished) :
    workOn state = ⟨(flushStep state.machine state.pc).2, (flushStep state.machine state.pc).1⟩ := by
  obtain ⟨machine, pc⟩ := state
  cases pc with
  | finished => exact absurd rfl busy
  | _ => rfl

theorem workOn_afloat (afloat : Afloat machine pc log limit contents) :
    Afloat (workOn ⟨machine, pc⟩).machine (workOn ⟨machine, pc⟩).pc log limit contents := by
  by_cases ended : pc = .finished
  · subst ended
    change Afloat (InFlight.machine (if machine.lsm.flushPending then _ else _)) (InFlight.pc (if _ then _ else _)) _ _ _
    split
    · exact afloat.flags machine.lsm.flushInFlight false (.inl rfl)
    · exact afloat
  · rw [workOn_eq _ ended]
    exact flushStep_afloat afloat

end Worker

section Requests
variable {pc : FlushPc}

/-- A request leaves the worker's table and its part of the log alone. -/
theorem engineMap_beside (params : Params) (bio : Bio) (serving : Serving machine log limit True) :
    Beside machine (engineMap params bio machine).2 log := by
  refine (@engineMap_preserves _ params (fun after => Serving after log limit True ∧ Beside machine after log) limit
    (fun _ held => held.1.coherent.logicalSectors) ?_ ?_ bio machine ⟨serving, .refl machine⟩).2
  · rintro before after ⟨serving, beside⟩ same
    exact ⟨serving.same same, beside.trans (.of_alike ⟨by rw [same.1], same.2⟩)⟩
  · rintro before sector bytes ⟨serving, beside⟩ aligned inside
    refine (serving.append params bytes aligned inside).mono ?_
    rintro _ after ⟨serving, appends⟩
    exact ⟨serving, beside.trans appends.beside⟩

theorem request_afloat (params : Params) (bio : Bio) (afloat : Afloat machine pc log limit contents) :
    Expected contents (.bio bio) (some (engineMap params bio machine).1) ∧
      Afloat (engineMap params bio machine).2 pc log limit
        (contentsAfter contents (.bio bio) (some (engineMap params bio machine).1)) := by
  have serving := afloat.reflects.serving
  obtain ⟨expected, reflects⟩ := handle_reflects params afloat.reflects (.bio bio)
  have beside := engineMap_beside params bio serving
  have kept : LogKept machine (engineMap params bio machine).2 log :=
    ⟨beside.geometry, beside.sameLog.metaStart, beside.sameLog.metaEnd, beside.sameLog.metaWp, beside.sstables, beside.media,
      beside.later⟩
  refine ⟨expected, reflects, fun victim held => ?_, kept.progress serving.coherent.place afloat.progress, ?_⟩
  · rw [beside.flushing]
    exact afloat.held victim held
  · intro victim start written here
    rw [beside.sameLog.metaWp]
    exact afloat.room victim start written here

theorem takeMove_afloat (params : Params) (move : Move) {state : InFlight}
    (afloat : Afloat state.machine state.pc log limit contents) :
    Expected contents move.event (takeMove params move state).1 ∧
      Afloat (takeMove params move state).2.machine (takeMove params move state).2.pc log limit
        (contentsAfter contents move.event (takeMove params move state).1) := by
  cases move with
  | request bio => exact request_afloat params bio afloat
  | worker => exact ⟨trivial, workOn_afloat afloat⟩

theorem Afloat.serves (params : Params) (moves : List Move) {state : InFlight}
    (afloat : Afloat state.machine state.pc log limit contents) : Serves params moves state contents := by
  induction moves generalizing state contents with
  | nil => exact afloat.reflects.disk
  | cons move moves ih =>
    obtain ⟨expected, next⟩ := takeMove_afloat params move afloat
    exact ⟨afloat.reflects.disk, expected, ih next⟩

end Requests

end Steps

/-! An execution of the flush work that no request interrupts is the worker as one
piece, so the runs with whole executions are among these. -/

section Whole
variable {machine : Machine}

/-- Until it is over, the execution goes on alone. -/
theorem workOn_runFlusher (steps : Nat) {pc next : FlushPc} {machine after : Machine}
    (ran : runFlusher steps (pc, machine) = (next, after)) (busy : next ≠ .finished) :
    workOn^[steps] ⟨machine, pc⟩ = ⟨after, next⟩ := by
  induction steps generalizing pc machine with
  | zero =>
    cases ran
    rfl
  | succ steps ih =>
    have going : pc ≠ .finished := by
      rintro rfl
      have stays (steps : Nat) : runFlusher steps (.finished, machine) = (.finished, machine) := by
        induction steps with
        | zero => rfl
        | succ steps ih => exact ih
      rw [stays] at ran
      exact busy (congrArg Prod.fst ran).symm
    rw [Function.iterate_succ_apply, workOn_eq _ going]
    exact ih ran

/-- The tables an execution finds to write. -/
def victims (machine : Machine) : Nat := machine.lsm.flushing.isSome.toNat + machine.lsm.tables.immutable.isSome.toNat

theorem flushVictim_slots (victim : Memtable) (machine : Machine) (done : (flushVictim victim machine).1 = .ok ()) :
    (flushVictim victim machine).2.lsm.flushing = none ∧
      (flushVictim victim machine).2.lsm.tables = machine.lsm.tables := by
  have same (consumed : Nat) : (if consumed ≠ 0 then machine.lsm.advanceMetaWp machine.lsm.metaWp consumed else machine.lsm).tables =
      machine.lsm.tables := by
    rw [advanceMetaWp_eq]
  unfold flushVictim at done ⊢
  dsimp only at done ⊢
  split at done
  · exact ⟨rfl, same _⟩
  · cases done
  · exact ⟨rfl, same _⟩

/-- The loop of the worker, step by step. -/
theorem flushLoop_steps (rounds : Nat) {machine : Machine} (enough : victims machine < rounds) : ∃ steps,
    runFlusher steps (.claiming, machine) = (.clearing (flushLoop rounds machine).1, (flushLoop rounds machine).2) := by
  induction rounds generalizing machine with
  | zero => exact absurd enough (Nat.not_lt_zero _)
  | succ rounds ih =>
    unfold flushLoop
    dsimp only
    cases slot : machine.lsm.claimFlushVictim.flushing with
    | none =>
      refine ⟨1, ?_⟩
      rw [runFlusher, flushStep, slot]
      rfl
    | some victim =>
      have fewer : machine.lsm.claimFlushVictim.tables.immutable.isSome.toNat < victims machine := by
        unfold claimFlushVictim at slot ⊢
        unfold victims
        cases parked : machine.lsm.flushing with
        | some table => simp
        | none =>
          rw [parked] at slot
          dsimp only at slot ⊢
          simp [slot]
      obtain ⟨steps, reached⟩ := runFlusher_victim victim { machine with lsm := machine.lsm.claimFlushVictim }
      have first : runFlusher (1 + steps) (.claiming, machine) =
          runFlusher steps (.claimed victim, { machine with lsm := machine.lsm.claimFlushVictim }) := by
        rw [runFlusher_add, runFlusher, runFlusher, flushStep, slot]
      have slots := flushVictim_slots victim { machine with lsm := machine.lsm.claimFlushVictim }
      dsimp only
      generalize flushVictim victim { machine with lsm := machine.lsm.claimFlushVictim } = flushed at reached slots ⊢
      obtain ⟨result, after⟩ := flushed
      cases result with
      | error error => exact ⟨1 + steps, first.trans reached⟩
      | ok value =>
        obtain ⟨empty, tables⟩ := slots rfl
        dsimp only at empty tables reached
        have left : victims after < rounds := by
          unfold victims
          rw [empty, tables]
          simp only [Option.isSome_none, Bool.toNat_false, Nat.zero_add]
          omega
        obtain ⟨more, ended⟩ := ih left
        exact ⟨1 + steps + more, by rw [runFlusher_add, first, reached, ended]⟩

/-- What an execution does once it is out of the loop. -/
theorem clearing_steps (failed : Bool) (machine : Machine) : ∃ steps,
    workOn^[steps] ⟨machine, .clearing failed⟩ =
      ⟨⟨if failed then { machine.lsm with flushInFlight := false }
        else maybeQueueFlush { machine.lsm with flushInFlight := false }, machine.world⟩, .finished⟩ := by
  cases failed with
  | true => exact ⟨1, rfl⟩
  | false =>
    by_cases wants : wantsFlush { machine.lsm with flushInFlight := false } = true
    · refine ⟨3, ?_⟩
      have queues : maybeQueueFlush { machine.lsm with flushInFlight := false } =
          { machine.lsm with flushInFlight := true, flushPending := true } := if_pos (of_decide_eq_true wants)
      simp [workOn, flushStep, wants, queues]
    · refine ⟨2, ?_⟩
      have rests : maybeQueueFlush { machine.lsm with flushInFlight := false } = { machine.lsm with flushInFlight := false } :=
        if_neg fun some_ => wants (decide_eq_true some_)
      simp [workOn, flushStep, wants, rests]

theorem flushWorker_moves (machine : Machine) : ∃ steps, workOn^[steps] ⟨machine, .finished⟩ = ⟨flushWorker machine, .finished⟩ := by
  unfold flushWorker
  by_cases pending : machine.lsm.flushPending = true
  · rw [if_pos pending]
    have few : victims { machine with lsm := { machine.lsm with flushPending := false } } < 3 := by
      have first := machine.lsm.flushing.isSome.toNat_le
      have second := machine.lsm.tables.immutable.isSome.toNat_le
      unfold victims
      dsimp only
      omega
    obtain ⟨loops, looped⟩ := flushLoop_steps 3 few
    dsimp only
    generalize flushLoop 3 { machine with lsm := { machine.lsm with flushPending := false } } = left at looped ⊢
    obtain ⟨failed, after⟩ := left
    obtain ⟨clears, cleared⟩ := clearing_steps failed after
    have starts : workOn ⟨machine, .finished⟩ = ⟨{ machine with lsm := { machine.lsm with flushPending := false } }, .claiming⟩ :=
      if_pos pending
    refine ⟨clears + (loops + 1), ?_⟩
    rw [Function.iterate_add_apply, Function.iterate_succ_apply, starts, workOn_runFlusher loops looped (by rintro ⟨⟩), cleared]
  · rw [if_neg pending]
    exact ⟨0, rfl⟩

end Whole

theorem takeMoves_worker [Kernel] (params : Params) (steps : Nat) (state : InFlight) :
    takeMoves params (List.replicate steps .worker) state = workOn^[steps] state := by
  induction steps generalizing state with
  | zero => rfl
  | succ steps ih => exact ih (workOn state)

/-- A session, its flushes in one piece each, as a run of moves. -/
theorem run_moves [Kernel] (params : Params) (events : List Event) (machine : Machine) :
    ∃ moves, takeMoves params moves ⟨machine, .finished⟩ = ⟨run params events machine, .finished⟩ := by
  induction events generalizing machine with
  | nil => exact ⟨[], rfl⟩
  | cons event events ih =>
    obtain ⟨moves, reached⟩ := ih (handle params event machine).2
    cases event with
    | bio bio => exact ⟨.request bio :: moves, reached⟩
    | flushWork =>
      obtain ⟨steps, worked⟩ := flushWorker_moves machine
      refine ⟨List.replicate steps .worker ++ moves, ?_⟩
      rw [takeMoves, List.foldl_append]
      change takeMoves params moves (takeMoves params (List.replicate steps .worker) _) = _
      rw [takeMoves_worker, worked]
      exact reached

/-- A block is written, and its table frozen; once the first block of the table is in
the log, the same block is written again, and after one more step read. -/
def overtaking : List Move :=
  [.request ⟨.write, 0, [blockBytes], fun _ => 1⟩, .worker, .worker, .worker, .worker, .worker,
    .request ⟨.write, 0, [blockBytes], fun _ => 2⟩, .worker, .request ⟨.read, 0, [blockBytes], fun _ => 0⟩]

end Lsm
end ZnsBase
