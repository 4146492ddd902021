import ZnsBase.Proofs.Opening

/-! The footprint of recovery: it fills the table list and the GC indexes, picks
a reserve, and otherwise only reads. -/

namespace ZnsBase
open Library

namespace Lsm

/-- Only the list of SSTables and its counters changed. -/
structure Adopts (before after : Machine) : Prop where
  engine : after.lsm = { before.lsm with
    sstables := after.lsm.sstables
    nrSstables := after.lsm.nrSstables
    nrSstEntries := after.lsm.nrSstEntries
    nextSstSeq := after.lsm.nextSstSeq }
  quiet : before.world.Quiet after.world

theorem Adopts.refl (machine : Machine) : Adopts machine machine := ⟨rfl, .refl _⟩

theorem Adopts.trans {first second third : Machine} (earlier : Adopts first second) (later : Adopts second third) :
    Adopts first third := by
  refine ⟨?_, earlier.quiet.trans later.quiet⟩
  rw [later.engine, earlier.engine]

private theorem sstDecodeHeader_ok {block : Nat → UInt8} {startSector : Nat} {sst : Sstable}
    (decoded : sstDecodeHeader block startSector = .ok sst) :
    sst.Sized ∧ 0 < sst.nrEntries ∧ sst.startSector = startSector := by
  unfold sstDecodeHeader at decoded
  dsimp only at decoded
  repeat' split at decoded
  all_goals cases decoded
  next counts _ =>
    obtain ⟨filled, blocks⟩ := not_or.mp counts
    exact ⟨⟨leValue_lt block 12 4, not_not.mp blocks⟩, Nat.pos_of_ne_zero filled, rfl⟩

private theorem sstDecodeHeader_error {block : Nat → UInt8} {startSector : Nat} {error : Errno}
    (failed : sstDecodeHeader block startSector = .error error) : error = .einval := by
  unfold sstDecodeHeader at failed
  dsimp only at failed
  repeat' split at failed
  all_goals cases failed
  all_goals rfl

/-- Whatever the bytes are, a table that is loaded lies below the limit. -/
theorem sstLoad_spec (sector limit : Nat) (world : World) :
    Effect.Ensures (sstLoad sector limit) world (fun result after => world.Quiet after ∧
      (∀ sst, result = .ok sst → sst.Sized ∧ 0 < sst.nrEntries ∧ sst.startSector = sector ∧
        sst.startSector + sst.nrBlocks * blockSectors ≤ limit) ∧
      ∀ error, result = .error error → error = .einval ∨ ¬ world.oracle.Healthy) := by
  rw [sstLoad]
  split
  next => exact ⟨.refl _, (by rintro _ ⟨⟩), fun error same => Or.inl (Except.error.inj same).symm⟩
  next below =>
    refine Effect.Ensures.bind (allocate_quiet world) ?_ ?_
    · rintro _ first ⟨quiet, _⟩
      refine Effect.Ensures.bind (allocate_quiet first) ?_ ?_
      · rintro _ second ⟨quiet', _⟩
        have quiet := quiet.trans quiet'
        refine Effect.Ensures.bind (blockRead_spec .metadata sector second) ?_ ?_
        · rintro block third ⟨quiet'', _⟩
          have quiet := quiet.trans quiet''
          refine Effect.Ensures.ofExcept_bind ?_ ?_
          · intro sst decoded
            obtain ⟨sized, filled, start⟩ := sstDecodeHeader_ok decoded
            split
            next => exact ⟨quiet, (by rintro _ ⟨⟩), fun error same => Or.inl (Except.error.inj same).symm⟩
            next fits =>
              refine ⟨quiet, fun other same => ?_, (by rintro _ ⟨⟩)⟩
              cases same
              exact ⟨sized, filled, start, by omega⟩
          · intro error decoded
            refine ⟨quiet, (by rintro _ ⟨⟩), fun other same => ?_⟩
            cases same
            exact Or.inl (sstDecodeHeader_error decoded)
        · rintro error after ⟨quiet'', same | ⟨_, same, reports⟩⟩
          · cases same
          · exact ⟨quiet.trans quiet'', (by rintro _ ⟨⟩), fun _ _ =>
              Or.inr fun healthy => (healthy.later quiet.later).requests _ _ reports⟩
      · rintro error after ⟨quiet', same | ⟨_, sick⟩⟩
        · cases same
        · exact ⟨quiet.trans quiet', (by rintro _ ⟨⟩), fun _ _ => Or.inr fun healthy => sick (healthy.later quiet.later)⟩
    · rintro error after ⟨quiet, same | ⟨_, sick⟩⟩
      · cases same
      · exact ⟨quiet, (by rintro _ ⟨⟩), fun _ _ => Or.inr sick⟩

theorem recoverFrom_adopts (rounds cursor : Nat) (machine : Machine) :
    Effect.Ensures (recoverFrom rounds cursor) machine (fun _ after => Adopts machine after) := by
  induction rounds generalizing cursor machine with
  | zero => exact .refl _
  | succ rounds ih =>
    rw [recoverFrom]
    apply Effect.Ensures.get_bind
    split
    · have loads : Effect.Ensures (onWorld (sstLoad cursor machine.lsm.metaWp)) machine (fun _ after => Adopts machine after) :=
        onWorld_ensures ((sstLoad_spec cursor _ machine.world).mono fun _ _ spec => ⟨rfl, spec.1⟩)
      refine Effect.Ensures.attempt_bind loads ?_
      intro result after adopts
      split
      · exact adopts
      · exact adopts
      · next sst =>
        apply Effect.Ensures.modify_bind
        have adopted : Adopts after { after with lsm := after.lsm.adoptSstable sst } := ⟨rfl, .refl _⟩
        exact (ih _ _).mono (fun _ _ more => (adopts.trans adopted).trans more)
    · exact .refl _

/-- Only the GC indexes changed. -/
structure Reindexes (before after : Machine) : Prop where
  engine : after.lsm = { before.lsm with
    gcZones := after.lsm.gcZones
    latest := after.lsm.latest
    validBlocks := after.lsm.validBlocks }
  quiet : before.world.Quiet after.world
  maps : before.lsm.NarrowMaps → after.lsm.NarrowMaps

theorem Reindexes.refl (machine : Machine) : Reindexes machine machine := ⟨rfl, .refl _, id⟩

theorem Reindexes.trans {first second third : Machine} (earlier : Reindexes first second)
    (later : Reindexes second third) : Reindexes first third := by
  refine ⟨?_, earlier.quiet.trans later.quiet, later.maps ∘ earlier.maps⟩
  rw [later.engine, earlier.engine]

theorem onWorld_reindexes {α : Type} {program : Effect World Errno α} {machine : Machine}
    (valid : Effect.Ensures program machine.world (fun _ world => machine.world.Quiet world)) :
    Effect.Ensures (onWorld program) machine (fun _ after => Reindexes machine after) :=
  onWorld_ensures (valid.mono fun _ _ quiet => ⟨rfl, quiet, id⟩)

theorem gcRestoreEntry_reindexes {logicalBlock : Nat} (physicalSector : Nat) (machine : Machine) (small : logicalBlock < 2 ^ 64) :
    Effect.Ensures (gcRestoreEntry logicalBlock physicalSector) machine (fun _ after => Reindexes machine after) := by
  apply Effect.Ensures.get_bind
  split
  · exact .refl _
  split
  · exact .refl _
  split
  · exact .refl _
  split
  · exact .refl _
  refine Effect.Ensures.bind (onWorld_reindexes ((allocate_quiet machine.world).mono fun _ _ spec => spec.1)) ?_
    (fun error after reindexes => reindexes)
  intro _ after reindexes
  exact reindexes.trans ⟨rfl, .refl _, gcCommit_narrow _ _ _ small⟩

theorem gcRestoreEntries_reindexes (block : Nat → UInt8) (indices : List Nat) (machine : Machine) :
    Effect.Ensures (gcRestoreEntries block indices) machine (fun _ after => Reindexes machine after) := by
  induction indices generalizing machine with
  | nil => exact .refl _
  | cons index indices ih =>
    refine Effect.Ensures.bind (gcRestoreEntry_reindexes _ machine (leValue_lt block _ 8)) ?_
      (fun error after reindexes => reindexes)
    exact fun _ after reindexes => (ih after).mono (fun _ _ more => reindexes.trans more)

theorem gcRebuildPages_reindexes (sst : Sstable) (pages : List Nat) (crc : BitVec 32) (machine : Machine) :
    Effect.Ensures (gcRebuildPages sst pages crc) machine (fun _ after => Reindexes machine after) := by
  induction pages generalizing crc machine with
  | nil => exact .refl _
  | cons page pages ih =>
    rw [gcRebuildPages]
    refine Effect.Ensures.bind (onWorld_reindexes ((blockRead_spec .metadata _ machine.world).mono fun _ _ spec => spec.1))
      ?_ (fun error after reindexes => reindexes)
    intro block read reindexes
    refine Effect.Ensures.bind (gcRestoreEntries_reindexes block _ read) ?_ (fun error after more => reindexes.trans more)
    intro _ restored more
    exact (ih _ restored).mono (fun _ _ rest => (reindexes.trans more).trans rest)

theorem gcRebuildTables_reindexes (sstables : List Sstable) (machine : Machine) :
    Effect.Ensures (gcRebuildTables sstables) machine (fun _ after => Reindexes machine after) := by
  induction sstables generalizing machine with
  | nil => exact .refl _
  | cons sst rest ih =>
    rw [gcRebuildTables]
    refine Effect.Ensures.bind (gcRebuildPages_reindexes sst _ 0 machine) ?_ (fun error after reindexes => reindexes)
    intro crc after reindexes
    split
    · exact reindexes
    · exact (ih after).mono (fun _ _ more => reindexes.trans more)

theorem gcRebuild_reindexes (machine : Machine) :
    Effect.Ensures gcRebuild machine (fun _ after => Reindexes machine after) := by
  refine Effect.Ensures.bind (onWorld_reindexes ((allocate_quiet machine.world).mono fun _ _ spec => spec.1)) ?_
    (fun error after reindexes => reindexes)
  intro _ after reindexes
  apply Effect.Ensures.get_bind
  exact (gcRebuildTables_reindexes _ after).mono (fun _ _ more => reindexes.trans more)

theorem setReserve_spec {allocator : Allocator} (zoned : allocator.mode = .zoned)
    (block : allocator.sectorsPerBlock = blockSectors) (id : Nat) :
    (∃ zone, allocator.zones[id]? = some zone ∧ Vacant zone ∧
        allocator.setReserve id = (.ok (), { allocator with reserveZone := id })) ∨
      (∃ error, allocator.setReserve id = (.error error, allocator) ∧
        ∀ zone, allocator.zones[id]? = some zone → ¬ Vacant zone) := by
  unfold Allocator.setReserve
  rw [if_neg (by simp [zoned]), block]
  cases found : allocator.zones[id]? with
  | none => exact Or.inr ⟨.einval, rfl, nofun⟩
  | some zone =>
    dsimp only
    split
    next unfit =>
      refine Or.inr ⟨.enospc, rfl, ?_⟩
      rintro _ same ⟨writable, room, empty⟩
      cases same
      rcases unfit with stuck | small | used
      · exact stuck writable
      · omega
      · exact used empty
    next fit =>
      refine Or.inl ⟨zone, rfl, ⟨?_, ?_, ?_⟩, rfl⟩
      · exact not_not.mp fun stuck => fit (Or.inl stuck)
      · exact Nat.not_lt.mp fun small => fit (Or.inr (Or.inl small))
      · exact not_not.mp fun used => fit (Or.inr (Or.inr used))

/-- The search finds a vacant zone if there is one. -/
theorem chooseReserve_spec {allocator : Allocator} (zoned : allocator.mode = .zoned)
    (block : allocator.sectorsPerBlock = blockSectors) (count : Nat) :
    (∃ id zone, id < count ∧ allocator.zones[id]? = some zone ∧ Vacant zone ∧
        chooseReserve allocator count = (.ok (), { allocator with reserveZone := id })) ∨
      (chooseReserve allocator count = (.error .enospc, allocator) ∧
        ∀ id < count, ∀ zone, allocator.zones[id]? = some zone → ¬ Vacant zone) := by
  induction count with
  | zero => exact Or.inr ⟨rfl, fun id less => absurd less (Nat.not_lt_zero _)⟩
  | succ count ih =>
    rw [chooseReserve]
    rcases setReserve_spec zoned block count with ⟨zone, found, vacant, done⟩ | ⟨error, failed, unfit⟩
    · rw [done]
      exact Or.inl ⟨count, zone, Nat.lt_succ_self _, found, vacant, rfl⟩
    · rw [failed]
      rcases ih with ⟨id, zone, less, found, vacant, done⟩ | ⟨failed, none_⟩
      · exact Or.inl ⟨id, zone, by omega, found, vacant, done⟩
      · refine Or.inr ⟨failed, fun id less zone found => ?_⟩
        rcases Nat.lt_or_eq_of_le (Nat.le_of_lt_succ less) with before | rfl
        · exact none_ id before zone found
        · exact unfit zone found

/-- Recovery and rebuild went through. -/
def Rebuilt (opened rebuilt : Machine) : Prop :=
  ∃ recovered, recoverSstables opened = (.ok (), recovered) ∧ gcRebuild recovered = (.ok (), rebuilt)

/-- A successful startup: recovery, rebuild, a reserve, and nothing else. -/
def Started (opened after : Machine) : Prop :=
  ∃ rebuilt reserve zone, Rebuilt opened rebuilt ∧ rebuilt.lsm.allocator.zones[reserve]? = some zone ∧ Vacant zone ∧
    after.lsm = { rebuilt.lsm with allocator := { rebuilt.lsm.allocator with reserveZone := reserve } } ∧
    rebuilt.world.Quiet after.world

theorem Rebuilt.frame {opened rebuilt : Machine} (done : Rebuilt opened rebuilt) :
    ∃ recovered, Adopts opened recovered ∧ Reindexes recovered rebuilt := by
  obtain ⟨recovered, recovers, rebuilds⟩ := done
  have adopts := recoverFrom_adopts (opened.lsm.metaWp + 1) (opened.lsm.metaStart + blockSectors) opened
  have reindexes := gcRebuild_reindexes recovered
  unfold Effect.Ensures at adopts reindexes
  change recoverFrom (opened.lsm.metaWp + 1) (opened.lsm.metaStart + blockSectors) opened = _ at recovers
  rw [recovers] at adopts
  rw [rebuilds] at reindexes
  exact ⟨recovered, adopts, reindexes⟩

theorem Rebuilt.allocator {opened rebuilt : Machine} (done : Rebuilt opened rebuilt) :
    rebuilt.lsm.allocator = opened.lsm.allocator := by
  obtain ⟨recovered, adopts, reindexes⟩ := done.frame
  rw [reindexes.engine, adopts.engine]

theorem Rebuilt.quiet {opened rebuilt : Machine} (done : Rebuilt opened rebuilt) :
    opened.world.Quiet rebuilt.world := by
  obtain ⟨recovered, adopts, reindexes⟩ := done.frame
  exact adopts.quiet.trans reindexes.quiet

theorem startup_spec {opened : Machine} (zoned : opened.lsm.allocator.mode = .zoned)
    (block : opened.lsm.allocator.sectorsPerBlock = blockSectors) :
    Effect.Ensures startup opened (fun result after => (result = .ok () ∧ Started opened after) ∨
      ∃ error, result = .error error ∧ ¬ ∃ (rebuilt : Machine) (reserve : Nat) (zone : Zone), Rebuilt opened rebuilt ∧
        rebuilt.lsm.allocator.zones[reserve]? = some zone ∧ Vacant zone ∧ rebuilt.world.oracle.Healthy) := by
  refine Effect.Ensures.run_bind ?_ ?_
  · intro _ recovered recovers
    refine Effect.Ensures.run_bind ?_ ?_
    · intro _ rebuilt rebuilds
      have done : Rebuilt opened rebuilt := ⟨recovered, recovers, rebuilds⟩
      have unique (other : Machine) (done' : Rebuilt opened other) : other = rebuilt := by
        obtain ⟨_, recovers', rebuilds'⟩ := done'
        cases recovers.symm.trans recovers'
        cases rebuilds.symm.trans rebuilds'
        rfl
      have zoned : rebuilt.lsm.allocator.mode = .zoned := by rw [done.allocator, zoned]
      have block : rebuilt.lsm.allocator.sectorsPerBlock = blockSectors := by rw [done.allocator, block]
      rcases chooseReserve_spec zoned block rebuilt.lsm.allocator.zones.length with
        ⟨id, zone, _, found, vacant, chosen⟩ | ⟨failed, none_⟩
      · refine onAllocator_bind ?_ ?_
        · intro _ allocator ran
          cases chosen.symm.trans ran
          refine onWorld_ensures ((allocateTimes_spec 3 rebuilt.world).mono ?_)
          rintro result world ⟨quiet, rfl | ⟨error, rfl, sick⟩⟩
          · exact Or.inl ⟨rfl, rebuilt, id, zone, done, found, vacant, rfl, quiet⟩
          · refine Or.inr ⟨error, rfl, ?_⟩
            rintro ⟨other, _, _, done', _, _, healthy⟩
            rw [unique other done'] at healthy
            exact sick healthy
        · intro error allocator ran
          cases chosen.symm.trans ran
      · refine onAllocator_bind ?_ ?_
        · intro _ allocator ran
          cases failed.symm.trans ran
        · intro error allocator ran
          refine Or.inr ⟨error, rfl, ?_⟩
          rintro ⟨other, reserve, zone, done', found, vacant, _⟩
          rw [unique other done'] at found
          obtain ⟨bound, _⟩ := List.getElem?_eq_some_iff.mp found
          exact none_ reserve bound zone found vacant
    · intro error rebuilt rebuilds
      refine Or.inr ⟨error, rfl, ?_⟩
      rintro ⟨_, _, _, ⟨_, other, other'⟩, _⟩
      cases recovers.symm.trans other
      cases rebuilds.symm.trans other'
  · intro error recovered recovers
    refine Or.inr ⟨error, rfl, ?_⟩
    rintro ⟨_, _, _, ⟨_, other, _⟩, _⟩
    cases recovers.symm.trans other

private theorem openEngine_zones (params : Params) (uuid logicalSectors physicalSectors sectorsPerBlock : Nat)
    (world : World) :
    Effect.Ensures (openEngine params uuid logicalSectors physicalSectors sectorsPerBlock) world (fun result _ =>
      ∀ lsm, result = .ok lsm → world.geometry.zones ≠ []) := by
  unfold openEngine
  split
  · exact nofun
  refine Effect.Ensures.bind (allocate_quiet world) ?_ (fun _ _ _ => nofun)
  rintro _ first ⟨quiet, _⟩
  refine Effect.Ensures.bind (zoneTableInit_spec first) ?_ (fun _ _ _ => nofun)
  rintro zones second ⟨_, ⟨_, present, _⟩ | ⟨_, failed, _⟩⟩
  · rw [quiet.geometry] at present
    exact Effect.Ensures.run_bind (fun _ _ _ => Effect.Ensures.run_bind (fun _ _ _ => Effect.Ensures.run_bind
      (fun _ _ _ => Effect.Ensures.run_bind (fun _ _ _ _ _ => present) (fun _ _ _ => nofun)) (fun _ _ _ => nofun))
      (fun _ _ _ => nofun)) (fun _ _ _ => nofun)
  · cases failed

/-- An engine only starts on a device with zones. -/
theorem engineInit_split {params : Params} {uuid logicalSectors physicalSectors sectorsPerBlock : Nat} {world after : World}
    {lsm : Lsm} (ran : engineInit params uuid logicalSectors physicalSectors sectorsPerBlock world = (.ok lsm, after)) :
    ∃ data log, world.geometry.zones = data ++ [log] := by
  have zones := openEngine_zones params uuid logicalSectors physicalSectors sectorsPerBlock world
  unfold Effect.Ensures at zones
  unfold engineInit at ran
  cases opening : openEngine params uuid logicalSectors physicalSectors sectorsPerBlock world with
  | mk result middle =>
    cases result with
    | ok opened =>
      rw [opening] at zones
      exact World.exists_split (zones opened rfl)
    | error error =>
      rw [Effect.bind_error opening] at ran
      cases ran

/-- Initialisation is opening followed by a startup. -/
theorem engineInit_ok {params : Params} {uuid logicalSectors physicalSectors sectorsPerBlock : Nat} {world after : World}
    {data : List Extent} {log : Extent} {lsm : Lsm} (split : world.geometry.zones = data ++ [log])
    (ran : engineInit params uuid logicalSectors physicalSectors sectorsPerBlock world = (.ok lsm, after)) :
    ∃ opened, Opened params logicalSectors uuid world opened.world data log opened.lsm ∧ Started opened ⟨lsm, after⟩ := by
  have opens := openEngine_spec split params uuid logicalSectors physicalSectors sectorsPerBlock
  unfold Effect.Ensures at opens
  unfold engineInit at ran
  cases opening : openEngine params uuid logicalSectors physicalSectors sectorsPerBlock world with
  | mk result middle =>
    rw [opening] at opens
    rcases opens with ⟨opened, same, facts⟩ | ⟨error, same, _⟩
    · cases same
      rw [Effect.bind_ok opening, startEngine] at ran
      have attached := facts.attached split
      have starts := startup_spec attached.zoned attached.block
      unfold Effect.Ensures at starts
      cases started : startup ⟨opened, middle⟩ with
      | mk result machine =>
        rw [started] at starts
        rw [started] at ran
        rcases starts with ⟨same, done⟩ | ⟨error, same, _⟩
        · cases same
          cases ran
          exact ⟨⟨opened, middle⟩, facts, done⟩
        · cases same
          cases ran
    · cases same
      rw [Effect.bind_error opening] at ran
      cases ran

end Lsm
end ZnsBase
