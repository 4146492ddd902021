import ZnsBase.Proofs.HealthyRuns
import ZnsBase.Proofs.Moments

/-! What a start finds after a crash. As long as no zone was reset since everything
was last in the log, it is the target as it was at some moment since, or in the
middle of a write at a block boundary. -/

namespace ZnsBase
open Library

namespace Lsm

/-- The contents a write goes through, up to `stop` of its sectors: it may be cut
where a block ends. -/
def Cuts (contents : Nat → UInt8) (sector sectors : Nat) (data : Nat → UInt8) (stop : Nat) (moment : Nat → UInt8) : Prop :=
  ∃ done ≤ stop, (done = 0 ∨ done = sectors ∨ (sector + done) % blockSectors = 0) ∧
    moment = overlay contents (sector * sectorBytes) (done * sectorBytes) data

/-- The contents a request goes through. -/
def moments (contents : Nat → UInt8) (bio : Bio) : Reply → (Nat → UInt8) → Prop
  | .wrote outcome => Cuts contents bio.sector bio.sectors bio.data (bio.sectors - outcome.remaining)
  | _ => fun moment => moment = contents

/-- Without a reset in between, what was remembered still is, if these moments may
be, too. -/
structure Spans (before after : Machine) (moments : (Nat → UInt8) → Prop) : Prop where
  more : before.lsm.gcResets ≤ after.lsm.gcResets
  last : moments (disk after)
  keeps : after.lsm.gcResets = before.lsm.gcResets →
    ∀ base past, (∀ moment, moments moment → past moment) → Remembers before base past → Remembers after base past

theorem Passes.spans {before after : Machine} {moments : (Nat → UInt8) → Prop} (passes : Passes before after)
    (old : moments (disk before)) (new : moments (disk after)) : Spans before after moments :=
  ⟨passes.1, new, fun same base past more => passes.2 same base past (more _ old) (more _ new)⟩

theorem Spans.trans {first second third : Machine} {moments : (Nat → UInt8) → Prop} (earlier : Spans first second moments)
    (later : Spans second third moments) : Spans first third moments := by
  refine ⟨earlier.more.trans later.more, later.last, fun same base past more remembers => ?_⟩
  have order := earlier.more
  have order' := later.more
  exact later.keeps (by omega) base past more (earlier.keeps (by omega) base past more remembers)

theorem Spans.mono {before after : Machine} {moments moments' : (Nat → UInt8) → Prop} (spans : Spans before after moments)
    (all : ∀ moment, moments moment → moments' moment) : Spans before after moments' :=
  ⟨spans.more, all _ spans.last, fun same base past more => spans.keeps same base past fun moment held => more moment (all moment held)⟩

theorem Cuts.none {contents data : Nat → UInt8} {sector sectors stop : Nat} : Cuts contents sector sectors data stop contents :=
  ⟨0, Nat.zero_le _, Or.inl rfl, by rw [Nat.zero_mul, overlay_zero]⟩

/-- A cut after the first part of a write. -/
theorem Cuts.further {contents data moment : Nat → UInt8} {sector sectors first stop : Nat} (short : first ≤ sectors)
    (ends : first = sectors ∨ (sector + first) % blockSectors = 0)
    (cuts : Cuts (overlay contents (sector * sectorBytes) (first * sectorBytes) data) (sector + first) (sectors - first)
      (fun index => data (first * sectorBytes + index)) stop moment) :
    Cuts contents sector sectors data (first + stop) moment := by
  obtain ⟨done, within, place, same⟩ := cuts
  refine ⟨first + done, by omega, ?_, ?_⟩
  · rcases place with rfl | rfl | aligned
    · exact Or.inr ends
    · exact Or.inr (Or.inl (by omega))
    · exact Or.inr (Or.inr (by rw [← Nat.add_assoc]; exact aligned))
  · rw [same, Nat.add_mul, overlay_append, ← Nat.add_mul]

section Requests
variable [Kernel] {log : Extent} {limit : Nat} {contents : Nat → UInt8} {machine : Machine}

theorem Reflects.same_passes {after : Machine} (reflects : Reflects machine log limit contents) (same : Same machine after) :
    Passes machine after :=
  reflects.serving.coherent.alike_passes trivial ⟨by rw [same.1], same.2⟩ (by rw [same.1])

theorem append_passes (params : Params) {sector : Nat} (bytes : Nat → UInt8) (reflects : Reflects machine log limit contents)
    (aligned : sector % blockSectors = 0) (inside : sector < limit) :
    Effect.Ensures (appendWrite params sector bytes) machine (fun _ after => Passes machine after) :=
  appendWrite_passes params trivial bytes reflects.serving.coherent reflects.serving.ready aligned inside

theorem writeFragment_passes (params : Params) {sector remaining bioOffset : Nat} {bio : Bio} (buffer : Nat → UInt8)
    (reflects : Reflects machine log limit contents) (inside : sector < limit) (more : remaining ≠ 0) :
    Effect.Ensures (writeFragment params sector remaining bioOffset bio buffer) machine (fun _ after => Passes machine after) := by
  obtain ⟨_, _, _, _, aligned⟩ := fragment_bounds sector more
  unfold writeFragment
  dsimp only
  have rest {start : Machine} (reflects : Reflects start log limit contents) (passes : Passes machine start)
      (unchanged : disk start = disk machine) (buffer : Nat → UInt8) :
      Effect.Ensures (appendMerged params (fragmentOffset sector) (fragmentSectors sector remaining)
        (sector - fragmentOffset sector) bioOffset bio buffer) start (fun _ after => Passes machine after) := by
    unfold appendMerged
    split
    · exact passes
    · refine Effect.Ensures.bind (append_passes params _ reflects aligned (by omega)) (fun _ after later => ?_) fun _ _ later => ?_
      · exact passes.trans later (Or.inl unchanged)
      · exact passes.trans later (Or.inl unchanged)
  have here : Passes machine machine := .of_retains rfl (.of_same rfl rfl) rfl
  split
  · refine Effect.Ensures.bind (fetchBlock_same _ machine) (fun fetched after same => ?_) fun _ _ same => reflects.same_passes same
    have kept := reflects.same same
    exact rest kept (reflects.same_passes same) (kept.disk.trans reflects.disk.symm) fetched
  · exact rest reflects here rfl buffer

/-- The loop of `zns_lsm_write_partial` goes through one cut after the other. -/
theorem writeFragments_spans (params : Params) (rounds : Nat) {sector remaining bioOffset : Nat} {bio : Bio}
    {buffer : Nat → UInt8} (reflects : Reflects machine log limit contents) (enough : remaining ≤ rounds)
    (inside : sector + remaining ≤ limit) (room : bioOffset + remaining * sectorBytes ≤ bio.size) :
    Spans machine (writeFragments params rounds sector remaining bioOffset bio buffer machine).2
      (Cuts contents sector remaining (fun index => bio.data (bioOffset + index))
        (remaining - (writeFragments params rounds sector remaining bioOffset bio buffer machine).1.remaining)) := by
  have here : Passes machine machine := .of_retains rfl (.of_same rfl rfl) rfl
  induction rounds generalizing sector remaining bioOffset buffer machine contents with
  | zero => exact here.spans (reflects.disk ▸ Cuts.none) (reflects.disk ▸ Cuts.none)
  | succ rounds ih =>
    rw [writeFragments]
    split
    · exact here.spans (reflects.disk ▸ Cuts.none) (reflects.disk ▸ Cuts.none)
    next more =>
      have step := writeFragment_spec params buffer reflects (show sector < limit by omega) more room
      have passes := @writeFragment_passes _ _ _ _ _ params sector remaining bioOffset bio buffer reflects (by omega) more
      unfold Effect.Ensures at step passes
      split
      next error after ran =>
        rw [ran] at step passes
        have same : disk after = contents := (step.2 error rfl).disk
        exact passes.spans (reflects.disk ▸ Cuts.none) (same ▸ Cuts.none)
      next merged after ran =>
        rw [ran] at step passes
        have reflects' := step.1 merged rfl
        obtain ⟨some_, short, _⟩ := fragment_bounds sector more
        have ends : fragmentSectors sector remaining = remaining ∨
            (sector + fragmentSectors sector remaining) % blockSectors = 0 := by
          simp only [fragmentSectors, fragmentOffset, blockSectors]
          omega
        dsimp only
        generalize fragmentSectors sector remaining = sectors at some_ short ends reflects'
        have split_ : remaining * sectorBytes = sectors * sectorBytes + (remaining - sectors) * sectorBytes := by
          rw [← Nat.add_mul, Nat.add_sub_cancel' short]
        have later := @ih _ after (sector + sectors) (remaining - sectors) (bioOffset + sectors * sectorBytes)
          merged reflects' (by omega) (by omega) (by omega) (.of_retains rfl (.of_same rfl rfl) rfl)
        have bounded := (@writeFragments_spec _ _ _ _ params rounds (sector + sectors) (remaining - sectors)
          (bioOffset + sectors * sectorBytes) bio merged after reflects' (by omega) (by omega) (by omega)).bounded
        generalize writeFragments params rounds (sector + sectors) (remaining - sectors) (bioOffset + sectors * sectorBytes)
          bio merged after = final at later bounded ⊢
        have count : sectors + (remaining - sectors - final.1.remaining) = remaining - final.1.remaining := by omega
        refine (passes.spans (reflects.disk ▸ Cuts.none) ⟨sectors, by omega, Or.inr ends, reflects'.disk⟩).trans
          (later.mono fun moment cuts => ?_)
        rw [← count]
        exact Cuts.further short ends (by simpa only [Nat.add_assoc] using cuts)

/-- The write half of the I/O worker. -/
theorem ioWrite_spans (params : Params) {bio : Bio} (reflects : Reflects machine log limit contents)
    (positive : 0 < bio.sectors) (inside : bio.sector + bio.sectors ≤ limit) :
    Spans machine (ioWrite params bio machine).2
      (Cuts contents bio.sector bio.sectors bio.data (bio.sectors - (ioWrite params bio machine).1.remaining)) := by
  have here : Passes machine machine := .of_retains rfl (.of_same rfl rfl) rfl
  have still {after : Machine} {stop : Nat} (same : Same machine after) :
      Spans machine after (Cuts contents bio.sector bio.sectors bio.data stop) :=
    (reflects.same_passes same).spans (reflects.disk ▸ Cuts.none) ((reflects.same same).disk ▸ Cuts.none)
  have allocated := allocate_same machine
  unfold Effect.Ensures at allocated
  unfold ioWrite
  split
  · unfold writePartial
    split
    · exact still (.refl machine)
    · split
      next ran =>
        rw [ran] at allocated
        exact still allocated
      next after ran =>
        rw [ran] at allocated
        have room : 0 + bio.sectors * sectorBytes ≤ bio.size := by
          rw [Nat.zero_add]
          exact Nat.div_mul_le_self _ _
        have spans := @writeFragments_spans _ _ _ _ _ params bio.sectors bio.sector bio.sectors 0 bio (fun _ => 0)
          (reflects.same allocated) (Nat.le_refl _) inside room
        simp only [Nat.zero_add] at spans
        exact (still allocated).trans spans
  next aligned =>
    simp only [isAlignedIo, Bool.not_eq_false, decide_eq_true_eq] at aligned
    split
    next ran =>
      rw [ran] at allocated
      exact still allocated
    next after ran =>
      rw [ran] at allocated
      have reflects' := reflects.same allocated
      have appended := append_reflects params bio.data reflects' aligned.2 (by omega)
      have passes := append_passes params bio.data reflects' aligned.2 (by omega)
      unfold Effect.Ensures at appended passes
      split
      next error final ran =>
        rw [ran] at appended passes
        exact (still allocated).trans
          (passes.spans (reflects'.disk ▸ Cuts.none) ((appended.2 error rfl).disk ▸ Cuts.none))
      next final ran =>
        rw [ran] at appended passes
        refine (still allocated).trans (passes.spans (reflects'.disk ▸ Cuts.none) ⟨bio.sectors, Nat.le_refl _, Or.inr (Or.inl rfl), ?_⟩)
        rw [(appended.1 rfl).disk, aligned.1]
        rfl

/-- `zns_engine_map`. -/
theorem engineMap_spans (params : Params) (bio : Bio) (reflects : Reflects machine log limit contents) :
    Spans machine (engineMap params bio machine).2 (moments contents bio (engineMap params bio machine).1) := by
  have here : Passes machine machine := .of_retains rfl (.of_same rfl rfl) rfl
  have still {after : Machine} (same : Same machine after) : Spans machine after fun moment => moment = contents :=
    (reflects.same_passes same).spans reflects.disk (reflects.same same).disk
  have queued (ranged : bio.op = .read ∨ bio.op = .write → InRange machine.lsm bio) :
      Spans machine (queueIo params bio machine).2 (moments contents bio (queueIo params bio machine).1) := by
    have allocated := allocate_same machine
    unfold Effect.Ensures at allocated
    unfold queueIo
    split
    next ran =>
      rw [ran] at allocated
      exact still allocated
    next after ran =>
      rw [ran] at allocated
      have reflects' := reflects.same allocated
      unfold ioWorker
      split
      next =>
        have same := ioRead_same bio after
        unfold Effect.Ensures at same
        exact still (allocated.trans same)
      next writes =>
        obtain ⟨some_, whole, low, fits⟩ := ranged (Or.inr writes)
        have positive : 0 < bio.sectors := by
          simp only [Bio.sectors, sectorBytes] at whole ⊢
          omega
        have bound := reflects.serving.coherent.logicalSectors
        have spans := ioWrite_spans params reflects' positive (show bio.sector + bio.sectors ≤ limit by omega)
        exact ((reflects.same_passes allocated).spans (reflects.disk ▸ Cuts.none) (reflects'.disk ▸ Cuts.none)).trans spans
      next =>
        have same := ioFlush_same after
        unfold Effect.Ensures at same
        exact still (allocated.trans same)
      next => exact still allocated
  unfold engineMap
  split
  next flushes =>
    refine queued fun ranged => ?_
    rw [flushes] at ranged
    rcases ranged with same | same <;> cases same
  next =>
    split
    next ranged => exact queued fun _ => ranged
    next => exact still (.refl machine)
  next =>
    split
    next ranged => exact queued fun _ => ranged
    next => exact still (.refl machine)
  next => exact still (.refl machine)

end Requests

/-- Failed log writes leave nothing behind, and no failure looks like an empty table
or like the end of the log. -/
structure Plain (oracle : Oracle) : Prop where
  dry : ¬ oracle.Spills .metadata
  distinct : oracle.Distinct
  ended : ¬ oracle.Reports .metadata .einval

theorem Plain.later {before after : Oracle} (plain : Plain before) (later : before.Later after) : Plain after :=
  ⟨fun spills => plain.dry (spills.later later), plain.distinct.later later, fun reports => plain.ended (reports.later later)⟩

theorem Plain.of_healthy {oracle : Oracle} (healthy : oracle.Healthy) : Plain oracle :=
  ⟨Healthy.dry healthy _, healthy.distinct, healthy.requests _ _⟩

/-- A target in use: requests, and between them the steps of the flush worker, on a
device that may fail; starts after a crash between two tables. With it go the count
of zone resets and the contents since everything was last in the log. -/
inductive InUse [Kernel] (limit : Nat) : Machine → Nat → ((Nat → UInt8) → Prop) → Prop
  | format {params : Params} {uuid physicalSectors sectorsPerBlock : Nat} {world after : World} {lsm : Lsm}
      (plain : Plain world.oracle) (unformatted : Unformatted world) (whole : WholeBlocks world) (unwritten : world.submitted = [])
      (ran : engineInit params uuid limit physicalSectors sectorsPerBlock world = (.ok lsm, after)) :
      InUse limit ⟨lsm, after⟩ lsm.gcResets fun moment => moment = disk ⟨lsm, after⟩
  | request {machine : Machine} {resets : Nat} {past : (Nat → UInt8) → Prop} (inUse : InUse limit machine resets past)
      (params : Params) (bio : Bio) : InUse limit (engineMap params bio machine).2 resets
        fun moment => past moment ∨ moments (disk machine) bio (engineMap params bio machine).1 moment
  | claim {machine : Machine} {resets : Nat} {past : (Nat → UInt8) → Prop} (inUse : InUse limit machine resets past) :
      InUse limit { machine with lsm := machine.lsm.claimFlushVictim } resets past
  | attempt {machine : Machine} {resets : Nat} {past : (Nat → UInt8) → Prop} (inUse : InUse limit machine resets past)
      {victim : Memtable} (slot : machine.lsm.flushing = some victim)
      (unburned : (flushVictim victim machine).2.lsm.metaWp = machine.lsm.metaWp ∨
        (flushVictim victim machine).2.lsm.nrSstables = machine.lsm.nrSstables + 1) :
      InUse limit (flushVictim victim machine).2 resets past
  | flags {machine : Machine} {resets : Nat} {past : (Nat → UInt8) → Prop} (inUse : InUse limit machine resets past)
      (flushInFlight flushPending : Bool) :
      InUse limit { machine with lsm := { machine.lsm with flushInFlight, flushPending } } resets past
  | persisted {machine : Machine} {resets : Nat} {past : (Nat → UInt8) → Prop} (inUse : InUse limit machine resets past)
      (saved : ∀ table ∈ machine.lsm.residents, table.pairs = []) :
      InUse limit machine machine.lsm.gcResets fun moment => moment = disk machine
  | restart {machine : Machine} {resets : Nat} {past : (Nat → UInt8) → Prop} (inUse : InUse limit machine resets past)
      {generations : List (Option Memtable)}
      (part : generations <+: [machine.lsm.flushing, machine.lsm.tables.immutable, some machine.lsm.tables.active])
      (between : (flushGenerations generations machine).1 = .ok ()) {oracle : Oracle} (plain : Plain oracle)
      (whole : WholeBlocks (flushGenerations generations machine).2.world)
      {params : Params} {uuid physicalSectors sectorsPerBlock : Nat} {after : World} {lsm : Lsm}
      (ran : engineInit params uuid limit physicalSectors sectorsPerBlock { (flushGenerations generations machine).2.world with oracle } =
        (.ok lsm, after)) : InUse limit ⟨lsm, after⟩ lsm.gcResets fun moment => moment = disk ⟨lsm, after⟩

/-- What holds of a target in use. -/
structure Recoverable [Kernel] (machine : Machine) (log : Extent) (limit resets : Nat) (past : (Nat → UInt8) → Prop) : Prop where
  serving : Serving machine log limit True
  plain : Plain machine.world.oracle
  recorded : ∃ tables, Recorded machine log limit True False tables
  now : past (disk machine)
  more : resets ≤ machine.lsm.gcResets
  remembers : machine.lsm.gcResets = resets → ∃ base ≤ machine.lsm.sstables.length, Remembers machine base past

section Use
variable [Kernel] {log : Extent} {limit resets : Nat} {past : (Nat → UInt8) → Prop} {machine : Machine}

/-- With nothing left in memory the log shows the target. -/
theorem Coherent.persisted (coherent : Coherent machine log limit True) (saved : ∀ table ∈ machine.lsm.residents, table.pairs = []) :
    Remembers machine machine.lsm.sstables.length fun moment => moment = disk machine := by
  have shows_ := coherent.shows trivial
  have layered : frozen machine = (machine.lsm.tables.immutable.toList ++ machine.lsm.flushing.toList).map Memtable.pairs ++
      machine.lsm.sstables.map (Sstable.entries machine.world.media) := by
    rw [frozen, olderLayers, List.map_append, List.append_assoc]
  have older : Layers.Shows machine.lsm.Sealed (blockAt machine.world) (fun _ => 0)
      (machine.lsm.sstables.map (Sstable.entries machine.world.media)) (blocksOf (disk machine)) := by
    refine shows_.congr fun key => ?_
    have none_ : Layers.resolve (machine.lsm.residents.map Memtable.pairs) key = none := by
      rw [Layers.resolve, List.findSome?_eq_none_iff]
      intro layer member
      obtain ⟨table, resident, rfl⟩ := List.mem_map.mp member
      rw [saved table resident, List.lookup_nil]
    rw [layers, Layers.resolve_append, none_, Option.none_or]
  have empty : ∀ layer ∈ (machine.lsm.tables.immutable.toList ++ machine.lsm.flushing.toList).map Memtable.pairs, layer = [] := by
    intro layer member
    obtain ⟨table, resident, rfl⟩ := List.mem_map.mp member
    refine saved table ?_
    rcases List.mem_append.mp resident with held | held
    · simp only [residents, Generations.tables]
      exact List.mem_append_left _ (List.mem_cons_of_mem _ held)
    · exact List.mem_append_right _ held
  rw [Remembers, layered, ← List.length_map (Sstable.entries machine.world.media)]
  exact .start empty (flat_blocksOf _) older

theorem Recoverable.reflects (recoverable : Recoverable machine log limit resets past) :
    Reflects machine log limit (disk machine) :=
  ⟨recoverable.serving, recoverable.plain.distinct, rfl⟩

theorem Recoverable.narrow (recoverable : Recoverable machine log limit resets past) : limit < 2 ^ 64 :=
  recoverable.serving.coherent.narrow

/-- A request adds what it goes through. -/
theorem Recoverable.request (recoverable : Recoverable machine log limit resets past) (params : Params) (bio : Bio) :
    Recoverable (engineMap params bio machine).2 log limit resets
      fun moment => past moment ∨ moments (disk machine) bio (engineMap params bio machine).1 moment := by
  obtain ⟨tables, recorded⟩ := recoverable.recorded
  have reflects := (handle_reflects params recoverable.reflects (.bio bio)).2
  have spans := engineMap_spans params bio recoverable.reflects
  have state := (recorded.request params bio).1.of.state
  have sstables : (engineMap params bio machine).2.lsm.sstables = machine.lsm.sstables := congrArg LogState.sstables state
  have step : Step params machine (engineMap params bio machine).2 := .request bio
  refine ⟨reflects.serving, recoverable.plain.later (recorded.later step),
    recorded.step recoverable.narrow step (Or.inl (congrArg LogState.metaWp state)), Or.inr spans.last,
    recoverable.more.trans spans.more, fun same => ?_⟩
  have order := recoverable.more
  have order' := spans.more
  obtain ⟨base, listed, remembers⟩ := recoverable.remembers (by omega)
  refine ⟨base, by rw [sstables]; exact listed, spans.keeps (by omega) base _ (fun moment held => Or.inr held) ?_⟩
  exact Layers.Chronicle.mono remembers fun moment held => Or.inl held

/-- The flush worker adds nothing. -/
theorem Recoverable.flushed (recoverable : Recoverable machine log limit resets past) {after : Machine}
    (flushed : Flushed machine after log limit True) (passes : Passes machine after)
    (recorded : ∃ tables, Recorded after log limit True False tables)
    (listed : machine.lsm.sstables.length ≤ after.lsm.sstables.length) : Recoverable after log limit resets past := by
  have coherent := recoverable.serving.coherent
  have still := flushed.disk coherent trivial
  refine ⟨⟨flushed.coherent, fun running => flushed.ready (recoverable.serving.ready ?_), ?_⟩,
    recoverable.plain.later flushed.flushes.later, recorded, still ▸ recoverable.now, recoverable.more.trans passes.1, fun same => ?_⟩
  · rw [← flushed.flushes.writesStopped]
    exact running
  · rw [flushed.flushes.gcIndexFailures]
    exact recoverable.serving.gcIndexFailures
  · have order := recoverable.more
    have order' := passes.1
    obtain ⟨base, inside, remembers⟩ := recoverable.remembers (by omega)
    exact ⟨base, inside.trans listed, passes.2 (by omega) base past recoverable.now (still ▸ recoverable.now) remembers⟩

theorem Recoverable.claim (recoverable : Recoverable machine log limit resets past) :
    Recoverable { machine with lsm := machine.lsm.claimFlushVictim } log limit resets past := by
  obtain ⟨tables, recorded⟩ := recoverable.recorded
  have same : machine.lsm.claimFlushVictim.sstables = machine.lsm.sstables ∧
      machine.lsm.claimFlushVictim.metaWp = machine.lsm.metaWp := by
    unfold claimFlushVictim
    split <;> exact ⟨rfl, rfl⟩
  have step : Step plainParams machine { machine with lsm := machine.lsm.claimFlushVictim } := .claim
  exact recoverable.flushed (claimFlushVictim_flushed recoverable.serving.coherent) (claimFlushVictim_passes machine)
    (recorded.step recoverable.narrow step (Or.inl same.2)) (by rw [same.1])

theorem Recoverable.attempt (recoverable : Recoverable machine log limit resets past) {victim : Memtable}
    (slot : machine.lsm.flushing = some victim)
    (unburned : (flushVictim victim machine).2.lsm.metaWp = machine.lsm.metaWp ∨
      (flushVictim victim machine).2.lsm.nrSstables = machine.lsm.nrSstables + 1) :
    Recoverable (flushVictim victim machine).2 log limit resets past := by
  obtain ⟨tables, recorded⟩ := recoverable.recorded
  have coherent := recoverable.serving.coherent
  have step : Step plainParams machine (flushVictim victim machine).2 := .attempt slot
  refine recoverable.flushed (flushVictim_flushed coherent slot fun _ => recoverable.plain.distinct)
    (flushVictim_passes coherent trivial recoverable.plain.distinct slot) (recorded.step recoverable.narrow step unburned) ?_
  obtain ⟨_, ⟨_, _, state⟩ | ⟨sst, _, state⟩⟩ := flushVictim_log victim machine
  · exact (congrArg (fun state => state.sstables.length) state).ge
  · rw [show (flushVictim victim machine).2.lsm.sstables = sst :: machine.lsm.sstables from congrArg LogState.sstables state,
      List.length_cons]
    exact Nat.le_succ _

theorem Recoverable.flags (recoverable : Recoverable machine log limit resets past) (flushInFlight flushPending : Bool) :
    Recoverable { machine with lsm := { machine.lsm with flushInFlight, flushPending } } log limit resets past := by
  obtain ⟨tables, recorded⟩ := recoverable.recorded
  have coherent := recoverable.serving.coherent
  have alike : Alike machine { machine with lsm := { machine.lsm with flushInFlight, flushPending } } := ⟨rfl, .refl _⟩
  obtain ⟨moved, mapping⟩ := coherent.alike alike
  have flushes : Flushes machine { machine with lsm := { machine.lsm with flushInFlight, flushPending } } log :=
    ⟨rfl, rfl, rfl, rfl, Nat.le_refl _, rfl, rfl, rfl, rfl, rfl, rfl, rfl, fun _ member => member,
      (World.SameDevice.refl _).appended _ _ _, rfl, .refl _⟩
  have step : Step plainParams machine { machine with lsm := { machine.lsm with flushInFlight, flushPending } } :=
    .flags flushInFlight flushPending
  exact recoverable.flushed ⟨flushes, moved, mapping⟩ (coherent.alike_passes trivial alike rfl)
    (recorded.step recoverable.narrow step (Or.inl rfl)) (Nat.le_refl _)

theorem Recoverable.persisted (recoverable : Recoverable machine log limit resets past)
    (saved : ∀ table ∈ machine.lsm.residents, table.pairs = []) :
    Recoverable machine log limit machine.lsm.gcResets fun moment => moment = disk machine :=
  ⟨recoverable.serving, recoverable.plain, recoverable.recorded, rfl, Nat.le_refl _,
    fun _ => ⟨_, Nat.le_refl _, recoverable.serving.coherent.persisted saved⟩⟩

theorem Recoverable.start {params : Params} {uuid : Nat} {world : World} {data : List Extent} {opened : Machine}
    {tables : List (Memtable × Nat)} (split : world.geometry.zones = data ++ [log])
    (opening : Opened params limit uuid world opened.world data log opened.lsm) (started : Started opened machine)
    (narrow : limit < 2 ^ 64) (plain : Plain world.oracle) (whole : WholeBlocks world) (orderly : Orderly world)
    (logOf : LogOf world data log tables) :
    Recoverable machine log limit machine.lsm.gcResets fun moment => moment = disk machine := by
  have recorded : Recorded machine log limit (¬ world.oracle.Reports .metadata .einval) False tables :=
    logOf.recorded split opening started plain.dry orderly narrow False.elim
  obtain ⟨_, gcIndexFailures, _⟩ := started.settings opening
  obtain ⟨middle, quiet, logged⟩ := opening.opening
  have coherent : Coherent machine log limit True := started.coherent split opening narrow whole fun _ => recorded.genuine
  refine ⟨⟨coherent, fun _ => started.ready split opening, gcIndexFailures⟩,
    plain.later ((logged.later.trans quiet.later).trans started.device.later),
    ⟨tables, { recorded with complete := fun _ => recorded.complete plain.ended }⟩, rfl, Nat.le_refl _,
    fun _ => ⟨_, Nat.le_refl _, coherent.persisted ?_⟩⟩
  intro table resident
  rw [started.residents opening, List.mem_singleton] at resident
  rw [resident, Memtable.pairs_init]

theorem Recoverable.restart (recoverable : Recoverable machine log limit resets past) {generations : List (Option Memtable)}
    (part : generations <+: [machine.lsm.flushing, machine.lsm.tables.immutable, some machine.lsm.tables.active])
    (between : (flushGenerations generations machine).1 = .ok ()) {oracle : Oracle} (plain : Plain oracle)
    (whole : WholeBlocks (flushGenerations generations machine).2.world) {params : Params}
    {uuid physicalSectors sectorsPerBlock : Nat} {after : World} {lsm : Lsm}
    (ran : engineInit params uuid limit physicalSectors sectorsPerBlock { (flushGenerations generations machine).2.world with oracle } =
      (.ok lsm, after)) :
    Recoverable ⟨lsm, after⟩ log limit lsm.gcResets fun moment => moment = disk ⟨lsm, after⟩ := by
  obtain ⟨before, recorded⟩ := recoverable.recorded
  obtain ⟨written, rest, detaches⟩ := recorded.detaches recoverable.narrow recoverable.plain.distinct
    fun table member => mem_residents table (part.subset member)
  have split := detaches.split recoverable.serving.coherent.attached oracle
  obtain ⟨opened, opening, started⟩ := engineInit_ok split ran
  have held := detaches.held (Or.inl between)
  have ends := held.ends
  rw [flushGenerations_allocator, ← held.last, ← List.length_map Zone.extent] at ends
  exact Recoverable.start split opening started recoverable.narrow plain whole
    (recorded.settled.1.orderly.of_same detaches.appended.geometry detaches.dataWrites) (Or.inr ⟨held.tiled, ends, held.numbered⟩)

theorem InUse.recoverable (inUse : InUse limit machine resets past) (narrow : limit < 2 ^ 64) :
    ∃ log, Recoverable machine log limit resets past := by
  induction inUse with
  | @format params uuid physicalSectors sectorsPerBlock world after lsm plain unformatted whole unwritten ran =>
    obtain ⟨data, log, split, empty⟩ := unformatted
    obtain ⟨opened, opening, started⟩ := engineInit_ok split ran
    have orderly : Orderly world := by
      intro write member
      simp [World.dataWrites, unwritten] at member
    exact ⟨log, Recoverable.start split opening started narrow plain whole orderly (Or.inl ⟨empty, rfl⟩)⟩
  | request _ params bio ih =>
    obtain ⟨log, recoverable⟩ := ih
    exact ⟨log, recoverable.request params bio⟩
  | claim _ ih =>
    obtain ⟨log, recoverable⟩ := ih
    exact ⟨log, recoverable.claim⟩
  | attempt _ slot unburned ih =>
    obtain ⟨log, recoverable⟩ := ih
    exact ⟨log, recoverable.attempt slot unburned⟩
  | flags _ flushInFlight flushPending ih =>
    obtain ⟨log, recoverable⟩ := ih
    exact ⟨log, recoverable.flags flushInFlight flushPending⟩
  | persisted _ saved ih =>
    obtain ⟨log, recoverable⟩ := ih
    exact ⟨log, recoverable.persisted saved⟩
  | restart _ part between plain whole ran ih =>
    obtain ⟨log, recoverable⟩ := ih
    exact ⟨log, recoverable.restart part between plain whole ran⟩

omit [Kernel] in
/-- What was written of some generations is what some of them hold. -/
theorem filledTables_part {generations : List (Option Memtable)} {written rest : List Memtable}
    (parts : filledTables generations = written ++ rest) : ∃ fewer, fewer <+: generations ∧ filledTables fewer = written := by
  rw [filledTables, List.filter_eq_append_iff] at parts
  obtain ⟨tables, others, same, filled, _⟩ := parts
  rw [List.filterMap_eq_append_iff] at same
  obtain ⟨fewer, more, rfl, rfl, _⟩ := same
  exact ⟨fewer, List.prefix_append _ _, filled⟩

omit [Kernel] in
/-- The generations a crash let through, over the log: the older layers of the engine. -/
theorem layers_suffix {fewer : List (Option Memtable)}
    (part : fewer <+: [machine.lsm.flushing, machine.lsm.tables.immutable, some machine.lsm.tables.active]) :
    (fewer.filterMap id).reverse.map Memtable.pairs ++ machine.lsm.sstables.map (Sstable.entries machine.world.media) <:+
      layers machine := by
  have residents : machine.lsm.residents =
      ([machine.lsm.flushing, machine.lsm.tables.immutable, some machine.lsm.tables.active].filterMap id).reverse := by
    simp only [residents, Generations.tables]
    cases machine.lsm.flushing <;> cases machine.lsm.tables.immutable <;> rfl
  obtain ⟨more, whole⟩ := part
  rw [layers, residents, ← whole, List.filterMap_append, List.reverse_append, List.map_append, List.append_assoc]
  exact List.suffix_append _ _

/-- They show a moment since everything was last in the log. -/
theorem Recoverable.shows (recoverable : Recoverable machine log limit resets past) (unreset : machine.lsm.gcResets = resets)
    {fewer : List (Option Memtable)}
    (part : fewer <+: [machine.lsm.flushing, machine.lsm.tables.immutable, some machine.lsm.tables.active]) :
    ∃ moment, past (flat moment) ∧ Layers.Shows machine.lsm.Sealed (blockAt machine.world) (fun _ => 0)
      ((fewer.filterMap id).reverse.map Memtable.pairs ++ machine.lsm.sstables.map (Sstable.entries machine.world.media)) moment := by
  obtain ⟨base, listed, remembers⟩ := recoverable.remembers unreset
  have now : past (flat (blocksOf (disk machine))) := by
    rw [flat_blocksOf]
    exact recoverable.now
  have shows_ := recoverable.serving.coherent.shows trivial
  rw [layers_eq] at shows_
  refine Layers.Chronicle.push remembers (List.suffix_refl _) now shows_ _ (layers_eq machine ▸ layers_suffix part) ?_
  rw [List.length_append, List.length_map, List.length_map]
  exact listed.trans (Nat.le_add_left _ _)

section Crash
variable {before : List (Memtable × Nat)} {written rest : List Memtable} {generations : List (Option Memtable)}
  (recoverable : Recoverable machine log limit resets past) (recorded : Recorded machine log limit True False before)
  (detaches : Detaches generations machine log limit False before written rest)
  (part : generations <+: [machine.lsm.flushing, machine.lsm.tables.immutable, some machine.lsm.tables.active])
include recoverable recorded detaches part

/-- So does the log a crash leaves. -/
theorem Recoverable.logged (unreset : machine.lsm.gcResets = resets) :
    ∃ moment, past (flat moment) ∧ Layers.Shows machine.lsm.Sealed (blockAt machine.world) (fun _ => 0)
      ((before ++ written.zipIdx machine.lsm.nextSstSeq).reverse.map fun entry => entry.1.pairs) moment := by
  obtain ⟨fewer, prefix_, filled⟩ := filledTables_part detaches.parts
  obtain ⟨moment, held, shows_⟩ := recoverable.shows unreset (prefix_.trans part)
  refine ⟨moment, held, shows_.congr fun key => ?_⟩
  rw [numbered_pairs, recorded.entries trivial, ← filled, resolve_filledTables]

/-- Every pair of that log is inside the target. -/
theorem Recoverable.logged_inside :
    ∀ entry ∈ before ++ written.zipIdx machine.lsm.nextSstSeq, entry.1.Within (limit / blockSectors) := by
  have coherent := recoverable.serving.coherent
  intro entry member
  rcases List.mem_append.mp member with old | new
  · have listed : entry.1.pairs ∈ machine.lsm.sstables.map (Sstable.entries machine.world.media) := by
      rw [recorded.entries trivial]
      exact List.mem_map_of_mem (List.mem_reverse.mpr old)
    obtain ⟨sst, held, same⟩ := List.mem_map.mp listed
    obtain ⟨⟨memtable, stored, within⟩, _⟩ := coherent.stored trivial sst held
    rw [Memtable.within_iff] at within ⊢
    rw [← same, stored.entries_eq]
    exact within
  · have saved : entry.1 ∈ filledTables generations := by
      rw [detaches.parts]
      refine List.mem_append_left _ ?_
      rw [← List.zipIdx_map_fst machine.lsm.nextSstSeq written]
      exact List.mem_map_of_mem new
    rw [filledTables, List.mem_filter, List.mem_filterMap] at saved
    obtain ⟨⟨_, generation, rfl⟩, _⟩ := saved
    have bounded := coherent.bounded entry.1 (mem_residents _ (part.subset generation))
    rw [logicalBlocks, coherent.logicalSectors] at bounded
    exact bounded

variable (oracle : Oracle) {params : Params} {uuid : Nat} {opened : Machine}
  (opening : Opened params limit uuid { (flushGenerations generations machine).2.world with oracle } opened.world
    (machine.lsm.allocator.zones.map Zone.extent) log opened.lsm)
include opening

/-- A start on it shows the moment. -/
theorem Recoverable.comes_back (unreset : machine.lsm.gcResets = resets) {lsm : Lsm} {after : World}
    (started : Started opened ⟨lsm, after⟩) (sstables : lsm.sstables =
      (logTables (log.start + blockSectors) (before ++ written.zipIdx machine.lsm.nextSstSeq)).reverse) : past (disk ⟨lsm, after⟩) := by
  obtain ⟨moment, held, shows_⟩ := recoverable.logged recorded detaches part unreset
  have media : after.media = (flushGenerations generations machine).2.world.media := by
    obtain ⟨_, _, _, quiet⟩ := (detaches.found oracle).reopened opening
    exact (quiet.trans started.device).media
  suffices same : disk ⟨lsm, after⟩ = flat moment by
    rw [same]
    exact held
  funext address
  have view := congrFun (shows_.view (address / blockBytes)) ⟨address % blockBytes, Nat.mod_lt _ (by decide)⟩
  rw [Layers.view, ← detaches.recalls oracle opening started sstables] at view
  rw [flat, ← view, disk]
  cases found : mapping ⟨lsm, after⟩ (address / blockBytes) with
  | none => rfl
  | some sector =>
    rw [detaches.recalls oracle opening started sstables] at found
    have below := recoverable.serving.coherent.sealed_below (shows_.seals _ sector found) (Nat.mod_lt address (by decide : 0 < blockBytes))
    change after.media (sector * sectorBytes + address % blockBytes) = machine.world.media (sector * sectorBytes + address % blockBytes)
    rw [media]
    exact detaches.appended.media _ (Or.inl (below.trans_le (Nat.mul_le_mul_right _ recoverable.serving.coherent.logStart)))

/-- The indexes can be rebuilt from it. -/
theorem Recoverable.restorable (unreset : machine.lsm.gcResets = resets) (ready : Ready machine) {recovered : Machine}
    (adopts : Adopts opened recovered) (sstables : recovered.lsm.sstables =
      (logTables (log.start + blockSectors) (before ++ written.zipIdx machine.lsm.nextSstSeq)).reverse)
    (tiled : Tiled recovered.world.media (log.start + blockSectors) (before ++ written.zipIdx machine.lsm.nextSstSeq)) :
    Restorable recovered.lsm (recovered.lsm.sstables.map (Sstable.entries recovered.world.media)).flatten := by
  have coherent := recoverable.serving.coherent
  obtain ⟨moment, _, shows_⟩ := recoverable.logged recorded detaches part unreset
  have layers : recovered.lsm.sstables.map (Sstable.entries recovered.world.media) =
      (before ++ written.zipIdx machine.lsm.nextSstSeq).reverse.map fun entry => entry.1.pairs := by
    rw [sstables, List.map_reverse, tiled_entries tiled, List.map_reverse]
  have zones : recovered.lsm.allocator.zones =
      ({ (flushGenerations generations machine).2.world with oracle } : World).zoneTable.dropLast := by
    rw [adopts.engine]
    dsimp only
    rw [opening.allocator]
  have logical : recovered.lsm.logicalBlocks = limit / blockSectors := by
    obtain ⟨_, _, opens⟩ := opening.opening
    rw [adopts.engine]
    exact congrArg (· / blockSectors) opens.bounds.2.2.1
  rw [layers]
  refine ⟨fun pair member => ?_, fun logicalBlock sector held => ?_, fun logicalBlock other sector held held' => ?_⟩
  · obtain ⟨_, listed, inside⟩ := List.mem_flatten.mp member
    obtain ⟨entry, tabled, rfl⟩ := List.mem_map.mp listed
    rw [logical]
    exact Memtable.within_iff.mp (recoverable.logged_inside recorded detaches part entry (List.mem_reverse.mp tabled)) pair inside
  · rw [Layers.lookup_flatten] at held
    obtain ⟨index, slot, ⟨zone, found, same, fits⟩, ⟨_, known, inside, written⟩⟩ := shows_.seals logicalBlock sector held
    cases found.symm.trans known
    have reported : recovered.lsm.allocator.zones[index]? = some (machine.world.report index index zone.extent) := by
      rw [zones]
      exact detaches.reported coherent.attached oracle found
    exact ⟨index, slot, ⟨_, reported, same, fits⟩, ⟨_, reported, inside, (ready.mirrors index zone found).written written⟩⟩
  · rw [Layers.lookup_flatten] at held held'
    exact shows_.apart logicalBlock other sector held held'

end Crash

end Use

variable [Kernel]

end Lsm
end ZnsBase
