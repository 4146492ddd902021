import ZnsBase.Proofs.Discipline
import ZnsBase.Target

/-! Requests as sequences of appends. Everything else a request does only reads
or takes memory, so a property of the engine that such steps and single appends
keep is kept by whole requests. -/

namespace ZnsBase
open Library

private theorem sstReadPayloadBlock_quiet (sst : Sstable) (page : Nat) (cache : SstCache) (world : World) :
    Effect.Ensures (sstReadPayloadBlock sst page cache) world (fun _ after => world.Quiet after) := by
  unfold sstReadPayloadBlock
  split
  · exact .refl _
  · refine Effect.Ensures.bind (blockRead_spec .metadata _ world) ?_ (fun error after spec => spec.1)
    exact fun block after spec => spec.1

private theorem sstLocate_quiet (sst : Sstable) (wanted rounds low high : Nat) (cache : SstCache) (world : World) :
    Effect.Ensures (sstLocate sst wanted rounds low high cache) world (fun _ after => world.Quiet after) := by
  induction rounds generalizing low high cache world with
  | zero => exact .refl _
  | succ rounds ih =>
    rw [sstLocate]
    split
    · refine Effect.Ensures.bind (sstReadPayloadBlock_quiet sst _ cache world) ?_ (fun error after quiet => quiet)
      intro read after quiet
      split
      · exact (ih _ _ _ _).mono (fun _ _ more => quiet.trans more)
      · exact (ih _ _ _ _).mono (fun _ _ more => quiet.trans more)
    · exact .refl _

theorem sstLookup_quiet (sst : Sstable) (wanted : Nat) (world : World) :
    Effect.Ensures (sstLookup sst wanted) world (fun _ after => world.Quiet after) := by
  unfold sstLookup
  split
  · exact .refl _
  split
  · exact .refl _
  refine Effect.Ensures.bind (allocate_quiet world) ?_ (fun error after spec => spec.1)
  rintro _ allocated ⟨quiet, _⟩
  refine Effect.Ensures.bind (sstLocate_quiet sst wanted _ 0 _ _ allocated) ?_
    (fun error after more => quiet.trans more)
  rintro ⟨page, read⟩ after more
  refine Effect.Ensures.bind (sstReadPayloadBlock_quiet sst page read after) ?_
    (fun error final rest => (quiet.trans more).trans rest)
  exact fun cache final rest => (quiet.trans more).trans rest

namespace Lsm

theorem lookupSstables_quiet (sstables : List Sstable) (wanted : Nat) (world : World) :
    Effect.Ensures (lookupSstables sstables wanted) world (fun _ after => world.Quiet after) := by
  induction sstables generalizing world with
  | nil => exact .refl _
  | cons sst rest ih =>
    refine Effect.Ensures.attempt_bind (sstLookup_quiet sst wanted world) ?_
    intro result after quiet
    split
    · exact (ih after).mono (fun _ _ more => quiet.trans more)
    · exact quiet

/-- The engine is as it was; the world only lost outcomes to come. -/
def Same (before after : Machine) : Prop := after.lsm = before.lsm ∧ before.world.Quiet after.world

theorem Same.refl (machine : Machine) : Same machine machine := ⟨rfl, .refl _⟩

theorem Same.trans {first second third : Machine} (earlier : Same first second) (later : Same second third) :
    Same first third := ⟨later.1.trans earlier.1, earlier.2.trans later.2⟩

theorem onWorld_same {α : Type} {program : Effect World Errno α} {machine : Machine}
    (valid : Effect.Ensures program machine.world (fun _ world => machine.world.Quiet world)) :
    Effect.Ensures (onWorld program) machine (fun _ after => Same machine after) :=
  onWorld_ensures (valid.mono fun _ _ quiet => ⟨rfl, quiet⟩)

theorem allocate_same (machine : Machine) :
    Effect.Ensures (onWorld allocate) machine (fun _ after => Same machine after) :=
  onWorld_same ((allocate_quiet machine.world).mono fun _ _ spec => spec.1)

theorem blockRead_same (lane : Lane) (sector : Nat) (machine : Machine) :
    Effect.Ensures (onWorld (blockRead lane sector)) machine (fun _ after => Same machine after) :=
  onWorld_same ((blockRead_spec lane sector machine.world).mono fun _ _ spec => spec.1)

theorem read_same (logicalSector sectors : Nat) (machine : Machine) :
    Effect.Ensures (read logicalSector sectors) machine (fun _ after => Same machine after) := by
  unfold read
  split
  · exact .refl _
  · apply Effect.Ensures.get_bind
    split
    · exact onWorld_same (lookupSstables_quiet _ _ _)
    · exact .refl _

theorem fetchBlock_same (blockSector : Nat) (machine : Machine) :
    Effect.Ensures (fetchBlock blockSector) machine (fun _ after => Same machine after) := by
  refine Effect.Ensures.attempt_bind (read_same blockSector blockSectors machine) ?_
  intro result after same
  split
  · exact same
  · exact same
  · exact (blockRead_same .data _ after).mono (fun _ _ more => same.trans more)

private theorem readFragments_same (rounds sector remaining bioOffset : Nat) (bio : Bio) (machine : Machine) :
    Effect.Ensures (readFragments rounds sector remaining bioOffset bio) machine (fun _ after => Same machine after) := by
  induction rounds generalizing sector remaining bioOffset bio machine with
  | zero => exact .refl _
  | succ rounds ih =>
    rw [readFragments]
    split
    · exact .refl _
    · refine Effect.Ensures.bind (fetchBlock_same _ machine) ?_ (fun error after same => same)
      intro buffer after same
      split
      · exact same
      · exact (ih _ _ _ _ after).mono (fun _ _ more => same.trans more)

theorem ioRead_same (bio : Bio) (machine : Machine) :
    Effect.Ensures (ioRead bio) machine (fun _ after => Same machine after) := by
  unfold ioRead
  split
  · refine Effect.Ensures.bind (allocate_same machine) ?_ (fun error after same => same)
    exact fun _ after same => (readFragments_same _ _ _ _ _ after).mono (fun _ _ more => same.trans more)
  · refine Effect.Ensures.bind (allocate_same machine) ?_ (fun error after same => same)
    intro _ cloned same
    refine Effect.Ensures.attempt_bind (read_same _ _ cloned) ?_
    intro result after more
    have same := same.trans more
    split
    · exact same
    · exact same
    · refine Effect.Ensures.bind (blockRead_same .data _ after) ?_ (fun error final rest => same.trans rest)
      exact fun block final rest => same.trans rest

theorem ioFlush_same (machine : Machine) : Effect.Ensures ioFlush machine (fun _ after => Same machine after) := by
  refine Effect.Ensures.bind (allocate_same machine) ?_ (fun error after same => same)
  intro _ cloned same
  refine Effect.Ensures.bind (onWorld_same ((draw_quiet .data cloned.world).mono fun _ _ spec => spec.1)) ?_
    (fun error after more => same.trans more)
  intro fate after more
  cases fate <;> exact same.trans more

section Lifting
variable [Kernel] {params : Params} {Holds : Machine → Prop} {limit : Nat}
  (bounded : ∀ machine, Holds machine → machine.lsm.super.logicalSectors = limit)
  (quiet : ∀ before after, Holds before → Same before after → Holds after)
  (append : ∀ machine sector bytes, Holds machine → sector % blockSectors = 0 → sector < limit →
    Effect.Ensures (appendWrite params sector bytes) machine (fun _ after => Holds after))

/-- The append of `writeFragment` once the block around the fragment is there. -/
def appendMerged (params : Params) (offset sectors blockSector bioOffset : Nat) (bio : Bio) (buffer : Nat → UInt8) :
    Effect Machine Errno (Nat → UInt8) :=
  match copyFragment bio bioOffset buffer (offset * sectorBytes) (sectors * sectorBytes) false with
  | (.error error, _) => Effect.fail error
  | (.ok (), copy) => do
    appendWrite params blockSector copy.buffer
    pure copy.buffer

include quiet append in
private theorem writeFragment_preserves (sector remaining bioOffset : Nat) (bio : Bio) (buffer : Nat → UInt8)
    {machine : Machine} (holds : Holds machine) (inside : sector < limit) :
    Effect.Ensures (writeFragment params sector remaining bioOffset bio buffer) machine (fun _ after => Holds after) := by
  have aligned : (sector - fragmentOffset sector) % blockSectors = 0 := by
    simp only [fragmentOffset, blockSectors]
    omega
  have base : sector - fragmentOffset sector < limit := by omega
  have rest (machine : Machine) (buffer : Nat → UInt8) (holds : Holds machine) :
      Effect.Ensures (appendMerged params (fragmentOffset sector) (fragmentSectors sector remaining)
        (sector - fragmentOffset sector) bioOffset bio buffer) machine (fun _ after => Holds after) := by
    unfold appendMerged
    split
    · exact holds
    · refine Effect.Ensures.bind (append machine _ _ holds aligned base) ?_ (fun error after kept => kept)
      exact fun _ after kept => kept
  unfold writeFragment
  dsimp only
  split
  · refine Effect.Ensures.bind (fetchBlock_same _ machine) ?_ (fun error after same => quiet machine after holds same)
    exact fun fetched after same => rest after fetched (quiet machine after holds same)
  · exact rest machine buffer holds

include quiet append in
private theorem writeFragments_preserves (rounds sector remaining bioOffset : Nat) (bio : Bio) (buffer : Nat → UInt8)
    {machine : Machine} (holds : Holds machine) (inside : sector + remaining ≤ limit) :
    Holds (writeFragments params rounds sector remaining bioOffset bio buffer machine).2 := by
  induction rounds generalizing sector remaining bioOffset buffer machine with
  | zero => exact holds
  | succ rounds ih =>
    rw [writeFragments]
    split
    · exact holds
    next more =>
      have step := writeFragment_preserves quiet append sector remaining bioOffset bio buffer holds (by omega)
      unfold Effect.Ensures at step
      split
      next ran =>
        rw [ran] at step
        exact step
      next ran =>
        rw [ran] at step
        have short : fragmentSectors sector remaining ≤ remaining := Nat.min_le_left _ _
        exact ih _ _ _ _ step (by omega)

include quiet append in
private theorem ioWrite_preserves (bio : Bio) {machine : Machine} (holds : Holds machine) (positive : 0 < bio.sectors)
    (inside : bio.sector + bio.sectors ≤ limit) : Holds (ioWrite params bio machine).2 := by
  have allocated := allocate_same machine
  unfold Effect.Ensures at allocated
  unfold ioWrite
  split
  · unfold writePartial
    split
    · exact holds
    · split
      next ran =>
        rw [ran] at allocated
        exact quiet _ _ holds allocated
      next ran =>
        rw [ran] at allocated
        exact writeFragments_preserves quiet append _ _ _ _ _ _ (quiet _ _ holds allocated) inside
  next whole =>
    have aligned : bio.sector % blockSectors = 0 := by
      simp only [isAlignedIo, Bool.not_eq_false, decide_eq_true_eq] at whole
      exact whole.2
    split
    next ran =>
      rw [ran] at allocated
      exact quiet _ _ holds allocated
    next cloned ran =>
      rw [ran] at allocated
      have step := append cloned bio.sector bio.data (quiet _ _ holds allocated) aligned (by omega)
      unfold Effect.Ensures at step
      split
      next ran =>
        rw [ran] at step
        exact step
      next ran =>
        rw [ran] at step
        exact step

include bounded quiet append in
theorem engineMap_preserves (bio : Bio) {machine : Machine} (holds : Holds machine) :
    Holds (engineMap params bio machine).2 := by
  have queued (inside : bio.op = .write → 0 < bio.sectors ∧ bio.sector + bio.sectors ≤ limit) :
      Holds (queueIo params bio machine).2 := by
    have allocated := allocate_same machine
    unfold Effect.Ensures at allocated
    unfold queueIo
    split
    next ran =>
      rw [ran] at allocated
      exact quiet _ _ holds allocated
    next queued ran =>
      rw [ran] at allocated
      have holds := quiet _ _ holds allocated
      unfold ioWorker
      cases op : bio.op with
      | read => exact quiet _ _ holds (ioRead_same bio queued)
      | write => exact ioWrite_preserves quiet append bio holds (inside op).1 (inside op).2
      | flush => exact quiet _ _ holds (ioFlush_same queued)
      | other => exact holds
  have served : Holds (if InRange machine.lsm bio then queueIo params bio machine else (Reply.killed, machine)).2 := by
    split
    next range =>
      obtain ⟨some_, whole, low, high⟩ := range
      rw [bounded machine holds] at low high
      refine queued (fun _ => ⟨?_, by omega⟩)
      simp only [Bio.sectors, sectorBytes] at whole ⊢
      omega
    · exact holds
  unfold engineMap
  cases op : bio.op with
  | read => exact served
  | write => exact served
  | flush => exact queued (fun write => by rw [op] at write; cases write)
  | other => exact holds

include bounded quiet append in
/-- What appends, quiet steps and the flush worker keep is kept by every run. -/
theorem run_preserves (flushed : ∀ machine, Holds machine → Holds (flushWorker machine)) (events : List Event)
    {machine : Machine} (holds : Holds machine) : Holds (run params events machine) := by
  induction events generalizing machine with
  | nil => exact holds
  | cons event events ih =>
    cases event with
    | bio bio => exact ih (engineMap_preserves bounded quiet append bio holds)
    | flushWork => exact ih (flushed machine holds)

end Lifting

end Lsm
end ZnsBase
