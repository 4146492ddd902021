import ZnsBase.Proofs.Sessions
import ZnsBase.Workers

/-! Queueing of the flush work. Whoever sets `flush_in_flight` holds a token: it
passes to the queued work, to the execution of it, and is given back when the
execution clears the flag. -/

namespace ZnsBase
open Library

namespace FlushPc

/-- In the claim loop of the flush worker. -/
def claims : FlushPc → Bool
  | .clearing _ | .rechecking | .queueing | .finished => false
  | _ => true

/-- Whether the execution answers for the flag. -/
def token : FlushPc → Bool
  | .rechecking | .finished => false
  | _ => true

def victim : FlushPc → Option Memtable
  | .claimed victim | .located victim _ _ | .writing victim _ _ _ _ | .wrote victim _ _ | .judging victim _
  | .releasing victim => some victim
  | _ => none

theorem token_of_claims {pc : FlushPc} (claims : pc.claims = true) : pc.token = true := by
  cases pc <;> simp_all [FlushPc.claims, token]

theorem claims_of_victim {pc : FlushPc} {victim : Memtable} (held : pc.victim = some victim) : pc.claims = true := by
  cases pc <;> simp_all [FlushPc.victim, claims]

end FlushPc

namespace Workers

/-- Between `memtable_put_active` and `zns_lsm_maybe_queue_flush`. -/
def publishing (workers : Workers) : Prop := (∃ logicalBlock sector, workers.io = .stored logicalBlock sector) ∨ workers.io = .indexed

def tokens (workers : Workers) : Nat :=
  (if workers.io = .queueing then 1 else 0) + workers.flushers.countP FlushPc.token +
    workers.machine.lsm.flushPending.toNat

/-- A frozen table that no flush is under way for. -/
def Waiting (workers : Workers) : Prop :=
  workers.machine.lsm.flushInFlight = false ∧
    (workers.machine.lsm.tables.immutable.isSome ∨ workers.machine.lsm.flushing.isSome)

/-- What every step keeps. -/
structure Queued (workers : Workers) : Prop where
  tokens : workers.tokens = workers.machine.lsm.flushInFlight.toNat
  held : ∀ pc ∈ workers.flushers, ∀ victim, pc.victim = some victim → workers.machine.lsm.flushing = some victim
  failed : .clearing true ∈ workers.flushers → workers.marks.head? = some .failed
  waiting : workers.Waiting → workers.machine.lsm.gcIndexFailures = 0 →
    workers.publishing ∨ .rechecking ∈ workers.flushers ∨ workers.marks.head? = some .failed

section Tokens
variable {workers : Workers} (queued : workers.Queued)
include queued

theorem Queued.few : workers.tokens ≤ 1 := by
  rw [queued.tokens]
  exact Bool.toNat_le _

/-- The flag is set as long as anybody answers for it. -/
theorem Queued.inFlight (some_ : 0 < workers.tokens) : workers.machine.lsm.flushInFlight = true := by
  have total := queued.tokens
  cases unset : workers.machine.lsm.flushInFlight with
  | true => rfl
  | false => rw [unset, Bool.toNat_false] at total; omega

/-- One who answers for the flag is the only one. -/
theorem Queued.alone {execution : Nat} {pc : FlushPc} (found : workers.flushers[execution]? = some pc) (token : pc.token = true) :
    workers.machine.lsm.flushInFlight = true ∧ workers.machine.lsm.flushPending = false ∧ workers.io ≠ .queueing ∧
      workers.flushers.countP FlushPc.token = 1 := by
  have member := List.mem_of_getElem? found
  have positive : 0 < workers.flushers.countP FlushPc.token := List.countP_pos_iff.mpr ⟨pc, member, token⟩
  have few := queued.few
  rw [Workers.tokens] at few
  refine ⟨queued.inFlight (by rw [Workers.tokens]; omega), ?_, ?_, by omega⟩
  · cases pending : workers.machine.lsm.flushPending with
    | false => rfl
    | true => rw [pending, Bool.toNat_true] at few; omega
  · intro queueing
    rw [if_pos queueing] at few
    omega

theorem Queued.others {execution other : Nat} {pc next : FlushPc} (found : workers.flushers[execution]? = some pc)
    (token : pc.token = true) (apart : other ≠ execution) (there : workers.flushers[other]? = some next) :
    next.token = false := by
  obtain ⟨bound, here⟩ := List.getElem?_eq_some_iff.mp found
  obtain ⟨_, _, _, one⟩ := queued.alone found token
  have none_ : (workers.flushers.set execution .finished).countP FlushPc.token = 0 := by
    rw [List.countP_set bound, here, if_pos token, one]
    rfl
  rw [List.countP_eq_zero] at none_
  have member : next ∈ workers.flushers.set execution .finished := by
    refine List.mem_of_getElem? (i := other) ?_
    rw [List.getElem?_set_ne (Ne.symm apart), there]
  simpa using none_ next member

/-- Nobody queues work that is pending. -/
theorem Queued.pending (queueing : workers.io = .queueing ∨ .queueing ∈ workers.flushers) :
    workers.machine.lsm.flushPending = false := by
  rcases queueing with here | member
  · have few := queued.few
    rw [Workers.tokens, if_pos here] at few
    cases pending : workers.machine.lsm.flushPending with
    | false => rfl
    | true => rw [pending, Bool.toNat_true] at few; omega
  · obtain ⟨execution, found⟩ := List.getElem?_of_mem member
    exact (queued.alone found rfl).2.1

end Tokens

theorem mem_set_cases {α : Type} {list : List α} {index : Nat} {value held : α} (member : held ∈ list.set index value) :
    held = value ∨ ∃ other, other ≠ index ∧ list[other]? = some held := by
  obtain ⟨other, found⟩ := List.getElem?_of_mem member
  by_cases here : other = index
  · subst here
    rw [List.getElem?_set_self'] at found
    obtain ⟨_, _, same⟩ := Option.map_eq_some_iff.mp found
    exact Or.inl same.symm
  · rw [List.getElem?_set_ne (Ne.symm here)] at found
    exact Or.inr ⟨other, here, found⟩

private theorem countP_set_add {list : List FlushPc} {index : Nat} {pc : FlushPc} (found : list[index]? = some pc)
    (next : FlushPc) : (list.set index next).countP FlushPc.token + pc.token.toNat =
      list.countP FlushPc.token + next.token.toNat := by
  obtain ⟨bound, here⟩ := List.getElem?_eq_some_iff.mp found
  have counted : pc.token = true → 0 < list.countP FlushPc.token :=
    fun token => List.countP_pos_iff.mpr ⟨pc, List.mem_of_getElem? found, token⟩
  rw [List.countP_set bound, here]
  cases token : pc.token with
  | false => cases next.token <;> simp
  | true =>
    have positive := counted token
    cases next.token <;> simp <;> omega

section Flush
variable {workers : Workers} {execution : Nat} {pc next : FlushPc} {machine : Machine} {marks : List Mark}
  (queued : workers.Queued) (found : workers.flushers[execution]? = some pc)
include queued found

/-- A step of the execution that answers for the flag. -/
theorem Queued.within (token : pc.token = true) (keeps : next.token = true)
    (inFlight : machine.lsm.flushInFlight = workers.machine.lsm.flushInFlight)
    (pending : machine.lsm.flushPending = workers.machine.lsm.flushPending)
    (held : ∀ victim, next.victim = some victim → machine.lsm.flushing = some victim)
    (failed : next = .clearing true → marks.head? = some .failed) :
    Queued { workers with machine, flushers := workers.flushers.set execution next, marks } := by
  have alone := queued.alone found token
  have same := countP_set_add found next
  rw [token, keeps] at same
  refine ⟨?_, ?_, ?_, ?_⟩
  · have total := queued.tokens
    rw [Workers.tokens] at total ⊢
    dsimp only
    rw [pending, inFlight]
    omega
  · intro other member victim has
    rcases mem_set_cases member with rfl | ⟨_, apart, there⟩
    · exact held victim has
    · have none_ := queued.others found token apart there
      rw [FlushPc.token_of_claims (FlushPc.claims_of_victim has)] at none_
      cases none_
  · intro member
    rcases mem_set_cases member with same | ⟨_, apart, there⟩
    · exact failed same.symm
    · cases queued.others found token apart there
  · intro waiting
    rw [Waiting] at waiting
    dsimp only at waiting
    rw [inFlight, alone.1] at waiting
    cases waiting.1

/-- A step of an execution that does not answer for the flag, or gives it back. -/
theorem Queued.outside (quiet : next.victim = none) (calm : next ≠ .clearing true)
    (flushing : machine.lsm.flushing = workers.machine.lsm.flushing) (noted : workers.marks = marks ∨ pc.token = true)
    (tokens : Workers.tokens { workers with machine, flushers := workers.flushers.set execution next, marks } =
      machine.lsm.flushInFlight.toNat)
    (waiting : Waiting { workers with machine, flushers := workers.flushers.set execution next, marks } →
      machine.lsm.gcIndexFailures = 0 → workers.publishing ∨ .rechecking ∈ workers.flushers.set execution next ∨
        marks.head? = some .failed) :
    Queued { workers with machine, flushers := workers.flushers.set execution next, marks } := by
  refine ⟨tokens, ?_, ?_, waiting⟩
  · intro other member victim has
    rcases mem_set_cases member with rfl | ⟨_, _, there⟩
    · rw [quiet] at has
      cases has
    · exact flushing.trans (queued.held other (List.mem_of_getElem? there) victim has)
  · intro member
    rcases mem_set_cases member with same | ⟨_, apart, there⟩
    · exact absurd same.symm calm
    · rcases noted with same | token
      · rw [← same]
        exact queued.failed (List.mem_of_getElem? there)
      · cases queued.others found token apart there

end Flush

section Io
variable {workers after : Workers} (queued : workers.Queued) (flushers : after.flushers = workers.flushers)
  (flushing : after.machine.lsm.flushing = workers.machine.lsm.flushing)
include queued flushers flushing

/-- A step of the I/O worker that leaves the flags alone. -/
theorem Queued.beside (inFlight : after.machine.lsm.flushInFlight = workers.machine.lsm.flushInFlight)
    (pending : after.machine.lsm.flushPending = workers.machine.lsm.flushPending) (marks : after.marks = workers.marks)
    (io : workers.io ≠ .queueing) (io' : after.io ≠ .queueing)
    (waiting : after.Waiting → after.machine.lsm.gcIndexFailures = 0 →
      after.publishing ∨ .rechecking ∈ after.flushers ∨ after.marks.head? = some .failed) : after.Queued := by
  refine ⟨?_, ?_, ?_, waiting⟩
  · have total := queued.tokens
    rw [Workers.tokens, if_neg io] at total
    rw [Workers.tokens, if_neg io', flushers, pending, inFlight, total]
  · rw [flushers, flushing]
    exact queued.held
  · rw [flushers, marks]
    exact queued.failed

end Io

end Workers

namespace Lsm
open Workers

section Alone

/-- An execution of the flush work that nobody interrupts. -/
def runFlusher : Nat → FlushPc × Machine → FlushPc × Machine
  | 0, state => state
  | steps + 1, (pc, machine) => runFlusher steps (flushStep machine pc)

theorem runFlusher_add (first second : Nat) (state : FlushPc × Machine) :
    runFlusher (first + second) state = runFlusher second (runFlusher first state) := by
  induction first generalizing state with
  | zero => rw [Nat.zero_add, runFlusher]
  | succ first ih =>
    obtain ⟨pc, machine⟩ := state
    rw [Nat.succ_add, runFlusher, runFlusher]
    exact ih _

/-- The two halves of `zns_sst_write`. -/
theorem sstWrite_eq (memtable : Memtable) (startSector endSector seq : Nat) (world : World) :
    sstWrite memtable startSector endSector seq world =
      match sstPrepare memtable startSector endSector seq world with
      | (.error error, world) => (⟨.error error, 0⟩, world)
      | (.ok blocks, world) =>
        let written := writeBlocks blocks startSector world
        (⟨written.1.1.map fun _ => sstSummary memtable startSector seq, written.1.2 * blockSectors⟩, written.2) := by
  rw [sstWrite, sstPrepare]
  split
  · rfl
  cases ran : allocate world with
  | mk result first =>
    cases result with
    | error error =>
      rw [Effect.bind_error ran]
    | ok value =>
      rw [Effect.bind_ok ran]
      dsimp only
      change (if (sstSummary memtable startSector seq).nrEntries = 0 then _ else
        if (sstSummary memtable startSector seq).nrBlocks * blockSectors > endSector - startSector then _ else _) = _
      split
      · rfl
      · split
        · rfl
        · cases ran : allocate first with
          | mk result second =>
            cases result with
            | error error => rw [Effect.bind_error ran]
            | ok value =>
              rw [Effect.bind_ok ran]
              exact sstWriteBlocks_eq memtable startSector seq second

/-- The blocks of a table, one step each. -/
theorem runFlusher_writing (victim : Memtable) (start seq done : Nat) (left : List (Nat → UInt8)) (machine : Machine) :
    let written := writeBlocks left (start + done * blockSectors) machine.world
    ∃ steps, runFlusher steps (.writing victim start seq done left, machine) =
      (.wrote victim start ⟨written.1.1.map fun _ => sstSummary victim start seq, (done + written.1.2) * blockSectors⟩,
        { machine with world := written.2 }) := by
  induction left generalizing done machine with
  | nil => exact ⟨1, rfl⟩
  | cons block left ih =>
    dsimp only [writeBlocks]
    cases ran : blockWrite .metadata (start + done * blockSectors) block machine.world with
    | mk result world =>
      cases result with
      | error error =>
        refine ⟨1, ?_⟩
        simp only [runFlusher, flushStep, ran]
        rfl
      | ok value =>
        obtain ⟨steps, reached⟩ := ih (done + 1) { machine with world }
        refine ⟨1 + steps, ?_⟩
        rw [runFlusher_add]
        simp only [runFlusher, flushStep, ran]
        rw [Nat.add_mul, Nat.one_mul, ← Nat.add_assoc] at reached
        rw [reached]
        simp only [Nat.add_assoc, Nat.add_comm 1]

/-- From the claim on, the worker does what `flushVictim` does in one go. -/
theorem runFlusher_victim (victim : Memtable) (machine : Machine) : ∃ steps,
    runFlusher steps (.claimed victim, machine) =
      match flushVictim victim machine with
      | (.ok (), after) => (.claiming, after)
      | (.error _, after) => (.clearing true, after) := by
  have writes : ∃ steps, runFlusher steps (.claimed victim, machine) =
      (.wrote victim machine.lsm.metaWp
        (sstWrite victim machine.lsm.metaWp machine.lsm.metaEnd machine.lsm.nextSstSeq machine.world).1,
        { machine with
          world := (sstWrite victim machine.lsm.metaWp machine.lsm.metaEnd machine.lsm.nextSstSeq machine.world).2 }) := by
    rw [sstWrite_eq]
    cases prepared : sstPrepare victim machine.lsm.metaWp machine.lsm.metaEnd machine.lsm.nextSstSeq machine.world with
    | mk result world =>
      cases result with
      | error error =>
        refine ⟨2, ?_⟩
        simp only [runFlusher, flushStep, prepared]
      | ok blocks =>
        obtain ⟨steps, reached⟩ :=
          runFlusher_writing victim machine.lsm.metaWp machine.lsm.nextSstSeq 0 blocks { machine with world }
        refine ⟨2 + steps, ?_⟩
        rw [runFlusher_add]
        simp only [runFlusher, flushStep, prepared]
        rw [reached]
        simp only [Nat.zero_mul, Nat.add_zero, Nat.zero_add]
  obtain ⟨steps, reached⟩ := writes
  unfold flushVictim
  dsimp only
  generalize sstWrite victim machine.lsm.metaWp machine.lsm.metaEnd machine.lsm.nextSstSeq machine.world = done at reached ⊢
  obtain ⟨⟨result, consumed⟩, world⟩ := done
  dsimp only at reached ⊢
  cases result with
  | ok sst =>
    refine ⟨steps + 3, ?_⟩
    rw [runFlusher_add, reached]
    rfl
  | error error =>
    cases error with
    | enodata =>
      refine ⟨steps + 3, ?_⟩
      rw [runFlusher_add, reached]
      rfl
    | _ =>
      refine ⟨steps + 2, ?_⟩
      rw [runFlusher_add, reached]
      rfl

end Alone

/-- A write that is stored changes the tables of the active pair, one that fails
nothing. -/
theorem storeWrite_frame [Kernel] (logicalBlock physicalSector : Nat) (machine : Machine) :
    Effect.Ensures (storeWrite logicalBlock physicalSector) machine (fun result after =>
      (result = .ok () ∧ ∃ tables, after.lsm = { machine.lsm with tables }) ∨
        ∃ error, result = .error error ∧ after.lsm = machine.lsm) := by
  have apart {α : Type} (program : Effect World Errno α) (machine : Machine) :
      Effect.Ensures (onWorld program) machine (fun _ after => after.lsm = machine.lsm) := rfl
  refine Effect.Ensures.bind (apart _ _) ?_ (fun error after same => Or.inr ⟨error, rfl, same⟩)
  intro _ reserved same
  apply Effect.Ensures.get_bind
  refine Effect.Ensures.bind (apart _ _) ?_ (fun error after same' => Or.inr ⟨error, rfl, same'.trans same⟩)
  intro tables after same'
  refine Or.inl ⟨rfl, tables, ?_⟩
  change { after.lsm with tables } = _
  rw [same', same]

theorem wantsFlush_iff (workers : Workers) : workers.machine.lsm.wantsFlush = true ↔ workers.Waiting := by
  simp [wantsFlush, Waiting]

theorem claimFlushVictim_flags (lsm : Lsm) : lsm.claimFlushVictim.flushInFlight = lsm.flushInFlight ∧
    lsm.claimFlushVictim.flushPending = lsm.flushPending := by
  unfold claimFlushVictim
  split <;> exact ⟨rfl, rfl⟩

theorem updateGcBlockLocation_flags (logicalBlock physicalSector : Nat) (lsm : Lsm) :
    Effect.Ensures (updateGcBlockLocation logicalBlock physicalSector) lsm (fun _ after =>
      after.flushInFlight = lsm.flushInFlight ∧ after.flushPending = lsm.flushPending) := by
  unfold Effect.Ensures updateGcBlockLocation gcCommit
  repeat' split
  all_goals exact ⟨rfl, rfl⟩

section Turns
variable {workers : Workers} (queued : workers.Queued)
include queued

theorem put_queued [Kernel] (logicalBlock physicalSector : Nat) : (takeTurn workers (.put logicalBlock physicalSector)).Queued := by
  rw [takeTurn]
  split
  next idle =>
    have stored := storeWrite_frame logicalBlock physicalSector workers.machine
    unfold Effect.Ensures at stored
    have busy : workers.io ≠ .queueing := by rw [idle]; nofun
    split
    next machine ran =>
      rw [ran] at stored
      obtain ⟨_, tables, same⟩ | ⟨_, failed, _⟩ := stored
      · dsimp only at same
        exact queued.beside rfl (by rw [same]) (by rw [same]) (by rw [same]) rfl busy nofun
          (fun _ _ => Or.inl (Or.inl ⟨_, _, rfl⟩))
      · cases failed
    next error machine ran =>
      rw [ran] at stored
      obtain ⟨done, _⟩ | ⟨_, _, same⟩ := stored
      · cases done
      · dsimp only at same
        refine queued.beside rfl (by rw [same]) (by rw [same]) (by rw [same]) rfl busy busy ?_
        intro waiting fine
        unfold Waiting at waiting
        dsimp only at waiting fine
        rw [same] at waiting fine
        exact queued.waiting waiting fine
  next _ => exact queued

theorem prepare_queued [Kernel] (path : DataPath) : (takeTurn workers (.prepare path)).Queued := by
  rw [takeTurn]
  split
  next idle =>
    have busy : workers.io ≠ .queueing := by rw [idle]; nofun
    exact queued.beside rfl rfl rfl rfl rfl busy busy queued.waiting
  next _ => exact queued

theorem lookup_queued [Kernel] (logicalBlock : Nat) : (takeTurn workers (.lookup logicalBlock)).Queued := by
  rw [takeTurn]
  split
  next idle =>
    have busy : workers.io ≠ .queueing := by rw [idle]; nofun
    split
    · refine queued.beside rfl rfl rfl rfl rfl busy nofun ?_
      intro waiting fine
      rcases queued.waiting waiting fine with (⟨_, _, stored⟩ | indexed) | rest
      · rw [idle] at stored
        cases stored
      · rw [idle] at indexed
        cases indexed
      · exact Or.inr rest
    · exact queued
  next _ => exact queued

theorem ioStep_queued : (ioStep workers).Queued := by
  unfold ioStep
  dsimp only
  split
  next _ => exact queued
  next logicalBlock physicalSector here =>
    have frame := updateGcBlockLocation_frame logicalBlock physicalSector workers.machine.lsm
    have flags := updateGcBlockLocation_flags logicalBlock physicalSector workers.machine.lsm
    unfold Effect.Ensures at frame flags
    have busy : workers.io ≠ .queueing := by rw [here]; nofun
    split
    next lsm ran =>
      rw [ran] at frame flags
      exact queued.beside rfl frame.2.2.2 flags.1 flags.2 rfl busy nofun (fun _ _ => Or.inl (Or.inr rfl))
    next error lsm ran =>
      rw [ran] at frame flags
      exact queued.beside rfl frame.2.2.2 flags.1 flags.2 rfl busy nofun (fun _ fine => absurd fine (Nat.succ_ne_zero _))
  next here =>
    have busy : workers.io ≠ .queueing := by rw [here]; nofun
    split
    next wants =>
      have total := queued.tokens
      rw [Workers.tokens, if_neg busy, ((wantsFlush_iff workers).mp wants).1, Bool.toNat_false] at total
      refine ⟨?_, queued.held, queued.failed, fun waiting => absurd waiting.1 nofun⟩
      rw [Workers.tokens, if_pos rfl]
      dsimp only
      rw [Bool.toNat_true]
      omega
    next idle =>
      refine queued.beside rfl rfl rfl rfl rfl busy nofun (fun waiting => absurd waiting ?_)
      exact fun waiting => idle ((wantsFlush_iff workers).mpr waiting)
  next here =>
    have few := queued.few
    have inFlight := queued.inFlight (by rw [Workers.tokens, if_pos here]; omega)
    rw [Workers.tokens, if_pos here] at few
    refine ⟨?_, queued.held, ?_, ?_⟩
    · rw [Workers.tokens, if_neg nofun]
      dsimp only
      rw [inFlight, Bool.toNat_true]
      omega
    · intro member
      have positive : 0 < workers.flushers.countP FlushPc.token := List.countP_pos_iff.mpr ⟨_, member, rfl⟩
      omega
    · intro waiting
      rw [Waiting] at waiting
      dsimp only at waiting
      rw [inFlight] at waiting
      cases waiting.1
  next logicalBlock here =>
    have busy : workers.io ≠ .queueing := by rw [here]; nofun
    refine queued.beside rfl rfl rfl rfl rfl busy nofun ?_
    intro waiting fine
    rcases queued.waiting waiting fine with (⟨_, _, stored⟩ | indexed) | rest
    · rw [here] at stored
      cases stored
    · rw [here] at indexed
      cases indexed
    · exact Or.inr rest

theorem start_queued [Kernel] : (takeTurn workers .start).Queued := by
  rw [takeTurn]
  split
  next pending =>
    have total := queued.tokens
    rw [Workers.tokens, pending, Bool.toNat_true] at total
    have inFlight := queued.inFlight (by rw [Workers.tokens, pending, Bool.toNat_true]; omega)
    refine ⟨?_, ?_, ?_, ?_⟩
    · rw [Workers.tokens]
      dsimp only
      rw [List.countP_append, List.countP_singleton, if_pos (show FlushPc.claiming.token = true from rfl), Bool.toNat_false, ← total]
      omega
    · intro pc member victim held
      rcases List.mem_append.mp member with old | new
      · exact queued.held pc old victim held
      · rw [List.mem_singleton.mp new] at held
        cases held
    · intro member
      rcases List.mem_append.mp member with old | new
      · exact queued.failed old
      · cases List.mem_singleton.mp new
    · intro waiting
      rw [Waiting] at waiting
      dsimp only at waiting
      rw [inFlight] at waiting
      cases waiting.1
  next _ => exact queued

theorem flush_queued [Kernel] (execution : Nat) : (takeTurn workers (.flush execution)).Queued := by
  rw [takeTurn]
  split
  next _ => exact queued
  next pc found =>
    cases pc with
    | claiming =>
      have flags := claimFlushVictim_flags workers.machine.lsm
      unfold flushStep
      dsimp only
      split
      next _ => exact queued.within found rfl rfl flags.1 flags.2 nofun nofun
      next victim slot => exact queued.within found rfl rfl flags.1 flags.2 (fun other same => by cases same; exact slot) nofun
    | claimed victim =>
      have held := queued.held _ (List.mem_of_getElem? found) victim rfl
      exact queued.within found rfl rfl rfl rfl (fun other same => by cases same; exact held) nofun
    | located victim start seq =>
      have held := queued.held _ (List.mem_of_getElem? found) victim rfl
      unfold flushStep
      dsimp only
      split
      · exact queued.within found rfl rfl rfl rfl (fun other same => by cases same; exact held) nofun
      · exact queued.within found rfl rfl rfl rfl (fun other same => by cases same; exact held) nofun
    | writing victim start seq done left =>
      have held := queued.held _ (List.mem_of_getElem? found) victim rfl
      cases left with
      | nil => exact queued.within found rfl rfl rfl rfl (fun other same => by cases same; exact held) nofun
      | cons block left =>
        unfold flushStep
        dsimp only
        split
        · exact queued.within found rfl rfl rfl rfl (fun other same => by cases same; exact held) nofun
        · exact queued.within found rfl rfl rfl rfl (fun other same => by cases same; exact held) nofun
    | wrote victim start written =>
      have held := queued.held _ (List.mem_of_getElem? found) victim rfl
      unfold flushStep advanceMetaWp
      dsimp only
      split
      · split
        · exact queued.within found rfl rfl rfl rfl (fun other same => by cases same; exact held) nofun
        · exact queued.within found rfl rfl rfl rfl (fun other same => by cases same; exact held) nofun
      · exact queued.within found rfl rfl rfl rfl (fun other same => by cases same; exact held) nofun
    | judging victim result =>
      have held := queued.held _ (List.mem_of_getElem? found) victim rfl
      cases result with
      | ok sst => exact queued.within found rfl rfl rfl rfl (fun other same => by cases same; exact held) nofun
      | error error =>
        cases error with
        | enodata => exact queued.within found rfl rfl rfl rfl (fun other same => by cases same; exact held) nofun
        | _ => exact queued.within found rfl rfl rfl rfl nofun (fun _ => rfl)
    | releasing victim => exact queued.within found rfl rfl rfl rfl nofun nofun
    | clearing failed =>
      obtain ⟨_, pending, busy, one⟩ := queued.alone found rfl
      have counted (next : FlushPc) (without : next.token = false) :
          (workers.flushers.set execution next).countP FlushPc.token = 0 := by
        have same := countP_set_add found next
        rw [without, one] at same
        exact Nat.add_right_cancel same
      unfold flushStep
      dsimp only
      cases failed with
      | true =>
        refine queued.outside found rfl nofun rfl (Or.inr rfl) ?_ (fun _ _ => Or.inr (Or.inr ?_))
        · simp [Workers.tokens, busy, pending, counted .finished rfl]
        · exact queued.failed (List.mem_of_getElem? found)
      | false =>
        refine queued.outside found rfl nofun rfl (Or.inr rfl) ?_ (fun _ _ => Or.inr (Or.inl ?_))
        · simp [Workers.tokens, busy, pending, counted .rechecking rfl]
        · exact List.mem_set (List.getElem?_eq_some_iff.mp found).1 .rechecking
    | rechecking =>
      have total := queued.tokens
      rw [Workers.tokens] at total
      unfold flushStep
      dsimp only
      split
      next wants =>
        have same := countP_set_add found .queueing
        rw [((wantsFlush_iff workers).mp wants).1] at total
        refine queued.outside found rfl nofun rfl (Or.inl rfl) ?_ (fun waiting => absurd waiting.1 nofun)
        rw [Workers.tokens]
        simp only [FlushPc.token, Bool.toNat_false, Bool.toNat_true] at same total ⊢
        omega
      next idle =>
        have same := countP_set_add found .finished
        refine queued.outside found rfl nofun rfl (Or.inl rfl) ?_ (fun waiting => absurd ?_ idle)
        · rw [Workers.tokens]
          simp only [FlushPc.token, Bool.toNat_false] at same ⊢
          omega
        · exact (wantsFlush_iff workers).mpr waiting
    | queueing =>
      obtain ⟨inFlight, pending, busy, one⟩ := queued.alone found rfl
      have same := countP_set_add found .finished
      unfold flushStep
      refine queued.outside found rfl nofun rfl (Or.inr rfl) ?_ ?_
      · rw [Workers.tokens]
        dsimp only
        rw [if_neg busy, inFlight]
        simp only [FlushPc.token, Bool.toNat_false, Bool.toNat_true, one] at same ⊢
        omega
      · intro waiting
        rw [Waiting] at waiting
        dsimp only at waiting
        rw [inFlight] at waiting
        cases waiting.1
    | finished =>
      obtain ⟨bound, here⟩ := List.getElem?_eq_some_iff.mp found
      have same : workers.flushers.set execution .finished = workers.flushers := by
        rw [← here, List.set_getElem_self]
      unfold flushStep
      rw [same]
      exact queued

theorem takeTurn_queued [Kernel] (turn : Turn) : (takeTurn workers turn).Queued := by
  cases turn with
  | prepare path => exact prepare_queued queued path
  | put logicalBlock physicalSector => exact put_queued queued logicalBlock physicalSector
  | lookup logicalBlock => exact lookup_queued queued logicalBlock
  | io => exact ioStep_queued queued
  | start => exact start_queued queued
  | flush execution => exact flush_queued queued execution

theorem interleave_queued [Kernel] (turns : List Turn) : (interleave turns workers).Queued := by
  induction turns generalizing workers with
  | nil => exact queued
  | cons turn turns ih => exact ih (takeTurn_queued queued turn)

end Turns

/-- The I/O worker has no hand in the flushing slot. -/
theorem takeTurn_flushing [Kernel] {turn : Turn} (io : turn.isIo = true) (workers : Workers) :
    (takeTurn workers turn).machine.lsm.flushing = workers.machine.lsm.flushing := by
  cases turn with
  | prepare path =>
    rw [takeTurn]
    split <;> rfl
  | put logicalBlock physicalSector =>
    rw [takeTurn]
    split
    · have stored := storeWrite_frame logicalBlock physicalSector workers.machine
      unfold Effect.Ensures at stored
      split
      next machine ran =>
        rw [ran] at stored
        obtain ⟨_, tables, same⟩ | ⟨_, failed, _⟩ := stored
        · dsimp only at same ⊢
          rw [same]
        · cases failed
      next error machine ran =>
        rw [ran] at stored
        obtain ⟨done, _⟩ | ⟨_, _, same⟩ := stored
        · cases done
        · dsimp only at same ⊢
          rw [same]
    · rfl
  | lookup logicalBlock =>
    rw [takeTurn]
    repeat' split
    all_goals rfl
  | io =>
    rw [takeTurn]
    unfold ioStep
    dsimp only
    split
    next _ => rfl
    next logicalBlock physicalSector _ =>
      have frame := updateGcBlockLocation_frame logicalBlock physicalSector workers.machine.lsm
      unfold Effect.Ensures at frame
      split
      next lsm ran =>
        rw [ran] at frame
        exact frame.2.2.2
      next error lsm ran =>
        rw [ran] at frame
        exact frame.2.2.2
    next _ => split <;> rfl
    next _ => rfl
    next _ => rfl
  | start => cases io
  | flush execution => cases io

theorem startWorkers_queued {params : Params} {uuid logicalSectors physicalSectors sectorsPerBlock : Nat} {world after : World}
    {lsm : Lsm} (ran : engineInit params uuid logicalSectors physicalSectors sectorsPerBlock world = (.ok lsm, after)) :
    (startWorkers ⟨lsm, after⟩).Queued := by
  obtain ⟨data, log, split⟩ := engineInit_split ran
  obtain ⟨opened, opening, started⟩ := engineInit_ok split ran
  obtain ⟨inFlight, pending, tables, flushing⟩ := started.idle opening
  refine ⟨?_, nofun, nofun, ?_⟩
  · change 0 + 0 + lsm.flushPending.toNat = lsm.flushInFlight.toNat
    rw [inFlight, pending]
    rfl
  · rintro ⟨_, frozen | parked⟩
    · change lsm.tables.immutable.isSome = true at frozen
      rw [tables] at frozen
      cases frozen
    · change lsm.flushing.isSome = true at parked
      rw [flushing] at parked
      cases parked

/-- Flushes do not overlap and none is forgotten, whatever the interleaving. -/
theorem flushes_are_serial_and_not_stranded [Kernel] (params : Params)
    (uuid logicalSectors physicalSectors sectorsPerBlock : Nat) (world after : World) (lsm : Lsm)
    (ran : engineInit params uuid logicalSectors physicalSectors sectorsPerBlock world = (.ok lsm, after))
    (turns : List Turn) :
    let workers := interleave turns (startWorkers ⟨lsm, after⟩)
    -- Nobody is about to queue work that is pending, and one execution at most claims victims.
    ((workers.io = .queueing ∨ .queueing ∈ workers.flushers) → workers.machine.lsm.flushPending = false) ∧
      workers.flushers.countP FlushPc.claims ≤ 1 ∧
      -- The I/O worker leaves the flushing slot alone, and a victim stays in it while it is worked on.
      (∀ turn, turn.isIo = true → (takeTurn workers turn).machine.lsm.flushing = workers.machine.lsm.flushing) ∧
      (∀ pc ∈ workers.flushers, ∀ victim, pc.victim = some victim → workers.machine.lsm.flushing = some victim) ∧
      -- A table that waits is about to be noticed, or its last attempt failed.
      (workers.Waiting → workers.machine.lsm.gcIndexFailures = 0 →
        workers.publishing ∨ .rechecking ∈ workers.flushers ∨ workers.marks.head? = some .failed) := by
  have queued := interleave_queued (startWorkers_queued ran) turns
  refine ⟨queued.pending, ?_, fun turn io => takeTurn_flushing io _, queued.held, queued.waiting⟩
  have few := queued.few
  have less : (interleave turns (startWorkers ⟨lsm, after⟩)).flushers.countP FlushPc.claims ≤
      (interleave turns (startWorkers ⟨lsm, after⟩)).flushers.countP FlushPc.token :=
    List.countP_mono_left fun pc _ => FlushPc.token_of_claims
  rw [Workers.tokens] at few
  omega

/-- A data path one block further on in every zone. -/
def oneBlockOn (lsm : Lsm) : DataPath where
  allocator := { lsm.allocator with
    zones := lsm.allocator.zones.map fun zone => { zone with writePointer := zone.writePointer + blockSectors } }
  gcZones := lsm.gcZones
  latest := lsm.latest
  validBlocks := lsm.validBlocks
  writesStopped := false
  writePointer := fun _ => 0
  condition := fun _ => .impOpen
  media := fun _ => 0

/-- A block is stored and its table frozen, queued, and claimed by the worker. -/
def oneFlush (lsm : Lsm) : List Turn := [.prepare (oneBlockOn lsm), .put 0 0, .io, .io, .io, .start, .flush 0]

theorem flushes_are_serial_fresh : ∃ lsm after,
    engineInit eagerParams 0 16 16 blockSectors (World.fresh smallGeometry) = (.ok lsm, after) ∧
      let workers := @interleave Generations.plainKernel (oneFlush lsm) (startWorkers ⟨lsm, after⟩)
      workers.machine.lsm.flushing.isSome = true ∧ workers.flushers.countP FlushPc.claims ≤ 1 := by
  have found : (engineInit eagerParams 0 16 16 blockSectors (World.fresh smallGeometry)).1.toOption.map (fun lsm =>
      (@interleave Generations.plainKernel (oneFlush lsm) (startWorkers ⟨lsm,
        (engineInit eagerParams 0 16 16 blockSectors (World.fresh smallGeometry)).2⟩)).machine.lsm.flushing.isSome) =
        some true := by decide +kernel
  generalize same : engineInit eagerParams 0 16 16 blockSectors (World.fresh smallGeometry) = outcome at found
  obtain ⟨_ | lsm, after⟩ := outcome
  · cases found
  · exact ⟨lsm, after, rfl, Option.some.inj found, (@flushes_are_serial_and_not_stranded Generations.plainKernel eagerParams 0 16 16
      blockSectors _ _ _ same (oneFlush lsm)).2.1⟩

end Lsm
end ZnsBase
