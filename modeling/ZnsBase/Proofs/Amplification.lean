import Mathlib.Algebra.Group.Action.Defs
import Mathlib.Algebra.Order.BigOperators.Group.Finset
import ZnsBase.Library.Cleaning
import ZnsBase.Proofs.Capacity
import ZnsBase.Proofs.Lifting
import ZnsBase.Proofs.MetadataLog

/-! What collecting costs. The counters of the engine keep a ledger of its ordinary
zones: on a device where nothing fails every append is a write in it, after one
cleaning at most. How many live blocks a cleaning moves depends on the policy. -/

namespace ZnsBase
open Library

namespace Lsm

def ledger (lsm : Lsm) : Ledger := ⟨ordinaryFree lsm, lsm.dataWriteAttempts, lsm.gcMoved, lsm.gcRuns⟩

/-- The live blocks in the zone a policy picks: greedily at most their average over
the ordinary zones, otherwise less than the zone holds. -/
def mostLive (policy : PolicyName) (limit zones blocks : Nat) : Nat :=
  if policy = .greedy then limit / blockSectors / (zones - 1) else blocks - 1

theorem mostLive_le {limit zones blocks : Nat} (policy : PolicyName) (below : limit / blockSectors < (zones - 1) * blocks) :
    mostLive policy limit zones blocks ≤ blocks := by
  unfold mostLive
  split
  · exact (Nat.div_lt_of_lt_mul below).le
  · exact Nat.sub_le _ _

theorem ordinaryFree_of_allocator {before after : Lsm} (allocator : after.allocator = before.allocator) :
    ordinaryFree after = ordinaryFree before := by
  unfold ordinaryFree
  rw [allocator]
  refine Finset.sum_congr rfl fun id _ => ?_
  simp only [gcGetZoneInfo, allocator]
  split <;> rfl

/-- The zone of an append has one block less to give. -/
theorem freeBlocks_take {zone : Zone} (room : zone.CanAppend blockSectors) (low : zone.startSector ≤ zone.writePointer) :
    (if Zone.CanAppend { zone with writePointer := zone.writePointer + blockSectors } blockSectors then
      zoneFreeBlocks { zone with writePointer := zone.writePointer + blockSectors } else 0) + 1 = zoneFreeBlocks zone := by
  have fits := room.fits
  obtain ⟨notFull, writable, online, below, _⟩ := room
  have size : blockSectors = 8 := rfl
  simp only [zoneFreeBlocks, Zone.endSector, size] at fits below ⊢
  rw [if_neg (by omega : ¬ (zone.writePointer < zone.startSector ∨ zone.writePointer > zone.startSector + zone.capacity)),
    if_neg (by omega : ¬ (zone.writePointer + 8 < zone.startSector ∨ zone.writePointer + 8 > zone.startSector + zone.capacity))]
  split
  · omega
  next none_ =>
    have short : ¬ 8 ≤ zone.startSector + zone.capacity - (zone.writePointer + 8) := fun more =>
      none_ ⟨notFull, writable, online, by simp only [Zone.endSector]; omega, by simpa only [Zone.endSector] using more⟩
    omega

theorem ordinaryFree_take {lsm : Lsm} {allocator : Allocator} {index : Nat} {zone : Zone}
    (block : lsm.allocator.sectorsPerBlock = blockSectors) (takes : lsm.allocator.Takes allocator index zone)
    (ordinary : index ≠ lsm.allocator.reserveZone) (low : zone.startSector ≤ zone.writePointer) :
    ordinaryFree { lsm with allocator } + 1 = ordinaryFree lsm := by
  obtain ⟨bound, _⟩ := List.getElem?_eq_some_iff.mp takes.found
  have room := takes.room
  have zones := takes.zones
  rw [block] at room zones
  have member : index ∈ (Finset.range lsm.allocator.zones.length).erase lsm.allocator.reserveZone :=
    Finset.mem_erase.mpr ⟨ordinary, Finset.mem_range.mpr bound⟩
  have taken : (gcGetZoneInfo { lsm with allocator } index).freeBlocks + 1 = (gcGetZoneInfo lsm index).freeBlocks := by
    rw [gcGetZoneInfo_freeBlocks takes.found, if_pos room,
      @gcGetZoneInfo_freeBlocks { lsm with allocator } index { zone with writePointer := zone.writePointer + blockSectors }
        (by rw [zones, List.getElem?_set_self bound])]
    exact freeBlocks_take room low
  have others : ∀ other ∈ ((Finset.range lsm.allocator.zones.length).erase lsm.allocator.reserveZone).erase index,
      (gcGetZoneInfo { lsm with allocator } other).freeBlocks = (gcGetZoneInfo lsm other).freeBlocks := by
    intro other held
    have unmoved : allocator.zones[other]? = lsm.allocator.zones[other]? := by
      rw [zones, List.getElem?_set_ne (Ne.symm (Finset.ne_of_mem_erase held))]
    simp only [gcGetZoneInfo, unmoved]
    split <;> rfl
  unfold ordinaryFree
  rw [show allocator.zones.length = lsm.allocator.zones.length by rw [zones, List.length_set],
    show allocator.reserveZone = lsm.allocator.reserveZone from takes.reserveZone, ← Finset.add_sum_erase _ _ member,
    ← Finset.add_sum_erase _ _ member, Finset.sum_congr rfl others, ← taken]
  omega

variable [Kernel]

/-- What a write of one block counts. -/
structure Tally where
  gcRuns : Nat
  gcMoved : Nat
  dataWriteAttempts : Nat

omit [Kernel] in
def tally (lsm : Lsm) : Tally := ⟨lsm.gcRuns, lsm.gcMoved, lsm.dataWriteAttempts⟩

/-- Publication leaves the allocator and the counters alone. -/
theorem publishWrite_counts (logicalSector physicalSector : Nat) (machine : Machine) :
    Effect.Ensures (publishWrite logicalSector physicalSector) machine (fun _ after =>
      after.lsm.allocator = machine.lsm.allocator ∧ after.lsm.tally = machine.lsm.tally) :=
  @publishWrite_keeps _ (fun after => after.lsm.allocator = machine.lsm.allocator ∧ after.lsm.tally = machine.lsm.tally) _ _
    (fun _ _ same => same) (fun _ _ _ _ _ _ _ _ _ same => same) machine ⟨rfl, rfl⟩

/-- Moving blocks counts neither collections nor writes. -/
theorem counts_moves (runs written : Nat) :
    Moves (fun machine => machine.lsm.gcRuns = runs ∧ machine.lsm.dataWriteAttempts = written) fun _ => True where
  world _ _ counts := counts
  publish _ _ _ counts _ := publishWrite_keeps _ _ (fun _ _ counts => counts)
    (fun _ _ _ _ _ _ _ _ _ counts => counts) counts
  allocator _ _ counts := counts
  moves _ _ _ counts := counts
  entries _ _ _ _ _ := trivial

/-- A collection that goes through is counted once. -/
theorem gcCollect_counts (params : Params) (id : Nat) (victim : Zone) (machine : Machine) :
    Effect.Ensures (gcCollect params id victim) machine (fun result after =>
      after.lsm.dataWriteAttempts = machine.lsm.dataWriteAttempts ∧
      (result = .ok () → after.lsm.gcRuns = machine.lsm.gcRuns + 1)) := by
  apply Effect.Ensures.get_bind
  refine Effect.Ensures.bind ((counts_moves _ _).moveSlots params id _ _ ⟨rfl, rfl⟩) (fun _ emptied counts => ?_)
    fun _ _ counts => ⟨counts.2, by rintro ⟨⟩⟩
  obtain ⟨runs, written⟩ := counts
  apply Effect.Ensures.get_bind
  split
  · exact ⟨written, by rintro ⟨⟩⟩
  apply Effect.Ensures.modify_bind
  apply Effect.Ensures.get_bind
  split
  · exact ⟨written, by rintro ⟨⟩⟩
  have reset : Effect.Ensures (onWorld (zoneReset victim.startSector)) { emptied with lsm := { emptied.lsm with
      gcZoneResetAttempts := emptied.lsm.gcZoneResetAttempts + 1 } } (fun _ after =>
        after.lsm.gcRuns = machine.lsm.gcRuns ∧ after.lsm.dataWriteAttempts = machine.lsm.dataWriteAttempts) := ⟨runs, written⟩
  refine Effect.Ensures.bind reset (fun _ reset counts => ?_) fun _ _ counts => ⟨counts.2, by rintro ⟨⟩⟩
  apply Effect.Ensures.modify_bind
  have rotated : Effect.Ensures (onAllocator fun allocator => allocator.setReserveAfterReset id)
      { reset with lsm := { reset.lsm with gcResets := reset.lsm.gcResets + 1 } } (fun _ after =>
        after.lsm.gcRuns = machine.lsm.gcRuns ∧ after.lsm.dataWriteAttempts = machine.lsm.dataWriteAttempts) := counts
  refine Effect.Ensures.bind rotated (fun _ rotated counts => ?_) fun _ _ counts => ⟨counts.2, by rintro ⟨⟩⟩
  exact ⟨counts.2, fun _ => congrArg (· + 1) counts.1⟩

/-- With space there is nothing to do; without, what goes through is a collection. -/
theorem runGcIfNeeded_counts (params : Params) (collects : params.policy ≠ .none) (machine : Machine) :
    Effect.Ensures (runGcIfNeeded params) machine (fun result after =>
      after.lsm.dataWriteAttempts = machine.lsm.dataWriteAttempts ∧
      (machine.lsm.allocator.hasSpace = true → result = .ok () → after = machine) ∧
      (machine.lsm.allocator.hasSpace = false → result = .ok () → after.lsm.gcRuns = machine.lsm.gcRuns + 1)) := by
  apply Effect.Ensures.get_bind
  split
  · exact ⟨rfl, (by rintro _ ⟨⟩), (by rintro _ ⟨⟩)⟩
  next reserve found =>
    dsimp only
    have when := @GcPolicy.shouldGc_iff (gcContext machine.lsm reserve) params.policy
    split
    next idle =>
      refine ⟨rfl, fun _ _ => rfl, fun full => ?_⟩
      rw [idle] at when
      exact absurd (when.mpr ⟨collects, full⟩) Bool.false_ne_true
    next busy =>
      have full : machine.lsm.allocator.hasSpace = false := (when.mp (Bool.not_eq_false _ ▸ busy)).2
      have space : ¬ machine.lsm.allocator.hasSpace = true := by rw [full]; exact Bool.false_ne_true
      refine Effect.Ensures.ofExcept_bind (fun id _ => ?_) fun _ _ => ⟨rfl, (by rintro _ ⟨⟩), (by rintro _ ⟨⟩)⟩
      apply Effect.Ensures.get_bind
      refine Effect.Ensures.ofExcept_bind (fun _ _ => ?_) fun _ _ => ⟨rfl, (by rintro _ ⟨⟩), (by rintro _ ⟨⟩)⟩
      have granted : Effect.Ensures (onWorld allocate) machine (fun _ after => after.lsm = machine.lsm) := rfl
      refine Effect.Ensures.bind granted (fun _ granted same => ?_) fun _ _ same => ⟨by rw [same], (by rintro _ ⟨⟩), (by rintro _ ⟨⟩)⟩
      split
      · exact ⟨congrArg Lsm.dataWriteAttempts same, (by rintro _ ⟨⟩), (by rintro _ ⟨⟩)⟩
      next victim _ =>
        refine Effect.Ensures.attempt_bind (gcCollect_counts params id victim granted) fun result after counts => ?_
        rw [same] at counts
        cases result with
        | ok value => exact ⟨counts.1, fun some_ => absurd some_ space, fun _ _ => counts.2 rfl⟩
        | error error => exact ⟨counts.1, (by rintro _ ⟨⟩), (by rintro _ ⟨⟩)⟩

section Step
variable {params : Params} {log : Extent} {limit zones blocks : Nat} {machine : Machine}

/-- The greedy policy finds a zone with no more live blocks than the average. -/
theorem Able.spares (able : Able machine log limit zones blocks) (below : limit / blockSectors < (zones - 1) * blocks)
    {reserve : Zone} (found : machine.lsm.allocator.zones[machine.lsm.allocator.reserveZone]? = some reserve)
    (full : machine.lsm.allocator.hasSpace = false) {id : Nat}
    (chosen : params.policy.policy.selectVictim (gcContext machine.lsm reserve) = .ok id)
    (eligible : GcPolicy.Eligible (gcContext machine.lsm reserve) (gcGetZoneInfo machine.lsm id)) :
    machine.lsm.gcValid id ≤ mostLive params.policy limit zones blocks := by
  have coherent := able.serving.coherent
  have indexed := coherent.indexed
  have provisioned := able.provisioned
  obtain ⟨held, same, vacant⟩ := (able.serving.ready able.running).reserve
  cases found.symm.trans same
  obtain ⟨victim, present⟩ := Eligible.chosen eligible
  have fewer := Eligible.fewer eligible present (provisioned.equal victim (List.mem_of_getElem? present))
  unfold mostLive
  split
  next greedy =>
    rw [greedy] at chosen
    have live {other : Nat} {zone : Zone} (known : machine.lsm.allocator.zones[other]? = some zone) :
        (gcGetZoneInfo machine.lsm other).validBlocks = machine.lsm.gcValid other := by simp only [gcGetZoneInfo, known]
    have fewest := (GcPolicy.greedy_ok (gcContext_small coherent.attached reserve) chosen).1.2
    have least := sum_at_least (machine.lsm.gcZones.map GcZone.nrValidBlocks) (machine.lsm.gcValid id)
      machine.lsm.allocator.reserveZone fun other value held apart => by
        rw [List.getElem?_map] at held
        obtain ⟨gcZone, counted, rfl⟩ := Option.map_eq_some_iff.mp held
        obtain ⟨bound, _⟩ := List.getElem?_eq_some_iff.mp counted
        rw [indexed.zones] at bound
        have known := List.getElem?_eq_getElem bound
        have member := List.getElem_mem bound
        have count : machine.lsm.gcValid other = gcZone.nrValidBlocks := by
          simp only [gcValid, counted, Option.map_some, Option.getD_some]
        rw [← count]
        by_cases spare : machine.lsm.gcValid other < blocks
        · have fits := garbage_eligible coherent.attached.block full vacant
            (provisioned.equal reserve (List.mem_of_getElem? found)) known (provisioned.equal _ member)
            (provisioned.online _ member) apart spare
          have order := fewest other ⟨bound, fits⟩
          change (gcGetZoneInfo machine.lsm id).validBlocks ≤ (gcGetZoneInfo machine.lsm other).validBlocks at order
          rwa [live present, live known] at order
        · exact (fewer.trans_le (Nat.le_of_not_lt spare)).le
    have most : machine.lsm.validBlocks ≤ limit / blockSectors := by
      rw [indexed.total, logicalBlocks, coherent.logicalSectors]
      exact List.countP_le_length.trans_eq List.length_range
    have some_ : 0 < zones - 1 := Nat.pos_of_ne_zero fun none_ => by
      rw [none_, Nat.zero_mul] at below
      exact absurd below (Nat.not_lt_zero _)
    obtain ⟨bound, _⟩ := List.getElem?_eq_some_iff.mp found
    rw [List.length_map, indexed.zones, if_pos bound, provisioned.count, ← indexed.summed] at least
    refine (Nat.le_div_iff_mul_le some_).mpr ?_
    rw [Nat.mul_sub, Nat.mul_one, Nat.mul_comm]
    omega
  · exact Nat.le_sub_one_of_lt fewer

/-- An append that succeeds is a write in the ledger, after one cleaning at most. -/
theorem Able.append_ledger (able : Able machine log limit zones blocks) (collects : params.policy ≠ .none)
    (below : limit / blockSectors < (zones - 1) * blocks) (sector : Nat) (bytes : Nat → UInt8) :
    Effect.Ensures (appendWrite params sector bytes) machine (fun result after => result = .ok () →
      Ledger.Run blocks (mostLive params.policy limit zones blocks) machine.lsm.ledger after.lsm.ledger) := by
  have coherent := able.serving.coherent
  have ready := able.serving.ready able.running
  apply Effect.Ensures.get_bind
  rw [able.running, if_neg Bool.false_ne_true]
  refine Effect.Ensures.bind ((runGcIfNeeded_kept params coherent ready able.running).and
    (runGcIfNeeded_counts params collects machine)) ?_ (by rintro error _ _ ⟨⟩)
  rintro _ collected ⟨⟨kept, _, done, _⟩, written, idle, busy⟩
  obtain ⟨ready', _, how⟩ := done rfl
  have cleaned : Ledger.Run blocks (mostLive params.policy limit zones blocks) machine.lsm.ledger collected.lsm.ledger := by
    cases full : machine.lsm.allocator.hasSpace with
    | true => rw [idle full rfl]
    | false =>
      rcases how with ⟨_, none_ | space⟩ | ⟨id, reserve, found, chosen, eligible, collects⟩
      · exact absurd none_ collects
      · rw [full] at space
        cases space
      · obtain ⟨held, same, vacant⟩ := ready.reserve
        cases found.symm.trans same
        obtain ⟨victim, present⟩ := Eligible.chosen eligible
        have room := able.provisioned.equal reserve (List.mem_of_getElem? found)
        have fewer := Eligible.fewer eligible present (able.provisioned.equal victim (List.mem_of_getElem? present))
        have gained := collects.gains coherent.attached.block present found vacant (by rw [room]; exact fewer) full
        rw [room] at gained
        have step : collected.lsm.ledger = ⟨ordinaryFree machine.lsm + (blocks - machine.lsm.gcValid id),
            machine.lsm.dataWriteAttempts, machine.lsm.gcMoved + machine.lsm.gcValid id, machine.lsm.gcRuns + 1⟩ := by
          rw [ledger, gained, written, collects.gcMoved, busy full rfl]
        rw [step]
        exact .single (.clean (able.spares below found full chosen eligible) fewer.le)
  have spec := Allocator.alloc_spec kept.coherent.attached.zoned
  refine onAllocator_bind (fun physical allocator ran => ?_) fun _ _ _ => by rintro ⟨⟩
  rw [ran] at spec
  rcases spec with ⟨index, zone, same, ordinary, takes⟩ | ⟨failed, _⟩
  · have low : zone.startSector ≤ zone.writePointer := kept.coherent.attached.placed zone (List.mem_of_getElem? takes.found)
      (Zone.CanAppend.isWritable takes.room)
    have free := ordinaryFree_take kept.coherent.attached.block takes ordinary low
    apply Effect.Ensures.modify_bind
    apply Effect.Ensures.get_bind
    have submitted (attempt : Nat) (machine : Machine) : Effect.Ensures
        (submitUnlessInjected params.failDataWriteAt attempt physical bytes) machine (fun _ after => after.lsm = machine.lsm) :=
      submitUnlessInjected_keeps _ _ _ _ (fun _ _ same => same) rfl
    refine Effect.Ensures.attempt_bind (submitted _ _) fun result landed same => ?_
    cases result with
    | error error =>
      have recovers : Effect.Ensures (recoverWritePointer physical) landed (fun _ _ => True) := trivial
      exact Effect.Ensures.attempt_bind recovers fun _ _ _ => by rintro ⟨⟩
    | ok value =>
      refine (publishWrite_counts sector physical landed).mono fun result final counts _ => cleaned.tail ?_
      obtain ⟨taken, tallied⟩ := counts
      rw [same] at taken tallied
      have step : collected.lsm.ledger = ⟨ordinaryFree { collected.lsm with allocator } + 1, collected.lsm.dataWriteAttempts,
          collected.lsm.gcMoved, collected.lsm.gcRuns⟩ := by rw [ledger, free]
      have final_ : final.lsm.ledger = ⟨ordinaryFree { collected.lsm with allocator }, collected.lsm.dataWriteAttempts + 1,
          collected.lsm.gcMoved, collected.lsm.gcRuns⟩ := by
        rw [ledger, @ordinaryFree_of_allocator { collected.lsm with allocator } _ taken]
        exact congrArg (fun counts : Tally => (⟨_, counts.dataWriteAttempts, counts.gcMoved, counts.gcRuns⟩ : Ledger)) tallied
      rw [step, final_]
      exact .write
  · cases failed

end Step

omit [Kernel] in
theorem flushVictim_tally (victim : Memtable) (machine : Machine) : (flushVictim victim machine).2.lsm.tally = machine.lsm.tally := by
  unfold flushVictim advanceMetaWp
  dsimp only
  repeat' split
  all_goals rfl

omit [Kernel] in
theorem claimFlushVictim_tally (lsm : Lsm) : lsm.claimFlushVictim.tally = lsm.tally := by
  unfold claimFlushVictim
  split <;> rfl

omit [Kernel] in
theorem flushWorker_tally (machine : Machine) : (flushWorker machine).lsm.tally = machine.lsm.tally := by
  have links := @flushWorker_links (fun before after => after.lsm.tally = before.lsm.tally)
    (fun machine => claimFlushVictim_tally machine.lsm) (fun _ victim _ => flushVictim_tally victim _) (fun _ _ _ => rfl) machine
  generalize flushWorker machine = after at links
  induction links with
  | refl => rfl
  | tail _ step ih => exact step.trans ih

omit [Kernel] in
theorem ledger_of_tally {before after : Lsm} (allocator : after.allocator = before.allocator) (tally : after.tally = before.tally) :
    after.ledger = before.ledger := by
  rw [ledger, ordinaryFree_of_allocator allocator]
  exact congrArg (fun counts : Tally => (⟨_, counts.dataWriteAttempts, counts.gcMoved, counts.gcRuns⟩ : Ledger)) tally

section Runs
variable {params : Params} {log : Extent} {limit zones blocks : Nat} {machine : Machine} (collects : params.policy ≠ .none)
  (uninjected : Uninjected params) (below : limit / blockSectors < (zones - 1) * blocks)
  (roomy : limit / blockSectors < Kernel.entryLimit)
include collects uninjected below roomy

/-- What an event does is in the ledger. -/
theorem handle_ledger (event : Event) (able : Able machine log limit zones blocks) :
    Ledger.Run blocks (mostLive params.policy limit zones blocks) machine.lsm.ledger (handle params event machine).2.lsm.ledger := by
  cases event with
  | flushWork =>
    have flushed := flushWorker_flushed able.serving.coherent fun _ => able.healthy.distinct
    have same := ledger_of_tally flushed.flushes.allocator (flushWorker_tally machine)
    change Ledger.Run _ _ _ (flushWorker machine).lsm.ledger
    rw [same]
  | bio bio =>
    refine (@engineMap_preserves _ params (fun after => Able after log limit zones blocks ∧
      Ledger.Run blocks (mostLive params.policy limit zones blocks) machine.lsm.ledger after.lsm.ledger) limit ?_ ?_ ?_
      bio machine ⟨able, .refl⟩).2
    · exact fun _ held => held.1.serving.coherent.logicalSectors
    · intro before after held same
      refine ⟨held.1.same same, ?_⟩
      rw [same.1]
      exact held.2
    · intro before sector bytes held aligned inside
      refine ((held.1.append collects uninjected below roomy bytes aligned inside).and
        (held.1.append_ledger collects below sector bytes)).mono ?_
      rintro result after ⟨⟨done, able⟩, run⟩
      exact ⟨able, held.2.trans (run done)⟩

theorem run_ledger (events : List Event) (clean : Clean machine log limit) (provisioned : Provisioned machine zones blocks) :
    Ledger.Run blocks (mostLive params.policy limit zones blocks) machine.lsm.ledger (run params events machine).lsm.ledger := by
  induction events generalizing machine with
  | nil => exact .refl
  | cons event events ih =>
    obtain ⟨clean', provisioned'⟩ := ((@Lives.start _ limit machine).event collects uninjected event).able clean provisioned
      below roomy
    exact (handle_ledger collects uninjected below roomy event (clean.able provisioned)).trans (ih clean' provisioned')

end Runs

section Fresh
variable {log : Extent} {limit zones blocks : Nat} {machine : Machine}

omit [Kernel] in
theorem Provisioned.ordinary (provisioned : Provisioned machine zones blocks) (ready : Ready machine) :
    ((Finset.range machine.lsm.allocator.zones.length).erase machine.lsm.allocator.reserveZone).card = zones - 1 := by
  obtain ⟨_, found, _⟩ := ready.reserve
  obtain ⟨bound, _⟩ := List.getElem?_eq_some_iff.mp found
  rw [Finset.card_erase_of_mem (Finset.mem_range.mpr bound), Finset.card_range, provisioned.count]

omit [Kernel] in
/-- There is never more free than the ordinary zones hold. -/
theorem Provisioned.ordinaryFree_le (provisioned : Provisioned machine zones blocks) (ready : Ready machine)
    (attached : Attached machine log) : ordinaryFree machine.lsm ≤ (zones - 1) * blocks := by
  rw [← provisioned.ordinary ready, ← smul_eq_mul]
  refine Finset.sum_le_card_nsmul _ _ _ fun id member => ?_
  obtain ⟨zone, found⟩ : ∃ zone, machine.lsm.allocator.zones[id]? = some zone :=
    ⟨_, List.getElem?_eq_getElem (Finset.mem_range.mp (Finset.mem_of_mem_erase member))⟩
  have known := List.mem_of_getElem? found
  rw [gcGetZoneInfo_freeBlocks found, ← provisioned.equal _ known]
  split
  next room =>
    have low := attached.placed _ known room.isWritable
    unfold zoneFreeBlocks
    split
    · exact Nat.zero_le _
    · refine Nat.div_le_div_right ?_
      simp only [Zone.endSector]
      omega
  · exact Nat.zero_le _

omit [Kernel] in
/-- With every zone empty, it is all free. -/
theorem Provisioned.ordinaryFree_fresh (provisioned : Provisioned machine zones blocks) (ready : Ready machine)
    (vacant : ∀ zone ∈ machine.lsm.allocator.zones, zone.condition = .empty ∧ zone.writePointer = zone.startSector) :
    (zones - 1) * blocks ≤ ordinaryFree machine.lsm := by
  rw [← provisioned.ordinary ready, ← smul_eq_mul]
  refine Finset.card_nsmul_le_sum _ _ _ fun id member => ?_
  obtain ⟨zone, found⟩ : ∃ zone, machine.lsm.allocator.zones[id]? = some zone :=
    ⟨_, List.getElem?_eq_getElem (Finset.mem_range.mp (Finset.mem_of_mem_erase member))⟩
  have known := List.mem_of_getElem? found
  obtain ⟨empty, pointer⟩ := vacant _ known
  rw [gcGetZoneInfo_freeBlocks found, ← provisioned.equal _ known]
  have free : zoneFreeBlocks zone = zone.capacity / blockSectors := by
    unfold zoneFreeBlocks
    rw [pointer, if_neg (by simp only [Zone.endSector]; omega)]
    simp only [Zone.endSector, Nat.add_sub_cancel_left]
  split
  · exact free.ge
  next full =>
    have small : zone.capacity < blockSectors := Nat.lt_of_not_le fun room =>
      full ⟨by rw [empty]; decide, by rw [empty]; decide, by rw [empty]; decide, by rw [pointer]; exact Nat.le_add_right _ _,
        by rw [pointer, Zone.endSector, Nat.add_sub_cancel_left]; exact room⟩
    rw [Nat.div_eq_of_lt small]

omit [Kernel] in
theorem Started.tally {params : Params} {uuid : Nat} {world : World} {data : List Extent} {opened after : Machine}
    (opening : Opened params limit uuid world opened.world data log opened.lsm) (started : Started opened after) :
    after.lsm.tally = ⟨0, 0, 0⟩ := by
  obtain ⟨rebuilt, reserve, vacant, done, held, isVacant, engine, quiet⟩ := started
  obtain ⟨recovered, adopts, reindexes⟩ := done.frame
  rw [engine, reindexes.engine, adopts.engine]
  dsimp only
  rw [opening.engine]
  rfl

end Fresh

end Lsm
end ZnsBase
