import ZnsBase.Proofs.Capacity
import ZnsBase.Proofs.FullLog
import ZnsBase.Proofs.Splitting

/-! A healthy device, and a target with room to spare: then nothing tells the target
from a disk that is an array and never fails. Thresholds, policies, flushes, collections
and restarts do not show. -/

namespace ZnsBase
open Library

namespace Lsm

/-- What a disk of so many sectors takes. -/
def Fitting (limit : Nat) (bio : Bio) : Prop :=
  bio.size ≠ 0 ∧ bio.size % sectorBytes = 0 ∧ bio.sector < limit ∧ bio.sectors ≤ limit - bio.sector

instance (limit : Nat) (bio : Bio) : Decidable (Fitting limit bio) := inferInstanceAs (Decidable (_ ∧ _ ∧ _ ∧ _))

/-- A disk that is an array: its answer to a request, and what it holds afterwards. -/
def flatDisk (limit : Nat) (bio : Bio) (contents : Nat → UInt8) : Reply × (Nat → UInt8) :=
  match bio.op with
  | .read =>
    if Fitting limit bio then
      (.read (.ok { bio with data := overlay bio.data 0 bio.size fun index => contents (bio.sector * sectorBytes + index) }), contents)
    else (.killed, contents)
  | .write =>
    if Fitting limit bio then (.wrote ⟨.ok (), 0⟩, overlay contents (bio.sector * sectorBytes) bio.size bio.data)
    else (.killed, contents)
  | .flush => (.flushed (.ok ()), contents)
  | .other => (.killed, contents)

variable [Kernel] {log : Extent} {limit zones blocks : Nat} {machine : Machine} {contents : Nat → UInt8}

omit [Kernel] in
theorem ample_of_healthy {world : World} (healthy : world.oracle.Healthy) : Ample world := funext healthy.alloc

section Able
variable (able : Able machine log limit zones blocks)
include able

/-- Every part of a read arrives. -/
theorem Able.readParts (rounds sector remaining : Nat) :
    Effect.Ensures (Lsm.readParts rounds sector remaining) machine (fun result _ => ∃ bytes, result = .ok bytes) := by
  induction rounds generalizing sector remaining machine with
  | zero => exact ⟨_, rfl⟩
  | succ rounds ih =>
    unfold Lsm.readParts
    split
    · exact ⟨_, rfl⟩
    next more =>
      have fetched : Effect.Ensures (readPart sector) machine (fun result after =>
          (∃ bytes, result = .ok bytes) ∧ Able after log limit zones blocks) := by
        refine Effect.Ensures.bind (able.fetch (fragment_bounds sector more).2.2.2.2) (fun buffer after fetched => ?_) ?_
        · exact ⟨⟨_, rfl⟩, fetched.2⟩
        · rintro _ _ ⟨⟨_, ⟨⟩⟩, _⟩
      refine Effect.Ensures.bind fetched (fun bytes after read => ?_) ?_
      · refine Effect.Ensures.bind (ih read.2 _ _) (fun _ _ _ => ⟨_, rfl⟩) ?_
        rintro _ _ ⟨_, ⟨⟩⟩
      · rintro _ _ ⟨⟨_, ⟨⟩⟩, _⟩

/-- A read is answered with what the target shows. -/
theorem Able.reads (shown : disk machine = contents) {bio : Bio} (whole : bio.size % sectorBytes = 0) :
    (ioRead bio machine).1 =
      .ok { bio with data := overlay bio.data 0 bio.size fun index => contents (bio.sector * sectorBytes + index) } := by
  have size : bio.size = bio.sectors * sectorBytes := (Nat.div_mul_cancel (Nat.dvd_of_mod_eq_zero whole)).symm
  have truthful := ioRead_spec ⟨able.serving, able.healthy.distinct, shown⟩ whole
  have arrives := able.readParts bio.sectors bio.sector bio.sectors
  unfold Effect.Ensures at truthful arrives
  rw [ioRead_parts bio (ample_of_healthy able.healthy) size] at truthful ⊢
  obtain ⟨bytes, arrived⟩ := arrives
  generalize Lsm.readParts bio.sectors bio.sector bio.sectors machine = read at arrived truthful ⊢
  obtain ⟨result, after⟩ := read
  cases arrived
  have same : overlay bio.data 0 bio.size bytes =
      overlay bio.data 0 bio.size fun index => contents (bio.sector * sectorBytes + index) := by
    funext index
    by_cases inside : index < bio.size
    · refine Eq.trans (truthful _ rfl index inside) ?_
      rw [overlay_inside (Nat.zero_le _) (by omega), Nat.sub_zero]
    · rw [overlay_outside (by omega), overlay_outside (by omega)]
  rw [← same]

section Requests
variable {params : Params} (collects : params.policy ≠ .none) (uninjected : Uninjected params)
  (below : limit / blockSectors < (zones - 1) * blocks) (roomy : limit / blockSectors < Kernel.entryLimit)
include collects uninjected below roomy

/-- Every request is answered as the array would answer it. -/
theorem Able.answers (shown : disk machine = contents) (bio : Bio) :
    (engineMap params bio machine).1 = (flatDisk limit bio contents).1 := by
  have logicalSectors := able.serving.coherent.logicalSectors
  have range : InRange machine.lsm bio ↔ Fitting limit bio := by
    rw [InRange, logicalSectors]
    rfl
  have queued : queueIo params bio machine = ioWorker params bio machine := by
    rw [queueIo, allocate_ample (ample_of_healthy able.healthy)]
  unfold engineMap flatDisk
  cases op : bio.op with
  | read =>
    dsimp only
    by_cases inRange : Fitting limit bio
    · rw [if_pos (range.mpr inRange), if_pos inRange, queued, ioWorker, op]
      have answered := able.reads shown inRange.2.1
      rw [op] at answered
      exact congrArg Reply.read answered
    · rw [if_neg (range.not.mpr inRange), if_neg inRange]
  | write =>
    dsimp only
    by_cases inRange : Fitting limit bio
    · have succeeds := (engineMap_succeeds collects uninjected below roomy able op (range.mpr inRange)).1
      rw [engineMap, op] at succeeds
      rw [if_pos inRange]
      exact succeeds
    · rw [if_neg (range.not.mpr inRange), if_neg inRange]
  | flush =>
    dsimp only
    rw [queued, ioWorker, op]
    refine congrArg Reply.flushed ?_
    rw [ioFlush, Effect.bind_ok (allocate_ample (ample_of_healthy able.healthy))]
    cases fate : machine.world.oracle.data.head with
    | fail error spill => exact absurd ⟨0, spill, fate⟩ (able.healthy.requests .data error)
    | ok =>
      have drawn : onWorld (draw .data) machine =
          (.ok .ok, { machine with world := { machine.world with oracle.data := machine.world.oracle.data.tail } }) := by
        rw [onWorld, Effect.zoom, draw, fate]
      rw [Effect.bind_ok drawn]
      rfl
  | other => rfl

end Requests

end Able

omit [Kernel] in
/-- What the target holds after a request it answered so. -/
theorem contentsAfter_flatDisk (limit : Nat) (bio : Bio) (contents : Nat → UInt8) :
    contentsAfter contents (.bio bio) (some (flatDisk limit bio contents).1) = (flatDisk limit bio contents).2 := by
  unfold flatDisk
  cases bio.op with
  | write =>
    dsimp only
    split
    next fitting =>
      have size : bio.sectors * sectorBytes = bio.size := Nat.div_mul_cancel (Nat.dvd_of_mod_eq_zero fitting.2.1)
      change overlay contents _ ((bio.sectors - 0) * sectorBytes) bio.data = _
      rw [Nat.sub_zero, size]
    · rfl
  | read =>
    dsimp only
    split <;> rfl
  | _ => rfl

/-- A target on a device where nothing fails, and an array that gets the same
requests. The tables may be flushed at any time, and the target detached and started
again with other parameters when what it has in memory still fits the log. -/
inductive Paired (limit : Nat) (start : Machine) : Machine → (Nat → UInt8) → Prop
  | start : Paired limit start start fun _ => 0
  | request {params : Params} (collects : params.policy ≠ .none) (uninjected : Uninjected params) (bio : Bio) {machine : Machine}
      {contents : Nat → UInt8} (paired : Paired limit start machine contents) :
      Paired limit start (engineMap params bio machine).2 (flatDisk limit bio contents).2
  | flushWork {machine : Machine} {contents : Nat → UInt8} (paired : Paired limit start machine contents) :
      Paired limit start (flushWorker machine) contents
  | restart {params : Params} {uuid physicalSectors sectorsPerBlock : Nat} {oracle : Oracle} {machine : Machine} {after : World}
      {lsm : Lsm} {contents : Nat → UInt8} (paired : Paired limit start machine contents) (fits : Fits (flushWorker machine).lsm)
      (healthy : oracle.Healthy)
      (ran : engineInit params uuid limit physicalSectors sectorsPerBlock { (engineExit machine).2 with oracle } =
        (.ok lsm, after)) : Paired limit start ⟨lsm, after⟩ contents

/-- A detach writes what is in memory, and the next start reads the same. -/
theorem Clean.restart_disk (clean : Clean machine log limit) (fits : Fits (Lsm.flushWorker machine).lsm) {params : Params}
    {uuid physicalSectors sectorsPerBlock : Nat} {oracle : Oracle} {after : World} {lsm : Lsm} (healthy : oracle.Healthy)
    (ran : engineInit params uuid limit physicalSectors sectorsPerBlock { (engineExit machine).2 with oracle } =
      (.ok lsm, after)) : disk ⟨lsm, after⟩ = disk machine := by
  have flushed := flushWorker_flushed clean.serving.coherent fun _ => clean.healthy.distinct
  have clean' := clean.flushWorker
  have coherent := clean'.serving.coherent
  obtain ⟨before, written, rest, recorded, detaches⟩ := clean'.detaches
  obtain rfl := (clean'.fits_iff recorded detaches).mp fits
  obtain ⟨opened, opening, started⟩ := engineInit_ok (detaches.split coherent.attached oracle) ran
  have sstables := detaches.relists coherent.attached oracle opening started healthy
  rw [detaches.redisked recorded coherent oracle opening started sstables]
  exact flushed.disk clean.serving.coherent trivial

theorem Clean.restarts (clean : Clean machine log limit) (fits : Fits (Lsm.flushWorker machine).lsm) {params : Params} {oracle : Oracle}
    (healthy : oracle.Healthy) (threshold : params.memtableThreshold ≠ 0) (uuid : Nat) {physicalSectors : Nat}
    (whole : physicalSectors % blockSectors = 0) : ∃ lsm after,
      engineInit params uuid limit physicalSectors blockSectors { (engineExit machine).2 with oracle } = (.ok lsm, after) := by
  have clean' := clean.flushWorker
  have coherent := clean'.serving.coherent
  obtain ⟨before, written, rest, recorded, detaches⟩ := clean'.detaches
  obtain rfl := (clean'.fits_iff recorded detaches).mp fits
  obtain ⟨_, lsm, after, ran, _⟩ := detaches.resumes recorded coherent oracle
    (clean'.ready.resumable coherent.attached coherent.indexed) healthy threshold uuid whole
  exact ⟨lsm, after, ran⟩

theorem Paired.lives {start : Machine} (paired : Paired limit start machine contents) : Lives limit start machine := by
  induction paired with
  | start => exact .start
  | request collects uninjected bio _ ih => exact ih.event collects uninjected (.bio bio)
  | flushWork _ ih => exact @Lives.event _ _ _ ⟨.greedy, 1, 0, 0, 0⟩ (by rintro ⟨⟩) ⟨rfl, rfl, rfl⟩ .flushWork _ ih
  | restart _ _ healthy ran ih => exact ih.restart healthy ran

section Pairs
variable {start : Machine} (clean : Clean start log limit) (provisioned : Provisioned start zones blocks)
  (below : limit / blockSectors < (zones - 1) * blocks) (roomy : limit / blockSectors < Kernel.entryLimit)
include clean provisioned below roomy

theorem Paired.shows (blank : disk start = fun _ => 0) (paired : Paired limit start machine contents) : disk machine = contents := by
  induction paired with
  | start => exact blank
  | @request params collects uninjected bio machine contents paired ih =>
    obtain ⟨clean, provisioned⟩ := paired.lives.able clean provisioned below roomy
    have reflects : Reflects machine log limit contents := ⟨clean.serving, clean.healthy.distinct, ih⟩
    have next := (handle_reflects params reflects (.bio bio)).2.disk
    have answered := (clean.able provisioned).answers collects uninjected below roomy ih bio
    change disk (engineMap params bio machine).2 = contentsAfter contents (.bio bio) (some (engineMap params bio machine).1) at next
    rw [next, answered, contentsAfter_flatDisk]
  | flushWork paired ih =>
    obtain ⟨clean, _⟩ := paired.lives.able clean provisioned below roomy
    exact ((flushWorker_flushed clean.serving.coherent fun _ => clean.healthy.distinct).disk clean.serving.coherent trivial).trans ih
  | restart paired fits healthy ran ih =>
    obtain ⟨clean, _⟩ := paired.lives.able clean provisioned below roomy
    exact (clean.restart_disk fits healthy ran).trans ih

end Pairs

end Lsm
end ZnsBase
