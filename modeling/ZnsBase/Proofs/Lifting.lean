import ZnsBase.Proofs.Requests

/-! Properties that the write path keeps whatever the device does. They are checked
at the changes the path makes to the engine; the loops around these are done once. -/

namespace ZnsBase
open Library

namespace Lsm
variable [Kernel]

/-- Publication keeps a property of the engine. -/
structure Publishes (Holds : Machine → Prop) (Known : Nat → Prop) : Prop where
  world : ∀ machine world, Holds machine → Holds { machine with world }
  publish : ∀ machine logicalBlock sector, Holds machine → Known logicalBlock →
    Effect.Ensures (publishWrite (logicalBlock * blockSectors) sector) machine (fun _ after => Holds after)

omit [Kernel] in
/-- An index update changes the indexes. -/
theorem updateGcBlockLocation_indexes (logicalBlock physicalSector : Nat) (lsm : Lsm) :
    Effect.Ensures (updateGcBlockLocation logicalBlock physicalSector) lsm (fun _ after => after = { lsm with
      gcZones := after.gcZones
      latest := after.latest
      validBlocks := after.validBlocks }) := by
  unfold Effect.Ensures updateGcBlockLocation gcCommit
  repeat' split
  all_goals rfl

/-- Publication keeps what is about neither the mappings nor the flags. -/
theorem publishWrite_keeps {Holds : Machine → Prop} (logicalSector physicalSector : Nat)
    (world : ∀ machine world, Holds machine → Holds { machine with world })
    (mappings : ∀ machine gcZones latest validBlocks gcIndexFailures tables flushInFlight flushPending writesStopped,
      Holds machine → Holds { machine with lsm := { machine.lsm with
        gcZones, latest, validBlocks, gcIndexFailures, tables, flushInFlight, flushPending, writesStopped } })
    {machine : Machine} (holds : Holds machine) :
    Effect.Ensures (publishWrite logicalSector physicalSector) machine (fun _ after => Holds after) := by
  have granted : Effect.Ensures (onWorld allocate) machine (fun _ after => Holds after) := world machine _ holds
  refine Effect.Ensures.bind granted (fun _ granted holds => ?_) fun _ _ holds => holds
  have put : Effect.Ensures (putActive (logicalSector / blockSectors) physicalSector) granted (fun _ after => Holds after) := by
    apply Effect.Ensures.get_bind
    have stored : Effect.Ensures (onWorld (granted.lsm.tables.putActive granted.lsm.memtableThreshold
        (logicalSector / blockSectors) physicalSector)) granted (fun _ after => Holds after) := world granted _ holds
    refine Effect.Ensures.bind stored (fun tables after holds => ?_) fun _ _ holds => holds
    exact mappings after after.lsm.gcZones after.lsm.latest after.lsm.validBlocks after.lsm.gcIndexFailures tables
      after.lsm.flushInFlight after.lsm.flushPending after.lsm.writesStopped holds
  refine Effect.Ensures.bind put (fun _ stored holds => ?_) fun _ _ holds => holds
  have indexed : Effect.Ensures (onLsm (updateGcBlockLocation (logicalSector / blockSectors) physicalSector)) stored
      (fun _ after => Holds after) := by
    refine Effect.Ensures.zoom (updateGcBlockLocation_indexes _ _ stored.lsm) fun _ after same => ?_
    rw [same]
    exact mappings stored after.gcZones after.latest after.validBlocks stored.lsm.gcIndexFailures stored.lsm.tables
      stored.lsm.flushInFlight stored.lsm.flushPending stored.lsm.writesStopped holds
  refine Effect.Ensures.attempt_bind indexed fun result after holds => ?_
  cases result with
  | error error =>
    exact mappings after after.lsm.gcZones after.lsm.latest after.lsm.validBlocks (after.lsm.gcIndexFailures + 1) after.lsm.tables
      after.lsm.flushInFlight after.lsm.flushPending true holds
  | ok value =>
    change Holds { after with lsm := maybeQueueFlush after.lsm }
    unfold maybeQueueFlush
    split
    · exact mappings after after.lsm.gcZones after.lsm.latest after.lsm.validBlocks after.lsm.gcIndexFailures after.lsm.tables
        true true after.lsm.writesStopped holds
    · exact holds

/-- So does what else moves a block. The blocks moved are those named by the reverse
maps. -/
structure Moves (Holds : Machine → Prop) (Known : Nat → Prop) : Prop extends Publishes Holds Known where
  allocator : ∀ machine allocator, Holds machine → Holds { machine with lsm.allocator := allocator }
  moves : ∀ machine gcMoved gcMoveWriteAttempts, Holds machine →
    Holds { machine with lsm := { machine.lsm with gcMoved, gcMoveWriteAttempts } }
  entries : ∀ machine id slot, Holds machine → machine.lsm.gcEntry id slot ≠ 0 →
    Known (decodeLogicalBlock (machine.lsm.gcEntry id slot))

/-- So does the rest of a collection. -/
structure Survives (Holds : Machine → Prop) (Known : Nat → Prop) : Prop extends Moves Holds Known where
  rounds : ∀ machine gcRuns gcResets gcZoneResetAttempts writesStopped, Holds machine →
    Holds { machine with lsm := { machine.lsm with gcRuns, gcResets, gcZoneResetAttempts, writesStopped } }

section Lift
variable {Holds : Machine → Prop} {Known : Nat → Prop} {machine : Machine}

omit [Kernel] in
/-- Whatever happens below the engine, when only the device counts. -/
theorem onWorld_keeps {α : Type} (program : Effect World Errno α)
    (world : ∀ machine world, Holds machine → Holds { machine with world }) (holds : Holds machine) :
    Effect.Ensures (onWorld program) machine (fun _ after => Holds after) :=
  world machine _ holds

omit [Kernel] in
theorem onAllocator_keeps {α : Type} (operation : Allocator → Except Errno α × Allocator)
    (allocator : ∀ machine allocator, Holds machine → Holds { machine with lsm.allocator := allocator }) (holds : Holds machine) :
    Effect.Ensures (onAllocator operation) machine (fun _ after => Holds after) :=
  allocator machine _ holds

omit [Kernel] in
theorem submitUnlessInjected_keeps (failAt attempt sector : Nat) (bytes : Nat → UInt8)
    (world : ∀ machine world, Holds machine → Holds { machine with world }) (holds : Holds machine) :
    Effect.Ensures (submitUnlessInjected failAt attempt sector bytes) machine (fun _ after => Holds after) := by
  unfold submitUnlessInjected
  split
  · exact holds
  · exact onWorld_keeps _ world holds

section Moves
variable (moves : Moves Holds Known)
include moves

theorem Moves.relocate (params : Params) {logicalBlock : Nat} (known : Known logicalBlock) (sourceSector : Nat)
    (holds : Holds machine) :
    Effect.Ensures (gcRelocateBlock params logicalBlock sourceSector) machine (fun _ after => Holds after) := by
  refine Effect.Ensures.bind (onWorld_keeps _ moves.world holds) (fun _ _ holds => ?_) fun _ _ holds => holds
  refine Effect.Ensures.bind (onAllocator_keeps _ moves.allocator holds) (fun _ taken holds => ?_) fun _ _ holds => holds
  apply Effect.Ensures.modify_bind
  apply Effect.Ensures.get_bind
  have counted := moves.moves taken taken.lsm.gcMoved (taken.lsm.gcMoveWriteAttempts + 1) holds
  refine Effect.Ensures.bind (submitUnlessInjected_keeps _ _ _ _ moves.world counted) (fun _ _ holds => ?_) fun _ _ holds => holds
  refine Effect.Ensures.bind (moves.publish _ _ _ holds known) (fun _ moved holds => ?_) fun _ _ holds => holds
  exact moves.moves moved (moved.lsm.gcMoved + 1) moved.lsm.gcMoveWriteAttempts holds

theorem Moves.moveSlots (params : Params) (id start : Nat) (slots : List Nat) (holds : Holds machine) :
    Effect.Ensures (gcMoveSlots params id start slots) machine (fun _ after => Holds after) := by
  induction slots generalizing machine with
  | nil => exact holds
  | cons slot slots ih =>
    apply Effect.Ensures.get_bind
    dsimp only
    split
    · exact ih holds
    next filled =>
      exact Effect.Ensures.bind (moves.relocate params (moves.entries _ _ _ holds filled) _ holds)
        (fun _ _ holds => ih holds) fun _ _ holds => holds

end Moves

variable (survives : Survives Holds Known)
include survives

theorem Survives.collect (params : Params) (id : Nat) (victim : Zone) (holds : Holds machine) :
    Effect.Ensures (gcCollect params id victim) machine (fun _ after => Holds after) := by
  apply Effect.Ensures.get_bind
  refine Effect.Ensures.bind (survives.moveSlots params id _ _ holds) (fun _ emptied holds => ?_) fun _ _ holds => holds
  apply Effect.Ensures.get_bind
  split
  · exact holds
  apply Effect.Ensures.modify_bind
  apply Effect.Ensures.get_bind
  have counted := survives.rounds emptied emptied.lsm.gcRuns emptied.lsm.gcResets (emptied.lsm.gcZoneResetAttempts + 1)
    emptied.lsm.writesStopped holds
  split
  · exact counted
  refine Effect.Ensures.bind (onWorld_keeps _ survives.world counted) (fun _ reset holds => ?_) fun _ _ holds => holds
  apply Effect.Ensures.modify_bind
  have noted := survives.rounds reset reset.lsm.gcRuns (reset.lsm.gcResets + 1) reset.lsm.gcZoneResetAttempts
    reset.lsm.writesStopped holds
  refine Effect.Ensures.bind (onAllocator_keeps _ survives.allocator noted) (fun _ rotated holds => ?_) fun _ _ holds => holds
  exact survives.rounds rotated (rotated.lsm.gcRuns + 1) rotated.lsm.gcResets rotated.lsm.gcZoneResetAttempts
    rotated.lsm.writesStopped holds

theorem Survives.runGc (params : Params) (holds : Holds machine) :
    Effect.Ensures (runGcIfNeeded params) machine (fun _ after => Holds after) := by
  apply Effect.Ensures.get_bind
  split
  · exact holds
  dsimp only
  split
  · exact holds
  refine Effect.Ensures.ofExcept_bind (fun victim _ => ?_) fun _ _ => holds
  apply Effect.Ensures.get_bind
  refine Effect.Ensures.ofExcept_bind (fun _ _ => ?_) fun _ _ => holds
  refine Effect.Ensures.bind (onWorld_keeps _ survives.world holds) (fun _ _ holds => ?_) fun _ _ holds => holds
  split
  · exact holds
  next zone _ =>
    refine Effect.Ensures.attempt_bind (survives.collect params victim zone holds) fun result collected holds => ?_
    cases result with
    | ok value => exact holds
    | error error =>
      exact survives.rounds collected collected.lsm.gcRuns collected.lsm.gcResets collected.lsm.gcZoneResetAttempts true holds

theorem Survives.recover (physicalSector : Nat) (holds : Holds machine) :
    Effect.Ensures (recoverWritePointer physicalSector) machine (fun _ after => Holds after) := by
  have stopped (machine : Machine) (writesStopped : Bool) (holds : Holds machine) :
      Holds { machine with lsm := { machine.lsm with writesStopped } } :=
    survives.rounds machine machine.lsm.gcRuns machine.lsm.gcResets machine.lsm.gcZoneResetAttempts writesStopped holds
  apply Effect.Ensures.modify_bind
  refine Effect.Ensures.bind (onWorld_keeps _ survives.world (stopped machine true holds)) (fun _ _ holds => ?_) fun _ _ holds => holds
  refine Effect.Ensures.bind (onAllocator_keeps _ survives.allocator holds) (fun _ _ holds => ?_) fun _ _ holds => holds
  exact stopped _ false holds

/-- An append keeps it, if counting the attempt does. -/
theorem Survives.append (attempts : ∀ machine dataWriteAttempts, Holds machine →
      Holds { machine with lsm := { machine.lsm with dataWriteAttempts } }) (params : Params) {logicalBlock : Nat}
    (known : Known logicalBlock) (bytes : Nat → UInt8) (holds : Holds machine) :
    Effect.Ensures (appendWrite params (logicalBlock * blockSectors) bytes) machine (fun _ after => Holds after) := by
  apply Effect.Ensures.get_bind
  split
  · exact holds
  refine Effect.Ensures.bind (survives.runGc params holds) (fun _ _ holds => ?_) fun _ _ holds => holds
  refine Effect.Ensures.bind (onAllocator_keeps _ survives.allocator holds) (fun _ taken holds => ?_) fun _ _ holds => holds
  apply Effect.Ensures.modify_bind
  apply Effect.Ensures.get_bind
  refine Effect.Ensures.attempt_bind (submitUnlessInjected_keeps _ _ _ _ survives.world (attempts taken _ holds))
    fun result _ holds => ?_
  cases result with
  | ok value => exact survives.publish _ _ _ holds known
  | error error => exact Effect.Ensures.attempt_bind (survives.recover _ holds) fun _ _ holds => holds

end Lift

end Lsm
end ZnsBase
