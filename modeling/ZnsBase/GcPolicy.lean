import ZnsBase.Zone

/-! Garbage-collection policies (`zns-gc.h`, `gc-policy/`): when to collect, and
which zone. A policy sees the zones only through `ZoneInfo`. -/

namespace ZnsBase

/-- `struct zns_gc_zone_info`. -/
structure ZoneInfo where
  isReserve : Bool
  resettable : Bool
  capacityBlocks : Nat
  freeBlocks : Nat
  validBlocks : Nat
  deriving DecidableEq, Repr

/-- `struct zns_gc_context`, with `get_zone_info` applied to the engine. -/
structure GcContext where
  nrZones : Nat
  hasWriteSpace : Bool
  reserveFreeBlocks : Nat
  zoneInfo : Nat → ZoneInfo

structure GcPolicy where
  shouldGc : GcContext → Bool
  selectVictim : GcContext → Except Errno Nat

namespace GcPolicy

/-- The filter written out in both collecting policies. -/
def Eligible (ctx : GcContext) (info : ZoneInfo) : Prop :=
  info.isReserve = false ∧ info.resettable = true ∧ info.freeBlocks = 0 ∧
    info.validBlocks < info.capacityBlocks ∧ info.validBlocks ≤ ctx.reserveFreeBlocks

instance (ctx : GcContext) (info : ZoneInfo) : Decidable (Eligible ctx info) :=
  inferInstanceAs (Decidable (_ ∧ _ ∧ _ ∧ _ ∧ _))

def none : GcPolicy where
  shouldGc _ := false
  selectVictim _ := .error .enospc

/-- The loop of the simple policy over the zones not looked at yet. -/
def simpleScan (ctx : GcContext) : List Nat → Except Errno Nat
  | [] => .error .enospc
  | zone :: zones => if Eligible ctx (ctx.zoneInfo zone) then .ok zone else simpleScan ctx zones

def simple : GcPolicy where
  shouldGc ctx := !ctx.hasWriteSpace
  selectVictim ctx := simpleScan ctx (List.range ctx.nrZones)

/-- The loop of the greedy policy, with the fewest live blocks seen so far and
the zone that has them. -/
def greedyScan (ctx : GcContext) : List Nat → Nat → Except Errno Nat → Except Errno Nat
  | [], _, victim => victim
  | zone :: zones, fewestValid, victim =>
    let info := ctx.zoneInfo zone
    if info.isReserve ∨ info.resettable = false ∨ info.freeBlocks ≠ 0 ∨
        info.validBlocks ≥ info.capacityBlocks ∨ info.validBlocks > ctx.reserveFreeBlocks then
      greedyScan ctx zones fewestValid victim
    else if info.validBlocks < fewestValid then greedyScan ctx zones info.validBlocks (.ok zone)
    else greedyScan ctx zones fewestValid victim

/-- `(sector_t)-1` stands for no candidate yet. -/
def greedy : GcPolicy where
  shouldGc ctx := !ctx.hasWriteSpace
  selectVictim ctx := greedyScan ctx (List.range ctx.nrZones) (2 ^ 64 - 1) (.error .enospc)

end GcPolicy

/-- `ZNS_GC_POLICY`, the policy a build is made with. -/
inductive PolicyName where
  | none
  | simple
  | greedy
  deriving DecidableEq, Repr

def PolicyName.policy : PolicyName → GcPolicy
  | .none => .none
  | .simple => .simple
  | .greedy => .greedy

end ZnsBase
