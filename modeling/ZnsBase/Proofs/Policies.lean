import Mathlib.Order.Bounds.Basic
import ZnsBase.GcPolicy

/-! What the policies choose: an eligible zone, and both collecting policies find
one whenever there is one. The simple policy takes the first, the greedy policy
the first of those with the fewest live blocks. -/

namespace ZnsBase
namespace GcPolicy
variable {ctx : GcContext}

private theorem simpleScan_ok {zones : List Nat} (ordered : zones.Pairwise (· < ·)) {victim : Nat}
    (chosen : simpleScan ctx zones = .ok victim) : victim ∈ zones ∧ Eligible ctx (ctx.zoneInfo victim) ∧
      ∀ zone ∈ zones, Eligible ctx (ctx.zoneInfo zone) → victim ≤ zone := by
  induction zones with
  | nil => cases chosen
  | cons zone zones ih =>
    obtain ⟨first, ordered⟩ := List.pairwise_cons.mp ordered
    rw [simpleScan] at chosen
    split at chosen
    next eligible =>
      cases chosen
      refine ⟨List.mem_cons_self, eligible, fun other member _ => ?_⟩
      rcases List.mem_cons.mp member with rfl | rest
      · exact Nat.le_refl _
      · exact (first other rest).le
    next unfit =>
      obtain ⟨member, eligible, least⟩ := ih ordered chosen
      refine ⟨List.mem_cons_of_mem _ member, eligible, fun other member fit => ?_⟩
      rcases List.mem_cons.mp member with rfl | rest
      · exact absurd fit unfit
      · exact least other rest fit

private theorem simpleScan_error {zones : List Nat} {error : Errno} (failed : simpleScan ctx zones = .error error) :
    error = .enospc ∧ ∀ zone ∈ zones, ¬ Eligible ctx (ctx.zoneInfo zone) := by
  induction zones with
  | nil =>
    cases failed
    exact ⟨rfl, nofun⟩
  | cons zone zones ih =>
    rw [simpleScan] at failed
    split at failed
    · cases failed
    next unfit =>
      refine ⟨(ih failed).1, fun other member => ?_⟩
      rcases List.mem_cons.mp member with rfl | rest
      · exact unfit
      · exact (ih failed).2 other rest

/-- The skip of the greedy loop is the filter of the simple one. -/
private theorem greedy_skip (info : ZoneInfo) :
    (info.isReserve ∨ info.resettable = false ∨ info.freeBlocks ≠ 0 ∨ info.validBlocks ≥ info.capacityBlocks ∨
      info.validBlocks > ctx.reserveFreeBlocks) ↔ ¬ Eligible ctx info := by
  unfold Eligible
  cases info.isReserve <;> cases info.resettable <;> (simp; try omega)

/-- What the greedy loop holds after the zones it has seen: nothing yet, or their
first eligible zone with the fewest live blocks. -/
inductive Leads (ctx : GcContext) (seen : List Nat) : Nat → Except Errno Nat → Prop
  | none (unfit : ∀ zone ∈ seen, ¬ Eligible ctx (ctx.zoneInfo zone)) : Leads ctx seen (2 ^ 64 - 1) (.error .enospc)
  | some {victim : Nat} (member : victim ∈ seen) (eligible : Eligible ctx (ctx.zoneInfo victim))
      (fewest : ∀ zone ∈ seen, Eligible ctx (ctx.zoneInfo zone) →
        (ctx.zoneInfo victim).validBlocks < (ctx.zoneInfo zone).validBlocks ∨
          (ctx.zoneInfo victim).validBlocks = (ctx.zoneInfo zone).validBlocks ∧ victim ≤ zone) :
      Leads ctx seen (ctx.zoneInfo victim).validBlocks (.ok victim)

section Greedy
variable {seen : List Nat} {zone fewest : Nat} {best : Except Errno Nat} (leads : Leads ctx seen fewest best)
include leads

private theorem Leads.skip (unfit : ¬ Eligible ctx (ctx.zoneInfo zone)) : Leads ctx (seen ++ [zone]) fewest best := by
  cases leads with
  | none none_ =>
    refine .none fun other member => ?_
    rcases List.mem_append.mp member with old | new
    · exact none_ other old
    · rw [List.mem_singleton.mp new]
      exact unfit
  | some held eligible fewest =>
    refine .some (List.mem_append_left _ held) eligible fun other member fit => ?_
    rcases List.mem_append.mp member with old | new
    · exact fewest other old fit
    · rw [List.mem_singleton.mp new] at fit
      exact absurd fit unfit

/-- The sentinel is above every count, so the first eligible zone takes over. -/
private theorem Leads.consider (later : ∀ other ∈ seen, other < zone) (fit : Eligible ctx (ctx.zoneInfo zone))
    (small : (ctx.zoneInfo zone).capacityBlocks < 2 ^ 64) :
    Leads ctx (seen ++ [zone]) (if (ctx.zoneInfo zone).validBlocks < fewest then (ctx.zoneInfo zone).validBlocks else fewest)
      (if (ctx.zoneInfo zone).validBlocks < fewest then .ok zone else best) := by
  have fewer := fit.2.2.2.1
  cases leads with
  | none none_ =>
    have below : (ctx.zoneInfo zone).validBlocks < 2 ^ 64 - 1 := by omega
    rw [if_pos below, if_pos below]
    refine .some (List.mem_append_right _ (List.mem_singleton_self _)) fit fun other member eligible => ?_
    rcases List.mem_append.mp member with old | new
    · exact absurd eligible (none_ other old)
    · rw [List.mem_singleton.mp new]
      exact Or.inr ⟨rfl, Nat.le_refl _⟩
  | @some victim held eligible fewest =>
    split
    next less =>
      refine .some (List.mem_append_right _ (List.mem_singleton_self _)) fit fun other member eligible => ?_
      rcases List.mem_append.mp member with old | new
      · have bound := fewest other old eligible
        omega
      · rw [List.mem_singleton.mp new]
        exact Or.inr ⟨rfl, Nat.le_refl _⟩
    next more =>
      refine .some (List.mem_append_left _ held) eligible fun other member eligible => ?_
      rcases List.mem_append.mp member with old | new
      · exact fewest other old eligible
      · rw [List.mem_singleton.mp new]
        have before := later victim held
        omega

end Greedy

private theorem greedyScan_leads (small : ∀ zone, (ctx.zoneInfo zone).capacityBlocks < 2 ^ 64) (zones : List Nat)
    {seen : List Nat} {fewest : Nat} {best : Except Errno Nat} (ordered : (seen ++ zones).Pairwise (· < ·))
    (leads : Leads ctx seen fewest best) : ∃ least, Leads ctx (seen ++ zones) least (greedyScan ctx zones fewest best) := by
  induction zones generalizing seen fewest best with
  | nil =>
    rw [List.append_nil]
    exact ⟨fewest, leads⟩
  | cons zone zones ih =>
    rw [List.append_cons] at ordered ⊢
    have later : ∀ other ∈ seen, other < zone := fun other member =>
      (List.pairwise_append.mp (List.pairwise_append.mp ordered).1).2.2 other member zone (List.mem_singleton_self _)
    rw [greedyScan]
    split
    next skipped => exact ih ordered (leads.skip ((greedy_skip _).mp skipped))
    next kept =>
      have fit : Eligible ctx (ctx.zoneInfo zone) := not_not.mp fun unfit => kept ((greedy_skip _).mpr unfit)
      have next := leads.consider later fit (small zone)
      split
      next less =>
        rw [if_pos less, if_pos less] at next
        exact ih ordered next
      next more =>
        rw [if_neg more, if_neg more] at next
        exact ih ordered next

private theorem greedy_leads (small : ∀ zone, (ctx.zoneInfo zone).capacityBlocks < 2 ^ 64) :
    ∃ fewest, Leads ctx (List.range ctx.nrZones) fewest (greedy.selectVictim ctx) := by
  have start : Leads ctx [] (2 ^ 64 - 1) (.error .enospc) := .none fun _ member => absurd member List.not_mem_nil
  exact greedyScan_leads small (List.range ctx.nrZones) List.pairwise_lt_range start

/-- A zone a policy may choose. -/
def Candidate (ctx : GcContext) (zone : Nat) : Prop := zone < ctx.nrZones ∧ Eligible ctx (ctx.zoneInfo zone)

/-- A candidate with the fewest live blocks of all candidates. -/
def Cheapest (ctx : GcContext) (zone : Nat) : Prop :=
  Candidate ctx zone ∧ ∀ other, Candidate ctx other → (ctx.zoneInfo zone).validBlocks ≤ (ctx.zoneInfo other).validBlocks

private theorem candidate_iff {zone : Nat} :
    Candidate ctx zone ↔ zone ∈ List.range ctx.nrZones ∧ Eligible ctx (ctx.zoneInfo zone) := by
  rw [List.mem_range]
  exact Iff.rfl

theorem simple_ok {victim : Nat} (chosen : simple.selectVictim ctx = .ok victim) : IsLeast {zone | Candidate ctx zone} victim := by
  obtain ⟨member, eligible, least⟩ := simpleScan_ok List.pairwise_lt_range chosen
  refine ⟨candidate_iff.mpr ⟨member, eligible⟩, fun zone candidate => ?_⟩
  obtain ⟨member, fit⟩ := candidate_iff.mp candidate
  exact least zone member fit

theorem simple_error {error : Errno} (failed : simple.selectVictim ctx = .error error) :
    error = .enospc ∧ ∀ zone, ¬ Candidate ctx zone := by
  obtain ⟨same, unfit⟩ := simpleScan_error failed
  refine ⟨same, fun zone candidate => ?_⟩
  obtain ⟨member, fit⟩ := candidate_iff.mp candidate
  exact unfit zone member fit

section Counts
variable (small : ∀ zone, (ctx.zoneInfo zone).capacityBlocks < 2 ^ 64)
include small

theorem greedy_ok {victim : Nat} (chosen : greedy.selectVictim ctx = .ok victim) : IsLeast {zone | Cheapest ctx zone} victim := by
  obtain ⟨fewest, leads⟩ := greedy_leads small
  rw [chosen] at leads
  cases leads with
  | some member eligible fewest =>
    have candidate : Candidate ctx victim := candidate_iff.mpr ⟨member, eligible⟩
    refine ⟨⟨candidate, fun other rival => ?_⟩, fun zone cheapest => ?_⟩
    · obtain ⟨member, fit⟩ := candidate_iff.mp rival
      have bound := fewest other member fit
      omega
    · obtain ⟨rival, least⟩ := cheapest
      obtain ⟨member, fit⟩ := candidate_iff.mp rival
      have bound := fewest zone member fit
      have less := least victim candidate
      omega

theorem greedy_error {error : Errno} (failed : greedy.selectVictim ctx = .error error) :
    error = .enospc ∧ ∀ zone, ¬ Candidate ctx zone := by
  obtain ⟨fewest, leads⟩ := greedy_leads small
  rw [failed] at leads
  cases leads with
  | none unfit =>
    refine ⟨rfl, fun zone candidate => ?_⟩
    obtain ⟨member, fit⟩ := candidate_iff.mp candidate
    exact unfit zone member fit

/-- The simple policy takes the first candidate, the greedy policy the first of
the cheapest, and both fail exactly if there is none. -/
theorem victims_are_first_and_fewest :
    (∀ victim, simple.selectVictim ctx = .ok victim ↔ IsLeast {zone | Candidate ctx zone} victim) ∧
    (∀ victim, greedy.selectVictim ctx = .ok victim ↔ IsLeast {zone | Cheapest ctx zone} victim) ∧
    (simple.selectVictim ctx = .error .enospc ↔ ∀ zone, ¬ Candidate ctx zone) ∧
    (greedy.selectVictim ctx = .error .enospc ↔ ∀ zone, ¬ Candidate ctx zone) ∧
    ∀ first fewest, simple.selectVictim ctx = .ok first → greedy.selectVictim ctx = .ok fewest →
      (ctx.zoneInfo fewest).validBlocks ≤ (ctx.zoneInfo first).validBlocks := by
  refine ⟨fun victim => ⟨simple_ok, fun least => ?_⟩, fun victim => ⟨greedy_ok small, fun least => ?_⟩,
    ⟨fun failed => (simple_error failed).2, fun unfit => ?_⟩, ⟨fun failed => (greedy_error small failed).2, fun unfit => ?_⟩,
    fun first fewest chosen cheap => ?_⟩
  · cases chosen : simple.selectVictim ctx with
    | error error => exact absurd least.1 ((simple_error chosen).2 victim)
    | ok other => rw [(simple_ok chosen).unique least]
  · cases chosen : greedy.selectVictim ctx with
    | error error => exact absurd least.1.1 ((greedy_error small chosen).2 victim)
    | ok other => rw [(greedy_ok small chosen).unique least]
  · cases chosen : simple.selectVictim ctx with
    | error error => rw [(simple_error chosen).1]
    | ok other => exact absurd (simple_ok chosen).1 (unfit other)
  · cases chosen : greedy.selectVictim ctx with
    | error error => rw [(greedy_error small chosen).1]
    | ok other => exact absurd (greedy_ok small chosen).1.1 (unfit other)
  · exact (greedy_ok small cheap).1.2 first (simple_ok chosen).1

end Counts

/-- Three zones, the first with three live blocks, the others with one. -/
def threeZones : GcContext := ⟨3, false, 16, fun zone => ⟨false, true, 16, 0, if zone = 0 then 3 else 1⟩⟩

theorem victims_threeZones : simple.selectVictim threeZones = .ok 0 ∧ greedy.selectVictim threeZones = .ok 1 ∧
    IsLeast {zone | Cheapest threeZones zone} 1 := by
  have small : ∀ zone, (threeZones.zoneInfo zone).capacityBlocks < 2 ^ 64 := fun _ => show 16 < 2 ^ 64 by decide
  obtain ⟨_, fewest, _⟩ := victims_are_first_and_fewest small
  exact ⟨by decide, by decide, (fewest 1).mp (by decide)⟩

theorem selectVictim_ok {policy : PolicyName} {victim : Nat} (small : ∀ zone, (ctx.zoneInfo zone).capacityBlocks < 2 ^ 64)
    (chosen : policy.policy.selectVictim ctx = .ok victim) : Candidate ctx victim := by
  cases policy with
  | none => cases chosen
  | simple => exact (simple_ok chosen).1
  | greedy => exact (greedy_ok small chosen).1.1

theorem selectVictim_error {policy : PolicyName} {error : Errno} (collects : policy ≠ .none)
    (small : ∀ zone, (ctx.zoneInfo zone).capacityBlocks < 2 ^ 64) (failed : policy.policy.selectVictim ctx = .error error) :
    error = .enospc ∧ ∀ zone, ¬ Candidate ctx zone := by
  cases policy with
  | none => exact absurd rfl collects
  | simple => exact simple_error failed
  | greedy => exact greedy_error small failed

theorem shouldGc_iff {policy : PolicyName} : policy.policy.shouldGc ctx = true ↔ policy ≠ .none ∧ ctx.hasWriteSpace = false := by
  cases policy with
  | none => exact ⟨nofun, fun wrong => absurd rfl wrong.1⟩
  | simple => simp [PolicyName.policy, simple]
  | greedy => simp [PolicyName.policy, greedy]

end GcPolicy
end ZnsBase
