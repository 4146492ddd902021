import Mathlib.Algebra.Order.Monoid.Canonical.Defs
import ZnsBase.Library.Effect

/-! What programs use up. A meter tells what was used between two states; the amounts
add up along a run, so a program costs at most what its parts cost. A meter may also
watch a part of the state that nothing metered changes. -/

namespace ZnsBase.Library

structure Meter (σ κ : Type) [AddMonoid κ] where
  Used : κ → σ → σ → Prop
  none (state : σ) : Used 0 state state
  both {first second : κ} {before middle after : σ} : Used first before middle → Used second middle after →
    Used (first + second) before after

/-- A meter of a part of the state, while what `frame` shows stays. -/
def Meter.along {σ τ κ φ : Type} [AddMonoid κ] (meter : Meter σ κ) (view : τ → σ) (frame : τ → φ) : Meter τ κ where
  Used amount before after := meter.Used amount (view before) (view after) ∧ frame after = frame before
  none _ := ⟨meter.none _, rfl⟩
  both first second := ⟨meter.both first.1 second.1, second.2.trans first.2⟩

variable {σ τ ε α β κ φ : Type} [AddCommMonoid κ] [PartialOrder κ]

def Meter.Within (meter : Meter σ κ) (bound : κ) (before after : σ) : Prop :=
  ∃ amount ≤ bound, meter.Used amount before after

section Within
variable {meter : Meter σ κ} {bound more : κ} {before middle after : σ}

theorem Meter.Within.mono (within : meter.Within bound before after) (below : bound ≤ more) : meter.Within more before after := by
  obtain ⟨amount, few, used⟩ := within
  exact ⟨amount, few.trans below, used⟩

theorem Meter.Within.trans [IsOrderedAddMonoid κ] (first : meter.Within bound before middle) (second : meter.Within more middle after) :
    meter.Within (bound + more) before after := by
  obtain ⟨amount, few, used⟩ := first
  obtain ⟨rest, few', used'⟩ := second
  exact ⟨amount + rest, add_le_add few few', meter.both used used'⟩

theorem Meter.Within.of_free {view : τ → σ} {frame : τ → φ} {before after : τ} (same : view after = view before)
    (kept : frame after = frame before) : (meter.along view frame).Within 0 before after :=
  ⟨0, le_rfl, by rw [same]; exact meter.none _, kept⟩

theorem Meter.Within.framed {view : τ → σ} {frame : τ → φ} {before after : τ}
    (within : (meter.along view frame).Within bound before after) : frame after = frame before := by
  obtain ⟨_, _, _, kept⟩ := within
  exact kept

end Within

namespace Effect
variable {meter : Meter σ κ} {bound more : κ} {state : σ}

/-- From this state, however it ends, the program uses no more than `bound`. -/
def Costs (program : Effect σ ε α) (meter : Meter σ κ) (bound : κ) (state : σ) : Prop :=
  Ensures program state fun _ after => meter.Within bound state after

namespace Costs

theorem mono {program : Effect σ ε α} (costs : program.Costs meter bound state) (below : bound ≤ more) :
    program.Costs meter more state := Meter.Within.mono costs below

theorem get_bind {next : σ → Effect σ ε β} (rest : (next state).Costs meter more state) :
    (Effect.get >>= next).Costs meter more state := rest

/-- A program on the metered part. -/
theorem zoom {view : τ → σ} {frame : τ → φ} {put : τ → σ → τ} {program : Effect σ ε α} {state : τ}
    (got : ∀ state inner, view (put state inner) = inner) (kept : ∀ state inner, frame (put state inner) = frame state)
    (costs : program.Costs meter bound (view state)) : (Effect.zoom view put program).Costs (meter.along view frame) bound state := by
  obtain ⟨amount, few, used⟩ := costs
  refine ⟨amount, few, ?_, kept _ _⟩
  change meter.Used amount (view state) (view (put state (program (view state)).2))
  rw [got]
  exact used

section Free
variable [CanonicallyOrderedAdd κ]

/-- What uses nothing is within every bound. -/
theorem of_free {program : Effect σ ε α} (free : meter.Within 0 state (program state).2) : program.Costs meter bound state :=
  free.mono zero_le

theorem pure {value : α} : (Pure.pure value : Effect σ ε α).Costs meter bound state := ⟨0, zero_le, meter.none _⟩

theorem fail {error : ε} : (Effect.fail error : Effect σ ε α).Costs meter bound state := ⟨0, zero_le, meter.none _⟩

theorem ofExcept {result : Except ε α} : (Effect.ofExcept result : Effect σ ε α).Costs meter bound state :=
  ⟨0, zero_le, meter.none _⟩

end Free

section Sequence
variable [IsOrderedAddMonoid κ] {program : Effect σ ε α}

theorem attempt_bind {next : Except ε α → Effect σ ε β} (first : program.Costs meter bound state)
    (rest : ∀ result after, meter.Within bound state after → (next result).Costs meter more after) :
    (Effect.attempt program >>= next).Costs meter (bound + more) state :=
  Ensures.attempt_bind first fun result after within => within.trans (rest result after within)

theorem free_attempt_bind {next : Except ε α → Effect σ ε β} (first : program.Costs meter 0 state)
    (rest : ∀ result after, meter.Within 0 state after → (next result).Costs meter more after) :
    (Effect.attempt program >>= next).Costs meter more state := by
  have costs := first.attempt_bind rest
  rwa [zero_add] at costs

variable [CanonicallyOrderedAdd κ]

/-- One program after another. The second may rely on what the meter watches. -/
theorem bind {next : α → Effect σ ε β} (first : program.Costs meter bound state)
    (rest : ∀ value after, meter.Within bound state after → (next value).Costs meter more after) :
    (program >>= next).Costs meter (bound + more) state :=
  Ensures.bind first (fun value after within => within.trans (rest value after within))
    fun _ _ within => within.mono le_self_add

/-- After a step that uses nothing. -/
theorem free_bind {next : α → Effect σ ε β} (first : program.Costs meter 0 state)
    (rest : ∀ value after, meter.Within 0 state after → (next value).Costs meter more after) :
    (program >>= next).Costs meter more state := by
  have costs := first.bind rest
  rwa [zero_add] at costs

/-- Before steps that use nothing. -/
theorem bind_free {next : α → Effect σ ε β} (first : program.Costs meter bound state)
    (rest : ∀ value after, meter.Within bound state after → (next value).Costs meter 0 after) :
    (program >>= next).Costs meter bound state := by
  have costs := first.bind rest
  rwa [add_zero] at costs

end Sequence

end Costs
end Effect
end ZnsBase.Library
