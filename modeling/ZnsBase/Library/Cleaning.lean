import Mathlib.Logic.Relation
import Mathlib.Tactic.Ring

/-! Space in a log-structured store of equal segments, counted in units. A write
takes a free unit. A cleaning copies the live units of one full segment into an
empty one, and what is left of that is free. -/

namespace ZnsBase.Library

structure Ledger where
  free : Nat
  written : Nat
  moved : Nat
  cleanings : Nat
  deriving DecidableEq, Repr

namespace Ledger

/-- Segments of `size` units, of which a cleaning copies `most` at most. -/
inductive Step (size most : Nat) : Ledger → Ledger → Prop
  | write {free written moved cleanings : Nat} :
      Step size most ⟨free + 1, written, moved, cleanings⟩ ⟨free, written + 1, moved, cleanings⟩
  | clean {free written moved cleanings live : Nat} (fewer : live ≤ most) (fits : live ≤ size) :
      Step size most ⟨free, written, moved, cleanings⟩ ⟨free + (size - live), written, moved + live, cleanings + 1⟩

abbrev Run (size most : Nat) : Ledger → Ledger → Prop := Relation.ReflTransGen (Step size most)

variable {size most : Nat} {before after : Ledger}

/-- What cleanings bring in is what is free, written or moved since. -/
theorem Run.conserved (run : Run size most before after) :
    after.free + after.written + after.moved + before.cleanings * size =
      before.free + before.written + before.moved + after.cleanings * size := by
  induction run with
  | refl => rfl
  | tail _ step ih =>
    cases step with
    | write => dsimp only at ih ⊢; omega
    | clean _ fits => dsimp only at ih ⊢; rw [Nat.add_mul]; omega

/-- A segment pays for the units it costs with those it frees. -/
private theorem clean_pays {live : Nat} (fewer : live ≤ most) (fits : most ≤ size) :
    live * (size - most) ≤ most * (size - live) := by
  obtain ⟨spare, rfl⟩ := Nat.exists_eq_add_of_le fewer
  obtain ⟨room, rfl⟩ := Nat.exists_eq_add_of_le fits
  rw [Nat.add_sub_cancel_left, Nat.add_assoc, Nat.add_sub_cancel_left]
  calc live * room ≤ (live + spare) * room := Nat.mul_le_mul_right _ (Nat.le_add_right _ _)
    _ ≤ (live + spare) * (spare + room) := Nat.mul_le_mul_left _ (Nat.le_add_left _ _)

/-- The potential `most * (free + written) - moved * (size - most)` never falls. -/
theorem Run.pays (fits : most ≤ size) (run : Run size most before after) :
    most * (before.free + before.written) + after.moved * (size - most) ≤
      most * (after.free + after.written) + before.moved * (size - most) := by
  induction run with
  | refl => exact Nat.le_refl _
  | tail _ step ih =>
    cases step with
    | @write free written => dsimp only at ih ⊢; rwa [show free + (written + 1) = free + 1 + written by omega]
    | @clean free written moved _ live fewer _ =>
      dsimp only at ih ⊢
      have pays := clean_pays fewer fits
      have gained : most * (free + (size - live) + written) = most * (free + written) + most * (size - live) := by ring
      rw [gained, Nat.add_mul]
      omega

/-- Over a run that leaves no more free than it found, moves are bounded by writes. -/
theorem Run.amplifies (fits : most ≤ size) (run : Run size most before after) (filled : after.free ≤ before.free) :
    after.moved * (size - most) + most * before.written ≤ before.moved * (size - most) + most * after.written := by
  have pays := run.pays fits
  have held : most * after.free ≤ most * before.free := Nat.mul_le_mul_left _ filled
  rw [Nat.mul_add, Nat.mul_add] at pays
  omega

end Ledger
end ZnsBase.Library
