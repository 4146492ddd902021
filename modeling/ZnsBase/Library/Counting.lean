import Mathlib.Algebra.Order.BigOperators.Group.List
import Mathlib.Algebra.Order.Ring.Nat

/-! Counts and sums over lists of which one place changes. -/

namespace ZnsBase.Library

theorem countP_set {α : Type} (holds : α → Bool) (items : List α) {index : Nat} {old : α} (new : α)
    (found : items[index]? = some old) :
    (items.set index new).countP holds + (if holds old then 1 else 0) =
      items.countP holds + (if holds new then 1 else 0) := by
  induction items generalizing index with
  | nil => simp at found
  | cons item rest ih =>
    cases index with
    | zero =>
      obtain rfl : item = old := by simpa using found
      simp only [List.set_cons_zero, List.countP_cons]
      omega
    | succ index =>
      have := ih (by simpa using found)
      simp only [List.set_cons_succ, List.countP_cons]
      omega

theorem sum_map_modify {α : Type} (size : α → Nat) (change : α → α) (items : List α) {index : Nat} {old : α}
    (found : items[index]? = some old) :
    ((items.modify index change).map size).sum + size old = (items.map size).sum + size (change old) := by
  induction items generalizing index with
  | nil => simp at found
  | cons item rest ih =>
    cases index with
    | zero =>
      obtain rfl : item = old := by simpa using found
      simp only [List.modify_zero_cons, List.map_cons, List.sum_cons]
      omega
    | succ index =>
      have := ih (by simpa using found)
      simp only [List.modify_succ_cons, List.map_cons, List.sum_cons]
      omega

/-- A number below the bound joins a set of numbers. -/
theorem countP_range_insert (holds : Nat → Bool) {bound added : Nat} (inside : added < bound) (absent : holds added = false) :
    (List.range bound).countP (fun x => x = added || holds x) = (List.range bound).countP holds + 1 := by
  induction bound with
  | zero => omega
  | succ bound ih =>
    rw [List.range_succ, List.countP_append, List.countP_append, List.countP_singleton, List.countP_singleton]
    by_cases last : added = bound
    · subst last
      have same : (List.range added).countP (fun x => x = added || holds x) = (List.range added).countP holds := by
        apply List.countP_congr
        intro x member
        have := List.mem_range.mp member
        simp
        omega
      simp [same, absent]
    · have := ih (by omega)
      simp only [this]
      have apart : (decide (bound = added)) = false := by simpa using Ne.symm last
      simp only [apart, Bool.false_or]
      omega

/-- Counting through the positions of a list. -/
theorem countP_range_getD {α : Type} (holds : α → Bool) (items : List α) (default : α) :
    (List.range items.length).countP (fun index => holds (items[index]?.getD default)) = items.countP holds := by
  have same : items = (List.range items.length).map (fun index => items[index]?.getD default) := by
    apply List.ext_getElem
    · simp
    · intro index low high
      simp [low]
  conv_rhs => rw [same, List.countP_map]
  rfl

/-- Every place of a list but one holds a least number. -/
theorem sum_at_least (values : List Nat) (least place : Nat)
    (each : ∀ other value, values[other]? = some value → other ≠ place → least ≤ value) :
    values.length * least ≤ values.sum + (if place < values.length then least else 0) := by
  induction values generalizing place with
  | nil => simp
  | cons value rest ih =>
    rw [List.length_cons, List.sum_cons, Nat.succ_mul]
    cases place with
    | zero =>
      have further := ih rest.length fun other value found _ => each (other + 1) value found (Nat.succ_ne_zero other)
      rw [if_neg (Nat.lt_irrefl _)] at further
      rw [if_pos (Nat.succ_pos _)]
      omega
    | succ place =>
      have further := ih place fun other value found apart =>
        each (other + 1) value found fun same => apart (Nat.succ.inj same)
      have here := each 0 value rfl (Nat.succ_ne_zero place).symm
      simp only [Nat.succ_lt_succ_iff]
      omega

/-- No place of a list holds more than some number. -/
theorem sum_at_most {values : List Nat} {most : Nat} (each : ∀ value ∈ values, value ≤ most) {place value : Nat}
    (found : values[place]? = some value) : values.sum + most ≤ values.length * most + value := by
  induction values generalizing place with
  | nil => cases found
  | cons first rest ih =>
    obtain ⟨here, others⟩ := List.forall_mem_cons.mp each
    rw [List.length_cons, List.sum_cons, Nat.succ_mul]
    cases place with
    | zero =>
      cases found
      have bound := List.sum_le_card_nsmul rest most others
      simp only [nsmul_eq_mul, Nat.cast_id] at bound
      omega
    | succ place =>
      have further := ih others found
      omega

theorem sum_at_most_two {values : List Nat} {most : Nat} (each : ∀ value ∈ values, value ≤ most)
    {place other first second : Nat} (found : values[place]? = some first) (found' : values[other]? = some second)
    (apart : place ≠ other) : values.sum + most + most ≤ values.length * most + first + second := by
  induction values generalizing place other with
  | nil => cases found
  | cons value rest ih =>
    obtain ⟨here, others⟩ := List.forall_mem_cons.mp each
    rw [List.length_cons, List.sum_cons, Nat.succ_mul]
    cases place with
    | zero =>
      cases found
      cases other with
      | zero => exact absurd rfl apart
      | succ other =>
        have further := sum_at_most others found'
        omega
    | succ place =>
      cases other with
      | zero =>
        cases found'
        have further := sum_at_most others found
        omega
      | succ other =>
        have further := ih others found found' fun same => apart (congrArg Nat.succ same)
        omega

end ZnsBase.Library
