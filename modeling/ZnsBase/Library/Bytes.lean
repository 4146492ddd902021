import Mathlib.Data.Nat.Digits.Lemmas

/-! Byte memories as functions of an address, and little-endian fields in them.
A memory is total; a fixed-size buffer is a function of a bounded index. -/

namespace ZnsBase.Library

/-- Replace `count` bytes from `start` on by those of `source`. -/
def overlay (memory : Nat → UInt8) (start count : Nat) (source : Nat → UInt8) : Nat → UInt8 := fun address =>
  if start ≤ address ∧ address < start + count then source (address - start) else memory address

theorem overlay_inside {memory source : Nat → UInt8} {start count address : Nat}
    (low : start ≤ address) (high : address < start + count) :
    overlay memory start count source address = source (address - start) := by
  simp only [overlay, low, high, and_self, ite_true]

theorem overlay_outside {memory source : Nat → UInt8} {start count address : Nat}
    (outside : address < start ∨ start + count ≤ address) :
    overlay memory start count source address = memory address := by
  have : ¬ (start ≤ address ∧ address < start + count) := by omega
  simp only [overlay, this, ite_false]

theorem overlay_zero (memory source : Nat → UInt8) (start : Nat) : overlay memory start 0 source = memory := by
  funext address
  exact overlay_outside (by omega)

theorem overlay_congr {memory source other : Nat → UInt8} {start count : Nat}
    (same : ∀ index < count, source index = other index) : overlay memory start count source = overlay memory start count other := by
  funext address
  by_cases inside : start ≤ address ∧ address < start + count
  · rw [overlay_inside inside.1 inside.2, overlay_inside inside.1 inside.2, same _ (by omega)]
  · rw [overlay_outside (by omega), overlay_outside (by omega)]

/-- Two pieces of one source, one behind the other. -/
theorem overlay_append (memory source : Nat → UInt8) (start first second : Nat) :
    overlay (overlay memory start first source) (start + first) second (fun index => source (first + index)) =
      overlay memory start (first + second) source := by
  funext address
  by_cases low : address < start
  · rw [overlay_outside (by omega), overlay_outside (by omega), overlay_outside (by omega)]
  by_cases middle : address < start + first
  · rw [overlay_outside (by omega), overlay_inside (by omega) middle, overlay_inside (by omega) (by omega)]
  by_cases high : address < start + first + second
  · rw [overlay_inside (by omega) high, overlay_inside (by omega) (by omega)]
    congr 1
    omega
  · rw [overlay_outside (by omega), overlay_outside (by omega), overlay_outside (by omega)]

/-- Bytes that go on with others. -/
def splice (count : Nat) (bytes more : Nat → UInt8) : Nat → UInt8 := fun index =>
  if index < count then bytes index else more (index - count)

theorem splice_zero (bytes more : Nat → UInt8) : splice 0 bytes more = more := by
  funext index
  simp [splice]

theorem splice_splice (first second : Nat) (bytes more rest : Nat → UInt8) :
    splice first bytes (splice second more rest) = splice (first + second) (splice first bytes more) rest := by
  funext index
  unfold splice
  split
  · rw [if_pos (by omega)]
  · split
    · rw [if_pos (by omega)]
    · rw [if_neg (by omega), Nat.sub_sub]

theorem overlay_splice (memory bytes more : Nat → UInt8) (start first second : Nat) :
    overlay (overlay memory start first bytes) (start + first) second more = overlay memory start (first + second) (splice first bytes more) := by
  rw [← overlay_append]
  congr 1
  · refine overlay_congr fun index inside => ?_
    simp [splice, inside]
  · funext index
    simp [splice]

/-- Byte `index` of a number stored with its least significant byte first. -/
def leByte (value index : Nat) : UInt8 := UInt8.ofNat (value / 256 ^ index % 256)

/-- The number stored in `width` bytes from `start` on. -/
def leValue (memory : Nat → UInt8) (start : Nat) : Nat → Nat
  | 0 => 0
  | width + 1 => leValue memory start width + (memory (start + width)).toNat * 256 ^ width

/-- Store a number in `width` bytes. What does not fit is cut off, as a
conversion to the field's type does. -/
def leStore (memory : Nat → UInt8) (start width value : Nat) : Nat → UInt8 :=
  overlay memory start width (leByte value)

theorem leByte_toNat (value index : Nat) : (leByte value index).toNat = value / 256 ^ index % 256 := by
  simp only [leByte, UInt8.toNat_ofNat']
  omega

theorem leValue_congr {first second : Nat → UInt8} {start other : Nat} (width : Nat)
    (same : ∀ index < width, first (start + index) = second (other + index)) :
    leValue first start width = leValue second other width := by
  induction width with
  | zero => rfl
  | succ width ih =>
    rw [leValue, leValue, ih (fun index inside => same index (by omega)), same width (by omega)]

theorem leValue_lt (memory : Nat → UInt8) (start width : Nat) : leValue memory start width < 256 ^ width := by
  induction width with
  | zero => simp [leValue]
  | succ width ih =>
    have byte := (memory (start + width)).toNat_lt
    have top : (memory (start + width)).toNat * 256 ^ width ≤ 255 * 256 ^ width :=
      Nat.mul_le_mul_right _ (by omega)
    rw [leValue, Nat.pow_succ]
    omega

private theorem leValue_bytes (memory : Nat → UInt8) (start value : Nat) (width : Nat)
    (stored : ∀ index < width, memory (start + index) = leByte value index) :
    leValue memory start width = value % 256 ^ width := by
  induction width with
  | zero => simp [leValue, Nat.mod_one]
  | succ width ih =>
    rw [leValue, ih (fun index inside => stored index (by omega)), stored width (by omega), leByte_toNat,
      Nat.pow_succ, Nat.mod_mul]
    ring

theorem leValue_leStore (memory : Nat → UInt8) (start width value : Nat) :
    leValue (leStore memory start width value) start width = value % 256 ^ width := by
  apply leValue_bytes
  intro index inside
  rw [leStore, overlay_inside (by omega) (by omega)]
  congr 1
  omega

/-- Fields that hold the same number hold the same bytes. -/
theorem leValue_inj {first second : Nat → UInt8} {start width : Nat} (same : leValue first start width = leValue second start width) :
    ∀ index < width, first (start + index) = second (start + index) := by
  induction width with
  | zero => exact fun index inside => absurd inside (Nat.not_lt_zero index)
  | succ width ih =>
    rw [leValue, leValue] at same
    have low := leValue_lt first start width
    have low' := leValue_lt second start width
    have rest := congrArg (· % 256 ^ width) same
    have top := congrArg (· / 256 ^ width) same
    simp only [Nat.add_mul_mod_self_right, Nat.mod_eq_of_lt low, Nat.mod_eq_of_lt low'] at rest
    simp only [Nat.add_mul_div_right _ _ (show 0 < 256 ^ width by positivity), Nat.div_eq_of_lt low, Nat.div_eq_of_lt low',
      Nat.zero_add] at top
    intro index inside
    rcases Nat.lt_succ_iff_lt_or_eq.mp inside with less | rfl
    · exact ih rest index less
    · exact UInt8.toNat_inj.mp top

/-- Fields that do not overlap are independent. -/
theorem leValue_leStore_other {start other width otherWidth : Nat} (memory : Nat → UInt8) (value : Nat)
    (apart : start + width ≤ other ∨ other + otherWidth ≤ start) :
    leValue (leStore memory start width value) other otherWidth = leValue memory other otherWidth := by
  apply leValue_congr
  intro index inside
  exact overlay_outside (by omega)

end ZnsBase.Library
