import Mathlib.Logic.Basic
import Mathlib.Tactic.Ring

/-! Reflected cyclic redundancy checks without inversion, for any register width
and any polynomial whose top bit is set. Two runs over different bytes are
compared by their difference, which moves like a register of its own. -/

namespace ZnsBase.Library
variable {width : Nat} {polynomial : BitVec width}

def crcBit (polynomial register : BitVec width) : BitVec width :=
  if register.getLsbD 0 then (register >>> 1) ^^^ polynomial else register >>> 1

def crcBits (polynomial : BitVec width) : Nat → BitVec width → BitVec width
  | 0, register => register
  | count + 1, register => crcBits polynomial count (crcBit polynomial register)

def crcByte (polynomial register : BitVec width) (byte : UInt8) : BitVec width :=
  crcBits polynomial 8 (register ^^^ BitVec.ofNat width byte.toNat)

/-- The register after `count` bytes from `start` on. -/
def crcBytes (polynomial register : BitVec width) (memory : Nat → UInt8) (start : Nat) : Nat → BitVec width
  | 0 => register
  | count + 1 => crcByte polynomial (crcBytes polynomial register memory start count) (memory (start + count))

theorem crcBit_xor (first second : BitVec width) :
    crcBit polynomial (first ^^^ second) = crcBit polynomial first ^^^ crcBit polynomial second := by
  unfold crcBit
  rw [BitVec.getLsbD_xor, BitVec.ushiftRight_xor_distrib]
  cases first.getLsbD 0 <;> cases second.getLsbD 0 <;> simp only [Bool.xor_false, Bool.xor_true, Bool.not_true,
    Bool.not_false, if_true, Bool.false_eq_true, if_false]
  · ac_rfl
  · ac_rfl
  · rw [show (first >>> 1 ^^^ polynomial) ^^^ (second >>> 1 ^^^ polynomial) =
      first >>> 1 ^^^ second >>> 1 ^^^ (polynomial ^^^ polynomial) by ac_rfl, BitVec.xor_self, BitVec.xor_zero]

theorem crcBits_xor (count : Nat) (first second : BitVec width) :
    crcBits polynomial count (first ^^^ second) = crcBits polynomial count first ^^^ crcBits polynomial count second := by
  induction count generalizing first second with
  | zero => rfl
  | succ count ih => rw [crcBits, crcBits, crcBits, crcBit_xor, ih]

/-- The top bit tells whether the polynomial came in, so without it the step was
a plain shift of an even register. -/
theorem crcBit_small (top : polynomial.msb = true) {register : BitVec width}
    (small : (crcBit polynomial register).toNat < 2 ^ (width - 1)) :
    register.toNat = 2 * (crcBit polynomial register).toNat := by
  have low : register.getLsbD 0 = decide (register.toNat % 2 = 1) := by
    rw [BitVec.getLsbD, Nat.testBit_zero]
  have shifted : (crcBit polynomial register).msb = false := by
    rw [BitVec.msb_eq_decide]
    exact decide_eq_false (by omega)
  unfold crcBit at small shifted ⊢
  split at shifted
  next odd =>
    rw [BitVec.msb_xor, top, BitVec.msb_ushiftRight] at shifted
    simp at shifted
  next even =>
    rw [low] at even
    rw [if_neg (by rw [low]; exact even), BitVec.toNat_ushiftRight, Nat.shiftRight_eq_div_pow]
    simp only [decide_eq_true_eq] at even
    omega

theorem crcBits_small (top : polynomial.msb = true) {count : Nat} {register : BitVec width} (fits : count ≤ width)
    (small : (crcBits polynomial count register).toNat < 2 ^ (width - count)) :
    register.toNat = 2 ^ count * (crcBits polynomial count register).toNat := by
  induction count generalizing register with
  | zero => simp [crcBits]
  | succ count ih =>
    rw [crcBits] at small ⊢
    have smaller : 2 ^ (width - (count + 1)) ≤ 2 ^ (width - count) := Nat.pow_le_pow_right (by decide) (by omega)
    have rest := @ih (crcBit polynomial register) (by omega) (by omega)
    have bound : (crcBit polynomial register).toNat < 2 ^ (width - 1) := by
      rw [rest, show width - 1 = count + (width - (count + 1)) by omega, Nat.pow_add]
      exact Nat.mul_lt_mul_of_pos_left small (Nat.two_pow_pos count)
    rw [crcBit_small top bound, rest, Nat.pow_succ]
    ring

private theorem xor_low {value low high : Nat} (byte : low < 2 ^ 8) (same : value ^^^ low = 2 ^ 8 * high) :
    value = 2 ^ 8 * high + low := by
  have above : value / 2 ^ 8 = high := by
    have := congrArg (· / 2 ^ 8) same
    simp only [Nat.xor_div_two_pow, Nat.div_eq_of_lt byte, Nat.xor_zero] at this
    omega
  have below : value % 2 ^ 8 = low := by
    have := congrArg (· % 2 ^ 8) same
    simp only [Nat.xor_mod_two_pow, Nat.mod_eq_of_lt byte, Nat.mul_mod_right] at this
    rw [← Nat.xor_zero (value % 2 ^ 8), ← Nat.xor_self low, ← Nat.xor_assoc, this, Nat.zero_xor]
  omega

/-- How two runs differ before a byte, told from how they differ after it. -/
theorem crcByte_difference (top : polynomial.msb = true) (wide : 8 ≤ width) {first second : BitVec width} {byte other : UInt8}
    (small : (crcByte polynomial first byte ^^^ crcByte polynomial second other).toNat < 2 ^ (width - 8)) :
    (first ^^^ second).toNat =
      2 ^ 8 * (crcByte polynomial first byte ^^^ crcByte polynomial second other).toNat + (byte ^^^ other).toNat := by
  have apart : crcByte polynomial first byte ^^^ crcByte polynomial second other =
      crcBits polynomial 8 ((first ^^^ second) ^^^ BitVec.ofNat width (byte ^^^ other).toNat) := by
    unfold crcByte
    rw [← crcBits_xor, UInt8.toNat_xor, BitVec.ofNat_xor]
    congr 1
    ac_rfl
  have low : (byte ^^^ other).toNat < 2 ^ 8 := UInt8.toNat_lt _
  have narrow : (byte ^^^ other).toNat < 2 ^ width := low.trans_le (Nat.pow_le_pow_right (by decide) wide)
  rw [apart] at small ⊢
  have same := crcBits_small top wide small
  rw [BitVec.toNat_xor, BitVec.toNat_ofNat, Nat.mod_eq_of_lt narrow] at same
  exact xor_low low same

private theorem eq_of_xor_toNat {first second : BitVec width} (same : (first ^^^ second).toNat = 0) : first = second :=
  BitVec.xor_eq_zero_iff.mp (BitVec.eq_of_toNat_eq same)

/-- Registers that meet over the same bytes were the same before them. -/
theorem crcBytes_injective (top : polynomial.msb = true) (wide : 8 ≤ width) {first second : BitVec width} {memory : Nat → UInt8}
    {start count : Nat} (same : crcBytes polynomial first memory start count = crcBytes polynomial second memory start count) :
    first = second := by
  induction count with
  | zero => exact same
  | succ count ih =>
    rw [crcBytes, crcBytes] at same
    have before := @crcByte_difference _ _ top wide (crcBytes polynomial first memory start count)
      (crcBytes polynomial second memory start count) (memory (start + count)) (memory (start + count))
      (by rw [same, BitVec.xor_self]; exact Nat.two_pow_pos _)
    rw [same, BitVec.xor_self, UInt8.xor_self] at before
    exact ih (eq_of_xor_toNat before)

/-- As many bytes as fit in the register and leave no difference there are equal. -/
theorem crcBytes_burst (top : polynomial.msb = true) {register : BitVec width} {first second : Nat → UInt8} {start count : Nat}
    (fits : 8 * count ≤ width)
    (small : (crcBytes polynomial register first start count ^^^ crcBytes polynomial register second start count).toNat <
      2 ^ (width - 8 * count)) :
    crcBytes polynomial register first start count = crcBytes polynomial register second start count ∧
      ∀ index < count, first (start + index) = second (start + index) := by
  induction count with
  | zero => exact ⟨rfl, fun index inside => absurd inside (Nat.not_lt_zero index)⟩
  | succ count ih =>
    rw [crcBytes, crcBytes] at small ⊢
    generalize ran : crcBytes polynomial register first start count = one at small ih ⊢
    generalize ran' : crcBytes polynomial register second start count = two at small ih ⊢
    generalize byte : first (start + count) = here at small ⊢
    generalize byte' : second (start + count) = there at small ⊢
    have before := crcByte_difference top (by omega) (small.trans_le (Nat.pow_le_pow_right (by decide) (by omega)))
    have low : (here ^^^ there).toNat < 2 ^ 8 := UInt8.toNat_lt _
    have room : 2 ^ (width - 8 * count) = 2 ^ 8 * 2 ^ (width - 8 * (count + 1)) := by
      rw [← Nat.pow_add]
      congr 1
      omega
    obtain ⟨met, earlier⟩ := ih (by omega) (by rw [before, room]; omega)
    subst met
    rw [BitVec.xor_self, BitVec.toNat_zero] at before
    have last : here = there := UInt8.xor_eq_zero_iff.mp (UInt8.toNat_inj.mp (by rw [UInt8.toNat_zero]; omega))
    refine ⟨by rw [last], fun index inside => ?_⟩
    rcases Nat.lt_succ_iff_lt_or_eq.mp inside with less | rfl
    · exact earlier index less
    · rw [byte, byte', last]

theorem crcBytes_congr {register : BitVec width} {first second : Nat → UInt8} {start count : Nat}
    (same : ∀ index < count, first (start + index) = second (start + index)) :
    crcBytes polynomial register first start count = crcBytes polynomial register second start count := by
  induction count with
  | zero => rfl
  | succ count ih =>
    rw [crcBytes, crcBytes, ih fun index less => same index (by omega), same count (by omega)]

theorem crcBytes_append (register : BitVec width) (memory : Nat → UInt8) (start first second : Nat) :
    crcBytes polynomial register memory start (first + second) =
      crcBytes polynomial (crcBytes polynomial register memory start first) memory (start + first) second := by
  induction second with
  | zero => rfl
  | succ second ih => rw [← Nat.add_assoc, crcBytes, crcBytes, ih, Nat.add_assoc]

/-- A checksum tells apart any two memories that differ in consecutive bytes no
longer than the register. -/
theorem crcBytes_detects (top : polynomial.msb = true) (wide : 8 ≤ width) {register : BitVec width} {first second : Nat → UInt8}
    {start before length after : Nat} (fits : 8 * length ≤ width)
    (earlier : ∀ index < before, first (start + index) = second (start + index))
    (later : ∀ index < after, first (start + before + length + index) = second (start + before + length + index))
    (same : crcBytes polynomial register first start (before + length + after) =
      crcBytes polynomial register second start (before + length + after)) :
    ∀ index < length, first (start + before + index) = second (start + before + index) := by
  simp only [crcBytes_append, ← Nat.add_assoc] at same
  rw [crcBytes_congr earlier, crcBytes_congr later] at same
  have met := crcBytes_injective top wide same
  exact (crcBytes_burst top fits (by rw [met, BitVec.xor_self]; exact Nat.two_pow_pos _)).2

end ZnsBase.Library
