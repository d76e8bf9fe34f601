import MachineInt.Kind

/-!
# Registers

A register is 128 bits wide and holds a pattern of any kind in its low bits. `Register.convert`
turns a pattern of one kind into a pattern of another: narrowing keeps the low bits, widening
fills the new bits with the sign of a signed source and with zeros otherwise. The signedness of
the target plays no part; it only decides how the result is read.

Main statement: `Register.getLsbD_convert`, what a conversion puts into each bit.
-/

set_option autoImplicit false

namespace MachineInt

/-- A bit pattern as wide as the widest `Kind`. -/
abbrev Register := BitVec 128

/-- The register whose low `k.bits` bits, and no others, are set. -/
def Kind.mask (k : Kind) : Register := (BitVec.allOnes k.bits).setWidth 128

theorem Kind.toNat_mask (k : Kind) : k.mask.toNat = k.card - 1 := by
  have hcard : 2 ^ k.bits ≤ 2 ^ 128 := Nat.pow_le_pow_right (by decide) k.bits_le
  have hpos := Nat.two_pow_pos k.bits
  unfold mask
  rw [BitVec.toNat_setWidth, BitVec.toNat_allOnes]
  exact Nat.mod_eq_of_lt (by omega)

/-- A register masked by `k.mask` is a pattern of `k`. -/
theorem Kind.toNat_and_mask_lt (k : Kind) (r : Register) : (r &&& k.mask).toNat < k.card := by
  have hpos := k.card_pos
  refine Nat.lt_of_le_of_lt (m := k.mask.toNat) ?_ ?_
  · rw [BitVec.toNat_and]
    exact Nat.and_le_right
  · rw [k.toNat_mask]
    omega

theorem Kind.getLsbD_mask (k : Kind) (i : Nat) : k.mask.getLsbD i = decide (i < k.bits) := by
  have hbits := k.bits_le
  unfold mask
  rw [BitVec.getLsbD_setWidth, BitVec.getLsbD_allOnes]
  simp only [Bool.and_eq_right_iff_imp, decide_eq_true_eq]
  omega

namespace Register

/-- The pattern `r`, read in kind `k`, denotes an integer below zero. -/
def isNegative (k : Kind) (r : Register) : Bool := k.signed && r.getLsbD (k.bits - 1)

/-- Converts a pattern from kind `source` to kind `target`; bits above the source are ignored. -/
def convert (source target : Kind) (r : Register) : Register :=
  let kept := r &&& source.mask
  if target.bits ≤ source.bits then kept &&& target.mask
  else if isNegative source kept then (kept ||| ~~~source.mask) &&& target.mask
  else kept

theorem isNegative_and_mask (k : Kind) (r : Register) :
    isNegative k (r &&& k.mask) = isNegative k r := by
  have hpos := k.bits_pos
  unfold isNegative
  rw [BitVec.getLsbD_and, k.getLsbD_mask, decide_eq_true (by omega), Bool.and_true]

/-- **The bits of a conversion**: those of `r` within `k`, then the sign, as far as `l` goes. -/
theorem getLsbD_convert (k l : Kind) (r : Register) (i : Nat) :
    (r.convert k l).getLsbD i =
      (decide (i < l.bits) && if i < k.bits then r.getLsbD i else isNegative k r) := by
  have hk := k.bits_le
  have hl := l.bits_le
  simp only [convert, isNegative_and_mask]
  by_cases hle : l.bits ≤ k.bits
  · simp only [hle, if_true, BitVec.getLsbD_and, Kind.getLsbD_mask]
    by_cases hi : i < l.bits
    · simp [hi, show i < k.bits by omega]
    · simp [hi]
  · simp only [hle, if_false]
    cases hneg : isNegative k r with
    | true =>
      simp only [if_true, BitVec.getLsbD_and, BitVec.getLsbD_or, BitVec.getLsbD_not,
        Kind.getLsbD_mask]
      by_cases hi : i < k.bits
      · simp [hi, show i < l.bits by omega]
      · by_cases hil : i < l.bits
        · simp [hi, hil, show i < 128 by omega]
        · simp [hil]
    | false =>
      simp only [Bool.false_eq_true, if_false, BitVec.getLsbD_and, Kind.getLsbD_mask]
      by_cases hi : i < k.bits
      · simp [hi, show i < l.bits by omega]
      · simp [hi]

end Register

end MachineInt
