import Mathlib.Order.Bounds.Basic
import MachineInt.Proofs.BitwiseCast
import MachineInt.Proofs.ByteCast

/-!
# Bit counts

The leading zeros of a word are what its kind has beyond the length of its number, and the set bits
are counted place by place. So the counts of a union and a common part add up to those of the two
words, and a complement has the set bits that the word lacks. A cast to a wider kind keeps the
number of a word that is not negative, and with it the set bits and the length; a negative word is
the complement of such a word, before the cast and after it.

* `Word.isLeast_length`, `Word.leadingZeros_eq_bits_iff`, `Word.leadingZeros_eq_zero_iff`: leading
  zeros by the number.
* `cpop_add_cpop_of_bits`: **what holds of bits at every place holds of counts**, whence
  `cpop_and_add_cpop_or` and `cpop_xor_add_cpop_and`.
* `Word.countOnes_complement`, `Word.countOnes_and_add_or`, `Word.countOnes_xor_add_double_and`: set
  bits under bitwise operations.
* `Word.bits_cast_of_not_isNegative`, `Word.countOnes_cast_of_isNegative`: casts to wider kinds.
* `bit_counts`: all of it (`Word.BitCountLaws`), and the counts on the datapath.
-/

set_option autoImplicit false

namespace MachineInt

variable {w : Nat} {k l : Kind}

/-! ## Set bits by the place -/

/-- **Counts are sums over the places**: what holds of two bits at every place (`hbits`) holds of
the patterns. -/
theorem cpop_add_cpop_of_bits {x y u v : BitVec w}
    (h : ∀ i, (x.getLsbD i).toNat + (y.getLsbD i).toNat =
      (u.getLsbD i).toNat + (v.getLsbD i).toNat) :
    x.cpop.toNat + y.cpop.toNat = u.cpop.toNat + v.cpop.toNat := by
  have hplaces : ∀ n, x.cpopNatRec n 0 + y.cpopNatRec n 0 =
      u.cpopNatRec n 0 + v.cpopNatRec n 0 := by
    intro n
    induction n with
    | zero => rfl
    | succ n ih =>
      have hplace := h n
      simp only [BitVec.cpopNatRec_succ, BitVec.cpopNatRec_add]
      omega
  simpa only [BitVec.toNat_cpop] using hplaces w

theorem cpop_and_add_cpop_or (x y : BitVec w) :
    (x &&& y).cpop.toNat + (x ||| y).cpop.toNat = x.cpop.toNat + y.cpop.toNat := by
  apply cpop_add_cpop_of_bits
  intro i
  cases hx : x.getLsbD i <;> cases hy : y.getLsbD i <;> simp [hx, hy]

theorem cpop_xor_add_cpop_and (x y : BitVec w) :
    (x ^^^ y).cpop.toNat + (x &&& y).cpop.toNat = (x ||| y).cpop.toNat := by
  have hbits : (x ^^^ y).cpop.toNat + (x &&& y).cpop.toNat =
      (x ||| y).cpop.toNat + (0#w).cpop.toNat := by
    apply cpop_add_cpop_of_bits
    intro i
    cases hx : x.getLsbD i <;> cases hy : y.getLsbD i <;> simp [hx, hy]
  simpa using hbits

namespace Word

/-! ## Leading zeros -/

theorem leadingZeros_le (a : Word k) : a.leadingZeros ≤ k.bits := Datapath.toNat_clz_le a.bits

theorem bits_sub_leadingZeros_le_iff (a : Word k) (n : Nat) :
    k.bits - a.leadingZeros ≤ n ↔ a.toNat < Nat.pow 2 n :=
  (Datapath.toNat_lt_two_pow_iff a.bits n).symm

/-- **The bits below the leading zeros** of `a` are the least number of bits that hold it. -/
theorem isLeast_length (a : Word k) :
    IsLeast {n | a.toNat < Nat.pow 2 n} (k.bits - a.leadingZeros) :=
  ⟨(a.bits_sub_leadingZeros_le_iff _).1 (Nat.le_refl _),
    fun _ hn => (a.bits_sub_leadingZeros_le_iff _).2 hn⟩

theorem leadingZeros_eq_bits_iff (a : Word k) : a.leadingZeros = k.bits ↔ a = zero := by
  have hle := a.leadingZeros_le
  have hnone : k.bits - a.leadingZeros ≤ 0 ↔ a.toNat < 1 := a.bits_sub_leadingZeros_le_iff 0
  rw [← toNat_inj, show (zero : Word k).toNat = 0 from rfl]
  omega

theorem leadingZeros_eq_zero_iff (a : Word k) : a.leadingZeros = 0 ↔ k.card ≤ 2 * a.toNat := by
  have hle := a.leadingZeros_le
  have hpos := k.bits_pos
  have hcard := k.card_eq
  have hhalf := a.bits_sub_leadingZeros_le_iff (k.bits - 1)
  omega

/-! ## Set bits -/

theorem countOnes_complement (a : Word k) : a.countOnes + (~~~a).countOnes = k.bits := by
  have hle : a.countOnes ≤ k.bits := BitVec.toNat_cpop_le a.bits
  have hnot : (~~~a).countOnes = k.bits - a.countOnes := BitVec.toNat_cpop_not
  omega

theorem countOnes_and_add_or (a b : Word k) :
    (a &&& b).countOnes + (a ||| b).countOnes = a.countOnes + b.countOnes :=
  cpop_and_add_cpop_or a.bits b.bits

theorem countOnes_xor_add_double_and (a b : Word k) :
    (a ^^^ b).countOnes + 2 * (a &&& b).countOnes = a.countOnes + b.countOnes := by
  have hunion : (a ^^^ b).countOnes + (a &&& b).countOnes = (a ||| b).countOnes :=
    cpop_xor_add_cpop_and a.bits b.bits
  have hsum := countOnes_and_add_or a b
  omega

/-! ## Casts to wider kinds -/

section

variable {a : Word k}

theorem bits_cast_of_not_isNegative (h : k.bits ≤ l.bits) (hneg : ¬a.isNegative = true) :
    (a.cast l).bits = a.bits.setWidth l.bits := by
  apply BitVec.eq_of_toNat_eq
  rw [BitVec.toNat_setWidth_of_le h]
  show (a.cast l).toNat = a.toNat
  rw [toNat_cast_of_ge h, card_mul_fill h, if_neg hneg, Nat.add_zero]

theorem leadingZeros_cast_of_not_isNegative (h : k.bits ≤ l.bits)
    (hneg : ¬a.isNegative = true) :
    (a.cast l).leadingZeros = a.leadingZeros + (l.bits - k.bits) := by
  unfold leadingZeros
  rw [bits_cast_of_not_isNegative h hneg, Datapath.toNat_clz_setWidth _ h, Nat.add_comm]

theorem countOnes_cast_of_not_isNegative (h : k.bits ≤ l.bits) (hneg : ¬a.isNegative = true) :
    (a.cast l).countOnes = a.countOnes := by
  unfold countOnes
  rw [bits_cast_of_not_isNegative h hneg, BitVec.toNat_cpop_setWidth_eq_of_le h]

theorem card_le_of_isNegative (hneg : a.isNegative = true) : k.card ≤ 2 * a.toNat := by
  have hint := a.toInt_of_isNegative hneg
  have hrep := a.toInt_represents
  have hleast := k.least_eq
  have hcard := k.card_eq
  have hs : k.signed = true := signed_of_isNegative hneg
  simp only [Kind.Represents, Kind.least, hs, if_true] at hrep
  omega

theorem leadingZeros_of_isNegative (hneg : a.isNegative = true) : a.leadingZeros = 0 :=
  a.leadingZeros_eq_zero_iff.2 (card_le_of_isNegative hneg)

theorem leadingZeros_cast_of_isNegative (h : k.bits ≤ l.bits) (hneg : a.isNegative = true) :
    (a.cast l).leadingZeros = 0 := by
  -- the top bit stays set, although an unsigned kind does not read it as a sign
  have hnumber := card_le_of_isNegative hneg
  have hcard := Kind.card_le_card h
  rw [leadingZeros_eq_zero_iff, toNat_cast_of_ge h, card_mul_fill h, if_pos hneg]
  omega

theorem countOnes_cast_of_isNegative (h : k.bits ≤ l.bits) (hneg : a.isNegative = true) :
    (a.cast l).countOnes = a.countOnes + (l.bits - k.bits) := by
  -- the complement is not negative, and casts commute with it
  have hs : k.signed = true := signed_of_isNegative hneg
  have hcomplement : ¬(~~~a).isNegative = true := by
    rw [isNegative_complement hs, hneg]
    exact Bool.false_ne_true
  have hnarrow := a.countOnes_complement
  have hwide := (a.cast l).countOnes_complement
  rw [← cast_complement_of_signed hs, countOnes_cast_of_not_isNegative h hcomplement] at hwide
  omega

end

end Word

/-- The counts of the bits of `a` after a cast to a kind at least as wide. -/
structure Word.WidenedCounts {k : Kind} (l : Kind) (a : Word k) : Prop where
  leadingZeros_nonneg (hneg : ¬a.isNegative = true) :
    (a.cast l).leadingZeros = a.leadingZeros + (l.bits - k.bits)
  countOnes_nonneg (hneg : ¬a.isNegative = true) : (a.cast l).countOnes = a.countOnes
  leadingZeros_eq_zero (hneg : a.isNegative = true) : a.leadingZeros = 0
  leadingZeros_neg (hneg : a.isNegative = true) : (a.cast l).leadingZeros = 0
  countOnes_neg (hneg : a.isNegative = true) :
    (a.cast l).countOnes = a.countOnes + (l.bits - k.bits)

/-- The counts of the bits of two words, and of `a` after widening. The `length` of a number is the
least exponent whose power of two exceeds it. -/
structure Word.BitCountLaws {k : Kind} (a b : Word k) : Prop where
  length : ∃ length, IsLeast {n | a.register.toNat < Nat.pow 2 n} length ∧ length ≤ k.bits ∧
    a.leadingZeros = k.bits - length
  leadingZeros_le : a.leadingZeros ≤ k.bits
  leadingZeros_eq_bits_iff : a.leadingZeros = k.bits ↔ a = zero
  complement : a.countOnes + (~~~a).countOnes = k.bits
  and_or : (a &&& b).countOnes + (a ||| b).countOnes = a.countOnes + b.countOnes
  xor_and : (a ^^^ b).countOnes + 2 * (a &&& b).countOnes = a.countOnes + b.countOnes
  widened (l : Kind) (h : k.bits ≤ l.bits) : a.WidenedCounts l
  leadingZeros_datapath : Datapath.leadingZeros (.ofWord a) = .ok a.leadingZeros
  countOnes_datapath : Datapath.countOnes (.ofWord a) = a.countOnes

/-- **Bit counts** are those of the pattern of the kind, although the datapath counts in all 128
bits of a register: `Word.BitCountLaws` for all words. -/
theorem bit_counts (k : Kind) (a b : Word k) : a.BitCountLaws b where
  length := by
    have hle := a.leadingZeros_le
    refine ⟨k.bits - a.leadingZeros, ?_, Nat.sub_le _ _, by omega⟩
    rw [a.toNat_register]
    exact a.isLeast_length
  leadingZeros_le := a.leadingZeros_le
  leadingZeros_eq_bits_iff := a.leadingZeros_eq_bits_iff
  complement := a.countOnes_complement
  and_or := a.countOnes_and_add_or b
  xor_and := a.countOnes_xor_add_double_and b
  widened _ h :=
    { leadingZeros_nonneg := Word.leadingZeros_cast_of_not_isNegative h
      countOnes_nonneg := Word.countOnes_cast_of_not_isNegative h
      leadingZeros_eq_zero := Word.leadingZeros_of_isNegative
      leadingZeros_neg := Word.leadingZeros_cast_of_isNegative h
      countOnes_neg := Word.countOnes_cast_of_isNegative h }
  leadingZeros_datapath := Datapath.leadingZeros_ofWord a
  countOnes_datapath := Datapath.countOnes_ofWord a

theorem bit_counts_five :
    Kind.i8.bits ≤ Kind.u32.bits ∧
    (¬(Word.ofInt 5 : Word .i8).isNegative = true ∧
      ((Word.ofInt 5 : Word .i8).cast .u32).leadingZeros = 29 ∧
      ((Word.ofInt 5 : Word .i8).cast .u32).countOnes = 2) ∧
    ((Word.ofInt (-5) : Word .i8).isNegative = true ∧
      ((Word.ofInt (-5) : Word .i8).cast .u32).leadingZeros = 0 ∧
      ((Word.ofInt (-5) : Word .i8).cast .u32).countOnes = 31) := by
  have hle : Kind.i8.bits ≤ Kind.u32.bits := by decide
  have hfive : ¬(Word.ofInt 5 : Word .i8).isNegative = true := by decide
  have hminus : (Word.ofInt (-5) : Word .i8).isNegative = true := by decide
  have hzeros : (Word.ofInt 5 : Word .i8).leadingZeros = 5 := by decide
  have hones : (Word.ofInt 5 : Word .i8).countOnes = 2 := by decide
  have honesMinus : (Word.ofInt (-5) : Word .i8).countOnes = 7 := by decide
  have hcast := (bit_counts .i8 (Word.ofInt 5) (Word.ofInt 5)).widened .u32 hle
  have hcastMinus := (bit_counts .i8 (Word.ofInt (-5)) (Word.ofInt 5)).widened .u32 hle
  have hkept := hcast.leadingZeros_nonneg hfive
  have hcount := hcast.countOnes_nonneg hfive
  have hfilled := hcastMinus.countOnes_neg hminus
  rw [hzeros] at hkept
  rw [hones] at hcount
  rw [honesMinus] at hfilled
  exact ⟨hle, ⟨hfive, hkept, hcount⟩, hminus, hcastMinus.leadingZeros_neg hminus, hfilled⟩

end MachineInt
