import Mathlib.Data.BitVec
import Mathlib.Tactic.LinearCombination
import MachineInt.Proofs.BitwiseCast
import MachineInt.Proofs.Shift

/-!
# Bitwise operations and arithmetic

Two patterns cut each other into three parts: the bits of the left one alone, the bits that both
have, and the bits of the right one alone. No bit is in two parts, so parts are put together by a
sum in which nothing is carried, and the patterns themselves and all bitwise operations on them are
such sums. What ties bitwise operations to arithmetic is then an identity between sums of parts,
in a ring where the carry out of the top bit is lost.

* `add_eq_of_bits`: a sum without a carry, bit by bit.
* `andNot_add_and`, `notAnd_add_and`, `andNot_add_notAnd`, `xor_add_and`: the sums of parts.
* `Word.complement_eq_sub`, `Word.add_eq_xor_add_shiftLeft`, `Word.add_eq_or_add_and`,
  `Word.sub_eq_sub_parts`: the laws on two words.
* `Word.hasBits_iff_missing`: a word has the bits of another if the part that it misses is empty,
  which the other characterisations come down to.
* `bitwise_agrees_with_arithmetic`: all of it (`Word.BitwiseArithLaws`), and what the datapath does.
-/

set_option autoImplicit false

namespace MachineInt

variable {w : Nat} {k l : Kind}

/-! ## Sums without a carry -/

/-- Where `x` and `y` have no bit in common, their sum has the bits of either. -/
theorem add_eq_of_bits {x y z : BitVec w}
    (h : ∀ (i : Nat) (hi : i < w), (x[i] && y[i]) = false ∧ (x[i] || y[i]) = z[i]) :
    x + y = z := by
  have hdisjoint : x &&& y = 0#w := by
    ext i hi
    rw [BitVec.getElem_and, (h i hi).1, BitVec.getElem_zero]
  rw [BitVec.add_eq_or_of_and_eq_zero _ _ hdisjoint]
  ext i hi
  rw [BitVec.getElem_or, (h i hi).2]

theorem andNot_add_and (x y : BitVec w) : (x &&& ~~~y) + (x &&& y) = x := by
  apply add_eq_of_bits
  intro i hi
  cases hy : y[i] <;> simp [hy]

theorem notAnd_add_and (x y : BitVec w) : (~~~x &&& y) + (x &&& y) = y := by
  rw [BitVec.and_comm (~~~x), BitVec.and_comm x, andNot_add_and]

theorem andNot_add_notAnd (x y : BitVec w) : (x &&& ~~~y) + (~~~x &&& y) = x ^^^ y := by
  apply add_eq_of_bits
  intro i hi
  cases hx : x[i] <;> cases hy : y[i] <;> simp [hx, hy]

theorem xor_add_and (x y : BitVec w) : (x ^^^ y) + (x &&& y) = x ||| y := by
  apply add_eq_of_bits
  intro i hi
  cases hx : x[i] <;> cases hy : y[i] <;> simp [hx, hy]

theorem add_notAnd (x y : BitVec w) : x + (~~~x &&& y) = x ||| y := by
  linear_combination xor_add_and x y - andNot_add_and x y + andNot_add_notAnd x y

theorem add_eq_xor_add_double (x y : BitVec w) : x + y = (x ^^^ y) + ((x &&& y) + (x &&& y)) := by
  -- a sum carries the bits that both have, and keeps those of one alone
  linear_combination andNot_add_notAnd x y - andNot_add_and x y - notAnd_add_and x y

theorem sub_eq_parts (x y : BitVec w) : x - y = (x &&& ~~~y) - (~~~x &&& y) := by
  -- the bits that both have cancel in a difference
  linear_combination notAnd_add_and x y - andNot_add_and x y

namespace Word

/-! ## Two words -/

theorem bits_add (a b : Word k) : (a + b).bits = a.bits + b.bits := by
  show a.bits + (b.cast k).bits = _
  rw [cast_self]

theorem bits_sub (a b : Word k) : (a - b).bits = a.bits - b.bits := by
  show a.bits - (b.cast k).bits = _
  rw [cast_self]

theorem shiftLeft_one (a : Word k) : a <<< (one : Word l) = a + a := by
  have hcount : (one : Word l).toInt = (1 : Nat) := toInt_one
  have hsum : a + a = ofInt (a.toInt + a.toInt) := ArithOp.add.apply_eq_ofInt a a
  rw [shiftLeft_eq_ofInt hcount, hsum, Int.pow_one, mul_two]

theorem complement_eq_sub (a : Word k) : ~~~a = (zero : Word k) - a - (one : Word k) := by
  apply Word.ext
  rw [bits_complement, bits_sub, bits_sub, BitVec.not_eq_neg_add]
  exact congrArg (· - 1#k.bits) (BitVec.zero_sub a.bits).symm

theorem add_eq_xor_add_shiftLeft (a b : Word k) :
    a + b = (a ^^^ b) + ((a &&& b) <<< (one : Word l)) := by
  apply Word.ext
  rw [shiftLeft_one, bits_add, bits_add, bits_add, bits_xor, bits_and, add_eq_xor_add_double]

theorem or_eq_xor_add_and (a b : Word k) : a ||| b = (a ^^^ b) + (a &&& b) := by
  apply Word.ext
  rw [bits_add, bits_or, bits_xor, bits_and, xor_add_and]

theorem add_eq_or_add_and (a b : Word k) : a + b = (a ||| b) + (a &&& b) := by
  apply Word.ext
  rw [bits_add, bits_add, bits_or, bits_and, ← xor_add_and, BitVec.add_assoc,
    add_eq_xor_add_double]

theorem sub_eq_sub_parts (a b : Word k) : a - b = (a &&& ~~~b) - (~~~a &&& b) := by
  apply Word.ext
  rw [bits_sub, bits_sub, bits_and, bits_and, bits_complement, bits_complement, sub_eq_parts]

/-! ## Inclusion of bits -/

section

variable {a m : Word k}

/-- No bit of `m` is missing in `a`. -/
theorem hasBits_iff_missing : a.hasBits m = true ↔ (~~~a &&& m).bits = 0 := by
  have hparts := notAnd_add_and a.bits m.bits
  rw [hasBits_iff, Word.ext_iff, bits_and, bits_and, bits_complement]
  constructor
  · intro hshared
    linear_combination hparts - hshared
  · intro hmissing
    linear_combination hparts - hmissing

theorem hasBits_iff_and_complement : a.hasBits m = true ↔ m &&& ~~~a = zero := by
  rw [hasBits_iff_missing, Word.ext_iff, bits_and, bits_and, BitVec.and_comm]
  rfl

theorem hasBits_iff_or : a.hasBits m = true ↔ a ||| m = a := by
  rw [hasBits_iff_missing, Word.ext_iff, bits_or, bits_and, bits_complement, ← add_notAnd]
  exact add_eq_left.symm

theorem hasBits_iff_sub : a.hasBits m = true ↔ a - m = a &&& ~~~m := by
  rw [hasBits_iff_missing, Word.ext_iff, bits_sub, sub_eq_parts]
  exact sub_eq_self.symm

theorem hasBits_iff_xor : a.hasBits m = true ↔ a ^^^ m = a &&& ~~~m := by
  rw [hasBits_iff_missing, Word.ext_iff, bits_xor, ← andNot_add_notAnd]
  exact add_eq_left.symm

theorem hasBits_iff_sub_xor :
    a.hasBits m = true ↔ a - m = a ^^^ m ∧ a ^^^ m = a &&& ~~~m := by
  constructor
  · intro h
    have hxor := hasBits_iff_xor.1 h
    exact ⟨(hasBits_iff_sub.1 h).trans hxor.symm, hxor⟩
  · rintro ⟨-, hxor⟩
    exact hasBits_iff_xor.2 hxor

/-- The two sides differ by twice the part that is missing, so they are also the same if that is the
top bit alone. -/
theorem sub_eq_xor_iff : a - m = a ^^^ m ↔ (m &&& ~~~a) + (m &&& ~~~a) = zero := by
  rw [Word.ext_iff, Word.ext_iff, bits_sub, bits_xor, bits_add, bits_and, bits_complement,
    BitVec.and_comm m.bits, sub_eq_parts, ← andNot_add_notAnd, sub_eq_iff_eq_add, add_assoc]
  exact left_eq_add

end

/-- Zero lacks the top bit, whose borrow is lost. -/
example : (zero : Word .u8) - (ofInt 128 : Word .u8) = zero ^^^ ofInt 128 ∧
    (zero : Word .u8).hasBits (ofInt 128) = false := by decide

end Word

/-- The bitwise operations on `a` and `b` as wrapping sums and differences, and the inclusion of the
bits of `m` as equations. A count of one may be of any kind `l`. -/
structure Word.BitwiseArithLaws {k : Kind} (l : Kind) (a b m : Word k) : Prop where
  complement : ~~~a = (zero : Word k) - a - (one : Word k)
  add_xor : a + b = (a ^^^ b) + ((a &&& b) <<< (one : Word l))
  or : a ||| b = (a ^^^ b) + (a &&& b)
  add_or : a + b = (a ||| b) + (a &&& b)
  sub : a - b = (a &&& ~~~b) - (~~~a &&& b)
  hasBits_iff_or : a.hasBits m = true ↔ a ||| m = a
  hasBits_iff_and : a.hasBits m = true ↔ m &&& ~~~a = zero
  hasBits_iff_sub : a.hasBits m = true ↔ a - m = a ^^^ m ∧ a ^^^ m = a &&& ~~~m
  sub_eq_xor_iff : a - m = a ^^^ m ↔ (m &&& ~~~a) + (m &&& ~~~a) = zero
  complement_datapath : Datapath.complement (.ofWord a) = .ok (.ofWord (~~~a))
  arith_datapath (op : ArithOp) :
    Datapath.arith op (.ofWord a) (.ofWord b) = .ok (.ofWord (op.apply a b))
  bitwise_datapath (op : BitwiseOp) :
    Datapath.bitwise op (.ofWord a) (.ofWord b) = .ok (.ofWord (op.apply a b))
  carry_datapath :
    (do let c ← Datapath.bitwise .and (.ofWord a) (.ofWord b)
        let d ← Datapath.constant l .one
        Datapath.shiftLeft c d) = .ok (.ofWord ((a &&& b) <<< (one : Word l)))
  hasBits_register : a.hasBits m = (a.register &&& m.register == m.register)

/-- **Bitwise operations agree with wrapping arithmetic** in every kind: `Word.BitwiseArithLaws` for
all words. -/
theorem bitwise_agrees_with_arithmetic (k l : Kind) (a b m : Word k) :
    Word.BitwiseArithLaws l a b m where
  complement := a.complement_eq_sub
  add_xor := a.add_eq_xor_add_shiftLeft b
  or := a.or_eq_xor_add_and b
  add_or := a.add_eq_or_add_and b
  sub := a.sub_eq_sub_parts b
  hasBits_iff_or := Word.hasBits_iff_or
  hasBits_iff_and := Word.hasBits_iff_and_complement
  hasBits_iff_sub := Word.hasBits_iff_sub_xor
  sub_eq_xor_iff := Word.sub_eq_xor_iff
  complement_datapath := Datapath.complement_ofWord a
  arith_datapath op := Datapath.arith_ofWord op a b
  bitwise_datapath op := Datapath.bitwise_ofWord op a b
  carry_datapath := by
    rw [Datapath.bitwise_ofWord, Datapath.ok_bind, Datapath.constant_eq, Datapath.ok_bind]
    exact Datapath.shiftLeft_ofWord (a &&& b) (Word.one : Word l)
  hasBits_register := Word.hasBits_eq_register a m

end MachineInt
