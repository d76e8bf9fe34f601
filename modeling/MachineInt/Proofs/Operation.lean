import MachineInt.Operation
import MachineInt.Proofs.Reduction

/-!
# Operations and order on integers and on patterns

Arithmetic on words is exact arithmetic on the integers they denote, reduced afterwards. The
operand keeps its own kind: what the cast to the left kind drops, the reduction drops anyway.
Bitwise operations act on the patterns and know nothing of integers. Words of one kind are ordered
as their integers; a word of another kind is cast first, so it equals a word of kind `k` exactly
when the two integers agree modulo `k.card`.

* `ArithOp.apply_eq_ofInt`: the three operations as reductions of the exact results (`onInt`).
* `ArithOp.onInt_emod`: exact results of congruent integers are congruent.
* `ArithOp.apply_eq_ofInt_of_emod`, `ArithOp.apply_ofInt`: operands known up to congruence, and as
  reduced integers.
* `ArithOp.apply_cast`: casting the operand to the left kind beforehand changes nothing.
* `BitwiseOp.bits_apply`, `BitwiseOp.setWidth_onBits`: the operations on patterns (`onBits`), and
  that they commute with truncation and zero filling.
* `Word.order_eq_compare`, `Word.order_eq_iff`, `Word.le_iff_toInt`, `Word.toInt_max`,
  `Word.toInt_min`: words of one kind. `Word.equalsCast_iff`: words of any two.
-/

set_option autoImplicit false

namespace MachineInt

variable {k l : Kind}

namespace Word

theorem bits_eq_ofInt (a : Word k) : a.bits = BitVec.ofInt k.bits a.toInt :=
  congrArg bits a.ofInt_toInt.symm

theorem bits_cast_eq_ofInt (k : Kind) (b : Word l) :
    (b.cast k).bits = BitVec.ofInt k.bits b.toInt :=
  congrArg bits (b.cast_eq_ofInt k)

end Word

/-! ## Arithmetic -/

namespace ArithOp

def onInt (op : ArithOp) (m n : Int) : Int :=
  match op with
  | add => m + n
  | sub => m - n
  | mul => m * n

theorem onInt_emod {m m' n n' c : Int} (op : ArithOp) (hm : m % c = m' % c)
    (hn : n % c = n' % c) : op.onInt m n % c = op.onInt m' n' % c := by
  cases op with
  | add =>
    show (m + n) % c = (m' + n') % c
    rw [Int.add_emod, hm, hn, ← Int.add_emod]
  | sub =>
    show (m - n) % c = (m' - n') % c
    rw [Int.sub_emod, hm, hn, ← Int.sub_emod]
  | mul =>
    show m * n % c = m' * n' % c
    rw [Int.mul_emod, hm, hn, ← Int.mul_emod]

/-- Sums and differences move `m` by an amount that does not depend on it. -/
theorem onInt_eq_add {op : ArithOp} (h : op ≠ mul) (n : Int) :
    ∃ d, ∀ m, op.onInt m n = m + d := by
  cases op with
  | add => exact ⟨n, fun _ => rfl⟩
  | sub => exact ⟨-n, fun _ => Int.sub_eq_add_neg⟩
  | mul => exact absurd rfl h

theorem onInt_mul {op : ArithOp} (h : op ≠ mul) (m n d : Int) :
    op.onInt (m * d) (n * d) = op.onInt m n * d := by
  cases op with
  | add => exact (Int.add_mul m n d).symm
  | sub => exact (Int.sub_mul m n d).symm
  | mul => exact absurd rfl h

theorem apply_eq_ofInt (op : ArithOp) (a : Word k) (b : Word l) :
    op.apply a b = Word.ofInt (op.onInt a.toInt b.toInt) := by
  apply Word.ext
  cases op with
  | add =>
    show a.bits + (b.cast k).bits = BitVec.ofInt k.bits (a.toInt + b.toInt)
    rw [BitVec.ofInt_add, ← Word.bits_eq_ofInt, ← Word.bits_cast_eq_ofInt]
  | sub =>
    show a.bits - (b.cast k).bits = BitVec.ofInt k.bits (a.toInt - b.toInt)
    rw [Int.sub_eq_add_neg, BitVec.ofInt_add, BitVec.ofInt_neg, ← Word.bits_eq_ofInt,
      ← Word.bits_cast_eq_ofInt, BitVec.sub_eq_add_neg]
  | mul =>
    show a.bits * (b.cast k).bits = BitVec.ofInt k.bits (a.toInt * b.toInt)
    rw [BitVec.ofInt_mul, ← Word.bits_eq_ofInt, ← Word.bits_cast_eq_ofInt]

theorem apply_eq_ofInt_of_emod {a : Word k} {b : Word l} {m n : Int} (op : ArithOp)
    (ha : a.toInt % k.card = m % k.card) (hb : b.toInt % k.card = n % k.card) :
    op.apply a b = Word.ofInt (op.onInt m n) := by
  rw [apply_eq_ofInt, Word.ofInt_eq_ofInt_iff]
  exact op.onInt_emod ha hb

theorem apply_ofInt (op : ArithOp) (m n : Int) :
    op.apply (Word.ofInt m : Word k) (Word.ofInt n : Word k) = Word.ofInt (op.onInt m n) :=
  op.apply_eq_ofInt_of_emod (Word.toInt_ofInt_emod m) (Word.toInt_ofInt_emod n)

theorem apply_cast (op : ArithOp) (a : Word k) (b : Word l) :
    op.apply a (b.cast k) = op.apply a b := by
  rw [apply_eq_ofInt, apply_eq_ofInt, Word.ofInt_eq_ofInt_iff, Word.toInt_cast]
  exact op.onInt_emod rfl (k.reduce_emod b.toInt)

end ArithOp

/-! ## Bitwise operations -/

namespace BitwiseOp

variable {w : Nat}

def onBits (op : BitwiseOp) (x y : BitVec w) : BitVec w :=
  match op with
  | and => x &&& y
  | or => x ||| y
  | xor => x ^^^ y

theorem bits_apply (op : BitwiseOp) (a b : Word k) :
    (op.apply a b).bits = op.onBits a.bits b.bits := by
  cases op <;> rfl

theorem setWidth_onBits (op : BitwiseOp) (n : Nat) (x y : BitVec w) :
    (op.onBits x y).setWidth n = op.onBits (x.setWidth n) (y.setWidth n) := by
  cases op with
  | and => exact BitVec.setWidth_and
  | or => exact BitVec.setWidth_or
  | xor => exact BitVec.setWidth_xor

end BitwiseOp

/-! ## Order and equality -/

namespace Word

/-! ### Words of one kind -/

theorem order_eq_compare (a b : Word k) : order a b = compare a.toInt b.toInt := by
  have hless : less a b = true ↔ a.toInt < b.toInt := lt_iff_toInt a b
  simp only [order, compare, compareOfLessAndEq, hless, toInt_inj]

theorem order_eq_iff {a b : Word k} : order a b = .eq ↔ a = b := by
  rw [order_eq_compare, Int.compare_eq_eq, toInt_inj]

theorem le_iff_toInt (a b : Word k) : a ≤ b ↔ a.toInt ≤ b.toInt := by
  show order a b ≠ .gt ↔ _
  rw [order_eq_compare, Int.compare_ne_gt]

theorem toInt_max (a b : Word k) : (max a b).toInt = max a.toInt b.toInt := by
  show (if b < a then a else b).toInt = _
  split <;> rename_i h <;> rw [lt_iff_toInt] at h <;> omega

theorem toInt_min (a b : Word k) : (min a b).toInt = min a.toInt b.toInt := by
  show (if b < a then b else a).toInt = _
  split <;> rename_i h <;> rw [lt_iff_toInt] at h <;> omega

/-! ### Words of any kinds -/

theorem equalsCast_iff {a : Word k} {b : Word l} :
    a.equalsCast b = true ↔ b.toInt % k.card = a.toInt % k.card := by
  unfold equalsCast compareCast
  rw [beq_iff_eq, order_eq_iff, cast_eq_ofInt, ← ofInt_eq_ofInt_iff, ofInt_toInt, eq_comm]

end Word

end MachineInt
