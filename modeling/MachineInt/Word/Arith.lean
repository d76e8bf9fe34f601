import MachineInt.Word.Basic

/-!
# Operations on words

`add`, `sub` and `mul` keep the low bits of the exact result. The operand may be of any kind: it is
first cast to the kind of the left-hand side, whose kind the result has. Bitwise operations take two
words of one kind, so nothing is extended or lost.

The count of `shiftLeft` and `shiftRight` is a word of any kind, and its own integer decides. A
negative count shifts the other way. A distance of `k.bits` or more gives `zero`, also for a
negative word shifted right; below that, a right shift copies the sign of a signed kind.

Words of one kind are ordered as the integers they denote. `compareCast` compares with a word of
another kind after casting it, so it can call two different integers equal. A `Comparison` asks one
question about an order.

Main statements: `shiftBy_of_le`, `shiftBy_of_nonneg`, `shiftBy_down`, the ways a shift can go, and
`lt_iff_toInt`.
-/

set_option autoImplicit false

namespace MachineInt.Word

variable {k l : Kind}

/-! ## Ring operations -/

/-- The wrapped sum of `a` and the operand cast to `k`, as for `sub` and `mul`. -/
def add (a : Word k) (b : Word l) : Word k := ⟨a.bits + (b.cast k).bits⟩

def sub (a : Word k) (b : Word l) : Word k := ⟨a.bits - (b.cast k).bits⟩

def mul (a : Word k) (b : Word l) : Word k := ⟨a.bits * (b.cast k).bits⟩

instance : HAdd (Word k) (Word l) (Word k) := ⟨add⟩
instance : HSub (Word k) (Word l) (Word k) := ⟨sub⟩
instance : HMul (Word k) (Word l) (Word k) := ⟨mul⟩

/-! ## Sign -/

/-- The wrapped negation, for signed kinds only; `least` is its own negation. -/
def negate (a : Word k) (_signed : k.signed = true) : Word k := (zero : Word k) - a

/-- The wrapped absolute value; the `least` word of a signed kind is its own. -/
def abs (a : Word k) : Word k := if a.isNegative then (zero : Word k) - a else a

/-! ## Bitwise operations -/

instance : AndOp (Word k) := ⟨fun a b => ⟨a.bits &&& b.bits⟩⟩
instance : OrOp (Word k) := ⟨fun a b => ⟨a.bits ||| b.bits⟩⟩
instance : XorOp (Word k) := ⟨fun a b => ⟨a.bits ^^^ b.bits⟩⟩
instance : Complement (Word k) := ⟨fun a => ⟨~~~a.bits⟩⟩

/-- Every bit set in `m` is also set in `a`. -/
def hasBits (a m : Word k) : Bool := a &&& m == m

@[simp] theorem bits_and (a b : Word k) : (a &&& b).bits = a.bits &&& b.bits := rfl

@[simp] theorem bits_or (a b : Word k) : (a ||| b).bits = a.bits ||| b.bits := rfl

@[simp] theorem bits_xor (a b : Word k) : (a ^^^ b).bits = a.bits ^^^ b.bits := rfl

@[simp] theorem bits_complement (a : Word k) : (~~~a).bits = ~~~a.bits := rfl

/-! ## Shifts -/

/-- Moves the bits up by `n` places, or down by `-n` places when `n` is negative. -/
def shiftBy (a : Word k) (n : Int) : Word k :=
  if k.bits ≤ n.natAbs then zero
  else if 0 ≤ n then ⟨a.bits <<< n.natAbs⟩
  else if k.signed then ⟨a.bits.sshiftRight n.natAbs⟩
  else ⟨a.bits >>> n.natAbs⟩

def shiftLeft (a : Word k) (count : Word l) : Word k := a.shiftBy count.toInt

def shiftRight (a : Word k) (count : Word l) : Word k := a.shiftBy (-count.toInt)

instance : HShiftLeft (Word k) (Word l) (Word k) := ⟨shiftLeft⟩
instance : HShiftRight (Word k) (Word l) (Word k) := ⟨shiftRight⟩

/-! ### The ways a shift can go -/

theorem shiftBy_of_le {n : Int} (a : Word k) (h : k.bits ≤ n.natAbs) : a.shiftBy n = zero :=
  if_pos h

/-- Moving up by `k.bits` or more gives zero anyway, so there is no second case. -/
theorem shiftBy_of_nonneg {n : Int} (a : Word k) (h : 0 ≤ n) :
    a.shiftBy n = ⟨a.bits <<< n.natAbs⟩ := by
  by_cases hle : k.bits ≤ n.natAbs
  · rw [shiftBy_of_le a hle, BitVec.shiftLeft_eq_zero hle]
    rfl
  · unfold shiftBy
    rw [if_neg hle, if_pos h]

theorem shiftBy_zero (a : Word k) : a.shiftBy 0 = a := by
  rw [shiftBy_of_nonneg a (Int.le_refl 0), Int.natAbs_zero, BitVec.shiftLeft_zero]

theorem shiftBy_down {n : Nat} (a : Word k) (h : n < k.bits) :
    a.shiftBy (-n) = ⟨if k.signed then a.bits.sshiftRight n else a.bits >>> n⟩ := by
  rcases Nat.eq_zero_or_pos n with rfl | hpos
  · rw [Int.natCast_zero, Int.neg_zero, shiftBy_zero, BitVec.sshiftRight_zero,
      BitVec.ushiftRight_zero, ite_self]
  · unfold shiftBy
    rw [if_neg (by omega), if_neg (by omega), Int.natAbs_neg, Int.natAbs_natCast]
    split <;> rfl

/-! ## Operators and functions -/

theorem shiftLeft_def (a : Word k) (count : Word l) : a <<< count = a.shiftLeft count := rfl

theorem shiftRight_def (a : Word k) (count : Word l) : a >>> count = a.shiftRight count := rfl

/-! ## Order -/

/-- The comparison of the patterns of `a` and `b`, as the kind reads them. -/
def less (a b : Word k) : Bool := if k.signed then a.bits.slt b.bits else a.bits.ult b.bits

def order (a b : Word k) : Ordering := if less a b then .lt else if a = b then .eq else .gt

/-- The `order` as a partial one, which relates any two words. -/
def order? (a b : Word k) : Option Ordering := some (order a b)

instance : Ord (Word k) := ⟨order⟩
instance : LT (Word k) := ⟨fun a b => less a b = true⟩
instance : LE (Word k) := ⟨fun a b => order a b ≠ .gt⟩
instance (a b : Word k) : Decidable (a < b) := inferInstanceAs (Decidable (less a b = true))
instance (a b : Word k) : Decidable (a ≤ b) := inferInstanceAs (Decidable (order a b ≠ .gt))
instance : Max (Word k) := ⟨fun a b => if b < a then a else b⟩
instance : Min (Word k) := ⟨fun a b => if b < a then b else a⟩

def sort (words : List (Word k)) : List (Word k) := words.mergeSort fun a b => a ≤ b

theorem lt_iff_toInt (a b : Word k) : a < b ↔ a.toInt < b.toInt := by
  show less a b = true ↔ _
  unfold less toInt
  split
  · exact BitVec.slt_iff_toInt_lt
  · rw [BitVec.ult_iff_lt, BitVec.lt_def]
    exact Int.ofNat_lt.symm

/-! ## Comparisons across kinds -/

inductive Comparison where
  | eq
  | ne
  | lt
  | le
  | gt
  | ge

def Comparison.holds : Comparison → Ordering → Bool
  | eq, o => o == .eq
  | ne, o => o != .eq
  | lt, o => o == .lt
  | le, o => o != .gt
  | gt, o => o == .gt
  | ge, o => o != .lt

/-- Compares `a` with the operand cast to `k`. -/
def compareCast (a : Word k) (b : Word l) : Ordering := order a (b.cast k)

def holdsCast (c : Comparison) (a : Word k) (b : Word l) : Bool := c.holds (compareCast a b)

/-- The operand cast to `k` is `a`. -/
def equalsCast (a : Word k) (b : Word l) : Bool := compareCast a b == .eq

end MachineInt.Word
