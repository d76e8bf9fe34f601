import MachineInt.Proofs.Datapath.Basic
import MachineInt.Proofs.Operation

/-!
# Arithmetic, bits and order on the datapath

The datapath computes on whole registers and keeps the low bits afterwards. On slots of words that
comes to the operations on words: sums, differences and products of the low bits are those of the
registers, and a mask clears what a complement sets above the kind.

* `arith_ofWord`, `negate_ofWord`, `abs_ofWord`: arithmetic.
* `complement_ofWord`, `bitwise_ofWord`, `countOnes_ofWord`: bits.
* `leadingZeros_ofWord`: the one operation that needs its operand clear above the kind, since it
  takes those bits off the number of zeros.
* `integer_ofWord`, `order_ofWord`: the integer of a slot, its sign extended by shifting.
* `constant_eq`: the constants, made by shifting.
-/

set_option autoImplicit false

namespace MachineInt.Datapath

variable {k l : Kind}

/-! ## Keeping the low bits -/

theorem setWidth_register (a : Word k) : a.register.setWidth k.bits = a.bits :=
  congrArg Word.bits a.ofRegister_register

theorem keep_of_setWidth_eq {r : Register} {x : BitVec k.bits} (h : r.setWidth k.bits = x) :
    keep k r = .ok (.ofWord ⟨x⟩) := by
  rw [keep_eq_ofWord]
  exact congrArg (fun y => Except.ok (Slot.ofWord (⟨y⟩ : Word k))) h

/-! ## Arithmetic -/

theorem arith_ofWord (op : ArithOp) (a : Word k) (b : Word l) :
    arith op (.ofWord a) (.ofWord b) = .ok (.ofWord (op.apply a b)) := by
  have hk := k.bits_le
  have ha := setWidth_register a
  have hb := setWidth_register (b.cast k)
  cases op with
  | add =>
    show (do let c ← cast k (.ofWord b); keep k (a.register + c.register)) = _
    rw [cast_ofWord, ok_bind]
    exact keep_of_setWidth_eq (by rw [BitVec.setWidth_add _ _ hk, ha]; exact congrArg _ hb)
  | sub =>
    show (do let c ← cast k (.ofWord b); keep k (a.register - c.register)) = _
    rw [cast_ofWord, ok_bind]
    refine keep_of_setWidth_eq ?_
    rw [BitVec.sub_eq_add_neg, BitVec.setWidth_add _ _ hk, BitVec.setWidth_neg_of_le hk, ha,
      ← BitVec.sub_eq_add_neg]
    exact congrArg _ hb
  | mul =>
    show (do let c ← cast k (.ofWord b); keep k (a.register * c.register)) = _
    rw [cast_ofWord, ok_bind]
    exact keep_of_setWidth_eq (by rw [BitVec.setWidth_mul _ _ hk, ha]; exact congrArg _ hb)

theorem negate_ofWord (a : Word k) :
    negate (.ofWord a) = .ok (.ofWord ((Word.zero : Word k) - a)) := by
  show (do let zero ← keep k 0#128; sub zero (.ofWord a)) = _
  rw [keep_zero, ok_bind]
  exact arith_ofWord .sub Word.zero a

theorem abs_ofWord (a : Word k) : abs (.ofWord a) = .ok (.ofWord a.abs) := by
  unfold abs Word.abs
  rw [isNegative_ofWord, ok_bind]
  split
  · exact negate_ofWord a
  · rfl

/-! ## Bits -/

theorem complement_ofWord (a : Word k) : complement (.ofWord a) = .ok (.ofWord (~~~a)) := by
  show keep k (~~~a.register) = .ok (.ofWord ⟨~~~a.bits⟩)
  exact keep_of_setWidth_eq (by rw [BitVec.setWidth_not k.bits_le, setWidth_register])

theorem bitwise_ofWord (op : BitwiseOp) (a b : Word k) :
    bitwise op (.ofWord a) (.ofWord b) = .ok (.ofWord (op.apply a b)) := by
  have hbits : (op.onBits a.register b.register).setWidth k.bits = (op.apply a b).bits := by
    rw [op.setWidth_onBits, setWidth_register, setWidth_register, op.bits_apply]
  cases op <;> exact keep_of_setWidth_eq hbits

theorem toNat_clz_le {w : Nat} (x : BitVec w) : x.clz.toNat ≤ w := by
  have h : x.clz ≤ BitVec.ofNat w w := BitVec.clz_le
  rw [BitVec.le_def, BitVec.toNat_ofNat, Nat.mod_eq_of_lt Nat.lt_two_pow_self] at h
  exact h

theorem toNat_lt_two_pow_iff {w : Nat} (x : BitVec w) (n : Nat) :
    x.toNat < Nat.pow 2 n ↔ w - x.clz.toNat ≤ n := by
  constructor
  · intro hlt
    by_cases hx : x = 0#w
    · have hclz : x.clz = BitVec.ofNat w w := BitVec.clz_eq_iff_eq_zero.2 hx
      rw [hclz, BitVec.toNat_ofNat, Nat.mod_eq_of_lt Nat.lt_two_pow_self]
      omega
    · have hw : 0 < w := by
        rcases Nat.eq_zero_or_pos w with rfl | hw
        · exact absurd BitVec.of_length_zero hx
        · exact hw
      have hge := BitVec.two_pow_sub_clz_le_toNat_of_ne_zero hw hx
      have hpow := (Nat.pow_lt_pow_iff_right (by decide)).1 (Nat.lt_of_le_of_lt hge hlt)
      omega
  · intro hle
    exact Nat.lt_of_lt_of_le BitVec.toNat_lt_two_pow_sub_clz (Nat.pow_le_pow_right (by decide) hle)

theorem toNat_clz_setWidth {w v : Nat} (x : BitVec w) (h : w ≤ v) :
    (x.setWidth v).clz.toNat = v - w + x.clz.toNat := by
  have hx := toNat_clz_le x
  have hv := toNat_clz_le (x.setWidth v)
  have hlength : ∀ n, v - (x.setWidth v).clz.toNat ≤ n ↔ w - x.clz.toNat ≤ n := by
    intro n
    rw [← toNat_lt_two_pow_iff, ← toNat_lt_two_pow_iff, BitVec.toNat_setWidth_of_le h]
  have hge := (hlength _).1 (Nat.le_refl _)
  have hle := (hlength _).2 (Nat.le_refl _)
  omega

theorem leadingZeros_ofWord (a : Word k) : leadingZeros (.ofWord a) = .ok a.leadingZeros := by
  have hk := k.bits_le
  have hclz : a.register.clz.toNat = 128 - k.bits + a.leadingZeros := toNat_clz_setWidth a.bits hk
  show (do let above ← minus 128 k.bits; minus a.register.clz.toNat above) = _
  rw [minus_of_le hk, ok_bind, hclz, minus_of_le (Nat.le_add_right _ _), Nat.add_sub_cancel_left]

/-- A bit above the kind would be taken off the count. -/
example : leadingZeros ⟨.i8, 1#128 <<< 127⟩ = .error (.belowZero 0 120) := rfl

theorem countOnes_ofWord (a : Word k) : countOnes (.ofWord a) = a.countOnes :=
  BitVec.toNat_cpop_setWidth_eq_of_le k.bits_le

/-! ## Integers and order -/

theorem toInt_signExtend (a : Word k) (h : k.signed = true) :
    (a.bits.signExtend 128).toInt = a.toInt := by
  rw [BitVec.toInt_signExtend_of_le k.bits_le, a.toInt_signed h]

theorem integer_ofWord (a : Word k) : integer (.ofWord a) = .ok a.toInt := by
  unfold integer
  split
  · rename_i hs
    rw [signExtend_ofWord, ok_bind, toInt_signExtend a hs]
    rfl
  · rename_i hs
    rw [a.toInt_unsigned (Bool.eq_false_iff.2 hs), ← a.toNat_register]
    rfl

theorem compare_natCast (m n : Nat) : compare (m : Int) (n : Int) = compare m n := by
  simp only [compare, compareOfLessAndEq, Int.ofNat_lt, Int.ofNat_inj]

theorem order_ofWord (a b : Word k) :
    order (.ofWord a) (.ofWord b) = .ok (compare a.toInt b.toInt) := by
  unfold order
  split
  · rename_i hs
    rw [signExtend_ofWord, ok_bind, signExtend_ofWord, ok_bind, toInt_signExtend a hs,
      toInt_signExtend b hs]
    rfl
  · rename_i hs
    have hs := Bool.eq_false_iff.2 hs
    rw [a.toInt_unsigned hs, b.toInt_unsigned hs, compare_natCast, ← a.toNat_register,
      ← b.toNat_register]
    rfl

/-! ## Constants -/

theorem constant_eq (k : Kind) (c : Constant) : constant k c = .ok (.ofWord (c.word k)) := by
  have hk := k.bits_le
  have hpos := k.bits_pos
  cases c with
  | zero => exact keep_zero k
  | one => exact keep_of_setWidth_eq (BitVec.setWidth_ofNat_of_le hk 1)
  | least =>
    show _ = Except.ok (Slot.ofWord (Word.least : Word k))
    simp only [constant, Word.least]
    split
    · rw [minus_of_le hpos, ok_bind, shiftUp_of_lt (by omega), ok_bind]
      apply keep_of_setWidth_eq
      rw [BitVec.setWidth_shiftLeft_of_le hk, BitVec.setWidth_ofNat_of_le hk]
      rfl
    · exact keep_zero k
  | greatest =>
    show _ = Except.ok (Slot.ofWord (Word.greatest : Word k))
    simp only [constant, Word.greatest]
    rw [mask_eq, ok_bind]
    split
    · rw [shiftDown_of_lt (by decide), ok_bind]
      refine keep_of_setWidth_eq (BitVec.eq_of_getLsbD_eq fun i _ => ?_)
      rw [Bool.eq_iff_iff]
      simp only [BitVec.getLsbD_setWidth, BitVec.getLsbD_ushiftRight, Kind.getLsbD_mask,
        BitVec.getLsbD_intMax, Bool.and_eq_true, decide_eq_true_eq]
      omega
    · apply keep_of_setWidth_eq
      unfold Kind.mask
      rw [BitVec.setWidth_setWidth_of_le _ hk, BitVec.setWidth_eq]

end MachineInt.Datapath
