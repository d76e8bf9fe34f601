import MachineInt.Proofs.Datapath.Basic
import MachineInt.Word.Arith

/-!
# Shifts on the datapath

The datapath finds out the sign and the magnitude of the count first and moves the bits then, a
signed kind by way of the whole register. No step of it faults, and it agrees with `Word.shiftBy`.

* `distance_ofWord`: the magnitude of a count, up to that of the least word of `i128`.
* `up_ofWord`, `down_ofWord`: moving the bits by a distance that may overshoot.
* `shiftLeft_ofWord`, `shiftRight_ofWord`: the shifts by a word.
-/

set_option autoImplicit false

namespace MachineInt.Datapath

variable {k l : Kind}

/-! ## Patterns in a wider register -/

theorem msb_signExtend_of_le {w v : Nat} (x : BitVec w) (h : w ≤ v) :
    (x.signExtend v).msb = x.msb := by
  rw [BitVec.msb_eq_toInt, BitVec.msb_eq_toInt, BitVec.toInt_signExtend_of_le h]

theorem setWidth_sshiftRight_signExtend {w v : Nat} (x : BitVec w) (n : Nat) (h : w ≤ v) :
    ((x.signExtend v).sshiftRight n).setWidth w = x.sshiftRight n := by
  apply BitVec.eq_of_getLsbD_eq
  intro i hi
  simp only [BitVec.getLsbD_setWidth, BitVec.getLsbD_sshiftRight, BitVec.getLsbD_signExtend,
    msb_signExtend_of_le x h, hi, decide_true, Bool.true_and]
  by_cases hin : n + i < w
  · simp [hin, hi, show n + i < v by omega, show ¬v ≤ i by omega]
  · -- beyond the pattern both sides are the sign, whether the extension ends first or not
    by_cases hiv : n + i < v <;>
      simp [hin, hiv, hi, show ¬v ≤ i by omega]

theorem setWidth_ushiftRight_setWidth {w v : Nat} (x : BitVec w) (n : Nat) (h : w ≤ v) :
    (x.setWidth v >>> n).setWidth w = x >>> n := by
  apply BitVec.eq_of_getLsbD_eq
  intro i hi
  simp only [BitVec.getLsbD_setWidth, BitVec.getLsbD_ushiftRight, hi, decide_true, Bool.true_and]
  by_cases hin : n + i < w
  · simp [show n + i < v by omega]
  · simp [BitVec.getLsbD_of_ge x (n + i) (by omega)]

/-! ## Counts -/

theorem distance_ofWord (c : Word l) :
    distance (.ofWord c) = .ok (c.isNegative, c.toInt.natAbs) := by
  unfold distance
  rw [isNegative_ofWord, ok_bind]
  split
  · rename_i hneg
    have hs : l.signed = true := Word.signed_of_isNegative hneg
    -- the magnitude is taken in the whole register, so that of the least word is within it
    rw [signExtend_ofWord, ok_bind, BitVec.toInt_signExtend_of_le l.bits_le,
      ← c.toInt_signed hs, hneg]
    rfl
  · rename_i hneg
    rw [Word.toInt_of_not_isNegative hneg, Bool.eq_false_iff.2 hneg]
    show Except.ok (false, c.register.toNat) = _
    rw [Word.toNat_register]
    rfl

/-! ## Moving the bits -/

theorem up_of_lt {s : Slot} {n : Nat} (h : n < s.kind.bits) :
    up s n = keep s.kind (s.register <<< n) := by
  have hk := s.kind.bits_le
  unfold up
  rw [if_pos h, shiftUp_of_lt (by omega), ok_bind]

theorem up_of_le {s : Slot} {n : Nat} (h : s.kind.bits ≤ n) : up s n = keep s.kind 0#128 := by
  unfold up
  rw [if_neg (by omega)]

theorem down_of_lt {s : Slot} {n : Nat} (h : n < s.kind.bits) :
    down s n = keep s.kind (if s.kind.signed then
      ((s.register.setWidth s.kind.bits).signExtend 128).sshiftRight n else s.register >>> n) := by
  have hk := s.kind.bits_le
  unfold down
  rw [if_pos h, signExtend_eq, ok_bind, shiftDownSigned_of_lt (by omega), ok_bind,
    shiftDown_of_lt (by omega), ok_bind]
  split <;> rfl

theorem down_of_le {s : Slot} {n : Nat} (h : s.kind.bits ≤ n) : down s n = keep s.kind 0#128 := by
  unfold down
  rw [if_neg (by omega)]

theorem up_ofWord (a : Word k) (n : Nat) : up (.ofWord a) n = .ok (.ofWord (a.shiftBy n)) := by
  have hk := k.bits_le
  by_cases hn : n < k.bits
  · rw [up_of_lt hn, keep_eq_ofWord, a.shiftBy_of_nonneg (Int.natCast_nonneg n)]
    congr 2
    apply Word.ext
    show (a.bits.setWidth 128 <<< n).setWidth k.bits = a.bits <<< n
    rw [BitVec.setWidth_shiftLeft_of_le hk, BitVec.setWidth_setWidth_of_le _ hk, BitVec.setWidth_eq]
  -- a distance of the kind's bits or more never gets to the register, which has only 128
  · rw [up_of_le (Nat.le_of_not_lt hn), a.shiftBy_of_le (by omega)]
    exact keep_zero k

theorem down_ofWord (a : Word k) (n : Nat) :
    down (.ofWord a) n = .ok (.ofWord (a.shiftBy (-n))) := by
  have hk := k.bits_le
  by_cases hn : n < k.bits
  · rw [down_of_lt hn, keep_eq_ofWord, a.shiftBy_down hn]
    congr 2
    apply Word.ext
    show (if k.signed then (((a.bits.setWidth 128).setWidth k.bits).signExtend 128).sshiftRight n
      else a.bits.setWidth 128 >>> n).setWidth k.bits =
      if k.signed then a.bits.sshiftRight n else a.bits >>> n
    rw [BitVec.setWidth_setWidth_of_le _ hk, BitVec.setWidth_eq]
    split
    · exact setWidth_sshiftRight_signExtend a.bits n hk
    · exact setWidth_ushiftRight_setWidth a.bits n hk
  · rw [down_of_le (Nat.le_of_not_lt hn), a.shiftBy_of_le (by omega)]
    exact keep_zero k

/-! ## Shifts by a word -/

theorem shiftLeft_ofWord (a : Word k) (c : Word l) :
    shiftLeft (.ofWord a) (.ofWord c) = .ok (.ofWord (a.shiftLeft c)) := by
  unfold shiftLeft Word.shiftLeft
  rw [distance_ofWord, ok_bind]
  by_cases hneg : c.isNegative
  · have hlt := c.isNegative_iff.1 hneg
    simp only [hneg, if_true]
    rw [down_ofWord, show -(c.toInt.natAbs : Int) = c.toInt by omega]
  · have hlt := mt c.isNegative_iff.2 hneg
    simp only [hneg, Bool.false_eq_true, if_false]
    rw [up_ofWord, show (c.toInt.natAbs : Int) = c.toInt by omega]

theorem shiftRight_ofWord (a : Word k) (c : Word l) :
    shiftRight (.ofWord a) (.ofWord c) = .ok (.ofWord (a.shiftRight c)) := by
  unfold shiftRight Word.shiftRight
  rw [distance_ofWord, ok_bind]
  by_cases hneg : c.isNegative
  · have hlt := c.isNegative_iff.1 hneg
    simp only [hneg, if_true]
    rw [up_ofWord, show (c.toInt.natAbs : Int) = -c.toInt by omega]
  · have hlt := mt c.isNegative_iff.2 hneg
    simp only [hneg, Bool.false_eq_true, if_false]
    rw [down_ofWord, show (c.toInt.natAbs : Int) = c.toInt by omega]

end MachineInt.Datapath
