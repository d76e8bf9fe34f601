import MachineInt.Datapath.Basic
import MachineInt.Proofs.Reduction

/-!
# Masks, signs and conversions on the datapath

None of the checked steps in a mask, a sign test, a sign extension or a conversion can fault,
whatever the register holds, and each gives what the operation on patterns gives.

* `mask_eq`, `keep_eq`: the mask, made by a shift and a checked difference below 128 bits, is
  `Kind.mask`.
* `isNegative_eq`, `signExtend_eq`: the highest bit of the kind, and its copies above it.
* `cast_eq`: a conversion is `Register.convert`, also for a register with bits above its kind.
* `keep_eq_ofWord`, `isNegative_ofWord`, `signExtend_ofWord`, `cast_ofWord`: the same for the slot
  of a word (`Slot.ofWord`), which is what every run starts from and ends in.
-/

set_option autoImplicit false

namespace MachineInt.Datapath

variable {k l : Kind}

def Slot.ofWord (a : Word k) : Slot := ⟨k, a.register⟩

/-! ## Steps within bounds -/

theorem shiftUp_of_lt {r : Register} {n : Nat} (h : n < 128) : shiftUp r n = .ok (r <<< n) :=
  if_pos h

theorem shiftDown_of_lt {r : Register} {n : Nat} (h : n < 128) : shiftDown r n = .ok (r >>> n) :=
  if_pos h

theorem shiftDownSigned_of_lt {r : Register} {n : Nat} (h : n < 128) :
    shiftDownSigned r n = .ok (r.sshiftRight n) := if_pos h

theorem minus_of_le {a b : Nat} (h : b ≤ a) : minus a b = .ok (a - b) := if_pos h

theorem minusRegister_of_le {a b : Register} (h : b.toNat ≤ a.toNat) :
    minusRegister a b = .ok (a - b) := if_pos h

theorem ok_bind {α β : Type} (a : α) (f : α → Run β) :
    (Except.ok a : Run α) >>= f = f a := rfl

/-! ## Masks -/

theorem mask_eq (k : Kind) : mask k = .ok k.mask := by
  unfold mask
  split
  · rename_i h
    congr 1
    apply BitVec.eq_of_toNat_eq
    rw [k.toNat_mask, Kind.card, h]
    rfl
  · rename_i h
    have hlt : k.bits < 128 := Nat.lt_of_le_of_ne k.bits_le h
    have hcard : k.card < 2 ^ 128 := Nat.pow_lt_pow_right (by decide) hlt
    have hpos := k.card_pos
    have htop : (1#128 <<< k.bits).toNat = k.card := by
      rw [BitVec.toNat_shiftLeft, Nat.shiftLeft_eq]
      show 1 * k.card % 2 ^ 128 = k.card
      rw [Nat.one_mul, Nat.mod_eq_of_lt hcard]
    -- a power of two is at least one, so the difference is not below zero
    rw [shiftUp_of_lt hlt, ok_bind, minusRegister_of_le (by rw [htop]; exact hpos)]
    congr 1
    apply BitVec.eq_of_toNat_eq
    rw [k.toNat_mask, BitVec.toNat_sub, htop]
    show (2 ^ 128 - 1 + k.card) % 2 ^ 128 = k.card - 1
    omega

theorem keep_eq (k : Kind) (r : Register) : keep k r = .ok ⟨k, r &&& k.mask⟩ := by
  unfold keep
  rw [mask_eq, ok_bind]
  rfl

/-- **What is kept is a word**: `keep` leaves no bit above the kind set. -/
theorem keep_eq_ofWord (k : Kind) (r : Register) :
    keep k r = .ok (.ofWord (Word.ofRegister r : Word k)) := by
  rw [keep_eq, ← Word.register_ofRegister]
  rfl

theorem keep_zero (k : Kind) : keep k 0#128 = .ok (.ofWord (Word.zero : Word k)) := by
  rw [keep_eq_ofWord]
  unfold Word.ofRegister Word.zero
  rw [BitVec.setWidth_zero]

/-! ## Signs -/

theorem topBit_eq (k : Kind) (r : Register) : topBit k r = .ok (r.getLsbD (k.bits - 1)) := by
  have hpos := k.bits_pos
  have hk := k.bits_le
  unfold topBit
  rw [minus_of_le hpos, ok_bind, shiftDown_of_lt (by omega), ok_bind]
  congr 1
  rw [BitVec.and_one_eq_setWidth_ofBool_getLsbD, BitVec.getLsbD_ushiftRight, Nat.add_zero]
  cases r.getLsbD (k.bits - 1) <;> rfl

theorem isNegative_eq (s : Slot) : isNegative s = .ok (s.register.isNegative s.kind) := by
  unfold isNegative Register.isNegative
  split
  · rename_i hs
    rw [topBit_eq, hs, Bool.true_and]
  · rename_i hs
    rw [Bool.eq_false_iff.2 hs]
    rfl

theorem signExtend_eq (s : Slot) :
    signExtend s = .ok ((s.register.setWidth s.kind.bits).signExtend 128) := by
  -- the pattern moved to the top of the register and down again is its sign extension
  have hpos := s.kind.bits_pos
  have hk := s.kind.bits_le
  unfold signExtend
  rw [minus_of_le hk, ok_bind, shiftUp_of_lt (by omega), ok_bind, shiftDownSigned_of_lt (by omega)]
  congr 1
  apply BitVec.eq_of_getLsbD_eq
  intro i hi
  rw [BitVec.getLsbD_sshiftRight, BitVec.msb_eq_getLsbD_last, BitVec.getLsbD_shiftLeft,
    BitVec.getLsbD_shiftLeft, BitVec.getLsbD_signExtend, BitVec.msb_eq_getLsbD_last,
    BitVec.getLsbD_setWidth, BitVec.getLsbD_setWidth]
  by_cases hin : i < s.kind.bits
  · simp [hi, hin, show ¬128 ≤ i by omega, show 128 - s.kind.bits + i < 128 by omega]
  · have hlast : 127 - (128 - s.kind.bits) = s.kind.bits - 1 := by omega
    simp [hi, hin, hlast, show ¬128 - s.kind.bits + i < 128 by omega,
      show ¬127 < 128 - s.kind.bits by omega, show ¬128 ≤ i by omega,
      show s.kind.bits - 1 < s.kind.bits by omega]

theorem isNegative_ofWord (a : Word k) : isNegative (.ofWord a) = .ok a.isNegative := by
  rw [isNegative_eq, ← Word.isNegative_ofRegister]
  show Except.ok (Word.ofRegister a.register : Word k).isNegative = _
  rw [Word.ofRegister_register]

theorem signExtend_ofWord (a : Word k) :
    signExtend (.ofWord a) = .ok (a.bits.signExtend 128) := by
  rw [signExtend_eq]
  show Except.ok ((Word.ofRegister a.register : Word k).bits.signExtend 128) = _
  rw [Word.ofRegister_register]

/-! ## Conversions -/

theorem cast_eq (k : Kind) (s : Slot) : cast k s = .ok ⟨k, s.register.convert s.kind k⟩ := by
  have hneg : (s.kind.signed && (s.register &&& s.kind.mask).getLsbD (s.kind.bits - 1)) =
      (s.register &&& s.kind.mask).isNegative s.kind := rfl
  unfold cast
  rw [keep_eq, ok_bind]
  simp only [topBit_eq, ok_bind, keep_eq, mask_eq, hneg, Register.convert]
  split
  · rfl
  · split
    · rfl
    · congr 2
      -- the target is wider, so its mask takes nothing off a masked pattern of the source
      apply BitVec.eq_of_getLsbD_eq
      intro i hi
      simp only [BitVec.getLsbD_and, Kind.getLsbD_mask]
      by_cases hin : i < s.kind.bits
      · simp [hin, show i < k.bits by omega]
      · simp [hin]

/-- The result of a conversion is a word, whatever stands in `s` above its kind. -/
theorem cast_eq_ofWord (k : Kind) (s : Slot) :
    cast k s = .ok (.ofWord (Word.ofRegister (s.register.convert s.kind k) : Word k)) := by
  rw [cast_eq, Register.convert_eq, Word.ofRegister_register]
  rfl

theorem cast_ofWord (k : Kind) (a : Word l) : cast k (.ofWord a) = .ok (.ofWord (a.cast k)) :=
  cast_eq_ofWord k (.ofWord a)

end MachineInt.Datapath
