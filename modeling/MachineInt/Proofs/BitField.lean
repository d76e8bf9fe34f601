import Mathlib.Algebra.Ring.Nat
import MachineInt.Proofs.Datapath.Arith
import MachineInt.Proofs.Narrowing
import MachineInt.Proofs.Shift

/-!
# Fields of bits

A shift up and back down by one count takes the low bits of a word, as many as stay in it, and
reads them again as the kind does: in a signed kind the highest of them is the sign. Whether the
word comes back is told by its integer, or by the zeros above its highest bit.

* `Kind.represents_mul_two_pow_iff`, `Kind.two_pow_dvd_reduce`: products with powers of two, in the
  kind and reduced to it.
* `Word.field`: the low bits read again; `Word.shiftLeft_shiftRight_eq_field` gets them by shifts,
  `Word.field_bits_eq_cast_cast` by casts.
* `Word.shiftLeft_shiftRight_eq_self_iff`: the words that come back, by their integer;
  `Word.represents_mul_two_pow_iff_of_unsigned` and `…_of_signed`: by their leading zeros.
* `shiftLeft_shiftRight_extracts`: all of it (`Word.ExtractLaws`).
-/

set_option autoImplicit false

namespace MachineInt

/-! ## Products with powers of two -/

namespace Kind

variable {k : Kind} {n : Nat}

theorem represents_mul_two_pow_iff (h : n < k.bits) (v : Int) :
    k.Represents (v * 2 ^ n) ↔
      if k.signed then -2 ^ (k.bits - 1 - n) ≤ v ∧ v < 2 ^ (k.bits - 1 - n)
      else 0 ≤ v ∧ v < 2 ^ (k.bits - n) := by
  have hpow : (0 : Int) < 2 ^ n := Int.pow_pos (by decide)
  have hcard : (k.card : Int) = 2 ^ (k.bits - n) * 2 ^ n := by
    rw [← Int.pow_add, Nat.sub_add_cancel (by omega)]
    exact Int.natCast_pow 2 k.bits
  have hhalf : ((k.card / 2 : Nat) : Int) = 2 ^ (k.bits - 1 - n) * 2 ^ n := by
    rw [k.half_card, ← Int.pow_add, Nat.sub_add_cancel (by omega)]
    exact Int.natCast_pow 2 (k.bits - 1)
  unfold Represents least greatest
  split
  · rw [hhalf, Int.le_sub_one_iff, ← Int.neg_mul, Int.mul_le_mul_right hpow,
      Int.mul_lt_mul_right hpow]
  · rw [hcard, Int.le_sub_one_iff, Int.mul_lt_mul_right hpow, Int.mul_nonneg_iff_of_pos_right hpow]

/-- The low bits that a product with `2 ^ n` has clear stay clear in the reduction. -/
theorem two_pow_dvd_reduce (h : n ≤ k.bits) (v : Int) : (2 ^ n : Int) ∣ k.reduce (v * 2 ^ n) := by
  have hcard : (2 ^ n : Int) ∣ k.card := by
    unfold card
    exact_mod_cast Nat.pow_dvd_pow 2 h
  apply Int.dvd_of_emod_eq_zero
  rw [← Int.emod_emod_of_dvd _ hcard, reduce_emod, Int.emod_emod_of_dvd _ hcard, Int.mul_emod_left]

end Kind

/-! ## Fields -/

section Patterns

variable {w n : Nat}

theorem ushiftRight_shiftLeft (x : BitVec w) (n : Nat) :
    (x <<< n) >>> n = (x.setWidth (w - n)).setWidth w := by
  apply BitVec.eq_of_getLsbD_eq
  intro i hi
  simp only [BitVec.getLsbD_ushiftRight, BitVec.getLsbD_shiftLeft, BitVec.getLsbD_setWidth, hi]
  by_cases hin : n + i < w
  · simp [hin, show i < w - n by omega]
  · simp [hin, show ¬i < w - n by omega]

theorem sshiftRight_shiftLeft (x : BitVec w) (h : n < w) :
    (x <<< n).sshiftRight n = (x.setWidth (w - n)).signExtend w := by
  have hmsb : (x <<< n).msb = (x.setWidth (w - n)).msb := by
    rw [BitVec.msb_shiftLeft, BitVec.getMsbD_eq_getLsbD, BitVec.msb_setWidth, decide_eq_true h,
      decide_eq_true (by omega), show w - 1 - n = w - n - 1 by omega]
  apply BitVec.eq_of_getLsbD_eq
  intro i hi
  simp only [BitVec.getLsbD_sshiftRight, BitVec.getLsbD_signExtend, BitVec.getLsbD_setWidth,
    BitVec.getLsbD_shiftLeft, hmsb, hi]
  by_cases hin : n + i < w
  · simp [hin, show ¬w ≤ i by omega, show i < w - n by omega]
  · simp [hin, show ¬w ≤ i by omega, show ¬i < w - n by omega]

end Patterns

namespace Word

variable {k l m : Kind} {c : Word m} {n : Nat}

/-- The low bits of the word, `width` of them, read as the kind reads its patterns: the highest one
is the sign in a signed kind, and in an unsigned kind there are zeros above. -/
def field (width : Nat) (a : Word k) : Word k :=
  ⟨if k.signed then (a.bits.setWidth width).signExtend k.bits
    else (a.bits.setWidth width).setWidth k.bits⟩

theorem shiftLeft_shiftRight_eq_field (hc : c.toInt = n) (h : n < k.bits) (a : Word k) :
    a <<< c >>> c = a.field (k.bits - n) := by
  rw [shiftRight_def, shiftRight, shiftLeft_def, shiftLeft, hc,
    a.shiftBy_of_nonneg (Int.natCast_nonneg n), Int.natAbs_natCast, shiftBy_down _ h]
  apply Word.ext
  simp only [field]
  rw [sshiftRight_shiftLeft a.bits h, ushiftRight_shiftLeft]

theorem toInt_field {width : Nat} (h : width ≤ k.bits) (a : Word k) :
    (a.field width).toInt = if k.signed then a.toInt.bmod (2 ^ width) else a.toInt % 2 ^ width := by
  have hdvd : 2 ^ width ∣ 2 ^ k.bits := Nat.pow_dvd_pow 2 h
  simp only [toInt, field]
  split
  · rw [BitVec.toInt_signExtend_of_le h, BitVec.toInt_setWidth, BitVec.toInt_eq_toNat_bmod a.bits,
      Int.bmod_bmod_of_dvd hdvd]
  · rw [BitVec.toNat_setWidth_of_le h, BitVec.toNat_setWidth]
    exact Int.natCast_emod _ _

theorem field_bits_eq_cast_cast (hs : l.signed = k.signed) (h : l.bits ≤ k.bits) (a : Word k) :
    a.field l.bits = (a.cast l).cast k := by
  rw [cast_eq_ofInt k, ofInt, toInt, hs, bits_cast_of_le h, field]
  split
  · rfl
  · rw [BitVec.ofInt_natCast, BitVec.ofNat_toNat]

/-! ## Words that a shift up does not change -/

theorem shiftLeft_shiftRight_eq_self_iff (hc : c.toInt = n) (h : n < k.bits) (a : Word k) :
    a <<< c >>> c = a ↔ k.Represents (a.toInt * 2 ^ n) := by
  have hpow : (2 ^ n : Int) ≠ 0 := Int.ne_of_gt (Int.pow_pos (by decide))
  rw [← toInt_inj, toInt_shiftRight hc, if_neg (by omega), shiftLeft_eq_ofInt hc, toInt_ofInt,
    Int.ediv_eq_iff_eq_mul_left hpow (Kind.two_pow_dvd_reduce (by omega) _),
    Kind.reduce_eq_self_iff]

theorem toNat_lt_two_pow_sub_iff (h : n ≤ k.bits) (a : Word k) :
    a.toNat < 2 ^ (k.bits - n) ↔ n ≤ a.leadingZeros := by
  have hiff := Datapath.toNat_lt_two_pow_iff a.bits (k.bits - n)
  have hle : k.bits - a.leadingZeros ≤ k.bits - n ↔ n ≤ a.leadingZeros := by omega
  exact hiff.trans hle

theorem toNat_complement (a : Word k) : ((~~~a).toNat : Int) = k.card - 1 - a.toNat := by
  have hlt := a.toNat_lt
  have hnat : (~~~a).toNat = k.card - 1 - a.toNat := BitVec.toNat_not
  omega

/-- The word with the copies of its sign cleared: the complement of `a` below zero. -/
def signCleared (a : Word k) : Word k := if a.toInt < 0 then ~~~a else a

theorem toNat_signCleared (a : Word k) :
    (a.signCleared.toNat : Int) = if a.toInt < 0 then -a.toInt - 1 else a.toInt := by
  unfold signCleared
  split
  · rename_i hneg
    rw [toNat_complement, toInt_of_isNegative (a.isNegative_iff.2 hneg)]
    omega
  · rename_i hneg
    exact (toInt_of_not_isNegative (mt a.isNegative_iff.1 hneg)).symm

theorem represents_mul_two_pow_iff_of_unsigned (hs : k.signed = false) (h : n < k.bits)
    (a : Word k) : k.Represents (a.toInt * 2 ^ n) ↔ n ≤ a.leadingZeros := by
  have hpow : ((2 ^ (k.bits - n) : Nat) : Int) = 2 ^ (k.bits - n) := Int.natCast_pow 2 _
  rw [Kind.represents_mul_two_pow_iff h, ← toNat_lt_two_pow_sub_iff (by omega),
    a.toInt_unsigned hs, if_neg (by simp [hs])]
  omega

theorem represents_mul_two_pow_iff_of_signed (hs : k.signed = true) (h : n < k.bits)
    (a : Word k) : k.Represents (a.toInt * 2 ^ n) ↔ n < a.signCleared.leadingZeros := by
  -- a signed kind needs one bit more, for the sign
  have hle : n + 1 ≤ k.bits := h
  have hpow : ((2 ^ (k.bits - (n + 1)) : Nat) : Int) = 2 ^ (k.bits - (n + 1)) :=
    Int.natCast_pow 2 _
  have hnat := a.toNat_signCleared
  rw [Kind.represents_mul_two_pow_iff h, Nat.lt_iff_add_one_le, ← toNat_lt_two_pow_sub_iff hle,
    if_pos hs, Nat.sub_sub, Nat.add_comm 1 n]
  split at hnat <;> omega

end Word

/-- The word `a` shifted up by `n` places and back down, for a count `c` of that many: the `field`
of the bits that stay, and when that is all of `a`. -/
structure Word.ExtractLaws {k m : Kind} (c : Word m) (n : Nat) (a : Word k) : Prop where
  eq_field : a <<< c >>> c = a.field (k.bits - n)
  toInt_eq : (a <<< c >>> c).toInt =
    if k.signed then a.toInt.bmod (2 ^ (k.bits - n)) else a.toInt % 2 ^ (k.bits - n)
  eq_cast (l : Kind) (hl : l.bits = k.bits - n) (hs : l.signed = k.signed) :
    a <<< c >>> c = (a.cast l).cast k
  self_iff : a <<< c >>> c = a ↔ k.Represents (a.toInt * 2 ^ n)
  self_iff_unsigned (hs : k.signed = false) : a <<< c >>> c = a ↔ n ≤ a.leadingZeros
  self_iff_nonneg (hs : k.signed = true) (hnonneg : 0 ≤ a.toInt) :
    a <<< c >>> c = a ↔ n < a.leadingZeros
  self_iff_neg (hs : k.signed = true) (hneg : a.toInt < 0) :
    a <<< c >>> c = a ↔ n < (~~~a).leadingZeros
  datapath :
    (do let s ← Datapath.shiftLeft (.ofWord a) (.ofWord c); Datapath.shiftRight s (.ofWord c)) =
      .ok (.ofWord (a <<< c >>> c))
  leadingZeros_datapath (b : Word k) : Datapath.leadingZeros (.ofWord b) = .ok b.leadingZeros

/-- **Left and back right** extracts a `Word.field`: the low bits, read with the signedness of the
kind. -/
theorem shiftLeft_shiftRight_extracts {k m : Kind} {c : Word m} {n : Nat} (hc : c.toInt = n)
    (h : n < k.bits) (a : Word k) : Word.ExtractLaws c n a := by
  have hfield := Word.shiftLeft_shiftRight_eq_field hc h a
  have hself := Word.shiftLeft_shiftRight_eq_self_iff hc h a
  exact
    { eq_field := hfield
      toInt_eq := by rw [hfield, Word.toInt_field (Nat.sub_le _ _)]
      eq_cast := fun l hl hs => by rw [hfield, ← hl, Word.field_bits_eq_cast_cast hs (by omega)]
      self_iff := hself
      self_iff_unsigned := fun hs => by
        rw [hself, Word.represents_mul_two_pow_iff_of_unsigned hs h]
      self_iff_nonneg := fun hs hnonneg => by
        rw [hself, Word.represents_mul_two_pow_iff_of_signed hs h, Word.signCleared,
          if_neg (by omega)]
      self_iff_neg := fun hs hneg => by
        rw [hself, Word.represents_mul_two_pow_iff_of_signed hs h, Word.signCleared, if_pos hneg]
      datapath := by
        rw [Datapath.shiftLeft_ofWord, Datapath.ok_bind, Datapath.shiftRight_ofWord]
        rfl
      leadingZeros_datapath := Datapath.leadingZeros_ofWord }

theorem shiftLeft_shiftRight_extracts_low_byte :
    ((Word.ofInt 8 : Word .u32).toInt = (8 : Nat) ∧ 8 < Kind.i16.bits ∧
      Kind.i8.bits = Kind.i16.bits - 8 ∧ Kind.i8.signed = Kind.i16.signed ∧
      (Word.ofInt 0x1280 : Word .i16) <<< (Word.ofInt 8 : Word .u32) >>>
          (Word.ofInt 8 : Word .u32) =
        ((Word.ofInt 0x1280 : Word .i16).cast .i8).cast .i16 ∧
      ((Word.ofInt 0x1280 : Word .i16) <<< (Word.ofInt 8 : Word .u32) >>>
        (Word.ofInt 8 : Word .u32)).toInt = -128) ∧
    ((Word.ofInt 3 : Word .i64).toInt = (3 : Nat) ∧ 3 < Kind.u8.bits ∧ Kind.u8.signed = false ∧
      (Word.ofInt 31 : Word .u8) <<< (Word.ofInt 3 : Word .i64) >>> (Word.ofInt 3 : Word .i64) =
        Word.ofInt 31) ∧
    3 < Kind.i8.bits ∧ Kind.i8.signed = true ∧
    (0 ≤ (Word.ofInt 15 : Word .i8).toInt ∧
      (Word.ofInt 15 : Word .i8) <<< (Word.ofInt 3 : Word .i64) >>> (Word.ofInt 3 : Word .i64) =
        Word.ofInt 15) ∧
    (Word.ofInt (-16) : Word .i8).toInt < 0 ∧
    (Word.ofInt (-16) : Word .i8) <<< (Word.ofInt 3 : Word .i64) >>> (Word.ofInt 3 : Word .i64) =
      Word.ofInt (-16) := by
  have height : (Word.ofInt 8 : Word .u32).toInt = (8 : Nat) := by decide
  have hthree : (Word.ofInt 3 : Word .i64).toInt = (3 : Nat) := by decide
  have hwide : 8 < Kind.i16.bits := by decide
  have hbyte : 3 < Kind.u8.bits := by decide
  have hsigned : 3 < Kind.i8.bits := by decide
  have hnonneg : 0 ≤ (Word.ofInt 15 : Word .i8).toInt := by decide
  have hneg : (Word.ofInt (-16) : Word .i8).toInt < 0 := by decide
  have hlow := shiftLeft_shiftRight_extracts height hwide (Word.ofInt 0x1280)
  have hunsigned := shiftLeft_shiftRight_extracts hthree hbyte (Word.ofInt 31 : Word .u8)
  have hfits := shiftLeft_shiftRight_extracts hthree hsigned (Word.ofInt 15 : Word .i8)
  have hbelow := shiftLeft_shiftRight_extracts hthree hsigned (Word.ofInt (-16) : Word .i8)
  exact ⟨⟨height, hwide, rfl, rfl, hlow.eq_cast .i8 rfl rfl, hlow.toInt_eq.trans (by decide)⟩,
    ⟨hthree, hbyte, rfl, (hunsigned.self_iff_unsigned rfl).2 (by decide)⟩, hsigned, rfl,
    ⟨hnonneg, (hfits.self_iff_nonneg rfl hnonneg).2 (by decide)⟩, hneg,
    (hbelow.self_iff_neg rfl hneg).2 (by decide)⟩

end MachineInt
