import MachineInt.Proofs.Conversion
import MachineInt.Proofs.Datapath.Arith

/-!
# Magnitudes

The negation and the absolute value of a word are those of its integer, reduced. In a signed kind
the integers reach one further down than up, so the reduction shows on the least word alone: it is
its own negation and its own absolute value, and read as unsigned it still is the magnitude.

* `Kind.represents_neg_iff`, `Kind.represents_natAbs_iff`: the least integer is the only one whose
  magnitude is not in the kind.
* `Word.negate_eq_ofInt`, `Word.abs_eq_ofInt`: both operations as reductions.
* `Word.toNat_abs`, `Word.natAbs_toInt_abs`, `Word.natAbs_toInt_negate`: the magnitude is never
  lost.
* `Word.cast_ofInt_eq_iff`: a wider kind tells whether an integer was reduced.
* `abs_negate_except_least`: the laws of both (`Word.MagnitudeLaws`), those that fail on the least
  word as equivalences.
-/

set_option autoImplicit false

namespace MachineInt

/-! ## Integers of a signed kind -/

namespace Kind

variable {k l : Kind} {n : Int}

theorem greatest_of_signed (hs : k.signed = true) : k.greatest = -k.least - 1 := by
  simp only [greatest, least, hs, if_true]
  omega

theorem least_neg (hs : k.signed = true) : k.least < 0 := by
  have hcard := k.card_eq
  have hpos := k.card_pos
  simp only [least, hs, if_true]
  omega

theorem represents_neg_iff (hs : k.signed = true) (h : k.Represents n) :
    k.Represents (-n) ↔ n ≠ k.least := by
  have hgreatest := greatest_of_signed hs
  unfold Represents at *
  omega

theorem represents_natAbs_iff (hs : k.signed = true) (h : k.Represents n) :
    k.Represents n.natAbs ↔ n ≠ k.least := by
  have hgreatest := greatest_of_signed hs
  have hneg := least_neg hs
  unfold Represents at *
  omega

/-- The negation of `k.least` is next to `k.greatest`, so it is reduced to the least again. -/
theorem reduce_neg_least (hs : k.signed = true) : k.reduce (-k.least) = k.least := by
  have hnext := k.reduce_greatest_add_one
  rw [← k.least_eq, greatest_of_signed hs, Int.sub_add_cancel] at hnext
  exact hnext

theorem natAbs_reduce_neg (hs : k.signed = true) (h : k.Represents n) :
    (k.reduce (-n)).natAbs = n.natAbs := by
  by_cases hn : n = k.least
  · rw [hn, reduce_neg_least hs]
  · rw [reduce_of_represents ((represents_neg_iff hs h).2 hn), Int.natAbs_neg]

theorem natAbs_lt_card (h : k.Represents n) : n.natAbs < k.card := by
  have hcard := k.card_eq
  have hpos := k.card_pos
  unfold Represents least greatest at h
  split at h <;> omega

theorem represents_of_natAbs_lt (hs : l.signed = true) (hlt : k.bits < l.bits)
    (h : n.natAbs < k.card) : l.Represents n := by
  have hhalf : k.card ≤ l.card / 2 := by
    rw [l.half_card]
    exact Nat.pow_le_pow_right (by decide) (by omega)
  simp only [Represents, least, greatest, hs, if_true]
  omega

theorem flipSign_represents (hs : k.signed = true) (h : n.natAbs < k.card) :
    k.flipSign.Represents n.natAbs := by
  have hcard : k.flipSign.card = k.card := rfl
  simp only [Represents, least, greatest, signed_flipSign, hs, hcard]
  simp only [Bool.not_true, Bool.false_eq_true, if_false]
  omega

end Kind

namespace Word

variable {k l : Kind}

/-! ## Reductions -/

theorem eq_least_iff {a : Word k} : a = least ↔ a.toInt = k.least := by
  rw [← toInt_least, toInt_inj]

theorem ne_least_iff {a : Word k} : a ≠ least ↔ a.toInt ≠ k.least := not_congr eq_least_iff

theorem negate_ofInt (hs : k.signed = true) (n : Int) :
    (ofInt n : Word k).negate hs = ofInt (-n) := by
  have hsub := ArithOp.sub.apply_ofInt (k := k) 0 n
  rw [ofInt_zero] at hsub
  exact hsub.trans (congrArg ofInt (Int.zero_sub n))

theorem negate_eq_ofInt (hs : k.signed = true) (a : Word k) : a.negate hs = ofInt (-a.toInt) := by
  rw [← negate_ofInt hs, ofInt_toInt]

theorem abs_of_unsigned (hs : k.signed = false) (a : Word k) : a.abs = a := by
  unfold abs
  rw [isNegative_of_unsigned hs, if_neg Bool.false_ne_true]

theorem abs_of_isNegative {a : Word k} (hs : k.signed = true) (h : a.isNegative = true) :
    a.abs = a.negate hs := if_pos h

theorem abs_of_not_isNegative {a : Word k} (h : ¬a.isNegative = true) : a.abs = a := if_neg h

theorem abs_eq_ofInt (a : Word k) : a.abs = ofInt a.toInt.natAbs := by
  by_cases h : a.isNegative = true
  · have hs : k.signed = true := signed_of_isNegative h
    rw [abs_of_isNegative hs h, negate_eq_ofInt,
      Int.ofNat_natAbs_of_nonpos (Int.le_of_lt (a.isNegative_iff.1 h))]
  · rw [abs_of_not_isNegative h, Int.natAbs_of_nonneg (Int.not_lt.1 (mt a.isNegative_iff.2 h)),
      ofInt_toInt]

/-! ## Magnitudes -/

/-- **The pattern of an absolute value** is the magnitude, that of `least` too. -/
theorem toNat_abs (a : Word k) : a.abs.toNat = a.toInt.natAbs := by
  have hlt := Kind.natAbs_lt_card a.toInt_represents
  apply Int.natCast_inj.1
  rw [abs_eq_ofInt, toNat_ofInt, Int.emod_eq_of_lt (by omega) (by omega)]

theorem natAbs_toInt_negate (hs : k.signed = true) (a : Word k) :
    (a.negate hs).toInt.natAbs = a.toInt.natAbs := by
  rw [negate_eq_ofInt, toInt_ofInt, Kind.natAbs_reduce_neg hs a.toInt_represents]

theorem natAbs_toInt_abs (hs : k.signed = true) (a : Word k) :
    a.abs.toInt.natAbs = a.toInt.natAbs := by
  by_cases h : a.isNegative = true
  · rw [abs_of_isNegative hs h, natAbs_toInt_negate]
  · rw [abs_of_not_isNegative h]

theorem abs_eq_abs {a b : Word k} (h : a.toInt.natAbs = b.toInt.natAbs) : a.abs = b.abs := by
  rw [abs_eq_ofInt, abs_eq_ofInt, h]

theorem toInt_cast_abs_flipSign (hs : k.signed = true) (a : Word k) :
    (a.abs.cast k.flipSign).toInt = a.toInt.natAbs := by
  have hlt := Kind.natAbs_lt_card a.toInt_represents
  rw [abs_eq_ofInt, cast_ofInt_of_le (Nat.le_of_eq k.bits_flipSign),
    toInt_ofInt_of_represents (Kind.flipSign_represents hs hlt)]

/-! ## The least word -/

theorem isNegative_abs_iff (hs : k.signed = true) (a : Word k) :
    a.abs.isNegative = true ↔ a = least := by
  have hrep := Kind.represents_natAbs_iff hs a.toInt_represents
  rw [eq_least_iff, isNegative_iff, abs_eq_ofInt, toInt_ofInt]
  constructor
  · intro hneg
    refine Decidable.byContradiction fun hne => ?_
    rw [Kind.reduce_of_represents (hrep.2 hne)] at hneg
    omega
  · intro heq
    -- the magnitude of the least word is reduced to the least word again
    have hleast := Kind.least_neg hs
    rw [heq, Int.ofNat_natAbs_of_nonpos (Int.le_of_lt hleast), Kind.reduce_neg_least hs]
    exact hleast

theorem negate_negate (hs : k.signed = true) (a : Word k) : (a.negate hs).negate hs = a := by
  rw [negate_eq_ofInt hs a, negate_ofInt, Int.neg_neg, ofInt_toInt]

theorem negate_eq_self_iff (hs : k.signed = true) (a : Word k) :
    a.negate hs = a ↔ a = zero ∨ a = least := by
  have hrep := Kind.represents_neg_iff hs a.toInt_represents
  have hzero : a = zero ↔ a.toInt = 0 := by rw [← toInt_inj, toInt_zero]
  rw [hzero, eq_least_iff, ← toInt_inj, negate_eq_ofInt, toInt_ofInt]
  by_cases hleast : a.toInt = k.least
  · rw [hleast, Kind.reduce_neg_least hs]
    exact iff_of_true rfl (.inr rfl)
  · rw [Kind.reduce_of_represents (hrep.2 hleast)]
    omega

/-! ## Widening -/

/-- A wider kind `l` that has the integer tells whether `k` reduced it. -/
theorem cast_ofInt_eq_iff {n : Int} (h : k.EmbedsIn l) (hn : l.Represents n) :
    (ofInt n : Word k).cast l = ofInt n ↔ k.Represents n := by
  rw [← toInt_inj, toInt_cast_of_embedsIn h, toInt_ofInt, toInt_ofInt_of_represents hn,
    Kind.reduce_eq_self_iff]

theorem cast_abs_iff (hs : k.signed = true) (hl : l.signed = true) (hlt : k.bits < l.bits)
    (a : Word k) : a.abs.cast l = (a.cast l).abs ↔ a ≠ least := by
  have hemb : k.EmbedsIn l := .inr ⟨hlt, fun _ => hl⟩
  -- the wider kind has every magnitude, and so it tells whether `k` has this one
  have hmagnitude := Kind.natAbs_lt_card a.toInt_represents
  have hrep : l.Represents a.toInt.natAbs :=
    Kind.represents_of_natAbs_lt hl hlt (by rwa [Int.natAbs_natCast])
  rw [abs_eq_ofInt, abs_eq_ofInt, toInt_cast_of_embedsIn hemb, cast_ofInt_eq_iff hemb hrep,
    Kind.represents_natAbs_iff hs a.toInt_represents, ne_least_iff]

theorem cast_negate_iff (hs : k.signed = true) (hl : l.signed = true) (hlt : k.bits < l.bits)
    (a : Word k) : (a.negate hs).cast l = (a.cast l).negate hl ↔ a ≠ least := by
  have hemb : k.EmbedsIn l := .inr ⟨hlt, fun _ => hl⟩
  have hmagnitude := Kind.natAbs_lt_card a.toInt_represents
  have hrep : l.Represents (-a.toInt) :=
    Kind.represents_of_natAbs_lt hl hlt (by rwa [Int.natAbs_neg])
  rw [negate_eq_ofInt, negate_eq_ofInt, toInt_cast_of_embedsIn hemb, cast_ofInt_eq_iff hemb hrep,
    Kind.represents_neg_iff hs a.toInt_represents, ne_least_iff]

end Word

/-- The absolute value and the negation of a word `a` of a signed kind, where `Word.least` is the
only one that either leaves below zero. -/
structure Word.MagnitudeLaws {k : Kind} (hs : k.signed = true) (a : Word k) : Prop where
  register_abs : a.abs.register.toNat = a.toInt.natAbs
  toInt_unsigned_abs : (a.abs.cast k.flipSign).toInt = a.toInt.natAbs
  isNegative_abs_iff : a.abs.isNegative = true ↔ a = least
  abs_abs : a.abs.abs = a.abs
  abs_negate : (a.negate hs).abs = a.abs
  negate_negate : (a.negate hs).negate hs = a
  negate_eq_self_iff : a.negate hs = a ↔ a = zero ∨ a = least
  cast_abs_iff (l : Kind) (hl : l.signed = true) (hlt : k.bits < l.bits) :
    a.abs.cast l = (a.cast l).abs ↔ a ≠ least
  cast_negate_iff (l : Kind) (hl : l.signed = true) (hlt : k.bits < l.bits) :
    (a.negate hs).cast l = (a.cast l).negate hl ↔ a ≠ least
  abs_unsigned (l : Kind) (hl : l.signed = false) (b : Word l) : b.abs = b
  abs_datapath : Datapath.abs (.ofWord a) = .ok (.ofWord a.abs)
  negate_datapath : Datapath.negate (.ofWord a) = .ok (.ofWord (a.negate hs))

/-- **Absolute value and negation** are those of the integers, but for `Word.least`:
`Word.MagnitudeLaws` for every word of a signed kind. -/
theorem abs_negate_except_least {k : Kind} (hs : k.signed = true) (a : Word k) :
    Word.MagnitudeLaws hs a where
  register_abs := by rw [Word.toNat_register, Word.toNat_abs]
  toInt_unsigned_abs := Word.toInt_cast_abs_flipSign hs a
  isNegative_abs_iff := Word.isNegative_abs_iff hs a
  abs_abs := Word.abs_eq_abs (Word.natAbs_toInt_abs hs a)
  abs_negate := Word.abs_eq_abs (Word.natAbs_toInt_negate hs a)
  negate_negate := Word.negate_negate hs a
  negate_eq_self_iff := Word.negate_eq_self_iff hs a
  cast_abs_iff _ hl hlt := Word.cast_abs_iff hs hl hlt a
  cast_negate_iff _ hl hlt := Word.cast_negate_iff hs hl hlt a
  abs_unsigned _ hl b := Word.abs_of_unsigned hl b
  abs_datapath := Datapath.abs_ofWord a
  negate_datapath := Datapath.negate_ofWord a

theorem abs_negate_except_least_byte :
    Kind.i8.signed = true ∧ Kind.i16.signed = true ∧ Kind.i8.bits < Kind.i16.bits ∧
    (Word.least : Word .i8).abs.register.toNat = 128 ∧
    ((Word.least : Word .i8).abs.cast .u8).toInt = 128 ∧
    (Word.least : Word .i8).abs.isNegative = true ∧
    (Word.least : Word .i8).negate rfl = Word.least ∧
    (Word.least : Word .i8).abs.cast .i16 ≠ ((Word.least : Word .i8).cast .i16).abs ∧
    (Word.ofInt (-5) : Word .i8).abs.cast .i16 = ((Word.ofInt (-5) : Word .i8).cast .i16).abs ∧
    Kind.u8.signed = false ∧ (Word.ofInt 200 : Word .u8).abs = Word.ofInt 200 := by
  have hs : Kind.i8.signed = true := rfl
  have hlt : Kind.i8.bits < Kind.i16.bits := by decide
  have hleast := abs_negate_except_least hs (Word.least : Word .i8)
  have hother := abs_negate_except_least hs (Word.ofInt (-5) : Word .i8)
  exact ⟨hs, rfl, hlt, hleast.register_abs.trans (by decide),
    hleast.toInt_unsigned_abs.trans (by decide), hleast.isNegative_abs_iff.2 rfl,
    hleast.negate_eq_self_iff.2 (.inr rfl), fun h => (hleast.cast_abs_iff .i16 rfl hlt).1 h rfl,
    (hother.cast_abs_iff .i16 rfl hlt).2 (by decide), rfl, hleast.abs_unsigned .u8 rfl _⟩

end MachineInt
