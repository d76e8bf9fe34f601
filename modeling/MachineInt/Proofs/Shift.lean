import Mathlib.Algebra.Ring.Int.Defs
import MachineInt.Proofs.Datapath.Shift

/-!
# Shifts of integers

What a shift does to the integer a word denotes. Up, it multiplies by a power of two and reduces;
down, it divides by a power of two and rounds down, in signed and unsigned kinds alike. A distance
of all the bits or more gives zero instead, also where rounding down would give `-1`.

* `Kind.shifted`: the rule on integers.
* `Word.toInt_shiftBy`: words follow it, for every distance.
* `Word.shiftLeft_eq_ofInt`, `Word.toInt_shiftRight`: what is left of the rule where the count is
  not negative. Up there is no overshoot to tell apart, as the reduction gives zero there anyway.
* `Word.toInt_ediv_of_le`: what rounding down would give beyond the overshoot.
* `shifts_follow_count`: the shifts by a word of any kind, and the datapath's way to do them.
-/

set_option autoImplicit false

namespace MachineInt

/-- The integer that shifting `v` by `n` places leaves in kind `k`: up when `n` is positive, down
when it is negative. -/
def Kind.shifted (k : Kind) (v n : Int) : Int :=
  if k.bits ≤ n.natAbs then 0
  else k.reduce (if 0 ≤ n then v * 2 ^ n.natAbs else v.fdiv (2 ^ n.natAbs))

namespace Word

variable {k l : Kind}

theorem shiftLeft_bits_eq_ofInt (a : Word k) (n : Nat) :
    (⟨a.bits <<< n⟩ : Word k) = ofInt (a.toInt * 2 ^ n) := by
  have hnat : (⟨a.bits <<< n⟩ : Word k).toNat = a.toNat * 2 ^ n % k.card := by
    show (a.bits <<< n).toNat = a.bits.toNat * 2 ^ n % 2 ^ k.bits
    rw [BitVec.toNat_shiftLeft, Nat.shiftLeft_eq]
  rw [← ofInt_toNat (⟨a.bits <<< n⟩ : Word k), hnat, ofInt_eq_ofInt_iff, Int.natCast_emod,
    Int.emod_emod_of_dvd _ (Int.dvd_refl _), Int.natCast_mul, Int.natCast_pow,
    toNat_eq_toInt_emod, Int.mul_emod, Int.emod_emod_of_dvd _ (Int.dvd_refl _), ← Int.mul_emod]
  rfl

theorem toInt_shiftRight_bits (a : Word k) (n : Nat) :
    (⟨if k.signed then a.bits.sshiftRight n else a.bits >>> n⟩ : Word k).toInt =
      a.toInt.fdiv (2 ^ n) := by
  have hpow : ((2 ^ n : Nat) : Int) = 2 ^ n := Int.natCast_pow 2 n
  rw [Int.fdiv_eq_ediv_of_nonneg _ (Int.pow_nonneg (by decide)), ← hpow]
  cases hs : k.signed with
  | true =>
    rw [toInt_signed _ hs, toInt_signed a hs]
    exact (BitVec.toInt_sshiftRight).trans (Int.shiftRight_eq_div_pow a.bits.toInt n)
  | false =>
    rw [toInt_unsigned _ hs, toInt_unsigned a hs]
    show ((a.bits >>> n).toNat : Int) = (a.bits.toNat : Int) / (2 ^ n : Nat)
    rw [BitVec.toNat_ushiftRight, Nat.shiftRight_eq_div_pow, Int.natCast_ediv]

theorem toInt_shiftBy (a : Word k) (n : Int) : (a.shiftBy n).toInt = k.shifted a.toInt n := by
  unfold Kind.shifted
  by_cases hle : k.bits ≤ n.natAbs
  · rw [if_pos hle, a.shiftBy_of_le hle, toInt_zero]
  · rw [if_neg hle]
    by_cases hn : 0 ≤ n
    · rw [if_pos hn, a.shiftBy_of_nonneg hn, shiftLeft_bits_eq_ofInt, toInt_ofInt]
    · obtain ⟨d, rfl⟩ : ∃ d : Nat, n = -d := ⟨n.natAbs, by omega⟩
      rw [if_neg hn, a.shiftBy_down (by omega), Int.natAbs_neg, Int.natAbs_natCast,
        ← toInt_shiftRight_bits, Kind.reduce_of_represents (toInt_represents _)]

/-! ## Counts that are not negative -/

theorem shiftLeft_eq_ofInt {c : Word l} {n : Nat} (h : c.toInt = n) (a : Word k) :
    a <<< c = ofInt (a.toInt * 2 ^ n) := by
  rw [shiftLeft_def, shiftLeft, h, a.shiftBy_of_nonneg (Int.natCast_nonneg n),
    Int.natAbs_natCast, shiftLeft_bits_eq_ofInt]

theorem ofInt_shiftLeft {c : Word l} {n : Nat} (h : c.toInt = n) (v : Int) :
    (ofInt v : Word k) <<< c = ofInt (v * 2 ^ n) := by
  rw [shiftLeft_eq_ofInt h, ofInt_eq_ofInt_iff, Int.mul_emod, toInt_ofInt_emod, ← Int.mul_emod]

theorem toInt_shiftRight {c : Word l} {n : Nat} (h : c.toInt = n) (a : Word k) :
    (a >>> c).toInt = if k.bits ≤ n then 0 else a.toInt / 2 ^ n := by
  have hpow : (0 : Int) ≤ 2 ^ n := Int.pow_nonneg (by decide)
  rw [shiftRight_def, shiftRight, h]
  split
  · rw [a.shiftBy_of_le (by omega), toInt_zero]
  · rw [a.shiftBy_down (by omega), toInt_shiftRight_bits, Int.fdiv_eq_ediv_of_nonneg _ hpow]

theorem shiftRight_of_le {c : Word l} {n : Nat} (h : c.toInt = n) (hle : k.bits ≤ n)
    (a : Word k) : a >>> c = zero := by
  rw [← toInt_inj, toInt_shiftRight h, if_pos hle, toInt_zero]

theorem ne_zero_of_toInt_eq_neg_one {a : Word k} (h : a.toInt = -1) : a ≠ zero := by
  rintro rfl
  rw [toInt_zero] at h
  omega

/-- Divided by `k.card` or more, an integer of the kind leaves nothing but its sign. -/
theorem toInt_ediv_of_le {n : Nat} (h : k.bits ≤ n) (a : Word k) :
    a.toInt / 2 ^ n = if a.toInt < 0 then -1 else 0 := by
  have hrep := a.toInt_represents
  have hcard := k.card_eq
  have hpow : (k.card : Int) ≤ 2 ^ n := by exact_mod_cast Nat.pow_le_pow_right (by decide) h
  unfold Kind.Represents Kind.least Kind.greatest at hrep
  split
  · exact Int.ediv_eq_neg_one_of_neg_of_le (by omega) (by split at hrep <;> omega)
  · exact Int.ediv_eq_zero_of_lt (by omega) (by split at hrep <;> omega)

end Word

/-- What shifting the word `a` by counts of any kinds comes to. -/
structure Word.ShiftLaws {k l m : Kind} (a : Word k) (c : Word l) (d : Word m) : Prop where
  left : (a.shiftLeft c).toInt = k.shifted a.toInt c.toInt
  right : (a.shiftRight c).toInt = k.shifted a.toInt (-c.toInt)
  opposite : c.toInt = -d.toInt → a.shiftLeft c = a.shiftRight d ∧ a.shiftRight c = a.shiftLeft d
  leftOperator : a <<< c = a.shiftLeft c
  rightOperator : a >>> c = a.shiftRight c
  datapathLeft : Datapath.shiftLeft (.ofWord a) (.ofWord c) = .ok (.ofWord (a.shiftLeft c))
  datapathRight : Datapath.shiftRight (.ofWord a) (.ofWord c) = .ok (.ofWord (a.shiftRight c))

/-- **Shifts follow the integer of their count** (`Kind.shifted`), so opposite counts of whatever
kinds shift opposite ways. The datapath, which sees a sign and a magnitude, does not fault. -/
theorem shifts_follow_count {k l m : Kind} (a : Word k) (c : Word l) (d : Word m) :
    Word.ShiftLaws a c d where
  left := a.toInt_shiftBy c.toInt
  right := a.toInt_shiftBy (-c.toInt)
  opposite h := by
    refine ⟨?_, ?_⟩
    · show a.shiftBy c.toInt = a.shiftBy (-d.toInt)
      rw [h]
    · show a.shiftBy (-c.toInt) = a.shiftBy d.toInt
      rw [h, Int.neg_neg]
  leftOperator := a.shiftLeft_def c
  rightOperator := a.shiftRight_def c
  datapathLeft := Datapath.shiftLeft_ofWord a c
  datapathRight := Datapath.shiftRight_ofWord a c

/-- A count within the word, and the least of `i128`, whose magnitude only `u128` has. -/
theorem shifts_follow_count_opposite :
    ((Word.ofInt (-3) : Word .i128).toInt = -(Word.ofInt 3 : Word .u8).toInt ∧
      (Word.ofInt (-100) : Word .i8).shiftLeft (Word.ofInt (-3) : Word .i128) =
        (Word.ofInt (-100) : Word .i8).shiftRight (Word.ofInt 3 : Word .u8)) ∧
    (Word.least : Word .i128).toInt = -(Word.ofInt (2 ^ 127) : Word .u128).toInt ∧
      (Word.least : Word .i64).shiftRight (Word.least : Word .i128) =
        (Word.least : Word .i64).shiftLeft (Word.ofInt (2 ^ 127) : Word .u128) := by
  have hthree : (Word.ofInt (-3) : Word .i128).toInt = -(Word.ofInt 3 : Word .u8).toInt := by
    decide
  have hleast : (Word.least : Word .i128).toInt = -(Word.ofInt (2 ^ 127) : Word .u128).toInt := by
    decide
  exact ⟨⟨hthree, ((shifts_follow_count _ _ _).opposite hthree).1⟩,
    hleast, ((shifts_follow_count _ _ _).opposite hleast).2⟩

end MachineInt
