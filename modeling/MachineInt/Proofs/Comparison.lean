import MachineInt.Proofs.Conversion
import MachineInt.Proofs.Datapath.Arith
import MachineInt.Proofs.Operation

/-!
# Comparisons across kinds

A comparison casts its operand to the kind on the left, and so it judges integers rightly where the
cast keeps them. Which kinds that is true of, and which of two words of different kinds may be
compared from either side:

* `compareCast_of_represents`, `compareCast_eq_iff`: one operand, and all of them.
* `equalsCast_comm_iff`: equality seen from one side is equality seen from the other exactly if the
  one side is at least as wide.
* `order_cast_iff`, `cast_le_cast_iff`: a cast keeps the order exactly if it keeps the integers. If
  it does not, it turns two neighbours at an end of the target round (`Kind.exists_reduce_lt`).
* `comparisons_follow_integers`: all of it (`Kind.ComparisonLaws`), with the order within one kind
  (`Word.OrderLaws`).
-/

set_option autoImplicit false

namespace MachineInt

variable {k l : Kind}

/-- Where `k` has not all the values of `l`, reduction to `k` turns two of them round. -/
theorem Kind.exists_reduce_lt (h : ¬l.EmbedsIn k) :
    ∃ m n, l.Represents m ∧ l.Represents n ∧ m < n ∧ k.reduce n < k.reduce m := by
  have hcard := k.card_eq
  have hpos := k.card_pos
  have hleast := k.least_eq
  have hzero := l.zero_represents
  have hends := k.zero_represents
  have hreduceLeast := reduce_of_represents ⟨Int.le_refl k.least, k.least_le_greatest⟩
  have hreduceGreatest := reduce_of_represents ⟨k.least_le_greatest, Int.le_refl k.greatest⟩
  obtain ⟨n, hn, rfl | rfl⟩ := exists_next_outside h
  · have hnext := k.reduce_greatest_add_one
    refine ⟨k.greatest, k.greatest + 1, ?_, hn, by omega, by omega⟩
    unfold Represents at *
    omega
  · have hnext := k.reduce_least_sub_one
    refine ⟨k.least - 1, k.least, hn, ?_, by omega, by omega⟩
    unfold Represents at *
    omega

namespace Word

/-! ## The questions on integers -/

def Comparison.onInt (c : Comparison) (m n : Int) : Prop :=
  match c with
  | eq => m = n
  | ne => m ≠ n
  | lt => m < n
  | le => m ≤ n
  | gt => n < m
  | ge => n ≤ m

theorem Comparison.holds_compare_iff (c : Comparison) (m n : Int) :
    c.holds (compare m n) = true ↔ c.onInt m n := by
  cases c with
  | eq => simp only [holds, onInt, beq_iff_eq, Int.compare_eq_eq]
  | ne => simp only [holds, onInt, bne_iff_ne, ne_eq, Int.compare_eq_eq]
  | lt => simp only [holds, onInt, beq_iff_eq, Int.compare_eq_lt]
  | le => simp only [holds, onInt, bne_iff_ne, Int.compare_ne_gt]
  | gt => simp only [holds, onInt, beq_iff_eq, Int.compare_eq_gt]
  | ge => simp only [holds, onInt, bne_iff_ne, Int.compare_ne_lt]

/-! ## Comparing with a cast operand -/

theorem compareCast_eq_compare (a : Word k) (b : Word l) :
    a.compareCast b = compare a.toInt (k.reduce b.toInt) := by
  unfold compareCast
  rw [order_eq_compare, toInt_cast]

theorem compareCast_of_represents {b : Word l} (h : k.Represents b.toInt) (a : Word k) :
    a.compareCast b = compare a.toInt b.toInt := by
  rw [compareCast_eq_compare, Kind.reduce_of_represents h]

theorem holdsCast_of_represents {b : Word l} (h : k.Represents b.toInt) (c : Comparison)
    (a : Word k) : a.holdsCast c b = true ↔ c.onInt a.toInt b.toInt := by
  unfold holdsCast
  rw [compareCast_of_represents h, c.holds_compare_iff]

theorem compareCast_eq_iff (k l : Kind) :
    (∀ (a : Word k) (b : Word l), a.compareCast b = compare a.toInt b.toInt) ↔ l.EmbedsIn k := by
  rw [Kind.embedsIn_iff]
  constructor
  · -- an operand equals its own cast, and so must its integer
    intro h n hn
    have hself : ((ofInt n : Word l).cast k).compareCast (ofInt n : Word l) = .eq :=
      order_eq_iff.2 rfl
    rw [h, Int.compare_eq_eq, toInt_cast_eq_iff, toInt_ofInt_of_represents hn] at hself
    exact hself
  · intro h a b
    exact compareCast_of_represents (h _ b.toInt_represents) a

theorem compareCast_datapath (a : Word k) (b : Word l) :
    (do let c ← Datapath.cast k (.ofWord b); Datapath.order (.ofWord a) c) =
      .ok (a.compareCast b) := by
  rw [Datapath.cast_ofWord, Datapath.ok_bind, Datapath.order_ofWord, ← order_eq_compare]
  rfl

/-! ## Equality from either side -/

theorem equalsCast_swap {a : Word k} {b : Word l} (hle : l.bits ≤ k.bits)
    (h : a.equalsCast b = true) : b.equalsCast a = true := by
  rw [equalsCast_iff] at h ⊢
  exact (Kind.emod_card_of_le hle h).symm

theorem equalsCast_comm (h : k.bits = l.bits) (a : Word k) (b : Word l) :
    a.equalsCast b = b.equalsCast a := by
  rw [Bool.eq_iff_iff]
  exact ⟨equalsCast_swap (Nat.le_of_eq h.symm), equalsCast_swap (Nat.le_of_eq h)⟩

theorem exists_equalsCast_not_swap (hlt : k.bits < l.bits) :
    ∃ (a : Word k) (b : Word l), a.equalsCast b = true ∧ b.equalsCast a = false := by
  -- a narrow zero equals the number of words of its kind, which is not zero in a wider kind
  have hwide := l.reduce_emod k.card
  have hnarrow := Kind.emod_card_of_le (Nat.le_of_lt hlt) hwide
  refine ⟨zero, ofInt k.card, ?_, ?_⟩
  · rw [equalsCast_iff, toInt_ofInt, hnarrow, toInt_zero, Int.emod_self, Int.zero_emod]
  · rw [Bool.eq_false_iff, ne_eq, equalsCast_iff, toInt_ofInt, hwide, toInt_zero]
    have hne := Kind.sub_card_emod_ne hlt k.card
    rwa [Int.sub_self] at hne

theorem equalsCast_comm_iff (k l : Kind) :
    (∀ (a : Word k) (b : Word l), a.equalsCast b = true → b.equalsCast a = true) ↔
      l.bits ≤ k.bits := by
  constructor
  · intro h
    refine Nat.le_of_not_lt fun hlt => ?_
    obtain ⟨a, b, hab, hba⟩ := exists_equalsCast_not_swap hlt
    rw [h a b hab] at hba
    cases hba
  · intro hle a b
    exact equalsCast_swap hle

/-! ## The order after a cast -/

theorem order_cast_of_embedsIn (h : l.EmbedsIn k) (x y : Word l) :
    (x.cast k).order (y.cast k) = x.order y := by
  rw [order_eq_compare, toInt_cast_of_embedsIn h, toInt_cast_of_embedsIn h, ← order_eq_compare]

theorem embedsIn_of_cast_le_cast (h : ∀ x y : Word l, x ≤ y → x.cast k ≤ y.cast k) :
    l.EmbedsIn k := by
  refine Decidable.byContradiction fun hemb => ?_
  obtain ⟨m, n, hm, hn, hlt, hreduce⟩ := Kind.exists_reduce_lt hemb
  have hle : (ofInt m : Word l) ≤ ofInt n := by
    rw [le_iff_toInt, toInt_ofInt_of_represents hm, toInt_ofInt_of_represents hn]
    omega
  have hcast := h _ _ hle
  rw [le_iff_toInt, toInt_cast, toInt_cast, toInt_ofInt_of_represents hm,
    toInt_ofInt_of_represents hn] at hcast
  omega

theorem order_cast_iff (k l : Kind) :
    (∀ x y : Word l, (x.cast k).order (y.cast k) = x.order y) ↔ l.EmbedsIn k := by
  constructor
  · intro h
    refine embedsIn_of_cast_le_cast fun x y hxy => ?_
    show (x.cast k).order (y.cast k) ≠ .gt
    rw [h]
    exact hxy
  · exact order_cast_of_embedsIn

theorem cast_le_cast_iff (k l : Kind) :
    (∀ x y : Word l, x ≤ y → x.cast k ≤ y.cast k) ↔ l.EmbedsIn k := by
  constructor
  · exact embedsIn_of_cast_le_cast
  · intro h x y hxy
    show (x.cast k).order (y.cast k) ≠ .gt
    rw [order_cast_of_embedsIn h]
    exact hxy

end Word

/-! ## Comparisons as comparisons of integers -/

/-- The order of two words of one kind, on `Word`s and in the datapath. -/
structure Word.OrderLaws (a b : Word k) : Prop where
  order_eq : a.order b = compare a.toInt b.toInt
  partialOrder : a.order? b = some (a.order b)
  order_eq_iff : a.order b = .eq ↔ a = b
  eq_iff_toNat : a = b ↔ a.toNat = b.toNat
  lt_iff : a < b ↔ a.toInt < b.toInt
  le_iff : a ≤ b ↔ a.toInt ≤ b.toInt
  toInt_max : (max a b).toInt = max a.toInt b.toInt
  toInt_min : (min a b).toInt = min a.toInt b.toInt
  datapath : Datapath.order (.ofWord a) (.ofWord b) = .ok (a.order b)

/-- The comparisons of `a` with a `b` of another kind, which is cast first. -/
structure Word.CastOrderLaws (a : Word k) (b : Word l) : Prop where
  compareCast_eq (h : k.Represents b.toInt) : a.compareCast b = compare a.toInt b.toInt
  holdsCast_iff (h : k.Represents b.toInt) (c : Word.Comparison) :
    a.holdsCast c b = true ↔ c.onInt a.toInt b.toInt
  equalsCast_iff : a.equalsCast b = true ↔ a.toInt % k.card = b.toInt % k.card
  equalsCast_comm (h : k.bits = l.bits) : a.equalsCast b = b.equalsCast a
  datapath : (do let c ← Datapath.cast k (.ofWord b); Datapath.order (.ofWord a) c) =
    .ok (a.compareCast b)

/-- `OrderLaws` and `CastOrderLaws` of all words, and what holds of all of them exactly if `k` has
all the values of `l` (`Kind.EmbedsIn`). -/
structure Kind.ComparisonLaws (k l : Kind) : Prop where
  order (a b : Word k) : a.OrderLaws b
  orderCast (a : Word k) (b : Word l) : a.CastOrderLaws b
  embedsIn_iff : l.EmbedsIn k ↔ ∀ n, l.Represents n → k.Represents n
  compareCast_iff : (∀ (a : Word k) (b : Word l), a.compareCast b = compare a.toInt b.toInt) ↔
    l.EmbedsIn k
  equalsCast_comm_iff : (∀ (a : Word k) (b : Word l),
    a.equalsCast b = true → b.equalsCast a = true) ↔ l.bits ≤ k.bits
  order_cast_iff : (∀ x y : Word l, (x.cast k).order (y.cast k) = x.order y) ↔ l.EmbedsIn k
  cast_le_cast_iff : (∀ x y : Word l, x ≤ y → x.cast k ≤ y.cast k) ↔ l.EmbedsIn k

/-- **Comparisons follow the integers**: within one kind always, after a `cast` of the operand where
the left kind has its integer. -/
theorem comparisons_follow_integers (k l : Kind) : k.ComparisonLaws l where
  order a b :=
    { order_eq := a.order_eq_compare b
      partialOrder := rfl
      order_eq_iff := Word.order_eq_iff
      eq_iff_toNat := Word.toNat_inj.symm
      lt_iff := a.lt_iff_toInt b
      le_iff := a.le_iff_toInt b
      toInt_max := a.toInt_max b
      toInt_min := a.toInt_min b
      datapath := by rw [Datapath.order_ofWord, ← Word.order_eq_compare] }
  orderCast a b :=
    { compareCast_eq := fun h => Word.compareCast_of_represents h a
      holdsCast_iff := fun h c => Word.holdsCast_of_represents h c a
      equalsCast_iff := Word.equalsCast_iff.trans eq_comm
      equalsCast_comm := fun h => Word.equalsCast_comm h a b
      datapath := a.compareCast_datapath b }
  embedsIn_iff := l.embedsIn_iff k
  compareCast_iff := Word.compareCast_eq_iff k l
  equalsCast_comm_iff := Word.equalsCast_comm_iff k l
  order_cast_iff := Word.order_cast_iff k l
  cast_le_cast_iff := Word.cast_le_cast_iff k l

theorem comparisons_follow_integers_within :
    Kind.i8.Represents (Word.ofInt 100 : Word .u16).toInt ∧
    (Word.ofInt (-1) : Word .i8).compareCast (Word.ofInt 100 : Word .u16) = .lt ∧
    Kind.i8.bits = Kind.u8.bits ∧
    (Word.ofInt 255 : Word .u8).equalsCast (Word.ofInt (-1) : Word .i8) = true ∧
    Kind.u8.EmbedsIn .i64 ∧
    (Word.ofInt (-1) : Word .i64).compareCast (Word.greatest : Word .u8) = .lt := by
  have hrep : Kind.i8.Represents (Word.ofInt 100 : Word .u16).toInt := by decide
  have hlt := ((comparisons_follow_integers .i8 .u16).orderCast (Word.ofInt (-1)) _).compareCast_eq
    hrep
  have hcomm := ((comparisons_follow_integers .u8 .i8).orderCast (Word.ofInt 255)
    (Word.ofInt (-1))).equalsCast_comm rfl
  have hemb : Kind.u8.EmbedsIn .i64 := by decide
  have hall := (comparisons_follow_integers .i64 .u8).compareCast_iff.2 hemb
  exact ⟨hrep, hlt.trans (by decide), rfl, hcomm.trans (by decide), hemb,
    (hall _ _).trans (by decide)⟩

end MachineInt
