import MachineInt.Proofs.Conversion
import MachineInt.Proofs.Datapath.Arith
import MachineInt.Proofs.Operation
import MachineInt.Proofs.Shift

/-!
# Laws of shifts

Two shifts in turn against one shift by the sum of the counts. Up they always agree. Down they agree
unless a word below zero is moved out of its kind by the two together and by neither alone: each
division rounds down and keeps the sign, while the one shift overshoots and gives zero.

* `Word.shiftLeft_shiftLeft`: up, without exception.
* `Word.LosesSign`: the exception.
* `Word.shiftRight_shiftRight_of_losesSign`, `Word.shiftRight_shiftRight_of_not`: down, where it
  holds and where not.
* `shifts_compose`: both directions (`Word.ComposeLaws`), with the exception exact.

A shift right before or after a cast to a kind that has all values of the word's own. The integer is
the same in both kinds, so what tells the two ways apart is where a shift overshoots.

* `Word.OvershootsBelow`: a word below zero and a distance that leaves the narrow kind only.
* `Word.cast_shiftRight_of_lt`, `Word.toInt_cast_shiftRight_of_le`: within it, and beyond it.
* `shiftRight_cast_agrees`: the two ways agree exactly outside of what lies in between.

A shift up by a count that is not negative is the wrapped product with a power of two, be it within
the word, at its sign bit or beyond it, where the power itself has wrapped to zero.

* `Word.shiftLeft_eq_mul`: the product.
* `ArithOp.shiftLeft_apply`, `Word.shiftLeft_mul`: shifts up over sums and differences, and into one
  factor of a product.
* `shiftLeft_multiplies`: all of it (`Word.ProductLaws`), with the product taken on the datapath.
-/

set_option autoImplicit false

namespace MachineInt

/-! ## Shifts in turn -/

namespace Word

variable {j k l m : Kind} {p : Word j} {q : Word l} {s : Word m} {i n : Nat}

/-! ### Up -/

theorem shiftLeft_shiftLeft (hp : p.toInt = i) (hq : q.toInt = n) (hs : s.toInt = (i + n : Nat))
    (a : Word k) : a <<< p <<< q = a <<< s := by
  -- products of integers, reduced once, so it does not matter how many bits leave the word
  rw [shiftLeft_eq_ofInt hp, ofInt_shiftLeft hq, shiftLeft_eq_ofInt hs, Int.pow_add,
    Int.mul_assoc]

/-! ### Down -/

/-- The word is below zero, and the distances `i` and `n` leave its kind together although neither
does alone. -/
def LosesSign (a : Word k) (i n : Int) : Prop :=
  a.toInt < 0 ∧ i < k.bits ∧ n < k.bits ∧ k.bits ≤ i + n

instance (a : Word k) (i n : Int) : Decidable (a.LosesSign i n) :=
  inferInstanceAs (Decidable (_ ∧ _))

theorem toInt_shiftRight_shiftRight (hp : p.toInt = i) (hq : q.toInt = n) (hi : i < k.bits)
    (hn : n < k.bits) (a : Word k) : (a >>> p >>> q).toInt = a.toInt / 2 ^ (i + n) := by
  have hpow : (0 : Int) ≤ 2 ^ i := Int.pow_nonneg (by decide)
  rw [toInt_shiftRight hq, toInt_shiftRight hp, if_neg (by omega), if_neg (by omega),
    Int.ediv_ediv_of_nonneg hpow, Int.pow_add]

theorem shiftRight_shiftRight_of_losesSign {a : Word k} (hp : p.toInt = i) (hq : q.toInt = n)
    (hs : s.toInt = (i + n : Nat)) (h : a.LosesSign i n) :
    (a >>> p >>> q).toInt = -1 ∧ a >>> s = zero := by
  obtain ⟨hneg, hi, hn, hle⟩ := h
  constructor
  · rw [toInt_shiftRight_shiftRight hp hq (by omega) (by omega), toInt_ediv_of_le (by omega),
      if_pos hneg]
  · exact shiftRight_of_le hs (by omega) a

theorem shiftRight_shiftRight_of_not {a : Word k} (hp : p.toInt = i) (hq : q.toInt = n)
    (hs : s.toInt = (i + n : Nat)) (h : ¬a.LosesSign i n) : a >>> p >>> q = a >>> s := by
  unfold LosesSign at h
  rw [← toInt_inj, toInt_shiftRight hs]
  by_cases hlt : i < k.bits ∧ n < k.bits
  · rw [toInt_shiftRight_shiftRight hp hq hlt.1 hlt.2]
    split
    · -- the sum overshoots, so only the sign is left, and that is not negative here
      rw [toInt_ediv_of_le (by omega), if_neg (by omega)]
    · rfl
  · -- one of the two shifts overshoots, and with it the sum
    rw [if_pos (by omega), toInt_shiftRight hq, toInt_shiftRight hp]
    split
    · rfl
    · rw [if_pos (by omega), Int.zero_ediv]

theorem bits_of_toInt_eq_neg_one {a : Word k} (h : a.toInt = -1) :
    a.bits = BitVec.allOnes k.bits := by
  rw [bits_eq_ofInt, h, BitVec.ofInt_neg, BitVec.ofInt_ofNat, BitVec.neg_one_eq_allOnes]

end Word

/-- Two shifts of `a` in turn beside one by `s` places, where `LosesSign` names the words that fall
out. -/
structure Word.ComposeLaws {j k l m : Kind} (p : Word j) (q : Word l) (s : Word m) (a : Word k) :
    Prop where
  left : a <<< p <<< q = a <<< s
  right_iff : a >>> p >>> q = a >>> s ↔ ¬a.LosesSign p.toInt q.toInt
  toInt_of_losesSign (h : a.LosesSign p.toInt q.toInt) : (a >>> p >>> q).toInt = -1
  bits_of_losesSign (h : a.LosesSign p.toInt q.toInt) :
    (a >>> p >>> q).bits = BitVec.allOnes k.bits
  once_of_losesSign (h : a.LosesSign p.toInt q.toInt) : a >>> s = Word.zero
  left_datapath :
    (do let t ← Datapath.shiftLeft (.ofWord a) (.ofWord p); Datapath.shiftLeft t (.ofWord q)) =
      .ok (.ofWord (a <<< p <<< q))
  right_datapath :
    (do let t ← Datapath.shiftRight (.ofWord a) (.ofWord p); Datapath.shiftRight t (.ofWord q)) =
      .ok (.ofWord (a >>> p >>> q))

/-- **Shifts in turn** are one shift by a count that is the sum, but for the words below zero that
`Word.LosesSign` singles out. -/
theorem shifts_compose {j k l m : Kind} {p : Word j} {q : Word l} {s : Word m}
    (hp : 0 ≤ p.toInt) (hq : 0 ≤ q.toInt) (hs : s.toInt = p.toInt + q.toInt) (a : Word k) :
    Word.ComposeLaws p q s a := by
  obtain ⟨i, hi⟩ := Int.eq_ofNat_of_zero_le hp
  obtain ⟨n, hn⟩ := Int.eq_ofNat_of_zero_le hq
  have hin : s.toInt = (i + n : Nat) := by omega
  have hlost (h : a.LosesSign p.toInt q.toInt) :
      (a >>> p >>> q).toInt = -1 ∧ a >>> s = Word.zero := by
    rw [hi, hn] at h
    exact Word.shiftRight_shiftRight_of_losesSign hi hn hin h
  exact
    { left := Word.shiftLeft_shiftLeft hi hn hin a
      right_iff := by
        refine ⟨fun heq h => ?_, fun h => ?_⟩
        · obtain ⟨hminus, hzero⟩ := hlost h
          exact Word.ne_zero_of_toInt_eq_neg_one hminus (heq.trans hzero)
        · rw [hi, hn] at h
          exact Word.shiftRight_shiftRight_of_not hi hn hin h
      toInt_of_losesSign := fun h => (hlost h).1
      bits_of_losesSign := fun h => Word.bits_of_toInt_eq_neg_one (hlost h).1
      once_of_losesSign := fun h => (hlost h).2
      left_datapath := by
        rw [Datapath.shiftLeft_ofWord, Datapath.ok_bind, Datapath.shiftLeft_ofWord]
        rfl
      right_datapath := by
        rw [Datapath.shiftRight_ofWord, Datapath.ok_bind, Datapath.shiftRight_ofWord]
        rfl }

theorem shifts_compose_least :
    0 ≤ (Word.ofInt 5 : Word .u8).toInt ∧ 0 ≤ (Word.ofInt 4 : Word .i64).toInt ∧
    (Word.ofInt 9 : Word .u128).toInt =
      (Word.ofInt 5 : Word .u8).toInt + (Word.ofInt 4 : Word .i64).toInt ∧
    (Word.least : Word .i8).LosesSign (Word.ofInt 5 : Word .u8).toInt
      (Word.ofInt 4 : Word .i64).toInt ∧
    ((Word.least : Word .i8) >>> (Word.ofInt 5 : Word .u8) >>> (Word.ofInt 4 : Word .i64)).toInt =
      -1 ∧
    (Word.least : Word .i8) >>> (Word.ofInt 9 : Word .u128) = Word.zero ∧
    (Word.greatest : Word .u16) >>> (Word.ofInt 5 : Word .u8) >>> (Word.ofInt 4 : Word .i64) =
      (Word.greatest : Word .u16) >>> (Word.ofInt 9 : Word .u128) := by
  have hfive : 0 ≤ (Word.ofInt 5 : Word .u8).toInt := by decide
  have hfour : 0 ≤ (Word.ofInt 4 : Word .i64).toInt := by decide
  have hnine : (Word.ofInt 9 : Word .u128).toInt =
      (Word.ofInt 5 : Word .u8).toInt + (Word.ofInt 4 : Word .i64).toInt := by decide
  have hlost : (Word.least : Word .i8).LosesSign (Word.ofInt 5 : Word .u8).toInt
      (Word.ofInt 4 : Word .i64).toInt := by decide
  have hleast := shifts_compose hfive hfour hnine (Word.least : Word .i8)
  have hgreatest := shifts_compose hfive hfour hnine (Word.greatest : Word .u16)
  exact ⟨hfive, hfour, hnine, hlost, hleast.toInt_of_losesSign hlost,
    hleast.once_of_losesSign hlost, hgreatest.right_iff.2 (by decide)⟩

/-! ## Right shifts and widening -/

namespace Word

variable {k l m : Kind} {c : Word m} {n : Nat}

/-- The word is below zero, and the distance leaves its own kind but not kind `l`. -/
def OvershootsBelow (l : Kind) (a : Word k) (n : Int) : Prop :=
  a.toInt < 0 ∧ k.bits ≤ n ∧ n < l.bits

instance (l : Kind) (a : Word k) (n : Int) : Decidable (a.OvershootsBelow l n) :=
  inferInstanceAs (Decidable (_ ∧ _))

theorem cast_shiftRight_of_lt (h : k.EmbedsIn l) (hc : c.toInt = n) (hlt : n < k.bits)
    (a : Word k) : (a >>> c).cast l = a.cast l >>> c := by
  have hle := h.bits_le
  rw [← toInt_inj, toInt_cast_of_embedsIn h, toInt_shiftRight hc, toInt_shiftRight hc,
    toInt_cast_of_embedsIn h, if_neg (by omega), if_neg (by omega)]

/-- Beyond its own kind the word leaves its sign in `l`, until it leaves that as well. -/
theorem toInt_cast_shiftRight_of_le (h : k.EmbedsIn l) (hc : c.toInt = n) (hle : k.bits ≤ n)
    (a : Word k) :
    (a.cast l >>> c).toInt = if l.bits ≤ n then 0 else if a.toInt < 0 then -1 else 0 := by
  rw [toInt_shiftRight hc, toInt_cast_of_embedsIn h, a.toInt_ediv_of_le hle]

theorem cast_shiftRight_of_overshootsBelow {a : Word k} (h : k.EmbedsIn l) (hc : c.toInt = n)
    (hover : a.OvershootsBelow l n) :
    (a >>> c).cast l = zero ∧ (a.cast l >>> c).toInt = -1 := by
  -- the first way has shifted everything out, the second still has copies of the sign
  obtain ⟨hneg, hle, hlt⟩ := hover
  constructor
  · rw [shiftRight_of_le hc (by omega), cast_zero]
  · rw [toInt_cast_shiftRight_of_le h hc (by omega), if_neg (by omega), if_pos hneg]

theorem cast_shiftRight_of_not {a : Word k} (h : k.EmbedsIn l) (hc : c.toInt = n)
    (hnot : ¬a.OvershootsBelow l n) : (a >>> c).cast l = a.cast l >>> c := by
  unfold OvershootsBelow at hnot
  by_cases hlt : n < k.bits
  · exact cast_shiftRight_of_lt h hc hlt a
  -- both ways give zero: the word has no sign to leave, or the shift overshoots in both kinds
  · rw [shiftRight_of_le hc (by omega), cast_zero, ← toInt_inj, toInt_zero,
      toInt_cast_shiftRight_of_le h hc (by omega)]
    split
    · rfl
    · rw [if_neg (by omega)]

end Word

/-- **Right shifts and widening** commute, but for the words below zero and the distances that
`Word.OvershootsBelow` singles out: there the shift before the cast gives zero, and the one after it
minus one. -/
theorem shiftRight_cast_agrees {k l m : Kind} (h : ∀ n, k.Represents n → l.Represents n)
    {c : Word m} (hc : 0 ≤ c.toInt) (a : Word k) :
    ((a >>> c).cast l = a.cast l >>> c ↔ ¬a.OvershootsBelow l c.toInt) ∧
    (a.OvershootsBelow l c.toInt →
      (a >>> c).cast l = Word.zero ∧ (a.cast l >>> c).toInt = -1) ∧
    (do let s ← Datapath.shiftRight (.ofWord a) (.ofWord c); Datapath.cast l s) =
      .ok (.ofWord ((a >>> c).cast l)) ∧
    (do let s ← Datapath.cast l (.ofWord a); Datapath.shiftRight s (.ofWord c)) =
      .ok (.ofWord (a.cast l >>> c)) := by
  have hemb : k.EmbedsIn l := (k.embedsIn_iff l).2 h
  obtain ⟨n, hn⟩ := Int.eq_ofNat_of_zero_le hc
  rw [hn]
  refine ⟨⟨?only, Word.cast_shiftRight_of_not hemb hn⟩,
    Word.cast_shiftRight_of_overshootsBelow hemb hn, ?shiftFirst, ?castFirst⟩
  case only =>
    intro heq hover
    obtain ⟨hzero, hminus⟩ := Word.cast_shiftRight_of_overshootsBelow hemb hn hover
    exact Word.ne_zero_of_toInt_eq_neg_one hminus (heq.symm.trans hzero)
  case shiftFirst => rw [Datapath.shiftRight_ofWord, Datapath.ok_bind, Datapath.cast_ofWord]; rfl
  case castFirst => rw [Datapath.cast_ofWord, Datapath.ok_bind, Datapath.shiftRight_ofWord]; rfl

theorem shiftRight_cast_agrees_minus_one :
    (∀ n, Kind.i8.Represents n → Kind.i16.Represents n) ∧
    0 ≤ (Word.ofInt 8 : Word .u32).toInt ∧
    (Word.ofInt (-1) : Word .i8).OvershootsBelow .i16 (Word.ofInt 8 : Word .u32).toInt ∧
    ((Word.ofInt (-1) : Word .i8) >>> (Word.ofInt 8 : Word .u32)).cast .i16 = Word.zero ∧
    ((Word.ofInt (-1) : Word .i8).cast .i16 >>> (Word.ofInt 8 : Word .u32)).toInt = -1 ∧
    0 ≤ (Word.ofInt 7 : Word .i64).toInt ∧
    ((Word.ofInt (-1) : Word .i8) >>> (Word.ofInt 7 : Word .i64)).cast .i16 =
      (Word.ofInt (-1) : Word .i8).cast .i16 >>> (Word.ofInt 7 : Word .i64) := by
  have hall : ∀ n, Kind.i8.Represents n → Kind.i16.Represents n :=
    (Kind.embedsIn_iff .i8 .i16).1 (by decide)
  have height : 0 ≤ (Word.ofInt 8 : Word .u32).toInt := by decide
  have hseven : 0 ≤ (Word.ofInt 7 : Word .i64).toInt := by decide
  have hover :
      (Word.ofInt (-1) : Word .i8).OvershootsBelow .i16 (Word.ofInt 8 : Word .u32).toInt := by
    decide
  obtain ⟨hzero, hminus⟩ := (shiftRight_cast_agrees hall height _).2.1 hover
  exact ⟨hall, height, hover, hzero, hminus, hseven,
    (shiftRight_cast_agrees hall hseven _).1.2 (by decide)⟩

/-! ## Left shifts are products -/

section

variable {k l m : Kind} {c : Word l} {n : Nat}

theorem ArithOp.shiftLeft_apply {op : ArithOp} (h : op ≠ mul) (hc : c.toInt = n) (a b : Word k) :
    op.apply a b <<< c = op.apply (a <<< c) (b <<< c) := by
  rw [apply_eq_ofInt, Word.ofInt_shiftLeft hc, Word.shiftLeft_eq_ofInt hc,
    Word.shiftLeft_eq_ofInt hc, apply_ofInt, onInt_mul h]

namespace Word

theorem one_shiftLeft (hc : c.toInt = n) : (one : Word k) <<< c = ofInt (2 ^ n) := by
  rw [← ofInt_one, ofInt_shiftLeft hc, Int.one_mul]

theorem shiftLeft_eq_mul (hc : c.toInt = n) (a : Word k) :
    a <<< c = a * ((one : Word k) <<< c) := by
  calc a <<< c = ofInt (a.toInt * 2 ^ n) := shiftLeft_eq_ofInt hc a
    _ = ArithOp.mul.apply a (ofInt (2 ^ n) : Word k) :=
        (ArithOp.mul.apply_eq_ofInt_of_emod rfl (toInt_ofInt_emod _)).symm
    _ = a * ((one : Word k) <<< c) := by rw [one_shiftLeft hc]; rfl

theorem shiftLeft_mul (hc : c.toInt = n) (a : Word k) (b : Word m) :
    (a * b) <<< c = (a <<< c) * b := by
  calc (a * b) <<< c = ofInt (a.toInt * b.toInt) <<< c :=
        congrArg (· <<< c) (ArithOp.mul.apply_eq_ofInt a b)
    _ = ofInt (a.toInt * 2 ^ n * b.toInt) := by rw [ofInt_shiftLeft hc, Int.mul_right_comm]
    _ = ArithOp.mul.apply (ofInt (a.toInt * 2 ^ n) : Word k) b :=
        (ArithOp.mul.apply_eq_ofInt_of_emod (toInt_ofInt_emod _) rfl).symm
    _ = (a <<< c) * b := by rw [shiftLeft_eq_ofInt hc]; rfl

end Word

/-- A shift of `a` up, as the product with `Word.one` shifted so, and what follows for sums,
differences and products with `b`. -/
structure Word.ProductLaws {k l : Kind} (c : Word l) (a b : Word k) : Prop where
  eq_mul : a <<< c = a * ((one : Word k) <<< c)
  add : (a + b) <<< c = (a <<< c) + (b <<< c)
  sub : (a - b) <<< c = (a <<< c) - (b <<< c)
  mul : (a * b) <<< c = (a <<< c) * b
  datapath : Datapath.shiftLeft (.ofWord a) (.ofWord c) = .ok (.ofWord (a <<< c))
  mul_datapath :
    (do let s ← Datapath.constant k .one
        let t ← Datapath.shiftLeft s (.ofWord c)
        Datapath.mul (.ofWord a) t) = .ok (.ofWord (a <<< c))

/-- **Left shifts are products** with a power of two, also by a count that leaves the word no bits:
`Word.ProductLaws` for every count that is not negative. -/
theorem shiftLeft_multiplies {k l : Kind} {c : Word l} (hc : 0 ≤ c.toInt) (a b : Word k) :
    Word.ProductLaws c a b := by
  obtain ⟨n, hn⟩ := Int.eq_ofNat_of_zero_le hc
  have hproduct := Word.shiftLeft_eq_mul hn a
  have hadd : ArithOp.add ≠ .mul := by decide
  have hsub : ArithOp.sub ≠ .mul := by decide
  exact
    { eq_mul := hproduct
      add := ArithOp.shiftLeft_apply hadd hn a b
      sub := ArithOp.shiftLeft_apply hsub hn a b
      mul := Word.shiftLeft_mul hn a b
      datapath := Datapath.shiftLeft_ofWord a c
      mul_datapath := by
        rw [Datapath.constant_eq, Datapath.ok_bind, Datapath.shiftLeft_ofWord, Datapath.ok_bind,
          hproduct]
        exact Datapath.arith_ofWord .mul a ((Word.one : Word k) <<< c) }

/-- Seven places in a byte, where the power is `least`, and 200 in the widest kind, where it is
`zero`. -/
theorem shiftLeft_multiplies_sign_bit :
    0 ≤ (Word.ofInt 7 : Word .u32).toInt ∧
    (Word.one : Word .i8) <<< (Word.ofInt 7 : Word .u32) = Word.least ∧
    (Word.ofInt (-3) : Word .i8) <<< (Word.ofInt 7 : Word .u32) =
      (Word.ofInt (-3) : Word .i8) * (Word.least : Word .i8) ∧
    0 ≤ (Word.ofInt 200 : Word .u8).toInt ∧
    (Word.one : Word .u128) <<< (Word.ofInt 200 : Word .u8) = Word.zero ∧
    (Word.greatest : Word .u128) <<< (Word.ofInt 200 : Word .u8) =
      (Word.greatest : Word .u128) * (Word.zero : Word .u128) := by
  have hseven : 0 ≤ (Word.ofInt 7 : Word .u32).toInt := by decide
  have hleast : (Word.one : Word .i8) <<< (Word.ofInt 7 : Word .u32) = Word.least := by decide
  have hfar : 0 ≤ (Word.ofInt 200 : Word .u8).toInt := by decide
  have hzero : (Word.one : Word .u128) <<< (Word.ofInt 200 : Word .u8) = Word.zero := by decide
  have hbyte := (shiftLeft_multiplies hseven (Word.ofInt (-3) : Word .i8) Word.one).eq_mul
  have hwide := (shiftLeft_multiplies hfar (Word.greatest : Word .u128) Word.one).eq_mul
  rw [hleast] at hbyte
  rw [hzero] at hwide
  exact ⟨hseven, hleast, hbyte, hfar, hzero, hwide⟩

end

end MachineInt
