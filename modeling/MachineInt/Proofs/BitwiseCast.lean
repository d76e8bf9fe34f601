import MachineInt.Proofs.Narrowing
import MachineInt.Proofs.Datapath.Arith

/-!
# Bitwise operations across casts

Below the size of its source a cast keeps each bit, and a bitwise operation treats each bit alone.
Above it all bits are the sign of a signed source, and clear otherwise. So an operation commutes
with casts if it takes the fills of its operands to the fill of its result. Conjunction, disjunction
and exclusive disjunction do, the complement of an unsigned word does not: its fill stays clear.

* `BitwiseOp.getLsbD_apply`, `BitwiseOp.isNegative_apply`: the bits of a result and its fill, as the
  operation on single bits (`onBool`).
* `BitwiseOp.cast_apply`: the three operations on two words commute with every cast.
* `Word.cast_complement_iff`: the complement does, or does not, whatever the word.
* `Word.hasBits_cast`, `Word.hasBits_of_cast_iff`: casts keep inclusion of bits, and those that lose
  no bit show it.
* `bitwise_commutes_with_casts`: all of it (`Kind.BitwiseCastLaws`), on the datapath as well.
-/

set_option autoImplicit false

namespace MachineInt

variable {k l : Kind}

/-! ## Operations on two words -/

namespace BitwiseOp

def onBool (op : BitwiseOp) (x y : Bool) : Bool :=
  match op with
  | and => x && y
  | or => x || y
  | xor => x ^^ y

theorem onBool_and_left (op : BitwiseOp) (s x y : Bool) :
    op.onBool (s && x) (s && y) = (s && op.onBool x y) := by
  cases s with
  | false => cases op <;> rfl
  | true => rfl

theorem getLsbD_onBits {w : Nat} (op : BitwiseOp) (x y : BitVec w) (i : Nat) :
    (op.onBits x y).getLsbD i = op.onBool (x.getLsbD i) (y.getLsbD i) := by
  cases op with
  | and => exact BitVec.getLsbD_and
  | or => exact BitVec.getLsbD_or
  | xor => exact BitVec.getLsbD_xor

theorem getLsbD_apply (op : BitwiseOp) (a b : Word k) (i : Nat) :
    (op.apply a b).bits.getLsbD i = op.onBool (a.bits.getLsbD i) (b.bits.getLsbD i) := by
  rw [op.bits_apply, op.getLsbD_onBits]

theorem isNegative_apply (op : BitwiseOp) (a b : Word k) :
    (op.apply a b).isNegative = op.onBool a.isNegative b.isNegative := by
  unfold Word.isNegative
  rw [op.onBool_and_left, BitVec.msb_eq_getLsbD_last, BitVec.msb_eq_getLsbD_last,
    BitVec.msb_eq_getLsbD_last, op.getLsbD_apply]

/-- **Bitwise operations commute with casts**, to every kind `l`. -/
theorem cast_apply (op : BitwiseOp) (l : Kind) (a b : Word k) :
    (op.apply a b).cast l = op.apply (a.cast l) (b.cast l) := by
  apply Word.ext
  apply BitVec.eq_of_getLsbD_eq
  intro i _
  rw [op.getLsbD_apply, Word.getLsbD_cast, Word.getLsbD_cast, Word.getLsbD_cast,
    op.onBool_and_left, op.getLsbD_apply, op.isNegative_apply]
  split <;> rfl

end BitwiseOp

namespace Word

/-! ## The complement -/

theorem isNegative_complement (hs : k.signed = true) (a : Word k) :
    (~~~a).isNegative = !a.isNegative := by
  unfold isNegative
  rw [hs, Bool.true_and, Bool.true_and, bits_complement, BitVec.msb_not,
    decide_eq_true k.bits_pos, Bool.true_and]

theorem cast_complement_of_signed (hs : k.signed = true) (l : Kind) (a : Word k) :
    (~~~a).cast l = ~~~(a.cast l) := by
  apply Word.ext
  apply BitVec.eq_of_getLsbD_eq
  intro i hi
  rw [bits_complement, BitVec.getLsbD_not, getLsbD_cast, getLsbD_cast, decide_eq_true hi,
    Bool.true_and, Bool.true_and, Bool.true_and, isNegative_complement hs]
  split
  · rename_i hik
    rw [bits_complement, BitVec.getLsbD_not, decide_eq_true hik, Bool.true_and]
  · rfl

theorem cast_complement_ne (hs : k.signed = false) (hlt : k.bits < l.bits) (a : Word k) :
    (~~~a).cast l ≠ ~~~(a.cast l) := by
  -- the lowest bit that the cast adds is clear after a complement, and set if that comes last
  intro heq
  have hbit := congrArg (fun b : Word l => b.bits.getLsbD k.bits) heq
  simp only [bits_complement, BitVec.getLsbD_not, getLsbD_cast, decide_eq_true hlt,
    if_neg (Nat.lt_irrefl k.bits), isNegative_of_unsigned hs] at hbit
  exact Bool.false_ne_true hbit

theorem cast_complement_iff (l : Kind) (a : Word k) :
    (~~~a).cast l = ~~~(a.cast l) ↔ l.bits ≤ k.bits ∨ k.signed = true := by
  constructor
  · intro heq
    by_cases hle : l.bits ≤ k.bits
    · exact .inl hle
    · refine .inr (Decidable.byContradiction fun hs => ?_)
      exact cast_complement_ne (Bool.eq_false_iff.2 hs) (Nat.lt_of_not_le hle) a heq
  · rintro (hle | hs)
    · exact cast_complement_of_le hle a
    · exact cast_complement_of_signed hs l a

/-! ## Inclusion of bits -/

theorem hasBits_iff {a m : Word k} : a.hasBits m = true ↔ a &&& m = m := beq_iff_eq

theorem hasBits_eq_register (a m : Word k) :
    a.hasBits m = (a.register &&& m.register == m.register) := by
  have hand : (a &&& m).register = a.register &&& m.register := BitVec.setWidth_and
  rw [Bool.eq_iff_iff, hasBits_iff, beq_iff_eq, ← hand]
  constructor
  · exact congrArg register
  · intro h
    rw [← ofRegister_register (a &&& m), h, ofRegister_register]

theorem zero_hasBits_iff {m : Word k} : (zero : Word k).hasBits m = true ↔ m = zero := by
  rw [hasBits_iff]
  have hand : (zero : Word k) &&& m = zero := Word.ext BitVec.zero_and
  rw [hand, eq_comm]

theorem cast_inj (h : k.bits ≤ l.bits) {a b : Word k} : a.cast l = b.cast l ↔ a = b := by
  constructor
  · intro heq
    have hback := (cast_cast_self_iff k l).2 h
    rw [← hback a, heq, hback b]
  · exact congrArg (cast l)

theorem hasBits_cast_iff (l : Kind) (a m : Word k) :
    (a.cast l).hasBits (m.cast l) = true ↔ (a &&& m).cast l = m.cast l := by
  have hand : (a &&& m).cast l = a.cast l &&& m.cast l := BitwiseOp.and.cast_apply l a m
  rw [hasBits_iff, hand]

theorem hasBits_cast {a m : Word k} (l : Kind) (h : a.hasBits m = true) :
    (a.cast l).hasBits (m.cast l) = true :=
  (hasBits_cast_iff l a m).2 (congrArg (cast l) (hasBits_iff.1 h))

theorem exists_hasBits_cast (h : l.bits < k.bits) :
    ∃ a m : Word k, (a.cast l).hasBits (m.cast l) = true ∧ ¬a.hasBits m = true := by
  -- the lowest bit that the cast drops: zero does not have it, yet both become zero
  refine ⟨zero, ofInt l.card, ?_, fun hbits => ?_⟩
  · rw [cast_zero, zero_hasBits_iff, cast_ofInt_of_le (Nat.le_of_lt h), ofInt_eq_zero_iff,
      Int.emod_self]
  · rw [zero_hasBits_iff, ofInt_eq_zero_iff] at hbits
    exact Kind.card_emod_ne_zero h hbits

theorem hasBits_of_cast_iff (k l : Kind) :
    (∀ a m : Word k, (a.cast l).hasBits (m.cast l) = true → a.hasBits m = true) ↔
      k.bits ≤ l.bits := by
  constructor
  · intro hall
    refine Nat.le_of_not_lt fun hlt => ?_
    obtain ⟨a, m, hcast, hbits⟩ := exists_hasBits_cast hlt
    exact hbits (hall a m hcast)
  · intro hle a m hcast
    rwa [hasBits_cast_iff, cast_inj hle, ← hasBits_iff] at hcast

end Word

/-- The bitwise operations, the complement and `Word.hasBits` before and after a cast from `k` to
`l`. -/
structure Kind.BitwiseCastLaws (k l : Kind) : Prop where
  and (a b : Word k) : (a &&& b).cast l = a.cast l &&& b.cast l
  or (a b : Word k) : (a ||| b).cast l = a.cast l ||| b.cast l
  xor (a b : Word k) : (a ^^^ b).cast l = a.cast l ^^^ b.cast l
  complement_iff : (∀ a : Word k, (~~~a).cast l = ~~~(a.cast l)) ↔
    l.bits ≤ k.bits ∨ k.signed = true
  hasBits (a m : Word k) (h : a.hasBits m = true) : (a.cast l).hasBits (m.cast l) = true
  hasBits_iff : (∀ a m : Word k, (a.cast l).hasBits (m.cast l) = true → a.hasBits m = true) ↔
    k.bits ≤ l.bits
  bitwise_cast (op : BitwiseOp) (a b : Word k) :
    (do let c ← Datapath.bitwise op (.ofWord a) (.ofWord b); Datapath.cast l c) =
      .ok (.ofWord ((op.apply a b).cast l))
  cast_bitwise (op : BitwiseOp) (a b : Word k) :
    (do let c ← Datapath.cast l (.ofWord a); let d ← Datapath.cast l (.ofWord b)
        Datapath.bitwise op c d) = .ok (.ofWord ((op.apply a b).cast l))
  complement_cast (a : Word k) :
    (do let c ← Datapath.complement (.ofWord a); Datapath.cast l c) = .ok (.ofWord ((~~~a).cast l))
  cast_complement (a : Word k) :
    (do let c ← Datapath.cast l (.ofWord a); Datapath.complement c) =
      .ok (.ofWord (~~~(a.cast l)))
  hasBits_register (a m : Word k) : a.hasBits m = (a.register &&& m.register == m.register)

/-- **Bitwise operations and casts** commute, from any kind to any kind, but for the complement and
the inclusion of bits, where `Kind.BitwiseCastLaws` says which kinds. -/
theorem bitwise_commutes_with_casts (k l : Kind) : k.BitwiseCastLaws l where
  and := BitwiseOp.and.cast_apply l
  or := BitwiseOp.or.cast_apply l
  xor := BitwiseOp.xor.cast_apply l
  complement_iff := by simp only [Word.cast_complement_iff, forall_const]
  hasBits _ _ := Word.hasBits_cast l
  hasBits_iff := Word.hasBits_of_cast_iff k l
  bitwise_cast op a b := by
    rw [Datapath.bitwise_ofWord, Datapath.ok_bind, Datapath.cast_ofWord]
  cast_bitwise op a b := by
    rw [Datapath.cast_ofWord, Datapath.ok_bind, Datapath.cast_ofWord, Datapath.ok_bind,
      Datapath.bitwise_ofWord, op.cast_apply]
  complement_cast a := by
    rw [Datapath.complement_ofWord, Datapath.ok_bind, Datapath.cast_ofWord]
  cast_complement a := by
    rw [Datapath.cast_ofWord, Datapath.ok_bind, Datapath.complement_ofWord]
  hasBits_register := Word.hasBits_eq_register

/-- Widening a signed byte keeps complements, and an unsigned one loses them. Back from 16 bits
inclusion may be of the low bits alone. -/
theorem bitwise_commutes_with_casts_bytes :
    (Kind.i8.signed = true ∧
      (~~~(Word.ofInt (-3) : Word .i8)).cast .u16 = ~~~((Word.ofInt (-3) : Word .i8).cast .u16)) ∧
    (¬(Kind.i16.bits ≤ Kind.u8.bits ∨ Kind.u8.signed = true) ∧
      ¬∀ a : Word .u8, (~~~a).cast .i16 = ~~~(a.cast .i16)) ∧
    ((Word.ofInt (-3) : Word .i8).hasBits (Word.ofInt (-7)) = true ∧
      ((Word.ofInt (-3) : Word .i8).cast .u16).hasBits ((Word.ofInt (-7) : Word .i8).cast .u16) =
        true) ∧
    (¬Kind.i16.bits ≤ Kind.u8.bits ∧
      ¬∀ a m : Word .i16, (a.cast .u8).hasBits (m.cast .u8) = true → a.hasBits m = true) := by
  have hsigned := bitwise_commutes_with_casts .i8 .u16
  have hunsigned := (bitwise_commutes_with_casts .u8 .i16).complement_iff
  have hnarrow := (bitwise_commutes_with_casts .i16 .u8).hasBits_iff
  have hadded : ¬(Kind.i16.bits ≤ Kind.u8.bits ∨ Kind.u8.signed = true) := by decide
  have hdropped : ¬Kind.i16.bits ≤ Kind.u8.bits := by decide
  have hhas : (Word.ofInt (-3) : Word .i8).hasBits (Word.ofInt (-7)) = true := by decide
  exact ⟨⟨rfl, hsigned.complement_iff.2 (.inr rfl) _⟩, ⟨hadded, mt hunsigned.1 hadded⟩,
    ⟨hhas, hsigned.hasBits _ _ hhas⟩, ⟨hdropped, mt hnarrow.1 hdropped⟩⟩

end MachineInt
