import MachineInt.Proofs.BitwiseArith
import MachineInt.Proofs.ByteCast
import MachineInt.Proofs.Operation

/-!
# The order of big-endian bytes

The most significant byte of a big-endian encoding comes first, so byte lists of one length are
ordered, entry by entry, as the numbers they spell. For words of an unsigned kind that is the order
of the words. In a signed kind the words below zero have the greater numbers; with the top bit the
other way round every number is the integer less the least one, and the order is right again.

* `compare_decode_big`: **lexicographic order is the order of the numbers**, by induction on the
  bytes, with one digit in front of the others as the step (`compare_mul_add`).
* `Word.xor_least_eq_sub`, `Word.toNat_xor_least`: what turning the top bit round does.
* `Word.order_eq_compare_xor_least`: the order of words by patterns.
* `order_follows_big_endian_bytes`: the order of words by bytes, and by the unsigned kind
  (`Word.LexicalLaws`).
-/

set_option autoImplicit false

namespace MachineInt

/-! ## Lexicographic order -/

theorem compare_toNat (x y : UInt8) : compare x.toNat y.toNat = compare x y := by
  simp only [compare, compareOfLessAndEq, UInt8.lt_iff_toNat_lt, UInt8.toNat_inj]

/-- Numbers below `c` behind a multiple of `c` count only where the multiples are the same. -/
theorem compare_mul_add {m n p q c : Nat} (hp : p < c) (hq : q < c) :
    compare (c * m + p) (c * n + q) = (compare m n).then (compare p q) := by
  rcases Nat.lt_trichotomy m n with hlt | rfl | hgt
  · have hmul : c * (m + 1) ≤ c * n := Nat.mul_le_mul_left c hlt
    rw [Nat.mul_succ] at hmul
    rw [Nat.compare_eq_lt.2 hlt, Nat.compare_eq_lt.2 (by omega)]
    rfl
  · rw [Nat.compare_eq_eq.2 rfl, Ordering.eq_then]
    simp only [compare, compareOfLessAndEq, Nat.add_lt_add_iff_left, Nat.add_left_cancel_iff]
  · have hmul : c * (n + 1) ≤ c * m := Nat.mul_le_mul_left c hgt
    rw [Nat.mul_succ] at hmul
    rw [Nat.compare_eq_gt.2 hgt, Nat.compare_eq_gt.2 (by omega)]
    rfl

theorem decode_big_cons (b : UInt8) (bs : List UInt8) : ByteOrder.big.decode (b :: bs) =
    Nat.pow 256 bs.length * b.toNat + ByteOrder.big.decode bs := by
  show ofLittleEndian (b :: bs).reverse = _ + ofLittleEndian bs.reverse
  rw [List.reverse_cons, ofLittleEndian_append, List.length_reverse, Nat.add_comm]
  rfl

theorem decode_big_lt (bytes : List UInt8) :
    ByteOrder.big.decode bytes < Nat.pow 256 bytes.length := by
  have hmod := ByteOrder.big.decode_encode bytes.length (ByteOrder.big.decode bytes)
  rw [ByteOrder.big.encode_decode] at hmod
  rw [hmod]
  exact Nat.mod_lt _ (Nat.pow_pos (by decide))

/-- **Byte lists of one length** are ordered as the numbers that they spell in `big` endian. -/
theorem compare_decode_big {xs ys : List UInt8} (h : xs.length = ys.length) :
    compare (ByteOrder.big.decode xs) (ByteOrder.big.decode ys) = compare xs ys := by
  induction xs generalizing ys with
  | nil =>
    obtain rfl := List.length_eq_zero_iff.1 h.symm
    rfl
  | cons x xs ih =>
    cases ys with
    | nil => cases h
    | cons y ys =>
      have hrest : xs.length = ys.length := Nat.succ.inj h
      have hys := decode_big_lt ys
      rw [decode_big_cons, decode_big_cons, hrest,
        compare_mul_add (hrest ▸ decode_big_lt xs) hys, compare_toNat, ih hrest,
        List.compare_cons_cons]

namespace Word

variable {k : Kind}

theorem compare_toBytes_big (a b : Word k) :
    compare (a.toBytes .big) (b.toBytes .big) = compare a.toNat b.toNat := by
  have hlength : (a.toBytes .big).length = (b.toBytes .big).length := by simp
  rw [← compare_decode_big hlength, decode_toBytes, decode_toBytes]

/-! ## The top bit turned round -/

theorem double_least_and (a : Word k) :
    ((least : Word k) &&& a) + ((least : Word k) &&& a) = zero := by
  -- the least word of a signed kind is its top bit, which is its own negation
  apply Word.ext
  rw [bits_add, bits_and, BitVec.and_comm]
  simp only [least, zero]
  split
  · have htop : -BitVec.intMin k.bits = BitVec.intMin k.bits := BitVec.neg_intMin
    rw [BitVec.intMin, BitVec.and_twoPow, ← BitVec.intMin]
    split
    · exact eq_neg_iff_add_eq_zero.1 htop.symm
    · exact BitVec.add_zero _
  · rw [BitVec.and_zero, BitVec.add_zero]

/-- To turn the top bit round is to take `least` off, as nothing is left to borrow from. -/
theorem xor_least_eq_sub (a : Word k) : a ^^^ least = a - (least : Word k) :=
  (sub_eq_xor_iff.2 (double_least_and (~~~a))).symm

/-- **The pattern counts from `least` on**, in signed and unsigned kinds alike. -/
theorem toNat_xor_least (a : Word k) : ((a ^^^ least).toNat : Int) = a.toInt - k.least := by
  have hrep := a.toInt_represents
  have hleast := k.least_eq
  have hsub : a - (least : Word k) = ofInt (a.toInt - (least : Word k).toInt) :=
    ArithOp.sub.apply_eq_ofInt a least
  rw [xor_least_eq_sub, hsub, toInt_least, toNat_ofInt]
  unfold Kind.Represents at hrep
  exact Int.emod_eq_of_lt (by omega) (by omega)

theorem order_eq_compare_xor_least (a b : Word k) :
    a.order b = compare (a ^^^ least).toNat (b ^^^ least).toNat := by
  rw [order_eq_compare, ← Datapath.compare_natCast, toNat_xor_least, toNat_xor_least]
  simp only [compare, compareOfLessAndEq, Int.sub_lt_sub_right_iff, Int.sub_left_inj]

theorem xor_least_of_unsigned (hs : k.signed = false) (a : Word k) : a ^^^ least = a := by
  apply Word.ext
  simp only [bits_xor, least, hs, Bool.false_eq_true, if_false, BitVec.xor_zero]

/-! ## The unsigned kind of the size -/

theorem order_cast_flipSign (hs : k.signed = true) (a b : Word k) :
    (a.cast k.flipSign).order (b.cast k.flipSign) = compare a.toNat b.toNat := by
  have hunsigned : k.flipSign.signed = false := by rw [k.signed_flipSign, hs, Bool.not_true]
  have htoNat : ∀ c : Word k, (c.cast k.flipSign).toNat = c.toNat := fun c =>
    (toNat_cast_of_le (Nat.le_of_eq k.bits_flipSign) c).trans (Nat.mod_eq_of_lt c.toNat_lt)
  rw [order_eq_compare, toInt_unsigned _ hunsigned, toInt_unsigned _ hunsigned, htoNat, htoNat,
    Datapath.compare_natCast]

end Word

/-- The order of two words and the lexical order of their bytes, where `Word.least` has the top bit
of a signed kind and no bit of an unsigned one. -/
structure Word.LexicalLaws {k : Kind} (a b : Word k) : Prop where
  unsigned (hs : k.signed = false) :
    a.order b = List.compareLex compare (a.toBytes .big) (b.toBytes .big)
  signed (hs : k.signed = true) : a.order b =
    List.compareLex compare ((a ^^^ least).toBytes .big) ((b ^^^ least).toBytes .big)
  cast_flipSign (hs : k.signed = true) :
    a.order b = ((a ^^^ least).cast k.flipSign).order ((b ^^^ least).cast k.flipSign)
  either : a.order b =
    List.compareLex compare ((a ^^^ least).toBytes .big) ((b ^^^ least).toBytes .big)
  write_eq (buffer : List UInt8) (h : buffer.length = k.bytes) :
    a.write .big buffer = ⟨a.toBytes .big, none⟩
  write_datapath (buffer : List UInt8) (h : buffer.length = k.bytes) :
    (do let m ← Datapath.constant k .least
        let c ← Datapath.xor (.ofWord a) m
        Datapath.write .big c buffer) = .ok ⟨(a ^^^ least).toBytes .big, none⟩
  order_datapath : Datapath.order (.ofWord a) (.ofWord b) = .ok (a.order b)

/-- **Words are ordered as their big-endian bytes**, in a signed kind once `Word.least` is joined to
turn the top bit round. -/
theorem order_follows_big_endian_bytes (k : Kind) (a b : Word k) : a.LexicalLaws b := by
  have hbytes : a.order b = List.compareLex compare ((a ^^^ Word.least).toBytes .big)
      ((b ^^^ Word.least).toBytes .big) :=
    (a.order_eq_compare_xor_least b).trans (Word.compare_toBytes_big _ _).symm
  have hxor : Datapath.xor (.ofWord a) (.ofWord (Constant.least.word k)) =
      .ok (.ofWord (a ^^^ Word.least)) := Datapath.bitwise_ofWord .xor a Word.least
  exact
    { unsigned := fun hs => by
        rwa [Word.xor_least_of_unsigned hs, Word.xor_least_of_unsigned hs] at hbytes
      signed := fun _ => hbytes
      cast_flipSign := fun hs => by
        rw [Word.order_cast_flipSign hs, a.order_eq_compare_xor_least]
      either := hbytes
      write_eq := fun _ => a.write_of_length .big
      write_datapath := fun _ hbuffer => by
        rw [Datapath.constant_eq, Datapath.ok_bind, hxor, Datapath.ok_bind, Datapath.write_ofWord,
          Word.write_of_length .big _ hbuffer]
      order_datapath := by rw [Datapath.order_ofWord, ← Word.order_eq_compare] }

theorem order_follows_big_endian_bytes_minus_two :
    (Kind.u16.signed = false ∧
      (Word.ofInt 0x0201 : Word .u16).order (Word.ofInt 0x01ff) =
        List.compareLex compare ([0x02, 0x01] : List UInt8) [0x01, 0xff]) ∧
    (Kind.i16.signed = true ∧
      (Word.ofInt (-2) : Word .i16).order (Word.ofInt 3) =
        List.compareLex compare ([0x7f, 0xfe] : List UInt8) [0x80, 0x03] ∧
      (Word.ofInt (-2) : Word .i16).order (Word.ofInt 3) =
        (Word.ofInt 0x7ffe : Word .u16).order (Word.ofInt 0x8003)) ∧
    ([7, 8] : List UInt8).length = Kind.i16.bytes ∧
    (Word.ofInt (-2) : Word .i16).write .big [7, 8] = ⟨[0xff, 0xfe], none⟩ := by
  have hgreater : (Word.ofInt 0x0201 : Word .u16).toBytes .big = [0x02, 0x01] := by decide
  have hless : (Word.ofInt 0x01ff : Word .u16).toBytes .big = [0x01, 0xff] := by decide
  have hminus : (Word.ofInt (-2) ^^^ Word.least : Word .i16).toBytes .big = [0x7f, 0xfe] := by
    decide
  have hthree : (Word.ofInt 3 ^^^ Word.least : Word .i16).toBytes .big = [0x80, 0x03] := by
    decide
  have hminusCast : (Word.ofInt (-2) ^^^ Word.least : Word .i16).cast .u16 = Word.ofInt 0x7ffe := by
    decide
  have hthreeCast : (Word.ofInt 3 ^^^ Word.least : Word .i16).cast .u16 = Word.ofInt 0x8003 := by
    decide
  have hword : (Word.ofInt (-2) : Word .i16).toBytes .big = [0xff, 0xfe] := by decide
  have hbuffer : ([7, 8] : List UInt8).length = Kind.i16.bytes := by decide
  have hlexical :=
    (order_follows_big_endian_bytes .u16 (Word.ofInt 0x0201) (Word.ofInt 0x01ff)).unsigned rfl
  have hlaws := order_follows_big_endian_bytes .i16 (Word.ofInt (-2)) (Word.ofInt 3)
  have hturned := hlaws.signed rfl
  have hflipped := hlaws.cast_flipSign rfl
  have hwritten := hlaws.write_eq [7, 8] hbuffer
  rw [hgreater, hless] at hlexical
  rw [hminus, hthree] at hturned
  rw [show Kind.i16.flipSign = Kind.u16 from rfl, hminusCast, hthreeCast] at hflipped
  rw [hword] at hwritten
  exact ⟨⟨rfl, hlexical⟩, ⟨rfl, hturned, hflipped⟩, hbuffer, hwritten⟩

end MachineInt
