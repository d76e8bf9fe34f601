import MachineInt.Bytes
import MachineInt.Proofs.Datapath.Basic

/-!
# Bytes

`littleEndian` and `ofLittleEndian` are inverse to each other: on byte lists without exception, on
numbers below the power of 256 that so many bytes can hold.

* `ofLittleEndian_littleEndian`, `littleEndian_ofLittleEndian`: there and back.
* `littleEndian_take`, `ofLittleEndian_append_zeros`: fewer bytes are the first of more, and zeros
  behind the most significant byte change nothing. The datapath relies on both when it goes through
  a buffer of sixteen bytes.
* `ofLittleEndian_append`, `ofLittleEndian_replicate`: bytes behind others, and copies of one byte.
* `map_toNat_littleEndian`: each single byte.
* `ByteOrder.decode_encode`, `ByteOrder.encode_decode`: the same in either order.

The datapath reads and writes by way of all sixteen bytes of a register: the bytes of a narrower
kind stand at the front of them in little-endian order and at the end in big-endian order. Bytes of
a wrong number are refused before any slice is taken, so no slice is out of bounds.

* `Datapath.read_eq`: reading is `Word.read`, for bytes of any number.
* `Datapath.write_ofWord`: writing is `Word.write`, over a buffer of any length.

A word and exactly as many bytes as its kind has determine each other, in either order.

* `Word.ofBytes_toBytes`, `Word.toBytes_ofBytes`: there and back.
* `Word.toBytes_byteSwap`, `Word.byteSwap_byteSwap`: swapping the bytes reverses them.
* `byteEncoding_bijective`: reading and writing by way of a buffer, and each single byte.
-/

set_option autoImplicit false

namespace MachineInt

/-! ## Numbers in base 256 -/

/-! ### There and back -/

theorem ofLittleEndian_littleEndian (count n : Nat) :
    ofLittleEndian (littleEndian count n) = n % Nat.pow 256 count := by
  induction count generalizing n with
  | zero => exact (Nat.mod_one n).symm
  | succ count ih =>
    have hpow : Nat.pow 256 (count + 1) = 256 * Nat.pow 256 count := Nat.pow_succ'
    show (UInt8.ofNat n).toNat + 256 * ofLittleEndian (littleEndian count (n / 256)) = _
    rw [ih, UInt8.toNat_ofNat', hpow, Nat.mod_mul]

theorem littleEndian_ofLittleEndian (bytes : List UInt8) :
    littleEndian bytes.length (ofLittleEndian bytes) = bytes := by
  induction bytes with
  | nil => rfl
  | cons b bs ih =>
    have hb := b.toNat_lt
    show UInt8.ofNat (b.toNat + 256 * ofLittleEndian bs) ::
      littleEndian bs.length ((b.toNat + 256 * ofLittleEndian bs) / 256) = b :: bs
    congr 1
    · apply UInt8.toNat_inj.1
      rw [UInt8.toNat_ofNat', Nat.add_mul_mod_self_left, Nat.mod_eq_of_lt hb]
    · rw [show (b.toNat + 256 * ofLittleEndian bs) / 256 = ofLittleEndian bs by omega, ih]

/-! ### Parts of an encoding -/

theorem littleEndian_take {m count : Nat} (h : m ≤ count) (n : Nat) :
    (littleEndian count n).take m = littleEndian m n := by
  induction m generalizing count n with
  | zero => rfl
  | succ m ih =>
    obtain ⟨c, rfl⟩ : ∃ c, count = c + 1 := ⟨count - 1, by omega⟩
    show UInt8.ofNat n :: (littleEndian c (n / 256)).take m = _
    rw [ih (by omega)]
    rfl

theorem littleEndian_mod (count n : Nat) :
    littleEndian count (n % Nat.pow 256 count) = littleEndian count n := by
  -- the number that the bytes spell is the remainder, so both numbers have these bytes
  have h := littleEndian_ofLittleEndian (littleEndian count n)
  rwa [littleEndian_length, ofLittleEndian_littleEndian] at h

theorem ofLittleEndian_append (low high : List UInt8) :
    ofLittleEndian (low ++ high) =
      ofLittleEndian low + Nat.pow 256 low.length * ofLittleEndian high := by
  induction low with
  | nil => simp [ofLittleEndian]
  | cons b bs ih =>
    have hpow : Nat.pow 256 (bs.length + 1) = 256 * Nat.pow 256 bs.length := Nat.pow_succ'
    rw [List.cons_append, ofLittleEndian, ofLittleEndian, ih, List.length_cons, hpow, Nat.mul_add,
      Nat.mul_assoc, Nat.add_assoc]

/-- The number of `count` bytes `b`, without a division by 255. -/
theorem ofLittleEndian_replicate (count : Nat) (b : UInt8) :
    255 * ofLittleEndian (List.replicate count b) + b.toNat = b.toNat * Nat.pow 256 count := by
  induction count with
  | zero => exact (Nat.zero_add _).trans (Nat.mul_one _).symm
  | succ count ih =>
    have hpow : Nat.pow 256 (count + 1) = 256 * Nat.pow 256 count := Nat.pow_succ'
    rw [List.replicate_succ, ofLittleEndian, hpow, Nat.mul_left_comm, ← ih]
    omega

theorem ofLittleEndian_append_zeros (bytes : List UInt8) (count : Nat) :
    ofLittleEndian (bytes ++ List.replicate count 0) = ofLittleEndian bytes := by
  have hzeros := ofLittleEndian_replicate count 0
  rw [show (0 : UInt8).toNat = 0 from rfl, Nat.zero_mul] at hzeros
  rw [ofLittleEndian_append, show ofLittleEndian (List.replicate count 0) = 0 by omega,
    Nat.mul_zero, Nat.add_zero]

/-- **Every byte** of a `littleEndian` encoding, as a number. -/
theorem map_toNat_littleEndian (count n : Nat) :
    (littleEndian count n).map UInt8.toNat =
      (List.range count).map fun i => n / Nat.pow 256 i % 256 := by
  induction count generalizing n with
  | zero => rfl
  | succ count ih =>
    show (UInt8.ofNat n).toNat :: (littleEndian count (n / 256)).map UInt8.toNat = _
    rw [ih, List.range_succ_eq_map, List.map_cons, List.map_map, UInt8.toNat_ofNat']
    congr 1
    · exact congrArg (· % 256) (Nat.div_one n).symm
    · apply List.map_congr_left
      intro i _
      have hpow : Nat.pow 256 (i + 1) = 256 * Nat.pow 256 i := Nat.pow_succ'
      show n / 256 / Nat.pow 256 i % 256 = n / Nat.pow 256 (i + 1) % 256
      rw [Nat.div_div_eq_div_mul, hpow]

/-! ### Both orders -/

namespace ByteOrder

theorem decode_encode (o : ByteOrder) (count n : Nat) :
    o.decode (o.encode count n) = n % Nat.pow 256 count := by
  cases o with
  | little => exact ofLittleEndian_littleEndian count n
  | big =>
    show ofLittleEndian (littleEndian count n).reverse.reverse = _
    rw [List.reverse_reverse, ofLittleEndian_littleEndian]

theorem encode_decode (o : ByteOrder) (bytes : List UInt8) :
    o.encode bytes.length (o.decode bytes) = bytes := by
  cases o with
  | little => exact littleEndian_ofLittleEndian bytes
  | big =>
    show (littleEndian bytes.length (ofLittleEndian bytes.reverse)).reverse = bytes
    rw [← List.length_reverse, littleEndian_ofLittleEndian, List.reverse_reverse]

end ByteOrder

/-! ## Bytes on the datapath -/

namespace Datapath

variable {k : Kind}

/-! ### Slices within bounds -/

theorem slice_of_le {bytes : List UInt8} {start stop : Nat} (h : start ≤ stop)
    (hstop : stop ≤ bytes.length) :
    slice bytes start stop = .ok ((bytes.drop start).take (stop - start)) :=
  if_pos ⟨h, hstop⟩

theorem overwrite_of_length {bytes source : List UInt8} {start stop : Nat} (h : start ≤ stop)
    (hstop : stop ≤ bytes.length) (hsource : source.length = stop - start) :
    overwrite bytes start stop source = .ok (bytes.take start ++ source ++ bytes.drop stop) := by
  unfold overwrite
  rw [slice_of_le h hstop, ok_bind, if_pos]
  · rfl
  · rw [List.length_take, List.length_drop]
    omega

/-! ### Reading -/

theorem overwrite_front {bytes : List UInt8} (h : bytes.length ≤ 16) :
    ∃ buffer, overwrite (List.replicate 16 0) 0 bytes.length bytes = .ok buffer ∧
      ByteOrder.little.decode buffer = ByteOrder.little.decode bytes := by
  refine ⟨_, overwrite_of_length (Nat.zero_le _) (by simpa using h) rfl, ?_⟩
  rw [List.take_zero, List.nil_append, List.drop_replicate]
  -- what is left of the clear buffer stands behind the most significant byte
  exact ofLittleEndian_append_zeros bytes _

theorem overwrite_end {bytes : List UInt8} (h : bytes.length ≤ 16) :
    ∃ buffer, overwrite (List.replicate 16 0) (16 - bytes.length) 16 bytes = .ok buffer ∧
      ByteOrder.big.decode buffer = ByteOrder.big.decode bytes := by
  refine ⟨_, overwrite_of_length (Nat.sub_le _ _) (by simp) (by omega), ?_⟩
  rw [List.take_replicate, List.drop_replicate, Nat.sub_self, List.replicate_zero, List.append_nil]
  show ofLittleEndian (List.replicate _ 0 ++ bytes).reverse = ofLittleEndian bytes.reverse
  rw [List.reverse_append, List.reverse_replicate, ofLittleEndian_append_zeros]

theorem keep_ofNat (k : Kind) (n : Nat) :
    keep k (BitVec.ofNat 128 n) = .ok (.ofWord (⟨BitVec.ofNat k.bits n⟩ : Word k)) := by
  rw [keep_eq_ofWord, Word.ofRegister_ofNat]

theorem read_eq (k : Kind) (o : ByteOrder) (bytes : List UInt8) :
    read k o bytes = .ok ((Word.read k o bytes).map .ofWord) := by
  unfold read Word.read
  -- bytes of a wrong number are refused by `checkLength` on both sides, before any slice
  by_cases hlen : bytes.length = k.bytes
  · have hle : bytes.length ≤ 16 := hlen ▸ k.bytes_le
    rw [Kind.checkLength_of_eq hlen]
    cases o with
    | little =>
      obtain ⟨buffer, hbuffer, hdecode⟩ := overwrite_front hle
      simp only [hbuffer, ok_bind, keep_ofNat, hdecode]
      rfl
    | big =>
      obtain ⟨buffer, hbuffer, hdecode⟩ := overwrite_end hle
      simp only [minus_of_le hle, hbuffer, ok_bind, keep_ofNat, hdecode]
      rfl
  · rw [Kind.checkLength_of_ne hlen]
    rfl

/-! ### Writing -/

/-- In `ByteOrder.little` the bytes of a narrower kind are the first of a register's sixteen. -/
theorem slice_front (n : Nat) {count : Nat} (h : count ≤ 16) :
    slice (ByteOrder.little.encode 16 n) 0 count = .ok (ByteOrder.little.encode count n) := by
  rw [slice_of_le (Nat.zero_le _) (by simpa using h), List.drop_zero, Nat.sub_zero]
  exact congrArg Except.ok (littleEndian_take h n)

/-- In `ByteOrder.big` they are the last. -/
theorem slice_end (n : Nat) {count : Nat} (h : count ≤ 16) :
    slice (ByteOrder.big.encode 16 n) (16 - count) 16 = .ok (ByteOrder.big.encode count n) := by
  rw [slice_of_le (Nat.sub_le _ _) (by simp)]
  show Except.ok (((littleEndian 16 n).reverse.drop _).take _) =
    Except.ok (littleEndian count n).reverse
  rw [List.drop_reverse, littleEndian_length, show 16 - (16 - count) = count by omega,
    littleEndian_take h, List.take_of_length_le (by simp)]

theorem write_ofWord (o : ByteOrder) (a : Word k) (buffer : List UInt8) :
    write o (.ofWord a) buffer = .ok (a.write o buffer) := by
  have hle := k.bytes_le
  unfold write Word.write Slot.ofWord
  by_cases hlen : buffer.length = k.bytes
  · have hcopy : overwrite buffer 0 buffer.length (o.encode k.bytes a.register.toNat) =
        .ok (a.toBytes o) := by
      rw [overwrite_of_length (Nat.zero_le _) (Nat.le_refl _) (by simp [hlen]), List.take_zero,
        List.drop_length, List.append_nil, List.nil_append, Word.toNat_register]
      rfl
    simp only [Kind.checkLength_of_eq hlen]
    cases o with
    | little =>
      rw [slice_front _ hle, ok_bind, hcopy]
      rfl
    | big =>
      rw [minus_of_le hle, ok_bind, slice_end _ hle, ok_bind, hcopy]
      rfl
  · simp only [Kind.checkLength_of_ne hlen]
    rfl

end Datapath

/-! ## Words and their bytes -/

theorem Kind.card_eq_pow_bytes (k : Kind) : k.card = Nat.pow 256 k.bytes :=
  Nat.pow_mul 2 8 k.bytes

namespace Word

variable {k : Kind} {bytes buffer : List UInt8}

/-! ### There and back -/

theorem toNat_ofBytes (o : ByteOrder) (bytes : List UInt8) :
    (ofBytes o bytes : Word k).toNat = o.decode bytes % k.card :=
  BitVec.toNat_ofNat ..

theorem decode_toBytes (o : ByteOrder) (a : Word k) : o.decode (a.toBytes o) = a.toNat := by
  unfold toBytes
  rw [o.decode_encode, ← k.card_eq_pow_bytes, Nat.mod_eq_of_lt a.toNat_lt]

theorem ofBytes_toBytes (o : ByteOrder) (a : Word k) : ofBytes o (a.toBytes o) = a := by
  unfold ofBytes
  rw [decode_toBytes]
  exact Word.ext ((BitVec.ofNat_toNat _ _).trans (BitVec.setWidth_eq _))

theorem toBytes_ofBytes (o : ByteOrder) (h : bytes.length = k.bytes) :
    (ofBytes o bytes : Word k).toBytes o = bytes := by
  have hmod : o.decode bytes % k.card = o.decode bytes := by
    rw [k.card_eq_pow_bytes, ← h, ← o.decode_encode, o.encode_decode]
  unfold toBytes
  rw [toNat_ofBytes, hmod, ← h, o.encode_decode]

theorem toBytes_big (a : Word k) : a.toBytes .big = (a.toBytes .little).reverse := rfl

/-! ### Reading and writing -/

theorem read_of_length (o : ByteOrder) (h : bytes.length = k.bytes) :
    read k o bytes = .ok (ofBytes o bytes) := by
  unfold read
  rw [Kind.checkLength_of_eq h]
  rfl

theorem read_of_length_ne (o : ByteOrder) (h : bytes.length ≠ k.bytes) :
    read k o bytes = .error (.byteLength k k.bytes bytes.length) := by
  unfold read
  rw [Kind.checkLength_of_ne h]
  rfl

theorem write_of_length (o : ByteOrder) (a : Word k) (h : buffer.length = k.bytes) :
    a.write o buffer = ⟨a.toBytes o, none⟩ := by
  unfold write
  rw [Kind.checkLength_of_eq h]

theorem write_of_length_ne (o : ByteOrder) (a : Word k) (h : buffer.length ≠ k.bytes) :
    a.write o buffer = ⟨buffer, some (.byteLength k k.bytes buffer.length)⟩ := by
  unfold write
  rw [Kind.checkLength_of_ne h]

theorem read_toBytes (o : ByteOrder) (a : Word k) : read k o (a.toBytes o) = .ok a := by
  rw [read_of_length o (length_toBytes o a), ofBytes_toBytes]

/-! ### Swapping -/

theorem toBytes_byteSwap (o : ByteOrder) (a : Word k) :
    a.byteSwap.toBytes o = (a.toBytes o).reverse := by
  have hbig : a.byteSwap.toBytes .big = a.toBytes .little := toBytes_ofBytes .big (by simp)
  cases o with
  | little => rw [← List.reverse_inj, ← toBytes_big, hbig, List.reverse_reverse]
  | big => rw [hbig, toBytes_big, List.reverse_reverse]

theorem byteSwap_byteSwap (a : Word k) : a.byteSwap.byteSwap = a := by
  rw [← ofBytes_toBytes .little a.byteSwap.byteSwap, toBytes_byteSwap, toBytes_byteSwap,
    List.reverse_reverse, ofBytes_toBytes]

theorem map_toNat_toBytes (a : Word k) : (a.toBytes .little).map UInt8.toNat =
    (List.range k.bytes).map fun i => a.toNat / Nat.pow 256 i % 256 :=
  map_toNat_littleEndian k.bytes a.toNat

end Word

/-- What writing the word `a` in the order `o`, and reading it, come to. -/
structure ByteLaws (k : Kind) (o : ByteOrder) (a : Word k) : Prop where
  bytes : k.bytes = k.bits / 8
  /-- A word written over a buffer of `k.bytes` bytes is read back from it. -/
  written : ∀ buffer : List UInt8, buffer.length = k.bytes →
    a.write o buffer = ⟨a.toBytes o, none⟩ ∧ Word.read k o (a.write o buffer).buffer = .ok a
  /-- As many bytes as `k.bytes` are written back by the word that is read from them. -/
  read : ∀ bytes buffer : List UInt8, bytes.length = k.bytes → buffer.length = k.bytes →
    ∃ b : Word k, Word.read k o bytes = .ok b ∧ b.write o buffer = ⟨bytes, none⟩
  digits : (a.toBytes .little).map UInt8.toNat =
    (List.range k.bytes).map fun i => a.toNat / Nat.pow 256 i % 256
  reverse : a.toBytes .big = (a.toBytes .little).reverse
  /-- To write in one order and read in the other is `byteSwap`. -/
  swap : Word.read k .big (a.toBytes .little) = .ok a.byteSwap
  swapTwice : a.byteSwap.byteSwap = a
  swapBytes : a.byteSwap.toBytes o = (a.toBytes o).reverse
  datapath : ∀ bytes : List UInt8, Datapath.write o (.ofWord a) bytes = .ok (a.write o bytes) ∧
    Datapath.read k o bytes = .ok ((Word.read k o bytes).map .ofWord)

/-- **Byte encodings are bijections** between the words of `k` and lists of `k.bytes` bytes, in
either order, and the datapath's way by sixteen bytes comes to the same. -/
theorem byteEncoding_bijective (k : Kind) (o : ByteOrder) (a : Word k) : ByteLaws k o a where
  bytes := by
    rw [k.bits_eq]
    omega
  written buffer hbuffer := by
    rw [a.write_of_length o hbuffer]
    exact ⟨rfl, a.read_toBytes o⟩
  read bytes buffer hbytes hbuffer := by
    refine ⟨.ofBytes o bytes, Word.read_of_length o hbytes, ?_⟩
    rw [Word.write_of_length o _ hbuffer, Word.toBytes_ofBytes o hbytes]
  digits := a.map_toNat_toBytes
  reverse := a.toBytes_big
  swap := Word.read_of_length .big (by simp)
  swapTwice := a.byteSwap_byteSwap
  swapBytes := a.toBytes_byteSwap o
  datapath bytes := ⟨Datapath.write_ofWord o a bytes, Datapath.read_eq k o bytes⟩

theorem byteEncoding_bijective_minus_two :
    ([170, 170, 170, 170] : List UInt8).length = Kind.i32.bytes ∧
    ([0x80, 0, 0xfe, 0xdc] : List UInt8).length = Kind.i32.bytes ∧
    (Word.ofInt (-2) : Word .i32).write .big [170, 170, 170, 170] =
      ⟨[0xff, 0xff, 0xff, 0xfe], none⟩ ∧
    Word.read .i32 .big [0xff, 0xff, 0xff, 0xfe] = .ok (Word.ofInt (-2) : Word .i32) ∧
    ∃ b : Word .i32, Word.read .i32 .big [0x80, 0, 0xfe, 0xdc] = .ok b ∧
      b.write .big [170, 170, 170, 170] = ⟨[0x80, 0, 0xfe, 0xdc], none⟩ := by
  have hlaws := byteEncoding_bijective .i32 .big (Word.ofInt (-2))
  have hbuffer : ([170, 170, 170, 170] : List UInt8).length = Kind.i32.bytes := by decide
  have hbytes : ([0x80, 0, 0xfe, 0xdc] : List UInt8).length = Kind.i32.bytes := by decide
  have hword : (Word.ofInt (-2) : Word .i32).toBytes .big = [0xff, 0xff, 0xff, 0xfe] := by decide
  obtain ⟨hw, hr⟩ := hlaws.written _ hbuffer
  rw [hw, hword] at hr
  rw [hword] at hw
  exact ⟨hbuffer, hbytes, hw, hr, hlaws.read _ _ hbytes hbuffer⟩

end MachineInt
