import MachineInt.Proofs.Bytes

/-!
# Casts on bytes

What a cast does to the bytes of a word, in either order. A narrower word has the low bytes of the
wide one, and a wider word has bytes of clear or of set bits above those of the narrow one, as its
sign asks for.

* `Word.toBytes_cast_of_le`: narrowing.
* `Word.toBytes_cast_of_ge`: widening, by bytes that spell the wider number (`card_mul_fill`,
  `toNat_cast_of_ge`).
* `casts_on_bytes`: both (`Word.ByteCastLaws`), in the order of writing.
-/

set_option autoImplicit false

namespace MachineInt

variable {k l : Kind}

namespace Kind

theorem bits_div_eight (k : Kind) : k.bits / 8 = k.bytes := by
  rw [k.bits_eq]
  omega

theorem bits_sub_div_eight (k l : Kind) : (k.bits - l.bits) / 8 = k.bytes - l.bytes := by
  rw [k.bits_eq, l.bits_eq]
  omega

theorem bytes_le_of_bits_le (h : k.bits ≤ l.bits) : k.bytes ≤ l.bytes := by
  rw [k.bits_eq, l.bits_eq] at h
  omega

theorem card_eq_mul_pow (h : k.bits ≤ l.bits) :
    l.card = k.card * Nat.pow 256 (l.bytes - k.bytes) := by
  have hsum : l.bytes = k.bytes + (l.bytes - k.bytes) := by
    have := bytes_le_of_bits_le h
    omega
  rw [k.card_eq_pow_bytes, l.card_eq_pow_bytes]
  exact (congrArg (Nat.pow 256) hsum).trans (Nat.pow_add ..)

end Kind

namespace Word

/-! ## Narrowing -/

theorem toNat_cast_of_le (h : l.bits ≤ k.bits) (a : Word k) :
    (a.cast l).toNat = a.toNat % l.card := by
  apply Int.natCast_inj.1
  rw [cast_eq_ofInt, toNat_ofInt, Int.natCast_emod, toNat_eq_toInt_emod,
    Int.emod_emod_of_dvd _ (Int.ofNat_dvd.2 (Kind.card_dvd_card h))]

theorem toBytes_cast_of_le (h : l.bits ≤ k.bits) (a : Word k) :
    (a.cast l).toBytes .little = (a.toBytes .little).take l.bytes := by
  have hbytes := Kind.bytes_le_of_bits_le h
  show littleEndian l.bytes (a.cast l).toNat = (littleEndian k.bytes a.toNat).take l.bytes
  rw [littleEndian_take hbytes, toNat_cast_of_le h, l.card_eq_pow_bytes, littleEndian_mod]

/-! ## Widening -/

/-- The byte that a wider word has above those of `a`: all of its bits are the sign. -/
def fillByte (a : Word k) : UInt8 := if a.isNegative then 0xff else 0

theorem fillByte_eq (a : Word k) : a.fillByte = if a.toInt < 0 then 0xff else 0 := by
  unfold fillByte
  simp only [isNegative_iff]

/-- What the bytes above `a` add to its number: `l.card - k.card` for a word below zero, and nothing
otherwise. -/
theorem card_mul_fill (h : k.bits ≤ l.bits) (a : Word k) :
    k.card * ofLittleEndian (List.replicate (l.bytes - k.bytes) a.fillByte) =
      if a.isNegative then l.card - k.card else 0 := by
  have hfill := ofLittleEndian_replicate (l.bytes - k.bytes) a.fillByte
  rw [Kind.card_eq_mul_pow h]
  unfold fillByte at hfill ⊢
  by_cases hneg : a.isNegative = true
  · rw [if_pos hneg, if_pos hneg]
    rw [if_pos hneg, show (0xff : UInt8).toNat = 255 from rfl] at hfill
    rw [show ofLittleEndian _ = Nat.pow 256 (l.bytes - k.bytes) - 1 by omega, Nat.mul_sub_one]
  · rw [if_neg hneg, if_neg hneg]
    rw [if_neg hneg, show (0 : UInt8).toNat = 0 from rfl] at hfill
    rw [show ofLittleEndian _ = 0 by omega, Nat.mul_zero]

theorem toNat_cast_of_ge (h : k.bits ≤ l.bits) (a : Word k) : (a.cast l).toNat =
    a.toNat + k.card * ofLittleEndian (List.replicate (l.bytes - k.bytes) a.fillByte) := by
  have hlt := a.toNat_lt
  have hcard := Kind.card_le_card h
  apply Int.natCast_inj.1
  rw [cast_eq_ofInt, toNat_ofInt, card_mul_fill h]
  by_cases hneg : a.isNegative = true
  -- below zero the integer is one `k.card` less than the pattern, and the cast adds one `l.card`
  · rw [if_pos hneg, toInt_of_isNegative hneg, ← Int.add_emod_right,
      Int.emod_eq_of_lt (by omega) (by omega)]
    omega
  · rw [if_neg hneg, Nat.add_zero, toInt_of_not_isNegative hneg,
      Int.emod_eq_of_lt (by omega) (by omega)]

theorem toBytes_cast_of_ge (h : k.bits ≤ l.bits) (a : Word k) : (a.cast l).toBytes .little =
    a.toBytes .little ++ List.replicate (l.bytes - k.bytes) a.fillByte := by
  have hbytes := Kind.bytes_le_of_bits_le h
  have hdecode : ByteOrder.decode .little
      (a.toBytes .little ++ List.replicate (l.bytes - k.bytes) a.fillByte) = (a.cast l).toNat := by
    show ofLittleEndian _ = _
    rw [ofLittleEndian_append, length_toBytes, ← k.card_eq_pow_bytes, toNat_cast_of_ge h,
      show ofLittleEndian (a.toBytes .little) = a.toNat from a.decode_toBytes .little]
  -- so many bytes spell one word only, and the number just computed is that of the cast
  have hword : ofBytes .little
      (a.toBytes .little ++ List.replicate (l.bytes - k.bytes) a.fillByte) = a.cast l := by
    apply toNat_inj.1
    rw [toNat_ofBytes, hdecode, Nat.mod_eq_of_lt (toNat_lt _)]
  rw [← hword, toBytes_ofBytes]
  rw [List.length_append, length_toBytes, List.length_replicate]
  omega

end Word

/-- What narrowing `v` and widening `u` do to their bytes, and that these are the bytes of a
`write`. Little endian has the low bytes first, big endian last. -/
structure Word.ByteCastLaws {narrow wide : Kind} (v : Word wide) (u : Word narrow) : Prop where
  narrow_little : (v.cast narrow).toBytes .little = (v.toBytes .little).take (narrow.bits / 8)
  narrow_big : (v.cast narrow).toBytes .big =
    (v.toBytes .big).drop ((v.toBytes .big).length - narrow.bits / 8)
  widen_little : (u.cast wide).toBytes .little =
    u.toBytes .little ++ List.replicate ((wide.bits - narrow.bits) / 8) u.fillByte
  widen_big : (u.cast wide).toBytes .big =
    List.replicate ((wide.bits - narrow.bits) / 8) u.fillByte ++ u.toBytes .big
  fillByte_eq : u.fillByte = if u.toInt < 0 then 0xff else 0
  write_eq (k : Kind) (a : Word k) (o : ByteOrder) (buffer : List UInt8)
    (h : buffer.length = k.bytes) : a.write o buffer = ⟨a.toBytes o, none⟩
  write_datapath (k : Kind) (a : Word k) (o : ByteOrder) (buffer : List UInt8) :
    Datapath.write o (.ofWord a) buffer = .ok (a.write o buffer)
  cast_datapath (k l : Kind) (a : Word k) :
    Datapath.cast l (.ofWord a) = .ok (.ofWord (a.cast l))

/-- **Casts on bytes**: narrowing keeps the low bytes, and widening adds copies of `Word.fillByte`
above them. -/
theorem casts_on_bytes {narrow wide : Kind} (h : narrow.bits ≤ wide.bits) (v : Word wide)
    (u : Word narrow) : v.ByteCastLaws u where
  narrow_little := by rw [narrow.bits_div_eight, v.toBytes_cast_of_le h]
  narrow_big := by
    rw [narrow.bits_div_eight, Word.toBytes_big, Word.toBytes_big, v.toBytes_cast_of_le h,
      List.reverse_take, List.length_reverse]
  widen_little := by rw [wide.bits_sub_div_eight narrow, u.toBytes_cast_of_ge h]
  widen_big := by
    rw [wide.bits_sub_div_eight narrow, Word.toBytes_big, Word.toBytes_big, u.toBytes_cast_of_ge h,
      List.reverse_append, List.reverse_replicate]
  fillByte_eq := u.fillByte_eq
  write_eq _ a o _ := a.write_of_length o
  write_datapath _ a o buffer := Datapath.write_ofWord o a buffer
  cast_datapath _ l a := Datapath.cast_ofWord l a

theorem casts_on_bytes_minus_two :
    Kind.i16.bits ≤ Kind.u64.bits ∧
    ((Word.ofInt 0x1122334455667788 : Word .u64).cast .i16).toBytes .big = [0x77, 0x88] ∧
    ((Word.ofInt (-2) : Word .i16).cast .u64).toBytes .big =
      [0xff, 0xff, 0xff, 0xff, 0xff, 0xff, 0xff, 0xfe] ∧
    (Word.ofInt (-2) : Word .i16).write .little [170, 170] = ⟨[0xfe, 0xff], none⟩ := by
  have hle : Kind.i16.bits ≤ Kind.u64.bits := by decide
  have hlaws := casts_on_bytes hle (.ofInt 0x1122334455667788) (.ofInt (-2))
  have hwrite := hlaws.write_eq .i16 (.ofInt (-2)) .little [170, 170] (by decide)
  rw [show (Word.ofInt (-2) : Word .i16).toBytes .little = [0xfe, 0xff] by decide] at hwrite
  exact ⟨hle, hlaws.narrow_big.trans (by decide), hlaws.widen_big.trans (by decide), hwrite⟩

end MachineInt
