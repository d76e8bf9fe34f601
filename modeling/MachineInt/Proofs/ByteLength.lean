import MachineInt.Proofs.ByteCast
import MachineInt.Proofs.Correspondence

/-!
# Bytes of a wrong number

Reading a word, reading a tagged word and writing a word ask the same question first: is this the
number of bytes that a value of the kind has? The answer alone decides whether they succeed, before
any byte is looked at or changed.

* `Word.exists_read_eq_ok_iff`, `TaggedWord.exists_read_eq_ok_iff`, `Word.error?_write_eq_none_iff`:
  what is accepted.
* `TaggedWord.read_of_length_ne`: what is refused, beside `Word.read_of_length_ne` and
  `Word.write_of_length_ne`.
* `Word.write_eq_write`: an accepted write leaves nothing of what was in the buffer.
* `accesses_need_exact_length`: all of it (`Word.LengthLaws`), and that the datapath never gets out
  of its buffer.
-/

set_option autoImplicit false

namespace MachineInt

variable {k : Kind} {bytes buffer former : List UInt8}

/-! ## Reading -/

theorem Word.exists_read_eq_ok_iff (o : ByteOrder) :
    (∃ a, Word.read k o bytes = .ok a) ↔ bytes.length = k.bytes := by
  by_cases hlength : bytes.length = k.bytes
  · simp [Word.read_of_length o hlength, hlength]
  · simp [Word.read_of_length_ne o hlength, hlength]

namespace TaggedWord

theorem exists_read_eq_ok_iff (o : ByteOrder) :
    (∃ t, read k o bytes = .ok t) ↔ bytes.length = k.bytes := by
  rw [← Word.exists_read_eq_ok_iff o, read_eq]
  cases Word.read k o bytes <;> simp [Except.map]

theorem read_of_length_ne (o : ByteOrder) (h : bytes.length ≠ k.bytes) :
    read k o bytes = .error (.byteLength k k.bytes bytes.length) := by
  rw [read_eq, Word.read_of_length_ne o h]
  rfl

end TaggedWord

/-! ## Writing -/

namespace Word

theorem error?_write_eq_none_iff (o : ByteOrder) (a : Word k) :
    (a.write o buffer).error? = none ↔ buffer.length = k.bytes := by
  by_cases hlength : buffer.length = k.bytes
  · simp [a.write_of_length o hlength, hlength]
  · simp [a.write_of_length_ne o hlength, hlength]

theorem write_eq_write (o : ByteOrder) (a : Word k) (h : buffer.length = k.bytes)
    (hformer : former.length = buffer.length) : a.write o former = a.write o buffer := by
  rw [a.write_of_length o h, a.write_of_length o (hformer.trans h)]

end Word

/-- What the reads and the write of a word make of `bytes`: they take as many as the kind has, and
refuse any others by an error that has both numbers. -/
structure Word.LengthLaws {k : Kind} (o : ByteOrder) (a : Word k) (bytes : List UInt8) : Prop where
  read_ok_iff : (∃ b, read k o bytes = .ok b) ↔ bytes.length = k.bits / 8
  readTagged_ok_iff : (∃ t, TaggedWord.read k o bytes = .ok t) ↔ bytes.length = k.bits / 8
  write_ok_iff : (a.write o bytes).error? = none ↔ bytes.length = k.bits / 8
  read_error (h : bytes.length ≠ k.bits / 8) :
    read k o bytes = .error (.byteLength k (k.bits / 8) bytes.length)
  readTagged_error (h : bytes.length ≠ k.bits / 8) :
    TaggedWord.read k o bytes = .error (.byteLength k (k.bits / 8) bytes.length)
  write_error (h : bytes.length ≠ k.bits / 8) :
    a.write o bytes = ⟨bytes, some (.byteLength k (k.bits / 8) bytes.length)⟩
  write_ok (h : bytes.length = k.bits / 8) : a.write o bytes = ⟨a.toBytes o, none⟩
  length_toBytes (h : bytes.length = k.bits / 8) : (a.toBytes o).length = bytes.length
  write_former (h : bytes.length = k.bits / 8) (former : List UInt8)
    (hformer : former.length = bytes.length) : a.write o former = a.write o bytes
  read_datapath : Datapath.read k o bytes = .ok ((read k o bytes).map .ofWord)
  readTagged_datapath : Datapath.read k o bytes = .ok ((TaggedWord.read k o bytes).map .ofTagged)
  write_datapath : Datapath.write o (.ofWord a) bytes = .ok (a.write o bytes)

/-- **Bytes of a wrong number are refused**, in either order and in all ways of access:
`Word.LengthLaws` for every list of bytes. -/
theorem accesses_need_exact_length {k : Kind} (o : ByteOrder) (a : Word k) (bytes : List UInt8) :
    a.LengthLaws o bytes where
  read_ok_iff := by rw [k.bits_div_eight, Word.exists_read_eq_ok_iff]
  readTagged_ok_iff := by rw [k.bits_div_eight, TaggedWord.exists_read_eq_ok_iff]
  write_ok_iff := by rw [k.bits_div_eight, a.error?_write_eq_none_iff]
  read_error := by
    rw [k.bits_div_eight]
    exact Word.read_of_length_ne o
  readTagged_error := by
    rw [k.bits_div_eight]
    exact TaggedWord.read_of_length_ne o
  write_error := by
    rw [k.bits_div_eight]
    exact a.write_of_length_ne o
  write_ok h := a.write_of_length o (h.trans k.bits_div_eight)
  length_toBytes h := (a.length_toBytes o).trans (h.trans k.bits_div_eight).symm
  write_former h _ := a.write_eq_write o (h.trans k.bits_div_eight)
  read_datapath := Datapath.read_eq k o bytes
  readTagged_datapath := Datapath.read_eq_tagged k o bytes
  write_datapath := Datapath.write_ofWord o a bytes

theorem accesses_need_exact_length_of_twenty :
    ((List.replicate 20 7 : List UInt8).length ≠ Kind.i16.bits / 8 ∧
      Word.read .i16 .big (List.replicate 20 7) = .error (.byteLength .i16 2 20) ∧
      (Word.ofInt (-2) : Word .i16).write .big (List.replicate 20 7) =
        ⟨List.replicate 20 7, some (.byteLength .i16 2 20)⟩) ∧
    (([] : List UInt8).length ≠ Kind.i16.bits / 8 ∧
      TaggedWord.read .i16 .big [] = .error (.byteLength .i16 2 0)) ∧
    (([7, 8] : List UInt8).length = Kind.i16.bits / 8 ∧
      ([9, 10] : List UInt8).length = ([7, 8] : List UInt8).length ∧
      (Word.ofInt (-2) : Word .i16).write .big [7, 8] = ⟨[0xff, 0xfe], none⟩ ∧
      (Word.ofInt (-2) : Word .i16).write .big [9, 10] =
        (Word.ofInt (-2) : Word .i16).write .big [7, 8]) := by
  have hlong : (List.replicate 20 7 : List UInt8).length ≠ Kind.i16.bits / 8 := by decide
  have hnone : ([] : List UInt8).length ≠ Kind.i16.bits / 8 := by decide
  have hexact : ([7, 8] : List UInt8).length = Kind.i16.bits / 8 := by decide
  have hword : (Word.ofInt (-2) : Word .i16).toBytes .big = [0xff, 0xfe] := by decide
  have hrefused :=
    accesses_need_exact_length .big (Word.ofInt (-2) : Word .i16) (List.replicate 20 7)
  have hempty := accesses_need_exact_length .big (Word.ofInt (-2) : Word .i16) []
  have haccepted := accesses_need_exact_length .big (Word.ofInt (-2) : Word .i16) [7, 8]
  have hwritten := haccepted.write_ok hexact
  rw [hword] at hwritten
  exact ⟨⟨hlong, hrefused.read_error hlong, hrefused.write_error hlong⟩,
    ⟨hnone, hempty.readTagged_error hnone⟩, hexact, rfl, hwritten,
    haccepted.write_former hexact [9, 10] rfl⟩

end MachineInt
