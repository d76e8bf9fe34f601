import MachineInt.Outcome

/-!
# Byte encodings

A word occupies exactly the bytes of its kind, in either order. Reading and writing refuse any
other number of bytes, and a refused write leaves the buffer as it was.

Main statements:

* `littleEndian_length`: an encoding has as many bytes as asked for.
* `Word.length_toBytes`: a word has as many bytes as its kind.
-/

set_option autoImplicit false

namespace MachineInt

/-! ## Numbers in base 256 -/

/-- The `count` low bytes of `n`, the least significant first. -/
def littleEndian : Nat → Nat → List UInt8
  | 0, _ => []
  | count + 1, n => UInt8.ofNat n :: littleEndian count (n / 256)

/-- The number whose bytes are given, the least significant first (`littleEndian`). -/
def ofLittleEndian : List UInt8 → Nat
  | [] => 0
  | b :: bs => b.toNat + 256 * ofLittleEndian bs

@[simp] theorem littleEndian_length (count n : Nat) : (littleEndian count n).length = count := by
  induction count generalizing n with
  | zero => rfl
  | succ count ih => rw [littleEndian, List.length_cons, ih]

/-- The end of a number that comes first in its bytes. -/
inductive ByteOrder where
  | little
  | big
  deriving DecidableEq

namespace ByteOrder

/-- The `count` low bytes of `n` in this order. -/
def encode (o : ByteOrder) (count n : Nat) : List UInt8 :=
  match o with
  | little => littleEndian count n
  | big => (littleEndian count n).reverse

def decode (o : ByteOrder) (bytes : List UInt8) : Nat :=
  match o with
  | little => ofLittleEndian bytes
  | big => ofLittleEndian bytes.reverse

@[simp] theorem length_encode (o : ByteOrder) (count n : Nat) :
    (o.encode count n).length = count := by
  cases o <;> simp [encode]

end ByteOrder

/-- Refuses any number `n` of bytes but `k.bytes`. -/
def Kind.checkLength (k : Kind) (n : Nat) : Except Error Unit :=
  if n = k.bytes then .ok () else .error (.byteLength k k.bytes n)

theorem Kind.checkLength_of_eq {k : Kind} {n : Nat} (h : n = k.bytes) :
    k.checkLength n = .ok () := if_pos h

theorem Kind.checkLength_of_ne {k : Kind} {n : Nat} (h : n ≠ k.bytes) :
    k.checkLength n = .error (.byteLength k k.bytes n) := if_neg h

/-! ## Words -/

/-- What a write leaves behind: the `buffer`, and an `error?` if it was refused. -/
structure Written where
  buffer : List UInt8
  error? : Option Error

namespace Word

variable {k : Kind}

def toBytes (o : ByteOrder) (a : Word k) : List UInt8 := o.encode k.bytes a.toNat

/-- The word in the low bits of the number that `bytes` spell. -/
def ofBytes (o : ByteOrder) (bytes : List UInt8) : Word k := ⟨BitVec.ofNat k.bits (o.decode bytes)⟩

/-- Reads a word from exactly `k.bytes` bytes. -/
def read (k : Kind) (o : ByteOrder) (bytes : List UInt8) : Except Error (Word k) :=
  (k.checkLength bytes.length).map fun _ => ofBytes o bytes

/-- Writes a word over a `buffer` of exactly `k.bytes` bytes. -/
def write (o : ByteOrder) (a : Word k) (buffer : List UInt8) : Written :=
  match k.checkLength buffer.length with
  | .ok _ => ⟨a.toBytes o, none⟩
  | .error e => ⟨buffer, some e⟩

def byteSwap (a : Word k) : Word k := ofBytes .big (a.toBytes .little)

@[simp] theorem length_toBytes (o : ByteOrder) (a : Word k) : (a.toBytes o).length = k.bytes := by
  simp [toBytes]

end Word

/-! ## Tagged words -/

namespace TaggedWord

/-- Reads a word of kind `k` from exactly as many bytes as the kind has. -/
def read (k : Kind) (o : ByteOrder) (bytes : List UInt8) : Except Error TaggedWord :=
  (k.checkLength bytes.length).map fun _ => ofRegister k (BitVec.ofNat 128 (o.decode bytes))

end TaggedWord

end MachineInt
