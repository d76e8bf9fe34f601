import MachineInt.Register

/-!
# Words

A word of kind `k` is a pattern of exactly `k.bits` bits. `Word.toInt` is the integer it denotes,
`Word.ofInt` the word that an integer leaves in the kind's bits, and `Word.cast` takes a word to
another kind.
-/

set_option autoImplicit false

namespace MachineInt

/-- A machine integer of kind `k`. -/
@[ext]
structure Word (k : Kind) where
  bits : BitVec k.bits
  deriving DecidableEq

namespace Word

variable {k : Kind}

/-! ## Making words -/

def ofRegister (r : Register) : Word k := ⟨r.setWidth k.bits⟩

def ofInt (n : Int) : Word k := ⟨BitVec.ofInt k.bits n⟩

def zero : Word k := ⟨0#k.bits⟩
def one : Word k := ⟨1#k.bits⟩

def least : Word k := ⟨if k.signed then BitVec.intMin k.bits else 0#k.bits⟩

def greatest : Word k := ⟨if k.signed then BitVec.intMax k.bits else BitVec.allOnes k.bits⟩

instance : Inhabited (Word k) := ⟨zero⟩

/-! ## Reading words -/

def toNat (a : Word k) : Nat := a.bits.toNat

/-- The integer that `a` denotes: two's complement for a signed kind, `toNat` otherwise. -/
def toInt (a : Word k) : Int := if k.signed then a.bits.toInt else a.bits.toNat

/-- The pattern of `a` in the low bits of a register, with zeros above. -/
def register (a : Word k) : Register := a.bits.setWidth 128

/-- The integer of `a` is below zero, so `k` is signed. -/
def isNegative (a : Word k) : Bool := k.signed && a.bits.msb

def leadingZeros (a : Word k) : Nat := a.bits.clz.toNat

def countOnes (a : Word k) : Nat := a.bits.cpop.toNat

/-! ## Conversion -/

/-- The word converted to kind `l`: truncated when `l` is narrower, extended when it is wider. -/
def cast (l : Kind) (a : Word k) : Word l := ofRegister (a.register.convert k l)

/-! ## Words in registers -/

@[simp] theorem ofRegister_register (a : Word k) : ofRegister a.register = a := by
  unfold ofRegister register
  rw [BitVec.setWidth_setWidth_of_le _ k.bits_le, BitVec.setWidth_eq]

theorem toNat_ofRegister (r : Register) : (ofRegister r : Word k).toNat = r.toNat % k.card :=
  BitVec.toNat_setWidth k.bits r

@[simp] theorem toNat_register (a : Word k) : a.register.toNat = a.toNat := by
  unfold register
  rw [BitVec.toNat_setWidth, Nat.mod_eq_of_lt]
  · rfl
  · exact Nat.lt_of_lt_of_le a.bits.isLt (Nat.pow_le_pow_right (by decide) k.bits_le)

theorem getLsbD_register (a : Word k) (i : Nat) : a.register.getLsbD i = a.bits.getLsbD i := by
  unfold register
  rw [BitVec.getLsbD_setWidth]
  by_cases hi : i < 128
  · simp [hi]
  · simp [hi, BitVec.getLsbD_of_ge a.bits i (Nat.le_trans k.bits_le (by omega))]

theorem register_ofRegister (r : Register) : (ofRegister r : Word k).register = r &&& k.mask := by
  apply BitVec.eq_of_getLsbD_eq
  intro i _
  rw [getLsbD_register, BitVec.getLsbD_and, k.getLsbD_mask]
  unfold ofRegister
  rw [BitVec.getLsbD_setWidth, Bool.and_comm]

theorem ofRegister_ofNat (n : Nat) :
    (ofRegister (BitVec.ofNat 128 n) : Word k) = ⟨BitVec.ofNat k.bits n⟩ :=
  congrArg mk (BitVec.setWidth_ofNat_of_le k.bits_le n)

theorem isNegative_ofRegister (r : Register) :
    (ofRegister r : Word k).isNegative = r.isNegative k := by
  have hpos := k.bits_pos
  unfold isNegative Register.isNegative ofRegister
  rw [BitVec.msb_eq_getLsbD_last, BitVec.getLsbD_setWidth, decide_eq_true (by omega),
    Bool.true_and]

/-! ## Bounds -/

theorem toNat_lt (a : Word k) : a.toNat < k.card := a.bits.isLt

theorem toInt_signed (a : Word k) (h : k.signed = true) : a.toInt = a.bits.toInt := by
  simp [toInt, h]

theorem toInt_unsigned (a : Word k) (h : k.signed = false) : a.toInt = a.toNat := by
  simp [toInt, toNat, h]

theorem toInt_represents (a : Word k) : k.Represents a.toInt := by
  unfold Kind.Represents Kind.least Kind.greatest toInt
  split
  · rw [k.half_card]
    have hlow := BitVec.le_toInt a.bits
    have hhigh := BitVec.toInt_lt (x := a.bits)
    exact ⟨by exact_mod_cast hlow, Int.le_sub_one_of_lt (by exact_mod_cast hhigh)⟩
  · have h := a.toNat_lt
    unfold toNat at h
    omega

end Word

end MachineInt
