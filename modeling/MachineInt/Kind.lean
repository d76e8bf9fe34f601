/-!
# Kinds of machine integers

A kind is a storage size and a reading of its bit patterns: two's complement when the kind is
signed, a plain magnitude otherwise. There are ten, `i8` to `i128` and `u8` to `u128`.

Main statements:

* `Kind.two_le_bits`, `Kind.bits_le`: every kind has between 2 and 128 bits.
* `Kind.bits_eq`: the bits of a kind fill its bytes exactly.
* `Kind.embedsIn_iff`: sizes and signedness tell whether one kind has all the values of another.
-/

set_option autoImplicit false

namespace MachineInt

/-! ## Sizes -/

inductive Size where
  | bits8
  | bits16
  | bits32
  | bits64
  | bits128
  deriving DecidableEq

namespace Size

def bytes : Size → Nat
  | bits8 => 1
  | bits16 => 2
  | bits32 => 4
  | bits64 => 8
  | bits128 => 16

def bits (s : Size) : Nat := 8 * s.bytes

def all : List Size := [bits8, bits16, bits32, bits64, bits128]

def ofBits? (n : Nat) : Option Size := all.find? fun s => s.bits == n

end Size

/-! ## Kinds -/

/-- A storage size, and whether its patterns are read in two's complement (`signed`). -/
structure Kind where
  size : Size
  signed : Bool
  deriving DecidableEq

namespace Kind

def i8 : Kind := ⟨.bits8, true⟩
def i16 : Kind := ⟨.bits16, true⟩
def i32 : Kind := ⟨.bits32, true⟩
def i64 : Kind := ⟨.bits64, true⟩
def i128 : Kind := ⟨.bits128, true⟩
def u8 : Kind := ⟨.bits8, false⟩
def u16 : Kind := ⟨.bits16, false⟩
def u32 : Kind := ⟨.bits32, false⟩
def u64 : Kind := ⟨.bits64, false⟩
def u128 : Kind := ⟨.bits128, false⟩

/-- All ten kinds: the signed ones first, and the narrower before the wider. -/
def all : List Kind := [i8, i16, i32, i64, i128, u8, u16, u32, u64, u128]

def bits (k : Kind) : Nat := k.size.bits

def bytes (k : Kind) : Nat := k.size.bytes

def ofBits? (n : Nat) (signed : Bool) : Option Kind := (Size.ofBits? n).map (⟨·, signed⟩)

def flipSign (k : Kind) : Kind := { k with signed := !k.signed }

/-! ## The integers of a kind -/

/-- The number of values of `k`, a power of two. -/
def card (k : Kind) : Nat := Nat.pow 2 k.bits

def least (k : Kind) : Int := if k.signed then -(k.card / 2 : Nat) else 0

def greatest (k : Kind) : Int := if k.signed then (k.card / 2 : Nat) - 1 else k.card - 1

/-- The integer `n` is one of the kind's values. -/
def Represents (k : Kind) (n : Int) : Prop := k.least ≤ n ∧ n ≤ k.greatest

instance (k : Kind) (n : Int) : Decidable (k.Represents n) := instDecidableAnd

/-- The one integer of the kind that differs from `n` by a multiple of `k.card`. -/
def reduce (k : Kind) (n : Int) : Int := if k.signed then n.bmod k.card else n % k.card

/-- Kind `l` has all the values of kind `k`, told from their sizes and signedness. -/
def EmbedsIn (k l : Kind) : Prop := k = l ∨ k.bits < l.bits ∧ (k.signed → l.signed)

instance (k l : Kind) : Decidable (k.EmbedsIn l) := inferInstanceAs (Decidable (_ ∨ _))

/-! ## Texts -/

/-- The name of the kind: a letter for the signedness and the number of bits, as in `i32`. -/
def name (k : Kind) : String := (if k.signed then "i" else "u") ++ toString k.bits

/-- The kind that has `s` as its `name`, if there is one. -/
def ofName? (s : String) : Option Kind := all.find? fun k => k.name == s

/-- The kind written out field by field, for debugging. -/
def fields (k : Kind) : String :=
  "WidthClass \x7b bits: " ++ toString k.bits ++ ", signed: " ++ toString k.signed ++ " \x7d"

/-! ## Sizes in numbers -/

theorem bits_eq (k : Kind) : k.bits = 8 * k.bytes := rfl

theorem two_le_bits (k : Kind) : 2 ≤ k.bits := by
  show 2 ≤ k.size.bits
  cases k.size <;> decide

theorem bits_pos (k : Kind) : 0 < k.bits := Nat.lt_of_lt_of_le (by decide) k.two_le_bits

theorem bits_le (k : Kind) : k.bits ≤ 128 := by
  show k.size.bits ≤ 128
  cases k.size <;> decide

theorem bytes_le (k : Kind) : k.bytes ≤ 16 := by
  have hbits := k.bits_le
  rw [k.bits_eq] at hbits
  omega

@[simp] theorem bits_flipSign (k : Kind) : k.flipSign.bits = k.bits := rfl

@[simp] theorem signed_flipSign (k : Kind) : k.flipSign.signed = !k.signed := rfl

theorem card_eq (k : Kind) : k.card = 2 * Nat.pow 2 (k.bits - 1) := by
  have hpos := k.bits_pos
  obtain ⟨b, hb⟩ : ∃ b, k.bits = b + 1 := ⟨k.bits - 1, by omega⟩
  rw [card, hb, Nat.add_sub_cancel]
  exact Nat.pow_succ'

theorem half_card (k : Kind) : k.card / 2 = Nat.pow 2 (k.bits - 1) := by
  have hcard := k.card_eq
  omega

theorem card_pos (k : Kind) : 0 < k.card := Nat.two_pow_pos k.bits

theorem card_le_card {k l : Kind} (h : k.bits ≤ l.bits) : k.card ≤ l.card :=
  Nat.pow_le_pow_right (by decide) h

theorem card_dvd_card {k l : Kind} (h : k.bits ≤ l.bits) : k.card ∣ l.card :=
  Nat.pow_dvd_pow 2 h

/-- The integer after `k.greatest` is `k.least` again, modulo `k.card`. -/
theorem least_eq (k : Kind) : k.least = k.greatest + 1 - k.card := by
  have hcard := k.card_eq
  unfold least greatest
  split <;> omega

/-! ## Embeddings -/

theorem least_le_greatest (k : Kind) : k.least ≤ k.greatest := by
  rcases k with ⟨s, b⟩
  cases s <;> cases b <;> decide

theorem zero_represents (k : Kind) : k.Represents 0 := by
  rcases k with ⟨s, b⟩
  cases s <;> cases b <;> decide

theorem one_represents (k : Kind) : k.Represents 1 := by
  rcases k with ⟨s, b⟩
  cases s <;> cases b <;> decide

/-- Kind `l` has all the values of `k` if it has `k.least` and `k.greatest`. -/
theorem embedsIn_iff_ends (k l : Kind) :
    k.EmbedsIn l ↔ l.least ≤ k.least ∧ k.greatest ≤ l.greatest := by
  rcases k with ⟨s, b⟩
  rcases l with ⟨t, c⟩
  cases s <;> cases b <;> cases t <;> cases c <;> decide

theorem embedsIn_iff (k l : Kind) : k.EmbedsIn l ↔ ∀ n, k.Represents n → l.Represents n := by
  rw [embedsIn_iff_ends]
  constructor
  · intro h n hn
    exact ⟨Int.le_trans h.1 hn.1, Int.le_trans hn.2 h.2⟩
  · intro h
    exact ⟨(h k.least ⟨Int.le_refl _, k.least_le_greatest⟩).1,
      (h k.greatest ⟨k.least_le_greatest, Int.le_refl _⟩).2⟩

theorem embedsIn_i128 {k : Kind} (h : k.signed = true) : k.EmbedsIn .i128 := by
  rcases k with ⟨s, b⟩
  subst h
  cases s <;> decide

theorem EmbedsIn.bits_le {k l : Kind} (h : k.EmbedsIn l) : k.bits ≤ l.bits := by
  rcases h with rfl | h
  · exact Nat.le_refl _
  · exact Nat.le_of_lt h.1

end Kind

end MachineInt
