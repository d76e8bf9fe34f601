/-!
# Numerals

A numeral is the text of a number in its three parts: the sign, the mark of its base, and the
digits, most significant first and without leading zeros. `Radix.read?` reads digits back.
-/

set_option autoImplicit false

namespace MachineInt

/-! ## Bases -/

inductive Radix where
  | binary
  | decimal
  | hexadecimal
  deriving DecidableEq

namespace Radix

def base : Radix → Nat
  | binary => 2
  | decimal => 10
  | hexadecimal => 16

/-- The mark in front of the digits, such as `0x`; base ten has none. -/
def mark : Radix → List Char
  | binary => ['0', 'b']
  | decimal => []
  | hexadecimal => ['0', 'x']

/-- The value of the digit `c` of some base up to sixteen, in either case. -/
def digitValue? (c : Char) : Option Nat :=
  if '0' ≤ c ∧ c ≤ '9' then some (c.toNat - '0'.toNat)
  else if 'a' ≤ c ∧ c ≤ 'f' then some (c.toNat - 'a'.toNat + 10)
  else if 'A' ≤ c ∧ c ≤ 'F' then some (c.toNat - 'A'.toNat + 10)
  else none

def readDigit? (r : Radix) (n : Nat) (c : Char) : Option Nat :=
  (digitValue? c).bind fun d => if d < r.base then some (r.base * n + d) else none

/-- The number with the digits `cs`, of which there must be one at least. -/
def read? (r : Radix) (cs : List Char) : Option Nat :=
  if cs.isEmpty then none else cs.foldlM r.readDigit? 0

theorem two_le_base (r : Radix) : 2 ≤ r.base := by
  cases r <;> decide

end Radix

/-! ## Numerals -/

/-- The parts of a written number: a sign, the mark of its base and `digits`. -/
structure Numeral where
  negative : Bool
  mark : List Char
  digits : List Char

namespace Numeral

def ofNat (r : Radix) (n : Nat) : Numeral := ⟨false, r.mark, Nat.toDigits r.base n⟩

/-- The magnitude `n` in base `r`, with capital letters for the digits above nine. -/
def ofNatUpper (r : Radix) (n : Nat) : Numeral :=
  ⟨false, r.mark, (Nat.toDigits r.base n).map Char.toUpper⟩

def ofInt (n : Int) : Numeral :=
  ⟨decide (n < 0), Radix.decimal.mark, Nat.toDigits Radix.decimal.base n.natAbs⟩

/-- The sign, if the number is below zero, and the `digits`. -/
def plain (n : Numeral) : List Char := (if n.negative then ['-'] else []) ++ n.digits

def decimal (n : Int) : String := String.ofList (ofInt n).plain

/-- The digits of `n` in base sixteen, without the mark. -/
def hexadecimal (n : Nat) : String := String.ofList (ofNat .hexadecimal n).plain

end Numeral

end MachineInt
