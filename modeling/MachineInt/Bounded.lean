import MachineInt.Tagged

/-!
# Bounded integers and literals

A `Bounded k` is an integer among the values of a kind, as a program outside hands it over or takes
it back. In a register it is sign extended over all the bits, and `Register.convert` ignores the
excess.

Words and registers also have written forms. A word of a kind is the name of one of its constants, a
decimal integer of at most 128 bits, or an `x` and hexadecimal digits; of a number that is too wide
for the kind the low bits are kept. A tagged word is the name of its kind, a colon and a word.
-/

set_option autoImplicit false

namespace MachineInt

/-- An integer among the values of kind `k`. -/
@[ext]
structure Bounded (k : Kind) where
  val : Int
  represents : k.Represents val
  deriving DecidableEq

namespace Bounded

variable {k : Kind}

/-- The integer `n`, if it is a value of the kind. -/
def ofInt? (k : Kind) (n : Int) : Option (Bounded k) :=
  if h : k.Represents n then some ⟨n, h⟩ else none

/-- The integer `p.val` in two's complement over a whole register. -/
def register (p : Bounded k) : Register := BitVec.ofInt 128 p.val

/-- The integer that kind `k` reads in the low bits of a register. -/
def ofRegister (k : Kind) (r : Register) : Bounded k :=
  ⟨(Word.ofRegister r : Word k).toInt, Word.toInt_represents _⟩

/-! ## Bounded integers and words -/

/-- The word of kind `l` in the low bits of the integer's register, without a conversion. -/
def truncate (l : Kind) (p : Bounded k) : Word l := Word.ofRegister p.register

def toWord (p : Bounded k) : Word k := Word.ofRegister p.register

/-- The integer of `a`, the inverse of `toWord`. -/
def ofWord (a : Word k) : Bounded k := ofRegister k a.register

/-- The word of kind `l` that the integer converts to. -/
def castToWord (l : Kind) (p : Bounded k) : Word l := Word.ofRegister (p.register.convert k l)

/-- The integer of kind `l` that the word converts to. -/
def castOfWord (l : Kind) (a : Word k) : Bounded l := ofRegister l (a.register.convert k l)

end Bounded

/-! ## Literals -/

/-- Reads the digits `cs` of a magnitude below `2 ^ 128`. -/
def Register.ofDigits? (r : Radix) (cs : List Char) : Option Register :=
  (r.read? cs).bind fun n => if n < Kind.u128.card then some (BitVec.ofNat 128 n) else none

/-- Reads a register: decimal digits, or an `x` and hexadecimal digits. -/
def Register.ofText? : List Char → Option Register
  | 'x' :: cs => Register.ofDigits? .hexadecimal cs
  | cs => Register.ofDigits? .decimal cs

/-- Reads a decimal integer, with `-` in front if it is negative. -/
def Numeral.readInt? : List Char → Option Int
  | '-' :: cs => (Radix.decimal.read? cs).map fun n => -(n : Int)
  | cs => (Radix.decimal.read? cs).map fun n => (n : Int)

namespace Word

def ofText? (k : Kind) (s : String) : Option (Word k) :=
  match s with
  | "ZERO" => some zero
  | "ONE" => some one
  | "MIN" => some least
  | "MAX" => some greatest
  | _ =>
    match s.toList with
    | '-' :: cs =>
      (Numeral.readInt? ('-' :: cs)).bind fun n =>
        (Bounded.ofInt? .i128 n).map (Bounded.truncate k)
    | cs => (Register.ofText? cs).map ofRegister

end Word

/-- Reads a decimal integer and the name of its kind, as `TaggedWord.text` writes them. -/
def TaggedWord.ofText? (s : String) : Option TaggedWord :=
  match s.splitOn ":" with
  | [name, literal] => (Kind.ofName? name).bind fun k => (Word.ofText? k literal).map .ofWord
  | _ => none

end MachineInt
