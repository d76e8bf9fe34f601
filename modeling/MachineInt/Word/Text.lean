import MachineInt.Text.Numeral
import MachineInt.Word.Basic

/-!
# Texts of words

A `Layout` says how wide a number is printed and how a shorter one is filled up. Without the zero
flag the filling goes around the number, by default in front of it. With the zero flag zeros go
between the sign and mark and the digits, whatever filling and alignment are asked for.

The decimal text of a word shows the integer it denotes; the others show its pattern as a magnitude,
so a negative word prints the two's complement pattern of its own width. `Word.labelled` names the
kind as well, as in `i32(-5)`, and takes no layout.
-/

set_option autoImplicit false

namespace MachineInt

/-! ## Layouts -/

inductive Alignment where
  | left
  | center
  | right
  deriving DecidableEq

namespace Alignment

def ofChar? : Char → Option Alignment
  | '<' => some left
  | '^' => some center
  | '>' => some right
  | _ => none

/-- How much of `missing` goes in front; at the center the odd one goes behind. -/
def before (missing : Nat) : Alignment → Nat
  | left => 0
  | center => missing / 2
  | right => missing

end Alignment

structure Layout where
  fill : Char := ' '
  align : Alignment := .right
  /-- Numbers that are not negative get a `+`. -/
  plus : Bool := false
  /-- The `mark` of the base is shown. -/
  marked : Bool := false
  /-- Zeros fill up the digits, instead of `fill` around the number. -/
  zeros : Bool := false
  /-- The least number of characters. -/
  width : Nat := 0

namespace Layout

/-! ## Reading -/

/-- The filling and the `Alignment` at the start of the flags, and the flags after them. -/
def splitAlignment : List Char → Char × Alignment × List Char
  | [] => (' ', .right, [])
  | c :: cs =>
    match cs.head?.bind Alignment.ofChar?, Alignment.ofChar? c with
    | some a, _ => (c, a, cs.tail)
    | none, some a => (' ', a, cs)
    | none, none => (' ', .right, c :: cs)

def splitFlag (c : Char) : List Char → Bool × List Char
  | [] => (false, [])
  | d :: cs => if d = c then (true, cs) else (false, d :: cs)

/-- Reads the flags: filling and alignment, `+`, `#` and `0`, each of them optional. -/
def ofFlags? (flags : List Char) (width : Nat) : Option Layout :=
  let (fill, align, rest) := splitAlignment flags
  let (plus, rest) := splitFlag '+' rest
  let (marked, rest) := splitFlag '#' rest
  let (zeros, rest) := splitFlag '0' rest
  if rest.isEmpty then some { fill, align, plus, marked, zeros, width } else none

/-! ## Printing -/

def lead (l : Layout) (n : Numeral) : List Char :=
  (if n.negative then ['-'] else if l.plus then ['+'] else []) ++ if l.marked then n.mark else []

def core (l : Layout) (n : Numeral) : List Char := l.lead n ++ n.digits

/-- How many characters the `core` is short of the width. -/
def missing (l : Layout) (n : Numeral) : Nat := l.width - (l.core n).length

def render (l : Layout) (n : Numeral) : List Char :=
  let missing := l.missing n
  if l.zeros then l.lead n ++ List.replicate missing '0' ++ n.digits
  else
    let before := l.align.before missing
    List.replicate before l.fill ++ l.core n ++ List.replicate (missing - before) l.fill

theorem render_default (n : Numeral) : ({} : Layout).render n = n.plain := by
  have hmissing : ({} : Layout).missing n = 0 := Nat.zero_sub _
  simp [render, hmissing, Alignment.before, core, lead, Numeral.plain]

end Layout

/-! ## Texts -/

inductive Style where
  | decimal
  | lowerHex
  | upperHex
  | binary
  deriving DecidableEq

namespace Word

variable {k : Kind}

def numeral (a : Word k) : Style → Numeral
  | .decimal => .ofInt a.toInt
  | .lowerHex => .ofNat .hexadecimal a.toNat
  | .upperHex => .ofNatUpper .hexadecimal a.toNat
  | .binary => .ofNat .binary a.toNat

/-- The word `a` in a `style`, laid out. -/
def format (a : Word k) (style : Style) (layout : Layout) : String :=
  String.ofList (layout.render (a.numeral style))

/-- The word `a` in a `style` at its own length. -/
def text (a : Word k) (style : Style) : String := a.format style {}

theorem text_decimal (a : Word k) : a.text .decimal = Numeral.decimal a.toInt :=
  congrArg String.ofList (Layout.render_default _)

/-- The word with its kind, as in `i32(-5)`. -/
def labelled (a : Word k) : String := k.name ++ "(" ++ Numeral.decimal a.toInt ++ ")"

end Word

end MachineInt
