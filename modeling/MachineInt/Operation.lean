import MachineInt.Outcome
import MachineInt.Word.Arith

/-!
# Operations

The operations on words as data, for programs that choose them while they run. Two combinations
have no meaning and are refused: the negation of an unsigned word, and a bitwise operation on two
words of different kinds. So is what fails with an error of its own.
-/

set_option autoImplicit false

namespace MachineInt

inductive Refusal where
  | unsignedNegation (kind : Kind)
  | kindMismatch (left right : Kind)
  | noEntry (index : Nat)
  | failed (error : Error)
  deriving DecidableEq

def Refusal.message : Refusal → String
  | unsignedNegation kind => "cannot negate " ++ kind.name
  | kindMismatch left right => left.name ++ " and " ++ right.name ++ " differ"
  | noEntry index => "no entry " ++ toString index
  | failed error => error.message

inductive Constant where
  | zero
  | one
  | least
  | greatest
  deriving DecidableEq

inductive UnaryOp where
  | abs
  | complement
  | negate
  deriving DecidableEq

inductive ArithOp where
  | add
  | sub
  | mul
  deriving DecidableEq

/-- The bitwise operations, which take two words of one kind. -/
inductive BitwiseOp where
  | and
  | or
  | xor
  deriving DecidableEq

/-- The directions of a shift, up or down by a count that is not negative. -/
inductive Direction where
  | left
  | right
  deriving DecidableEq

inductive BinaryOp where
  | arith (op : ArithOp)
  | bitwise (op : BitwiseOp)
  | shift (direction : Direction)
  deriving DecidableEq

variable {k l : Kind}

def Constant.word (k : Kind) : Constant → Word k
  | zero => Word.zero
  | one => Word.one
  | least => Word.least
  | greatest => Word.greatest

/-- The result of `op` on `a`, refused only for the negation of an unsigned word. -/
def UnaryOp.apply (op : UnaryOp) (a : Word k) : Except Refusal (Word k) :=
  match op with
  | abs => .ok a.abs
  | complement => .ok (~~~a)
  | negate => if h : k.signed = true then .ok (a.negate h) else .error (.unsignedNegation k)

/-- The word itself, if it is of kind `k`. -/
def Word.sameKind (k : Kind) (b : Word l) : Except Refusal (Word k) :=
  if h : l = k then .ok (h ▸ b) else .error (.kindMismatch k l)

def ArithOp.apply (op : ArithOp) (a : Word k) (b : Word l) : Word k :=
  match op with
  | add => a + b
  | sub => a - b
  | mul => a * b

def BitwiseOp.apply (op : BitwiseOp) (a b : Word k) : Word k :=
  match op with
  | and => a &&& b
  | or => a ||| b
  | xor => a ^^^ b

def Direction.shift (d : Direction) (a : Word k) (count : Word l) : Word k :=
  match d with
  | left => a <<< count
  | right => a >>> count

/-- The result of `op`, whose right operand must have the kind of `a` in a bitwise one. -/
def BinaryOp.apply (op : BinaryOp) (a : Word k) (b : Word l) : Except Refusal (Word k) :=
  match op with
  | arith op => .ok (op.apply a b)
  | bitwise op => (b.sameKind k).map fun b => op.apply a b
  | shift d => .ok (d.shift a b)

end MachineInt
