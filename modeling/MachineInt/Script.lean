import MachineInt.Bounded
import MachineInt.Bytes
import MachineInt.Operation

/-!
# Scripts

A script is a list of steps, each of which takes an accumulator to its next value. The operand of a
step is made from a pattern, a constant, an integer or bytes, or is an earlier value of the
accumulator. A refused step leaves the accumulator and the history as they are.
-/

set_option autoImplicit false

namespace MachineInt

/-! ## Steps -/

inductive Operand where
  | pattern (kind : Kind) (register : Register)
  | constant (kind : Kind) (which : Constant)
  /-- The word of `kind` that `value`, an integer of kind `source`, converts to. -/
  | bounded (kind source : Kind) (value : Bounded source)
  /-- The word that `content` holds, if that is exactly as many bytes. -/
  | bytes (kind : Kind) (order : ByteOrder) (content : List UInt8)
  /-- The entry `index` of the history; entry zero is the start. -/
  | entry (index : Nat)
  deriving DecidableEq

def Operand.literal (value : TaggedWord) : Operand := .pattern value.kind value.register

inductive Step where
  | unary (op : UnaryOp)
  | binary (op : BinaryOp) (operand : Operand)
  | cast (kind : Kind)
  | tag
  /-- A conversion to `kind` that goes through a tagged word. -/
  | castTagged (kind : Kind)
  | flipSign
  | byteSwap
  /-- The accumulator written over `buffer`, and the word of `kind` that the buffer then holds. -/
  | recode (order : ByteOrder) (buffer : List UInt8) (kind : Kind) (back : ByteOrder)
  | leadingZeros
  | countOnes
  /-- The greater of the accumulator and `operand`, which is cast to its kind. -/
  | max (operand : Operand)
  /-- The lesser of the accumulator and `operand`, which is cast to its kind. -/
  | min (operand : Operand)
  /-- The `operand` takes the place of the accumulator. -/
  | load (operand : Operand)
  deriving DecidableEq

/-- The word in exactly `k.bytes` bytes, tagged; any other number is a `Refusal`. -/
def TaggedWord.readOrRefuse (k : Kind) (o : ByteOrder) (bytes : List UInt8) :
    Except Refusal TaggedWord :=
  ((Word.read k o bytes).map ofWord).mapError .failed

/-- The value of an operand, of `history` or on its own. -/
def Operand.resolve (history : Array TaggedWord) : Operand → Except Refusal TaggedWord
  | pattern kind register => .ok (.ofRegister kind register)
  | constant kind which => .ok (.ofWord (which.word kind))
  | bounded kind _ value => .ok (.ofWord (value.castToWord kind))
  | bytes kind order content => TaggedWord.readOrRefuse kind order content
  | entry index =>
    match history[index]? with
    | some value => .ok value
    | none => .error (.noEntry index)

/-- A count as a word of kind `k`, by way of 32 unsigned bits. -/
def Word.ofCount (k : Kind) (n : Nat) : Word k := (ofInt n : Word .u32).cast k

def Step.apply (history : Array TaggedWord) (acc : TaggedWord) : Step → Except Refusal TaggedWord
  | unary op => (op.apply acc.word).map .ofWord
  | binary op operand => do
    let b ← operand.resolve history
    let a ← op.apply acc.word b.word
    pure (.ofWord a)
  | cast kind => .ok (.ofWord (acc.word.cast kind))
  | tag => .ok (.ofWord acc.word)
  | castTagged kind => .ok (.ofWord ((acc.cast kind).word))
  | flipSign => .ok (.ofWord (acc.word.cast acc.kind.flipSign))
  | byteSwap => .ok (.ofWord acc.word.byteSwap)
  | recode order buffer kind back =>
    let written := acc.word.write order buffer
    match written.error? with
    | none => TaggedWord.readOrRefuse kind back written.buffer
    | some e => .error (.failed e)
  | leadingZeros => .ok (.ofWord (Word.ofCount acc.kind acc.word.leadingZeros))
  | countOnes => .ok (.ofWord (Word.ofCount acc.kind acc.word.countOnes))
  | max operand => (operand.resolve history).map fun b =>
    .ofWord (Max.max acc.word (b.word.cast acc.kind))
  | min operand => (operand.resolve history).map fun b =>
    .ofWord (Min.min acc.word (b.word.cast acc.kind))
  | load operand => operand.resolve history

/-! ## Running -/

namespace Script

/-- The results of the steps, from an accumulator `acc` and the `history` that ends with it. -/
def runFrom (history : Array TaggedWord) (acc : TaggedWord) :
    List Step → List (Except Refusal TaggedWord)
  | [] => []
  | step :: rest =>
    match step.apply history acc with
    | .ok next => .ok next :: runFrom (history.push next) next rest
    | .error refusal => .error refusal :: runFrom history acc rest

def run (start : TaggedWord) (steps : List Step) : List (Except Refusal TaggedWord) :=
  runFrom #[start] start steps

end Script

end MachineInt
