import MachineInt.Datapath.Basic
import MachineInt.Script

/-!
# Scripts on the datapath

Runs the steps of a script on slots. A run that does not fault gives for each step the slot of the
new accumulator, or the refusal of the step.
-/

set_option autoImplicit false

namespace MachineInt.Datapath

def Slot.ofTagged (t : TaggedWord) : Slot := ⟨t.kind, t.register⟩

/-- The slot that `read` gives, its error made the `Refusal` of a step. -/
def readOrRefuse (k : Kind) (o : ByteOrder) (bytes : List UInt8) : Run (Except Refusal Slot) := do
  let s? ← read k o bytes
  pure (s?.mapError .failed)

/-- The slot that an `Operand` names, of `history` or on its own. -/
def resolve (history : Array Slot) : Operand → Run (Except Refusal Slot)
  | .pattern kind register => .ok <$> keep kind register
  | .constant kind which => .ok <$> constant kind which
  | .bounded kind source value => .ok <$> cast kind ⟨source, value.register⟩
  | .bytes kind order content => readOrRefuse kind order content
  | .entry index =>
    match history[index]? with
    | some s => pure (.ok s)
    | none => pure (.error (.noEntry index))

def unary (op : UnaryOp) (a : Slot) : Run (Except Refusal Slot) :=
  match op with
  | .abs => .ok <$> abs a
  | .complement => .ok <$> complement a
  | .negate =>
    if a.kind.signed then .ok <$> negate a else pure (.error (.unsignedNegation a.kind))

/-- The result of `op` on two slots; a bitwise one is refused on different kinds. -/
def binary (op : BinaryOp) (a b : Slot) : Run (Except Refusal Slot) :=
  match op with
  | .arith op => .ok <$> arith op a b
  | .bitwise op =>
    if b.kind = a.kind then .ok <$> bitwise op a b
    else pure (.error (.kindMismatch a.kind b.kind))
  | .shift .left => .ok <$> shiftLeft a b
  | .shift .right => .ok <$> shiftRight a b

/-- A count as a slot of kind `k`, by way of 32 unsigned bits. -/
def ofCount (k : Kind) (n : Nat) : Run Slot := do
  let s ← keep .u32 (BitVec.ofNat 128 n)
  cast k s

/-- The bytes of `a` in the opposite order; `read` cannot refuse them. -/
def byteSwap (a : Slot) : Run Slot := do
  let written ← write .little a (List.replicate a.kind.bytes 0)
  match ← read a.kind .big written.buffer with
  | .ok s => pure s
  | .error _ => pure a

def max (a b : Slot) : Run Slot := do
  let o ← order b a
  pure (if o = .lt then a else b)

def min (a b : Slot) : Run Slot := do
  let o ← order b a
  pure (if o = .lt then b else a)

/-- Continues with the slot that `operand` names, or refuses the step. -/
def withOperand (history : Array Slot) (operand : Operand)
    (f : Slot → Run (Except Refusal Slot)) : Run (Except Refusal Slot) := do
  match ← resolve history operand with
  | .ok b => f b
  | .error refusal => pure (.error refusal)

/-- The slot of the accumulator `acc` after one step. -/
def step (history : Array Slot) (acc : Slot) : Step → Run (Except Refusal Slot)
  | .unary op => unary op acc
  | .binary op operand => withOperand history operand fun b => binary op acc b
  | .cast kind => .ok <$> cast kind acc
  | .tag => .ok <$> tag acc
  | .castTagged kind => do
    let tagged ← tag acc
    let converted ← cast kind tagged
    .ok <$> cast kind converted
  | .flipSign => .ok <$> cast acc.kind.flipSign acc
  | .byteSwap => .ok <$> byteSwap acc
  | .recode order buffer kind back => do
    let written ← write order acc buffer
    match written.error? with
    | none => readOrRefuse kind back written.buffer
    | some e => pure (.error (.failed e))
  | .leadingZeros => do
    let n ← leadingZeros acc
    .ok <$> ofCount acc.kind n
  | .countOnes => .ok <$> ofCount acc.kind (countOnes acc)
  | .max operand => withOperand history operand fun b => do
    let b ← cast acc.kind b
    .ok <$> max acc b
  | .min operand => withOperand history operand fun b => do
    let b ← cast acc.kind b
    .ok <$> min acc b
  | .load operand => withOperand history operand fun b => pure (.ok b)

/-- The results of the steps, from an accumulator `acc` and the `history` that ends with it. -/
def runFrom (history : Array Slot) (acc : Slot) : List Step → Run (List (Except Refusal Slot))
  | [] => pure []
  | s :: rest => do
    match ← step history acc s with
    | .ok next => do
      let later ← runFrom (history.push next) next rest
      pure (.ok next :: later)
    | .error refusal => do
      let later ← runFrom history acc rest
      pure (.error refusal :: later)

def run (start : Slot) (steps : List Step) : Run (List (Except Refusal Slot)) :=
  runFrom #[start] start steps

end MachineInt.Datapath
