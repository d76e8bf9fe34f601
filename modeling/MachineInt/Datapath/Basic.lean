import MachineInt.Bytes
import MachineInt.Operation

/-!
# The datapath

How a machine with registers of 128 bits carries out the operations on words by checked steps. Some
of these are partial: a shift by 128 places or more, a difference below zero, a slice that reaches
beyond its bytes, and a copy into a slice of another length are faults of the program that asks for
them. A `Slot` holds a pattern with its kind; nothing in its type keeps the bits above the kind
clear, nor keeps a step from faulting, so both are to be proved of programs.
-/

set_option autoImplicit false

namespace MachineInt.Datapath

/-! ## Checked steps -/

/-- What a program asks for and the machine refuses: a shift by 128 or more, a difference below
zero, a slice out of bounds, a copy of another length. -/
inductive Fault where
  | shiftDistance (places : Nat)
  | belowZero (a b : Nat)
  | sliceBounds (start stop length : Nat)
  | copyLength (expected actual : Nat)
  deriving DecidableEq

/-- A computation of the machine, which a `Fault` ends. -/
abbrev Run := Except Fault

/-! ### Shifts -/

def shiftUp (r : Register) (places : Nat) : Run Register :=
  if places < 128 then .ok (r <<< places) else .error (.shiftDistance places)

/-- The bits of `r` moved down, with zeros above. -/
def shiftDown (r : Register) (places : Nat) : Run Register :=
  if places < 128 then .ok (r >>> places) else .error (.shiftDistance places)

/-- The bits of `r` moved down, with copies of its highest bit above. -/
def shiftDownSigned (r : Register) (places : Nat) : Run Register :=
  if places < 128 then .ok (r.sshiftRight places) else .error (.shiftDistance places)

/-! ### Differences -/

def minus (a b : Nat) : Run Nat := if b ≤ a then .ok (a - b) else .error (.belowZero a b)

/-- The difference of `a` and `b` as numbers. -/
def minusRegister (a b : Register) : Run Register :=
  if b.toNat ≤ a.toNat then .ok (a - b) else .error (.belowZero a.toNat b.toNat)

/-! ### Bytes -/

/-- The bytes from position `start` to position `stop`, which is not included. -/
def slice (bytes : List UInt8) (start stop : Nat) : Run (List UInt8) :=
  if start ≤ stop ∧ stop ≤ bytes.length then .ok ((bytes.drop start).take (stop - start))
  else .error (.sliceBounds start stop bytes.length)

/-- The bytes with those from position `start` to position `stop` replaced by as many others. -/
def overwrite (bytes : List UInt8) (start stop : Nat) (source : List UInt8) :
    Run (List UInt8) := do
  let place ← slice bytes start stop
  if source.length = place.length then
    pure (bytes.take start ++ source ++ bytes.drop stop)
  else .error (.copyLength place.length source.length)

/-! ## Slots -/

/-- The register of a word and the `kind` of the pattern in it. -/
@[ext]
structure Slot where
  kind : Kind
  register : Register
  deriving DecidableEq

/-- No bit of the register is set above `s.kind`. -/
def Slot.Fits (s : Slot) : Prop := s.register.toNat < s.kind.card

/-! ## Masks and signs -/

/-- The register with the low `k.bits` bits set. -/
def mask (k : Kind) : Run Register := do
  if k.bits = 128 then pure (BitVec.allOnes 128)
  else
    let top ← shiftUp 1#128 k.bits
    minusRegister top 1#128

/-- The slot of kind `k` with the low bits of a register. -/
def keep (k : Kind) (r : Register) : Run Slot := do
  let m ← mask k
  pure ⟨k, r &&& m⟩

def topBit (k : Kind) (r : Register) : Run Bool := do
  let places ← minus k.bits 1
  let low ← shiftDown r places
  pure (low &&& 1#128 == 1#128)

def isNegative (s : Slot) : Run Bool := do
  if s.kind.signed then topBit s.kind s.register else pure false

/-- The pattern of `s` with its `topBit` copied into all the bits above it. -/
def signExtend (s : Slot) : Run Register := do
  let places ← minus 128 s.kind.bits
  let top ← shiftUp s.register places
  shiftDownSigned top places

/-- A constant of kind `k`; the greatest of a signed kind is its mask moved down by one place. -/
def constant (k : Kind) : Constant → Run Slot
  | .zero => keep k 0#128
  | .one => keep k 1#128
  | .least => do
    if k.signed then
      let places ← minus k.bits 1
      let top ← shiftUp 1#128 places
      keep k top
    else keep k 0#128
  | .greatest => do
    let m ← mask k
    if k.signed then
      let low ← shiftDown m 1
      keep k low
    else keep k m

/-- The integer of `s`, for which `signExtend` shifts the sign up and down. -/
def integer (s : Slot) : Run Int := do
  if s.kind.signed then
    let extended ← signExtend s
    pure extended.toInt
  else pure s.register.toNat

/-! ## Conversion -/

def cast (k : Kind) (s : Slot) : Run Slot := do
  let kept ← keep s.kind s.register
  if k.bits ≤ s.kind.bits then keep k kept.register
  else
    -- the highest bit is looked at before it is asked whether the kind is signed
    let highest ← topBit s.kind kept.register
    if s.kind.signed && highest then
      let m ← mask s.kind
      keep k (kept.register ||| ~~~m)
    else keep k kept.register

/-- The slot with its register masked once more, which is how a `TaggedWord` is made from it. -/
def tag (s : Slot) : Run Slot := keep s.kind s.register

/-- The integer of `s`, for which its register is converted to the widest kind. -/
def taggedInteger (s : Slot) : Run Int := do
  if s.kind.signed then
    let extended ← cast .i128 s
    pure extended.register.toInt
  else pure s.register.toNat

/-! ## Arithmetic -/

def add (a b : Slot) : Run Slot := do
  let b ← cast a.kind b
  keep a.kind (a.register + b.register)

def sub (a b : Slot) : Run Slot := do
  let b ← cast a.kind b
  keep a.kind (a.register - b.register)

def mul (a b : Slot) : Run Slot := do
  let b ← cast a.kind b
  keep a.kind (a.register * b.register)

def arith (op : ArithOp) (a b : Slot) : Run Slot :=
  match op with
  | .add => add a b
  | .sub => sub a b
  | .mul => mul a b

def negate (a : Slot) : Run Slot := do
  let zero ← keep a.kind 0#128
  sub zero a

def abs (a : Slot) : Run Slot := do
  let negative ← isNegative a
  if negative then negate a else pure a

/-! ## Bits -/

def complement (a : Slot) : Run Slot := keep a.kind (~~~a.register)

def and (a b : Slot) : Run Slot := keep a.kind (a.register &&& b.register)

def or (a b : Slot) : Run Slot := keep a.kind (a.register ||| b.register)

def xor (a b : Slot) : Run Slot := keep a.kind (a.register ^^^ b.register)

def bitwise (op : BitwiseOp) (a b : Slot) : Run Slot :=
  match op with
  | .and => and a b
  | .or => or a b
  | .xor => xor a b

/-- The zeros in front in `a.register`, less the bits above the kind. -/
def leadingZeros (a : Slot) : Run Nat := do
  let above ← minus 128 a.kind.bits
  minus a.register.clz.toNat above

def countOnes (a : Slot) : Nat := a.register.cpop.toNat

/-! ## Shifts -/

/-- Whether `count` is negative, and its magnitude. -/
def distance (count : Slot) : Run (Bool × Nat) := do
  let negative ← isNegative count
  if negative then
    let extended ← signExtend count
    pure (true, extended.toInt.natAbs)
  else pure (false, count.register.toNat)

def up (a : Slot) (places : Nat) : Run Slot := do
  if places < a.kind.bits then
    let moved ← shiftUp a.register places
    keep a.kind moved
  else keep a.kind 0#128

/-- The bits of `a` moved down, filling as its kind asks for. -/
def down (a : Slot) (places : Nat) : Run Slot := do
  if places < a.kind.bits then
    if a.kind.signed then
      let extended ← signExtend a
      let moved ← shiftDownSigned extended places
      keep a.kind moved
    else
      let moved ← shiftDown a.register places
      keep a.kind moved
  else keep a.kind 0#128

def shiftLeft (a count : Slot) : Run Slot := do
  let (negative, places) ← distance count
  if negative then down a places else up a places

def shiftRight (a count : Slot) : Run Slot := do
  let (negative, places) ← distance count
  if negative then up a places else down a places

/-! ## Order -/

def order (a b : Slot) : Run Ordering := do
  if a.kind.signed then
    let x ← signExtend a
    let y ← signExtend b
    pure (compare x.toInt y.toInt)
  else pure (compare a.register.toNat b.register.toNat)

/-! ## Bytes -/

/-- Reads a slot through a buffer of sixteen bytes, a whole register. -/
def read (k : Kind) (o : ByteOrder) (bytes : List UInt8) : Run (Except Error Slot) := do
  match k.checkLength bytes.length with
  | .error e => pure (.error e)
  | .ok _ =>
    let clear := List.replicate 16 0
    let buffer ← match o with
      | .little => overwrite clear 0 bytes.length bytes
      | .big => do
        let start ← minus 16 bytes.length
        overwrite clear start 16 bytes
    let s ← keep k (BitVec.ofNat 128 (o.decode buffer))
    pure (.ok s)

/-- Writes the bytes of `a` over `buffer`, by way of all sixteen bytes of its register. -/
def write (o : ByteOrder) (a : Slot) (buffer : List UInt8) : Run Written := do
  match a.kind.checkLength buffer.length with
  | .error e => pure ⟨buffer, some e⟩
  | .ok _ =>
    let all := o.encode 16 a.register.toNat
    let bytes ← match o with
      | .little => slice all 0 a.kind.bytes
      | .big => do
        let start ← minus 16 a.kind.bytes
        slice all start 16
    let written ← overwrite buffer 0 buffer.length bytes
    pure ⟨written, none⟩

end MachineInt.Datapath
