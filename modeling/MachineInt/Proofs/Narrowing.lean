import MachineInt.Proofs.Conversion
import MachineInt.Proofs.Datapath.Arith
import MachineInt.Proofs.Datapath.Shift

/-!
# Narrowing commutes with computation

The low bits of a result depend on the low bits of the operands only, for every operation but
right shifts. `Expr` is a tree of such operations; evaluating it in a wide kind and casting the
result gives what evaluating it on the cast leaves in the narrow kind gives.

* `Word.bits_cast_of_le`: a cast to a narrower kind truncates, whatever the signs.
* `ArithOp.cast_apply_of_le`, `BitwiseOp.cast_apply_of_le`, `Word.cast_complement_of_le`,
  `Word.cast_shiftLeft_of_le`: one step of an evaluation.
* `Expr.cast_eval`, `Expr.evalSlot_map_ofWord`: the evaluation of a tree and its evaluation on the
  datapath, by induction on the tree.
* `Expr.cast_eval_of_le`: narrowing before or after, on words and on the datapath.
-/

set_option autoImplicit false

namespace MachineInt

variable {k l m : Kind}

/-! ## One operation -/

theorem Word.bits_cast_of_le (h : l.bits ≤ k.bits) (a : Word k) :
    (a.cast l).bits = a.bits.setWidth l.bits := by
  apply BitVec.eq_of_getLsbD_eq
  intro i hi
  rw [getLsbD_cast, BitVec.getLsbD_setWidth, if_pos (by omega)]

theorem ArithOp.cast_apply_of_le (op : ArithOp) (h : l.bits ≤ k.bits) (a : Word k) (b : Word m) :
    (op.apply a b).cast l = op.apply (a.cast l) b := by
  rw [Word.cast_eq_ofInt, apply_eq_ofInt, apply_eq_ofInt, Word.ofInt_eq_ofInt_iff, Word.toInt_ofInt,
    Kind.emod_card_of_le h (k.reduce_emod _), Word.toInt_cast]
  exact op.onInt_emod (l.reduce_emod a.toInt).symm rfl

theorem BitwiseOp.cast_apply_of_le (op : BitwiseOp) (h : l.bits ≤ k.bits) (a b : Word k) :
    (op.apply a b).cast l = op.apply (a.cast l) (b.cast l) := by
  apply Word.ext
  rw [Word.bits_cast_of_le h, op.bits_apply, op.bits_apply, op.setWidth_onBits,
    Word.bits_cast_of_le h, Word.bits_cast_of_le h]

theorem Word.cast_complement_of_le (h : l.bits ≤ k.bits) (a : Word k) :
    (~~~a).cast l = ~~~(a.cast l) := by
  apply Word.ext
  rw [bits_cast_of_le h, bits_complement, bits_complement, bits_cast_of_le h,
    BitVec.setWidth_not h]

theorem Word.cast_shiftLeft_of_le (h : l.bits ≤ k.bits) (a : Word k) (count : Word m)
    (hcount : 0 ≤ count.toInt) : (a <<< count).cast l = a.cast l <<< count := by
  apply Word.ext
  show ((a.shiftBy count.toInt).cast l).bits = ((a.cast l).shiftBy count.toInt).bits
  -- a count between the two sizes overshoots in `l` alone, where all bits left of it are clear
  rw [bits_cast_of_le h, shiftBy_of_nonneg a hcount, shiftBy_of_nonneg _ hcount,
    bits_cast_of_le h, BitVec.setWidth_shiftLeft_of_le h]

/-! ## Trees of operations -/

/-- A shift count of any kind that is not negative (`nonneg`). -/
structure Count where
  kind : Kind
  word : Word kind
  nonneg : 0 ≤ word.toInt

/-- A tree of operations over leaves of some type. The words of `arithConst` and of a `Count` keep
their own kind, whichever kind the tree is evaluated in. -/
inductive Expr (α : Type) where
  | leaf (a : α)
  | arith (op : ArithOp) (e f : Expr α)
  | arithConst (op : ArithOp) (e : Expr α) {m : Kind} (constant : Word m)
  | negate (e : Expr α)
  | bitwise (op : BitwiseOp) (e f : Expr α)
  | complement (e : Expr α)
  | shiftLeft (e : Expr α) (count : Count)

namespace Expr

def map {α β : Type} (g : α → β) : Expr α → Expr β
  | leaf a => leaf (g a)
  | arith op e f => arith op (e.map g) (f.map g)
  | arithConst op e c => arithConst op (e.map g) c
  | negate e => negate (e.map g)
  | bitwise op e f => bitwise op (e.map g) (f.map g)
  | complement e => complement (e.map g)
  | shiftLeft e count => shiftLeft (e.map g) count

def eval : Expr (Word k) → Word k
  | leaf a => a
  | arith op e f => op.apply e.eval f.eval
  | arithConst op e c => op.apply e.eval c
  | negate e => (Word.zero : Word k) - e.eval
  | bitwise op e f => op.apply e.eval f.eval
  | complement e => ~~~e.eval
  | shiftLeft e count => e.eval <<< count.word

/-- The value of a tree over slots, by the steps of `Datapath`. -/
def evalSlot : Expr Datapath.Slot → Datapath.Run Datapath.Slot
  | leaf s => pure s
  | arith op e f => do
    let x ← e.evalSlot
    let y ← f.evalSlot
    Datapath.arith op x y
  | arithConst op e c => do
    let x ← e.evalSlot
    Datapath.arith op x (.ofWord c)
  | negate e => do
    let x ← e.evalSlot
    Datapath.negate x
  | bitwise op e f => do
    let x ← e.evalSlot
    let y ← f.evalSlot
    Datapath.bitwise op x y
  | complement e => do
    let x ← e.evalSlot
    Datapath.complement x
  | shiftLeft e count => do
    let x ← e.evalSlot
    Datapath.shiftLeft x (.ofWord count.word)

/-- The datapath comes to the value `eval` of every tree, without a fault. -/
theorem evalSlot_map_ofWord (e : Expr (Word k)) :
    (e.map Datapath.Slot.ofWord).evalSlot = .ok (.ofWord e.eval) := by
  induction e with
  | leaf a => rfl
  | arith op e f ihe ihf =>
    rw [map, evalSlot, ihe, Datapath.ok_bind, ihf, Datapath.ok_bind]
    exact Datapath.arith_ofWord op e.eval f.eval
  | arithConst op e c ih =>
    rw [map, evalSlot, ih, Datapath.ok_bind]
    exact Datapath.arith_ofWord op e.eval c
  | negate e ih =>
    rw [map, evalSlot, ih, Datapath.ok_bind]
    exact Datapath.negate_ofWord e.eval
  | bitwise op e f ihe ihf =>
    rw [map, evalSlot, ihe, Datapath.ok_bind, ihf, Datapath.ok_bind]
    exact Datapath.bitwise_ofWord op e.eval f.eval
  | complement e ih =>
    rw [map, evalSlot, ih, Datapath.ok_bind]
    exact Datapath.complement_ofWord e.eval
  | shiftLeft e count ih =>
    rw [map, evalSlot, ih, Datapath.ok_bind]
    exact Datapath.shiftLeft_ofWord e.eval count.word

theorem cast_eval {wide narrow : Kind} (h : narrow.bits ≤ wide.bits) (e : Expr (Word wide)) :
    e.eval.cast narrow = (e.map (Word.cast narrow)).eval := by
  induction e with
  | leaf a => rfl
  | arith op e f ihe ihf =>
    show (op.apply e.eval f.eval).cast narrow = op.apply (e.map _).eval (f.map _).eval
    -- the operand of another kind is cast anyway, so the right one need not be cast before
    rw [op.cast_apply_of_le h, ← ihe, ← ihf, op.apply_cast]
  | arithConst op e c ih =>
    show (op.apply e.eval c).cast narrow = op.apply (e.map _).eval c
    rw [op.cast_apply_of_le h, ih]
  | negate e ih =>
    show (ArithOp.sub.apply Word.zero e.eval).cast narrow =
      ArithOp.sub.apply Word.zero (e.map _).eval
    rw [ArithOp.cast_apply_of_le _ h, Word.cast_zero, ← ih, ArithOp.apply_cast]
  | bitwise op e f ihe ihf =>
    show (op.apply e.eval f.eval).cast narrow = op.apply (e.map _).eval (f.map _).eval
    rw [op.cast_apply_of_le h, ihe, ihf]
  | complement e ih =>
    show (~~~e.eval).cast narrow = ~~~(e.map _).eval
    rw [Word.cast_complement_of_le h, ih]
  | shiftLeft e count ih =>
    show (e.eval <<< count.word).cast narrow = (e.map _).eval <<< count.word
    rw [Word.cast_shiftLeft_of_le h _ _ count.nonneg, ih]

/-- **Narrowing commutes with computation**: a tree of any size, evaluated in a wide kind and then
cast, has the value it has on the cast leaves in the narrow kind, by `eval` and by `evalSlot`. -/
theorem cast_eval_of_le {wide narrow : Kind} (h : narrow.bits ≤ wide.bits)
    (e : Expr (Word wide)) :
    e.eval.cast narrow = (e.map (Word.cast narrow)).eval ∧
    (do let s ← (e.map Datapath.Slot.ofWord).evalSlot; Datapath.cast narrow s) =
      .ok (.ofWord (e.eval.cast narrow)) ∧
    ((e.map (Word.cast narrow)).map Datapath.Slot.ofWord).evalSlot =
      .ok (.ofWord (e.eval.cast narrow)) := by
  refine ⟨cast_eval h e, ?castLast, ?castFirst⟩
  case castLast => rw [evalSlot_map_ofWord, Datapath.ok_bind, Datapath.cast_ofWord]
  case castFirst => rw [evalSlot_map_ofWord, cast_eval h e]

/-- A shift by 12 places, which keeps low bits of `i16` but none of `u8`, beside other operations
and a constant of a third kind. -/
def overshooting : Expr (Word .i16) :=
  .bitwise .xor
    (.shiftLeft
      (.arith .sub (.leaf (.ofInt 301)) (.negate (.complement (.leaf (.ofInt (-5))))))
      ⟨.u32, .ofInt 12, by decide⟩)
    (.arithConst .mul (.leaf (.ofInt 300)) (.ofInt 1099511627779 : Word .i64))

/-- In `i16` the tree is `0x1384`, and its low byte is what it comes to in `u8`. -/
theorem cast_eval_of_le_overshooting : Kind.u8.bits ≤ Kind.i16.bits ∧
    overshooting.eval = .ofInt 0x1384 ∧
    (overshooting.map (Word.cast .u8)).eval = .ofInt 0x84 ∧
    ((overshooting.map (Word.cast .u8)).map Datapath.Slot.ofWord).evalSlot =
      .ok (.ofWord (.ofInt 0x84 : Word .u8)) := by
  have hle : Kind.u8.bits ≤ Kind.i16.bits := by decide
  have hwide : overshooting.eval = .ofInt 0x1384 := by decide
  have hlow : (Word.ofInt 0x1384 : Word .i16).cast .u8 = .ofInt 0x84 := by decide
  obtain ⟨hnarrow, -, hslot⟩ := cast_eval_of_le hle overshooting
  rw [hwide, hlow] at hnarrow hslot
  exact ⟨hle, hwide, hnarrow.symm, hslot⟩

end Expr

end MachineInt
