import MachineInt.Proofs.Conversion
import MachineInt.Proofs.Datapath.Arith

/-!
# Regrouping sums across kinds

A sum has the kind of its left operand, and its right one is cast to that. So the sum of three words
of different kinds depends on the grouping: from the left each operand reaches the first kind with
its own integer, from the right the last two are first reduced to the kind in the middle. What the
middle takes off makes no difference to the first kind exactly if the middle is at least as wide.

* `ArithOp.apply_add`, `ArithOp.add_apply`: the two groupings as reductions.
* `ArithOp.apply_add_eq_iff`: on given words they agree if the first kind cannot tell the integer of
  the last two from its reduction to the middle kind.
* `ArithOp.forall_apply_add_eq_iff`: on all words they agree exactly if the middle is as wide. If it
  is not, the word at an end of its values and one tell them apart.
* `Word.cast_add_comm`: the order of two operands, seen from a kind as narrow as both.
* `sums_regroup_iff`: all of it, for sums and differences.
-/

set_option autoImplicit false

namespace MachineInt

variable {k l m n : Kind}

namespace ArithOp

variable {op : ArithOp}

/-! ## The two groupings -/

theorem onInt_add (h : op ≠ mul) (x y z : Int) : op.onInt (x + y) z = x + op.onInt y z := by
  obtain ⟨d, hd⟩ := onInt_eq_add h z
  rw [hd, hd, Int.add_assoc]

theorem apply_add (h : op ≠ mul) (a : Word k) (b : Word l) (c : Word m) :
    op.apply (a + b) c = Word.ofInt (a.toInt + op.onInt b.toInt c.toInt) := by
  have hsum : (a + b).toInt % k.card = (a.toInt + b.toInt) % k.card := by
    show (add.apply a b).toInt % k.card = _
    rw [apply_eq_ofInt, Word.toInt_ofInt_emod]
    rfl
  rw [op.apply_eq_ofInt_of_emod hsum rfl, onInt_add h]

theorem add_apply (op : ArithOp) (a : Word k) (b : Word l) (c : Word m) :
    a + op.apply b c = Word.ofInt (a.toInt + l.reduce (op.onInt b.toInt c.toInt)) := by
  show add.apply a (op.apply b c) = _
  rw [apply_eq_ofInt, apply_eq_ofInt, Word.toInt_ofInt]
  rfl

theorem apply_add_eq_iff (h : op ≠ mul) (a : Word k) (b : Word l) (c : Word m) :
    op.apply (a + b) c = a + op.apply b c ↔
      l.reduce (op.onInt b.toInt c.toInt) % k.card = op.onInt b.toInt c.toInt % k.card := by
  rw [apply_add h, add_apply, Word.ofInt_eq_ofInt_iff, Int.emod_add_cancel_left, eq_comm]

/-! ## All words -/

/-- Every kind has `one`, which takes an end of the middle kind's values out of it. -/
theorem exists_onInt_one_next (h : op ≠ mul) (l : Kind) :
    ∃ b : Word l, op.onInt b.toInt 1 = l.greatest + 1 ∨ op.onInt b.toInt 1 = l.least - 1 := by
  cases op with
  | add =>
    refine ⟨Word.ofInt l.greatest, .inl ?_⟩
    rw [Word.toInt_ofInt_of_represents ⟨l.least_le_greatest, Int.le_refl _⟩]
    rfl
  | sub =>
    refine ⟨Word.ofInt l.least, .inr ?_⟩
    rw [Word.toInt_ofInt_of_represents ⟨Int.le_refl _, l.least_le_greatest⟩]
    rfl
  | mul => exact absurd rfl h

theorem forall_apply_add_eq_iff (h : op ≠ mul) (k l m : Kind) :
    (∀ (a : Word k) (b : Word l) (c : Word m), op.apply (a + b) c = a + op.apply b c) ↔
      k.bits ≤ l.bits := by
  constructor
  · intro hall
    refine Nat.le_of_not_lt fun hlt => ?_
    -- zero, a word at an end of the middle kind, and one: the middle wraps and the left does not
    obtain ⟨b, hb⟩ := exists_onInt_one_next h l
    have heq := (apply_add_eq_iff h (Word.zero : Word k) b (Word.one : Word m)).1 (hall _ _ _)
    rw [Word.toInt_one] at heq
    exact Kind.reduce_emod_ne_of_next hlt hb heq
  · intro hle a b c
    rw [apply_add_eq_iff h]
    -- what the middle kind takes off is a multiple of the number of words on the left
    exact Kind.emod_card_of_le hle (l.reduce_emod _)

/-! ## Order -/

theorem cast_apply_eq_ofInt (op : ArithOp) (h : n.bits ≤ k.bits) (a : Word k) (b : Word l) :
    (op.apply a b).cast n = Word.ofInt (op.onInt a.toInt b.toInt) := by
  rw [apply_eq_ofInt, Word.cast_ofInt_of_le h]

end ArithOp

theorem Word.cast_add_comm (hk : n.bits ≤ k.bits) (hl : n.bits ≤ l.bits) (a : Word k)
    (b : Word l) : (a + b).cast n = (b + a).cast n := by
  calc (a + b).cast n = ofInt (a.toInt + b.toInt) := ArithOp.add.cast_apply_eq_ofInt hk a b
    _ = ofInt (b.toInt + a.toInt) := by rw [Int.add_comm]
    _ = (b + a).cast n := (ArithOp.add.cast_apply_eq_ofInt hl b a).symm

/-- **Sums across kinds regroup** exactly if `l`, the kind in the middle, is at least as wide
as `k`. The order of two operands decides no bit below the width of the narrower one. -/
theorem sums_regroup_iff (k l m : Kind) :
    ((∀ (a : Word k) (b : Word l) (c : Word m), a + b + c = a + (b + c)) ↔ k.bits ≤ l.bits) ∧
    ((∀ (a : Word k) (b : Word l) (c : Word m), a + b - c = a + (b - c)) ↔ k.bits ≤ l.bits) ∧
    (∀ n : Kind, n.bits ≤ min k.bits l.bits →
      ∀ (a : Word k) (b : Word l), (a + b).cast n = (b + a).cast n) ∧
    ∀ (op : ArithOp) (a : Word k) (b : Word l) (c : Word m),
      (do let s ← Datapath.add (.ofWord a) (.ofWord b); Datapath.arith op s (.ofWord c)) =
        .ok (.ofWord (op.apply (a + b) c)) ∧
      (do let s ← Datapath.arith op (.ofWord b) (.ofWord c); Datapath.add (.ofWord a) s) =
        .ok (.ofWord (a + op.apply b c)) := by
  have hadd : ArithOp.add ≠ .mul := by decide
  have hsub : ArithOp.sub ≠ .mul := by decide
  refine ⟨ArithOp.forall_apply_add_eq_iff hadd k l m, ArithOp.forall_apply_add_eq_iff hsub k l m,
    fun n hn a b => ?order, fun op a b c => ⟨?left, ?right⟩⟩
  case order =>
    exact Word.cast_add_comm (Nat.le_trans hn (Nat.min_le_left _ _))
      (Nat.le_trans hn (Nat.min_le_right _ _)) a b
  case left =>
    have hsum : Datapath.add (.ofWord a) (.ofWord b) = .ok (.ofWord (a + b)) :=
      Datapath.arith_ofWord .add a b
    rw [hsum, Datapath.ok_bind, Datapath.arith_ofWord]
  case right =>
    rw [Datapath.arith_ofWord, Datapath.ok_bind]
    exact Datapath.arith_ofWord .add a (op.apply b c)

theorem sums_regroup_iff_carry :
    (Kind.i16.bits ≤ Kind.u32.bits ∧
      (Word.ofInt (-7) : Word .i16) + (Word.greatest : Word .u32) - (Word.ofInt (-9) : Word .i8) =
        (Word.ofInt (-7) : Word .i16) +
          ((Word.greatest : Word .u32) - (Word.ofInt (-9) : Word .i8))) ∧
    (¬Kind.i16.bits ≤ Kind.u8.bits ∧
      ¬∀ (a : Word .i16) (b : Word .u8) (c : Word .i64), a + b + c = a + (b + c)) ∧
    Kind.i8.bits ≤ min Kind.i16.bits Kind.u8.bits ∧
    ((Word.ofInt 300 : Word .i16) + (Word.ofInt 200 : Word .u8)).cast .i8 =
      ((Word.ofInt 200 : Word .u8) + (Word.ofInt 300 : Word .i16)).cast .i8 := by
  obtain ⟨-, hwide, -⟩ := sums_regroup_iff .i16 .u32 .i8
  obtain ⟨hnarrow, -⟩ := sums_regroup_iff .i16 .u8 .i64
  obtain ⟨-, -, horder, -⟩ := sums_regroup_iff .i16 .u8 .i8
  have hle : Kind.i16.bits ≤ Kind.u32.bits := by decide
  have hnot : ¬Kind.i16.bits ≤ Kind.u8.bits := by decide
  have hmin : Kind.i8.bits ≤ min Kind.i16.bits Kind.u8.bits := by decide
  exact ⟨⟨hle, hwide.2 hle _ _ _⟩, ⟨hnot, mt hnarrow.1 hnot⟩, hmin, horder .i8 hmin _ _⟩

end MachineInt
