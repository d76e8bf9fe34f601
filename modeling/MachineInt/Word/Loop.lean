import MachineInt.Word.Arith

/-!
# Counting loops

`Word.times n body` runs `body` once for every index from zero up to, but excluding, `n`. The
index advances by wrapping addition of one, and the body may leave the loop early. A `Tally` records
which indices a loop went through, and whether it was left early.

Main statement: `toInt_next`, the index never wraps while it is below `n`, which is why the loop
ends even when `n` is the greatest word of its kind.
-/

set_option autoImplicit false

namespace MachineInt

namespace Word

variable {k : Kind} {σ : Type}

/-- The word plus one, which wraps after `greatest`. -/
def next (a : Word k) : Word k := ⟨a.bits + 1#k.bits⟩

theorem toInt_next {i n : Word k} (h : i < n) : i.next.toInt = i.toInt + 1 := by
  have hi := i.toInt_represents
  have hn := n.toInt_represents
  have hlt := (lt_iff_toInt i n).mp h
  have hbits := k.two_le_bits
  have hcard := k.card_eq
  unfold Kind.Represents Kind.least Kind.greatest at hi hn
  unfold next toInt at *
  split
  · rename_i hs
    simp only [hs, if_true] at hi hn hlt
    rw [BitVec.toInt_add, BitVec.toInt_one (by omega)]
    change (i.bits.toInt + 1).bmod k.card = i.bits.toInt + 1
    rw [Int.bmod_eq_of_le] <;> omega
  · rename_i hs
    simp only [hs, Bool.false_eq_true, if_false] at hi hn hlt
    have hone : (1#k.bits).toNat = 1 := by
      rw [BitVec.toNat_ofNat, Nat.mod_eq_of_lt]
      exact Nat.one_lt_two_pow (by omega)
    rw [BitVec.toNat_add, hone]
    change ((i.bits.toNat + 1) % k.card : Nat) = (i.bits.toNat : Int) + 1
    rw [Nat.mod_eq_of_lt (by omega)]
    exact Int.natCast_succ _

def timesFrom (n : Word k) (body : Word k → σ → ForInStep σ) (i : Word k) (s : σ) : σ :=
  if _h : i < n then
    match body i s with
    | .done s => s
    | .yield s => timesFrom n body i.next s
  else s
termination_by (n.toInt - i.toInt).toNat
decreasing_by
  have hnext := toInt_next ‹i < n›
  have hlt := (lt_iff_toInt i n).mp ‹i < n›
  omega

/-- Runs the body on every index from zero up to, but excluding, `n`, threading a state. -/
def times (n : Word k) (body : Word k → σ → ForInStep σ) (s : σ) : σ := timesFrom n body zero s

end Word

/-! ## Tallies -/

/-- What a counting loop goes through, for a body that counts its calls. -/
structure Tally (k : Kind) where
  count : Nat
  /-- The first indices, five at most. -/
  first : List (Word k)
  last : Option (Word k)
  sum : Word k
  /-- The loop was left before its end. -/
  stopped : Bool

namespace Tally

variable {k : Kind}

def empty : Tally k := ⟨0, [], none, Word.zero, false⟩

def add (t : Tally k) (i : Word k) : Tally k where
  count := t.count + 1
  first := if t.count < 5 then t.first ++ [i] else t.first
  last := some i
  sum := t.sum + i
  stopped := t.stopped

/-- The tally of the loop up to `n` that is left when an index comes after `limit` others. -/
def upTo (n : Word k) (limit : Nat) : Tally k :=
  let visit (i : Word k) (t : Tally k) :=
    if t.count < limit then .yield (t.add i) else .done { t with stopped := true }
  n.times visit empty

end Tally

end MachineInt
