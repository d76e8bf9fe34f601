import Mathlib.Tactic.LinearCombination
import MachineInt.Proofs.Accumulation
import MachineInt.Proofs.Loop

/-!
# Sums over a counting loop

A loop whose body adds its index to an accumulator of any kind. The loop runs over the integers from
zero up to its bound, and the accumulator denotes their exact sum, reduced once. The sum is halved
as an integer, for there is no halving modulo a power of two.

* `double_sum_range`: twice the sum of the first numbers.
* `Word.times_yield`: a loop that is never left is a fold over its indices.
* `ArithStep.toInt_foldl_add`: what such a fold of sums comes to.
* `Tally.sum_visit`: the indices that a tally has summed when its loop was left early.
* `loop_sums_indices`: all of it (`Word.IndexSums`).
-/

set_option autoImplicit false

namespace MachineInt

variable {k l : Kind}

/-! ## Sums of integers -/

theorem double_sum_range (n : Nat) :
    2 * ((List.range n).map (Nat.cast : Nat → Int)).sum = n * (n - 1) := by
  induction n with
  | zero => rfl
  | succ n ih =>
    rw [List.range_succ, List.map_append, List.sum_append, Int.natCast_succ]
    simp only [List.map_cons, List.map_nil, List.sum_singleton]
    linear_combination ih

theorem sum_range_eq (n : Nat) :
    ((List.range n).map (Nat.cast : Nat → Int)).sum = n * (n - 1) / 2 := by
  have hdouble := double_sum_range n
  omega

/-! ## Folds -/

namespace ArithStep

def adding (i : Word k) : ArithStep := ⟨.add, k, i⟩

theorem foldl_add_eq_accumulate (xs : List (Word k)) (s : Word l) :
    xs.foldl (fun t i => t + i) s = s.accumulate (xs.map adding) := by
  rw [Word.accumulate, List.foldl_map]
  rfl

theorem exactResult_adding (m : Int) (xs : List (Word k)) :
    exactResult m (xs.map adding) = m + (xs.map Word.toInt).sum := by
  induction xs generalizing m with
  | nil => simp [exactResult]
  | cons i rest ih =>
    show exactResult (m + i.toInt) (rest.map adding) = _
    rw [ih, List.map_cons, List.sum_cons, Int.add_assoc]

theorem toInt_foldl_add (xs : List (Word k)) (s : Word l) :
    (xs.foldl (fun t i => t + i) s).toInt = l.reduce (s.toInt + (xs.map Word.toInt).sum) := by
  rw [foldl_add_eq_accumulate, toInt_accumulate, exactResult_adding]

end ArithStep

namespace Word

/-- The body that adds its index to the accumulator, of any kind `l`. -/
def addIndex (i : Word k) (t : Word l) : ForInStep (Word l) := .yield (t + i)

theorem times_yield {σ : Type} (f : σ → Word k → σ) (n : Word k) (s : σ) :
    n.times (fun i t => .yield (f t i)) s = (range zero n).foldl f s := by
  rw [times_eq_visit, value_visit]
  exact List.idRun_forIn_yield_eq_foldl ..

theorem times_addIndex (n : Word k) (s : Word l) :
    n.times addIndex s = (range zero n).foldl (fun t i => t + i) s := times_yield _ n s

theorem sum_take_range_zero (n : Word k) (limit : Nat) :
    (((range zero n).take limit).map toInt).sum =
      (min limit n.toInt.toNat : Nat) * ((min limit n.toInt.toNat : Nat) - 1 : Int) / 2 := by
  rw [List.map_take, map_toInt_range_zero, ← List.map_take, List.take_range, sum_range_eq]

theorem toInt_times_addIndex (n : Word k) (s : Word l) : (n.times addIndex s).toInt =
    l.reduce (s.toInt + (n.toInt.toNat : Int) * (n.toInt.toNat - 1) / 2) := by
  have hsum := n.sum_take_range_zero n.toInt.toNat
  rw [Nat.min_self, List.take_of_length_le (Nat.le_of_eq n.length_range_zero)] at hsum
  rw [times_addIndex, ArithStep.toInt_foldl_add, hsum]

/-- The numbers below a hundred come to 4950, which is nineteen times 256 and 86. -/
example : ((ofInt 100 : Word .i8).times addIndex (zero : Word .u8)).toInt = 86 := by
  rw [toInt_times_addIndex]
  decide

end Word

/-! ## Tallies -/

namespace Tally

/-- A tally sums the indices up to the one that makes `visitor` leave. -/
theorem sum_visit (limit : Nat) (xs : List (Word k)) (t : Tally k) :
    (visit (visitor limit) xs t).2.value.sum =
      (xs.take (limit - t.count)).foldl (fun s i => s + i) t.sum := by
  induction xs generalizing t with
  | nil => simp [visit, ForInStep.value]
  | cons i rest ih =>
    by_cases hlt : t.count < limit
    · have hbody : visitor limit i t = .yield (t.add i) := if_pos hlt
      obtain ⟨d, hd⟩ : ∃ d, limit - t.count = d + 1 := ⟨limit - t.count - 1, by omega⟩
      have hrest : limit - (t.add i).count = d := by
        show limit - (t.count + 1) = d
        omega
      rw [visit_cons_yield hbody, hd, List.take_succ_cons, List.foldl_cons]
      show (visit (visitor limit) rest (t.add i)).2.value.sum = _
      rw [ih, hrest]
      rfl
    · have hbody : visitor limit i t = .done { t with stopped := true } := if_neg hlt
      rw [visit_cons_done hbody, Nat.sub_eq_zero_of_le (by omega)]
      rfl

end Tally

/-- The loop of `n.times Word.addIndex` and the tally below `n`, for `m` the integer of the bound,
or zero if that is negative. The half is one of integers and leaves no rest (`double`). -/
structure Word.IndexSums (n : Word k) (l : Kind) (m : Int) : Prop where
  double : 2 * (m * (m - 1) / 2) = m * (m - 1)
  toInt_zero : (n.times addIndex (zero : Word l)).toInt = l.reduce (m * (m - 1) / 2)
  toNat_zero : ((n.times addIndex (zero : Word l)).toNat : Int) = m * (m - 1) / 2 % l.card
  toInt_start (s : Word l) : (n.times addIndex s).toInt = l.reduce (s.toInt + m * (m - 1) / 2)
  datapath (s : Word l) : ((range zero n).map ArithStep.adding).foldlM ArithStep.onSlot
    (.ofWord s) = .ok (.ofWord (n.times addIndex s))
  count_upTo (limit : Nat) : ((Tally.upTo n limit).count : Int) = min (limit : Int) m
  sum_upTo (limit : Nat) : (Tally.upTo n limit).sum.toInt =
    k.reduce (min (limit : Int) m * (min (limit : Int) m - 1) / 2)

theorem Tally.toInt_sum_upTo (n : Word k) (limit : Nat) :
    (upTo n limit).sum.toInt = k.reduce ((min limit n.toInt.toNat : Nat) *
      ((min limit n.toInt.toNat : Nat) - 1 : Int) / 2) := by
  have hsum := sum_visit limit (Word.range Word.zero n) empty
  change sum _ = ((Word.range Word.zero n).take limit).foldl _ Word.zero at hsum
  rw [upTo_eq, Word.times_eq_visit, hsum, ArithStep.toInt_foldl_add, Word.toInt_zero,
    Int.zero_add, n.sum_take_range_zero]

/-- **A loop sums its indices**: the accumulator wraps in each step and ends at half of `m` times
`m - 1`, reduced once. -/
theorem loop_sums_indices (n : Word k) (l : Kind) : n.IndexSums l (max n.toInt 0) := by
  have hloop (s : Word l) := n.toInt_times_addIndex s
  have hzero := hloop Word.zero
  rw [Word.toInt_zero, Int.zero_add] at hzero
  have hdouble := double_sum_range n.toInt.toNat
  rw [sum_range_eq] at hdouble
  have hmin (limit : Nat) : ((min limit n.toInt.toNat : Nat) : Int) =
      min (limit : Int) n.toInt.toNat := by omega
  rw [← Int.toNat_eq_max]
  exact
    { double := hdouble
      toInt_zero := hzero
      toNat_zero := by rw [Word.toNat_eq_toInt_emod, hzero, Kind.reduce_emod]
      toInt_start := hloop
      datapath := fun s => by
        rw [Word.times_addIndex, ArithStep.foldl_add_eq_accumulate]
        exact ArithStep.foldlM_onSlot s _
      count_upTo := fun limit => by rw [(Word.upTo_counts n limit).1, hmin]
      sum_upTo := fun limit => by rw [Tally.toInt_sum_upTo, hmin] }

end MachineInt
