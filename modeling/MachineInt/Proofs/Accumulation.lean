import MachineInt.Proofs.Datapath.Script

/-!
# Accumulated arithmetic

An accumulator of one kind takes steps of arithmetic with operands of any kinds. It wraps in every
step, and yet denotes the exact result reduced once at the end.

* `toInt_apply_emod`: one step keeps the accumulator congruent to the exact result, modulo the
  number of words of its kind.
* `toInt_accumulate_emod`: so does a run, by induction on its steps.
* `exactResult_perm`: without products the order of the steps is of no account.
* `accumulate_reduces`: the integer of the accumulator, the same on the datapath and in a script.
-/

set_option autoImplicit false

namespace MachineInt

variable {k : Kind}

/-! ## Steps of arithmetic -/

/-- An `ArithOp` with its right operand, which is of any kind. -/
structure ArithStep where
  op : ArithOp
  kind : Kind
  word : Word kind

namespace ArithStep

def apply (a : Word k) (s : ArithStep) : Word k := s.op.apply a s.word

def onInt (n : Int) (s : ArithStep) : Int := s.op.onInt n s.word.toInt

def onSlot (a : Datapath.Slot) (s : ArithStep) : Datapath.Run Datapath.Slot :=
  Datapath.arith s.op a (.ofWord s.word)

/-- The `Step` of a script that has the word as a literal operand. -/
def toStep (s : ArithStep) : Step := .binary (.arith s.op) (.literal (.ofWord s.word))

/-- The result of the steps on integers, from `n`. -/
def exactResult (n : Int) (steps : List ArithStep) : Int := steps.foldl onInt n

end ArithStep

/-- The accumulator after the steps, from `a`, each of which wraps. -/
def Word.accumulate (a : Word k) (steps : List ArithStep) : Word k := steps.foldl ArithStep.apply a

theorem Operand.resolve_literal (history : Array TaggedWord) (t : TaggedWord) :
    (literal t).resolve history = .ok t := by
  show Except.ok (TaggedWord.ofRegister t.kind t.register) = _
  rw [TaggedWord.ofRegister_eq, ← TaggedWord.word_eq, TaggedWord.ofWord_word]

namespace ArithStep

/-! ## Congruence -/

/-- **One step** keeps the congruence of `a` with the exact result `n`. -/
theorem toInt_apply_emod {a : Word k} {n : Int} (s : ArithStep)
    (h : a.toInt % k.card = n % k.card) : (s.apply a).toInt % k.card = s.onInt n % k.card := by
  calc (s.apply a).toInt % k.card
      = k.reduce (s.op.onInt a.toInt s.word.toInt) % k.card := by
        rw [apply, ArithOp.apply_eq_ofInt, Word.toInt_ofInt]
    _ = s.op.onInt a.toInt s.word.toInt % k.card := k.reduce_emod _
    _ = s.onInt n % k.card := s.op.onInt_emod h rfl

theorem toInt_accumulate_emod {a : Word k} {n : Int} (steps : List ArithStep)
    (h : a.toInt % k.card = n % k.card) :
    (a.accumulate steps).toInt % k.card = exactResult n steps % k.card := by
  -- each step keeps the congruence with the exact result, whatever accumulator it starts from
  induction steps generalizing a n with
  | nil => exact h
  | cons s rest ih => exact ih (s.toInt_apply_emod h)

theorem toInt_accumulate (a : Word k) (steps : List ArithStep) :
    (a.accumulate steps).toInt = k.reduce (exactResult a.toInt steps) := by
  rw [← Kind.reduce_of_represents (a.accumulate steps).toInt_represents,
    Kind.reduce_eq_reduce_iff]
  exact toInt_accumulate_emod steps rfl

/-! ## Order -/

theorem onInt_right_comm {s s' : ArithStep} (h : s.op ≠ .mul) (h' : s'.op ≠ .mul) (n : Int) :
    s'.onInt (s.onInt n) = s.onInt (s'.onInt n) := by
  obtain ⟨d, hd⟩ := ArithOp.onInt_eq_add h s.word.toInt
  obtain ⟨d', hd'⟩ := ArithOp.onInt_eq_add h' s'.word.toInt
  unfold onInt
  rw [hd, hd', hd, hd', Int.add_right_comm]

theorem exactResult_perm {steps steps' : List ArithStep} (h : ∀ s ∈ steps, s.op ≠ .mul)
    (hperm : steps.Perm steps') (n : Int) : exactResult n steps = exactResult n steps' :=
  hperm.foldl_eq' (fun s hs s' hs' m => onInt_right_comm (h s hs) (h s' hs') m) n

theorem accumulate_perm {steps steps' : List ArithStep} (h : ∀ s ∈ steps, s.op ≠ .mul)
    (hperm : steps.Perm steps') (a : Word k) : a.accumulate steps = a.accumulate steps' := by
  rw [← Word.toInt_inj, toInt_accumulate, toInt_accumulate, exactResult_perm h hperm]

/-! ## The datapath and scripts -/

theorem foldlM_onSlot (a : Word k) (steps : List ArithStep) :
    steps.foldlM onSlot (Datapath.Slot.ofWord a) = .ok (.ofWord (a.accumulate steps)) := by
  induction steps generalizing a with
  | nil => rfl
  | cons s rest ih =>
    have hstep : onSlot (.ofWord a) s = .ok (.ofWord (s.apply a)) :=
      Datapath.arith_ofWord s.op a s.word
    rw [List.foldlM_cons, hstep, Datapath.ok_bind, ih]
    rfl

theorem apply_toStep (history : Array TaggedWord) (a : Word k) (s : ArithStep) :
    s.toStep.apply history (.ofWord a) = .ok (.ofWord (s.apply a)) := by
  show (do
    let b ← (Operand.literal (.ofWord s.word)).resolve history
    let c ← (BinaryOp.arith s.op).apply (TaggedWord.ofWord a).word b.word
    pure (TaggedWord.ofWord c)) = _
  rw [Operand.resolve_literal]
  show Except.ok (TaggedWord.ofWord (s.op.apply ((TaggedWord.ofWord a).toWord k)
    ((TaggedWord.ofWord s.word).toWord s.kind))) = _
  rw [TaggedWord.word_ofWord, TaggedWord.word_ofWord]
  rfl

/-- The last result of a script of such steps is the `accumulate` of all of them. -/
theorem getLast?_runFrom (history : Array TaggedWord) (a : Word k) (steps : List ArithStep)
    (s : ArithStep) :
    (Script.runFrom history (.ofWord a) ((steps ++ [s]).map toStep)).getLast? =
      some (.ok (.ofWord (a.accumulate (steps ++ [s])))) := by
  induction steps generalizing history a with
  | nil =>
    show (Script.runFrom history (.ofWord a) [s.toStep]).getLast? = _
    rw [Script.runFrom, apply_toStep]
    rfl
  | cons s' rest ih =>
    show (Script.runFrom history (.ofWord a) (s'.toStep :: (rest ++ [s]).map toStep)).getLast? = _
    rw [Script.runFrom, apply_toStep]
    simp only
    rw [List.getLast?_cons, ih]
    rfl

end ArithStep

/-- **Arithmetic over any run**: the accumulator wraps in each step, and denotes `exactResult`
reduced once. Steps without products may be taken in any order, and the datapath and a script take
them alike. -/
theorem accumulate_reduces (a : Word k) (steps : List ArithStep) :
    (a.accumulate steps).toInt = k.reduce (ArithStep.exactResult a.toInt steps) ∧
    (∀ steps' : List ArithStep, steps.Perm steps' → (∀ s ∈ steps, s.op ≠ .mul) →
      a.accumulate steps' = a.accumulate steps) ∧
    steps.foldlM ArithStep.onSlot (.ofWord a) = .ok (.ofWord (a.accumulate steps)) ∧
    ∀ s, (Script.run (.ofWord a) ((steps ++ [s]).map ArithStep.toStep)).getLast? =
      some (.ok (.ofWord (a.accumulate (steps ++ [s])))) := by
  refine ⟨ArithStep.toInt_accumulate a steps, fun steps' hperm h => ?_,
    ArithStep.foldlM_onSlot a steps, fun s => ArithStep.getLast?_runFrom _ a steps s⟩
  exact (ArithStep.accumulate_perm h hperm a).symm

def mixedSums : List ArithStep :=
  [⟨.add, .i8, Word.ofInt (-7)⟩, ⟨.sub, .u64, Word.ofInt 300⟩, ⟨.add, .i32, Word.ofInt 1000⟩]

theorem accumulate_reduces_mixedSums :
    mixedSums.Perm mixedSums.reverse ∧ (∀ s ∈ mixedSums, s.op ≠ .mul) ∧
    ((Word.ofInt 250 : Word .u8).accumulate mixedSums).toInt = 175 ∧
    (Word.ofInt 250 : Word .u8).accumulate mixedSums.reverse =
      (Word.ofInt 250 : Word .u8).accumulate mixedSums := by
  obtain ⟨hint, horder, -⟩ := accumulate_reduces (Word.ofInt 250 : Word .u8) mixedSums
  have hperm : mixedSums.Perm mixedSums.reverse := (List.reverse_perm _).symm
  have hsums : ∀ s ∈ mixedSums, s.op ≠ .mul := by decide
  have hexact :
      Kind.u8.reduce (ArithStep.exactResult (Word.ofInt 250 : Word .u8).toInt mixedSums) = 175 := by
    decide
  exact ⟨hperm, hsums, hint.trans hexact, horder _ hperm hsums⟩

end MachineInt
