import MachineInt.Tagged

/-!
# Words and the integers they denote

A word of kind `k` is what an integer leaves in `k.bits` bits: `Word.ofInt` and `Word.toInt` go
there and back, and every question about patterns becomes one about integers modulo `k.card`.

* `Kind.reduce_represents`, `Kind.reduce_of_represents`, `Kind.reduce_eq_reduce_iff`: reduction
  picks one integer of the kind from each class modulo `k.card`.
* `Word.toInt_ofInt`, `Word.ofInt_toInt`, `Word.toInt_inj`: a word and its integer determine
  each other, and `Word.ofInt` reduces.
* `Word.cast_eq_ofInt`: **a cast keeps the integer and reduces it**, whatever the two kinds are.
  The three branches of `Register.convert` are gone from here on.

A tagged word is the word of its own kind, its pattern kept in a register.

* `TaggedWord.ofRegister_eq`: making a tagged word is making a word.
* `TaggedWord.ofWord_word`, `TaggedWord.word_ofWord`: tagging a word and reading it back.
* `TaggedWord.cast_ofWord`: the conversion of tagged words is the cast of words.
-/

set_option autoImplicit false

namespace MachineInt

/-! ## Reduction -/

namespace Kind

variable {k : Kind} {m n : Int}

/-- The integer that a pattern below `k.card` denotes: a signed kind takes `k.card` off the upper
half of its patterns, an unsigned one reads them as they are. -/
def denote (k : Kind) (pattern : Nat) : Int :=
  if k.signed ∧ k.card ≤ 2 * pattern then pattern - k.card else pattern

theorem reduce_emod (k : Kind) (n : Int) : k.reduce n % k.card = n % k.card := by
  unfold reduce
  split
  · exact Int.bmod_emod
  · exact Int.emod_emod_of_dvd n (Int.dvd_refl _)

theorem reduce_represents (k : Kind) (n : Int) : k.Represents (k.reduce n) := by
  have hcard := k.card_eq
  have hpos := k.card_pos
  unfold Represents least greatest reduce
  split
  · have hlow := Int.le_bmod (x := n) hpos
    have hhigh := Int.bmod_lt (x := n) hpos
    omega
  · have hlow := Int.emod_nonneg n (b := k.card) (by omega)
    have hhigh := Int.emod_lt_of_pos n (b := k.card) (by omega)
    omega

theorem reduce_of_represents (h : k.Represents n) : k.reduce n = n := by
  have hcard := k.card_eq
  unfold Represents least greatest at h
  unfold reduce
  split <;> rename_i hs
  · simp only [hs, if_true] at h
    exact Int.bmod_eq_of_le (by omega) (by omega)
  · simp only [hs, Bool.false_eq_true, if_false] at h
    exact Int.emod_eq_of_lt (by omega) (by omega)

theorem reduce_eq_self_iff : k.reduce n = n ↔ k.Represents n :=
  ⟨fun h => h ▸ k.reduce_represents n, reduce_of_represents⟩

theorem reduce_eq_reduce_iff : k.reduce m = k.reduce n ↔ m % k.card = n % k.card := by
  constructor
  · intro h
    rw [← reduce_emod, h, reduce_emod]
  · intro h
    unfold reduce
    split
    · rw [← Int.emod_bmod m, h, Int.emod_bmod]
    · exact h

theorem emod_card_of_le {l : Kind} (hle : l.bits ≤ k.bits) (h : m % k.card = n % k.card) :
    m % l.card = n % l.card := by
  have hdvd : (l.card : Int) ∣ k.card := Int.ofNat_dvd.2 (card_dvd_card hle)
  rw [← Int.emod_emod_of_dvd m hdvd, h, Int.emod_emod_of_dvd n hdvd]

theorem card_emod_ne_zero {l : Kind} (h : l.bits < k.bits) : (l.card : Int) % k.card ≠ 0 := by
  have hlt : l.card < k.card := Nat.pow_lt_pow_right (by decide) h
  have hpos := l.card_pos
  rw [Int.emod_eq_of_lt (by omega) (by omega)]
  omega

theorem denote_mod_card (k : Kind) (p : Nat) : k.denote (p % k.card) = k.reduce p := by
  have hcard := k.card_eq
  have hlt := Nat.mod_lt p k.card_pos
  unfold denote reduce
  rw [← Int.emod_bmod, ← Int.natCast_emod]
  -- `bmod` takes the upper half of the remainders down, which are the patterns of negative words
  by_cases hs : k.signed = true
  · simp only [hs, true_and, if_true]
    rw [Int.bmod_def, Int.emod_eq_of_lt (by omega) (by omega)]
    split <;> split <;> omega
  · simp only [hs, Bool.false_eq_true, false_and, if_false]

end Kind

/-! ## Words -/

namespace Word

variable {k l : Kind}

theorem toNat_ofInt (n : Int) : ((ofInt n : Word k).toNat : Int) = n % k.card := by
  unfold toNat ofInt
  rw [BitVec.toNat_ofInt]
  exact Int.toNat_of_nonneg (Int.emod_nonneg _ (Int.natCast_ne_zero.2 (Nat.ne_of_gt k.card_pos)))

theorem toInt_ofInt (n : Int) : (ofInt n : Word k).toInt = k.reduce n := by
  unfold toInt Kind.reduce
  split
  · exact BitVec.toInt_ofInt n
  · exact toNat_ofInt n

theorem toInt_ofInt_emod (n : Int) : (ofInt n : Word k).toInt % k.card = n % k.card := by
  rw [toInt_ofInt, k.reduce_emod]

theorem toInt_ofInt_of_represents {n : Int} (h : k.Represents n) :
    (ofInt n : Word k).toInt = n := by
  rw [toInt_ofInt, Kind.reduce_of_represents h]

@[simp] theorem ofInt_toInt (a : Word k) : ofInt a.toInt = a := by
  unfold toInt ofInt
  split
  · rw [BitVec.ofInt_toInt]
  · rw [BitVec.ofInt_natCast, BitVec.ofNat_toNat, BitVec.setWidth_eq]

theorem toInt_inj {a b : Word k} : a.toInt = b.toInt ↔ a = b := by
  constructor
  · intro h
    rw [← ofInt_toInt a, h, ofInt_toInt]
  · intro h
    rw [h]

theorem ofInt_eq_ofInt_iff {m n : Int} :
    (ofInt m : Word k) = ofInt n ↔ m % k.card = n % k.card := by
  rw [← toInt_inj, toInt_ofInt, toInt_ofInt, Kind.reduce_eq_reduce_iff]

@[simp] theorem toInt_zero : (zero : Word k).toInt = 0 := by
  unfold toInt zero
  rw [BitVec.toInt_zero, BitVec.toNat_zero, Int.natCast_zero, ite_self]

theorem toInt_least : (least : Word k).toInt = k.least := by
  unfold toInt least Kind.least
  split
  · rw [BitVec.toInt_intMin_of_pos k.bits_pos, k.half_card]
    exact congrArg Neg.neg (Int.natCast_pow 2 (k.bits - 1)).symm
  · rfl

theorem ofInt_zero : (ofInt 0 : Word k) = zero := by
  rw [← toInt_zero (k := k), ofInt_toInt]

theorem ofInt_eq_zero_iff {n : Int} : (ofInt n : Word k) = zero ↔ n % k.card = 0 := by
  rw [← ofInt_zero, ofInt_eq_ofInt_iff, Int.zero_emod]

theorem ofInt_one : (ofInt 1 : Word k) = one := Word.ext (BitVec.ofInt_ofNat k.bits 1)

theorem toInt_one : (one : Word k).toInt = 1 := by
  rw [← ofInt_one, toInt_ofInt_of_represents k.one_represents]

theorem toNat_eq_toInt_emod (a : Word k) : (a.toNat : Int) = a.toInt % k.card := by
  rw [← toNat_ofInt, ofInt_toInt]

theorem ofInt_toNat (a : Word k) : ofInt a.toNat = a := by
  rw [← ofInt_toInt a, ofInt_eq_ofInt_iff, ofInt_toInt, toNat_eq_toInt_emod]
  exact Int.emod_emod_of_dvd _ (Int.dvd_refl _)

theorem toNat_inj {a b : Word k} : a.toNat = b.toNat ↔ a = b := by
  constructor
  · intro h
    rw [← ofInt_toNat a, h, ofInt_toNat]
  · intro h
    rw [h]

theorem toInt_ofRegister (r : Register) :
    (ofRegister r : Word k).toInt = k.denote (r.toNat % k.card) := by
  rw [Kind.denote_mod_card, ← toInt_ofInt, toInt_inj, ← ofInt_toInt (ofRegister r),
    ofInt_eq_ofInt_iff, ← toNat_eq_toInt_emod, toNat_ofRegister, Int.natCast_emod]

theorem toInt_eq_denote (a : Word k) : a.toInt = k.denote a.toNat := by
  rw [← ofRegister_register a, toInt_ofRegister, toNat_ofRegister]

/-! ## Signs -/

theorem isNegative_of_unsigned (hs : k.signed = false) (a : Word k) : a.isNegative = false := by
  unfold isNegative
  rw [hs, Bool.false_and]

theorem signed_of_isNegative {a : Word k} (h : a.isNegative = true) : k.signed = true :=
  (Bool.and_eq_true_iff.1 h).1

theorem isNegative_iff (a : Word k) : a.isNegative = true ↔ a.toInt < 0 := by
  unfold isNegative toInt
  split
  · rename_i hs
    rw [hs, Bool.true_and, BitVec.msb_eq_toInt, decide_eq_true_eq]
  · rename_i hs
    simp only [hs, Bool.false_and, Bool.false_eq_true, false_iff]
    omega

theorem toInt_of_not_isNegative {a : Word k} (h : ¬a.isNegative) : a.toInt = a.toNat := by
  have hcard := k.card_eq
  have hrep := a.toInt_represents
  rw [isNegative_iff] at h
  rw [toNat_eq_toInt_emod, Int.emod_eq_of_lt (by omega)]
  unfold Kind.Represents Kind.greatest at hrep
  split at hrep <;> omega

theorem toInt_of_isNegative {a : Word k} (h : a.isNegative = true) :
    a.toInt = a.toNat - k.card := by
  have hdenote := a.toInt_eq_denote
  rw [isNegative_iff] at h
  unfold Kind.denote at hdenote
  split at hdenote
  · exact hdenote
  · omega

/-! ## Casts -/

theorem getLsbD_ofInt_toInt (a : Word k) (i : Nat) : (ofInt a.toInt : Word l).bits.getLsbD i =
    (decide (i < l.bits) && if i < k.bits then a.bits.getLsbD i else a.isNegative) := by
  unfold ofInt toInt isNegative
  split
  · rename_i hs
    show (a.bits.signExtend l.bits).getLsbD i = _
    rw [BitVec.getLsbD_signExtend, hs, Bool.true_and]
  · rename_i hs
    rw [BitVec.ofInt_natCast, BitVec.getLsbD_ofNat, BitVec.testBit_toNat, Bool.eq_false_iff.2 hs]
    by_cases hi : i < k.bits
    · simp [hi]
    · simp [hi, BitVec.getLsbD_of_ge a.bits i (by omega)]

end Word

theorem Register.convert_eq (k l : Kind) (r : Register) :
    r.convert k l = (Word.ofInt (Word.ofRegister r : Word k).toInt : Word l).register := by
  apply BitVec.eq_of_getLsbD_eq
  intro i _
  -- both sides have the bits of the source, then its sign, then zeros above the target
  rw [getLsbD_convert, Word.getLsbD_register, Word.getLsbD_ofInt_toInt, Word.isNegative_ofRegister]
  unfold Word.ofRegister
  rw [BitVec.getLsbD_setWidth]
  by_cases hi : i < k.bits
  · simp [hi]
  · simp [hi]

/-- **A cast keeps the integer** of `a` and reduces it to `l`. -/
theorem Word.cast_eq_ofInt {k : Kind} (l : Kind) (a : Word k) : a.cast l = ofInt a.toInt := by
  unfold cast
  rw [Register.convert_eq, ofRegister_register, ofRegister_register]

theorem Word.toInt_cast {k : Kind} (l : Kind) (a : Word k) :
    (a.cast l).toInt = l.reduce a.toInt := by
  rw [cast_eq_ofInt, toInt_ofInt]

/-- The bits of a cast: those of `a`, then its sign. -/
theorem Word.getLsbD_cast {k : Kind} (l : Kind) (a : Word k) (i : Nat) :
    (a.cast l).bits.getLsbD i =
      (decide (i < l.bits) && if i < k.bits then a.bits.getLsbD i else a.isNegative) := by
  rw [cast_eq_ofInt, getLsbD_ofInt_toInt]

theorem Word.cast_ofInt_of_le {k l : Kind} (h : l.bits ≤ k.bits) (n : Int) :
    (ofInt n : Word k).cast l = ofInt n := by
  -- what the first reduction takes off, a narrower kind takes off anyway
  rw [cast_eq_ofInt, ofInt_eq_ofInt_iff, toInt_ofInt]
  exact Kind.emod_card_of_le h (k.reduce_emod n)

@[simp] theorem Word.cast_zero (k l : Kind) : (zero : Word k).cast l = zero := by
  rw [cast_eq_ofInt, toInt_zero, ofInt_zero]

@[simp] theorem Word.cast_self {k : Kind} (a : Word k) : a.cast k = a := by
  rw [cast_eq_ofInt, ofInt_toInt]

/-! ## Tagged words as words -/

namespace TaggedWord

variable {k l : Kind}

theorem register_ofWord (a : Word k) : (ofWord a).register = a.register := by
  show a.register &&& k.mask = a.register
  rw [← Word.register_ofRegister, Word.ofRegister_register]

theorem ofRegister_eq (k : Kind) (r : Register) :
    ofRegister k r = ofWord (Word.ofRegister r : Word k) := by
  refine TaggedWord.ext rfl ?_
  rw [register_ofWord, Word.register_ofRegister]
  rfl

theorem cast_ofWord (l : Kind) (a : Word k) : (ofWord a).cast l = ofWord (a.cast l) := by
  show ofRegister l ((ofWord a).register.convert k l) = ofRegister l (a.cast l).register
  rw [register_ofWord, Register.convert_eq, Word.ofRegister_register, Word.cast_eq_ofInt]

theorem toWord_ofWord (l : Kind) (a : Word k) : (ofWord a).toWord l = a.cast l := by
  show Word.ofRegister ((ofWord a).register.convert k l) = a.cast l
  rw [register_ofWord]
  rfl

theorem word_ofWord (a : Word k) : (ofWord a).toWord k = a := by
  rw [toWord_ofWord, Word.cast_self]

theorem word_eq (t : TaggedWord) : t.word = Word.ofRegister t.register := by
  show Word.ofRegister (t.register.convert t.kind t.kind) = _
  rw [Register.convert_eq, Word.ofRegister_register, Word.ofInt_toInt]

theorem ofWord_word (t : TaggedWord) : ofWord t.word = t := by
  have hreg : (ofWord t.word).register = t.register := by
    rw [register_ofWord, word_eq]
    apply BitVec.eq_of_toNat_eq
    rw [Word.toNat_register, Word.toNat_ofRegister, Nat.mod_eq_of_lt t.fits]
  exact TaggedWord.ext rfl hreg

theorem ofWord_inj {a b : Word k} : ofWord a = ofWord b ↔ a = b := by
  constructor
  · intro h
    have hreg := congrArg register h
    rw [register_ofWord, register_ofWord] at hreg
    rw [← Word.ofRegister_register a, hreg, Word.ofRegister_register]
  · intro h
    rw [h]

end TaggedWord

end MachineInt
