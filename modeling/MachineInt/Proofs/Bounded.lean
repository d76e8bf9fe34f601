import MachineInt.Bounded
import MachineInt.Proofs.Conversion
import Mathlib.Logic.Function.Basic

/-!
# Bounded integers and words

Every way between the integers of a kind and the words of a kind keeps the integer and reduces it.
The ways agree where their domains meet, and each integer of a kind is one word of it.

* `truncate_eq_ofInt`, `castToWord_eq_ofInt`: from integers to words, whatever the sign leaves in
  the register above the integer's kind (`getLsbD_register`).
* `eq_castOfWord_iff`: from words to integers, by congruence.
* `bijective_toWord`, `castOfWord_castToWord_iff`, `castToWord_castOfWord_iff`: there and back.
* `conversions_agree`: all of it (`ConversionLaws`), with the steps of the datapath.
-/

set_option autoImplicit false

namespace MachineInt

theorem Word.ofRegister_ofInt {k : Kind} (n : Int) :
    (ofRegister (BitVec.ofInt 128 n) : Word k) = ofInt n := by
  have hregister : ((BitVec.ofInt 128 n).toNat : Int) = n % Kind.u128.card :=
    toNat_ofInt (k := .u128) n
  apply toNat_inj.1
  apply Int.natCast_inj.1
  rw [toNat_ofInt, toNat_ofRegister, Int.natCast_emod, hregister]
  exact Int.emod_emod_of_dvd n (Int.ofNat_dvd.2 (Kind.card_dvd_card k.bits_le))

theorem Kind.represents_u128_of_nonneg {k : Kind} {n : Int} (h : k.Represents n) (hn : 0 ≤ n) :
    Kind.u128.Represents n := by
  have hcard := k.card_eq
  have hle : k.card ≤ Kind.u128.card := card_le_card k.bits_le
  refine ⟨hn, Int.le_trans h.2 ?_⟩
  show k.greatest ≤ Kind.u128.card - 1
  unfold greatest
  split <;> omega

namespace Bounded

variable {k l m : Kind}

/-! ## From integers to words -/

theorem truncate_eq_ofInt (l : Kind) (p : Bounded k) : p.truncate l = .ofInt p.val :=
  Word.ofRegister_ofInt p.val

@[simp] theorem toInt_toWord (p : Bounded k) : p.toWord.toInt = p.val := by
  show (p.truncate k).toInt = p.val
  rw [truncate_eq_ofInt, Word.toInt_ofInt_of_represents p.represents]

/-- The register has the word of `p`, and its sign in all the bits above. -/
theorem getLsbD_register (p : Bounded k) (i : Nat) : p.register.getLsbD i =
    (decide (i < 128) && if i < k.bits then p.toWord.bits.getLsbD i else decide (p.val < 0)) := by
  have hsign : p.toWord.isNegative = decide (p.val < 0) := by
    rw [Bool.eq_iff_iff, Word.isNegative_iff, toInt_toWord, decide_eq_true_eq]
  -- the register is the pattern that the integer has in the widest signed kind
  have hbit := Word.getLsbD_ofInt_toInt (l := .i128) p.toWord i
  rw [toInt_toWord, hsign] at hbit
  exact hbit

theorem castToWord_eq_cast (l : Kind) (p : Bounded k) : p.castToWord l = p.toWord.cast l := by
  unfold castToWord
  rw [Register.convert_eq, Word.ofRegister_register, Word.cast_eq_ofInt]
  rfl

theorem castToWord_eq_ofInt (l : Kind) (p : Bounded k) : p.castToWord l = .ofInt p.val := by
  rw [castToWord_eq_cast, Word.cast_eq_ofInt, toInt_toWord]

/-- **Ways from integers to words agree**: only `p.val` counts, not its kind. -/
theorem castToWord_eq_truncate {p : Bounded k} {q : Bounded m} (h : q.val = p.val) (l : Kind) :
    p.castToWord l = q.truncate l := by
  rw [castToWord_eq_ofInt, truncate_eq_ofInt, h]

/-! ## From words to integers -/

@[simp] theorem val_ofWord (a : Word k) : (ofWord a).val = a.toInt := by
  show (Word.ofRegister a.register : Word k).toInt = a.toInt
  rw [Word.ofRegister_register]

theorem castOfWord_eq_ofWord (l : Kind) (a : Word k) : castOfWord l a = ofWord (a.cast l) := by
  apply Bounded.ext
  rw [val_ofWord]
  rfl

/-- **The integer that a word converts to** is the one of kind `l` that is congruent to it. -/
theorem eq_castOfWord_iff (q : Bounded l) (a : Word k) :
    q = castOfWord l a ↔ q.val % l.card = a.toInt % l.card := by
  rw [Bounded.ext_iff, castOfWord_eq_ofWord, val_ofWord, Word.toInt_cast,
    ← Kind.reduce_eq_reduce_iff, Kind.reduce_of_represents q.represents]

/-! ## There and back -/

@[simp] theorem ofWord_toWord (p : Bounded k) : ofWord p.toWord = p := by
  apply Bounded.ext
  rw [val_ofWord, toInt_toWord]

@[simp] theorem toWord_ofWord (a : Word k) : (ofWord a).toWord = a := by
  rw [← Word.toInt_inj, toInt_toWord, val_ofWord]

theorem bijective_toWord (k : Kind) : Function.Bijective (toWord : Bounded k → Word k) :=
  Function.bijective_iff_has_inverse.2 ⟨ofWord, ofWord_toWord, toWord_ofWord⟩

theorem bijective_ofWord (k : Kind) : Function.Bijective (ofWord : Word k → Bounded k) :=
  Function.bijective_iff_has_inverse.2 ⟨toWord, toWord_ofWord, ofWord_toWord⟩

theorem castOfWord_castToWord_iff (k l : Kind) :
    (∀ p : Bounded k, castOfWord k (p.castToWord l) = p) ↔ k.bits ≤ l.bits := by
  -- the words of a kind are its integers, so this is about casts there and back
  rw [← Word.cast_cast_self_iff, (bijective_toWord k).surjective.forall]
  apply forall_congr'
  intro p
  rw [castToWord_eq_cast, castOfWord_eq_ofWord, ← (bijective_toWord k).injective.eq_iff,
    toWord_ofWord]

theorem castToWord_castOfWord_iff (k l : Kind) :
    (∀ a : Word l, (castOfWord k a).castToWord l = a) ↔ l.bits ≤ k.bits := by
  rw [← Word.cast_cast_self_iff]
  apply forall_congr'
  intro a
  rw [castOfWord_eq_ofWord, castToWord_eq_cast, toWord_ofWord]

/-- The word that `p` converts to: its pattern, the ways to it, and the register that a wider kind
shares with it. -/
structure ToWordLaws (l : Kind) (p : Bounded k) : Prop where
  pattern : ((p.castToWord l).register.toNat : Int) = p.val % l.card
  eq_cast : p.castToWord l = p.toWord.cast l
  truncate_i128 (h : Kind.i128.Represents p.val) :
    ∃ q : Bounded .i128, q.val = p.val ∧ p.castToWord l = q.truncate l
  truncate_u128 (h : 0 ≤ p.val) :
    ∃ q : Bounded .u128, q.val = p.val ∧ p.castToWord l = q.truncate l
  sign_above (i : Nat) (hi : k.bits ≤ i) (hlt : i < 128) :
    p.register.getLsbD i = decide (p.val < 0)
  cast_datapath : Datapath.cast l ⟨k, p.register⟩ = .ok (.ofWord (p.castToWord l))
  keep_datapath : Datapath.keep l p.register = .ok (.ofWord (p.truncate l))

/-- The integer that `a` converts to: the only one of its kind that is congruent to `a`. -/
structure OfWordLaws (k : Kind) {l : Kind} (a : Word l) : Prop where
  eq_iff (q : Bounded k) : q = castOfWord k a ↔ q.val % k.card = a.toInt % k.card
  eq_cast : castOfWord k a = ofWord (a.cast k)
  cast_datapath : Datapath.cast k (.ofWord a) = .ok (.ofWord (a.cast k))

/-- `ToWordLaws` and `OfWordLaws` for all integers of `k` and words of `l`, and when a conversion
there and back changes nothing. -/
structure ConversionLaws (k l : Kind) : Prop where
  toWordLaws (p : Bounded k) : p.ToWordLaws l
  ofWordLaws (a : Word l) : OfWordLaws k a
  back_iff : (∀ p : Bounded k, castOfWord k (p.castToWord l) = p) ↔ k.bits ≤ l.bits
  back_word_iff : (∀ a : Word l, (castOfWord k a).castToWord l = a) ↔ l.bits ≤ k.bits
  bijective_toWord : Function.Bijective (toWord : Bounded k → Word k)
  toInt_toWord (p : Bounded k) : p.toWord.toInt = p.val
  bijective_ofWord : Function.Bijective (ofWord : Word k → Bounded k)
  val_ofWord (a : Word k) : (ofWord a).val = a.toInt
  ofWord_toWord (p : Bounded k) : ofWord p.toWord = p
  toWord_ofWord (a : Word k) : (ofWord a).toWord = a

/-- **Bounded integers and words** convert into each other by congruence: `ConversionLaws` for every
two kinds. -/
theorem conversions_agree (k l : Kind) : ConversionLaws k l where
  toWordLaws p :=
    { pattern := by rw [castToWord_eq_ofInt, Word.toNat_register, Word.toNat_ofInt]
      eq_cast := castToWord_eq_cast l p
      truncate_i128 := fun h => ⟨⟨p.val, h⟩, rfl, castToWord_eq_truncate rfl l⟩
      truncate_u128 := fun h =>
        ⟨⟨p.val, Kind.represents_u128_of_nonneg p.represents h⟩, rfl, castToWord_eq_truncate rfl l⟩
      sign_above := fun i hi hlt => by
        rw [getLsbD_register, decide_eq_true hlt, if_neg (by omega), Bool.true_and]
      cast_datapath := Datapath.cast_eq_ofWord l ⟨k, p.register⟩
      keep_datapath := Datapath.keep_eq_ofWord l p.register }
  ofWordLaws a :=
    { eq_iff := fun q => eq_castOfWord_iff q a
      eq_cast := castOfWord_eq_ofWord k a
      cast_datapath := Datapath.cast_ofWord k a }
  back_iff := castOfWord_castToWord_iff k l
  back_word_iff := castToWord_castOfWord_iff k l
  bijective_toWord := Bounded.bijective_toWord k
  toInt_toWord := Bounded.toInt_toWord
  bijective_ofWord := Bounded.bijective_ofWord k
  val_ofWord := Bounded.val_ofWord
  ofWord_toWord := Bounded.ofWord_toWord
  toWord_ofWord := Bounded.toWord_ofWord

theorem conversions_agree_minus_one :
    (Kind.i128.Represents (-1) ∧ ∃ (p : Bounded .i32) (q : Bounded .i128), p.val = -1 ∧ q.val = -1 ∧
      p.castToWord .u8 = q.truncate .u8 ∧ (p.castToWord .u8).register.toNat = 255 ∧
      p.register.getLsbD 127 = true) ∧
    (0 : Int) ≤ 300 ∧ ∃ (p : Bounded .u16) (q : Bounded .u128), p.val = 300 ∧ q.val = 300 ∧
      p.castToWord .i8 = q.truncate .i8 ∧ castOfWord .u16 (p.castToWord .i8) ≠ p := by
  have hsigned : Kind.i128.Represents (-1) := by decide
  have hnonneg : (0 : Int) ≤ 300 := by decide
  have hminus := (conversions_agree .i32 .u8).toWordLaws ⟨-1, by decide⟩
  obtain ⟨q, hq, hsame⟩ := hminus.truncate_i128 hsigned
  have hbyte := conversions_agree .u16 .i8
  obtain ⟨r, hr, hsame'⟩ := (hbyte.toWordLaws ⟨300, by decide⟩).truncate_u128 hnonneg
  have hlost := ((hbyte.ofWordLaws (castToWord .i8 (⟨300, by decide⟩ : Bounded .u16))).eq_iff
    ⟨44, by decide⟩).2 (by decide)
  refine ⟨⟨hsigned, _, q, rfl, hq, hsame, Int.natCast_inj.1 (hminus.pattern.trans (by decide)),
    hminus.sign_above 127 (by decide) (by decide)⟩, hnonneg, _, r, rfl, hr, hsame', ?_⟩
  rw [← hlost]
  decide

end Bounded

end MachineInt
