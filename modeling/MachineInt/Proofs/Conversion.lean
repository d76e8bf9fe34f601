import Mathlib.Data.List.Chain
import MachineInt.Proofs.Datapath.Basic
import MachineInt.Proofs.Reduction

/-!
# Conversions and chains of casts

One law covers narrowing, zero filling and sign filling between all kinds: the integer that the
low bits of the source denote, modulo the number of values of the target.

* `Register.toNat_convert`: the pattern a conversion gives.
* `Register.denote_convert_iff`: the integer survives exactly where the target represents it.
* `convert_reduces`: both, together with their forms for casts of words and with the conversion
  by checked steps of the datapath.

Along a chain of casts the integer itself may be lost; what is kept is its class modulo the number
of values of the last kind.

* `Word.cast_cast_of_le`, `Word.cast_cast_of_embedsIn`: a kind on the way does no harm if it is at
  least as wide as the last kind, or has all the values of the first.
* `Word.castThrough_eq_of_cast_eq`: **a chain of such kinds** does none either. The invariant, kept
  by each link (`Word.cast_link`), is that the word reached still casts to the last kind as the
  first did.
* `Word.cast_cast_iff`: any other kind on the way changes some word. `Kind.exists_next_outside`
  finds it right beyond the values of that kind.
* `TaggedWord.castThrough_ofWord`, `TaggedWord.castTrail_ofWord`: tagged words take the same way.
* `castThrough_eq_cast`: all of it, with the trail as single casts (`TaggedWord.IsTrail`).
-/

set_option autoImplicit false

namespace MachineInt

/-! ## One conversion -/

namespace Register

variable {k l : Kind}

theorem toNat_convert (k l : Kind) (r : Register) :
    ((r.convert k l).toNat : Int) = k.denote (r.toNat % k.card) % l.card := by
  rw [convert_eq, Word.toNat_register, Word.toNat_ofInt, Word.toInt_ofRegister]

theorem denote_convert (k l : Kind) (r : Register) :
    l.denote (r.convert k l).toNat = l.reduce (k.denote (r.toNat % k.card)) := by
  rw [convert_eq, Word.toNat_register, ← Word.toInt_eq_denote, Word.toInt_ofInt,
    Word.toInt_ofRegister]

theorem denote_convert_iff (k l : Kind) (r : Register) :
    l.denote (r.convert k l).toNat = k.denote (r.toNat % k.card) ↔
      l.Represents (k.denote (r.toNat % k.card)) := by
  rw [denote_convert, Kind.reduce_eq_self_iff]

end Register

theorem Word.toInt_cast_eq_iff {k : Kind} (l : Kind) (a : Word k) :
    (a.cast l).toInt = a.toInt ↔ l.Represents a.toInt := by
  rw [toInt_cast, Kind.reduce_eq_self_iff]

/-- What converting the register `r` from kind `k` to `l` comes to, and casting the word `a`. -/
structure ConversionLaws (k l : Kind) (r : Register) (a : Word k) : Prop where
  congruent : ((r.convert k l).toNat : Int) = k.denote (r.toNat % k.card) % l.card
  fits : (r.convert k l).toNat < l.card
  /-- The target reads the integer of the source exactly where it `Represents` it. -/
  kept : l.denote (r.convert k l).toNat = k.denote (r.toNat % k.card) ↔
    l.Represents (k.denote (r.toNat % k.card))
  datapath : Datapath.cast l ⟨k, r⟩ = .ok ⟨l, r.convert k l⟩
  denotes : a.toInt = k.denote a.toNat
  castCongruent : ((a.cast l).toNat : Int) = a.toInt % l.card
  castKept : (a.cast l).toInt = a.toInt ↔ l.Represents a.toInt

/-- **The conversion law**, for every register and every two kinds: `Register.convert` and
`Word.cast` reduce the integer modulo `l.card`, and `Datapath.cast` does so without a fault. -/
theorem convert_reduces (k l : Kind) (r : Register) (a : Word k) : ConversionLaws k l r a where
  congruent := r.toNat_convert k l
  fits := by
    rw [Register.convert_eq, Word.toNat_register]
    exact Word.toNat_lt _
  kept := r.denote_convert_iff k l
  datapath := Datapath.cast_eq l ⟨k, r⟩
  denotes := a.toInt_eq_denote
  castCongruent := by rw [Word.cast_eq_ofInt, Word.toNat_ofInt]
  castKept := a.toInt_cast_eq_iff l

/-! ## Chains of casts -/

/-! ### Integers beyond the values of a kind -/

namespace Kind

variable {k m : Kind}

/-- A kind that is not `EmbedsIn` another has an integer right beyond an end of the other. -/
theorem exists_next_outside (h : ¬k.EmbedsIn m) :
    ∃ n, k.Represents n ∧ (n = m.greatest + 1 ∨ n = m.least - 1) := by
  have hk := k.zero_represents
  have hm := m.zero_represents
  rw [embedsIn_iff_ends] at h
  unfold Represents at hk hm
  -- if `k` does not reach below `m`, it must reach above it
  by_cases hlow : m.least ≤ k.least
  · exact ⟨m.greatest + 1, ⟨by omega, by omega⟩, .inl rfl⟩
  · exact ⟨m.least - 1, ⟨by omega, by omega⟩, .inr rfl⟩

theorem reduce_greatest_add_one (m : Kind) :
    m.reduce (m.greatest + 1) = m.greatest + 1 - m.card := by
  rw [← least_eq, ← reduce_of_represents ⟨Int.le_refl m.least, m.least_le_greatest⟩,
    reduce_eq_reduce_iff, least_eq, Int.sub_emod_right]

theorem reduce_least_sub_one (m : Kind) : m.reduce (m.least - 1) = m.least - 1 + m.card := by
  have hgreatest : m.least - 1 + m.card = m.greatest := by
    rw [least_eq]
    omega
  rw [hgreatest, ← reduce_of_represents ⟨m.least_le_greatest, Int.le_refl m.greatest⟩,
    reduce_eq_reduce_iff, ← hgreatest, Int.add_emod_right]

theorem sub_card_emod_ne {l : Kind} (h : m.bits < l.bits) (n : Int) :
    (n - m.card) % l.card ≠ n % l.card := by
  intro heq
  have hzero := Int.emod_eq_emod_iff_emod_sub_eq_zero.1 heq.symm
  rw [show n - (n - m.card) = (m.card : Int) by omega] at hzero
  exact card_emod_ne_zero h hzero

/-- Right beyond an end of `m`, a wider kind can tell the integer from what `m` reduces it to. -/
theorem reduce_emod_ne_of_next {l : Kind} {n : Int} (h : m.bits < l.bits)
    (hn : n = m.greatest + 1 ∨ n = m.least - 1) : m.reduce n % l.card ≠ n % l.card := by
  rcases hn with rfl | rfl
  · rw [reduce_greatest_add_one]
    exact sub_card_emod_ne h _
  · intro heq
    rw [reduce_least_sub_one] at heq
    apply sub_card_emod_ne h (m.least - 1 + m.card)
    rw [Int.add_sub_cancel, heq]

end Kind

/-! ### Two casts -/

namespace Word

variable {j k l m : Kind}

theorem cast_cast_of_le (h : l.bits ≤ m.bits) (a : Word k) : (a.cast m).cast l = a.cast l := by
  rw [cast_eq_ofInt l, cast_eq_ofInt l, ofInt_eq_ofInt_iff, toInt_cast]
  exact Kind.emod_card_of_le h (m.reduce_emod a.toInt)

theorem toInt_cast_of_embedsIn (h : k.EmbedsIn m) (a : Word k) : (a.cast m).toInt = a.toInt :=
  (a.toInt_cast_eq_iff m).2 ((k.embedsIn_iff m).1 h _ a.toInt_represents)

theorem cast_cast_of_embedsIn (h : k.EmbedsIn m) (a : Word k) :
    (a.cast m).cast l = a.cast l := by
  rw [cast_eq_ofInt l, toInt_cast_of_embedsIn h, ← cast_eq_ofInt]

theorem cast_eq_cast_of_le {x : Word j} {a : Word k} (h : m.bits ≤ l.bits)
    (hx : x.cast l = a.cast l) : x.cast m = a.cast m := by
  rw [← cast_cast_of_le h x, hx, cast_cast_of_le h]

/-- The word of `exists_next_outside` tells the two ways to `l` apart. -/
theorem exists_cast_cast_ne (hle : m.bits < l.bits) (h : ¬k.EmbedsIn m) :
    ∃ a : Word k, (a.cast m).cast l ≠ a.cast l := by
  obtain ⟨n, hn, hnext⟩ := Kind.exists_next_outside h
  refine ⟨ofInt n, fun heq => ?_⟩
  rw [cast_eq_ofInt l, cast_eq_ofInt l, ofInt_eq_ofInt_iff, toInt_cast, toInt_ofInt,
    Kind.reduce_of_represents hn] at heq
  exact Kind.reduce_emod_ne_of_next hle hnext heq

theorem cast_cast_iff (k m l : Kind) :
    (∀ a : Word k, (a.cast m).cast l = a.cast l) ↔ l.bits ≤ m.bits ∨ k.EmbedsIn m := by
  constructor
  · intro h
    by_cases hle : l.bits ≤ m.bits
    · exact .inl hle
    -- a kind in between that is narrower must not reduce anything, or `l` can tell
    · have hlt : m.bits < l.bits := Nat.lt_of_not_le hle
      refine .inr (Decidable.byContradiction fun hemb => ?_)
      obtain ⟨a, ha⟩ := exists_cast_cast_ne hlt hemb
      exact ha (h a)
  · rintro (h | h) a
    · exact cast_cast_of_le h a
    · exact cast_cast_of_embedsIn h a

theorem cast_cast_self_iff (k m : Kind) :
    (∀ a : Word k, (a.cast m).cast k = a) ↔ k.bits ≤ m.bits := by
  have hiff := cast_cast_iff k m k
  simp only [cast_self] at hiff
  rw [hiff]
  constructor
  · rintro (h | h)
    · exact h
    · exact h.bits_le
  · exact .inl

/-! ### Chains -/

/-- **One link** of a chain keeps how the word reached casts to the last kind, `l`. -/
theorem cast_link {x : Word j} {a : Word k} (hm : l.bits ≤ m.bits ∨ k.EmbedsIn m)
    (hx : x.cast l = a.cast l) : (x.cast m).cast l = a.cast l := by
  by_cases hle : l.bits ≤ m.bits
  · rw [cast_cast_of_le hle, hx]
  · -- a narrow kind gets the first word's own integer back, as `m` has all values of `k`
    have hxm : x.cast m = a.cast m := cast_eq_cast_of_le (by omega) hx
    rw [hxm, cast_cast_of_embedsIn (hm.resolve_left hle)]

theorem castThrough_eq_of_cast_eq {path : List Kind} {x : Word j} {a : Word k}
    (hpath : ∀ m ∈ path, l.bits ≤ m.bits ∨ k.EmbedsIn m) (hx : x.cast l = a.cast l) :
    x.castThrough path l = a.cast l := by
  -- from any word `x` on the way, which casts to `l` as `a` does
  induction path generalizing j with
  | nil => exact hx
  | cons m rest ih =>
    have hm := hpath m List.mem_cons_self
    exact ih (fun m' h => hpath m' (List.mem_cons_of_mem m h)) (cast_link hm hx)

theorem getLast?_castTrail (path : List Kind) (l : Kind) (a : Word k) :
    (a.castTrail (path ++ [l])).getLast? = some (.ofWord (a.castThrough path l)) := by
  induction path generalizing k with
  | nil => rfl
  | cons m rest ih =>
    show (TaggedWord.ofWord (a.cast m) :: (a.cast m).castTrail (rest ++ [l])).getLast? = _
    rw [List.getLast?_cons, ih]
    rfl

end Word

/-! ### Tagged words -/

namespace TaggedWord

variable {k l : Kind}

theorem castThrough_ofWord (path : List Kind) (a : Word k) :
    (ofWord a).castThrough path l = ofWord (a.castThrough path l) := by
  induction path generalizing k with
  | nil => exact cast_ofWord l a
  | cons m rest ih =>
    show ((ofWord a).cast m).castThrough rest l = ofWord ((a.cast m).castThrough rest l)
    rw [cast_ofWord, ih]

theorem castTrail_ofWord (path : List Kind) (a : Word k) :
    (ofWord a).castTrail path = a.castTrail path := by
  induction path generalizing k with
  | nil => rfl
  | cons m rest ih =>
    show (ofWord a).cast m :: ((ofWord a).cast m).castTrail rest = _
    rw [cast_ofWord, ih]
    rfl

/-- The words `ts` after `t` are casts to the kinds of the path, each of the word before it. -/
structure IsTrail (path : List Kind) (t : TaggedWord) (ts : List TaggedWord) : Prop where
  kinds : ts.map kind = path
  links : (t :: ts).IsChain fun s u => u = s.cast u.kind

theorem isTrail_castTrail (path : List Kind) (t : TaggedWord) :
    IsTrail path t (t.castTrail path) := by
  induction path generalizing t with
  | nil => exact ⟨rfl, .singleton t⟩
  | cons m rest ih =>
    obtain ⟨hkinds, hlinks⟩ := ih (t.cast m)
    exact ⟨congrArg (m :: ·) hkinds, .cons_cons rfl hlinks⟩

theorem forall_kind_iff {P : TaggedWord → Prop} :
    (∀ t : TaggedWord, t.kind = k → P t) ↔ ∀ a : Word k, P (ofWord a) := by
  constructor
  · intro h a
    exact h (ofWord a) rfl
  · rintro h t rfl
    rw [← t.ofWord_word]
    exact h t.word

end TaggedWord

/-- What chains of casts from kind `k` to kind `l` come to, of words and of tagged words. -/
structure ChainLaws (k l : Kind) : Prop where
  embedsIn : ∀ m, k.EmbedsIn m ↔ ∀ n, k.Represents n → m.Represents n
  /-- `castThrough` and the last entry of `castTrail` are the direct cast. -/
  chain : ∀ path : List Kind, (∀ m ∈ path, l.bits ≤ m.bits ∨ k.EmbedsIn m) → ∀ a : Word k,
    a.castThrough path l = a.cast l ∧
      (a.castTrail (path ++ [l])).getLast? = some (.ofWord (a.cast l))
  chainTagged : ∀ path : List Kind, (∀ m ∈ path, l.bits ≤ m.bits ∨ k.EmbedsIn m) →
    ∀ t : TaggedWord, t.kind = k → t.castThrough path l = t.cast l ∧
      (t.castTrail (path ++ [l])).getLast? = some (t.cast l)
  /-- The entries of `castTrail` are single casts, each of the word before it. -/
  trail : ∀ (path : List Kind) (a : Word k), TaggedWord.IsTrail path (.ofWord a) (a.castTrail path)
  trailTagged : ∀ (path : List Kind) (t : TaggedWord), TaggedWord.IsTrail path t (t.castTrail path)
  single : ∀ m, ((∀ a : Word k, (a.cast m).cast l = a.cast l) ↔ l.bits ≤ m.bits ∨ k.EmbedsIn m) ∧
    ((∀ t : TaggedWord, t.kind = k → (t.cast m).cast l = t.cast l) ↔
      l.bits ≤ m.bits ∨ k.EmbedsIn m)
  back : ∀ m, ((∀ a : Word k, (a.cast m).cast k = a) ↔ k.bits ≤ m.bits) ∧
    ((∀ t : TaggedWord, t.kind = k → (t.cast m).cast k = t) ↔ k.bits ≤ m.bits)

/-- **Chains of casts** give what the direct `cast` gives if each kind on the way is as wide as `l`
or has all the values of `k`; for one kind on the way this is also necessary. -/
theorem castThrough_eq_cast (k l : Kind) : ChainLaws k l where
  embedsIn := k.embedsIn_iff
  chain path hpath a := by
    have hdirect : a.castThrough path l = a.cast l := Word.castThrough_eq_of_cast_eq hpath rfl
    exact ⟨hdirect, by rw [Word.getLast?_castTrail, hdirect]⟩
  chainTagged path hpath := by
    refine TaggedWord.forall_kind_iff.2 fun a => ?_
    have hdirect : a.castThrough path l = a.cast l := Word.castThrough_eq_of_cast_eq hpath rfl
    rw [TaggedWord.castThrough_ofWord, TaggedWord.castTrail_ofWord, Word.getLast?_castTrail,
      hdirect, TaggedWord.cast_ofWord]
    exact ⟨rfl, rfl⟩
  trail path a := by
    rw [← TaggedWord.castTrail_ofWord]
    exact TaggedWord.isTrail_castTrail path (.ofWord a)
  trailTagged := TaggedWord.isTrail_castTrail
  single m := by
    refine ⟨Word.cast_cast_iff k m l, ?_⟩
    rw [TaggedWord.forall_kind_iff, ← Word.cast_cast_iff]
    simp only [TaggedWord.cast_ofWord, TaggedWord.ofWord_inj]
  back m := by
    refine ⟨Word.cast_cast_self_iff k m, ?_⟩
    rw [TaggedWord.forall_kind_iff, ← Word.cast_cast_self_iff]
    simp only [TaggedWord.cast_ofWord, TaggedWord.ofWord_inj]

/-- Widening `-3` in steps, once beyond the last kind and back, and reading it unsigned. -/
theorem castThrough_eq_cast_minus_three :
    (∀ m ∈ [Kind.i16, .u128, .i32, .i64], Kind.u64.bits ≤ m.bits ∨ Kind.i8.EmbedsIn m) ∧
    (Word.ofInt (-3) : Word .i8).castThrough [.i16, .u128, .i32, .i64] .u64 =
      (Word.ofInt (-3) : Word .i8).cast .u64 ∧
    (TaggedWord.ofWord (Word.ofInt (-3) : Word .i8)).kind = .i8 ∧
    (TaggedWord.ofWord (Word.ofInt (-3) : Word .i8)).castThrough [.i16, .u128, .i32, .i64] .u64 =
      (TaggedWord.ofWord (Word.ofInt (-3) : Word .i8)).cast .u64 := by
  have hpath : ∀ m ∈ [Kind.i16, .u128, .i32, .i64],
      Kind.u64.bits ≤ m.bits ∨ Kind.i8.EmbedsIn m := by decide
  have hlaws := castThrough_eq_cast .i8 .u64
  exact ⟨hpath, (hlaws.chain _ hpath _).1, rfl, (hlaws.chainTagged _ hpath _ rfl).1⟩

end MachineInt
