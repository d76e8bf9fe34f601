import Mathlib.Order.Bounds.Basic
import Mathlib.Order.Fin.Basic
import MachineInt.Enumeration.Basic
import MachineInt.Proofs.Operation
import MachineInt.Proofs.Reduction

/-!
# Decoding

A member matches a probe when their integers agree modulo the number of values of the *probe's*
kind (`Member.Matches`), so a narrow probe matches more members than a wide one. Decoding finds the
least matching position:

* `Table.decode_of_isLeast`, `Table.decode_of_eq_empty` and the same for `decodeOrHalt`: all that
  decoding can do, hit or miss. `Table.exists_isLeast_or_eq_empty`: one of the two is the case.
* `Table.matching_cast_of_le`, `Table.matching_subset_cast`: a probe cast to a kind at least as wide
  matches the same members, and one cast to a narrower kind those and maybe more.
* `Table.decode_least_congruent`: **decoding as a congruence**, and what a cast of the probe does to
  it.

A table is decoded with or without a halt on a miss, and an enumeration in three ways, that answer
a miss by nothing, by an error or by a halt. On one probe they all hit or they all miss:

* `Enumeration.Hit`: each gives the same member, and nothing is reported.
* `Enumeration.Miss`: each reports the probe; the error carries it; a halt is reported last.
* `Enumeration.decode_hit_or_miss`: **each probe is one or the other**, whatever its kind.
-/

set_option autoImplicit false

namespace MachineInt

/-! ## Decoding by congruence -/

section

variable {k l : Kind}

/-! ### Matching -/

/-- The integer of `m` agrees with that of `probe` modulo `l.card`. -/
def Member.Matches (m : Member k) (probe : Word l) : Prop :=
  m.value.toInt % l.card = probe.toInt % l.card

namespace Member

theorem equalsCast_value_iff {m : Member k} {probe : Word l} :
    probe.equalsCast m.value = true ↔ m.Matches probe :=
  Word.equalsCast_iff

/-- A probe of kind `k` leaves no room: only the value itself matches. -/
theorem matches_iff_eq {m : Member k} {x : Word k} : m.Matches x ↔ m.value = x := by
  unfold Matches
  rw [← Word.ofInt_eq_ofInt_iff, Word.ofInt_toInt, Word.ofInt_toInt]

theorem matches_cast_iff {m : Member k} {x : Word k} :
    m.Matches (x.cast l) ↔ m.value.toInt % l.card = x.toInt % l.card := by
  unfold Matches
  rw [Word.toInt_cast, Kind.reduce_emod]

end Member

namespace Table

def matching (table : Table k) (probe : Word l) : Set (Fin table.length) :=
  {i | (table.get i).Matches probe}

variable {table : Table k} {probe : Word l} {i : Fin table.length}

theorem matching_eq_empty_iff : table.matching probe = ∅ ↔ ∀ m ∈ table, ¬m.Matches probe := by
  rw [Set.eq_empty_iff_forall_notMem]
  constructor
  · intro h m hm
    obtain ⟨i, rfl⟩ := List.get_of_mem hm
    exact h i
  · intro h i
    exact h _ (List.get_mem table i)

theorem position?_eq_some_iff :
    table.position? probe = some i ↔ IsLeast (table.matching probe) i := by
  unfold position?
  rw [List.findFinIdx?_eq_some_iff]
  simp only [Member.equalsCast_value_iff]
  constructor
  · rintro ⟨hi, hmin⟩
    refine ⟨hi, fun j hj => ?_⟩
    by_contra hlt
    exact hmin j (not_le.1 hlt) hj
  · rintro ⟨hi, hmin⟩
    exact ⟨hi, fun j hlt hj => not_le.2 hlt (hmin hj)⟩

theorem position?_eq_none_iff : table.position? probe = none ↔ table.matching probe = ∅ := by
  unfold position?
  rw [List.findFinIdx?_eq_none_iff, matching_eq_empty_iff]
  simp only [Member.equalsCast_value_iff]

theorem exists_isLeast_or_eq_empty (table : Table k) (probe : Word l) :
    (∃ i, IsLeast (table.matching probe) i) ∨ table.matching probe = ∅ := by
  cases h : table.position? probe with
  | some i => exact .inl ⟨i, position?_eq_some_iff.1 h⟩
  | none => exact .inr (position?_eq_none_iff.1 h)

/-! ### Decoding -/

def unmatched (table : Table k) (probe : Word l) : Event :=
  .unmatched (.ofWord probe) table.length

def notMember (table : Table k) (probe : Word l) : Halt :=
  .notMember (.ofWord probe) table.length

theorem decode_of_isLeast (h : IsLeast (table.matching probe) i) :
    table.decode probe = ⟨[], .ok (some i)⟩ := by
  unfold decode
  rw [position?_eq_some_iff.2 h]
  rfl

theorem decode_of_eq_empty (h : table.matching probe = ∅) :
    table.decode probe = ⟨[table.unmatched probe], .ok none⟩ := by
  unfold decode
  rw [position?_eq_none_iff.2 h]
  rfl

theorem decodeOrHalt_of_isLeast (h : IsLeast (table.matching probe) i) :
    table.decodeOrHalt probe = ⟨[], .ok i⟩ := by
  unfold decodeOrHalt
  rw [decode_of_isLeast h]
  rfl

theorem decodeOrHalt_of_eq_empty (h : table.matching probe = ∅) :
    table.decodeOrHalt probe =
      ⟨[table.unmatched probe, .halting (table.notMember probe)],
        .error (table.notMember probe)⟩ := by
  unfold decodeOrHalt
  rw [decode_of_eq_empty h]
  rfl

theorem result_decode (table : Table k) (probe : Word l) :
    (table.decode probe).result = .ok (table.position? probe) := by
  unfold decode
  cases table.position? probe <;> rfl

/-! ### Casting the probe -/

theorem matching_cast_of_le (table : Table k) (x : Word k) (hle : k.bits ≤ l.bits) :
    table.matching (x.cast l) = table.matching x := by
  ext i
  show (table.get i).Matches (x.cast l) ↔ (table.get i).Matches x
  rw [Member.matches_cast_iff]
  constructor
  · exact Kind.emod_card_of_le hle
  · -- a congruence modulo the member's own kind is an equality
    intro h
    rw [Member.matches_iff_eq.1 h]

theorem matching_subset_cast (table : Table k) (x : Word k) (hle : l.bits ≤ k.bits) :
    table.matching x ⊆ table.matching (x.cast l) := by
  intro i hi
  exact Member.matches_cast_iff.2 (Kind.emod_card_of_le hle hi)

/-- **Decoding as a congruence**: `decode` finds the least position congruent to the probe modulo
the probe's kind. A `cast` to a kind at least as wide changes nothing; to a narrower one, a hit
comes no later. -/
theorem decode_least_congruent (table : Table k) (probe : Word l) (x : Word k) :
    (∃ found, (table.decode probe).result = .ok found ∧
      (∀ i, found = some i ↔
        IsLeast {j | (table.get j).value.toInt % l.card = probe.toInt % l.card} i) ∧
      (found = none ↔ ∀ j, (table.get j).value.toInt % l.card ≠ probe.toInt % l.card)) ∧
    (k.bits ≤ l.bits → (table.decode (x.cast l)).result = (table.decode x).result) ∧
    (l.bits < k.bits → ∀ i, (table.decode x).result = .ok (some i) →
      ∃ j ≤ i, (table.decode (x.cast l)).result = .ok (some j)) := by
  refine ⟨⟨table.position? probe, result_decode table probe, fun i => position?_eq_some_iff, ?_⟩,
    fun hle => ?_, fun hlt i hi => ?_⟩
  · rw [position?_eq_none_iff, Set.eq_empty_iff_forall_notMem]
    rfl
  · have hmatching := table.matching_cast_of_le x hle
    obtain ⟨i, hi⟩ | hempty := table.exists_isLeast_or_eq_empty x
    · rw [decode_of_isLeast hi, decode_of_isLeast (hmatching ▸ hi)]
    · rw [decode_of_eq_empty hempty, decode_of_eq_empty (hmatching ▸ hempty)]
  · rw [result_decode, Except.ok.injEq, position?_eq_some_iff] at hi
    -- the narrow probe matches what the word matched, and maybe a member before it
    have hsub := table.matching_subset_cast x (Nat.le_of_lt hlt)
    obtain ⟨j, hj⟩ | hempty := table.exists_isLeast_or_eq_empty (x.cast l)
    · refine ⟨j, hi.mono hj hsub, ?_⟩
      rw [decode_of_isLeast hj]
    · exact absurd (hsub hi.1) (by simp [hempty])

theorem decode_least_congruent_low_byte :
    let table : Table .u16 := [⟨"Wide", .ofInt 0x0102⟩, ⟨"Narrow", .ofInt 0x0002⟩]
    let x : Word .u16 := .ofInt 2
    let narrow : Fin table.length := ⟨1, by decide⟩
    (Kind.u16.bits ≤ Kind.i32.bits ∧
      (table.decode (x.cast .i32)).result = (table.decode x).result) ∧
    Kind.u8.bits < Kind.u16.bits ∧ (table.decode x).result = .ok (some narrow) ∧
      ∃ j ≤ narrow, (table.decode (x.cast .u8)).result = .ok (some j) := by
  intro table x narrow
  have hfound : (table.decode x).result = .ok (some narrow) := by decide
  obtain ⟨-, hwider, -⟩ := decode_least_congruent table (x.cast .i32) x
  obtain ⟨-, -, hnarrower⟩ := decode_least_congruent table (x.cast .u8) x
  exact ⟨⟨by decide, hwider (by decide)⟩, by decide, hfound, hnarrower (by decide) narrow hfound⟩

end Table

end

/-! ## The ways of decoding -/

theorem TaggedWord.labelled_ofWord {k : Kind} (a : Word k) : (ofWord a).labelled = a.labelled :=
  congrArg Word.labelled (word_ofWord a)

namespace Enumeration

variable {l : Kind}

/-- The probe denotes the member at position `i`, whichever way it is decoded. -/
structure Hit (e : Enumeration) (probe : Word l) (i : Fin e.table.length) : Prop where
  least : IsLeast (e.table.matching probe) i
  position : e.table.decode probe = ⟨[], .ok (some i)⟩
  positionOrHalt : e.table.decodeOrHalt probe = ⟨[], .ok i⟩
  decode : e.decode probe = ⟨[], .ok (some ⟨(e.table.get i).value⟩)⟩
  decodeOrError : e.decodeOrError probe = ⟨[], .ok (.ok ⟨(e.table.get i).value⟩)⟩
  decodeOrHalt : e.decodeOrHalt probe = ⟨[], .ok ⟨(e.table.get i).value⟩⟩

/-- The probe denotes no member, whichever way `e` decodes it. -/
structure Miss (e : Enumeration) (probe : Word l) : Prop where
  empty : e.table.matching probe = ∅
  position : e.table.decode probe = ⟨[e.table.unmatched probe], .ok none⟩
  decode : e.decode probe = ⟨[e.table.unmatched probe], .ok none⟩
  decodeOrError : e.decodeOrError probe =
    ⟨[e.table.unmatched probe], .ok (.error (.unknownMember e.name (.ofWord probe)))⟩
  positionOrHalt : e.table.decodeOrHalt probe =
    ⟨[e.table.unmatched probe, .halting (e.table.notMember probe)],
      .error (e.table.notMember probe)⟩
  decodeOrHalt : e.decodeOrHalt probe =
    ⟨[e.table.unmatched probe, .halting (e.table.notMember probe)],
      .error (e.table.notMember probe)⟩

variable {e : Enumeration} {probe : Word l} {i : Fin e.table.length}

theorem hit_of_isLeast (h : IsLeast (e.table.matching probe) i) : e.Hit probe i := by
  have hposition := Table.decode_of_isLeast h
  have horHalt := Table.decodeOrHalt_of_isLeast h
  have hdecode : e.decode probe = ⟨[], .ok (some ⟨(e.table.get i).value⟩)⟩ := by
    unfold decode
    rw [hposition]
    rfl
  refine ⟨h, hposition, horHalt, hdecode, ?_, ?_⟩
  · unfold decodeOrError
    rw [hdecode]
    rfl
  · unfold decodeOrHalt
    rw [horHalt]
    rfl

theorem miss_of_eq_empty (h : e.table.matching probe = ∅) : e.Miss probe := by
  have hposition := Table.decode_of_eq_empty h
  have horHalt := Table.decodeOrHalt_of_eq_empty h
  have hdecode : e.decode probe = ⟨[e.table.unmatched probe], .ok none⟩ := by
    unfold decode
    rw [hposition]
    rfl
  refine ⟨h, hposition, hdecode, ?_, horHalt, ?_⟩
  · unfold decodeOrError
    rw [hdecode]
    rfl
  · unfold decodeOrHalt
    rw [horHalt]
    rfl

theorem Hit.not_miss (h : e.Hit probe i) : ¬e.Miss probe := by
  intro hmiss
  have hi := h.least.1
  simp [hmiss.empty] at hi

theorem hit_or_miss (e : Enumeration) (probe : Word l) : (∃ i, e.Hit probe i) ∨ e.Miss probe := by
  obtain ⟨i, hi⟩ | hempty := e.table.exists_isLeast_or_eq_empty probe
  · exact .inl ⟨i, hit_of_isLeast hi⟩
  · exact .inr (miss_of_eq_empty hempty)

/-- What every way of decoding makes of one probe: `Hit` or `Miss`, never both, and the texts that a
`Miss` reports. -/
structure DecodeLaws (e : Enumeration) (probe : Word l) : Prop where
  hitOrMiss : (∃! i, e.Hit probe i) ∧ ¬e.Miss probe ∨ (¬∃ i, e.Hit probe i) ∧ e.Miss probe
  kind_probe : (TaggedWord.ofWord probe).kind = l
  bits_probe : (TaggedWord.ofWord probe).register.toNat = probe.toNat
  line_unmatched : (e.table.unmatched probe).line = "TRACE " ++ probe.labelled ++
    " matches none of " ++ toString e.table.length ++ " members"
  line_halting : (Event.halting (e.table.notMember probe)).line =
    "ERROR halt: " ++ (e.table.notMember probe).message
  message_notMember : (e.table.notMember probe).message = probe.labelled ++
    " is not a member value (" ++ toString e.table.length ++ " members)"

/-- **Each probe hits in every way of decoding, or misses in every way**: `DecodeLaws` for every
probe, of any kind. -/
theorem decode_hit_or_miss (e : Enumeration) (probe : Word l) : e.DecodeLaws probe where
  hitOrMiss := by
    obtain ⟨i, hi⟩ | hmiss := e.hit_or_miss probe
    · exact .inl ⟨⟨i, hi, fun j hj => hj.least.unique hi.least⟩, hi.not_miss⟩
    · exact .inr ⟨fun ⟨i, hi⟩ => hi.not_miss hmiss, hmiss⟩
  kind_probe := rfl
  bits_probe := by rw [TaggedWord.register_ofWord, Word.toNat_register]
  line_unmatched := by
    rw [← TaggedWord.labelled_ofWord]
    rfl
  line_halting := rfl
  message_notMember := by
    rw [← TaggedWord.labelled_ofWord]
    rfl

end Enumeration

end MachineInt
