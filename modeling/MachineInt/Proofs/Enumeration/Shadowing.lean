import MachineInt.Proofs.Enumeration.Decoding
import Mathlib.Order.Hom.Basic

/-!
# Shadowed members

A probe of kind `l` cannot tell members apart whose values are the same in kind `l`
(`Member.Alike`), and of those it finds the first. The others are shadowed; which ones they are
depends on the kind of the probe, and a narrow probe shadows members that differ in the table's own
kind. What is done to a table without changing the first of each makes no difference to decoding.

* `Member.matches_iff_cast_eq`: matching is a question about the value in the probe's kind alone.
* `Table.member?_eq_of_place`: tables whose members correspond, alike ones in order and none without
  an alike one in front, decode to the same member.
* `Table.exists_not_shadowed`: behind each shadowed member stands one that is not.
* `Table.ThinsTo`, `Table.RearrangesTo`: leaving out shadowed members, and changing the order of
  members that are not alike.
* `Table.member?_append`: a table in front of another.
* `Table.decode_ignores_shadowed`: all of it (`Table.ShadowLaws`), for the member found and its
  position.
-/

set_option autoImplicit false

namespace MachineInt

variable {k l : Kind}

/-! ## Members that a probe cannot tell apart -/

namespace Member

/-- The values of the members are the same word in kind `l`. -/
def Alike (m : Member k) (l : Kind) (m' : Member k) : Prop := m.value.cast l = m'.value.cast l

instance (m : Member k) (l : Kind) (m' : Member k) : Decidable (m.Alike l m') :=
  inferInstanceAs (Decidable (_ = _))

def castTo (l : Kind) (m : Member k) : Member l := ⟨m.name, m.value.cast l⟩

theorem matches_iff_cast_eq {m : Member k} {probe : Word l} :
    m.Matches probe ↔ m.value.cast l = probe := by
  unfold Matches
  rw [← Word.ofInt_eq_ofInt_iff, ← Word.cast_eq_ofInt, Word.ofInt_toInt]

theorem Alike.matches_iff {m m' : Member k} {probe : Word l} (h : m.Alike l m') :
    m.Matches probe ↔ m'.Matches probe := by
  rw [matches_iff_cast_eq, matches_iff_cast_eq, h]

theorem Matches.alike {m m' : Member k} {probe : Word l} (h : m.Matches probe)
    (h' : m'.Matches probe) : m.Alike l m' :=
  (matches_iff_cast_eq.1 h).trans (matches_iff_cast_eq.1 h').symm

theorem equalsCast_value_castTo (m : Member k) (probe : Word l) :
    probe.equalsCast (m.castTo l).value = probe.equalsCast m.value := by
  unfold castTo Word.equalsCast Word.compareCast
  rw [Word.cast_self]

end Member

namespace Table

/-! ## The member that a probe denotes -/

/-- The member that `probe` denotes, if there is one; a miss is reported. -/
def decodeMember (table : Table k) (probe : Word l) : Outcome (Option (Member k)) := do
  let i ← table.decode probe
  pure (i.map table.get)

def member? (table : Table k) (probe : Word l) : Option (Member k) :=
  (table.position? probe).map table.get

theorem result_decodeMember (table : Table k) (probe : Word l) :
    (table.decodeMember probe).result = .ok (table.member? probe) := by
  unfold decodeMember decode member?
  cases table.position? probe <;> rfl

theorem member?_of_isLeast {table : Table k} {probe : Word l} {i : Fin table.length}
    (h : IsLeast (table.matching probe) i) : table.member? probe = some (table.get i) := by
  unfold member?
  rw [position?_eq_some_iff.2 h]
  rfl

theorem member?_of_eq_empty {table : Table k} {probe : Word l} (h : table.matching probe = ∅) :
    table.member? probe = none := by
  unfold member?
  rw [position?_eq_none_iff.2 h]
  rfl

theorem member?_eq_find? (table : Table k) (probe : Word l) :
    table.member? probe = table.find? fun m => probe.equalsCast m.value := by
  rw [List.find?_eq_map_findFinIdx?_getElem]
  rfl

/-! ## Tables whose members correspond -/

section Place

variable {table other : Table k} {place : Fin other.length → Fin table.length}

theorem isLeast_matching_place {probe : Word l} {i : Fin other.length}
    (hget : ∀ i, other.get i = table.get (place i))
    (hmono : ∀ i j, i ≤ j → (other.get i).Alike l (other.get j) → place i ≤ place j)
    (hcover : ∀ j, ∃ i, (other.get i).Alike l (table.get j) ∧ place i ≤ j)
    (h : IsLeast (other.matching probe) i) : IsLeast (table.matching probe) (place i) := by
  obtain ⟨hi, hmin⟩ := h
  refine ⟨?_, fun j hj => ?_⟩
  · show (table.get (place i)).Matches probe
    rw [← hget]
    exact hi
  -- any other match has an alike member in `other`, which comes no earlier than `i` there
  · obtain ⟨i', halike, hle⟩ := hcover j
    have hi' : i' ∈ other.matching probe := halike.matches_iff.2 hj
    exact le_trans (hmono i i' (hmin hi') (hi.alike hi')) hle

/-- Decoding finds the same member in `table` and in `other` if the places keep the order of alike
members, and each member of `table` has an alike one placed no later. -/
theorem member?_eq_of_place (hget : ∀ i, other.get i = table.get (place i))
    (hmono : ∀ i j, i ≤ j → (other.get i).Alike l (other.get j) → place i ≤ place j)
    (hcover : ∀ j, ∃ i, (other.get i).Alike l (table.get j) ∧ place i ≤ j) (probe : Word l) :
    other.member? probe = table.member? probe := by
  obtain ⟨i, hi⟩ | hempty := other.exists_isLeast_or_eq_empty probe
  · have hplace := isLeast_matching_place hget hmono hcover hi
    rw [member?_of_isLeast hi, member?_of_isLeast hplace, hget]
  · have htable : table.matching probe = ∅ := by
      rw [Set.eq_empty_iff_forall_notMem] at hempty ⊢
      intro j hj
      obtain ⟨i, halike, -⟩ := hcover j
      exact hempty i (halike.matches_iff.2 hj)
    rw [member?_of_eq_empty hempty, member?_of_eq_empty htable]

end Place

/-! ## Leaving out and rearranging -/

/-- A member before the one at position `i` has the same value in kind `l`. -/
def Shadowed (table : Table k) (l : Kind) (i : Fin table.length) : Prop :=
  ∃ j < i, (table.get j).Alike l (table.get i)

instance (table : Table k) (l : Kind) (i : Fin table.length) : Decidable (table.Shadowed l i) :=
  inferInstanceAs (Decidable (∃ _, _))

/-- The table `rest` is `table` with some members left out, any number of them, each shadowed. -/
def ThinsTo (table : Table k) (l : Kind) (rest : Table k) : Prop :=
  ∃ place : Fin rest.length ↪o Fin table.length,
    (∀ i, rest.get i = table.get (place i)) ∧ ∀ j, j ∉ Set.range place → table.Shadowed l j

/-- The table `other` is `table` in another order, alike members in the order they had. -/
def RearrangesTo (table : Table k) (l : Kind) (other : Table k) : Prop :=
  ∃ place : Fin other.length ≃ Fin table.length,
    (∀ i, other.get i = table.get (place i)) ∧
      ∀ i j, i < j → (other.get i).Alike l (other.get j) → place i < place j

theorem exists_not_shadowed (table : Table k) (l : Kind) (j : Fin table.length) :
    ∃ i ≤ j, (table.get i).Alike l (table.get j) ∧ ¬table.Shadowed l i := by
  -- induction on the position, from a shadowed member back to one that shadows it
  induction j using WellFoundedLT.induction with
  | _ j ih =>
    by_cases h : table.Shadowed l j
    · obtain ⟨j', hlt, halike⟩ := h
      obtain ⟨i, hle, halike', hnot⟩ := ih j' hlt
      exact ⟨i, le_trans hle hlt.le, halike'.trans halike, hnot⟩
    · exact ⟨j, le_refl j, rfl, h⟩

theorem ThinsTo.member?_eq {table rest : Table k} (h : table.ThinsTo l rest) (probe : Word l) :
    rest.member? probe = table.member? probe := by
  obtain ⟨place, hget, hshadowed⟩ := h
  refine member?_eq_of_place hget (fun i j hle _ => place.monotone hle) (fun j => ?_) probe
  obtain ⟨j', hle, halike, hnot⟩ := table.exists_not_shadowed l j
  have hrange : j' ∈ Set.range place := by
    by_contra hout
    exact hnot (hshadowed j' hout)
  obtain ⟨i, rfl⟩ := hrange
  exact ⟨i, by rwa [hget], hle⟩

theorem RearrangesTo.member?_eq {table other : Table k} (h : table.RearrangesTo l other)
    (probe : Word l) : other.member? probe = table.member? probe := by
  obtain ⟨place, hget, horder⟩ := h
  refine member?_eq_of_place hget (fun i j hle halike => ?_) (fun j => ?_) probe
  -- only members that match one probe need to keep their order, and those are alike
  · rcases hle.eq_or_lt with rfl | hlt
    · exact le_refl _
    · exact (horder i j hlt halike).le
  · refine ⟨place.symm j, ?_, ?_⟩
    · rw [hget, place.apply_symm_apply]
      rfl
    · rw [place.apply_symm_apply]

/-! ## Tables in a row, and values cast beforehand -/

theorem member?_append (table more : Table k) (probe : Word l) :
    (table ++ more).member? probe = (table.member? probe).or (more.member? probe) := by
  rw [member?_eq_find?, member?_eq_find?, member?_eq_find?, List.find?_append]

theorem map_val_position?_castTo (table : Table k) (probe : Word l) :
    (Table.position? (table.map (Member.castTo l)) probe).map Fin.val =
      (table.position? probe).map Fin.val := by
  unfold position?
  rw [← List.findIdx?_eq_map_findFinIdx?_val, ← List.findIdx?_eq_map_findFinIdx?_val,
    List.findIdx?_map]
  congr 1
  funext m
  exact m.equalsCast_value_castTo probe

/-- The member that `decodeMember` finds, in the table and in ones that differ from it in members
that a probe of kind `l` cannot tell. What a miss reports does depend on the number of members. -/
structure ShadowLaws (table : Table k) (probe : Word l) : Prop where
  answers : ∃ found, (table.decodeMember probe).result = .ok found
  thinned (rest : Table k) (h : table.ThinsTo l rest) :
    (rest.decodeMember probe).result = (table.decodeMember probe).result
  rearranged (other : Table k) (h : table.RearrangesTo l other) :
    (other.decodeMember probe).result = (table.decodeMember probe).result
  append_of_hit (m : Member k) (h : (table.decodeMember probe).result = .ok (some m))
    (more : Table k) : (Table.decodeMember (table ++ more) probe).result = .ok (some m)
  append_of_miss (h : (table.decodeMember probe).result = .ok none) (more : Table k) :
    (Table.decodeMember (table ++ more) probe).result = (more.decodeMember probe).result
  position_castTo : (Table.decode (table.map (Member.castTo l)) probe).result.map
      (Option.map Fin.val) = (table.decode probe).result.map (Option.map Fin.val)

/-- **Decoding ignores shadowed members**: `ShadowLaws` for every table and probe. -/
theorem decode_ignores_shadowed (table : Table k) (probe : Word l) : table.ShadowLaws probe where
  answers := ⟨_, table.result_decodeMember probe⟩
  thinned _ h := by rw [result_decodeMember, result_decodeMember, h.member?_eq]
  rearranged _ h := by rw [result_decodeMember, result_decodeMember, h.member?_eq]
  append_of_hit _ h _ := by
    rw [result_decodeMember, Except.ok.injEq] at h
    rw [result_decodeMember, member?_append, h, Option.some_or]
  append_of_miss h _ := by
    rw [result_decodeMember, Except.ok.injEq] at h
    rw [result_decodeMember, result_decodeMember, member?_append, h, Option.none_or]
  position_castTo := by
    rw [result_decode, result_decode]
    exact congrArg Except.ok (map_val_position?_castTo table probe)

def lowBytes : Table .u16 :=
  [⟨"Wide", .ofInt 0x0102⟩, ⟨"Narrow", .ofInt 0x0002⟩, ⟨"Wider", .ofInt 0x0302⟩,
    ⟨"Other", .ofInt 7⟩]

theorem decode_ignores_shadowed_lowBytes :
    let probe : Word .u8 := .ofInt 2
    let rest : Table .u16 := [⟨"Wide", .ofInt 0x0102⟩, ⟨"Other", .ofInt 7⟩]
    let other : Table .u16 :=
      [⟨"Other", .ofInt 7⟩, ⟨"Wide", .ofInt 0x0102⟩, ⟨"Narrow", .ofInt 0x0002⟩,
        ⟨"Wider", .ofInt 0x0302⟩]
    lowBytes.ThinsTo .u8 rest ∧ lowBytes.RearrangesTo .u8 other ∧
    (lowBytes.decodeMember probe).result = .ok (some ⟨"Wide", .ofInt 0x0102⟩) ∧
    (rest.decodeMember probe).result = (lowBytes.decodeMember probe).result ∧
    (other.decodeMember probe).result = (lowBytes.decodeMember probe).result ∧
    (Table.decodeMember (lowBytes ++ other) probe).result = .ok (some ⟨"Wide", .ofInt 0x0102⟩) ∧
    (lowBytes.decodeMember (.ofInt 9 : Word .u8)).result = .ok none ∧
    (Table.decodeMember (lowBytes ++ [⟨"Nine", .ofInt 9⟩]) (.ofInt 9 : Word .u8)).result =
      (Table.decodeMember [⟨"Nine", (.ofInt 9 : Word .u16)⟩] (.ofInt 9 : Word .u8)).result := by
  intro probe rest other
  have hthin : lowBytes.ThinsTo .u8 rest := by
    let place (i : Fin rest.length) : Fin lowBytes.length :=
      if i.val = 0 then ⟨0, by decide⟩ else ⟨3, by decide⟩
    have hmono : ∀ i j, i < j → place i < place j := by decide
    have hget : ∀ i, rest.get i = lowBytes.get (place i) := by decide
    have hcover : ∀ j, (∃ i, place i = j) ∨ lowBytes.Shadowed .u8 j := by decide
    exact ⟨OrderEmbedding.ofStrictMono place hmono, hget, fun j => (hcover j).resolve_left⟩
  have hrearrange : lowBytes.RearrangesTo .u8 other := by
    let place (i : Fin other.length) : Fin lowBytes.length :=
      ⟨(i.val + 3) % 4, Nat.mod_lt _ (by decide)⟩
    let back (j : Fin lowBytes.length) : Fin other.length :=
      ⟨(j.val + 1) % 4, Nat.mod_lt _ (by decide)⟩
    have hback : ∀ i, back (place i) = i := by decide
    have hplace : ∀ j, place (back j) = j := by decide
    have hget : ∀ i, other.get i = lowBytes.get (place i) := by decide
    have horder : ∀ i j, i < j → (other.get i).Alike .u8 (other.get j) → place i < place j := by
      decide
    exact ⟨⟨place, back, hback, hplace⟩, hget, horder⟩
  have hfound : (lowBytes.decodeMember probe).result = .ok (some ⟨"Wide", .ofInt 0x0102⟩) := by
    decide
  have hmiss : (lowBytes.decodeMember (.ofInt 9 : Word .u8)).result = .ok none := by decide
  have hlow := decode_ignores_shadowed lowBytes probe
  have hnine := decode_ignores_shadowed lowBytes (.ofInt 9 : Word .u8)
  exact ⟨hthin, hrearrange, hfound, hlow.thinned rest hthin, hlow.rearranged other hrearrange,
    hlow.append_of_hit _ hfound other, hmiss, hnine.append_of_miss hmiss _⟩

end Table

end MachineInt
