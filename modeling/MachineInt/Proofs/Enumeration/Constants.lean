import MachineInt.Proofs.Enumeration.Names
import Mathlib.Order.WellFounded

/-!
# The constants of an enumeration

A definition is seen in four ways: as its constants, its table, its list of members and the names
that decoding finds. All four come from the declared integers, which may lie outside the kind and
meet only after reduction, as `255` and `-1` do in eight bits.

* `constant_eq_iff`: constants are equal when their integers are congruent, whatever their names.
* `exists_first_declared`: the name of a constant is the first one declared with such an integer.
* `name_constant_eq_iff`: so names tell constants apart exactly where values do.
* `constants_consistent`: **the four views agree**, at every position.
-/

set_option autoImplicit false

namespace MachineInt.Enumeration

variable {e : Enumeration} {i j : Fin e.declarations.length}

/-! ## Positions -/

def constant (e : Enumeration) (i : Fin e.declarations.length) : e.Value :=
  ⟨.ofInt (e.declarations.get i).2⟩

/-- The positions whose integers are congruent to the one at `i`, modulo `e.kind.card`. -/
def congruent (e : Enumeration) (i : Fin e.declarations.length) : Set (Fin e.declarations.length) :=
  {n | (e.declarations.get n).2 % e.kind.card = (e.declarations.get i).2 % e.kind.card}

theorem length_table (e : Enumeration) : e.table.length = e.declarations.length := by
  simp [table]

theorem constants_getElem? (e : Enumeration) (i : Fin e.declarations.length) :
    e.constants[i.val]? = some ((e.declarations.get i).1, e.constant i) := by
  simp [constants, constant]

theorem table_getElem? (e : Enumeration) (i : Fin e.declarations.length) :
    e.table[i.val]? = some ⟨(e.declarations.get i).1, (e.constant i).word⟩ := by
  simp [table, constant]

theorem members_getElem? (e : Enumeration) (i : Fin e.declarations.length) :
    e.members[i.val]? = some (e.constant i) := by
  simp [members, table_getElem?]

theorem table_get_cast (e : Enumeration) (i : Fin e.declarations.length) :
    e.table.get (i.cast e.length_table.symm) =
      ⟨(e.declarations.get i).1, (e.constant i).word⟩ := by
  obtain ⟨_, h⟩ := List.getElem?_eq_some_iff.1 (e.table_getElem? i)
  exact h

/-! ## Equal constants -/

theorem constant_eq_iff : e.constant i = e.constant j ↔
    (e.declarations.get i).2 % e.kind.card = (e.declarations.get j).2 % e.kind.card := by
  rw [Value.ext_iff, ← Word.ofInt_eq_ofInt_iff]
  rfl

theorem mem_matching_constant_iff : j.cast e.length_table.symm ∈
    e.table.matching (e.constant i).word ↔ j ∈ e.congruent i := by
  show (e.table.get _).Matches _ ↔ _
  rw [Member.matches_iff_eq, table_get_cast, ← Value.ext_iff]
  exact constant_eq_iff

theorem isLeast_matching_constant {first : Fin e.declarations.length}
    (h : IsLeast (e.congruent i) first) :
    IsLeast (e.table.matching (e.constant i).word) (first.cast e.length_table.symm) := by
  obtain ⟨hmem, hmin⟩ := h
  refine ⟨mem_matching_constant_iff.2 hmem, fun t ht => ?_⟩
  exact hmin (mem_matching_constant_iff (j := t.cast e.length_table) |>.1 ht)

theorem exists_first_declared (e : Enumeration) (i : Fin e.declarations.length) :
    ∃ first, IsLeast (e.congruent i) first := by
  obtain ⟨first, hmem, hmin⟩ := wellFounded_lt.has_min (e.congruent i) ⟨i, rfl⟩
  exact ⟨first, hmem, fun n hn => not_lt.1 (hmin n hn)⟩

/-! ## Names -/

theorem name_constant {first : Fin e.declarations.length} (h : IsLeast (e.congruent i) first) :
    (e.constant i).name = ⟨[], .ok (e.declarations.get first).1⟩ := by
  rw [name_of_isLeast (isLeast_matching_constant h), table_get_cast]
  rfl

theorem declared_name_inj (h : (e.declarations.get i).1 = (e.declarations.get j).1) : i = j := by
  have hi : i.val < (e.declarations.map Prod.fst).length := by simp
  have hj : j.val < (e.declarations.map Prod.fst).length := by simp
  have hname : (e.declarations.map Prod.fst)[i.val] = (e.declarations.map Prod.fst)[j.val] := by
    simpa using h
  exact Fin.ext ((List.getElem_inj e.names_nodup).1 hname)

theorem name_constant_eq_iff :
    (e.constant i).name = (e.constant j).name ↔ e.constant i = e.constant j := by
  constructor
  · intro h
    obtain ⟨first, hfirst⟩ := e.exists_first_declared i
    obtain ⟨first', hfirst'⟩ := e.exists_first_declared j
    rw [name_constant hfirst, name_constant hfirst'] at h
    simp only [Outcome.mk.injEq, Except.ok.injEq, true_and] at h
    -- names are declared once, so the two first positions are one
    obtain rfl := declared_name_inj h
    exact constant_eq_iff.2 (hfirst.1.symm.trans hfirst'.1)
  · intro h
    rw [h]

theorem decode_constant (e : Enumeration) (i : Fin e.declarations.length) :
    e.decode (e.constant i).word = ⟨[], .ok (some (e.constant i))⟩ := by
  obtain ⟨first, hfirst⟩ := e.exists_first_declared i
  -- the member that is found is the first one declared with the value, which is the value itself
  have hhit := hit_of_isLeast (isLeast_matching_constant hfirst)
  have heq : e.constant first = e.constant i := constant_eq_iff.2 hfirst.1
  rw [hhit.decode, table_get_cast, heq]

/-- How the constants at positions `i` and `j` stand in the table, the members and decoding. -/
structure ConstantLaws (e : Enumeration) (i j : Fin e.declarations.length) : Prop where
  lengths : e.constants.length = e.declarations.length ∧
    e.table.length = e.declarations.length ∧ e.members.length = e.declarations.length
  constant : e.constants[i.val]? = some ((e.declarations.get i).1, e.constant i)
  entry : e.table[i.val]? = some ⟨(e.declarations.get i).1, (e.constant i).word⟩
  member : e.members[i.val]? = some (e.constant i)
  congruent : ((e.constant i).word.toNat : Int) = (e.declarations.get i).2 % e.kind.card
  equal : e.constant i = e.constant j ↔
    (e.declarations.get i).2 % e.kind.card = (e.declarations.get j).2 % e.kind.card
  /-- The `name` is the first one declared with a congruent integer. -/
  named : ∃ first, IsLeast {n | (e.declarations.get n).2 % e.kind.card =
      (e.declarations.get i).2 % e.kind.card} first ∧
    (e.constant i).name = ⟨[], .ok (e.declarations.get first).1⟩ ∧
    (e.constant i).text = ⟨[], .ok (e.declarations.get first).1⟩ ∧
    ("NAME" ∉ e.declarations.map Prod.fst → (e.constant i).qualifiedName =
      ⟨[], .ok (e.name ++ "::" ++ (e.declarations.get first).1)⟩)
  sameName : (e.constant i).name = (e.constant j).name ↔ e.constant i = e.constant j
  decodes : e.decode (e.constant i).word = ⟨[], .ok (some (e.constant i))⟩

/-- **The views of a definition agree**: `constants`, `table` and `members` at each position, and
what `name` and `decode` find for a constant. -/
theorem constants_consistent (e : Enumeration) (i j : Fin e.declarations.length) :
    ConstantLaws e i j where
  lengths := ⟨by simp [constants], e.length_table, by simp [members, length_table]⟩
  constant := e.constants_getElem? i
  entry := e.table_getElem? i
  member := e.members_getElem? i
  congruent := Word.toNat_ofInt _
  equal := constant_eq_iff
  named := by
    obtain ⟨first, hfirst⟩ := e.exists_first_declared i
    have hname := name_constant hfirst
    refine ⟨first, hfirst, hname, hname, fun hhidden => ?_⟩
    rw [qualifiedName_eq_map (qualifier_of_notMem hhidden), hname]
    rfl
  sameName := name_constant_eq_iff
  decodes := e.decode_constant i

theorem constants_consistent_wrapped :
    "NAME" ∉ wrapped.declarations.map Prod.fst ∧
      wrapped.constant ⟨3, by decide⟩ = wrapped.constant ⟨2, by decide⟩ ∧
      (wrapped.constant ⟨3, by decide⟩).qualifiedName = ⟨[], .ok "Wrapped::MinusOne"⟩ := by
  have hhidden : "NAME" ∉ wrapped.declarations.map Prod.fst := by decide
  have hlaws := constants_consistent wrapped ⟨3, by decide⟩ ⟨2, by decide⟩
  obtain ⟨first, hfirst, -, -, hqualified⟩ := hlaws.named
  have hthird : first = ⟨2, by decide⟩ := by
    refine hfirst.unique ⟨by decide, fun n hn => ?_⟩
    revert n
    decide
  subst hthird
  exact ⟨hhidden, hlaws.equal.2 (by decide), hqualified hhidden⟩

end MachineInt.Enumeration
