import MachineInt.Proofs.Enumeration.Decoding

/-!
# When a value has a name

Looking up a name decodes the value in the kind of the enumeration and halts on a miss, while the
value itself may have been found by a probe of any kind. The halt is out of reach all the same,
because decoding hands out the values of the table and never the probe:

* `mem_members_iff_declares`: the members are the values of declared integers.
* `name_of_mem`, `name_of_notMem`: a member has a name, and any other value halts.
* `qualifiedName_eq_map`: the qualifier is always there, so a qualified name is a name with
  something in front.
* `Obtained.mem_members`: every way to get hold of a value gives a member.
* `names_of_obtained`: **only a value wrapped by hand can lack a name.**
-/

set_option autoImplicit false

namespace MachineInt

/-! ## Halting -/

namespace Outcome

variable {α β : Type}

def Halts (x : Outcome α) : Prop := ∃ cause, x.result = .error cause

theorem not_halts_pure (a : α) : ¬(pure a : Outcome α).Halts := by
  rintro ⟨cause, h⟩
  cases h

theorem halts_map_iff (f : α → β) (x : Outcome α) : (f <$> x).Halts ↔ x.Halts := by
  obtain ⟨log, cause | a⟩ := x
  · exact ⟨fun _ => ⟨cause, rfl⟩, fun _ => ⟨cause, rfl⟩⟩
  · constructor
    · rintro ⟨cause, h⟩
      cases h
    · rintro ⟨cause, h⟩
      cases h

end Outcome

namespace Enumeration

variable {e : Enumeration} {v : e.Value}

/-! ## Members -/

theorem members_eq_map_constants (e : Enumeration) : e.members = e.constants.map Prod.snd := by
  simp [members, table, constants]

theorem mem_members_iff_constant : v ∈ e.members ↔ ∃ c ∈ e.constants, c.2 = v := by
  rw [members_eq_map_constants, List.mem_map]

theorem mem_members_iff : v ∈ e.members ↔ ∃ m ∈ e.table, m.value = v.word := by
  simp only [members, List.mem_map, Value.ext_iff]

/-- The integer of some declaration is congruent to `x` modulo the number of words. -/
def Declares (e : Enumeration) (x : Word e.kind) : Prop :=
  ∃ d ∈ e.declarations, d.2 % e.kind.card = x.toInt % e.kind.card

theorem mem_members_iff_declares : v ∈ e.members ↔ e.Declares v.word := by
  simp only [Declares, mem_members_iff, table, List.mem_map, exists_exists_and_eq_and,
    ← Word.ofInt_eq_ofInt_iff, Word.ofInt_toInt]

theorem matching_word_eq_empty_iff : e.table.matching v.word = ∅ ↔ v ∉ e.members := by
  simp [Table.matching_eq_empty_iff, mem_members_iff, Member.matches_iff_eq]

/-! ## Names -/

theorem name_of_isLeast {i : Fin e.table.length} (h : IsLeast (e.table.matching v.word) i) :
    v.name = pure (e.table.get i).name := by
  unfold Value.name
  rw [Table.decodeOrHalt_of_isLeast h]
  rfl

theorem name_of_mem (h : v ∈ e.members) : ∃ name, v.name = pure name := by
  obtain ⟨i, hi⟩ | hempty := e.table.exists_isLeast_or_eq_empty v.word
  · exact ⟨_, name_of_isLeast hi⟩
  · exact absurd h (matching_word_eq_empty_iff.1 hempty)

theorem name_of_notMem (h : v ∉ e.members) :
    v.name = ⟨[e.table.unmatched v.word, .halting (e.table.notMember v.word)],
      .error (e.table.notMember v.word)⟩ := by
  unfold Value.name
  rw [Table.decodeOrHalt_of_eq_empty (matching_word_eq_empty_iff.2 h)]
  rfl

theorem halts_name_iff : v.name.Halts ↔ v ∉ e.members := by
  constructor
  · intro hhalts hmem
    obtain ⟨name, hname⟩ := name_of_mem hmem
    rw [hname] at hhalts
    exact Outcome.not_halts_pure name hhalts
  · intro h
    exact ⟨e.table.notMember v.word, by rw [name_of_notMem h]⟩

/-! ## Qualified names -/

theorem exists_qualifier (e : Enumeration) : ∃ q, e.qualifier = pure q := by
  unfold qualifier
  split
  · rename_i v hlookup
    -- what is found under `NAME` is a constant, and so it is a member
    obtain ⟨before, after, hconstants, -⟩ := List.lookup_eq_some_iff.1 hlookup
    exact name_of_mem (mem_members_iff_constant.2 ⟨("NAME", v), by simp [hconstants], rfl⟩)
  · exact ⟨e.name, rfl⟩

theorem qualifier_of_notMem (h : "NAME" ∉ e.declarations.map Prod.fst) :
    e.qualifier = pure e.name := by
  have hlookup : e.constants.lookup "NAME" = none := by
    rw [List.lookup_eq_none_iff]
    intro c hc
    obtain ⟨d, hd, rfl⟩ := List.mem_map.1 hc
    have hne : "NAME" ≠ d.1 := fun heq => h (heq ▸ List.mem_map_of_mem hd)
    simpa using hne
  unfold qualifier
  rw [hlookup]

theorem qualifiedName_eq_map {q : String} (h : e.qualifier = pure q) :
    v.qualifiedName = (fun name => q ++ "::" ++ name) <$> v.name := by
  unfold Value.qualifiedName
  rw [h]
  rfl

/-- A member called `NAME` stands in front of the others, by the first name of its value. -/
example :
    let sign : Enumeration :=
      { name := "Sign", kind := .u8, declarations := [("Plus", 0), ("NAME", 0), ("Minus", 1)] }
    (⟨.ofInt 1⟩ : sign.Value).qualifiedName = ⟨[], .ok "Plus::Minus"⟩ := rfl

theorem halts_qualifiedName_iff : v.qualifiedName.Halts ↔ v ∉ e.members := by
  obtain ⟨q, hq⟩ := e.exists_qualifier
  rw [qualifiedName_eq_map hq, Outcome.halts_map_iff, halts_name_iff]

/-! ## Values at hand -/

/-- A value of `constants`, of `members`, or from decoding some probe. -/
inductive Obtained (e : Enumeration) : e.Value → Prop
  | constant {c : String × e.Value} : c ∈ e.constants → Obtained e c.2
  | member {v : e.Value} : v ∈ e.members → Obtained e v
  | decode {l : Kind} {probe : Word l} {v : e.Value} :
      (e.decode probe).result = .ok (some v) → Obtained e v
  | decodeOrError {l : Kind} {probe : Word l} {v : e.Value} :
      (e.decodeOrError probe).result = .ok (.ok v) → Obtained e v
  | decodeOrHalt {l : Kind} {probe : Word l} {v : e.Value} :
      (e.decodeOrHalt probe).result = .ok v → Obtained e v

theorem mem_members_of_get (i : Fin e.table.length) :
    (⟨(e.table.get i).value⟩ : e.Value) ∈ e.members :=
  mem_members_iff.2 ⟨_, List.get_mem e.table i, rfl⟩

theorem Obtained.mem_members (h : e.Obtained v) : v ∈ e.members := by
  cases h with
  | constant hc => exact mem_members_iff_constant.2 ⟨_, hc, rfl⟩
  | member hv => exact hv
  | @decode l probe v hv =>
    obtain ⟨i, hi⟩ | hmiss := e.hit_or_miss probe
    · rw [hi.decode] at hv
      cases hv
      exact mem_members_of_get i
    · rw [hmiss.decode] at hv
      cases hv
  | @decodeOrError l probe v hv =>
    obtain ⟨i, hi⟩ | hmiss := e.hit_or_miss probe
    · rw [hi.decodeOrError] at hv
      cases hv
      exact mem_members_of_get i
    · rw [hmiss.decodeOrError] at hv
      cases hv
  | @decodeOrHalt l probe v hv =>
    obtain ⟨i, hi⟩ | hmiss := e.hit_or_miss probe
    · rw [hi.decodeOrHalt] at hv
      cases hv
      exact mem_members_of_get i
    · rw [hmiss.decodeOrHalt] at hv
      cases hv

/-- **Names of values at hand**: a value that is `Obtained` has a name, a text and a qualified name
without a report or a halt. A word wrapped by hand halts exactly if it is not one that
`Declares`. -/
theorem names_of_obtained (e : Enumeration) :
    (∀ v : e.Value, e.Obtained v →
      (∃ name, v.name = ⟨[], .ok name⟩) ∧ (∃ text, v.text = ⟨[], .ok text⟩) ∧
      (∃ qualified, v.qualifiedName = ⟨[], .ok qualified⟩) ∧ ∃ c ∈ e.constants, c.2 = v) ∧
    ∀ x : Word e.kind, ((⟨x⟩ : e.Value).name.Halts ↔ ¬e.Declares x) ∧
      ((⟨x⟩ : e.Value).text.Halts ↔ ¬e.Declares x) ∧
      ((⟨x⟩ : e.Value).qualifiedName.Halts ↔ ¬e.Declares x) := by
  refine ⟨fun v hv => ?_, fun x => ?_⟩
  · have hmem := hv.mem_members
    obtain ⟨name, hname⟩ := name_of_mem hmem
    obtain ⟨q, hq⟩ := e.exists_qualifier
    refine ⟨⟨name, hname⟩, ⟨name, hname⟩, ⟨q ++ "::" ++ name, ?_⟩,
      mem_members_iff_constant.1 hmem⟩
    rw [qualifiedName_eq_map hq, hname]
    rfl
  · have hdeclares : (⟨x⟩ : e.Value) ∉ e.members ↔ ¬e.Declares x :=
      not_congr mem_members_iff_declares
    have hname := halts_name_iff.trans hdeclares
    exact ⟨hname, hname, halts_qualifiedName_iff.trans hdeclares⟩

def wrapped : Enumeration where
  name := "Wrapped"
  kind := .i8
  declarations := [("Top", 127), ("Bottom", 128), ("MinusOne", 255), ("AlsoMinusOne", -1),
    ("Zero", 256), ("Far", -1000)]

theorem names_of_obtained_wide_probe :
    wrapped.Obtained ⟨.ofInt (-1)⟩ ∧
      ∃ name, (⟨.ofInt (-1)⟩ : wrapped.Value).name = ⟨[], .ok name⟩ := by
  have hdecode : (wrapped.decode (.ofInt 0xffff : Word .u16)).result =
      .ok (some ⟨.ofInt (-1)⟩) := by decide
  have hobtained : wrapped.Obtained ⟨.ofInt (-1)⟩ := .decode hdecode
  exact ⟨hobtained, ((names_of_obtained wrapped).1 _ hobtained).1⟩

end Enumeration

end MachineInt
