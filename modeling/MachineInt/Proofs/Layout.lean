import MachineInt.Proofs.Text

/-!
# Numbers in a field

What the flags of a layout say and what they do to a number. `Flags` has the parts of the flags as
they are written, and reading takes exactly what can be written so. A number is filled up to the
width and no further, around its own text or, with zeros, in front of its digits, so it can always
be found in the field, and with zeros the field reads as the number.

* `Flags.ofFlags?_eq_some_iff`: the flags that are read, and as what.
* `Layout.length_render`: the length of a field.
* `Layout.core_sublist_render`: the text of the number is kept.
* `Radix.readSigned?_lead_append`: a number with its sign and mark reads back.
* `format_fills_field`: all of it, for words (`Word.Fills`).
-/

set_option autoImplicit false

namespace MachineInt

/-! ## Flags -/

/-- The character that asks for an alignment, the inverse of `ofChar?`. -/
def Alignment.char : Alignment → Char
  | left => '<'
  | center => '^'
  | right => '>'

theorem Alignment.ofChar?_eq_some_iff {c : Char} {a : Alignment} :
    ofChar? c = some a ↔ c = a.char := by
  constructor
  · unfold ofChar?
    split
    all_goals
      rintro ⟨⟩
      try rfl
  · rintro rfl
    cases a <;> rfl

/-- Flags by their parts: the `place` with a filling character or without, and which of the other
three are there. -/
structure Flags where
  place : Option (Option Char × Alignment) := none
  plus : Bool := false
  marked : Bool := false
  zeros : Bool := false

namespace Flags

def writtenPlace : Option (Option Char × Alignment) → List Char
  | none => []
  | some (none, a) => [a.char]
  | some (some c, a) => [c, a.char]

def writtenFlag (c : Char) (present : Bool) : List Char := if present then [c] else []

def writtenRest (f : Flags) : List Char :=
  writtenFlag '+' f.plus ++ (writtenFlag '#' f.marked ++ writtenFlag '0' f.zeros)

def written (f : Flags) : List Char := writtenPlace f.place ++ f.writtenRest

def fill (f : Flags) : Char := (f.place.bind Prod.fst).getD ' '

def align (f : Flags) : Alignment := (f.place.map Prod.snd).getD .right

def layout (f : Flags) (width : Nat) : Layout :=
  { fill := f.fill, align := f.align, plus := f.plus, marked := f.marked, zeros := f.zeros, width }

/-- The flags for the sign and the mark alone, without `place` and `zeros`. -/
def bare (f : Flags) : Flags := { plus := f.plus, marked := f.marked }

theorem splitFlag_written {c : Char} {cs : List Char} (h : c ∉ cs) (present : Bool) :
    Layout.splitFlag c (writtenFlag c present ++ cs) = (present, cs) := by
  cases present with
  | true => simp [writtenFlag, Layout.splitFlag]
  | false =>
    cases cs with
    | nil => rfl
    | cons d ds =>
      have hne : d ≠ c := fun hd => h (hd ▸ List.mem_cons_self ..)
      simp [writtenFlag, Layout.splitFlag, hne]

theorem written_of_splitFlag {c : Char} {cs rest : List Char} {present : Bool}
    (h : Layout.splitFlag c cs = (present, rest)) : cs = writtenFlag c present ++ rest := by
  unfold Layout.splitFlag at h
  split at h
  · cases h
    rfl
  · split at h
    · cases h
      subst_vars
      rfl
    · cases h
      rfl

theorem ofChar?_of_mem_writtenRest {f : Flags} {c : Char} (h : c ∈ f.writtenRest) :
    Alignment.ofChar? c = none := by
  have hmem : c = '+' ∨ c = '#' ∨ c = '0' := by
    simp only [writtenRest, writtenFlag, List.mem_append] at h
    rcases h with h | h | h <;> split at h <;> simp_all
  rcases hmem with rfl | rfl | rfl <;> rfl

theorem splitAlignment_written (f : Flags) :
    Layout.splitAlignment f.written = (f.fill, f.align, f.writtenRest) := by
  have hhead : f.writtenRest.head?.bind Alignment.ofChar? = none := by
    rw [Option.bind_eq_none_iff]
    exact fun c hc => ofChar?_of_mem_writtenRest (List.mem_of_mem_head? hc)
  have hchar (a : Alignment) : Alignment.ofChar? a.char = some a :=
    Alignment.ofChar?_eq_some_iff.2 rfl
  unfold written fill align
  -- without an alignment, the first two flags must not look like one with a filling character
  rcases f.place with _ | ⟨_ | c, a⟩
  · rw [writtenPlace, List.nil_append]
    cases hrest : f.writtenRest with
    | nil => rfl
    | cons c cs =>
      have hnone (d : Char) (hd : d ∈ c :: cs) : Alignment.ofChar? d = none :=
        ofChar?_of_mem_writtenRest (hrest ▸ hd)
      have hnext : cs.head?.bind Alignment.ofChar? = none := by
        rw [Option.bind_eq_none_iff]
        exact fun d hd => hnone d (List.mem_cons_of_mem c (List.mem_of_mem_head? hd))
      simp [Layout.splitAlignment, hnext, hnone]
  · simp [writtenPlace, Layout.splitAlignment, hhead, hchar]
  · simp [writtenPlace, Layout.splitAlignment, hchar]

theorem exists_of_splitAlignment {cs rest : List Char} {c : Char} {a : Alignment}
    (h : Layout.splitAlignment cs = (c, a, rest)) :
    ∃ place, cs = writtenPlace place ++ rest ∧ c = (place.bind Prod.fst).getD ' ' ∧
      a = (place.map Prod.snd).getD .right := by
  unfold Layout.splitAlignment at h
  split at h
  · cases h
    exact ⟨none, rfl, rfl, rfl⟩
  · rename_i d ds
    split at h
    -- the second character asks for an alignment, so the first one is the filling, whatever it is
    · rename_i b _ hnext
      cases h
      obtain ⟨e, hhead, hb⟩ := Option.bind_eq_some_iff.1 hnext
      obtain rfl := Alignment.ofChar?_eq_some_iff.1 hb
      exact ⟨some (some c, a), by rw [writtenPlace, ← List.cons_head?_tail hhead]; rfl, rfl, rfl⟩
    · rename_i b _ hb
      cases h
      obtain rfl := Alignment.ofChar?_eq_some_iff.1 hb
      exact ⟨some (none, a), rfl, rfl, rfl⟩
    · cases h
      exact ⟨none, rfl, rfl, rfl⟩

theorem ofFlags?_written (f : Flags) (width : Nat) :
    Layout.ofFlags? f.written width = some (f.layout width) := by
  have hmarked : '#' ∉ writtenFlag '0' f.zeros := by
    unfold writtenFlag
    split <;> decide
  have hplus : '+' ∉ writtenFlag '#' f.marked ++ writtenFlag '0' f.zeros := by
    unfold writtenFlag
    split <;> split <;> decide
  have hzeros : Layout.splitFlag '0' (writtenFlag '0' f.zeros) = (f.zeros, []) := by
    rw [← List.append_nil (writtenFlag '0' f.zeros)]
    exact splitFlag_written List.not_mem_nil f.zeros
  unfold Layout.ofFlags?
  rw [splitAlignment_written]
  unfold writtenRest
  simp only [splitFlag_written hplus, splitFlag_written hmarked, hzeros]
  rfl

/-- **The flags that are read** are those that can be `written`, and they mean what was written. -/
theorem ofFlags?_eq_some_iff {cs : List Char} {width : Nat} {l : Layout} :
    Layout.ofFlags? cs width = some l ↔ ∃ f : Flags, cs = f.written ∧ l = f.layout width := by
  constructor
  · intro h
    unfold Layout.ofFlags? at h
    obtain ⟨c, a, rest, hplace⟩ : ∃ c a rest, Layout.splitAlignment cs = (c, a, rest) :=
      ⟨_, _, _, rfl⟩
    obtain ⟨plus, rest₁, hplus⟩ : ∃ b r, Layout.splitFlag '+' rest = (b, r) := ⟨_, _, rfl⟩
    obtain ⟨marked, rest₂, hmarked⟩ : ∃ b r, Layout.splitFlag '#' rest₁ = (b, r) := ⟨_, _, rfl⟩
    obtain ⟨zeros, rest₃, hzeros⟩ : ∃ b r, Layout.splitFlag '0' rest₂ = (b, r) := ⟨_, _, rfl⟩
    simp only [hplace, hplus, hmarked, hzeros] at h
    split at h
    · rename_i hempty
      cases h
      obtain ⟨place, rfl, rfl, rfl⟩ := exists_of_splitAlignment hplace
      obtain rfl := List.isEmpty_iff.1 hempty
      refine ⟨{ place, plus, marked, zeros }, ?_, rfl⟩
      rw [written_of_splitFlag hplus, written_of_splitFlag hmarked, written_of_splitFlag hzeros,
        List.append_nil]
      rfl
    · cases h
  · rintro ⟨f, rfl, rfl⟩
    exact f.ofFlags?_written width

/-- The flags in common use are all read. -/
example : (["", "+", "#", "0", "+0", "#0", "+#", "+#0", "<", ">", "^", "*<", "*>", "*^", "0>", "0<",
    "→^", "<0", "^#", "*^+#", "*<#0", "*>+"].all fun s =>
      (Layout.ofFlags? s.toList 0).isSome) = true := by decide

end Flags

/-! ## Fields -/

theorem Alignment.before_le (a : Alignment) (missing : Nat) : a.before missing ≤ missing := by
  cases a <;> simp only [before] <;> omega

namespace Layout

variable {l : Layout} {n : Numeral}

theorem length_core (l : Layout) (n : Numeral) :
    (l.core n).length = (l.lead n).length + n.digits.length := List.length_append

theorem render_of_zeros (h : l.zeros = true) :
    l.render n = l.lead n ++ List.replicate (l.missing n) '0' ++ n.digits := by
  simp [render, h]

theorem render_of_no_zeros (h : l.zeros = false) :
    l.render n = List.replicate (l.align.before (l.missing n)) l.fill ++ l.core n ++
      List.replicate (l.missing n - l.align.before (l.missing n)) l.fill := by
  simp [render, h]

/-- **The length of a field** is `l.width`, or that of a number that is longer. -/
theorem length_render (l : Layout) (n : Numeral) :
    (l.render n).length = max l.width (l.core n).length := by
  have hcore := l.length_core n
  have hbefore := l.align.before_le (l.missing n)
  cases hzeros : l.zeros with
  | true =>
    rw [render_of_zeros hzeros, List.length_append, List.length_append, List.length_replicate]
    unfold missing
    omega
  | false =>
    rw [render_of_no_zeros hzeros, List.length_append, List.length_append, List.length_replicate,
      List.length_replicate]
    unfold missing at *
    omega

theorem render_of_width_le (h : l.width ≤ (l.core n).length) : l.render n = l.core n := by
  have hmissing : l.missing n = 0 := Nat.sub_eq_zero_of_le h
  have hbefore : l.align.before 0 = 0 := Nat.le_zero.1 (l.align.before_le 0)
  cases hzeros : l.zeros with
  | true =>
    rw [render_of_zeros hzeros, hmissing]
    simp [core]
  | false =>
    rw [render_of_no_zeros hzeros, hmissing, hbefore]
    simp

theorem core_sublist_render (l : Layout) (n : Numeral) : (l.core n).Sublist (l.render n) := by
  cases hzeros : l.zeros with
  | true =>
    rw [render_of_zeros hzeros, core]
    exact (List.sublist_append_left ..).append_right _
  | false =>
    rw [render_of_no_zeros hzeros, List.append_assoc]
    exact (List.sublist_append_left ..).trans (List.sublist_append_right ..)

def sign (l : Layout) (n : Numeral) : List Char :=
  if n.negative then ['-'] else if l.plus then ['+'] else []

theorem lead_eq (l : Layout) (n : Numeral) :
    l.lead n = l.sign n ++ if l.marked then n.mark else [] := rfl

end Layout

theorem Flags.render_bare (f : Flags) (width : Nat) (n : Numeral) :
    (f.bare.layout 0).render n = (f.layout width).core n :=
  Layout.render_of_width_le (Nat.zero_le _)

/-! ## Fields that read back -/

namespace Radix

variable {r : Radix} {cs : List Char}

/-- Reads a magnitude, with the `mark` of the base in front or without. -/
def readMarked? (r : Radix) (cs : List Char) : Option Nat :=
  r.read? (if r.mark.isPrefixOf cs then cs.drop r.mark.length else cs)

/-- Reads an integer, with a sign and the `mark` of the base in front or without. -/
def readSigned? (r : Radix) : List Char → Option Int
  | '-' :: cs => (r.readMarked? cs).map fun m : Nat => -(m : Int)
  | '+' :: cs => (r.readMarked? cs).map fun m : Nat => (m : Int)
  | cs => (r.readMarked? cs).map fun m : Nat => (m : Int)

theorem isDigit_zero (r : Radix) : r.IsDigit '0' := ⟨0, r.base_pos, rfl⟩

theorem exists_mem_mark (h : r.mark ≠ []) : ∃ c ∈ r.mark, ¬r.IsDigit c := by
  cases r with
  | binary =>
    refine ⟨'b', by decide, ?_⟩
    rintro ⟨d, hd, hvalue⟩
    cases hvalue
    exact absurd hd (by decide)
  | decimal => exact absurd rfl h
  | hexadecimal =>
    refine ⟨'x', by decide, ?_⟩
    rintro ⟨d, -, hvalue⟩
    cases hvalue

theorem readMarked?_append (h : ∀ c ∈ cs, r.IsDigit c) (marked : Bool) :
    r.readMarked? ((if marked then r.mark else []) ++ cs) = r.read? cs := by
  unfold readMarked?
  cases marked with
  | true => simp
  | false =>
    rw [if_neg Bool.false_ne_true, List.nil_append]
    split
    -- digits that happen to start with the mark: there are none, as it is not made of digits
    · rename_i hmark
      by_cases hnil : r.mark = []
      · rw [hnil]
        rfl
      · obtain ⟨c, hc, hdigit⟩ := exists_mem_mark hnil
        have hsub := (List.isPrefixOf_iff_prefix.1 hmark).subset
        exact absurd (h c (hsub hc)) hdigit
    · rfl

theorem readSigned?_minus (r : Radix) (cs : List Char) :
    r.readSigned? ('-' :: cs) = (r.readMarked? cs).map fun m : Nat => -(m : Int) := rfl

theorem readSigned?_plus (r : Radix) (cs : List Char) :
    r.readSigned? ('+' :: cs) = (r.readMarked? cs).map fun m : Nat => (m : Int) := rfl

theorem readSigned?_of_notMem (hminus : '-' ∉ cs) (hplus : '+' ∉ cs) :
    r.readSigned? cs = (r.readMarked? cs).map fun m : Nat => (m : Int) := by
  unfold readSigned?
  split
  · simp at hminus
  · simp at hplus
  · rfl

theorem notMem_mark_append {c : Char} (h : ∀ c ∈ cs, r.IsDigit c) (hc : digitValue? c = none)
    (hmark : c ∉ r.mark) (marked : Bool) : c ∉ (if marked then r.mark else []) ++ cs := by
  have hdigits : c ∉ cs := by
    intro hmem
    obtain ⟨d, -, hvalue⟩ := h c hmem
    rw [hc] at hvalue
    cases hvalue
  cases marked <;> simp [hdigits, hmark]

/-- **A sign, a mark and digits** are read as the integer `i` that they show. -/
theorem readSigned?_lead_append {i : Int} {n : Numeral} (l : Layout)
    (hsign : n.negative = decide (i < 0)) (hmark : n.mark = r.mark)
    (hdigits : ∀ c ∈ cs, r.IsDigit c) (hread : r.read? cs = some i.natAbs) :
    r.readSigned? (l.lead n ++ cs) = some i := by
  have hmarked : r.readMarked? ((if l.marked then r.mark else []) ++ cs) = some i.natAbs := by
    rw [readMarked?_append hdigits, hread]
  rw [Layout.lead_eq, Layout.sign, hsign, hmark, List.append_assoc]
  by_cases hneg : i < 0
  · rw [if_pos (decide_eq_true hneg), List.singleton_append, readSigned?_minus, hmarked,
      Option.map_some, Int.ofNat_natAbs_of_nonpos (by omega), Int.neg_neg]
  · have habs : ((i.natAbs : Nat) : Int) = i := Int.natAbs_of_nonneg (by omega)
    have hvalue : (some i.natAbs).map (fun m : Nat => (m : Int)) = some i := by
      rw [Option.map_some, habs]
    rw [if_neg (by simpa using hneg)]
    cases l.plus with
    | true => rw [if_pos rfl, List.singleton_append, readSigned?_plus, hmarked, hvalue]
    | false =>
      -- without a sign, neither the mark nor a digit can be taken for one
      have hminus := notMem_mark_append (c := '-') hdigits rfl (by cases r <;> decide) l.marked
      have hplus := notMem_mark_append (c := '+') hdigits rfl (by cases r <;> decide) l.marked
      rw [if_neg Bool.false_ne_true, List.nil_append, readSigned?_of_notMem hminus hplus, hmarked,
        hvalue]

end Radix

/-! ## Words in a field -/

namespace Word

variable {k : Kind}

theorem toList_format (a : Word k) (style : Style) (l : Layout) :
    (a.format style l).toList = l.render (a.numeral style) := String.toList_ofList

theorem length_format (a : Word k) (style : Style) (l : Layout) :
    (a.format style l).length = (l.render (a.numeral style)).length := String.length_ofList

theorem sign_numeral (a : Word k) (style : Style) (l : Layout) : l.sign (a.numeral style) =
    if a.shown style < 0 then ['-'] else if l.plus then ['+'] else [] := by
  rw [numeral_eq]
  simp only [Layout.sign, decide_eq_true_eq]

theorem lead_numeral (a : Word k) (style : Style) (l : Layout) : l.lead (a.numeral style) =
    l.sign (a.numeral style) ++ if l.marked then style.radix.mark else [] := by
  rw [Layout.lead_eq, numeral_eq]

theorem readSigned?_zeros (a : Word k) (style : Style) (l : Layout) (m : Nat) :
    style.radix.readSigned? (l.lead (a.numeral style) ++
      (List.replicate m '0' ++ (a.numeral style).digits)) = some (a.shown style) := by
  obtain ⟨hcanonical, hread⟩ := a.writes_digits style
  have hnumeral := a.numeral_eq style
  refine Radix.readSigned?_lead_append l (congrArg Numeral.negative hnumeral)
    (congrArg Numeral.mark hnumeral) (fun c hc => ?_) ?_
  · rcases List.mem_append.1 hc with hc | hc
    · rw [List.eq_of_mem_replicate hc]
      exact Radix.isDigit_zero _
    · exact hcanonical.isDigit hc
  · rw [Radix.read?_zeros_append hcanonical.ne_nil, hread]

end Word

/-- The parts of a field: the text without a width (`core`) and its three parts, the text with the
width, and how many filling characters that has on either side. -/
structure FieldParts where
  core : String
  field : String
  sign : List Char
  mark : List Char
  digits : List Char
  before : Nat
  after : Nat

/-- The word `a` fills a field of a `width`, of which `p` has the parts. Filling goes around the
core, or with `zeros` between the mark and the digits, whatever the alignment. -/
structure Word.Fills {k : Kind} (a : Word k) (style : Style) (flags : Flags) (width : Nat)
    (p : FieldParts) : Prop where
  core : (Layout.ofFlags? flags.bare.written 0).map (a.format style) = some p.core
  field : (Layout.ofFlags? flags.written width).map (a.format style) = some p.field
  core_eq : p.core.toList = p.sign ++ p.mark ++ p.digits
  sign_eq : p.sign = if a.shown style < 0 then ['-'] else if flags.plus then ['+'] else []
  mark_eq : p.mark = if flags.marked then style.radix.mark else []
  digits : style.radix.Writes p.digits (a.shown style).natAbs
  reads_core : style.radix.readSigned? p.core.toList = some (a.shown style)
  length_field : p.field.length = max width p.core.length
  core_sublist : p.core.toList.Sublist p.field.toList
  fill_eq : p.before + p.after = width - p.core.length
  shares : match flags.align with
    | .left => p.before = 0
    | .center => p.before = (width - p.core.length) / 2
    | .right => p.after = 0
  zeros (h : flags.zeros = true) : p.field.toList =
    p.sign ++ p.mark ++ List.replicate (width - p.core.length) '0' ++ p.digits
  reads_zeros (h : flags.zeros = true) :
    style.radix.readSigned? p.field.toList = some (a.shown style)
  filled (h : flags.zeros = false) : p.field.toList = List.replicate p.before flags.fill ++
    p.core.toList ++ List.replicate p.after flags.fill

def Word.fieldParts {k : Kind} (a : Word k) (style : Style) (flags : Flags) (width : Nat) :
    FieldParts :=
  let l := flags.layout width
  let n := a.numeral style
  { core := a.format style (flags.bare.layout 0)
    field := a.format style l
    sign := l.sign n
    mark := if flags.marked then style.radix.mark else []
    digits := n.digits
    before := flags.align.before (l.missing n)
    after := l.missing n - flags.align.before (l.missing n) }

theorem Word.fills_fieldParts {k : Kind} (a : Word k) (style : Style) (flags : Flags)
    (width : Nat) : a.Fills style flags width (a.fieldParts style flags width) := by
  have hlead := a.lead_numeral style (flags.layout width)
  have hreads := a.readSigned?_zeros style (flags.layout width)
  have hfield := a.toList_format style (flags.layout width)
  have hcore : (a.format style (flags.bare.layout 0)).toList =
      (flags.layout width).core (a.numeral style) := by
    rw [a.toList_format, flags.render_bare width]
  have hlength : (a.format style (flags.bare.layout 0)).length =
      ((flags.layout width).core (a.numeral style)).length := by
    rw [a.length_format, flags.render_bare width]
  have hzeros (hz : flags.zeros = true) := hfield.trans
    (Layout.render_of_zeros (l := flags.layout width) (n := a.numeral style) hz)
  exact
    { core := congrArg _ (flags.bare.ofFlags?_written 0)
      field := congrArg _ (flags.ofFlags?_written width)
      core_eq := by
        rw [fieldParts, hcore, Layout.core, hlead]
        rfl
      sign_eq := a.sign_numeral style _
      mark_eq := rfl
      digits := a.writes_digits style
      reads_core := by
        rw [fieldParts, hcore]
        exact hreads 0
      length_field := by
        rw [fieldParts, a.length_format, Layout.length_render, hlength]
        rfl
      core_sublist := by
        rw [fieldParts, hcore, hfield]
        exact Layout.core_sublist_render _ _
      fill_eq := by
        rw [fieldParts, hlength]
        exact Nat.add_sub_of_le (flags.align.before_le _)
      shares := by
        rw [fieldParts, hlength]
        cases flags.align with
        | left => rfl
        | center => rfl
        | right => exact Nat.sub_self _
      zeros := fun hz => by
        rw [fieldParts, hzeros hz, hlength, hlead]
        rfl
      reads_zeros := fun hz => by
        rw [fieldParts, hzeros hz, List.append_assoc]
        exact hreads _
      filled := fun hz => by
        rw [fieldParts, hfield, hcore]
        exact Layout.render_of_no_zeros (l := flags.layout width) hz }

/-- **A word fills a field**, of any width and for all flags that are read, which are those that can
be `written`. -/
theorem format_fills_field {k : Kind} (a : Word k) (style : Style) (flags : Flags) (width : Nat) :
    (∀ cs l, Layout.ofFlags? cs width = some l ↔
      ∃ f : Flags, cs = f.written ∧ l = f.layout width) ∧
    ∃ parts, a.Fills style flags width parts :=
  ⟨fun _ _ => Flags.ofFlags?_eq_some_iff, _, a.fills_fieldParts style flags width⟩

end MachineInt
