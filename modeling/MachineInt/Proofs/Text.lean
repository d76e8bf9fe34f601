import Mathlib.Data.List.Basic
import MachineInt.Proofs.Correspondence
import MachineInt.Proofs.Numeral

/-!
# Texts of words

Every text of a word reads back as what it shows: the decimal one as the integer, the others as the
number of the pattern. With the name of the kind in front or behind, texts of different words are
different, since the letter that starts the name and the bracket behind it are found in no number.

* `Word.numeral_eq`: the sign, the mark and the digits of a word in any style.
* `Word.writes_text`: the styles that show the pattern.
* `Kind.toList_name`, `Kind.name_inj`: names of kinds.
* `Word.labelled_inj`, `TaggedWord.text_inj`: texts with the name of the kind.
* `texts_read_back`: all of it (`Word.TextLaws`), with the signs extended on the datapath.
-/

set_option autoImplicit false

namespace MachineInt

/-! ## Styles -/

namespace Style

def radix : Style → Radix
  | decimal => .decimal
  | lowerHex => .hexadecimal
  | upperHex => .hexadecimal
  | binary => .binary

/-- What a style makes of the letters of digits above nine, which are small ones. -/
def letter : Style → Char → Char
  | upperHex => Char.toUpper
  | _ => id

theorem keepsDigits_letter (style : Style) : Radix.KeepsDigits style.letter := by
  cases style with
  | upperHex => exact Radix.keepsDigits_toUpper
  | _ => exact Radix.keepsDigits_id

end Style

/-- The digits `cs` are canonical in base `r` and are read as `n`. -/
def Radix.Writes (r : Radix) (cs : List Char) (n : Nat) : Prop :=
  r.Canonical cs ∧ r.read? cs = some n

namespace Word

variable {k l : Kind}

def shown (a : Word k) : Style → Int
  | .decimal => a.toInt
  | _ => a.toNat

theorem numeral_eq (a : Word k) (style : Style) :
    a.numeral style = ⟨decide (a.shown style < 0), style.radix.mark,
      style.radix.spelled style.letter (a.shown style).natAbs⟩ := by
  cases style with
  | decimal => exact congrArg (Numeral.mk _ _) (Radix.spelled_id ..).symm
  | upperHex => exact Numeral.ofNatUpper_eq .hexadecimal a.toNat
  | lowerHex => exact Numeral.ofNat_eq .hexadecimal a.toNat
  | binary => exact Numeral.ofNat_eq .binary a.toNat

theorem writes_digits (a : Word k) (style : Style) :
    style.radix.Writes (a.numeral style).digits (a.shown style).natAbs := by
  rw [numeral_eq]
  exact ⟨Radix.canonical_spelled style.keepsDigits_letter _,
    Radix.read?_spelled style.keepsDigits_letter _⟩

theorem toList_text (a : Word k) (style : Style) :
    (a.text style).toList = (a.numeral style).plain := by
  rw [text, format, Layout.render_default, String.toList_ofList]

theorem toList_text_decimal (a : Word k) :
    (a.text .decimal).toList = (Numeral.ofInt a.toInt).plain :=
  a.toList_text .decimal

theorem toList_text_digits (a : Word k) {style : Style} (h : style ≠ .decimal) :
    (a.text style).toList = (a.numeral style).digits := by
  rw [toList_text]
  cases style with
  | decimal => exact absurd rfl h
  | _ => rfl

theorem natAbs_shown (a : Word k) {style : Style} (h : style ≠ .decimal) :
    (a.shown style).natAbs = a.toNat := by
  cases style with
  | decimal => exact absurd rfl h
  | _ => rfl

theorem writes_text (a : Word k) (style : Style) (h : style ≠ .decimal) :
    style.radix.Writes (a.text style).toList a.toNat := by
  rw [a.toList_text_digits h, ← a.natAbs_shown h]
  exact a.writes_digits style

/-- What holds of no digit of the style holds of no character that `a.text style` has. -/
theorem any_text_eq_false (a : Word k) (style : Style) {p : Char → Bool} (h : style ≠ .decimal)
    (hp : ∀ d < style.radix.base, p (style.letter d.digitChar) = false) :
    (a.text style).toList.any p = false := by
  rw [a.toList_text_digits h, numeral_eq, List.any_eq_false]
  intro c hc
  obtain ⟨d, hd, rfl⟩ := Radix.mem_spelled hc
  exact Bool.eq_false_iff.1 (hp d hd)

theorem kind_eq_and_toInt_eq_iff {a : Word k} {b : Word l} :
    k = l ∧ a.toInt = b.toInt ↔ k = l ∧ a.toNat = b.toNat := by
  refine and_congr_right fun h => ?_
  subst h
  rw [toInt_inj, toNat_inj]

end Word

/-! ## Names of kinds -/

theorem Size.bits_inj {s t : Size} (h : s.bits = t.bits) : s = t := by
  revert h
  cases s <;> cases t <;> decide

namespace Kind

variable {k l : Kind}

def letter (k : Kind) : Char := if k.signed then 'i' else 'u'

def bitDigits (k : Kind) : List Char := Nat.toDigits Radix.decimal.base k.bits

theorem toList_name (k : Kind) : k.name.toList = k.letter :: k.bitDigits := by
  unfold name letter
  rw [String.toList_append]
  show _ ++ k.bits.repr.toList = _
  rw [Nat.toList_repr]
  cases k.signed <;> rfl

theorem digitValue?_letter (k : Kind) : Radix.digitValue? k.letter = none := by
  unfold letter
  cases k.signed <;> rfl

theorem letter_ne_minus (k : Kind) : k.letter ≠ '-' := by
  unfold letter
  cases k.signed <;> decide

theorem letter_notMem_bitDigits (k l : Kind) : k.letter ∉ l.bitDigits :=
  (Radix.decimal.canonical_toDigits l.bits).notMem k.digitValue?_letter

theorem letter_notMem_plain (k : Kind) (n : Int) : k.letter ∉ (Numeral.ofInt n).plain :=
  Numeral.notMem_plain k.digitValue?_letter k.letter_ne_minus n

theorem bracket_notMem_name (k : Kind) : '(' ∉ k.name.toList := by
  rw [toList_name]
  refine List.not_mem_cons_of_ne_of_not_mem ?_
    ((Radix.decimal.canonical_toDigits k.bits).notMem rfl)
  unfold letter
  cases k.signed <;> decide

theorem letter_inj (h : k.letter = l.letter) : k.signed = l.signed := by
  unfold letter at h
  split at h <;> split at h <;> simp_all

theorem eq_of_letter_of_bitDigits (hletter : k.letter = l.letter)
    (hbits : k.bitDigits = l.bitDigits) : k = l := by
  have hread := Radix.decimal.read?_toDigits k.bits
  unfold bitDigits at hbits
  rw [hbits, Radix.read?_toDigits] at hread
  have hsize : k.size = l.size := Size.bits_inj (Option.some.inj hread).symm
  have hsigned := letter_inj hletter
  cases k
  cases l
  simp_all

theorem name_inj (h : k.name = l.name) : k = l := by
  have hlist := congrArg String.toList h
  rw [toList_name, toList_name] at hlist
  obtain ⟨hletter, hbits⟩ := List.cons.inj hlist
  exact eq_of_letter_of_bitDigits hletter hbits

end Kind

/-! ## Texts with the name of the kind -/

section

variable {k l : Kind}

theorem Word.labelled_inj (a : Word k) (b : Word l) :
    a.labelled = b.labelled ↔ k = l ∧ a.toNat = b.toNat := by
  -- the bracket ends the name, and the number is what the brackets hold
  have hlist (m : Kind) (c : Word m) : c.labelled.toList =
      m.name.toList ++ '(' :: ((Numeral.ofInt c.toInt).plain ++ [')']) := by
    simp [labelled, Numeral.decimal]
  rw [← kind_eq_and_toInt_eq_iff]
  constructor
  · intro h
    have hchars := congrArg String.toList h
    have hbracket : '(' ∉ (Numeral.ofInt a.toInt).plain ++ [')'] := by
      simp [Numeral.notMem_plain (c := '(') rfl (by decide) a.toInt]
    rw [hlist, hlist, List.append_cons_inj_of_notMem k.bracket_notMem_name hbracket] at hchars
    obtain ⟨hname, -, hplain⟩ := hchars
    exact ⟨Kind.name_inj (String.toList_inj.1 hname),
      Numeral.plain_ofInt_inj.1 (List.append_cancel_right hplain)⟩
  · rintro ⟨rfl, h⟩
    rw [Word.toInt_inj.1 h]

theorem Word.text_append_name_inj (a : Word k) (b : Word l) :
    a.text .decimal ++ k.name = b.text .decimal ++ l.name ↔ k = l ∧ a.toNat = b.toNat := by
  -- the letter of the kind ends the number
  have hlist (m : Kind) (c : Word m) : (c.text .decimal ++ m.name).toList =
      (Numeral.ofInt c.toInt).plain ++ m.letter :: m.bitDigits := by
    rw [String.toList_append, toList_text_decimal, Kind.toList_name]
  rw [← kind_eq_and_toInt_eq_iff]
  constructor
  · intro h
    have hchars := congrArg String.toList h
    rw [hlist, hlist, List.append_cons_inj_of_notMem (l.letter_notMem_plain _)
      (l.letter_notMem_bitDigits k)] at hchars
    obtain ⟨hplain, hletter, hbits⟩ := hchars
    exact ⟨Kind.eq_of_letter_of_bitDigits hletter hbits, Numeral.plain_ofInt_inj.1 hplain⟩
  · rintro ⟨rfl, h⟩
    rw [Word.toInt_inj.1 h]

end

namespace TaggedWord

theorem text_eq (t : TaggedWord) : t.text = t.word.text .decimal ++ t.kind.name := by
  rw [← text_ofWord, ofWord_word]

theorem text_inj (t u : TaggedWord) :
    t.text = u.text ↔ t.kind = u.kind ∧ t.register = u.register := by
  have hnat (v : TaggedWord) : v.word.toNat = v.register.toNat := by
    rw [← Word.toNat_register, ← register_ofWord, ofWord_word]
  rw [text_eq, text_eq, Word.text_append_name_inj, hnat, hnat, BitVec.toNat_inj]

end TaggedWord

/-- The texts of the words `a` and `b` and of the tagged words `t` and `u`, the signs of which the
datapath extends by shifting, or by a conversion to the widest kind. -/
structure Word.TextLaws {k l : Kind} (a : Word k) (b : Word l) (t u : TaggedWord) : Prop where
  decimal_iff (cs : List Char) : cs = (a.text .decimal).toList ↔
    Numeral.Canonical cs ∧ Numeral.readInt? cs = some a.toInt
  minus_iff : '-' ∈ (a.text .decimal).toList ↔ a.toInt < 0
  lowerHex : Radix.hexadecimal.Writes (a.text .lowerHex).toList a.toNat
  upperHex : Radix.hexadecimal.Writes (a.text .upperHex).toList a.toNat
  binary : Radix.binary.Writes (a.text .binary).toList a.toNat
  lowerHex_case : (a.text .lowerHex).toList.any Char.isUpper = false
  upperHex_case : (a.text .upperHex).toList.any Char.isLower = false
  toNat_eq : (a.toNat : Int) = if a.isNegative then a.toInt + k.card else a.toInt
  decimal_datapath : (Datapath.integer (.ofWord a)).map Numeral.decimal = .ok (a.text .decimal)
  tagged_datapath :
    (Datapath.taggedInteger (.ofTagged t)).map Numeral.decimal = .ok (t.word.text .decimal)
  text_tagged : t.text = t.word.text .decimal ++ t.kind.name
  labelled_eq : a.labelled = k.name ++ "(" ++ a.text .decimal ++ ")"
  labelled_inj : a.labelled = b.labelled ↔ k = l ∧ a.toNat = b.toNat
  text_inj : t.text = u.text ↔ t.kind = u.kind ∧ t.register = u.register

/-- **Texts read back**: `decimal` as the integer, the other styles as the pattern, and with the
name of the kind as the word itself. -/
theorem texts_read_back {k l : Kind} (a : Word k) (b : Word l) (t u : TaggedWord) :
    Word.TextLaws a b t u where
  decimal_iff cs := by
    rw [Word.toList_text_decimal]
    exact Numeral.eq_plain_iff
  minus_iff := by
    rw [Word.toList_text_decimal]
    exact Numeral.minus_mem_plain_iff
  lowerHex := a.writes_text .lowerHex (by decide)
  upperHex := a.writes_text .upperHex (by decide)
  binary := a.writes_text .binary (by decide)
  lowerHex_case := a.any_text_eq_false .lowerHex (by decide) (by decide)
  upperHex_case := a.any_text_eq_false .upperHex (by decide) (by decide)
  toNat_eq := by
    split
    · rename_i hneg
      rw [Word.toInt_of_isNegative hneg, Int.sub_add_cancel]
    · rename_i hneg
      rw [Word.toInt_of_not_isNegative hneg]
  decimal_datapath := by
    rw [Datapath.integer_ofWord, Word.text_decimal]
    rfl
  tagged_datapath := by
    rw [Datapath.taggedInteger_ofTagged, Word.text_decimal, ← TaggedWord.toInt_ofWord,
      t.ofWord_word]
    rfl
  text_tagged := t.text_eq
  labelled_eq := by rw [Word.labelled, Word.text_decimal]
  labelled_inj := a.labelled_inj b
  text_inj := t.text_inj u

end MachineInt
