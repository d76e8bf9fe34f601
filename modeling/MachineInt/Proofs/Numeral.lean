import Mathlib.Tactic.IntervalCases
import MachineInt.Bounded

/-!
# Numerals that read back

Reading takes a digit of either case and does not mind zeros in front. Of the texts that it takes
for a certain number, the canonical one has no zero that could be left out.

* `Radix.read?_spelled`, `Radix.canonical_spelled`: the digits of a number, in either case, are
  canonical and read as the number.
* `Radix.read?_zeros_append`: zeros in front of digits do not change what they read as.
* `Radix.eq_toDigits`: canonical decimal digits are those of the number they read as.
* `Numeral.eq_plain_iff`: the text of an integer is the only canonical one that reads as it.
-/

set_option autoImplicit false

namespace MachineInt

/-! ## Digits -/

namespace Radix

variable {r : Radix} {letter : Char → Char} {c : Char} {cs : List Char} {d m n : Nat}

theorem base_le (r : Radix) : r.base ≤ 16 := by
  cases r <;> decide

theorem base_pos (r : Radix) : 0 < r.base := Nat.lt_of_lt_of_le (by decide) r.two_le_base

/-- The character `c` is a digit of base `r`, in either case. -/
def IsDigit (r : Radix) (c : Char) : Prop := ∃ d < r.base, digitValue? c = some d

/-- The canonical numerals of base `r`: a single zero, or digits of which the first is none. -/
inductive Canonical (r : Radix) : List Char → Prop
  | zero : Canonical r ['0']
  | lead {c : Char} {cs : List Char} : c ≠ '0' → (∀ x ∈ c :: cs, r.IsDigit x) →
      Canonical r (c :: cs)

/-- Digits are still read as what they stand for when `letter` changes them. -/
def KeepsDigits (letter : Char → Char) : Prop := ∀ d < 16, digitValue? (letter d.digitChar) = some d

theorem keepsDigits_id : KeepsDigits id := by
  intro d hd
  interval_cases d <;> rfl

theorem keepsDigits_toUpper : KeepsDigits Char.toUpper := by
  intro d hd
  interval_cases d <;> rfl

theorem digitChar_of_digitValue? (hd : d < 10) (h : digitValue? c = some d) : d.digitChar = c := by
  -- only digits above nine are read in two cases
  unfold digitValue? at h
  split at h
  · rename_i hc
    have hlow : 48 ≤ c.toNat := hc.1
    have hvalue : c.toNat - 48 = d := Option.some.inj h
    apply Char.toNat_inj.1
    rw [Nat.toNat_digitChar_of_lt_ten hd]
    omega
  · split at h
    · have hvalue : c.toNat - 97 + 10 = d := Option.some.inj h
      omega
    · split at h
      · have hvalue : c.toNat - 65 + 10 = d := Option.some.inj h
        omega
      · cases h

/-! ## Reading -/

theorem readDigit?_eq_some_iff : r.readDigit? m c = some n ↔
    ∃ d < r.base, digitValue? c = some d ∧ n = r.base * m + d := by
  unfold readDigit?
  rw [Option.bind_eq_some_iff]
  constructor
  · rintro ⟨d, hvalue, hn⟩
    split at hn
    · exact ⟨d, ‹_›, hvalue, (Option.some.inj hn).symm⟩
    · cases hn
  · rintro ⟨d, hd, hvalue, rfl⟩
    exact ⟨d, hvalue, if_pos hd⟩

theorem readDigit?_of_lt (hd : d < r.base) (h : digitValue? c = some d) (m : Nat) :
    r.readDigit? m c = some (r.base * m + d) :=
  readDigit?_eq_some_iff.2 ⟨d, hd, h, rfl⟩

theorem readDigit?_zero (r : Radix) : r.readDigit? 0 '0' = some 0 := by
  rw [readDigit?_of_lt r.base_pos rfl]
  rfl

theorem read?_of_ne_nil (h : cs ≠ []) : r.read? cs = cs.foldlM r.readDigit? 0 := by
  simp [read?, h]

theorem Canonical.ne_nil (h : r.Canonical cs) : cs ≠ [] := by
  cases h <;> simp

theorem Canonical.isDigit (h : r.Canonical cs) (hc : c ∈ cs) : r.IsDigit c := by
  cases h with
  | zero => exact ⟨0, r.base_pos, by rw [List.mem_singleton.1 hc]; rfl⟩
  | lead _ hdigits => exact hdigits c hc

theorem Canonical.notMem (h : r.Canonical cs) (hc : digitValue? c = none) : c ∉ cs := by
  intro hmem
  obtain ⟨d, -, hvalue⟩ := h.isDigit hmem
  rw [hc] at hvalue
  cases hvalue

/-- **Zeros in front** of `cs` are read as nothing. -/
theorem read?_zeros_append (h : cs ≠ []) (m : Nat) :
    r.read? (List.replicate m '0' ++ cs) = r.read? cs := by
  rw [read?_of_ne_nil (by simp [h]), read?_of_ne_nil h]
  induction m with
  | zero => rfl
  | succ m ih =>
    rw [List.replicate_succ, List.cons_append, List.foldlM_cons, r.readDigit?_zero]
    exact ih

/-! ## The digits of a number -/

/-- Induction on the digits of a number, where the last one comes off (`digit`). -/
theorem digit_induction (r : Radix) {motive : Nat → Prop} (digit : ∀ n < r.base, motive n)
    (append : ∀ n, r.base ≤ n → motive (n / r.base) → motive n) (n : Nat) : motive n := by
  induction n using Nat.strongRecOn with
  | ind n ih =>
    rcases Nat.lt_or_ge n r.base with hlt | hle
    · exact digit n hlt
    · have hpos : 0 < n := Nat.lt_of_lt_of_le r.base_pos hle
      exact append n hle (ih (n / r.base) (Nat.div_lt_self hpos r.two_le_base))

/-- The digits of `n` in base `r`, each changed by `letter`. -/
def spelled (r : Radix) (letter : Char → Char) (n : Nat) : List Char :=
  (Nat.toDigits r.base n).map letter

theorem spelled_of_lt (h : n < r.base) : r.spelled letter n = [letter n.digitChar] := by
  rw [spelled, Nat.toDigits_of_lt_base h]
  rfl

theorem spelled_of_le (h : r.base ≤ n) :
    r.spelled letter n = r.spelled letter (n / r.base) ++ [letter (n % r.base).digitChar] := by
  rw [spelled, Nat.toDigits_of_base_le r.two_le_base h, List.map_append]
  rfl

theorem spelled_ne_nil : r.spelled letter n ≠ [] := by
  simp [spelled, Nat.toDigits_ne_nil]

theorem mem_spelled (h : c ∈ r.spelled letter n) : ∃ d < r.base, c = letter d.digitChar := by
  induction n using r.digit_induction with
  | digit n hlt =>
    rw [spelled_of_lt hlt, List.mem_singleton] at h
    exact ⟨n, hlt, h⟩
  | append n hle ih =>
    rw [spelled_of_le hle, List.mem_append, List.mem_singleton] at h
    rcases h with h | h
    · exact ih h
    · exact ⟨n % r.base, Nat.mod_lt n r.base_pos, h⟩

theorem read?_spelled (hletter : KeepsDigits letter) (n : Nat) :
    r.read? (r.spelled letter n) = some n := by
  have hvalue (d : Nat) (hd : d < r.base) : digitValue? (letter d.digitChar) = some d :=
    hletter d (Nat.lt_of_lt_of_le hd r.base_le)
  rw [read?_of_ne_nil spelled_ne_nil]
  induction n using r.digit_induction with
  | digit n hlt =>
    rw [spelled_of_lt hlt, List.foldlM_cons, readDigit?_of_lt hlt (hvalue n hlt), Nat.mul_zero,
      Nat.zero_add]
    rfl
  | append n hle ih =>
    have hmod := Nat.mod_lt n r.base_pos
    rw [spelled_of_le hle, List.foldlM_append, ih]
    show (do let m ← some (n / r.base); [letter (n % r.base).digitChar].foldlM r.readDigit? m) = _
    simp [readDigit?_of_lt hmod (hvalue _ hmod), Nat.div_add_mod]

theorem isDigit_of_mem_spelled (hletter : KeepsDigits letter) (h : c ∈ r.spelled letter n) :
    r.IsDigit c := by
  obtain ⟨d, hd, rfl⟩ := mem_spelled h
  exact ⟨d, hd, hletter d (Nat.lt_of_lt_of_le hd r.base_le)⟩

theorem spelled_eq_cons (hletter : KeepsDigits letter) (hn : n ≠ 0) :
    ∃ c cs, r.spelled letter n = c :: cs ∧ c ≠ '0' := by
  induction n using r.digit_induction with
  | digit n hlt =>
    refine ⟨_, _, spelled_of_lt hlt, fun hzero => hn ?_⟩
    have hvalue := hletter n (Nat.lt_of_lt_of_le hlt r.base_le)
    rw [hzero] at hvalue
    exact (Option.some.inj hvalue).symm
  | append n hle ih =>
    -- more than one digit: the first one stays when the last one comes off
    have hpos := Nat.div_pos hle r.base_pos
    obtain ⟨c, cs, hcs, hc⟩ := ih (by omega)
    exact ⟨c, _, by rw [spelled_of_le hle, hcs]; rfl, hc⟩

theorem canonical_spelled (hletter : KeepsDigits letter) (n : Nat) :
    r.Canonical (r.spelled letter n) := by
  by_cases hn : n = 0
  · subst hn
    have hzero : '0' = letter '0' := digitChar_of_digitValue? (by decide) (hletter 0 (by decide))
    rw [spelled_of_lt r.base_pos]
    show r.Canonical [letter '0']
    rw [← hzero]
    exact .zero
  · obtain ⟨c, cs, hcs, hc⟩ := spelled_eq_cons (r := r) hletter hn
    rw [hcs]
    exact .lead hc fun x hx => isDigit_of_mem_spelled hletter (hcs ▸ hx)

/-! ## Canonical decimals -/

/-- Digits `cs` after a number that is not zero go on with its own digits. -/
theorem toDigits_append (hm : 0 < m) (h : cs.foldlM decimal.readDigit? m = some n) :
    Nat.toDigits decimal.base m ++ cs = Nat.toDigits decimal.base n := by
  induction cs generalizing m with
  | nil =>
    obtain rfl : m = n := Option.some.inj h
    exact List.append_nil _
  | cons c cs ih =>
    rw [List.foldlM_cons] at h
    obtain ⟨_, hdigit, hrest⟩ := Option.bind_eq_some_iff.1 h
    obtain ⟨d, hd, hvalue, rfl⟩ := readDigit?_eq_some_iff.1 hdigit
    -- the number stays above zero, so the next digit goes on with it again
    have hpos := Nat.add_pos_left (Nat.mul_pos decimal.base_pos hm) d
    calc Nat.toDigits decimal.base m ++ c :: cs
        = Nat.toDigits decimal.base m ++ Nat.toDigits decimal.base d ++ cs := by
          rw [Nat.toDigits_of_lt_base hd, digitChar_of_digitValue? hd hvalue, List.append_assoc]
          rfl
      _ = Nat.toDigits decimal.base (decimal.base * m + d) ++ cs := by
          rw [Nat.toDigits_append_toDigits decimal.two_le_base hm hd]
      _ = Nat.toDigits decimal.base n := ih hpos hrest

/-- **Canonical digits** are those of the number `n` that they are read as. -/
theorem eq_toDigits (hcs : decimal.Canonical cs) (h : decimal.read? cs = some n) :
    cs = Nat.toDigits decimal.base n := by
  cases hcs with
  | zero =>
    obtain rfl : 0 = n := Option.some.inj h
    rfl
  | @lead c cs hc _ =>
    rw [read?_of_ne_nil (List.cons_ne_nil c cs), List.foldlM_cons] at h
    obtain ⟨_, hdigit, hrest⟩ := Option.bind_eq_some_iff.1 h
    obtain ⟨d, hd, hvalue, rfl⟩ := readDigit?_eq_some_iff.1 hdigit
    have hchar := digitChar_of_digitValue? hd hvalue
    have hpos : 0 < d := by
      rcases Nat.eq_zero_or_pos d with rfl | hpos
      · exact absurd hchar.symm hc
      · exact hpos
    rw [Nat.mul_zero, Nat.zero_add] at hrest
    rw [← toDigits_append hpos hrest, Nat.toDigits_of_lt_base hd, hchar]
    rfl

theorem spelled_id (r : Radix) (n : Nat) : r.spelled id n = Nat.toDigits r.base n := List.map_id _

theorem read?_toDigits (r : Radix) (n : Nat) : r.read? (Nat.toDigits r.base n) = some n := by
  rw [← spelled_id, read?_spelled keepsDigits_id]

theorem canonical_toDigits (r : Radix) (n : Nat) : r.Canonical (Nat.toDigits r.base n) := by
  rw [← spelled_id]
  exact canonical_spelled keepsDigits_id n

end Radix

namespace Numeral

/-! ## Magnitudes -/

theorem ofNat_eq (r : Radix) (n : Nat) :
    ofNat r n = ⟨decide ((n : Int) < 0), r.mark, r.spelled id (n : Int).natAbs⟩ := by
  rw [decide_eq_false (by omega), Radix.spelled_id]
  rfl

theorem ofNatUpper_eq (r : Radix) (n : Nat) :
    ofNatUpper r n = ⟨decide ((n : Int) < 0), r.mark, r.spelled Char.toUpper (n : Int).natAbs⟩ := by
  rw [decide_eq_false (by omega)]
  rfl

/-! ## Integers -/

variable {cs : List Char} {m n : Int}

/-- The canonical texts of integers: `-` may stand in front of all canonical digits but a single
zero. -/
inductive Canonical : List Char → Prop
  | magnitude {cs : List Char} : Radix.decimal.Canonical cs → Canonical cs
  | negative {cs : List Char} : Radix.decimal.Canonical cs → cs ≠ ['0'] → Canonical ('-' :: cs)

theorem readInt?_minus (cs : List Char) :
    readInt? ('-' :: cs) = (Radix.decimal.read? cs).map fun m : Nat => -(m : Int) := by
  rw [readInt?]
  cases Radix.decimal.read? cs <;> rfl

theorem readInt?_of_minus_notMem (h : '-' ∉ cs) :
    readInt? cs = (Radix.decimal.read? cs).map fun m : Nat => (m : Int) := by
  unfold readInt?
  split
  · simp at h
  · cases Radix.decimal.read? cs <;> rfl

theorem plain_ofInt_of_neg (h : n < 0) :
    (ofInt n).plain = '-' :: Nat.toDigits Radix.decimal.base n.natAbs := by
  simp [plain, ofInt, h]

theorem plain_ofInt_of_nonneg (h : 0 ≤ n) :
    (ofInt n).plain = Nat.toDigits Radix.decimal.base n.natAbs := by
  simp [plain, ofInt, Int.not_lt.2 h]

theorem canonical_plain (n : Int) : Canonical (ofInt n).plain := by
  by_cases hn : n < 0
  · rw [plain_ofInt_of_neg hn]
    refine .negative (Radix.canonical_toDigits _ _) fun hzero => ?_
    have hread := Radix.decimal.read?_toDigits n.natAbs
    rw [hzero] at hread
    have hvalue : 0 = n.natAbs := Option.some.inj hread
    omega
  · rw [plain_ofInt_of_nonneg (Int.not_lt.1 hn)]
    exact .magnitude (Radix.canonical_toDigits _ _)

theorem readInt?_plain (n : Int) : readInt? (ofInt n).plain = some n := by
  have hread := Radix.decimal.read?_toDigits n.natAbs
  by_cases hn : n < 0
  · rw [plain_ofInt_of_neg hn, readInt?_minus, hread, Option.map_some,
      Int.ofNat_natAbs_of_nonpos (by omega), Int.neg_neg]
  · rw [plain_ofInt_of_nonneg (Int.not_lt.1 hn),
      readInt?_of_minus_notMem ((Radix.canonical_toDigits _ _).notMem rfl), hread,
      Option.map_some, Int.natAbs_of_nonneg (Int.not_lt.1 hn)]

/-- **The text of an integer** is the one `Canonical` text that is read as it. -/
theorem eq_plain_iff : cs = (ofInt n).plain ↔ Canonical cs ∧ readInt? cs = some n := by
  constructor
  · rintro rfl
    exact ⟨canonical_plain n, readInt?_plain n⟩
  · rintro ⟨hcs, h⟩
    cases hcs with
    | magnitude hcs =>
      rw [readInt?_of_minus_notMem (hcs.notMem rfl)] at h
      obtain ⟨m, hread, rfl⟩ := Option.map_eq_some_iff.1 h
      rw [plain_ofInt_of_nonneg (Int.natCast_nonneg m), Int.natAbs_natCast]
      exact Radix.eq_toDigits hcs hread
    | @negative cs hcs hne =>
      rw [readInt?_minus] at h
      obtain ⟨m, hread, rfl⟩ := Option.map_eq_some_iff.1 h
      have hdigits := Radix.eq_toDigits hcs hread
      -- a minus sign in front of a single zero is not canonical
      have hm : m ≠ 0 := by
        rintro rfl
        exact hne hdigits
      rw [plain_ofInt_of_neg (by omega), Int.natAbs_neg, Int.natAbs_natCast, ← hdigits]

theorem notMem_plain {c : Char} (hc : Radix.digitValue? c = none) (hminus : c ≠ '-') (n : Int) :
    c ∉ (ofInt n).plain := by
  have hdigits := (Radix.canonical_toDigits .decimal n.natAbs).notMem hc
  by_cases hn : n < 0
  · rw [plain_ofInt_of_neg hn]
    exact List.not_mem_cons_of_ne_of_not_mem hminus hdigits
  · rwa [plain_ofInt_of_nonneg (Int.not_lt.1 hn)]

theorem minus_mem_plain_iff : '-' ∈ (ofInt n).plain ↔ n < 0 := by
  by_cases hn : n < 0
  · rw [plain_ofInt_of_neg hn]
    exact iff_of_true (List.mem_cons_self ..) hn
  · rw [plain_ofInt_of_nonneg (Int.not_lt.1 hn)]
    exact iff_of_false ((Radix.canonical_toDigits _ _).notMem rfl) hn

theorem plain_ofInt_inj : (ofInt m).plain = (ofInt n).plain ↔ m = n := by
  constructor
  · intro h
    have hread := readInt?_plain m
    rw [h, readInt?_plain] at hread
    exact (Option.some.inj hread).symm
  · rintro rfl
    rfl

end Numeral

end MachineInt
