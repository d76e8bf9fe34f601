import MachineInt.Datapath.Script
import MachineInt.Proofs.Bytes
import MachineInt.Proofs.Datapath.Arith
import MachineInt.Proofs.Datapath.Shift
import MachineInt.Proofs.Reduction

/-!
# Runs on the datapath

A script that starts from any pattern and takes its operands from patterns, constants, integers,
bytes or earlier results runs on the datapath without a fault, and every slot it makes is clear
above its kind.

* `resolve_ofTagged`, `unary_ofWord`, `binary_ofWord`, `step_ofTagged`: one step comes to what
  `Step.apply` says, on slots of tagged words.
* `runFrom_ofTagged`: so does a run, by induction on its steps. What it keeps is that the history
  and the accumulator are slots of tagged words, which fit.
* `Slot.Fits.safe`: no operation on a slot that fits faults.
* `run_safe`: both together, from any pattern.
-/

set_option autoImplicit false

namespace MachineInt.Datapath

variable {k l : Kind}

/-! ## Slots of words and of tagged words -/

theorem ofTagged_ofWord (a : Word k) : Slot.ofTagged (.ofWord a) = .ofWord a :=
  Slot.ext rfl (TaggedWord.register_ofWord a)

theorem ofWord_word (t : TaggedWord) : Slot.ofWord t.word = .ofTagged t := by
  rw [← ofTagged_ofWord, t.ofWord_word]

theorem Slot.Fits.exists_ofTagged {s : Slot} (h : s.Fits) : ∃ t, s = .ofTagged t :=
  ⟨⟨s.kind, s.register, h⟩, rfl⟩

theorem ofTagged_fits (t : TaggedWord) : (Slot.ofTagged t).Fits := t.fits

theorem ofWord_fits (a : Word k) : (Slot.ofWord a).Fits := by
  rw [← ofTagged_ofWord]
  exact ofTagged_fits _

theorem map_ofTagged_map_ofWord (x : Except Refusal (Word k)) :
    (x.map TaggedWord.ofWord).map Slot.ofTagged = x.map Slot.ofWord := by
  cases x with
  | error refusal => rfl
  | ok a => exact congrArg Except.ok (ofTagged_ofWord a)

/-! ## What cannot be refused -/

theorem accept_of_eq {x : Run Slot} {s : Slot} (h : x = .ok s) :
    (Except.ok <$> x : Run (Except Refusal Slot)) = .ok (.ok s) := by
  rw [h]
  rfl

theorem accept_ofWord {x : Run Slot} {a : Word k} (h : x = .ok (.ofWord a)) :
    (Except.ok <$> x : Run (Except Refusal Slot)) =
      .ok ((Except.ok (TaggedWord.ofWord a)).map .ofTagged) := by
  rw [accept_of_eq h, ← ofTagged_ofWord]
  rfl

/-! ## Operands -/

theorem readOrRefuse_eq (k : Kind) (o : ByteOrder) (bytes : List UInt8) :
    readOrRefuse k o bytes = .ok ((TaggedWord.readOrRefuse k o bytes).map .ofTagged) := by
  unfold readOrRefuse TaggedWord.readOrRefuse
  rw [read_eq, ok_bind]
  cases Word.read k o bytes with
  | error e => rfl
  | ok a =>
    show Except.ok (Except.ok (Slot.ofWord a)) = .ok (.ok (.ofTagged (.ofWord a)))
    rw [ofTagged_ofWord]

theorem resolve_ofTagged (history : Array TaggedWord) (operand : Operand) :
    resolve (history.map .ofTagged) operand = .ok ((operand.resolve history).map .ofTagged) := by
  cases operand with
  | pattern kind register => exact accept_of_eq (keep_eq kind register)
  | constant kind which => exact accept_ofWord (constant_eq kind which)
  | bounded kind source value =>
    exact accept_ofWord (cast_eq_ofWord kind ⟨source, value.register⟩)
  | bytes kind order content => exact readOrRefuse_eq kind order content
  | entry index =>
    simp only [resolve, Operand.resolve, Array.getElem?_map]
    cases history[index]? <;> rfl

theorem withOperand_ofTagged (history : Array TaggedWord) (operand : Operand)
    {f : Slot → Run (Except Refusal Slot)} {g : TaggedWord → Except Refusal TaggedWord}
    (h : ∀ t, f (.ofTagged t) = .ok ((g t).map .ofTagged)) :
    withOperand (history.map .ofTagged) operand f =
      .ok ((operand.resolve history >>= g).map .ofTagged) := by
  unfold withOperand
  rw [resolve_ofTagged, ok_bind]
  cases operand.resolve history with
  | error refusal => rfl
  | ok t => exact h t

theorem withOperand_map (history : Array TaggedWord) (operand : Operand)
    {f : Slot → Run (Except Refusal Slot)} {g : TaggedWord → TaggedWord}
    (h : ∀ t, f (.ofTagged t) = .ok (.ok (.ofTagged (g t)))) :
    withOperand (history.map .ofTagged) operand f =
      .ok (((operand.resolve history).map g).map .ofTagged) := by
  have hbind : (operand.resolve history).map g =
      operand.resolve history >>= fun t => .ok (g t) := by
    cases operand.resolve history <;> rfl
  rw [hbind]
  exact withOperand_ofTagged history operand h

/-! ## Operations -/

theorem unary_ofWord (op : UnaryOp) (a : Word k) :
    unary op (.ofWord a) = .ok ((op.apply a).map .ofWord) := by
  cases op with
  | abs => exact accept_of_eq (abs_ofWord a)
  | complement => exact accept_of_eq (complement_ofWord a)
  | negate =>
    show (if k.signed then Except.ok <$> negate (.ofWord a) else _) = _
    unfold UnaryOp.apply
    simp only
    split
    · exact accept_of_eq (negate_ofWord a)
    · rfl

theorem binary_ofWord (op : BinaryOp) (a : Word k) (b : Word l) :
    binary op (.ofWord a) (.ofWord b) = .ok ((op.apply a b).map .ofWord) := by
  cases op with
  | arith op => exact accept_of_eq (arith_ofWord op a b)
  | bitwise op =>
    show (if l = k then Except.ok <$> bitwise op (.ofWord a) (.ofWord b) else _) =
      .ok (((b.sameKind k).map fun b => op.apply a b).map _)
    unfold Word.sameKind
    split
    · subst l
      exact accept_of_eq (bitwise_ofWord op a b)
    · rfl
  | shift d =>
    cases d with
    | left => exact accept_of_eq (shiftLeft_ofWord a b)
    | right => exact accept_of_eq (shiftRight_ofWord a b)

theorem ofCount_eq (k : Kind) (n : Nat) : ofCount k n = .ok (.ofWord (Word.ofCount k n)) := by
  unfold ofCount
  rw [keep_ofNat, ok_bind, cast_ofWord]
  unfold Word.ofCount Word.ofInt
  rw [BitVec.ofInt_natCast]

theorem tag_ofWord (a : Word k) : tag (.ofWord a) = .ok (.ofWord a) :=
  keep_of_setWidth_eq (setWidth_register a)

theorem byteSwap_ofWord (a : Word k) : byteSwap (.ofWord a) = .ok (.ofWord a.byteSwap) := by
  have hlen : (List.replicate (Slot.ofWord a).kind.bytes (0 : UInt8)).length = k.bytes :=
    List.length_replicate ..
  have hread : read k .big (a.toBytes .little) = .ok (.ok (.ofWord a.byteSwap)) := by
    rw [read_eq, Word.read_of_length .big (by simp)]
    rfl
  unfold byteSwap
  rw [write_ofWord, ok_bind, a.write_of_length .little hlen]
  show read k .big (a.toBytes .little) >>= _ = _
  rw [hread]
  rfl

theorem compare_eq_lt_iff (a b : Word k) : compare a.toInt b.toInt = .lt ↔ a < b := by
  rw [Int.compare_eq_lt, Word.lt_iff_toInt]

theorem choose_ofWord (a b x y : Word k) :
    (do let o ← order (.ofWord b) (.ofWord a)
        pure (if o = .lt then Slot.ofWord x else Slot.ofWord y)) =
      (.ok (.ofWord (if b < a then x else y)) : Run Slot) := by
  rw [order_ofWord, ok_bind]
  simp only [compare_eq_lt_iff]
  split <;> rfl

theorem max_ofWord (a b : Word k) : max (.ofWord a) (.ofWord b) = .ok (.ofWord (Max.max a b)) :=
  choose_ofWord a b a b

theorem min_ofWord (a b : Word k) : min (.ofWord a) (.ofWord b) = .ok (.ofWord (Min.min a b)) :=
  choose_ofWord a b b a

/-! ## Steps and runs -/

theorem recode_ofWord (order back : ByteOrder) (buffer : List UInt8) (kind : Kind) (a : Word k) :
    (do let written ← write order (.ofWord a) buffer
        match written.error? with
        | none => readOrRefuse kind back written.buffer
        | some e => pure (.error (.failed e))) =
      (.ok ((match (a.write order buffer).error? with
        | none => TaggedWord.readOrRefuse kind back (a.write order buffer).buffer
        | some e => .error (.failed e)).map .ofTagged) : Run (Except Refusal Slot)) := by
  rw [write_ofWord, ok_bind]
  cases (a.write order buffer).error? with
  | none => exact readOrRefuse_eq kind back _
  | some e => rfl

theorem step_ofTagged (history : Array TaggedWord) (acc : TaggedWord) (s : Step) :
    step (history.map .ofTagged) (.ofTagged acc) s = .ok ((s.apply history acc).map .ofTagged) := by
  -- a slot that holds a tagged word holds a word, so each step is the operation on words
  rw [← ofWord_word acc]
  cases s with
  | unary op =>
    show unary op (.ofWord acc.word) = .ok (((op.apply acc.word).map .ofWord).map .ofTagged)
    rw [unary_ofWord, map_ofTagged_map_ofWord]
  | binary op operand =>
    refine withOperand_ofTagged history operand fun t => ?_
    show binary op (.ofWord acc.word) (.ofTagged t) =
      .ok (((op.apply acc.word t.word).map .ofWord).map .ofTagged)
    rw [← ofWord_word t, binary_ofWord, map_ofTagged_map_ofWord]
  | cast kind => exact accept_ofWord (cast_ofWord kind acc.word)
  | tag => exact accept_ofWord (tag_ofWord acc.word)
  | castTagged kind =>
    -- the conversion is masked twice, and the second mask takes nothing off
    have hcast : acc.cast kind = .ofWord (acc.word.cast kind) := by
      rw [← TaggedWord.cast_ofWord, acc.ofWord_word]
    show (do let tagged ← tag (.ofWord acc.word); let converted ← cast kind tagged
             Except.ok <$> cast kind converted) = .ok (.ok (.ofTagged (.ofWord _)))
    rw [tag_ofWord, ok_bind, cast_ofWord, ok_bind, TaggedWord.ofWord_word, hcast]
    exact accept_ofWord (by rw [cast_ofWord, Word.cast_self])
  | flipSign => exact accept_ofWord (cast_ofWord acc.kind.flipSign acc.word)
  | byteSwap => exact accept_ofWord (byteSwap_ofWord acc.word)
  | recode order buffer kind back => exact recode_ofWord order back buffer kind acc.word
  | leadingZeros =>
    show (do let n ← leadingZeros (.ofWord acc.word); Except.ok <$> ofCount acc.kind n) = _
    rw [leadingZeros_ofWord, ok_bind]
    exact accept_ofWord (ofCount_eq acc.kind _)
  | countOnes =>
    show Except.ok <$> ofCount acc.kind (countOnes (.ofWord acc.word)) = _
    rw [countOnes_ofWord]
    exact accept_ofWord (ofCount_eq acc.kind _)
  | max operand =>
    refine withOperand_map history operand fun t => ?_
    show (do let b ← cast acc.kind (.ofTagged t); Except.ok <$> max (.ofWord acc.word) b) = _
    rw [← ofWord_word t, cast_ofWord, ok_bind]
    exact accept_ofWord (max_ofWord acc.word (t.word.cast acc.kind))
  | min operand =>
    refine withOperand_map history operand fun t => ?_
    show (do let b ← cast acc.kind (.ofTagged t); Except.ok <$> min (.ofWord acc.word) b) = _
    rw [← ofWord_word t, cast_ofWord, ok_bind]
    exact accept_ofWord (min_ofWord acc.word (t.word.cast acc.kind))
  | load operand =>
    have hid : operand.resolve history = (operand.resolve history).map id := by
      cases operand.resolve history <;> rfl
    show _ = Except.ok ((operand.resolve history).map _)
    rw [hid]
    exact withOperand_map history operand fun _ => rfl

theorem runFrom_ofTagged (history : Array TaggedWord) (acc : TaggedWord) (steps : List Step) :
    runFrom (history.map .ofTagged) (.ofTagged acc) steps =
      .ok ((Script.runFrom history acc steps).map (Except.map .ofTagged)) := by
  induction steps generalizing history acc with
  | nil => rfl
  | cons s rest ih =>
    unfold runFrom Script.runFrom
    rw [step_ofTagged, ok_bind]
    cases s.apply history acc with
    | error refusal =>
      -- a refused step leaves the accumulator and the history as they were
      show (do let later ← runFrom (history.map .ofTagged) (.ofTagged acc) rest
               pure (Except.error refusal :: later)) = _
      rw [ih]
      rfl
    | ok next =>
      have hnext := ih (history.push next) next
      rw [Array.map_push] at hnext
      show (do let later ← runFrom ((history.map Slot.ofTagged).push (.ofTagged next))
                 (.ofTagged next) rest
               pure (Except.ok (Slot.ofTagged next) :: later)) = _
      rw [hnext]
      rfl

theorem run_ofTagged (start : TaggedWord) (steps : List Step) :
    run (.ofTagged start) steps =
      .ok ((Script.run start steps).map (Except.map .ofTagged)) := by
  have h := runFrom_ofTagged #[start] start steps
  rw [List.map_toArray] at h
  exact h

/-! ## Safety -/

/-- Every checked step in an operation on `s` stays within the machine's bounds, whatever kind,
bytes, buffer or fitting count comes with it. -/
structure Slot.Safe (s : Slot) : Prop where
  mask : ∃ m, Datapath.mask s.kind = .ok m
  /-- A conversion looks at `topBit` of an unsigned slot, too. -/
  topBit : ∃ b, Datapath.topBit s.kind s.register = .ok b
  isNegative : ∃ b, Datapath.isNegative s = .ok b
  signExtend : ∃ r, Datapath.signExtend s = .ok r
  leadingZeros : ∃ n, Datapath.leadingZeros s = .ok n ∧ n ≤ s.kind.bits
  cast : ∀ k, ∃ t, Datapath.cast k s = .ok t ∧ t.Fits
  shift : ∀ count : Slot, count.Fits → (∃ t, Datapath.shiftLeft s count = .ok t ∧ t.Fits) ∧
    ∃ t, Datapath.shiftRight s count = .ok t ∧ t.Fits
  read : ∀ o bytes, ∃ t?, Datapath.read s.kind o bytes = .ok t? ∧
    ((∃ t, t? = .ok t ∧ t.Fits) ↔ bytes.length = s.kind.bytes)
  write : ∀ o buffer, ∃ written, Datapath.write o s buffer = .ok written ∧
    (written.error? = none ↔ buffer.length = s.kind.bytes)

theorem ofWord_safe (a : Word k) : (Slot.ofWord a).Safe where
  mask := ⟨_, mask_eq k⟩
  topBit := ⟨_, topBit_eq k a.register⟩
  isNegative := ⟨_, isNegative_ofWord a⟩
  signExtend := ⟨_, signExtend_ofWord a⟩
  leadingZeros := ⟨_, leadingZeros_ofWord a, toNat_clz_le a.bits⟩
  cast l := ⟨_, cast_ofWord l a, ofWord_fits _⟩
  shift := by
    intro count hcount
    obtain ⟨c, rfl⟩ := hcount.exists_ofTagged
    rw [← ofWord_word c]
    exact ⟨⟨_, shiftLeft_ofWord a c.word, ofWord_fits _⟩,
      _, shiftRight_ofWord a c.word, ofWord_fits _⟩
  read := by
    intro o bytes
    refine ⟨_, read_eq k o bytes, ?_⟩
    show _ ↔ bytes.length = k.bytes
    by_cases hlen : bytes.length = k.bytes
    · rw [Word.read_of_length o hlen]
      exact iff_of_true ⟨_, rfl, ofWord_fits _⟩ hlen
    · rw [Word.read_of_length_ne o hlen]
      exact iff_of_false (by rintro ⟨_, h, -⟩; cases h) hlen
  write := by
    intro o buffer
    refine ⟨_, write_ofWord o a buffer, ?_⟩
    show _ ↔ buffer.length = k.bytes
    by_cases hlen : buffer.length = k.bytes
    · rw [a.write_of_length o hlen]
      exact iff_of_true rfl hlen
    · rw [a.write_of_length_ne o hlen]
      exact iff_of_false (by rintro ⟨⟩) hlen

theorem Slot.Fits.safe {s : Slot} (h : s.Fits) : s.Safe := by
  obtain ⟨t, rfl⟩ := h.exists_ofTagged
  rw [← ofWord_word t]
  exact ofWord_safe t.word

/-- **No run faults, and every slot it makes `Fits` its kind.** A run starts with the low bits of
any register, and its results are those of the script. -/
theorem run_safe (k : Kind) (r : Register) (steps : List Step) :
    ∃ start results, keep k r = .ok start ∧ run start steps = .ok results ∧
      results = (Script.run (.ofRegister k r) steps).map (Except.map .ofTagged) ∧
      ∀ s, s = start ∨ .ok s ∈ results → s.Fits ∧ s.Safe := by
  refine ⟨.ofTagged (.ofRegister k r), _, keep_eq k r, run_ofTagged _ steps, rfl, ?_⟩
  intro s hs
  have hfits : s.Fits := by
    rcases hs with rfl | hmem
    · exact ofTagged_fits _
    · obtain ⟨x, -, hx⟩ := List.mem_map.1 hmem
      cases x with
      | error refusal => cases hx
      | ok t =>
        cases hx
        exact ofTagged_fits t
  exact ⟨hfits, hfits.safe⟩

def mixed : List Step :=
  [.unary .complement, .leadingZeros, .binary (.shift .left) (.constant .i128 .least),
    .load (.bytes .u32 .big [0x80, 0, 0, 1]), .recode .little [1, 2, 3] .u8 .big, .castTagged .i8,
    .binary (.arith .sub) (.pattern .u64 (BitVec.allOnes 128))]

theorem run_safe_mixed :
    ∃ start results, keep .i16 (BitVec.allOnes 128) = .ok start ∧ run start mixed = .ok results ∧
      .error (.failed (.byteLength .u32 4 3)) ∈ results ∧
      .ok ⟨.i8, 2#128⟩ ∈ results ∧ Slot.Fits ⟨.i8, 2#128⟩ ∧ Slot.Safe ⟨.i8, 2#128⟩ := by
  obtain ⟨start, results, hstart, hrun, hresults, hsafe⟩ :=
    run_safe .i16 (BitVec.allOnes 128) mixed
  have hrefused : .error (.failed (.byteLength .u32 4 3)) ∈ results := by
    rw [hresults]
    exact List.mem_of_getElem? (i := 4) rfl
  have hlast : .ok ⟨.i8, 2#128⟩ ∈ results := by
    rw [hresults]
    exact List.mem_of_getElem? (i := 6) rfl
  exact ⟨start, results, hstart, hrun, hrefused, hlast, hsafe _ (.inr hlast)⟩

end MachineInt.Datapath
