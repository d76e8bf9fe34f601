import MachineInt.Proofs.Conversion
import MachineInt.Proofs.Datapath.Script

/-!
# Tagged words and words are one machine

The kind of a word is part of its type, that of a tagged word is data. Everything that the two can
both do comes to the same on either side of `TaggedWord.ofWord`, which loses nothing.

* `isNegative_ofWord`, `toInt_ofWord`, `text_ofWord`: what is read off.
* `read_eq`: what bytes hold, and when they are refused.
* `taggedInteger_ofTagged`: the integer of a tagged word on the datapath, where its sign is extended
  by a conversion to the widest kind and that of a word by shifting.
* `tagged_corresponds`: both ways, with casts and chains of casts.
-/

set_option autoImplicit false

namespace MachineInt

variable {k : Kind}

namespace TaggedWord

/-! ## Reading off -/

theorem isNegative_ofWord (a : Word k) : (ofWord a).isNegative = a.isNegative := by
  show Register.isNegative k (ofWord a).register = _
  rw [register_ofWord, ← Word.isNegative_ofRegister, Word.ofRegister_register]

theorem toInt_convert_i128 (a : Word k) (h : k.signed = true) :
    (a.register.convert k .i128).toInt = a.toInt := by
  rw [← Word.toInt_cast_of_embedsIn (Kind.embedsIn_i128 h) a, Word.cast_eq_ofInt,
    Register.convert_eq, Word.ofRegister_register]
  -- a register is as wide as the kind, so its low bits are all of them
  exact congrArg BitVec.toInt (BitVec.setWidth_eq _)

theorem toInt_ofWord (a : Word k) : (ofWord a).toInt = a.toInt := by
  show (if k.signed then ((ofWord a).register.convert k .i128).toInt
    else ((ofWord a).register.toNat : Int)) = a.toInt
  rw [register_ofWord]
  split
  · rename_i hs
    exact toInt_convert_i128 a hs
  · rename_i hs
    rw [Word.toNat_register, a.toInt_unsigned (Bool.eq_false_iff.2 hs)]

theorem text_ofWord (a : Word k) : (ofWord a).text = a.text .decimal ++ k.name := by
  show Numeral.decimal (ofWord a).toInt ++ k.name = _
  rw [toInt_ofWord, Word.text_decimal]

/-! ## Conversions -/

theorem toWord_eq_toWord_cast (l : Kind) (t : TaggedWord) : t.toWord l = (t.cast l).toWord l := by
  rw [← t.ofWord_word, cast_ofWord, toWord_ofWord, toWord_ofWord, Word.cast_self]

/-! ## Bytes -/

theorem read_eq (k : Kind) (o : ByteOrder) (bytes : List UInt8) :
    read k o bytes = (Word.read k o bytes).map ofWord := by
  unfold read Word.read Word.ofBytes
  rw [ofRegister_eq, Word.ofRegister_ofNat]
  cases k.checkLength bytes.length <;> rfl

end TaggedWord

/-! ## The datapath -/

namespace Datapath

theorem taggedInteger_ofTagged (t : TaggedWord) : taggedInteger (.ofTagged t) = .ok t.toInt := by
  unfold taggedInteger TaggedWord.toInt
  rw [cast_eq, ok_bind]
  show (if t.kind.signed then _ else _) = Except.ok (if t.kind.signed then _ else _)
  split <;> rfl

theorem read_eq_tagged (k : Kind) (o : ByteOrder) (bytes : List UInt8) :
    read k o bytes = .ok ((TaggedWord.read k o bytes).map .ofTagged) := by
  rw [read_eq, TaggedWord.read_eq]
  cases Word.read k o bytes with
  | error e => rfl
  | ok a => exact congrArg (fun s => Except.ok (Except.ok s)) (ofTagged_ofWord a).symm

end Datapath

/-- What the word `a` and the tagged word `t` have in common with their counterparts. -/
structure TaggedLaws (k l : Kind) (a : Word k) (t : TaggedWord) (path : List Kind) (o : ByteOrder)
    (bytes : List UInt8) : Prop where
  toWord_ofWord : (TaggedWord.ofWord a).toWord k = a
  ofWord_toWord : TaggedWord.ofWord (t.toWord t.kind) = t
  isNegative : (TaggedWord.ofWord a).isNegative = a.isNegative
  isNegative_iff : a.isNegative = true ↔ a.toInt < 0
  castTrail : (TaggedWord.ofWord a).castTrail path = a.castTrail path
  castThrough : (TaggedWord.ofWord a).castThrough path l = .ofWord (a.castThrough path l)
  /-- `toWord` is a cast, before the tagging or after it. -/
  toWord : (TaggedWord.ofWord a).toWord l = a.cast l
  toWord_cast : t.toWord l = (t.cast l).toWord l
  /-- The same `bytes` are read alike, or refused with the same error. -/
  read : TaggedWord.read k o bytes = (Word.read k o bytes).map .ofWord
  datapathRead : Datapath.read k o bytes = .ok ((TaggedWord.read k o bytes).map .ofTagged)
  text : (TaggedWord.ofWord a).text = a.text .decimal ++ k.name
  toInt : (TaggedWord.ofWord a).toInt = a.toInt
  /-- The two ways of the datapath to extend a sign agree (see `taggedInteger`). -/
  integer : Datapath.integer (.ofWord a) = .ok a.toInt
  taggedInteger : Datapath.taggedInteger (.ofTagged (.ofWord a)) = Datapath.integer (.ofWord a)

/-- **Tagged words and words are the same machine**: `TaggedWord.ofWord` loses nothing, and signs,
integers, texts, chains of casts and readings agree on either side of it. -/
theorem tagged_corresponds (k l : Kind) (a : Word k) (t : TaggedWord) (path : List Kind)
    (o : ByteOrder) (bytes : List UInt8) : TaggedLaws k l a t path o bytes where
  toWord_ofWord := TaggedWord.word_ofWord a
  ofWord_toWord := t.ofWord_word
  isNegative := TaggedWord.isNegative_ofWord a
  isNegative_iff := a.isNegative_iff
  castTrail := TaggedWord.castTrail_ofWord path a
  castThrough := TaggedWord.castThrough_ofWord path a
  toWord := TaggedWord.toWord_ofWord l a
  toWord_cast := t.toWord_eq_toWord_cast l
  read := TaggedWord.read_eq k o bytes
  datapathRead := Datapath.read_eq_tagged k o bytes
  text := TaggedWord.text_ofWord a
  toInt := TaggedWord.toInt_ofWord a
  integer := Datapath.integer_ofWord a
  taggedInteger := by
    rw [Datapath.taggedInteger_ofTagged, TaggedWord.toInt_ofWord, Datapath.integer_ofWord]

end MachineInt
