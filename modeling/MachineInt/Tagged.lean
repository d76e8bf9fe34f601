import MachineInt.Text.Numeral
import MachineInt.Word.Basic

/-!
# Tagged words

A `TaggedWord` carries its kind along as data, for when the kind is known only once the program
runs. It keeps its pattern in a register, with zeros above the bits of the kind. A word can be taken
through several kinds in turn, and so can a tagged word: `castThrough` gives the last result of such
a chain, `castTrail` all of them.
-/

set_option autoImplicit false

namespace MachineInt

@[ext]
structure TaggedWord where
  kind : Kind
  register : Register
  fits : register.toNat < kind.card
  deriving DecidableEq

namespace TaggedWord

/-! ## Making and converting -/

/-- The word of kind `k` in the low bits of a register. -/
def ofRegister (k : Kind) (r : Register) : TaggedWord := ⟨k, r &&& k.mask, k.toNat_and_mask_lt r⟩

def ofWord {k : Kind} (a : Word k) : TaggedWord := ofRegister k a.register

def cast (k : Kind) (t : TaggedWord) : TaggedWord := ofRegister k (t.register.convert t.kind k)

def toWord (k : Kind) (t : TaggedWord) : Word k := Word.ofRegister (t.register.convert t.kind k)

/-- The word that `t` carries, of kind `t.kind`. -/
def word (t : TaggedWord) : Word t.kind := t.toWord t.kind

/-! ## Reading -/

def isNegative (t : TaggedWord) : Bool := Register.isNegative t.kind t.register

/-- The integer of `t`: the sign of a signed kind is extended over the whole register. -/
def toInt (t : TaggedWord) : Int :=
  if t.kind.signed then (t.register.convert t.kind .i128).toInt else t.register.toNat

/-! ## Texts -/

/-- The decimal text followed by the kind, as in `-5i32`. -/
def text (t : TaggedWord) : String := Numeral.decimal t.toInt ++ t.kind.name

/-- The tagged word written out field by field, for debugging. -/
def fields (t : TaggedWord) : String :=
  "DynInt \x7b class: " ++ t.kind.fields ++ ", raw: " ++ Numeral.decimal t.register.toNat ++ " \x7d"

end TaggedWord

/-! ## Chains of casts -/

/-- The word cast to each kind of a path in turn, and then to kind `l`. -/
def Word.castThrough {k : Kind} (path : List Kind) (l : Kind) (a : Word k) : Word l :=
  match path with
  | [] => a.cast l
  | m :: rest => (a.cast m).castThrough rest l

/-- The tagged word cast to each kind of a path in turn, and then to kind `l`. -/
def TaggedWord.castThrough (path : List Kind) (l : Kind) (t : TaggedWord) : TaggedWord :=
  match path with
  | [] => t.cast l
  | m :: rest => (t.cast m).castThrough rest l

/-- The results of the casts along `path`, each from the one before. -/
def Word.castTrail {k : Kind} (path : List Kind) (a : Word k) : List TaggedWord :=
  match path with
  | [] => []
  | m :: rest => .ofWord (a.cast m) :: (a.cast m).castTrail rest

/-- The results of the casts along `path`, each from the one before. -/
def TaggedWord.castTrail (path : List Kind) (t : TaggedWord) : List TaggedWord :=
  match path with
  | [] => []
  | m :: rest => t.cast m :: (t.cast m).castTrail rest

/-! ## First occurrences -/

/-- For each entry, whether it is neither in `seen` nor equal to an earlier entry, as a set answers
that takes them in one after the other. -/
def newEntries {α : Type} [DecidableEq α] (seen : List α) : List α → List Bool
  | [] => []
  | a :: rest => decide (a ∉ seen) :: newEntries (a :: seen) rest

end MachineInt
