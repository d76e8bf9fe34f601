import MachineInt.Outcome
import MachineInt.Text.Quoted
import MachineInt.Word.Arith

/-!
# Member tables and enumerations

A `Table` lists named values of one kind. Decoding a probe of any kind finds the first member whose
value, cast to the kind of the probe, is the probe; a later member with the same value is never
found.

An `Enumeration` gives names to integers of one kind. Several names may share a value: values are
equal when their words are, and the name of a value is the first one declared with it.
-/

set_option autoImplicit false

namespace MachineInt

/-! ## Members -/

@[ext]
structure Member (k : Kind) where
  name : String
  value : Word k
  deriving DecidableEq

/-- The member written out field by field, for debugging. -/
def Member.fields {k : Kind} (m : Member k) : String :=
  "Member \x7b name: " ++ Quoted.encode m.name ++ ", value: " ++ m.value.labelled ++ " \x7d"

/-! ## Tables -/

abbrev Table (k : Kind) := List (Member k)

namespace Table

variable {k l : Kind}

/-- The position of the first member that `equalsCast` the probe. -/
def position? (table : Table k) (probe : Word l) : Option (Fin table.length) :=
  table.findFinIdx? fun m => probe.equalsCast m.value

/-- The position of the member that `probe` denotes; a miss is reported. -/
def decode (table : Table k) (probe : Word l) : Outcome (Option (Fin table.length)) :=
  match table.position? probe with
  | some i => pure (some i)
  | none => do
    Outcome.report (.unmatched (.ofWord probe) table.length)
    pure none

/-- The same as `decode`, but a miss also halts. -/
def decodeOrHalt (table : Table k) (probe : Word l) : Outcome (Fin table.length) := do
  match ← table.decode probe with
  | some i => pure i
  | none => Outcome.halt (.notMember (.ofWord probe) table.length)

end Table

/-! ## Enumerations -/

structure Enumeration where
  name : String
  kind : Kind
  /-- The names, plain identifiers, and their integers, of which a `Word` keeps the low bits. -/
  declarations : List (String × Int)
  declarations_ne_nil : declarations ≠ [] := by decide
  names_nodup : (declarations.map Prod.fst).Nodup := by decide

namespace Enumeration

/-- A value of kind `e.kind`, a member or not. -/
@[ext]
structure Value (e : Enumeration) where
  word : Word e.kind
  deriving DecidableEq

variable (e : Enumeration) {l : Kind}

/-! ## Members -/

def constants : List (String × e.Value) := e.declarations.map fun d => (d.1, ⟨.ofInt d.2⟩)

def table : Table e.kind := e.declarations.map fun d => ⟨d.1, .ofInt d.2⟩

/-- The values of `e.table`, repeated ones included. -/
def members : List e.Value := e.table.map fun m => ⟨m.value⟩

/-! ## Decoding -/

/-- The value that `probe` denotes, if there is one. -/
def decode (probe : Word l) : Outcome (Option e.Value) := do
  let i ← e.table.decode probe
  pure (i.map fun i => ⟨(e.table.get i).value⟩)

/-- The value that `probe` denotes, or an `Error` that carries the probe. -/
def decodeOrError (probe : Word l) : Outcome (Except Error e.Value) := do
  match ← e.decode probe with
  | some v => pure (.ok v)
  | none => pure (.error (.unknownMember e.name (.ofWord probe)))

def decodeOrHalt (probe : Word l) : Outcome e.Value := do
  let i ← e.table.decodeOrHalt probe
  pure ⟨(e.table.get i).value⟩

/-! ## Names -/

namespace Value

variable {e}

/-- The first name declared with `v`; a value that no member has halts. -/
def name (v : e.Value) : Outcome String := do
  let i ← e.table.decodeOrHalt v.word
  pure (e.table.get i).name

/-- The text of `v` is its `name`, whatever the layout asked for. -/
def text (v : e.Value) : Outcome String := v.name

end Value

/-- What stands in front of a qualified name: the name of `e`, unless a member called `NAME` hides
it. A raw `r#NAME` would hide it too, but names are plain identifiers. -/
def qualifier : Outcome String :=
  match e.constants.lookup "NAME" with
  | some v => v.text
  | none => pure e.name

def Value.qualifiedName {e : Enumeration} (v : e.Value) : Outcome String := do
  let name ← v.name
  let qualifier ← e.qualifier
  pure (qualifier ++ "::" ++ name)

end Enumeration

end MachineInt
