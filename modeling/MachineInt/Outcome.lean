import MachineInt.Tagged
import MachineInt.Word.Text

/-!
# Errors and outcomes

Arithmetic, shifts and conversions never fail. What can fail is taking bytes of the wrong number,
and looking up a value that no member of an enumeration has; both are an `Error`.

A computation that may report what it does and may halt for good has an `Outcome`: the events it
reported, oldest first, and its result. `Outcome.halt` reports an event before it halts. The log
lists the calls to the logger; which of them a host keeps, and where, is up to the host.

Main statement: `Outcome` is a lawful monad.
-/

set_option autoImplicit false

namespace MachineInt

/-! ## Errors -/

inductive Error where
  /-- The bytes do not hold exactly one value of `kind`. -/
  | byteLength (kind : Kind) (expected actual : Nat)
  /-- No member of the enumeration has `value`. -/
  | unknownMember (enumeration : String) (value : TaggedWord)
  deriving DecidableEq

def Error.message : Error → String
  | byteLength kind expected actual =>
    "expected " ++ toString expected ++ " bytes for " ++ kind.name ++ ", got " ++ toString actual
  | unknownMember enumeration value =>
    value.text ++ " is not a member of enum " ++ enumeration

/-! ## Halts and events -/

inductive Halt where
  /-- The value `probe` had to be a member of a table of so many `members`, and is none. -/
  | notMember (probe : TaggedWord) (members : Nat)
  | requested (message : String)
  deriving DecidableEq

/-- What a computation reports, a call of the logger each. -/
inductive Event where
  /-- The value `probe` matched none of so many `members`. -/
  | unmatched (probe : TaggedWord) (members : Nat)
  | halting (cause : Halt)
  deriving DecidableEq

/-- The tagged word with its kind named in front, as in `i32(-5)`. -/
def TaggedWord.labelled (t : TaggedWord) : String := t.word.labelled

def Halt.message : Halt → String
  | notMember probe members =>
    probe.labelled ++ " is not a member value (" ++ toString members ++ " members)"
  | requested message => message

/-- The urgency of an event and its wording, as the logger is given them. -/
def Event.line : Event → String
  | unmatched probe members =>
    "TRACE " ++ probe.labelled ++ " matches none of " ++ toString members ++ " members"
  | halting cause => "ERROR halt: " ++ cause.message

/-! ## Outcomes -/

/-- The reported events and the `result` of a computation. -/
@[ext]
structure Outcome (α : Type) where
  log : List Event
  result : Except Halt α

namespace Outcome

variable {α β : Type}

def report (e : Event) : Outcome Unit := ⟨[e], .ok ()⟩

def halt (cause : Halt) : Outcome α := ⟨[.halting cause], .error cause⟩

/-- The outcome of `x`, continued by `f` if `x` did not halt. -/
def andThen (x : Outcome α) (f : α → Outcome β) : Outcome β :=
  match x.result with
  | .ok a => ⟨x.log ++ (f a).log, (f a).result⟩
  | .error cause => ⟨x.log, .error cause⟩

instance : Monad Outcome where
  pure a := ⟨[], .ok a⟩
  bind := andThen

theorem bind_ok (l : List Event) (a : α) (f : α → Outcome β) :
    (⟨l, .ok a⟩ : Outcome α) >>= f = ⟨l ++ (f a).log, (f a).result⟩ := rfl

theorem bind_assoc {γ : Type} (x : Outcome α) (f : α → Outcome β) (g : β → Outcome γ) :
    x >>= f >>= g = x >>= fun a => f a >>= g := by
  rcases x with ⟨l, cause | a⟩
  · rfl
  · rw [bind_ok, bind_ok]
    rcases f a with ⟨l', cause | b⟩
    · rfl
    · exact Outcome.ext (List.append_assoc ..) rfl

theorem id_map (x : Outcome α) : id <$> x = x := by
  rcases x with ⟨l, cause | a⟩
  · rfl
  · exact Outcome.ext (List.append_nil l) rfl

instance : LawfulMonad Outcome := LawfulMonad.mk' Outcome id_map (fun _ _ => rfl) bind_assoc

end Outcome

end MachineInt
