/-
# Decoding JSON trees

A decoder turns a tree into a value of the library, or refuses it; all refusals are alike.

A record takes the members it knows, each given once, and passes over the others.  A value with
alternatives, told apart by a tag or by trying them in turn, is held as a whole before it is looked
at, so everything in it has to be readable, members nobody asks for included.

Two things accompany a decoder: the `room`, the number of levels of nesting that may still be
entered, and whether the value is `held`.
-/
import ProofSheet.Json.Double
import ProofSheet.Json.Reader

namespace ProofSheet.Json

/-- Decodes a tree with `room` levels to enter, inside a held value or not. -/
abbrev Decoder (α : Type) : Type := (room : Nat) → (held : Bool) → Json → Option α

/-- The most levels of nesting in a document. -/
def maxNesting : Nat := 127

/-- Reads a JSON text and decodes it. -/
def decode? {α : Type} (d : Decoder α) (s : String) : Option α :=
  (parse? s).bind (d maxNesting false)

/-! ## Scalars -/

def text? : Json → Option String
  | .string s => s
  | _ => none

def bool? : Json → Option Bool
  | .bool b => some b
  | _ => none

/-- A natural number up to a bound, written without sign, fraction and exponent. -/
def natural? (bound : Nat) : Json → Option Nat
  | .natural n => if n ≤ bound then some n else none
  | _ => none

/-! ## Lists and names -/

/-- A list, its items decoded one level further in. -/
def list? {α : Type} (item : Nat → Json → Option α) : Nat → Json → Option (List α)
  | room + 1, .array items => items.mapM (item room)
  | _, _ => none

def texts? : Nat → Json → Option (List String) :=
  list? fun _ => text?

/-- One of a list of named values: the name as a text, or as the one member of an object, with
nothing in it. -/
def named? {α : Type} (table : List (String × α)) : Nat → Json → Option α
  | _, .string (some name) => table.lookup name
  | _ + 1, .object [(some name, .null)] => table.lookup name
  | _, _ => none

/-! ## Members -/

abbrev Members : Type := List (String × Json)

def members? (ms : List (Option String × Json)) : Option Members :=
  ms.mapM fun m => m.1.map (·, m.2)

namespace Members

def get (ms : Members) (name : String) : List Json :=
  (ms.filter (·.1 == name)).map (·.2)

/-- A member that has to be there, once. -/
def required {α : Type} (ms : Members) (name : String) (read : Json → Option α) : Option α :=
  match ms.get name with
  | [j] => read j
  | _ => none

/-- A member that may be left out in favour of a default, and is there at most once. -/
def orDefault {α : Type} (ms : Members) (name : String) (default : α) (read : Json → Option α) :
    Option α :=
  match ms.get name with
  | [] => some default
  | [j] => read j
  | _ => none

/-- A member that may be absent: left out, or null, and there at most once. -/
def optional {α : Type} (ms : Members) (name : String) (read : Json → Option α) :
    Option (Option α) :=
  match ms.get name with
  | [] => some none
  | [.null] => some none
  | [j] => (read j).map some
  | _ => none

/-- The alternative that a tag names.  Inside a held value the tag may also give the position of
the alternative in the table. -/
def tag? {κ : Type} (ms : Members) (held : Bool) (name : String) (table : List (String × κ)) :
    Option κ :=
  ms.required name fun
    | .string (some s) => table.lookup s
    | .natural i => if held then (table[i]?).map (·.2) else none
    | _ => none

end Members

/-- A record, its members decoded one level further in. -/
def record? {α : Type} (read : Nat → Bool → Members → Option α) : Decoder α
  | room + 1, held, .object ms => (members? ms).bind (read room held)
  | _, _, _ => none

/-- The members of an object that is held as a whole with `room` levels to enter. -/
def hold? (room : Nat) (held : Bool) (ms : List (Option String × Json)) : Option Members :=
  if held || (Json.object ms).fits room then members? ms else none

/-- A record with alternatives told apart by a tag. -/
def tagged? {κ α : Type} (tag : String) (table : List (String × κ))
    (read : Nat → κ → Members → Option α) : Decoder α
  | room + 1, held, .object ms => do
    let ms ← hold? (room + 1) held ms
    let kind ← ms.tag? held tag table
    read room kind ms
  | _, _, _ => none

end ProofSheet.Json
