/-
# JSON documents

The tree of a JSON text.  It keeps what the text says and decides nothing: members of an object
stand in the order of the text and may share a name, a number that is not a plain natural number
keeps its digits, and a string that escapes half of a surrogate pair is kept as a string without a
text.  Whether such things are acceptable depends on who reads the tree.
-/

namespace ProofSheet

/-- A number as written, with a sign, a fraction or an exponent. -/
structure Numeral where
  negative : Bool
  whole : List Char
  fraction : List Char
  exponentNegative : Bool
  exponent : List Char
  deriving DecidableEq, Repr, Inhabited

/-- The tree of a JSON text.  A string has no text, `none`, when its escapes denote none. -/
inductive Json where
  | null
  | bool (b : Bool)
  | natural (n : Nat)
  | numeral (n : Numeral)
  | string (text : Option String)
  | array (items : List Json)
  | object (members : List (Option String × Json))
  deriving Inhabited

namespace Json

def text (s : String) : Json := .string (some s)

def record (members : List (String × Json)) : Json :=
  .object (members.map fun m => (some m.1, m.2))

/-- A value that may be absent. -/
def orNull {α : Type} (write : α → Json) : Option α → Json
  | none => .null
  | some a => write a

/-! ## Nesting -/

mutual

/-- How deep arrays and objects are nested in a tree; zero for a scalar. -/
def depth : Json → Nat
  | .array items => depthOfItems items + 1
  | .object members => depthOfMembers members + 1
  | _ => 0

def depthOfItems : List Json → Nat
  | [] => 0
  | j :: js => max j.depth (depthOfItems js)

def depthOfMembers : List (Option String × Json) → Nat
  | [] => 0
  | (_, j) :: ms => max j.depth (depthOfMembers ms)

end

end Json

end ProofSheet
