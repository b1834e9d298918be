/-
# Line addresses

An address is a path of positions, counted from one: `3` is the third line of the sheet, `3.2` the
second line inside the subproof `3`.  The dotted form appears only where an address is typed or
shown.  Two orders are kept: the lexicographic order `compare`, and `before`, which walks the two
paths in step.
-/
import ProofSheet.Text.Blank
import ProofSheet.Text.Split
import ProofSheet.Text.Decimal

namespace ProofSheet

/-- The address of a line: its position, and the positions around it from the outside in. -/
structure Address where
  path : List Nat
  deriving DecidableEq, Repr, Inhabited

namespace Address

/-- The largest position that can be typed. -/
def maxPosition : Nat := 4294967295

/-- The address of the `n`th line of the sheet. -/
def top (n : Nat) : Address := ⟨[n]⟩

def child (a : Address) (n : Nat) : Address := ⟨a.path ++ [n]⟩

/-- The address with a given path.  A path has at least one position, and no position is zero. -/
def ofPath? (path : List Nat) : Option Address :=
  if path.isEmpty || path.contains 0 then none else some ⟨path⟩

/-- An address that can be typed: at least one position, none of them zero or too large. -/
def Typable (a : Address) : Prop :=
  a.path ≠ [] ∧ ∀ n ∈ a.path, 1 ≤ n ∧ n ≤ maxPosition

instance (a : Address) : Decidable a.Typable :=
  inferInstanceAs (Decidable (_ ∧ _))

/-! ## The dotted form -/

/-- The characters of the dotted form. -/
def text (a : Address) : List Char :=
  ['.'].intercalate (a.path.map Text.decimal)

def print (a : Address) : String := String.ofList a.text

instance : ToString Address := ⟨print⟩

/-- A plus sign before the digits of a position means nothing. -/
def dropPlus : List Char → List Char
  | '+' :: cs => cs
  | cs => cs

/-- Reads one position: digits, perhaps after a plus sign, with a value that is not too large. -/
def position? (cs : List Char) : Option Nat :=
  (Text.ofDecimal? (dropPlus cs)).filter (· ≤ maxPosition)

/-- Reads a dotted form with blanks around it. -/
def parse? (s : String) : Option Address :=
  ((Text.fields '.' (Text.trim s.toList)).mapM position?).bind ofPath?

def invalidMessage (text : String) : String := s!"invalid line address '{text}'"

/-! ## Order -/

/-- Does the first path come before the second?  At the first difference the smaller position
decides; a path comes before its proper extensions. -/
def pathBefore : List Nat → List Nat → Bool
  | x :: xs, y :: ys => if x = y then pathBefore xs ys else x < y
  | [], _ :: _ => true
  | _, [] => false

/-- Does the first address come before the second in the order of the sheet? -/
def before (a b : Address) : Bool := pathBefore a.path b.path

/-- Is the second address the first one, or inside it? -/
def contains (a b : Address) : Bool := a.path.isPrefixOf b.path

instance : Ord Address := ⟨fun a b => compare a.path b.path⟩

def sort (as : List Address) : List Address :=
  as.mergeSort fun a b => (compare a b).isLE

end Address

end ProofSheet
