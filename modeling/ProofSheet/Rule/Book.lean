/-
# Rule books

A rule book knows the built-in rules and a list of custom rules, each name once, in the order in
which they came.  The names that mark a line as unjustified or as an assumption are reserved: no
book holds them, so no inference can pass for an assumption.
-/
import ProofSheet.Rule.Basic

namespace ProofSheet

def isReservedRule (name : String) : Bool :=
  name == noRule || name == assumptionRule

/-- The custom rules that a session knows beside the built-in ones. -/
structure RuleBook where
  custom : List String := []
  deriving DecidableEq, Repr, Inhabited

namespace RuleBook

def admits (b : RuleBook) (name : String) : Bool :=
  !isReservedRule name && !b.custom.contains name

/-- The book with a name added at the end, if the book admits it. -/
def insert (b : RuleBook) (name : String) : RuleBook :=
  if b.admits name then ⟨b.custom ++ [name]⟩ else b

/-- The book of the names in a list, each where it first occurs, the reserved ones left out. -/
def ofNames (names : List String) : RuleBook :=
  names.foldl insert {}

/-- What a verifier is told for the rule name of a line.  Built-in rules come first, so a custom
rule cannot take the place of one; custom rules are told as they are. -/
def resolve? (b : RuleBook) (name : String) : Option String :=
  match Rule.ofShortName? name with
  | some r => some r.longName
  | none => if b.custom.contains name then some name else none

/-- The names offered to the user: built-in rules, then custom ones. -/
def choices (b : RuleBook) : List String :=
  Rule.all.map Rule.shortName ++ b.custom

end RuleBook

end ProofSheet
