/-
# Terms and formulas

First-order formulas over uninterpreted names.  A term is a variable or a constant; there are no
function symbols.  Names are arbitrary text: which names can be typed is the business of the token
and parser modules, not of the type.
-/

namespace ProofSheet

/-- A name is a variable name when it is one lowercase ASCII letter. -/
def isVariableName (name : String) : Bool :=
  match name.toList with
  | [c] => c.isLower
  | _ => false

inductive Term where
  | var (name : String)
  | const (name : String)
  deriving DecidableEq, Repr, Inhabited

namespace Term

/-- The term that a typed name stands for. -/
def ofName (name : String) : Term :=
  if isVariableName name then .var name else .const name

/-- The name of a term, which is also its text. -/
def name : Term → String
  | .var n => n
  | .const n => n

def isVar : Term → Bool
  | .var _ => true
  | .const _ => false

@[simp] theorem name_ofName (n : String) : (ofName n).name = n := by
  simp only [ofName]; split <;> rfl

@[simp] theorem isVar_ofName (n : String) : (ofName n).isVar = isVariableName n := by
  simp only [ofName]; split <;> simp_all [isVar]

end Term

inductive Connective where
  | and
  | or
  | implies
  | iff
  deriving DecidableEq, Repr, Inhabited

namespace Connective

def all : List Connective := [.and, .or, .implies, .iff]

def symbol : Connective → Char
  | .and => '∧'
  | .or => '∨'
  | .implies => '→'
  | .iff => '↔'

end Connective

inductive Quantifier where
  | universal
  | existential
  deriving DecidableEq, Repr, Inhabited

namespace Quantifier

def all : List Quantifier := [.universal, .existential]

def symbol : Quantifier → Char
  | .universal => '∀'
  | .existential => '∃'

end Quantifier

inductive Formula where
  | predicate (name : String) (args : List Term)
  | bottom
  | neg (operand : Formula)
  | binary (c : Connective) (left right : Formula)
  | quantified (q : Quantifier) (variableName : String) (body : Formula)
  deriving DecidableEq, Repr, Inhabited

namespace Formula

/-- A predicate without arguments. -/
def atom (name : String) : Formula := .predicate name []

/-! ## The written form

Every binary and every quantified formula is in parentheses, so the text shows the tree.  A formula
is written in front of a given rest, which keeps writing linear in the length of the text. -/

/-- Writes the names of some terms, with a comma before each, in front of `rest`. -/
def writeTerms : List Term → List Char → List Char
  | [], rest => rest
  | t :: ts, rest => ',' :: ' ' :: (t.name.toList ++ writeTerms ts rest)

/-- Writes the arguments of a predicate in front of `rest`; an empty list has no parentheses. -/
def writeArgs : List Term → List Char → List Char
  | [], rest => rest
  | t :: ts, rest => '(' :: (t.name.toList ++ writeTerms ts (')' :: rest))

/-- Writes a formula in front of `rest`. -/
def write : Formula → List Char → List Char
  | .predicate name args, rest => name.toList ++ writeArgs args rest
  | .bottom, rest => '⊥' :: rest
  | .neg f, rest => '¬' :: f.write rest
  | .binary c l r, rest => '(' :: l.write (' ' :: c.symbol :: ' ' :: r.write (')' :: rest))
  | .quantified q x f, rest => '(' :: q.symbol :: (x.toList ++ ' ' :: f.write (')' :: rest))

def text (f : Formula) : List Char := f.write []

def print (f : Formula) : String := String.ofList f.text

instance : ToString Formula := ⟨print⟩

end Formula

end ProofSheet
