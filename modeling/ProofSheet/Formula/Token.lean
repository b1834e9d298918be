/-
# Tokens

A typed formula is read as a list of tokens: identifiers, logical symbols, parentheses and commas.
A character that belongs to no token is dropped, wherever it stands, so blanks only separate.  The
list always ends with the mark `eof`.

The reader keeps the identifier it is inside of, and walks the text once.
-/
import ProofSheet.Formula.Basic

namespace ProofSheet

/-- A token of a formula.  A list of tokens need not come from a text, so a stray symbol may stand in
it as well; no reader takes one. -/
inductive Token where
  | identifier (name : String)
  | bottom
  | negation
  | connective (c : Connective)
  | quantifier (q : Quantifier)
  | opening
  | closing
  | comma
  | stray (symbol : Char)
  | eof
  deriving DecidableEq, Repr, Inhabited

namespace Token

/-- The text of a token, as messages quote it. -/
def text : Token → String
  | .identifier name => name
  | .bottom => "⊥"
  | .negation => "¬"
  | .connective c => String.singleton c.symbol
  | .quantifier q => String.singleton q.symbol
  | .opening => "("
  | .closing => ")"
  | .comma => ","
  | .stray symbol => String.singleton symbol
  | .eof => "end of input"

instance : ToString Token := ⟨text⟩

/-- The tokens written with one character, the falsum apart. -/
def symbols : List Token :=
  [.negation, .connective .and, .connective .or, .connective .implies, .connective .iff,
   .quantifier .existential, .quantifier .universal, .opening, .closing, .comma]

/-- The token that a single character makes up on its own. -/
def ofChar? : Char → Option Token
  | '⊥' => some .bottom
  | '¬' => some .negation
  | '∧' => some (.connective .and)
  | '∨' => some (.connective .or)
  | '→' => some (.connective .implies)
  | '↔' => some (.connective .iff)
  | '∃' => some (.quantifier .existential)
  | '∀' => some (.quantifier .universal)
  | '(' => some .opening
  | ')' => some .closing
  | ',' => some .comma
  | _ => none

def isNameStart (c : Char) : Bool := c.isAlpha || c == '_'

def isNameChar (c : Char) : Bool := c.isAlphanum || c == '_'

/-- Does the character belong to the open identifier, or begin one if none is open?  The characters
of the open identifier are given last first. -/
def continues (name : List Char) (c : Char) : Bool :=
  if name.isEmpty then isNameStart c else isNameChar c

/-- The finished identifier, if one is open. -/
def close : List Char → List Token
  | [] => []
  | name => [.identifier (String.ofList name.reverse)]

/-- The tokens of a text that is read inside the identifier `name`, last character first. -/
def scanFrom : (name : List Char) → List Char → List Token
  | name, [] => close name ++ [.eof]
  | name, c :: cs =>
    if continues name c then scanFrom (c :: name) cs
    else close name ++ (ofChar? c).toList ++ scanFrom [] cs

def scan (s : String) : List Token := scanFrom [] s.toList

end Token

end ProofSheet
