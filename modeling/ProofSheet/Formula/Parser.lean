/-
# Reading formulas

Binding strength, tightest first: negation and quantifiers, `∧`, `∨`, `→`, `↔`.  Every binary
connective associates to the left.  The body of a quantifier runs as far as it can.

Negations, quantifiers and parentheses open a level, and `maxDepth` levels may be open at once.
The number of levels that may still be opened is the `room` of a parser; reading is recursion on
the room, so it ends whatever the tokens are.  A token list need not end with `eof`: its end counts
as one.
-/
import ProofSheet.Formula.Token
import ProofSheet.Parser

namespace ProofSheet

inductive ParseError where
  | unexpectedEnd
  | unexpectedToken (found : Token)
  | expectedClosing (found : Token)
  | expectedTerm
  | expectedVariable (found : Token)
  | trailingInput
  | tooDeep
  deriving DecidableEq, Repr, Inhabited

namespace ParseError

def message : ParseError → String
  | .unexpectedEnd => "Unexpected end of input"
  | .unexpectedToken found => s!"Unexpected token: {found}"
  | .expectedClosing found => s!"Expected symbol ')', got '{found}'"
  | .expectedTerm => "Expected term identifier"
  | .expectedVariable found => s!"Expected a single lowercase variable after quantifier, got '{found}'"
  | .trailingInput => "Unexpected input after formula"
  | .tooDeep => "Formula is nested too deeply"

/-- A text that ends too early may still become a formula. -/
def isIncomplete : ParseError → Bool
  | .unexpectedEnd => true
  | _ => false

end ParseError

namespace Formula

/-- The most levels that may be open at once. -/
def maxDepth : Nat := 128

/-- The binary connectives from loosest to tightest. -/
def precedence : List Connective := [.iff, .implies, .or, .and]

/-- Why reading stopped, and the tokens not yet read at that point. -/
structure Failure where
  cause : ParseError
  rest : List Token
  deriving DecidableEq, Repr

abbrev Reader (α : Type) : Type := Parser Token Failure α

namespace Reader

/-- The token a list of tokens begins with; its end counts as `eof`. -/
def current : List Token → Token
  | [] => .eof
  | t :: _ => t

def closing : Reader Unit
  | .closing :: ts => .ok ((), ts)
  | ts => .error ⟨.expectedClosing (current ts), ts⟩

def term : Reader Term
  | .identifier name :: ts => .ok (.ofName name, ts)
  | ts => .error ⟨.expectedTerm, ts⟩

/-- Reads the arguments of a predicate, with their parentheses, if there are any. -/
def arguments : Reader (List Term)
  | .opening :: .closing :: ts => .ok ([], ts)
  | .opening :: ts => do
    let ((t, others), ts) ← Parser.sepBy (· == .comma) term ts
    let ((), ts) ← closing ts
    return (t :: others, ts)
  | ts => .ok ([], ts)

def boundVariable : Reader String
  | .identifier name :: ts =>
    if isVariableName name then .ok (name, ts)
    else .error ⟨.expectedVariable (.identifier name), .identifier name :: ts⟩
  | [] => .error ⟨.unexpectedEnd, []⟩
  | .eof :: ts => .error ⟨.unexpectedEnd, .eof :: ts⟩
  | t :: ts => .error ⟨.expectedVariable t, t :: ts⟩

/-- Reads operands joined by the given connectives, the loosest first. -/
def joined (operand : Reader Formula) : List Connective → Reader Formula
  | [] => operand
  | c :: tighter => fun ts => do
    let ((f, others), ts) ← Parser.sepBy (· == .connective c) (joined operand tighter) ts
    return (others.foldl (.binary c) f, ts)

/-- Reads an operand of a connective, with `room` levels to open. -/
def unary : (room : Nat) → Reader Formula
  | 0, .negation :: ts => .error ⟨.tooDeep, ts⟩
  | 0, .quantifier _ :: ts => .error ⟨.tooDeep, ts⟩
  | 0, .opening :: ts => .error ⟨.tooDeep, ts⟩
  | room + 1, .negation :: ts => do
    let (f, ts) ← unary room ts
    return (.neg f, ts)
  | room + 1, .quantifier q :: ts => do
    let (x, ts) ← boundVariable ts
    let (f, ts) ← joined (unary room) precedence ts
    return (.quantified q x f, ts)
  | room + 1, .opening :: ts => do
    let (f, ts) ← joined (unary room) precedence ts
    let ((), ts) ← closing ts
    return (f, ts)
  | _, .identifier name :: ts => do
    let (args, ts) ← arguments ts
    return (.predicate name args, ts)
  | _, .bottom :: ts => .ok (.bottom, ts)
  | _, [] => .error ⟨.unexpectedEnd, []⟩
  | _, .eof :: ts => .error ⟨.unexpectedEnd, .eof :: ts⟩
  | _, t :: ts => .error ⟨.unexpectedToken t, t :: ts⟩

end Reader

/-- Reads a formula from the front of a token list, with `room` levels to open. -/
def read (room : Nat) : Reader Formula :=
  Reader.joined (Reader.unary room) precedence

/-- Reads a token list that holds one formula and nothing after it. -/
def ofTokens (ts : List Token) : Except ParseError Formula :=
  match read maxDepth ts with
  | .error failure => .error failure.cause
  | .ok (f, rest) => if Reader.current rest = .eof then .ok f else .error .trailingInput

/-- Reads a text that holds one formula and nothing after it. -/
def parse (s : String) : Except ParseError Formula :=
  ofTokens (Token.scan s)

end Formula

end ProofSheet
