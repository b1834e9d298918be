/-
# What a text field holds

A field of the editor holds a formula, nothing yet, the beginning of a formula, or a mistake.  The
last two keep the wording of what is wrong.
-/
import ProofSheet.Formula.Parser
import ProofSheet.Text.Blank

namespace ProofSheet

/-- What the text of a field amounts to. -/
inductive Reading where
  | formula (f : Formula)
  | blank
  | wrong (message : String)
  | unfinished (message : String)
  deriving DecidableEq, Repr, Inhabited

namespace Reading

def ofText (s : String) : Reading :=
  if s.toList.all Text.isBlank then .blank
  else match Formula.parse s with
    | .ok f => .formula f
    | .error e => if e.isIncomplete then .unfinished e.message else .wrong e.message

def status : Reading → String
  | .formula _ => "ok"
  | .blank => "empty"
  | .wrong _ => "error"
  | .unfinished _ => "incomplete"

def formula? : Reading → Option Formula
  | .formula f => some f
  | _ => none

/-- The wording of a mistake.  A formula that is only unfinished is no mistake. -/
def mistake? : Reading → Option String
  | .wrong message => some message
  | _ => none

end Reading

end ProofSheet
