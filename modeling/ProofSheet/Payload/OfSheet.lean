/-
# The payload of a sheet

A sheet can be handed to a verifier when every line holds a formula, every inference has a rule that
the rule book knows, and every citation names something that comes earlier.  The payload is built
from top to bottom, and the first fault on the way is reported.

Citations name node ids, and the payload names addresses.  The address of a node id is that of the
last thing on the sheet with that id.
-/
import ProofSheet.Payload.Basic
import ProofSheet.Rule.Book
import ProofSheet.Sheet.Basic

namespace ProofSheet

/-- Why a sheet cannot be handed to a verifier. -/
inductive Fault where
  | invalidFormula (line : Address) (status : String)
  | unmappedRule (line : Address) (rule : String)
  | unnumbered
  | danglingReference (line : Address) (target : NodeId)
  | forwardReference (line cited : Address)
  | missingGoalCitation (line : Address)
  deriving DecidableEq, Repr, Inhabited

namespace Fault

def message : Fault → String
  | .invalidFormula line status => s!"Formula on line {line} is not valid ({status})"
  | .unmappedRule line rule => s!"Line {line} has no known rule: '{rule}'"
  | .unnumbered => "Proof has not been numbered"
  | .danglingReference line _ => s!"Line {line} cites a line that no longer exists"
  | .forwardReference line cited =>
    s!"Line {line} cites line {cited}, which does not come before it"
  | .missingGoalCitation line => s!"Goal {line} does not cite a line"

end Fault

abbrev Directory : Type := List (NodeId × Address)

namespace Directory

/-- The entry of a thing on a sheet, if it has been numbered. -/
def entry (e : Entity) : Except Fault (NodeId × Address) :=
  match e.number with
  | some a => .ok (e.id, a)
  | none => .error .unnumbered

/-- The directory of a sheet, if everything on it has been numbered.  Later entries come first. -/
def ofSheet (s : Sheet) : Except Fault Directory :=
  (s.entities.mapM entry).map List.reverse

/-- The address of a node id that is known to be there. -/
def address (d : Directory) (id : NodeId) : Except Fault Address :=
  match d.lookup id with
  | some a => .ok a
  | none => .error .unnumbered

/-- The id under which the line at an address may cite a node. -/
def cite (d : Directory) (line : Address) (target : NodeId) : Except Fault String :=
  match d.lookup target with
  | none => .error (.danglingReference line target)
  | some a => if a.before line then .ok a.print else .error (.forwardReference line a)

end Directory

/-- The formula that the line at an address holds. -/
def Reading.formulaAt (line : Address) (r : Reading) : Except Fault Formula :=
  match r.formula? with
  | some f => .ok f
  | none => .error (.invalidFormula line r.status)

namespace Payload

/-- The record of a premise, or of an assumption, given its node id and its reading. -/
def assumption (d : Directory) (id : NodeId) (r : Reading) : Except Fault Assumption := do
  let line ← d.address id
  let formula ← r.formulaAt line
  return { id := line.print, formula, rule := assumptionRule }

def inference (b : RuleBook) (d : Directory) (s : Statement) : Except Fault Inference := do
  let line ← d.address s.id
  match b.resolve? s.rule with
  | none => throw (.unmappedRule line s.rule)
  | some rule =>
    let formula ← s.reading.formulaAt line
    let premises ← s.citations.mapM (d.cite line)
    return { id := line.print, formula, rule, premises }

mutual

def item (b : RuleBook) (d : Directory) : Step → Except Fault Item
  | .line s => do
    let i ← inference b d s
    return .inference i
  | .subproof id a body _ => do
    let line ← d.address id
    let opening ← assumption d a.id a.reading
    let steps ← items b d body
    return .subproof line.print opening steps

def items (b : RuleBook) (d : Directory) : List Step → Except Fault (List Item)
  | [] => .ok []
  | s :: ss => do
    let i ← item b d s
    let is ← items b d ss
    return i :: is

end

/-- The record of a goal, which restates the line it cites. -/
def conclusion (d : Directory) (g : Goal) : Except Fault Inference := do
  let line ← d.address g.id
  match g.citation with
  | none => throw (.missingGoalCitation line)
  | some target =>
    let formula ← g.reading.formulaAt line
    let cited ← d.cite line target
    return { id := line.print, formula, rule := goalRule, premises := [cited] }

/-- The payload of a sheet, with the rules of a rule book, or its first fault. -/
def ofSheet (b : RuleBook) (s : Sheet) : Except Fault Payload := do
  let d ← Directory.ofSheet s
  let premises ← s.premises.mapM fun p => assumption d p.id p.reading
  let steps ← items b d s.steps
  let conclusions ← s.goals.mapM (conclusion d)
  return { premises, steps, conclusions }

end Payload

end ProofSheet
