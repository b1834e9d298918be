/-
# Lines

A line is what can be typed into: a premise, a goal, a statement among the steps, or the assumption
that opens a subproof.  A subproof as a whole is no line.  A line is looked for among the premises,
then among the goals, then among the steps from top to bottom, and replaced where it was found.
-/
import ProofSheet.Sheet.Basic

namespace ProofSheet

/-- A thing on a sheet that can be typed into. -/
inductive Line where
  | premise (p : Premise)
  | goal (g : Goal)
  | statement (s : Statement)
  | assumption (s : Statement)
  deriving DecidableEq, Inhabited

namespace Line

/-- The line with a new text and what that text amounts to. -/
def withText (text : String) (reading : Reading) : Line → Line
  | .premise p => .premise { p with text, reading }
  | .goal g => .goal { g with text, reading }
  | .statement s => .statement { s with text, reading }
  | .assumption s => .assumption { s with text, reading }

end Line

namespace Step

mutual

def line? (id : NodeId) : Step → Option Line
  | .line s => if s.id = id then some (.statement s) else none
  | .subproof _ assumption body _ =>
    if assumption.id = id then some (.assumption assumption) else lineIn? id body

def lineIn? (id : NodeId) : List Step → Option Line
  | [] => none
  | s :: ss =>
    match s.line? id with
    | some l => some l
    | none => lineIn? id ss

end

mutual

def setStatement (id : NodeId) (new : Statement) : Step → Step
  | .line s => if s.id = id then .line new else .line s
  | .subproof sid assumption body number =>
    if assumption.id = id then .subproof sid new body number
    else .subproof sid assumption (setStatementIn id new body) number

/-- The steps with their first line of a given node id replaced. -/
def setStatementIn (id : NodeId) (new : Statement) : List Step → List Step
  | [] => []
  | s :: ss =>
    if (s.line? id).isSome then s.setStatement id new :: ss else s :: setStatementIn id new ss

end

end Step

namespace Sheet

def line? (s : Sheet) (id : NodeId) : Option Line :=
  match s.premises.find? (·.id == id) with
  | some p => some (.premise p)
  | none =>
    match s.goals.find? (·.id == id) with
    | some g => some (.goal g)
    | none => Step.lineIn? id s.steps

def replaceFirst {α : Type} (fits : α → Bool) (new : α) : List α → List α
  | [] => []
  | a :: as => if fits a then new :: as else a :: replaceFirst fits new as

/-- The sheet with the line of a given node id replaced by one of the same kind. -/
def setLine (s : Sheet) (id : NodeId) : Line → Sheet
  | .premise p => { s with premises := replaceFirst (·.id == id) p s.premises }
  | .goal g => { s with goals := replaceFirst (·.id == id) g s.goals }
  | .statement st => { s with steps := Step.setStatementIn id st s.steps }
  | .assumption st => { s with steps := Step.setStatementIn id st s.steps }

end Sheet

end ProofSheet
