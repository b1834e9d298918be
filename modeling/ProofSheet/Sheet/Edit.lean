/-
# Editing a sheet

Structural edits add, insert, delete and move, and number the sheet afresh.  Line edits change the
text, the rule or the citations of one line and leave every address alone.

An edit that fails gives a cause and no sheet, so it changes nothing.  Insertions are the exception
in one respect: their node ids are handed out before the place is looked at, and stay handed out
when the place does not exist.

The edits here are functions of a sheet, with node ids of any size.  An editor makes them in place, with
node ids of 32 bits; those are in `ProofSheet.Sheet.InPlace`.
-/
import ProofSheet.Sheet.Line
import ProofSheet.Sheet.Numbering
import ProofSheet.Sheet.Scope

namespace ProofSheet

inductive EditError where
  | unknownNode (id : NodeId)
  | invalidScope (scope : List Nat)
  | indexOutOfRange (index length : Nat)
  | invalidAddress (text : String)
  | unknownAddress (address : Address)
  | notAStatement (id : NodeId)
  | notAGoal (id : NodeId)
  | assumptionRule
  deriving DecidableEq, Repr, Inhabited

namespace EditError

def message : EditError → String
  | .unknownNode id => s!"No entity with id {id}"
  | .invalidScope scope =>
    let path := ", ".intercalate (scope.map toString)
    s!"Scope path [{path}] does not name a subproof"
  | .indexOutOfRange index length => s!"Index {index} out of range (length {length})"
  | .invalidAddress text => s!"Malformed line address: '{text}'"
  | .unknownAddress address => s!"No line with address {address}"
  | .notAStatement id => s!"Entity {id} is not an inference line"
  | .notAGoal id => s!"Entity {id} is not a goal"
  | .assumptionRule =>
    "Subproof assumptions are justified by scope entry and take no rule or citations"

end EditError

namespace Sheet

/-! ## Structural edits -/

/-- A list position, or the cause why it is none. -/
def checkIndex (index length : Nat) : Except EditError Unit :=
  if index < length then .ok () else .error (.indexOutOfRange index length)

/-- The list of steps that a scope names, or the cause why it names none. -/
def stepsAt (s : Sheet) (scope : List Nat) : Except EditError (List Step) :=
  match s.stepsAt? scope with
  | some steps => .ok steps
  | none => .error (.invalidScope scope)

def addPremise (s : Sheet) : NodeId × Sheet :=
  let id := s.freshId
  let s := s.takeId
  (id, { s with premises := s.premises ++ [Premise.blank id] }.renumber)

def addGoal (s : Sheet) : NodeId × Sheet :=
  let id := s.freshId
  let s := s.takeId
  (id, { s with goals := s.goals ++ [Goal.blank id] }.renumber)

/-- Puts a step at a position of the list that a scope names. -/
def insertStep (s : Sheet) (scope : List Nat) (index : Nat) (step : Step) :
    Except EditError Sheet := do
  let steps ← s.stepsAt scope
  if index ≤ steps.length then
    return (s.setStepsAt scope (steps.insertIdx index step)).renumber
  else throw (.indexOutOfRange index steps.length)

/-- The sheet after an attempt, or else the sheet before it. -/
def orKeep (s : Sheet) (id : NodeId) : Except EditError Sheet → Except EditError NodeId × Sheet
  | .ok s' => (.ok id, s')
  | .error e => (.error e, s)

/-- Inserts a blank line.  Its node id is handed out even if the place does not exist. -/
def insertStatement (s : Sheet) (scope : List Nat) (index : Nat) :
    Except EditError NodeId × Sheet :=
  let id := s.freshId
  let s := s.takeId
  s.orKeep id (s.insertStep scope index (.line (.blank id)))

/-- Inserts a subproof with a blank assumption and no body.  Both node ids are handed out, the
subproof's first, even if the place does not exist. -/
def insertSubproof (s : Sheet) (scope : List Nat) (index : Nat) :
    Except EditError NodeId × Sheet :=
  let id := s.freshId
  let s := s.takeId
  let assumption := s.freshId
  let s := s.takeId
  s.orKeep id (s.insertStep scope index (.subproof id (.blank assumption) [] none))

def deletePremise (s : Sheet) (index : Nat) : Except EditError (Premise × Sheet) :=
  match s.premises[index]? with
  | some p => .ok (p, { s with premises := s.premises.eraseIdx index }.renumber)
  | none => .error (.indexOutOfRange index s.premises.length)

def deleteGoal (s : Sheet) (index : Nat) : Except EditError (Goal × Sheet) :=
  match s.goals[index]? with
  | some g => .ok (g, { s with goals := s.goals.eraseIdx index }.renumber)
  | none => .error (.indexOutOfRange index s.goals.length)

/-- Takes out the step at a position of the list that a scope names, with all that is inside it. -/
def deleteStep (s : Sheet) (scope : List Nat) (index : Nat) : Except EditError (Step × Sheet) := do
  let steps ← s.stepsAt scope
  match steps[index]? with
  | some step => return (step, (s.setStepsAt scope (steps.eraseIdx index)).renumber)
  | none => throw (.indexOutOfRange index steps.length)

/-- Moves a step to another position of the list that a scope names. -/
def moveStep (s : Sheet) (scope : List Nat) (source target : Nat) : Except EditError Sheet := do
  let steps ← s.stepsAt scope
  match steps[source]? with
  | none => throw (.indexOutOfRange source steps.length)
  | some step =>
    checkIndex target steps.length
    return (s.setStepsAt scope ((steps.eraseIdx source).insertIdx target step)).renumber

/-! ## Line edits -/

/-- The line with a given node id, or the cause why there is none. -/
def lineAt (s : Sheet) (id : NodeId) : Except EditError Line :=
  match s.line? id with
  | some l => .ok l
  | none => .error (.unknownNode id)

def setText (s : Sheet) (id : NodeId) (text : String) : Except EditError (Reading × Sheet) := do
  let reading := Reading.ofText text
  let l ← s.lineAt id
  return (reading, s.setLine id (l.withText text reading))

/-- Names the rule of a line.  An assumption has no rule and can only be told so. -/
def setRule (s : Sheet) (id : NodeId) (rule : String) : Except EditError Sheet := do
  match ← s.lineAt id with
  | .statement st => return s.setLine id (.statement { st with rule })
  | .assumption _ => if rule = noRule then return s else throw .assumptionRule
  | _ => throw (.notAStatement id)

def resolveText (s : Sheet) (text : String) : Except EditError NodeId :=
  match Address.parse? text with
  | none => .error (.invalidAddress text)
  | some a =>
    match s.resolve? a with
    | none => .error (.unknownAddress a)
    | some id => .ok id

/-- The items of a typed list: what stands between commas, trimmed, blanks left out. -/
def listItems (text : String) : List String :=
  (((Text.fields ',' text.toList).map Text.trim).filter (!·.isEmpty)).map String.ofList

/-- Names what a line cites by a typed list of addresses, each of which has to exist now.  An
assumption cites nothing and can only be told so. -/
def setCitations (s : Sheet) (id : NodeId) (addresses : String) : Except EditError Sheet := do
  let citations ← (listItems addresses).mapM s.resolveText
  match ← s.lineAt id with
  | .statement st => return s.setLine id (.statement { st with citations })
  | .assumption _ => if citations.isEmpty then return s else throw .assumptionRule
  | _ => throw (.notAStatement id)

/-- Names the line that establishes a goal by a typed address. -/
def setGoalCitation (s : Sheet) (id : NodeId) (address : String) : Except EditError Sheet := do
  let target ← s.resolveText address
  match ← s.lineAt id with
  | .goal g => return s.setLine id (.goal { g with citation := some target })
  | _ => throw (.notAGoal id)

end Sheet

end ProofSheet
