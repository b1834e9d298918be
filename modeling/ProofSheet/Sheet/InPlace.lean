/-
# Editing in place

An editor has one sheet and changes it as it goes.  Nothing is put back when an edit fails half-way: what
it has changed by then stays changed, so an edit has to look before it writes.  `Editing` is a computation
of this kind, and `Command.perform` carries out a command by one.

Node ids are kept in 32 bits here, and the number after the largest is zero.  As long as no count gets
that far, performing a command is the same as running it (`Command.perform_eq_run`).
-/
import ProofSheet.Sheet.Command

namespace ProofSheet

/-! ## Node ids in 32 bits -/

/-- The number after a number of 32 bits. -/
def NodeId.after (n : Nat) : Nat := (n + 1) % (NodeId.largest + 1)

namespace Sheet

/-- The least number above every node id in use, counted in 32 bits. -/
def wordFloor (s : Sheet) : Nat :=
  (s.entities.map (NodeId.after ·.id.val)).foldl max 0

/-- The node id that is handed out next. -/
def wordId (s : Sheet) : NodeId := ⟨max s.nextId s.wordFloor⟩

/-- The sheet after its next node id has been handed out. -/
def takeWord (s : Sheet) : Sheet := { s with nextId := NodeId.after s.wordId.val }

end Sheet

/-! ## Edits under way -/

/-- An edit under way.  The sheet is there whether it ends well or not. -/
abbrev Editing (α : Type) : Type := ExceptT EditError (StateM Sheet) α

namespace Editing

variable {α : Type}

/-- Looks at the sheet for something that may not be there. -/
def look (f : Sheet → Except EditError α) : Editing α := do
  match f (← get) with
  | .ok a => return a
  | .error e => throw e

def position (l : List α) (index : Nat) : Editing (Fin l.length) :=
  if h : index < l.length then return ⟨index, h⟩ else throw (.indexOutOfRange index l.length)

def takeId : Editing NodeId := do
  let id := (← get).wordId
  modify Sheet.takeWord
  return id

/-! ### Structural edits -/

/-- Puts a new thing on the sheet and numbers what is there then. -/
def adding (put : NodeId → Sheet → Sheet) : Editing NodeId := do
  let id ← takeId
  modify (put id)
  modify Sheet.countThrough
  return id

def addPremise : Editing NodeId :=
  adding fun id s => { s with premises := s.premises ++ [.blank id] }

def addGoal : Editing NodeId :=
  adding fun id s => { s with goals := s.goals ++ [.blank id] }

def insertStep (scope : List Nat) (index : Nat) (step : Step) : Editing Unit := do
  let steps ← look (·.stepsAt scope)
  if index ≤ steps.length then
    modify (·.setStepsAt scope (steps.insertIdx index step))
    modify Sheet.countThrough
  else throw (.indexOutOfRange index steps.length)

def insertStatement (scope : List Nat) (index : Nat) : Editing NodeId := do
  let id ← takeId
  insertStep scope index (.line (.blank id))
  return id

def insertSubproof (scope : List Nat) (index : Nat) : Editing NodeId := do
  let id ← takeId
  let assumption ← takeId
  insertStep scope index (.subproof id (.blank assumption) [] none)
  return id

/-- Takes an element out of a list that `put` puts back on the sheet. -/
def deleting (l : List α) (put : List α → Sheet → Sheet) (index : Nat) : Editing α := do
  let i ← position l index
  modify (put (l.eraseIdx i))
  modify Sheet.countThrough
  return l[i]

def deletePremise (index : Nat) : Editing Premise := do
  deleting (← get).premises (fun premises s => { s with premises }) index

def deleteGoal (index : Nat) : Editing Goal := do
  deleting (← get).goals (fun goals s => { s with goals }) index

def deleteStep (scope : List Nat) (index : Nat) : Editing Step := do
  deleting (← look (·.stepsAt scope)) (fun steps s => s.setStepsAt scope steps) index

def moveStep (scope : List Nat) (source target : Nat) : Editing Unit := do
  let steps ← look (·.stepsAt scope)
  let i ← position steps source
  let j ← position steps target
  -- the step is off the sheet between the two writes
  modify (·.setStepsAt scope (steps.eraseIdx i))
  modify (·.setStepsAt scope ((steps.eraseIdx i).insertIdx j steps[i]))
  modify Sheet.countThrough

/-! ### Line edits -/

def setText (id : NodeId) (text : String) : Editing Reading := do
  let reading := Reading.ofText text
  let l ← look (·.lineAt id)
  modify (·.setLine id (l.withText text reading))
  return reading

/-- Changes how a line is justified.  An assumption is not, and can only be told so. -/
def justify (id : NodeId) (write : Statement → Statement) (clears : Bool) : Editing Unit := do
  match ← look (·.lineAt id) with
  | .statement st => modify (·.setLine id (.statement (write st)))
  | .assumption _ => if clears then return else throw .assumptionRule
  | _ => throw (.notAStatement id)

def setRule (id : NodeId) (rule : String) : Editing Unit :=
  justify id (fun st => { st with rule }) (rule = noRule)

def setCitations (id : NodeId) (addresses : String) : Editing Unit := do
  let citations ← look fun s => (Sheet.listItems addresses).mapM s.resolveText
  justify id (fun st => { st with citations }) citations.isEmpty

def setGoalCitation (id : NodeId) (address : String) : Editing Unit := do
  let target ← look (·.resolveText address)
  match ← look (·.lineAt id) with
  | .goal g => modify (·.setLine id (.goal { g with citation := some target }))
  | _ => throw (.notAGoal id)

end Editing

namespace Command

def editing : Command → Editing Reply
  | .addPremise => .added <$> Editing.addPremise
  | .addGoal => .added <$> Editing.addGoal
  | .insertStatement scope index => .added <$> Editing.insertStatement scope index
  | .insertSubproof scope index => .added <$> Editing.insertSubproof scope index
  | .deletePremise index => .removedPremise <$> Editing.deletePremise index
  | .deleteGoal index => .removedGoal <$> Editing.deleteGoal index
  | .deleteStep scope index => .removedStep <$> Editing.deleteStep scope index
  | .moveStep scope source target => (fun _ => .done) <$> Editing.moveStep scope source target
  | .renumber => (fun _ => .done) <$> modify Sheet.countThrough
  | .setText id text => .typed text <$> Editing.setText id text
  | .setRule id rule => (fun _ => .done) <$> Editing.setRule id rule
  | .setCitations id addresses => (fun _ => .done) <$> Editing.setCitations id addresses
  | .setGoalCitation id address => (fun _ => .done) <$> Editing.setGoalCitation id address

/-- Carries out a command in place. -/
def perform (s : Sheet) (c : Command) : Except EditError Reply × Sheet :=
  c.editing s

/-- The sheet after a history of commands, each carried out in place. -/
def performAll (s : Sheet) (commands : List Command) : Sheet :=
  commands.foldl (fun s c => (c.perform s).2) s

end Command

end ProofSheet
