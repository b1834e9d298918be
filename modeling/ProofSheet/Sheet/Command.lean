/-
# Commands

Every edit as a value, so that a history of a sheet is a list of commands.  A command always leaves
a sheet behind, and answers with a reply or with the cause why it failed.
-/
import ProofSheet.Sheet.Edit

namespace ProofSheet

inductive Command where
  | addPremise
  | addGoal
  | insertStatement (scope : List Nat) (index : Nat)
  | insertSubproof (scope : List Nat) (index : Nat)
  | deletePremise (index : Nat)
  | deleteGoal (index : Nat)
  | deleteStep (scope : List Nat) (index : Nat)
  | moveStep (scope : List Nat) (source target : Nat)
  | renumber
  | setText (id : NodeId) (text : String)
  | setRule (id : NodeId) (rule : String)
  | setCitations (id : NodeId) (addresses : String)
  | setGoalCitation (id : NodeId) (address : String)
  deriving DecidableEq, Repr, Inhabited

inductive Reply where
  | done
  | added (id : NodeId)
  | removedPremise (p : Premise)
  | removedGoal (g : Goal)
  | removedStep (s : Step)
  | typed (text : String) (reading : Reading)
  deriving DecidableEq, Inhabited

namespace Command

/-- The answer of an edit that gives a sheet or fails, on the sheet `s` it was made on. -/
def settle (s : Sheet) : Except EditError (Reply × Sheet) → Except EditError Reply × Sheet
  | .ok (r, s') => (.ok r, s')
  | .error e => (.error e, s)

def run (s : Sheet) : Command → Except EditError Reply × Sheet
  | .addPremise => let (id, s) := s.addPremise; (.ok (.added id), s)
  | .addGoal => let (id, s) := s.addGoal; (.ok (.added id), s)
  | .insertStatement scope index =>
    let (r, s) := s.insertStatement scope index; (r.map .added, s)
  | .insertSubproof scope index =>
    let (r, s) := s.insertSubproof scope index; (r.map .added, s)
  | .deletePremise index => settle s ((s.deletePremise index).map fun r => (.removedPremise r.1, r.2))
  | .deleteGoal index => settle s ((s.deleteGoal index).map fun r => (.removedGoal r.1, r.2))
  | .deleteStep scope index =>
    settle s ((s.deleteStep scope index).map fun r => (.removedStep r.1, r.2))
  | .moveStep scope source target => settle s ((s.moveStep scope source target).map (.done, ·))
  | .renumber => (.ok .done, s.renumber)
  | .setText id text => settle s ((s.setText id text).map fun r => (.typed text r.1, r.2))
  | .setRule id rule => settle s ((s.setRule id rule).map (.done, ·))
  | .setCitations id addresses => settle s ((s.setCitations id addresses).map (.done, ·))
  | .setGoalCitation id address => settle s ((s.setGoalCitation id address).map (.done, ·))

/-- The sheet after a history of commands, whether they succeeded or failed. -/
def runAll (s : Sheet) (commands : List Command) : Sheet :=
  commands.foldl (fun s c => (run s c).2) s

end Command

/-- A sheet that commands lead to from the empty one. -/
def Sheet.Reachable (s : Sheet) : Prop :=
  ∃ commands, Command.runAll {} commands = s

end ProofSheet
