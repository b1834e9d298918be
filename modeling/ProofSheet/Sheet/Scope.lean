/-
# Scopes

A scope names one list of steps of a sheet by a path of positions, counted from zero: the empty
path is the list of the sheet itself, and `[2, 0]` the body of the first step, a subproof, of the
body of the third step, a subproof too.  A path through anything but subproofs names no list.

Reading and replacing the named list are the two halves of every structural edit.
-/
import ProofSheet.Sheet.Basic

namespace ProofSheet

namespace Step

/-- The list of steps that a scope names. -/
def listAt? : (scope : List Nat) → List Step → Option (List Step)
  | [], steps => some steps
  | i :: scope, steps =>
    match steps[i]? with
    | some (.subproof _ _ body _) => listAt? scope body
    | _ => none

/-- The steps with the list that a scope names replaced. -/
def setListAt (new : List Step) : (scope : List Nat) → List Step → List Step
  | [], _ => new
  | i :: scope, steps =>
    match steps[i]? with
    | some (.subproof id assumption body number) =>
      steps.set i (.subproof id assumption (setListAt new scope body) number)
    | _ => steps

end Step

namespace Sheet

/-- The list of steps that a scope names. -/
def stepsAt? (s : Sheet) (scope : List Nat) : Option (List Step) :=
  Step.listAt? scope s.steps

/-- The sheet with the list of steps that a scope names replaced. -/
def setStepsAt (s : Sheet) (scope : List Nat) (new : List Step) : Sheet :=
  { s with steps := Step.setListAt new scope s.steps }

end Sheet

end ProofSheet
