/-
# Sheets

A sheet is one proof being edited: premises, steps and goals.  A step is a line, or a subproof that
an assumption opens.  Everything on the sheet has a node id that never changes, and citations name
node ids; the address of a thing is its `number`, which numbering assigns.

The order of a sheet is the order of reading: premises, steps, goals, and a subproof before its
assumption and its body.  `Sheet.entities` lists a sheet in that order, and look-ups take the first
that fits.
-/
import ProofSheet.Address
import ProofSheet.Formula.Reading
import ProofSheet.Rule.Basic

namespace ProofSheet

/-- The lasting identity of a thing on a sheet. -/
structure NodeId where
  val : Nat
  deriving DecidableEq, Repr, Inhabited

/-- The largest number that a node id can be kept under: node ids are kept in 32 bits. -/
def NodeId.largest : Nat := 4294967295

instance : ToString NodeId := ⟨fun id => s!"#{id.val}"⟩

/-- An assumption of the whole sheet. -/
structure Premise where
  id : NodeId
  text : String
  reading : Reading
  number : Option Address
  deriving DecidableEq, Repr, Inhabited

/-- A line: a formula, the rule that justifies it and the things it cites. -/
structure Statement where
  id : NodeId
  text : String
  reading : Reading
  rule : String
  citations : List NodeId
  number : Option Address
  deriving DecidableEq, Repr, Inhabited

/-- A formula the sheet has to reach, and the line that establishes it. -/
structure Goal where
  id : NodeId
  text : String
  reading : Reading
  citation : Option NodeId
  number : Option Address
  deriving DecidableEq, Repr, Inhabited

/-- A step: a line, or a subproof with the assumption that opens it. -/
inductive Step where
  | line (s : Statement)
  | subproof (id : NodeId) (assumption : Statement) (body : List Step) (number : Option Address)
  deriving Inhabited

/-- A proof being edited. -/
structure Sheet where
  premises : List Premise := []
  steps : List Step := []
  goals : List Goal := []
  nextId : Nat := 0
  deriving Inhabited

def Premise.blank (id : NodeId) : Premise := ⟨id, "", .blank, none⟩

def Statement.blank (id : NodeId) : Statement := ⟨id, "", .blank, noRule, [], none⟩

def Goal.blank (id : NodeId) : Goal := ⟨id, "", .blank, none, none⟩

/-! ## Equality of steps

A step holds a list of steps, so equality is decided for steps and for lists of them together. -/

mutual

def Step.decEq : (a b : Step) → Decidable (a = b)
  | .line s, .line t =>
    if h : s = t then isTrue (by rw [h]) else isFalse (by simpa using h)
  | .line _, .subproof .. => isFalse (by simp)
  | .subproof .., .line _ => isFalse (by simp)
  | .subproof i a xs n, .subproof j b ys m =>
    match Step.decEqAll xs ys with
    | isTrue hb =>
      if h : i = j ∧ a = b ∧ n = m then isTrue (by simp [h, hb])
      else isFalse (by simp only [Step.subproof.injEq]; exact fun e => h ⟨e.1, e.2.1, e.2.2.2⟩)
    | isFalse hb => isFalse (by simp only [Step.subproof.injEq]; exact fun e => hb e.2.2.1)

def Step.decEqAll : (xs ys : List Step) → Decidable (xs = ys)
  | [], [] => isTrue rfl
  | [], _ :: _ => isFalse (by simp)
  | _ :: _, [] => isFalse (by simp)
  | x :: xs, y :: ys =>
    match Step.decEq x y, Step.decEqAll xs ys with
    | isTrue h, isTrue hs => isTrue (by rw [h, hs])
    | isFalse h, _ => isFalse (by simp [h])
    | _, isFalse hs => isFalse (by simp [hs])

end

instance : DecidableEq Step := Step.decEq

deriving instance DecidableEq for Sheet

/-! ## What is on a sheet -/

inductive Entity where
  | premise (p : Premise)
  | statement (s : Statement)
  | subproof (id : NodeId) (assumption : Statement) (body : List Step) (number : Option Address)
  | goal (g : Goal)
  deriving Inhabited

namespace Entity

def id : Entity → NodeId
  | .premise p => p.id
  | .statement s => s.id
  | .subproof id _ _ _ => id
  | .goal g => g.id

def number : Entity → Option Address
  | .premise p => p.number
  | .statement s => s.number
  | .subproof _ _ _ number => number
  | .goal g => g.number

/-- The rule name of a thing.  A premise has none to give but the name for no rule; subproofs and
goals have no rule. -/
def rule? : Entity → Option String
  | .premise _ => some noRule
  | .statement s => some s.rule
  | _ => none

/-- What a thing cites, if it is a line. -/
def citations? : Entity → Option (List NodeId)
  | .statement s => some s.citations
  | _ => none

/-- What a thing cites, if it is a goal. -/
def goalCitation? : Entity → Option NodeId
  | .goal g => g.citation
  | _ => none

end Entity

namespace Step

def id : Step → NodeId
  | .line s => s.id
  | .subproof id _ _ _ => id

def number : Step → Option Address
  | .line s => s.number
  | .subproof _ _ _ number => number

mutual

/-- A step and all that is inside it, in the order of the sheet. -/
def entities : Step → List Entity
  | .line s => [.statement s]
  | .subproof id assumption body number =>
    .subproof id assumption body number :: .statement assumption :: entitiesOf body

/-- Some steps and all that is inside them, in the order of the sheet. -/
def entitiesOf : List Step → List Entity
  | [] => []
  | s :: ss => s.entities ++ entitiesOf ss

end

end Step

namespace Sheet

/-- Everything on a sheet, in its order. -/
def entities (s : Sheet) : List Entity :=
  s.premises.map .premise ++ Step.entitiesOf s.steps ++ s.goals.map .goal

def find? (s : Sheet) (id : NodeId) : Option Entity :=
  s.entities.find? (·.id == id)

/-- The node id of the first thing with a given address. -/
def resolve? (s : Sheet) (a : Address) : Option NodeId :=
  (s.entities.find? (·.number == some a)).map Entity.id

def numberOf? (s : Sheet) (id : NodeId) : Option Address :=
  (s.find? id).bind Entity.number

/-- The node id of the assumption that opens a given subproof. -/
def assumptionOf? (s : Sheet) (id : NodeId) : Option NodeId :=
  match s.find? id with
  | some (.subproof _ assumption _ _) => some assumption.id
  | _ => none

/-! ## Fresh node ids -/

/-- The least number above every node id in use, zero on an empty sheet. -/
def idFloor (s : Sheet) : Nat :=
  (s.entities.map (·.id.val + 1)).foldl max 0

/-- The next node id to hand out: not handed out before, and not in use. -/
def freshId (s : Sheet) : NodeId := ⟨max s.nextId s.idFloor⟩

/-- The sheet after its next node id has been handed out. -/
def takeId (s : Sheet) : Sheet := { s with nextId := s.freshId.val + 1 }

end Sheet

end ProofSheet
