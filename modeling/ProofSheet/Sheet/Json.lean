/-
# Sheets as JSON

The form in which sheets are kept.  Node ids are numbers of 32 bits, addresses dotted texts, and
absent addresses and citations are null or left out.
-/
import ProofSheet.Formula.Json
import ProofSheet.Json.Writer
import ProofSheet.Sheet.Basic

namespace ProofSheet

open Json (Decoder Members)

def NodeId.toJson (id : NodeId) : Json := .natural id.val

def NodeId.ofJson? (j : Json) : Option NodeId := (Json.natural? NodeId.largest j).map (⟨·⟩)

def Address.toJson (a : Address) : Json := .text a.print

def Address.ofJson? (j : Json) : Option Address := (Json.text? j).bind Address.parse?

/-! ## Premises, lines, goals -/

def Premise.toJson (p : Premise) : Json :=
  .record [("id", p.id.toJson), ("raw", .text p.text), ("result", p.reading.toJson),
    ("number", .orNull Address.toJson p.number)]

def Premise.ofJson? : Decoder Premise :=
  Json.record? fun room held ms => do
    let id ← ms.required "id" NodeId.ofJson?
    let text ← ms.required "raw" Json.text?
    let reading ← ms.required "result" (Reading.ofJson? room held)
    let number ← ms.optional "number" Address.ofJson?
    return { id, text, reading, number }

def Statement.toMembers (s : Statement) : Members :=
  [("id", s.id.toJson), ("raw", .text s.text), ("result", s.reading.toJson),
    ("rule", .text s.rule), ("parents", .array (s.citations.map NodeId.toJson)),
    ("number", .orNull Address.toJson s.number)]

def Statement.toJson (s : Statement) : Json := .record s.toMembers

def Statement.ofMembers? (room : Nat) (held : Bool) (ms : Members) : Option Statement := do
  let id ← ms.required "id" NodeId.ofJson?
  let text ← ms.required "raw" Json.text?
  let reading ← ms.required "result" (Reading.ofJson? room held)
  let rule ← ms.required "rule" Json.text?
  let citations ← ms.required "parents" (Json.list? (fun _ => NodeId.ofJson?) room)
  let number ← ms.optional "number" Address.ofJson?
  return { id, text, reading, rule, citations, number }

def Statement.ofJson? : Decoder Statement :=
  Json.record? Statement.ofMembers?

def Goal.toJson (g : Goal) : Json :=
  .record [("id", g.id.toJson), ("raw", .text g.text), ("result", g.reading.toJson),
    ("parent", .orNull NodeId.toJson g.citation), ("number", .orNull Address.toJson g.number)]

def Goal.ofJson? : Decoder Goal :=
  Json.record? fun room held ms => do
    let id ← ms.required "id" NodeId.ofJson?
    let text ← ms.required "raw" Json.text?
    let reading ← ms.required "result" (Reading.ofJson? room held)
    let citation ← ms.optional "parent" NodeId.ofJson?
    let number ← ms.optional "number" Address.ofJson?
    return { id, text, reading, citation, number }

/-! ## Steps -/

namespace Step

inductive Kind where
  | line
  | subproof
  deriving DecidableEq, Repr

def kinds : List (String × Kind) := [("line", .line), ("subproof", .subproof)]

def jsonKind : Step → String
  | .line _ => "line"
  | .subproof .. => "subproof"

mutual

/-- The members of a step, its tag apart. -/
def toMembers : Step → Members
  | .line s => s.toMembers
  | .subproof id assumption body number =>
    [("id", id.toJson), ("premise", assumption.toJson), ("steps", .array (toJsonAll body)),
      ("number", .orNull Address.toJson number)]

def toJsonAll : List Step → List Json
  | [] => []
  | s :: ss => .record (("type", .text s.jsonKind) :: s.toMembers) :: toJsonAll ss

end

def toJson (s : Step) : Json := .record (("type", .text s.jsonKind) :: s.toMembers)

/-- Decodes a step.  A line and a subproof both have members that hold members, so less than two
levels are never enough. -/
def ofJson? : Decoder Step
  | room + 2, held, .object ms => do
    let ms ← Json.hold? (room + 2) held ms
    match ← ms.tag? held "type" kinds with
    | .line => (Statement.ofMembers? (room + 1) true ms).map .line
    | .subproof => do
      let id ← ms.required "id" NodeId.ofJson?
      let assumption ← ms.required "premise" (Statement.ofJson? (room + 1) true)
      let body ← ms.required "steps" fun
        | .array items => items.mapM (ofJson? room true)
        | _ => none
      let number ← ms.optional "number" Address.ofJson?
      return .subproof id assumption body number
  | _, _, _ => none

end Step

/-! ## Things and sheets -/

/-- A thing on a sheet as JSON, without a tag. -/
def Entity.toJson : Entity → Json
  | .premise p => p.toJson
  | .statement s => s.toJson
  | .subproof id assumption body number => .record (Step.subproof id assumption body number).toMembers
  | .goal g => g.toJson

namespace Sheet

def toJson (s : Sheet) : Json :=
  .record [("premises", .array (s.premises.map Premise.toJson)),
    ("steps", .array (Step.toJsonAll s.steps)), ("goals", .array (s.goals.map Goal.toJson)),
    ("next_id", .natural s.nextId)]

def ofJson? : Decoder Sheet :=
  Json.record? fun room held ms => do
    let premises ← ms.required "premises" (Json.list? (Premise.ofJson? · held) room)
    let steps ← ms.required "steps" (Json.list? (Step.ofJson? · held) room)
    let goals ← ms.required "goals" (Json.list? (Goal.ofJson? · held) room)
    let nextId ← ms.orDefault "next_id" 0 (Json.natural? NodeId.largest)
    return { premises, steps, goals, nextId }

def save (s : Sheet) : String := s.toJson.print

def load? (text : String) : Option Sheet := Json.decode? ofJson? text

end Sheet

end ProofSheet
