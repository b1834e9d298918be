/-
# Payloads as JSON

The form in which a payload is sent.  Items carry no common tag: an item is read as a subproof if
that succeeds, and as an inference otherwise.
-/
import ProofSheet.Formula.Json
import ProofSheet.Json.Writer
import ProofSheet.Payload.Basic

namespace ProofSheet

open Json (Decoder Members)

def Assumption.toJson (a : Assumption) : Json :=
  .record [("id", .text a.id), ("formula", a.formula.toWire), ("rule", .text a.rule)]

def Assumption.ofJson? : Decoder Assumption :=
  Json.record? fun room held ms => do
    let id ← ms.required "id" Json.text?
    let formula ← ms.required "formula" (Formula.ofWire? room held)
    let rule ← ms.required "rule" Json.text?
    return { id, formula, rule }

def Inference.toJson (i : Inference) : Json :=
  .record [("id", .text i.id), ("formula", i.formula.toWire), ("rule", .text i.rule),
    ("premises", .array (i.premises.map Json.text))]

def Inference.ofMembers? (room : Nat) (held : Bool) (ms : Members) : Option Inference := do
  let id ← ms.required "id" Json.text?
  let formula ← ms.required "formula" (Formula.ofWire? room held)
  let rule ← ms.required "rule" Json.text?
  let premises ← ms.orDefault "premises" [] (Json.texts? room)
  return { id, formula, rule, premises }

def Inference.ofJson? : Decoder Inference :=
  Json.record? Inference.ofMembers?

namespace Item

mutual

def toJson : Item → Json
  | .subproof id assumption steps =>
    .record [("id", .text id), ("type", .text "subproof"), ("assumption", assumption.toJson),
      ("steps", .array (toJsonAll steps))]
  | .inference i => i.toJson

def toJsonAll : List Item → List Json
  | [] => []
  | i :: is => i.toJson :: toJsonAll is

end

/-- Decodes the members of a subproof, given how to decode the list of its steps. -/
def subproofOf? (steps? : Json → Option (List Item)) (room : Nat) (ms : Members) : Option Item := do
  let id ← ms.required "id" Json.text?
  let _ ← ms.required "type" (Json.named? [("subproof", ())] room)
  let assumption ← ms.required "assumption" (Assumption.ofJson? room true)
  let steps ← ms.required "steps" steps?
  return .subproof id assumption steps

/-- Decodes an item.  Every item holds a formula or an assumption, so less than two levels are never
enough. -/
def ofJson? : Decoder Item
  | room + 2, held, .object ms => do
    let ms ← Json.hold? (room + 2) held ms
    let steps? : Json → Option (List Item)
      | .array items => items.mapM (ofJson? room true)
      | _ => none
    match subproofOf? steps? (room + 1) ms with
    | some s => return s
    | none => (Inference.ofMembers? (room + 1) true ms).map .inference
  | _, _, _ => none

end Item

namespace Payload

def toJson (p : Payload) : Json :=
  .record [("premises", .array (p.premises.map Assumption.toJson)),
    ("steps", .array (Item.toJsonAll p.steps)),
    ("conclusions", .array (p.conclusions.map Inference.toJson))]

def ofJson? : Decoder Payload :=
  Json.record? fun room held ms => do
    let premises ← ms.required "premises" (Json.list? (Assumption.ofJson? · held) room)
    let steps ← ms.required "steps" (Json.list? (Item.ofJson? · held) room)
    let conclusions ← ms.required "conclusions" (Json.list? (Inference.ofJson? · held) room)
    return { premises, steps, conclusions }

def text (p : Payload) : String := p.toJson.print

def ofText? (text : String) : Option Payload := Json.decode? ofJson? text

end Payload

end ProofSheet
