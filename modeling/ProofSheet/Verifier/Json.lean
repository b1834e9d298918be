/-
# Requests and answers as JSON
-/
import ProofSheet.Payload.Json
import ProofSheet.Verifier.Basic

namespace ProofSheet

open Json (Decoder Members)

def Rule.jsonName : Rule → String
  | .andElim => "AndElim"
  | .orElim => "OrElim"
  | .notElim => "NotElim"
  | .bottomElim => "BottomElim"
  | .impliesElim => "ImpliesElim"
  | .iffElim => "IffElim"
  | .andIntro => "AndIntro"
  | .orIntro => "OrIntro"
  | .notIntro => "NotIntro"
  | .bottomIntro => "BottomIntro"
  | .impliesIntro => "ImpliesIntro"
  | .iffIntro => "IffIntro"
  | .forallElim => "ForallElim"
  | .forallIntro => "ForallIntro"
  | .existsElim => "ExistsElim"
  | .existsIntro => "ExistsIntro"
  | .reiteration => "Reiteration"
  | .peanoInduction => "PeanoInduction"
  | .strongInduction => "StrongInduction"

def Rule.toJson (r : Rule) : Json := .text r.jsonName

def Rule.ofJson? : Decoder Rule := fun room _ =>
  Json.named? (Rule.all.map fun r => (r.jsonName, r)) room

def Method.toJson (m : Method) : Json := .text m.name

def Method.ofJson? : Decoder Method := fun room _ =>
  Json.named? (Method.all.map fun m => (m.name, m)) room

/-! ## Requests -/

def SuggestRequest.toJson (r : SuggestRequest) : Json :=
  .record [("proof", r.proof.toJson), ("max", .natural r.max)]

def SuggestRequest.ofJson? : Decoder SuggestRequest :=
  Json.record? fun room held ms => do
    let proof ← ms.required "proof" (Payload.ofJson? room held)
    let max ← ms.required "max" (Json.natural? Numeral.maxWord)
    return { proof, max }

def RegisterRequest.toJson (r : RegisterRequest) : Json :=
  .record [("name", .text r.name), ("proof", r.proof.toJson)]

def RegisterRequest.ofJson? : Decoder RegisterRequest :=
  Json.record? fun room held ms => do
    let name ← ms.required "name" Json.text?
    let proof ← ms.required "proof" (Payload.ofJson? room held)
    return { name, proof }

/-! ## Answers -/

/-- What a verifier says when it rejects a payload. -/
structure Rejection where
  line : Option String
  message : String
  deriving DecidableEq, Repr, Inhabited

def Rejection.toJson (r : Rejection) : Json :=
  .record [("step_id", .orNull .text r.line), ("message", .text r.message)]

def Rejection.ofMembers? (ms : Members) : Option Rejection := do
  let line ← ms.optional "step_id" Json.text?
  let message ← ms.required "message" Json.text?
  return { line, message }

def Rejection.ofJson? : Decoder Rejection :=
  Json.record? fun _ _ => Rejection.ofMembers?

def Outcome.toJson : Outcome → Json
  | .valid => .record [("result", .text "valid")]
  | .invalid line message =>
    .record [("result", .text "invalid"), ("step_id", .orNull .text line), ("message", .text message)]

def Outcome.ofJson? : Decoder Outcome :=
  Json.tagged? "result" [("valid", true), ("invalid", false)] fun _ valid ms =>
    if valid then some .valid
    else (Rejection.ofMembers? ms).map fun r => .invalid r.line r.message

def RuleListing.toJson (l : RuleListing) : Json :=
  .record [("builtin", .array (l.builtin.map .text)), ("custom", .array (l.custom.map .text))]

def RuleListing.ofJson? : Decoder RuleListing :=
  Json.record? fun room _ ms => do
    let builtin ← ms.required "builtin" (Json.texts? room)
    let custom ← ms.required "custom" (Json.texts? room)
    return { builtin, custom }

def Suggestion.ofJson? : Decoder Suggestion :=
  Json.record? fun room held ms => do
    let formula ← ms.required "formula" (Formula.ofWire? room held)
    let formulaText ← ms.required "str_formula" Json.text?
    let rule ← ms.required "rule" Json.text?
    let premises ← ms.required "premises" (Json.texts? room)
    let score ← ms.required "score" Json.toDouble?
    return { formula, formulaText, rule, premises, score }

def Suggestion.listOfJson? : Decoder (List Suggestion) := fun room held =>
  Json.list? (Suggestion.ofJson? · held) room

end ProofSheet
