/-
# Formulas as JSON

Formulas have two JSON forms.  The stored form is used where sheets are kept, the wire form where a
verifier is spoken to.  They differ in the name of a predicate's tag, in whether an empty list of
arguments is written, in the member that holds what a negation denies, and in how a bound variable
is written.
-/
import ProofSheet.Formula.Reading
import ProofSheet.Json.Decode

namespace ProofSheet

open Json (Decoder Members)

/-! ## Names -/

def Connective.jsonName : Connective → String
  | .and => "and"
  | .or => "or"
  | .implies => "implies"
  | .iff => "iff"

def Quantifier.jsonName : Quantifier → String
  | .universal => "forall"
  | .existential => "exists"

def Quantifier.toJson (q : Quantifier) : Json := .text q.jsonName

def Quantifier.ofJson? : Decoder Quantifier := fun room _ =>
  Json.named? (Quantifier.all.map fun q => (q.jsonName, q)) room

/-! ## Terms -/

namespace Term

def jsonKind : Term → String
  | .var _ => "variable"
  | .const _ => "constant"

def toJson (t : Term) : Json :=
  .record [("type", .text t.jsonKind), ("name", .text t.name)]

/-- Decodes a term with the kinds in a given order. -/
def decoder (kinds : List (String × (String → Term))) : Decoder Term :=
  Json.tagged? "type" kinds fun _ make ms => (ms.required "name" Json.text?).map make

def ofJson? : Decoder Term :=
  decoder [("constant", .const), ("variable", .var)]

def ofWire? : Decoder Term :=
  decoder [("variable", .var), ("constant", .const)]

end Term

namespace Formula

/-- The kinds of formulas that a tag tells apart. -/
inductive Kind where
  | predicate
  | bottom
  | neg
  | binary (c : Connective)
  | quantified (q : Quantifier)
  deriving DecidableEq, Repr

/-- The tags of the kinds, a predicate's being given. -/
def kinds (predicate : String) : List (String × Kind) :=
  [(predicate, .predicate), ("not", .neg),
   ("and", .binary .and), ("or", .binary .or), ("implies", .binary .implies), ("iff", .binary .iff),
   ("bottom", .bottom), ("forall", .quantified .universal), ("exists", .quantified .existential)]

/-! ## The stored form -/

/-- A bound variable of the stored form. -/
def variableToJson (x : String) : Json := .record [("name", .text x)]

def variableOfJson? : Decoder String :=
  Json.record? fun _ _ ms => ms.required "name" Json.text?

def toJson : Formula → Json
  | .predicate name args =>
    .record [("type", .text "predicate"), ("name", .text name),
      ("args", .array (args.map Term.toJson))]
  | .bottom => .record [("type", .text "bottom")]
  | .neg f => .record [("type", .text "not"), ("operand", f.toJson)]
  | .binary c l r =>
    .record [("type", .text c.jsonName), ("left", l.toJson), ("right", r.toJson)]
  | .quantified q x f =>
    .record [("type", .text q.jsonName), ("variable", variableToJson x), ("body", f.toJson)]

def ofJson? : Decoder Formula
  | room + 1, held, .object ms => do
    let ms ← Json.hold? (room + 1) held ms
    match ← ms.tag? held "type" (kinds "predicate") with
    | .predicate => do
      let name ← ms.required "name" Json.text?
      let args ← ms.required "args" (Json.list? (Term.ofJson? · true) room)
      return .predicate name args
    | .bottom => return .bottom
    | .neg => do
      let f ← ms.required "operand" (ofJson? room true)
      return .neg f
    | .binary c => do
      let l ← ms.required "left" (ofJson? room true)
      let r ← ms.required "right" (ofJson? room true)
      return .binary c l r
    | .quantified q => do
      let x ← ms.required "variable" (variableOfJson? room true)
      let f ← ms.required "body" (ofJson? room true)
      return .quantified q x f
  | _, _, _ => none

/-! ## The wire form -/

/-- The arguments of a predicate in the wire form: no member at all when there are none. -/
def wireArgs : List Term → List (String × Json)
  | [] => []
  | args => [("args", .array (args.map Term.toJson))]

def toWire : Formula → Json
  | .predicate name args =>
    .record ([("type", .text "var"), ("name", .text name)] ++ wireArgs args)
  | .bottom => .record [("type", .text "bottom")]
  | .neg f => .record [("type", .text "not"), ("value", f.toWire)]
  | .binary c l r =>
    .record [("type", .text c.jsonName), ("left", l.toWire), ("right", r.toWire)]
  | .quantified q x f =>
    .record [("type", .text q.jsonName), ("variable", .text x), ("body", f.toWire)]

def ofWire? : Decoder Formula
  | room + 1, held, .object ms => do
    let ms ← Json.hold? (room + 1) held ms
    match ← ms.tag? held "type" (kinds "var") with
    | .predicate => do
      let name ← ms.required "name" Json.text?
      let args ← ms.orDefault "args" [] (Json.list? (Term.ofWire? · true) room)
      return .predicate name args
    | .bottom => return .bottom
    | .neg => do
      let f ← ms.required "value" (ofWire? room true)
      return .neg f
    | .binary c => do
      let l ← ms.required "left" (ofWire? room true)
      let r ← ms.required "right" (ofWire? room true)
      return .binary c l r
    | .quantified q => do
      let x ← ms.required "variable" Json.text?
      let f ← ms.required "body" (ofWire? room true)
      return .quantified q x f
  | _, _, _ => none

end Formula

/-! ## Readings -/

namespace Reading

inductive Kind where
  | formula
  | blank
  | wrong
  | unfinished
  deriving DecidableEq, Repr

def kinds : List (String × Kind) :=
  [("ok", .formula), ("empty", .blank), ("error", .wrong), ("incomplete", .unfinished)]

def toJson : Reading → Json
  | .formula f => .record [("status", .text "ok"), ("formula", f.toJson)]
  | .blank => .record [("status", .text "empty")]
  | .wrong message => .record [("status", .text "error"), ("error", .text message)]
  | .unfinished message => .record [("status", .text "incomplete"), ("error", .text message)]

def ofJson? : Decoder Reading :=
  Json.tagged? "status" kinds fun room kind ms =>
    match kind with
    | .formula => (ms.required "formula" (Formula.ofJson? room true)).map .formula
    | .blank => some .blank
    | .wrong => (ms.required "error" Json.text?).map .wrong
    | .unfinished => (ms.required "error" Json.text?).map .unfinished

end Reading

end ProofSheet
