/-
# Verifiers behind a transport

A transport carries the JSON text of a request to an endpoint and brings back a status and a body,
or fails with a message.  Any transport makes a verifier: a status from 200 to 299 means success,
and 400 in answer to a proof means that it was rejected.
-/
import ProofSheet.Verifier.Json

namespace ProofSheet

structure Response where
  status : Nat
  body : String
  deriving DecidableEq, Repr, Inhabited

namespace Response

def isSuccess (r : Response) : Bool := 200 ≤ r.status && r.status ≤ 299

def outcome (r : Response) : Except RequestError Outcome :=
  if r.isSuccess then .ok .valid
  else if r.status = 400 then
    match Json.decode? Rejection.ofJson? r.body with
    | some rejection => .ok (.invalid rejection.line rejection.message)
    | none => .error .malformed
  else .error (.unexpectedStatus r.status)

def value {α : Type} (d : Json.Decoder α) (r : Response) : Except RequestError α :=
  if r.isSuccess then
    match Json.decode? d r.body with
    | some a => .ok a
    | none => .error .malformed
  else .error (.unexpectedStatus r.status)

end Response

/-- Carries requests to a service and responses back, on states of type `σ`. -/
abbrev Transport (σ : Type) : Type :=
  Endpoint → (body : Option String) → σ → Except String Response × σ

namespace Transport

variable {σ : Type}

def request {α : Type} (t : Transport σ) (e : Endpoint) (body : Option Json)
    (interpret : Response → Except RequestError α) (state : σ) : Except RequestError α × σ :=
  match t e (body.map Json.print) state with
  | (.ok r, state) => (interpret r, state)
  | (.error message, state) => (.error (.transport message), state)

def verifier (t : Transport σ) : Verifier σ where
  verify p := t.request .verifyProof (some p.toJson) Response.outcome
  listRules := t.request .listRules none (Response.value RuleListing.ofJson?)
  suggest r := t.request .suggestRules (some r.toJson) (Response.value Suggestion.listOfJson?)
  register r := t.request .registerRule (some r.toJson) Response.outcome

end Transport

end ProofSheet
