/-
# Verifiers

A verifier is an outside service that checks payloads, lists the rules it knows, suggests next lines
and takes proven sheets as new rules.  Here it is any state machine that answers these four
requests, each with a result or with a failure.
-/
import ProofSheet.Payload.OfSheet

namespace ProofSheet

inductive Method where
  | get
  | post
  deriving DecidableEq, Repr, Inhabited

namespace Method

def all : List Method := [.get, .post]

def name : Method → String
  | .get => "GET"
  | .post => "POST"

end Method

/-- What a verifier can be asked. -/
inductive Endpoint where
  | verifyProof
  | listRules
  | registerRule
  | suggestRules
  deriving DecidableEq, Repr, Inhabited

namespace Endpoint

def all : List Endpoint := [.verifyProof, .listRules, .registerRule, .suggestRules]

def path : Endpoint → String
  | .verifyProof => "/verify_proof"
  | .listRules => "/rules"
  | .registerRule => "/rules"
  | .suggestRules => "/suggest_rules"

/-- The method of an endpoint: listing reads, all else sends. -/
def method : Endpoint → Method
  | .listRules => .get
  | _ => .post

end Endpoint

/-! ## Requests and answers -/

/-- Asks for next lines, at most `max` of them. -/
structure SuggestRequest where
  proof : Payload
  max : Nat
  deriving DecidableEq, Inhabited

/-- Offers a proof as a new rule. -/
structure RegisterRequest where
  name : String
  proof : Payload
  deriving DecidableEq, Inhabited

/-- What checking a payload came to. -/
inductive Outcome where
  | valid
  | invalid (line : Option String) (message : String)
  deriving DecidableEq, Repr, Inhabited

def Outcome.isValid : Outcome → Bool
  | .valid => true
  | .invalid _ _ => false

/-- The long names of the rules that a verifier knows. -/
structure RuleListing where
  builtin : List String
  custom : List String
  deriving DecidableEq, Repr, Inhabited

def RuleListing.book (l : RuleListing) : RuleBook := .ofNames l.custom

/-- A next line that a verifier proposes. -/
structure Suggestion where
  formula : Formula
  formulaText : String
  rule : String
  premises : List String
  score : Float
  deriving Repr, Inhabited

inductive RequestError where
  | unconvertible (f : Fault)
  | malformed
  | transport (message : String)
  | unexpectedStatus (status : Nat)
  deriving DecidableEq, Repr, Inhabited

namespace RequestError

def message : RequestError → String
  | .unconvertible f =>
    let cause := f.message
    s!"Cannot build verifier payload: {cause}"
  | .malformed => "Malformed verifier message"
  | .transport message => s!"Verifier unreachable: {message}"
  | .unexpectedStatus status => s!"Unexpected verifier status {status}"

end RequestError

/-- A verifier, as a state machine on states of type `σ`. -/
structure Verifier (σ : Type) where
  verify : Payload → σ → Except RequestError Outcome × σ
  listRules : σ → Except RequestError RuleListing × σ
  suggest : SuggestRequest → σ → Except RequestError (List Suggestion) × σ
  register : RegisterRequest → σ → Except RequestError Outcome × σ

/-! ## Checking a sheet -/

/-- Has a sheet checked with the built-in rules.  A sheet without a payload is not sent. -/
def Sheet.check {σ : Type} (s : Sheet) (v : Verifier σ) (state : σ) :
    Except RequestError Outcome × σ :=
  match Payload.ofSheet {} s with
  | .error f => (.error (.unconvertible f), state)
  | .ok p => v.verify p state

/-- What a rejection points at, if that is still on the sheet. -/
def Sheet.locate? (s : Sheet) : Outcome → Option NodeId
  | .invalid (some line) _ => (Address.parse? line).bind s.resolve?
  | _ => none

end ProofSheet
