/-
# Sessions

One sheet with the settings and the rules it is edited with.  The verifier is asked only when the
sheet has a payload; no request changes the sheet or the settings, and only an answered one changes
the rules.
-/
import ProofSheet.Config
import ProofSheet.Formula.Shorthand
import ProofSheet.Sheet.InPlace

namespace ProofSheet

/-- A sheet being edited, its settings and its rules. -/
structure Session where
  sheet : Sheet := {}
  config : Config := {}
  rules : RuleBook := {}
  deriving DecidableEq, Inhabited

namespace Session

variable {σ : Type}

def run (s : Session) (c : Command) : Except EditError Reply × Session :=
  let (reply, sheet) := c.run s.sheet
  (reply, { s with sheet })

/-- The text that is stored for what is typed. -/
def storedText (s : Session) (typed : String) : String :=
  if s.config.expandShorthand then Shorthand.expand typed else typed

def editText (s : Session) (id : NodeId) (typed : String) : Except EditError Reply × Session :=
  s.run (.setText id (s.storedText typed))

/-- Carries out a command on the sheet, in place. -/
def perform (s : Session) (c : Command) : Except EditError Reply × Session :=
  let (reply, sheet) := c.perform s.sheet
  (reply, { s with sheet })

/-- Types into a line, in place. -/
def enterText (s : Session) (id : NodeId) (typed : String) : Except EditError Reply × Session :=
  s.perform (.setText id (s.storedText typed))

def payload (s : Session) : Except Fault Payload :=
  Payload.ofSheet s.rules s.sheet

def verify (s : Session) (v : Verifier σ) (state : σ) : Except RequestError Outcome × σ :=
  match s.payload with
  | .error f => (.error (.unconvertible f), state)
  | .ok p => v.verify p state

/-- Asks for next lines, and keeps no more than were asked for. -/
def suggest (s : Session) (v : Verifier σ) (state : σ) :
    Except RequestError (List Suggestion) × σ :=
  match s.payload with
  | .error f => (.error (.unconvertible f), state)
  | .ok proof =>
    let max := s.config.service.maxSuggestions
    let (answer, state) := v.suggest { proof, max } state
    (answer.map (List.take max), state)

/-- Offers the sheet as a new rule, which the session knows as soon as it is accepted. -/
def register (s : Session) (name : String) (v : Verifier σ) (state : σ) :
    Except RequestError Outcome × Session × σ :=
  match s.payload with
  | .error f => (.error (.unconvertible f), s, state)
  | .ok proof =>
    match v.register { name, proof } state with
    | (.ok .valid, state) => (.ok .valid, { s with rules := s.rules.insert name }, state)
    | (answer, state) => (answer, s, state)

/-- Takes over the custom rules that the verifier lists now. -/
def refreshRules (s : Session) (v : Verifier σ) (state : σ) :
    Except RequestError Unit × Session × σ :=
  match v.listRules state with
  | (.ok listing, state) => (.ok (), { s with rules := listing.book }, state)
  | (.error e, state) => (.error e, s, state)

end Session

end ProofSheet
