/-
# Settings of a session

Whether shorthand is expanded as it is typed, where the verifier is, and how many suggestions to ask
for.  Every setting has a default, and a settings text names only those that differ.
-/
import ProofSheet.Json.Decode
import ProofSheet.Verifier.Basic

namespace ProofSheet

open Json (Decoder Members)

/-- Where a verifier is and how to ask it. -/
structure Service where
  baseUrl : String := "http://localhost:5000"
  maxSuggestions : Nat := 5
  deriving DecidableEq, Repr, Inhabited

structure Config where
  expandShorthand : Bool := true
  service : Service := {}
  deriving DecidableEq, Repr, Inhabited

inductive ConfigError where
  | malformed
  | noSuggestions
  deriving DecidableEq, Repr, Inhabited

def ConfigError.message : ConfigError → String
  | .malformed => "Invalid configuration"
  | .noSuggestions => "verifier.max_suggestions must be at least 1"

namespace Service

/-- The address of an endpoint: slashes at the end of the base do not count. -/
def url (s : Service) (e : Endpoint) : String :=
  String.ofList (s.baseUrl.toList.reverse.dropWhile (· == '/')).reverse ++ e.path

def toJson (s : Service) : Json :=
  .record [("base_url", .text s.baseUrl), ("max_suggestions", .natural s.maxSuggestions)]

/-- Decodes service settings; what is left out keeps its default. -/
def ofJson? : Decoder Service :=
  Json.record? fun _ _ ms => do
    let baseUrl ← ms.orDefault "base_url" ({} : Service).baseUrl Json.text?
    let maxSuggestions ←
      ms.orDefault "max_suggestions" ({} : Service).maxSuggestions (Json.natural? Numeral.maxWord)
    return { baseUrl, maxSuggestions }

end Service

namespace Config

/-- Settings that ask for no suggestions make no sense. -/
def validate (c : Config) : Except ConfigError Unit :=
  if c.service.maxSuggestions = 0 then .error .noSuggestions else .ok ()

def toJson (c : Config) : Json :=
  .record [("substitute_shorthand", .bool c.expandShorthand), ("verifier", c.service.toJson)]

/-- Decodes settings; what is left out keeps its default. -/
def ofJson? : Decoder Config :=
  Json.record? fun room held ms => do
    let expandShorthand ←
      ms.orDefault "substitute_shorthand" ({} : Config).expandShorthand Json.bool?
    let service ← ms.orDefault "verifier" ({} : Service) (Service.ofJson? room held)
    return { expandShorthand, service }

def load (text : String) : Except ConfigError Config :=
  match Json.decode? ofJson? text with
  | none => .error .malformed
  | some c => do
    c.validate
    return c

end Config

end ProofSheet
