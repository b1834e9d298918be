import ProofSheet.Text.Blank
import ProofSheet.Text.Split
import ProofSheet.Text.Decimal
import ProofSheet.Parser
import ProofSheet.Formula.Basic
import ProofSheet.Formula.Shorthand
import ProofSheet.Formula.Token
import ProofSheet.Formula.Parser
import ProofSheet.Formula.Reading
import ProofSheet.Address
import ProofSheet.Rule.Basic
import ProofSheet.Rule.Book
import ProofSheet.Sheet.Basic
import ProofSheet.Sheet.Numbering
import ProofSheet.Sheet.Scope
import ProofSheet.Sheet.Line
import ProofSheet.Sheet.Edit
import ProofSheet.Sheet.Command
import ProofSheet.Sheet.InPlace
import ProofSheet.Json.Basic
import ProofSheet.Json.Double
import ProofSheet.Json.Reader
import ProofSheet.Json.Writer
import ProofSheet.Json.Decode
import ProofSheet.Formula.Json
import ProofSheet.Sheet.Json
import ProofSheet.Payload.Basic
import ProofSheet.Payload.OfSheet
import ProofSheet.Payload.Json
import ProofSheet.Verifier.Basic
import ProofSheet.Verifier.Json
import ProofSheet.Verifier.Transport
import ProofSheet.Config
import ProofSheet.Session
import ProofSheet.Proofs.Attempt
import ProofSheet.Proofs.Rounds
import ProofSheet.Proofs.Scan
import ProofSheet.Proofs.Grammar
import ProofSheet.Proofs.RoundTrip
import ProofSheet.Proofs.Rereading
import ProofSheet.Proofs.Cutting
import ProofSheet.Proofs.AddressOrder
import ProofSheet.Proofs.AddressSyntax
import ProofSheet.Proofs.Forest
import ProofSheet.Proofs.Numbering
import ProofSheet.Proofs.SheetOrder
import ProofSheet.Proofs.Revision
import ProofSheet.Proofs.Change
import ProofSheet.Proofs.Reachable
import ProofSheet.Proofs.Records
import ProofSheet.Proofs.Faults
import ProofSheet.Proofs.Histories
import ProofSheet.Proofs.FreshIds
import ProofSheet.Proofs.InPlace
import ProofSheet.Proofs.Targets
import ProofSheet.Proofs.JsonText
import ProofSheet.Proofs.Lossless
import ProofSheet.Proofs.Nesting
import ProofSheet.Proofs.Decoding
import ProofSheet.Proofs.Snapshot
import ProofSheet.Proofs.Delivery
import ProofSheet.Proofs.Enclosure
import ProofSheet.Proofs.Locating
import ProofSheet.Proofs.RuleBook
import ProofSheet.Proofs.Justification
import ProofSheet.Proofs.Extension
import ProofSheet.Proofs.Exchange
import ProofSheet.Proofs.Registration
import ProofSheet.Proofs.StepEdits
import ProofSheet.Proofs.Shifting
import ProofSheet.Proofs.Settling
import ProofSheet.Proofs.Scopes
import ProofSheet.Proofs.Undo
import ProofSheet.Proofs.LineEdits
import ProofSheet.Proofs.Refusal
import ProofSheet.Proofs.Commuting
import ProofSheet.Proofs.Citing
import ProofSheet.Proofs.Continuation
import ProofSheet.Proofs.Completion
import ProofSheet.Proofs.WellFormed
import ProofSheet.Proofs.Respacing
import ProofSheet.Proofs.Lookup
import ProofSheet.Proofs.Cursor
import ProofSheet.Proofs.Walking
import ProofSheet.Sheet.InPlace
