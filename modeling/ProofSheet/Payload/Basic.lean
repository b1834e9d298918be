/-
# Payloads

What a verifier is given to check: premises, steps and conclusions, each known by the dotted form
of its address.  An assumption cites nothing; an inference cites earlier records by their ids.
-/
import ProofSheet.Formula.Basic

namespace ProofSheet

/-- A premise of the sheet, or the assumption of a subproof. -/
structure Assumption where
  id : String
  formula : Formula
  rule : String
  deriving DecidableEq, Repr, Inhabited

/-- A line or a conclusion, with the ids of what it cites. -/
structure Inference where
  id : String
  formula : Formula
  rule : String
  premises : List String
  deriving DecidableEq, Repr, Inhabited

/-- A step of a payload: an inference, or a subproof. -/
inductive Item where
  | subproof (id : String) (assumption : Assumption) (steps : List Item)
  | inference (i : Inference)
  deriving Inhabited

/-- What a verifier is given to check. -/
structure Payload where
  premises : List Assumption
  steps : List Item
  conclusions : List Inference
  deriving Inhabited

/-! ## Equality of items -/

mutual

def Item.decEq : (a b : Item) → Decidable (a = b)
  | .inference s, .inference t =>
    if h : s = t then isTrue (by rw [h]) else isFalse (by simpa using h)
  | .inference _, .subproof .. => isFalse (by simp)
  | .subproof .., .inference _ => isFalse (by simp)
  | .subproof i a xs, .subproof j b ys =>
    match Item.decEqAll xs ys with
    | isTrue hb =>
      if h : i = j ∧ a = b then isTrue (by simp [h, hb])
      else isFalse (by simp only [Item.subproof.injEq]; exact fun e => h ⟨e.1, e.2.1⟩)
    | isFalse hb => isFalse (by simp only [Item.subproof.injEq]; exact fun e => hb e.2.2)

def Item.decEqAll : (xs ys : List Item) → Decidable (xs = ys)
  | [], [] => isTrue rfl
  | [], _ :: _ => isFalse (by simp)
  | _ :: _, [] => isFalse (by simp)
  | x :: xs, y :: ys =>
    match Item.decEq x y, Item.decEqAll xs ys with
    | isTrue h, isTrue hs => isTrue (by rw [h, hs])
    | isFalse h, _ => isFalse (by simp [h])
    | _, isFalse hs => isFalse (by simp [hs])

end

instance : DecidableEq Item := Item.decEq

deriving instance DecidableEq for Payload

end ProofSheet
