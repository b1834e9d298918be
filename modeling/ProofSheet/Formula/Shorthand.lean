/-
# Keyboard shorthand

Ten keys of a plain keyboard stand for logical symbols.  Expansion looks at one character at a
time and at nothing around it.
-/
import ProofSheet.Formula.Basic

namespace ProofSheet.Shorthand

/-- The shorthand keys and what they stand for. -/
def table : List (Char × Char) :=
  [('~', '¬'), ('@', '∀'), ('#', '≠'), ('$', '→'), ('%', '↔'),
   ('^', '⊥'), ('&', '∧'), ('_', '⊆'), ('|', '∨'), ('/', '∃')]

def symbolFor? (c : Char) : Option Char :=
  table.lookup c

/-- A character, or the symbol it stands for. -/
def expandChar (c : Char) : Char :=
  (symbolFor? c).getD c

def expand (s : String) : String :=
  String.ofList (s.toList.map expandChar)

theorem symbolFor?_eq_some {c d : Char} (h : symbolFor? c = some d) : (c, d) ∈ table := by
  obtain ⟨l₁, l₂, e, -⟩ := List.lookup_eq_some_iff.1 h
  simp [e]

/-- No symbol is itself a key, so a second expansion changes nothing. -/
theorem expandChar_expandChar (c : Char) : expandChar (expandChar c) = expandChar c := by
  have closed : ∀ p ∈ table, symbolFor? p.2 = none := by decide
  cases h : symbolFor? c with
  | none => simp [expandChar, h]
  | some d => simp [expandChar, h, closed _ (symbolFor?_eq_some h)]

end ProofSheet.Shorthand
