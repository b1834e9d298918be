/-
# Parsers on lists

A parser takes symbols from the front of a list and gives a value and the symbols it left, or a
failure.  The module holds the one loop that the grammars of this library need: items with a
separator between neighbours.  The loop counts its rounds on the input itself, so it needs no
number from outside; `further_eq` is the equation it satisfies, with no bound in it.
-/

namespace ProofSheet

/-- A parser reads from the front of a list: a value and the rest, or a failure. -/
abbrev Parser (σ ε α : Type) : Type :=
  List σ → Except ε (α × List σ)

namespace Parser

variable {σ ε α : Type}

/-- Reads an item after each separator, as long as a separator comes next.  The list `bound` only
counts rounds: every round uses up its separator, so the input is bound enough for itself. -/
def further (isSep : σ → Bool) (item : Parser σ ε α) : (bound : List σ) → Parser σ ε (List α)
  | _ :: bound, s :: input =>
    if isSep s then do
      let (a, input) ← item input
      let (as, input) ← further isSep item bound input
      return (a :: as, input)
    else .ok ([], s :: input)
  | _, input => .ok ([], input)

/-- Reads one or more items with a separator between neighbours: the first and the others. -/
def sepBy (isSep : σ → Bool) (item : Parser σ ε α) : Parser σ ε (α × List α) := fun input => do
  let (a, input) ← item input
  let (as, input) ← further isSep item input input
  return ((a, as), input)

/-! ## Reading never lengthens the input -/

/-- A parser that leaves no more symbols than it was given. -/
def Shrinks (p : Parser σ ε α) : Prop :=
  ∀ input a rest, p input = .ok (a, rest) → rest.length ≤ input.length

/-- Any bound as long as the input gives the same answer. -/
theorem further_bound (isSep : σ → Bool) {item : Parser σ ε α} (h : Shrinks item)
    (bound bound' input : List σ) (hb : input.length ≤ bound.length)
    (hb' : input.length ≤ bound'.length) :
    further isSep item bound input = further isSep item bound' input := by
  induction bound generalizing bound' input with
  | nil =>
    obtain rfl : input = [] := List.length_eq_zero_iff.1 (Nat.le_zero.1 hb)
    cases bound' <;> rfl
  | cons b bound ih =>
    cases input with
    | nil => cases bound' <;> rfl
    | cons s input =>
      cases bound' with
      | nil => simp at hb'
      | cons b' bound' =>
        simp only [further]
        split
        · cases hi : item input with
          | error e => rfl
          | ok r =>
            obtain ⟨a, rest⟩ := r
            have hr := h input a rest hi
            have := ih bound' rest (by simp at hb; omega) (by simp at hb'; omega)
            simp [bind, Except.bind, this]
        · rfl

/-- The loop unrolled once: a separator and an item, or nothing. -/
theorem further_eq (isSep : σ → Bool) {item : Parser σ ε α} (h : Shrinks item)
    (s : σ) (input : List σ) :
    further isSep item (s :: input) (s :: input) =
      if isSep s then do
        let (a, input) ← item input
        let (as, input) ← further isSep item input input
        return (a :: as, input)
      else .ok ([], s :: input) := by
  simp only [further]
  split
  · cases hi : item input with
    | error e => rfl
    | ok r =>
      obtain ⟨a, rest⟩ := r
      have := further_bound isSep h input rest rest (h input a rest hi) (Nat.le_refl _)
      simp [bind, Except.bind, this]
  · rfl

end Parser

end ProofSheet
