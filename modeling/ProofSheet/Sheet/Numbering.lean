/-
# Numbering

One running count goes through premises, steps and goals.  Inside a subproof the assumption is
line 1 and the body goes on from line 2.  The addresses of a list of steps are given by its `slot`
function: position `k` of the list has address `slot k`.

Numbering is written twice.  `Sheet.countThrough` keeps the count while it goes through the sheet;
`Sheet.renumber` says of each position what the count is there.  They are the same
(`Sheet.countThrough_eq`).
-/
import ProofSheet.Sheet.Basic

namespace ProofSheet

namespace Step

mutual

/-- A step at a given address, with everything inside it numbered. -/
def renumber (a : Address) : Step → Step
  | .line s => .line { s with number := some a }
  | .subproof id assumption body _ =>
    .subproof id { assumption with number := some (a.child 1) }
      (renumberAll (fun k => a.child (k + 2)) body) (some a)

/-- Steps with position `k` of the list at address `slot k`. -/
def renumberAll (slot : Nat → Address) : List Step → List Step
  | [] => []
  | s :: ss => s.renumber (slot 0) :: renumberAll (fun k => slot (k + 1)) ss

end

end Step

namespace Sheet

/-- The sheet with every line at its address. -/
def renumber (s : Sheet) : Sheet :=
  let first := s.premises.length
  let second := first + s.steps.length
  { s with
    premises := s.premises.mapIdx fun i p => { p with number := some (.top (i + 1)) }
    steps := Step.renumberAll (fun k => .top (first + k + 1)) s.steps
    goals := s.goals.mapIdx fun j g => { g with number := some (.top (second + j + 1)) } }

/-- Goes through a list with a running count: `n` at the first element, and given back as it is after
the last. -/
def counted {α : Type} (f : Nat → α → α) : Nat → List α → List α × Nat
  | n, [] => ([], n)
  | n, a :: as =>
    let (as, m) := counted f (n + 1) as
    (f n a :: as, m)

/-- The sheet numbered by one running count through premises, steps and goals. -/
def countThrough (s : Sheet) : Sheet :=
  let (premises, n) := counted (fun n p => { p with number := some (.top n) }) 1 s.premises
  let (steps, n) := counted (fun n st => st.renumber (.top n)) n s.steps
  let (goals, _) := counted (fun n g => { g with number := some (.top n) }) n s.goals
  { s with premises, steps, goals }

end Sheet

/-! ## The count at a position -/

theorem Step.renumberAll_eq_mapIdx (ss : List Step) : ∀ slot : Nat → Address,
    renumberAll slot ss = ss.mapIdx fun k s => s.renumber (slot k) := by
  induction ss with
  | nil => intro slot; rfl
  | cons s ss ih => intro slot; rw [renumberAll, ih, List.mapIdx_cons]

namespace Sheet

theorem counted_eq {α : Type} (f : Nat → α → α) (l : List α) : ∀ n,
    counted f n l = (l.mapIdx fun i => f (n + i), n + l.length) := by
  induction l with
  | nil => intro n; rfl
  | cons a l ih =>
      intro n
      have hcount : ∀ i, n + 1 + i = n + (i + 1) := by omega
      rw [counted, ih, List.mapIdx_cons, List.length_cons]
      simp only [hcount, Nat.add_zero]

theorem countThrough_eq (s : Sheet) : s.countThrough = s.renumber := by
  simp only [countThrough, renumber, counted_eq, Step.renumberAll_eq_mapIdx, Nat.add_comm 1,
    Nat.add_right_comm _ 1]

end Sheet

end ProofSheet
