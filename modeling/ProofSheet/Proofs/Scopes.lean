/-
# Reading and replacing the list that a scope names

The list that a scope names is read by `listAt?` and replaced by `setListAt`, and the two keep the laws
of a place: what has been put there is read back, putting back what is there changes nothing, and of two
replacements the last one counts.

Both go by the shape of the forest alone.  So a function that is applied to every step, that leaves lines
lines and goes on inside the subproofs, may be applied before them or after.
-/
import ProofSheet.Proofs.Forest

namespace ProofSheet

namespace Step

variable {old new newer : List Step}

section

variable (pre : List Step) (id : NodeId) (a : Statement) (body : List Step) (n : Option Address)
  (post : List Step) (scope : List Nat)

theorem listAt?_entered : listAt? (pre.length :: scope) (pre ++ .subproof id a body n :: post) =
    listAt? scope body := by
  have hi : (pre ++ .subproof id a body n :: post)[pre.length]? = some (.subproof id a body n) := by simp
  rw [listAt?, hi]

theorem setListAt_entered (new : List Step) :
    setListAt new (pre.length :: scope) (pre ++ .subproof id a body n :: post) =
      pre ++ .subproof id a (setListAt new scope body) n :: post := by
  have hi : (pre ++ .subproof id a body n :: post)[pre.length]? = some (.subproof id a body n) := by simp
  rw [setListAt, hi]
  simp

end

/-! ## The laws of a place -/

theorem listAt?_setListAt {scope : List Nat} : ∀ {ss : List Step}, listAt? scope ss = some old →
    listAt? scope (setListAt new scope ss) = some new := by
  induction scope with
  | nil => intro ss _; rfl
  | cons i scope ih =>
      intro ss h
      obtain ⟨pre, id, a, body, n, post, rfl, rfl, hbody, hset⟩ := listAt?_cons h
      rw [hset, listAt?_entered]
      exact ih hbody

theorem setListAt_self {scope : List Nat} : ∀ {ss : List Step}, listAt? scope ss = some old →
    setListAt old scope ss = ss := by
  induction scope with
  | nil => intro ss h; cases h; rfl
  | cons i scope ih =>
      intro ss h
      obtain ⟨pre, id, a, body, n, post, rfl, -, hbody, hset⟩ := listAt?_cons h
      rw [hset, ih hbody]

theorem setListAt_setListAt {scope : List Nat} : ∀ {ss : List Step}, listAt? scope ss = some old →
    setListAt newer scope (setListAt new scope ss) = setListAt newer scope ss := by
  induction scope with
  | nil => intro ss _; rfl
  | cons i scope ih =>
      intro ss h
      obtain ⟨pre, id, a, body, n, post, rfl, rfl, hbody, hset⟩ := listAt?_cons h
      rw [hset, hset, setListAt_entered, ih hbody]

/-! ## Functions that keep the shape -/

/-- The function works on every step by itself: a line becomes a line, and a subproof becomes a subproof
whose body is made of what its steps become. -/
structure Pointwise (φ : Step → Step) : Prop where
  line : ∀ s, ∃ s', φ (.line s) = .line s'
  subproof : ∀ id a n, ∃ id' a' n', ∀ body, φ (.subproof id a body n) = .subproof id' a' (body.map φ) n'

theorem listAt?_map {φ : Step → Step} (h : Pointwise φ) (scope : List Nat) :
    ∀ ss : List Step, listAt? scope (ss.map φ) = (listAt? scope ss).map (List.map φ) := by
  induction scope with
  | nil => intro ss; rfl
  | cons i scope ih =>
      intro ss
      rw [listAt?, listAt?, List.getElem?_map]
      cases hi : ss[i]? with
      | none => rfl
      | some st =>
          cases st with
          | line s =>
              obtain ⟨s', hs⟩ := h.line s
              rw [Option.map_some, hs]
              rfl
          | subproof id a body n =>
              obtain ⟨id', a', n', hsub⟩ := h.subproof id a n
              rw [Option.map_some, hsub]
              exact ih body

theorem setListAt_map {φ : Step → Step} (h : Pointwise φ) (new : List Step) (scope : List Nat) :
    ∀ ss : List Step, setListAt (new.map φ) scope (ss.map φ) = (setListAt new scope ss).map φ := by
  induction scope with
  | nil => intro ss; rfl
  | cons i scope ih =>
      intro ss
      rw [setListAt, setListAt, List.getElem?_map]
      cases hi : ss[i]? with
      | none => rfl
      | some st =>
          cases st with
          | line s =>
              obtain ⟨s', hs⟩ := h.line s
              rw [Option.map_some, hs]
          | subproof id a body n =>
              obtain ⟨id', a', n', hsub⟩ := h.subproof id a n
              rw [Option.map_some, hsub]
              show (ss.map φ).set i (.subproof id' a' (setListAt (new.map φ) scope (body.map φ)) n') =
                (ss.set i (.subproof id a (setListAt new scope body) n)).map φ
              rw [ih, List.map_set, hsub]

end Step

end ProofSheet
