/-
# Structural edits are edits of one list

A scope names one list of steps, and an insertion, a deletion or a move of steps changes that list and
no other: addresses apart, all else on the sheet is what it was.  What becomes of the list is said by
one relation, `PutIn`, since to take an element out is to have it put in when read backwards, and a move
is both, one after the other.

Nothing is asked of the sheet: it may be numbered in any way or not at all, and node ids may repeat.
-/
import ProofSheet.Proofs.Change
import ProofSheet.Proofs.SheetOrder

namespace ProofSheet

/-! ## Putting an element into a list -/

/-- The list `ys` is `xs` with `x` put in at position `i`. -/
def PutIn {α : Type} (x : α) (i : Nat) (xs ys : List α) : Prop :=
  ∃ pre post, pre.length = i ∧ xs = pre ++ post ∧ ys = pre ++ x :: post

section

variable {α : Type} {x : α} {i : Nat} {xs ys : List α}

theorem putIn_eraseIdx (h : ys[i]? = some x) : PutIn x i (ys.eraseIdx i) ys := by
  obtain ⟨hlt, rfl⟩ := List.getElem?_eq_some_iff.1 h
  refine ⟨ys.take i, ys.drop (i + 1), List.length_take_of_le (Nat.le_of_lt hlt),
    List.eraseIdx_eq_take_drop_succ ys i, ?_⟩
  rw [List.getElem_cons_drop, List.take_append_drop]

theorem putIn_insertIdx (h : i ≤ xs.length) : PutIn x i xs (xs.insertIdx i x) := by
  have hthere : (xs.insertIdx i x)[i]? = some x := by
    rw [List.getElem?_insertIdx_self, if_pos h]
  have hput := putIn_eraseIdx hthere
  rwa [List.eraseIdx_insertIdx_self] at hput

end

/-! ## Replacing the list that a scope names -/

namespace Step

/-- The scope names the list `xs` in the steps `ss`: each position of the scope is that of a subproof,
and the rest of the scope goes on in its body. -/
inductive Names (xs : List Step) : (scope : List Nat) → (ss : List Step) → Prop
  | here : Names xs [] xs
  | inside {i : Nat} {scope : List Nat} {ss : List Step} {id : NodeId} {a : Statement}
      {body : List Step} {n : Option Address} :
      ss[i]? = some (.subproof id a body n) → Names xs scope body → Names xs (i :: scope) ss

/-- `Replaced old new scope ss ts`: the steps `ts` are the steps `ss` with `new` in the place of `old`,
the list that the scope names, and with all else as it was. -/
inductive Replaced (old new : List Step) : (scope : List Nat) → (ss ts : List Step) → Prop
  | here : Replaced old new [] old new
  | inside {scope : List Nat} {body body' : List Step} (pre : List Step) (id : NodeId) (a : Statement)
      (n : Option Address) (post : List Step) : Replaced old new scope body body' →
      Replaced old new (pre.length :: scope) (pre ++ .subproof id a body n :: post)
        (pre ++ .subproof id a body' n :: post)

variable {old new : List Step}

theorem listAt?_eq_some {scope : List Nat} :
    ∀ {ss : List Step}, listAt? scope ss = some old ↔ Names old scope ss := by
  induction scope with
  | nil =>
      intro ss
      constructor
      · intro h; cases h; exact .here
      · intro h; cases h; rfl
  | cons i scope ih =>
      intro ss
      constructor
      · intro h
        obtain ⟨pre, id, a, body, n, post, rfl, rfl, hbody, -⟩ := listAt?_cons h
        have hi : (pre ++ .subproof id a body n :: post)[pre.length]? =
            some (.subproof id a body n) := by simp
        exact .inside hi (ih.1 hbody)
      · intro h
        cases h with
        | inside hi hbody =>
            rw [listAt?, hi]
            exact ih.2 hbody

theorem replaced_setListAt {scope : List Nat} :
    ∀ {ss : List Step}, listAt? scope ss = some old →
      Replaced old new scope ss (setListAt new scope ss) := by
  induction scope with
  | nil =>
      intro ss h
      cases h
      exact .here
  | cons i scope ih =>
      intro ss h
      obtain ⟨pre, id, a, body, n, post, rfl, rfl, hbody, hset⟩ := listAt?_cons h
      rw [hset]
      exact .inside pre id a n post (ih hbody)

theorem unnumberAll_append (ss ts : List Step) :
    unnumberAll (ss ++ ts) = unnumberAll ss ++ unnumberAll ts := by
  induction ss with
  | nil => rfl
  | cons s ss ih => rw [List.cons_append, unnumberAll, unnumberAll, ih, List.cons_append]

theorem length_unnumberAll (ss : List Step) : (unnumberAll ss).length = ss.length := by
  induction ss with
  | nil => rfl
  | cons s ss ih => rw [unnumberAll, List.length_cons, ih, List.length_cons]

/-- Addresses have no part in it. -/
theorem Replaced.unnumber {scope : List Nat} {ss ts : List Step} (h : Replaced old new scope ss ts) :
    Replaced (unnumberAll old) (unnumberAll new) scope (unnumberAll ss) (unnumberAll ts) := by
  induction h with
  | here => exact .here
  | inside pre id a n post _ ih =>
      rw [unnumberAll_append, unnumberAll_append, unnumberAll, unnumberAll, Step.unnumber, Step.unnumber,
        ← length_unnumberAll pre]
      exact .inside _ _ _ _ _ ih

end Step

namespace Sheet

/-- Addresses and the next node id apart, `t` is `s` with the list `new` in the place of `old`, the list
that the scope names. -/
structure ChangedAt (s : Sheet) (scope : List Nat) (old new : List Step) (t : Sheet) : Prop where
  names : Step.Names old scope s.steps
  premises : t.unnumber.premises = s.unnumber.premises
  steps : Step.Replaced (Step.unnumberAll old) (Step.unnumberAll new) scope
    s.unnumber.steps t.unnumber.steps
  goals : t.unnumber.goals = s.unnumber.goals

theorem changedAt_setStepsAt {s : Sheet} {scope : List Nat} {old : List Step}
    (h : s.stepsAt? scope = some old) (new : List Step) (next : Nat) :
    s.ChangedAt scope old new ({ s with nextId := next }.setStepsAt scope new).renumber where
  names := Step.listAt?_eq_some.1 h
  premises := by
    rw [unnumber_renumber]
    rfl
  steps := by
    rw [unnumber_renumber]
    exact (Step.replaced_setListAt h).unnumber
  goals := by
    rw [unnumber_renumber]
    rfl

theorem orKeep_eq_ok {s t : Sheet} {id id' : NodeId} {r : Except EditError Sheet} :
    s.orKeep id r = (.ok id', t) ↔ id' = id ∧ r = .ok t := by
  cases r with
  | error e => simp [orKeep]
  | ok s' => simp [orKeep, eq_comm]

/-! ## The edits -/

/-- What the structural edits of steps do in a scope, and when they succeed. -/
structure EditsOneList (s : Sheet) (scope : List Nat) : Prop where
  /-- A line can be inserted from the first position to the one after the last. -/
  insertStatement_ok : ∀ index : Nat, (∃ id t, s.insertStatement scope index = (.ok id, t)) ↔
    ∃ old, Step.Names old scope s.steps ∧ index ≤ old.length
  /-- The line is blank and takes the next node id. -/
  insertStatement : ∀ (index : Nat) (id : NodeId) (t : Sheet),
    s.insertStatement scope index = (.ok id, t) →
    id = s.freshId ∧ t.nextId = id.val + 1 ∧
      ∃ old new, PutIn (.line (.blank id)) index old new ∧ s.ChangedAt scope old new t
  insertSubproof_ok : ∀ index : Nat, (∃ id t, s.insertSubproof scope index = (.ok id, t)) ↔
    ∃ old, Step.Names old scope s.steps ∧ index ≤ old.length
  /-- The subproof has an empty body, and it and its blank assumption take the next two node ids. -/
  insertSubproof : ∀ (index : Nat) (id : NodeId) (t : Sheet),
    s.insertSubproof scope index = (.ok id, t) →
    id = s.freshId ∧ t.nextId = id.val + 2 ∧
      ∃ old new, PutIn (.subproof id (.blank ⟨id.val + 1⟩) [] none) index old new ∧
        s.ChangedAt scope old new t
  /-- A step can be taken out where there is one. -/
  deleteStep_ok : ∀ index : Nat, (∃ step t, s.deleteStep scope index = .ok (step, t)) ↔
    ∃ old, Step.Names old scope s.steps ∧ index < old.length
  /-- The step is handed out as it was on the sheet, with its address and all that is inside it. -/
  deleteStep : ∀ (index : Nat) (step : Step) (t : Sheet),
    s.deleteStep scope index = .ok (step, t) →
    t.nextId = s.nextId ∧ ∃ old new, PutIn step index new old ∧ s.ChangedAt scope old new t
  /-- A step can be moved from and to a position where there is one. -/
  moveStep_ok : ∀ source target : Nat, (∃ t, s.moveStep scope source target = .ok t) ↔
    ∃ old, Step.Names old scope s.steps ∧ source < old.length ∧ target < old.length
  /-- The step is taken out and put back. -/
  moveStep : ∀ (source target : Nat) (t : Sheet), s.moveStep scope source target = .ok t →
    t.nextId = s.nextId ∧
      ∃ step rest old new, PutIn step source rest old ∧ PutIn step target rest new ∧
        s.ChangedAt scope old new t

variable {s t : Sheet} {scope : List Nat} {index : Nat} {step : Step} {id id' : NodeId}

/-- An insertion after some node ids were handed out. -/
theorem insertStep_ok_iff {next : Nat} :
    (∃ id t, ({ s with nextId := next } : Sheet).orKeep id'
      (({ s with nextId := next } : Sheet).insertStep scope index step) = (.ok id, t)) ↔
    ∃ old, Step.Names old scope s.steps ∧ index ≤ old.length := by
  simp only [orKeep_eq_ok, insertStep_eq_ok, ← Step.listAt?_eq_some]
  constructor
  · rintro ⟨id, t, -, old, hold, hle, -⟩
    exact ⟨old, hold, hle⟩
  · rintro ⟨old, hold, hle⟩
    exact ⟨id', _, rfl, old, hold, hle, rfl⟩

theorem changedAt_of_insertStep {next : Nat}
    (h : ({ s with nextId := next } : Sheet).insertStep scope index step = .ok t) :
    t.nextId = next ∧ ∃ old new, PutIn step index old new ∧ s.ChangedAt scope old new t := by
  obtain ⟨old, hold, hle, rfl⟩ := insertStep_eq_ok.1 h
  exact ⟨rfl, old, _, putIn_insertIdx hle, changedAt_setStepsAt (s := s) hold _ next⟩

end Sheet

end ProofSheet
