/-
# Taking an edit back

A structural edit of a numbered sheet is taken back by another one: a move by the move the other way,
and whatever was added by deleting it.  The sheet is then what it was, with every address, at any depth;
only the node ids that were handed out stay handed out.

The edits in between number the sheet twice, and addresses of the first numbering are still there when
the second edit is made.  They do not matter, since numbering forgets what was there before
(`Sheet.renumber_unnumber`).  So it is enough to compare sheets without addresses, where an edit and its
counterpart cancel in the one list that they change (`Sheet.Numbered.setStepsAt_back`).
-/
import Mathlib.Data.List.InsertIdx
import ProofSheet.Payload.OfSheet
import ProofSheet.Proofs.Scopes
import ProofSheet.Proofs.Shifting

namespace ProofSheet

/-! ## Steps without addresses -/

namespace Step

theorem unnumberAll_eq_map (ss : List Step) : unnumberAll ss = ss.map unnumber := by
  induction ss with
  | nil => rfl
  | cons s ss ih => rw [unnumberAll, List.map_cons, ih]

theorem pointwise_unnumber : Pointwise unnumber where
  line s := ⟨_, by rw [unnumber]⟩
  subproof id a n := ⟨id, _, none, fun body => by rw [unnumber, unnumberAll_eq_map]⟩

theorem renumberAll_unnumberAll (ss : List Step) :
    ∀ slot : Nat → Address, renumberAll slot (unnumberAll ss) = renumberAll slot ss := by
  induction ss using forestInduction with
  | nil => intro slot; rfl
  | line s ss ih =>
      intro slot
      rw [unnumberAll, unnumber, renumberAll, renumberAll, renumber, renumber, ih]
  | subproof id a body n ss ihb ih =>
      intro slot
      rw [unnumberAll, unnumber, renumberAll, renumberAll, renumber, renumber, ihb, ih]

theorem id_renumber (a : Address) (s : Step) : (s.renumber a).id = s.id := by
  cases s with
  | line s => rw [renumber]; rfl
  | subproof id b body n => rw [renumber]; rfl

theorem unnumber_renumber (a : Address) (s : Step) : (s.renumber a).unnumber = s.unnumber :=
  (List.cons.inj (unnumberAll_renumberAll [s] fun _ => a)).1

/-- Without addresses, what is left of numbered steps when one is taken out. -/
theorem unnumberAll_eraseIdx (slot : Nat → Address) (ss : List Step) (i : Nat) :
    unnumberAll ((renumberAll slot ss).eraseIdx i) = unnumberAll (ss.eraseIdx i) := by
  rw [unnumberAll_eq_map, ← List.eraseIdx_map, ← unnumberAll_eq_map, unnumberAll_renumberAll,
    unnumberAll_eq_map, List.eraseIdx_map, ← unnumberAll_eq_map]

theorem unnumberAll_insertIdx (ss : List Step) (i : Nat) (s : Step) :
    unnumberAll (ss.insertIdx i s) = (unnumberAll ss).insertIdx i s.unnumber := by
  rw [unnumberAll_eq_map, List.map_insertIdx, ← unnumberAll_eq_map]

end Step

/-! ## Sheets without addresses -/

namespace Sheet

variable {s t : Sheet} {scope : List Nat} {old : List Step} {index : Nat}

theorem renumber_unnumber (s : Sheet) : s.unnumber.renumber = s.renumber := by
  simp only [renumber, unnumber, List.length_map, Step.length_unnumberAll,
    Step.renumberAll_unnumberAll, mapIdx_map]

/-- A sheet that is a numbered one but for its addresses is that one once it is numbered. -/
theorem Numbered.renumber_eq (h : s.Numbered) (ht : t.unnumber = s.unnumber) : t.renumber = s := by
  rw [← renumber_unnumber t, ht, renumber_unnumber, h]

theorem Numbered.withNextId (h : s.Numbered) (n : Nat) : Numbered { s with nextId := n } := by
  show { s.renumber with nextId := n } = { s with nextId := n }
  rw [h]

theorem unnumber_setStepsAt (s : Sheet) (scope : List Nat) (new : List Step) :
    (s.setStepsAt scope new).unnumber = s.unnumber.setStepsAt scope (Step.unnumberAll new) := by
  have hsteps : Step.unnumberAll (Step.setListAt new scope s.steps) =
      Step.setListAt (Step.unnumberAll new) scope (Step.unnumberAll s.steps) := by
    simp only [Step.unnumberAll_eq_map, Step.setListAt_map Step.pointwise_unnumber]
  rw [unnumber, setStepsAt, hsteps]
  rfl

theorem stepsAt?_unnumber (h : s.stepsAt? scope = some old) :
    s.unnumber.stepsAt? scope = some (Step.unnumberAll old) := by
  have hlist := Step.listAt?_map Step.pointwise_unnumber scope s.steps
  rw [stepsAt?] at h
  rw [h, ← Step.unnumberAll_eq_map, Option.map_some, ← Step.unnumberAll_eq_map] at hlist
  exact hlist

/-! ## Back to the list that was there -/

/-- The list that an edit has put in its place, as the next edit finds it. -/
theorem stepsAt?_edited (h : s.stepsAt? scope = some old) (new : List Step) :
    (s.setStepsAt scope new).renumber.stepsAt? scope =
      some (Step.renumberAll (.inScope s.premises.length scope) new) := by
  have hnew : (s.setStepsAt scope new).stepsAt? scope = some new := Step.listAt?_setListAt h
  rw [stepsAt?_renumber, hnew]
  rfl

/-- If a list is replaced and then brought back but for its addresses, the sheet is what it was. -/
theorem Numbered.setStepsAt_back (h : s.Numbered) (hold : s.stepsAt? scope = some old)
    (new : List Step) {back : List Step} (hback : Step.unnumberAll back = Step.unnumberAll old) :
    ((s.setStepsAt scope new).renumber.setStepsAt scope back).renumber = s := by
  have hplain := stepsAt?_unnumber hold
  refine h.renumber_eq ?_
  calc ((s.setStepsAt scope new).renumber.setStepsAt scope back).unnumber
    _ = (s.setStepsAt scope new).renumber.unnumber.setStepsAt scope (Step.unnumberAll back) :=
        unnumber_setStepsAt _ _ _
    _ = (s.unnumber.setStepsAt scope (Step.unnumberAll new)).setStepsAt scope
          (Step.unnumberAll old) := by
        rw [unnumber_renumber, unnumber_setStepsAt, hback]
    _ = s.unnumber.setStepsAt scope (Step.unnumberAll old) :=
        congrArg (fun steps => { s.unnumber with steps }) (Step.setListAt_setListAt hplain)
    _ = s.unnumber := congrArg (fun steps => { s.unnumber with steps }) (Step.setListAt_self hplain)

theorem moveStep_back (h : s.Numbered) {source target : Nat}
    (hmove : s.moveStep scope source target = .ok t) : t.moveStep scope target source = .ok s := by
  obtain ⟨old, hold, step, hstep, htarget, rfl⟩ := moveStep_eq_ok.1 hmove
  obtain ⟨hsource, rfl⟩ := List.getElem?_eq_some_iff.1 hstep
  have hplace : target ≤ (old.eraseIdx source).length := by
    rw [List.length_eraseIdx_of_lt hsource]
    omega
  refine moveStep_eq_ok.2 ⟨_, stepsAt?_edited hold _,
    old[source].renumber (.inScope s.premises.length scope target), ?_, ?_, ?_⟩
  · rw [Step.getElem?_renumberAll, List.getElem?_insertIdx_self, if_pos hplace]
    rfl
  · rw [Step.length_renumberAll, List.length_insertIdx_of_le_length hplace,
      List.length_eraseIdx_of_lt hsource]
    omega
  · refine (h.setStepsAt_back hold _ ?_).symm
    rw [Step.unnumberAll_insertIdx, Step.unnumberAll_eraseIdx, List.eraseIdx_insertIdx_self,
      Step.unnumber_renumber, ← Step.unnumberAll_insertIdx, List.insertIdx_eraseIdx_getElem]

/-! ## The edits -/

/-- The sheet `t` is `s` again, but for the node ids that have been handed out since.  These do not
count for a payload. -/
structure Restores (s t : Sheet) : Prop where
  same : t = { s with nextId := t.nextId }
  payload : ∀ b : RuleBook, Payload.ofSheet b t = Payload.ofSheet b s

theorem restores_withNextId (s : Sheet) (n : Nat) : s.Restores { s with nextId := n } :=
  ⟨rfl, fun _ => rfl⟩

theorem deleteStep_back (h : s.Numbered) {next : Nat} {step : Step}
    (hinsert : ({ s with nextId := next } : Sheet).insertStep scope index step = .ok t) :
    ∃ st u, t.deleteStep scope index = .ok (st, u) ∧ st.id = step.id ∧ s.Restores u := by
  obtain ⟨old, hold, hle, rfl⟩ := insertStep_eq_ok.1 hinsert
  refine ⟨step.renumber (.inScope s.premises.length scope index), { s with nextId := next }, ?_,
    step.id_renumber _, s.restores_withNextId next⟩
  refine deleteStep_eq_ok.2 ⟨_, stepsAt?_edited hold _, ?_, ?_⟩
  · rw [Step.getElem?_renumberAll, List.getElem?_insertIdx_self, if_pos hle]
    rfl
  · refine ((h.withNextId next).setStepsAt_back hold _ ?_).symm
    rw [Step.unnumberAll_eraseIdx, List.eraseIdx_insertIdx_self]

/-- A row of lines without the last one, which was added, is the row as it was but for addresses. -/
theorem map_eraseIdx_added {α : Type} {f : Nat → α → α} {g : α → α} (h : ∀ i a, g (f i a) = g a)
    (l : List α) (a : α) : (((l ++ [a]).mapIdx f).eraseIdx l.length).map g = l.map g := by
  rw [← List.eraseIdx_map, map_mapIdx_eq h, List.eraseIdx_map,
    List.eraseIdx_append_of_length_le (Nat.le_refl _), Nat.sub_self, List.eraseIdx_cons_zero,
    List.append_nil]

/-- If a row of a sheet is replaced and then brought back but for its addresses, which `g` drops, the sheet is
what it was. -/
theorem Numbered.put_back {α : Type} (h : s.Numbered) (put : List α → Sheet → Sheet) {g : α → α}
    (hplain : ∀ l t, (put l t).unnumber = put (l.map g) t.unnumber)
    (hput : ∀ l l' t, put l (put l' t) = put l t) {row back : List α} (hrow : put row s = s)
    (new : List α) (hback : back.map g = row.map g) : (put back (put new s).renumber).renumber = s := by
  refine h.renumber_eq ?_
  rw [hplain, unnumber_renumber, hplain, hput, hback, ← hplain, hrow]

theorem deletePremise_back (h : s.Numbered) :
    ∃ p, s.addPremise.2.deletePremise s.premises.length =
      .ok (p, { s with nextId := s.freshId.val + 1 }) ∧ p.id = s.freshId := by
  have hadded : s.addPremise.2.premises[s.premises.length]? =
      some { Premise.blank s.freshId with number := some (.top (s.premises.length + 1)) } := by
    simp [addPremise, renumber, takeId]
  have hrow : (s.addPremise.2.premises.eraseIdx s.premises.length).map (fun p => { p with number := none }) =
      s.premises.map fun p => { p with number := none } := by
    refine map_eraseIdx_added ?_ s.premises (.blank s.freshId)
    intro i p
    rfl
  have hback := (h.withNextId (s.freshId.val + 1)).put_back (fun premises t => { t with premises })
    (fun _ _ => rfl) (fun _ _ _ => rfl) rfl (s.premises ++ [.blank s.freshId]) hrow
  rw [deletePremise, hadded]
  exact ⟨_, congrArg (fun t => Except.ok (_, t)) hback, rfl⟩

theorem deleteGoal_back (h : s.Numbered) :
    ∃ g, s.addGoal.2.deleteGoal s.goals.length =
      .ok (g, { s with nextId := s.freshId.val + 1 }) ∧ g.id = s.freshId := by
  have hadded : s.addGoal.2.goals[s.goals.length]? = some { Goal.blank s.freshId with
      number := some (.top (s.premises.length + s.steps.length + s.goals.length + 1)) } := by
    simp [addGoal, renumber, takeId]
  have hrow : (s.addGoal.2.goals.eraseIdx s.goals.length).map (fun g => { g with number := none }) =
      s.goals.map fun g => { g with number := none } := by
    refine map_eraseIdx_added ?_ s.goals (.blank s.freshId)
    intro i g
    rfl
  have hback := (h.withNextId (s.freshId.val + 1)).put_back (fun goals t => { t with goals })
    (fun _ _ => rfl) (fun _ _ _ => rfl) rfl (s.goals ++ [.blank s.freshId]) hrow
  rw [deleteGoal, hadded]
  exact ⟨_, congrArg (fun t => Except.ok (_, t)) hback, rfl⟩

/-- What takes the structural edits of a sheet back. -/
structure Undoable (s : Sheet) : Prop where
  moveStep : ∀ (scope : List Nat) (source target : Nat) (t : Sheet),
    s.moveStep scope source target = .ok t → t.moveStep scope target source = .ok s
  insertStatement : ∀ (scope : List Nat) (index : Nat) (id : NodeId) (t : Sheet),
    s.insertStatement scope index = (.ok id, t) →
    ∃ st u, t.deleteStep scope index = .ok (st, u) ∧ st.id = id ∧ s.Restores u
  insertSubproof : ∀ (scope : List Nat) (index : Nat) (id : NodeId) (t : Sheet),
    s.insertSubproof scope index = (.ok id, t) →
    ∃ st u, t.deleteStep scope index = .ok (st, u) ∧ st.id = id ∧ s.Restores u
  /-- The premise to delete is the last one. -/
  addPremise : ∀ (id : NodeId) (t : Sheet), s.addPremise = (id, t) →
    ∃ p u, t.deletePremise (t.premises.length - 1) = .ok (p, u) ∧ p.id = id ∧ s.Restores u
  addGoal : ∀ (id : NodeId) (t : Sheet), s.addGoal = (id, t) →
    ∃ g u, t.deleteGoal (t.goals.length - 1) = .ok (g, u) ∧ g.id = id ∧ s.Restores u

/-- On a numbered sheet every structural edit that succeeds can be taken back exactly. -/
theorem edits_undone_exactly (h : s.Numbered) : s.Undoable where
  moveStep _ _ _ _ hmove := moveStep_back h hmove
  insertStatement := by
    intro scope index id t hinsert
    obtain ⟨rfl, hok⟩ := orKeep_eq_ok.1 hinsert
    exact deleteStep_back h hok
  insertSubproof := by
    intro scope index id t hinsert
    obtain ⟨rfl, hok⟩ := orKeep_eq_ok.1 hinsert
    exact deleteStep_back (s := s) h hok
  addPremise := by
    intro id t hadd
    obtain ⟨rfl, rfl⟩ := Prod.mk.inj hadd
    have hlast : s.addPremise.2.premises.length - 1 = s.premises.length := by
      simp [addPremise, renumber, takeId]
    obtain ⟨p, hdelete, hid⟩ := deletePremise_back h
    exact ⟨p, _, hlast ▸ hdelete, hid, s.restores_withNextId _⟩
  addGoal := by
    intro id t hadd
    obtain ⟨rfl, rfl⟩ := Prod.mk.inj hadd
    have hlast : s.addGoal.2.goals.length - 1 = s.goals.length := by
      simp [addGoal, renumber, takeId]
    obtain ⟨g, hdelete, hid⟩ := deleteGoal_back h
    exact ⟨g, _, hlast ▸ hdelete, hid, s.restores_withNextId _⟩

/-- The theorem for a sheet with a subproof: the subproof is moved below the line that follows it, which
gives all that is inside it new addresses, and moved back. -/
theorem two_scopes_undone : ∃ s t, s = Command.runAll {} twoScopes ∧ s.Numbered ∧
    s.moveStep [] 0 1 = .ok t ∧ s.numberOf? ⟨3⟩ = some ⟨[2, 2]⟩ ∧ t.numberOf? ⟨3⟩ = some ⟨[3, 2]⟩ ∧
    t.moveStep [] 1 0 = .ok s ∧ s.Undoable := by
  have hnumbered : (Command.runAll {} twoScopes).Numbered :=
    (Reachable.invariant ⟨twoScopes, rfl⟩).numbered
  have hundo := edits_undone_exactly hnumbered
  have hmoves : ((Command.runAll {} twoScopes).moveStep [] 0 1).toBool = true := by decide +kernel
  obtain ⟨t, hmove⟩ := exists_of_toBool hmoves
  have hafter : ((Command.runAll {} twoScopes).moveStep [] 0 1).toOption.bind (numberOf? · ⟨3⟩) =
      some ⟨[3, 2]⟩ := by decide +kernel
  rw [hmove] at hafter
  exact ⟨_, t, rfl, hnumbered, hmove, by decide +kernel, hafter, hundo.moveStep [] 0 1 t hmove, hundo⟩

end Sheet

end ProofSheet
