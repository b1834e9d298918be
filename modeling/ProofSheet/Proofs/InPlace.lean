/-
# Editing in place comes to the same

A command that is performed changes the sheet as it goes (`Command.perform`), and one that is run gives
either a new sheet or a cause (`Command.run`).  The two agree.  For a command that takes no node id they
agree on every sheet (`perform_eq_run_of_takes`): an edit in place has seen all that can go wrong before
its first write.  The others write the next node id before they look, and agree as long as the ids they
take fit into 32 bits (`perform_eq_run`), which along a history is a matter of how many are taken
(`performAll_eq_runAll`).
-/
import ProofSheet.Sheet.InPlace
import ProofSheet.Proofs.Histories
import ProofSheet.Proofs.Scopes

namespace ProofSheet

/-! ## What an edit under way comes to -/

namespace Editing

variable {α β : Type} {s : Sheet}

theorem bind_apply (x : Editing α) (k : α → Editing β) (s : Sheet) :
    (x >>= k) s = match x s with
      | (.ok a, t) => k a t
      | (.error e, t) => (.error e, t) := by
  show (match x s with | (a, t) => (ExceptT.bindCont k a : StateM Sheet (Except EditError β)) t) = _
  rcases x s with ⟨_ | _, t⟩ <;> rfl

theorem map_apply (f : α → β) (x : Editing α) (s : Sheet) :
    (f <$> x) s = ((x s).1.map f, (x s).2) := by
  rw [map_eq_pure_bind, bind_apply]
  rcases x s with ⟨_ | _, t⟩ <;> rfl

theorem pure_apply (a : α) (s : Sheet) : (pure a : Editing α) s = (.ok a, s) := rfl

theorem get_apply (s : Sheet) : (get : Editing Sheet) s = (.ok s, s) := rfl

theorem modify_apply (f : Sheet → Sheet) (s : Sheet) : (modify f : Editing Unit) s = (.ok (), f s) := rfl

theorem throw_apply (e : EditError) (s : Sheet) : (throw e : Editing α) s = (.error e, s) := rfl

theorem look_apply (f : Sheet → Except EditError α) (s : Sheet) : look f s = (f s, s) := by
  rw [look, bind_apply, get_apply]
  dsimp only
  cases f s <;> rfl

theorem position_of_some {l : List α} {index : Nat} {a : α} (h : l[index]? = some a) :
    ∃ i : Fin l.length, i.val = index ∧ l.get i = a ∧ position l index s = (.ok i, s) := by
  obtain ⟨hlt, ha⟩ := List.getElem?_eq_some_iff.1 h
  exact ⟨⟨index, hlt⟩, rfl, ha, by rw [position, dif_pos hlt, pure_apply]⟩

theorem position_of_none {l : List α} {index : Nat} (h : l[index]? = none) :
    position l index s = (.error (.indexOutOfRange index l.length), s) := by
  rw [position, dif_neg (Nat.not_lt.2 (List.getElem?_eq_none_iff.1 h)), throw_apply]

theorem takeId_apply (s : Sheet) : takeId s = (.ok s.wordId, s.takeWord) := rfl

theorem adding_apply (put : NodeId → Sheet → Sheet) (s : Sheet) :
    adding put s = (.ok s.wordId, (put s.wordId s.takeWord).renumber) := by
  rw [adding, bind_apply, takeId_apply]
  simp only [bind_apply, modify_apply, pure_apply, Sheet.countThrough_eq]

theorem insertStep_apply (scope : List Nat) (index : Nat) (step : Step) (s : Sheet) :
    insertStep scope index step s = match s.insertStep scope index step with
      | .ok t => (.ok (), t)
      | .error e => (.error e, s) := by
  rw [insertStep, Sheet.insertStep, bind_apply, look_apply]
  cases s.stepsAt scope with
  | error e => rfl
  | ok steps =>
      rw [bind_ok]
      dsimp only
      split
      · simp only [bind_apply, modify_apply, Sheet.countThrough_eq]
        rfl
      · rfl

theorem deleting_apply (l : List α) (put : List α → Sheet → Sheet) (index : Nat) (s : Sheet) :
    deleting l put index s = match l[index]? with
      | some a => (.ok a, (put (l.eraseIdx index) s).renumber)
      | none => (.error (.indexOutOfRange index l.length), s) := by
  rw [deleting, bind_apply]
  cases h : l[index]? with
  | none => rw [position_of_none h]
  | some a =>
      obtain ⟨i, rfl, rfl, hi⟩ := position_of_some (s := s) h
      rw [hi]
      simp only [bind_apply, modify_apply, pure_apply, Sheet.countThrough_eq]
      rfl

theorem moveStep_apply (scope : List Nat) (source target : Nat) (s : Sheet) :
    moveStep scope source target s = match s.moveStep scope source target with
      | .ok t => (.ok (), t)
      | .error e => (.error e, s) := by
  rw [moveStep, Sheet.moveStep, bind_apply, look_apply]
  cases hsteps : s.stepsAt scope with
  | error e => rfl
  | ok steps =>
      rw [bind_ok]
      dsimp only
      rw [bind_apply]
      cases hsource : steps[source]? with
      | none =>
          rw [position_of_none hsource]
          rfl
      | some step =>
          obtain ⟨i, rfl, rfl, hi⟩ := position_of_some (s := s) hsource
          rw [hi]
          dsimp only
          rw [bind_apply, Sheet.checkIndex]
          cases htarget : steps[target]? with
          | none =>
              rw [position_of_none htarget, if_neg (Nat.not_lt.2 (List.getElem?_eq_none_iff.1 htarget))]
              rfl
          | some other =>
              obtain ⟨j, rfl, -, hj⟩ := position_of_some (s := s) htarget
              -- of the two writes the second one counts
              have hwrites : ∀ new newer, (s.setStepsAt scope new).setStepsAt scope newer =
                  s.setStepsAt scope newer := by
                intro new newer
                rw [Sheet.setStepsAt, Sheet.setStepsAt, Sheet.setStepsAt,
                  Step.setListAt_setListAt (Sheet.stepsAt_eq_ok.1 hsteps)]
              rw [hj, if_pos j.isLt]
              simp only [bind_apply, modify_apply, Sheet.countThrough_eq, hwrites]
              rfl

theorem justify_apply (id : NodeId) (write : Statement → Statement) (clears : Bool) (s : Sheet) :
    justify id write clears s = match s.lineAt id with
      | .ok (.statement st) => (.ok (), s.setLine id (.statement (write st)))
      | .ok (.assumption _) => (if clears then .ok () else .error .assumptionRule, s)
      | .ok _ => (.error (.notAStatement id), s)
      | .error e => (.error e, s) := by
  rw [justify, bind_apply, look_apply]
  cases s.lineAt id with
  | error e => rfl
  | ok l =>
      cases l with
      | assumption a => cases clears <;> rfl
      | _ => rfl

theorem insertStep_then (scope : List Nat) (index : Nat) (step : Step) (id : NodeId) (s : Sheet) :
    (do insertStep scope index step; return id : Editing NodeId) s =
      s.orKeep id (s.insertStep scope index step) := by
  rw [bind_apply, insertStep_apply]
  cases s.insertStep scope index step <;> rfl

theorem insertStatement_apply (scope : List Nat) (index : Nat) (s : Sheet) :
    insertStatement scope index s = s.takeWord.orKeep s.wordId
      (s.takeWord.insertStep scope index (.line (.blank s.wordId))) := by
  rw [insertStatement, bind_apply, takeId_apply]
  exact insertStep_then ..

theorem insertSubproof_apply (scope : List Nat) (index : Nat) (s : Sheet) :
    insertSubproof scope index s = s.takeWord.takeWord.orKeep s.wordId
      (s.takeWord.takeWord.insertStep scope index
        (.subproof s.wordId (.blank s.takeWord.wordId) [] none)) := by
  rw [insertSubproof, bind_apply, takeId_apply]
  dsimp only
  rw [bind_apply, takeId_apply]
  exact insertStep_then ..

end Editing

/-! ## Commands that take no node id -/

namespace Command

variable {s : Sheet}

theorem perform_eq_run_of_takes {c : Command} (h : c.takes = 0) (s : Sheet) :
    c.perform s = c.run s := by
  cases c with
  | addPremise | addGoal | insertStatement | insertSubproof => cases h
  | renumber =>
      rw [perform, editing, Editing.map_apply, Editing.modify_apply, Sheet.countThrough_eq]
      rfl
  | deletePremise index =>
      rw [perform, editing, Editing.map_apply, Editing.deletePremise, Editing.bind_apply, Editing.get_apply]
      dsimp only
      rw [Editing.deleting_apply, run, Sheet.deletePremise]
      cases s.premises[index]? <;> rfl
  | deleteGoal index =>
      rw [perform, editing, Editing.map_apply, Editing.deleteGoal, Editing.bind_apply, Editing.get_apply]
      dsimp only
      rw [Editing.deleting_apply, run, Sheet.deleteGoal]
      cases s.goals[index]? <;> rfl
  | deleteStep scope index =>
      rw [perform, editing, Editing.map_apply, Editing.deleteStep, Editing.bind_apply, Editing.look_apply,
        run, Sheet.deleteStep]
      cases s.stepsAt scope with
      | error e => rfl
      | ok steps =>
          dsimp only
          rw [Editing.deleting_apply, bind_ok]
          cases steps[index]? <;> rfl
  | moveStep scope source target =>
      rw [perform, editing, Editing.map_apply, Editing.moveStep_apply, run]
      cases s.moveStep scope source target <;> rfl
  | setText id text =>
      rw [perform, editing, Editing.map_apply, Editing.setText, Editing.bind_apply, Editing.look_apply, run,
        Sheet.setText]
      cases s.lineAt id <;> rfl
  | setRule id rule =>
      rw [perform, editing, Editing.map_apply, Editing.setRule, Editing.justify_apply, run, Sheet.setRule]
      cases s.lineAt id with
      | error e => rfl
      | ok l =>
          cases l with
          | assumption a => by_cases hrule : rule = noRule <;> simp [hrule] <;> rfl
          | _ => rfl
  | setCitations id addresses =>
      rw [perform, editing, Editing.map_apply, Editing.setCitations, Editing.bind_apply, Editing.look_apply,
        run, Sheet.setCitations]
      cases (Sheet.listItems addresses).mapM s.resolveText with
      | error e => rfl
      | ok citations =>
          dsimp only
          rw [Editing.justify_apply, bind_ok]
          cases s.lineAt id with
          | error e => rfl
          | ok l =>
              cases l with
              | assumption a => cases citations <;> rfl
              | _ => rfl
  | setGoalCitation id address =>
      rw [perform, editing, Editing.map_apply, Editing.setGoalCitation, Editing.bind_apply,
        Editing.look_apply, run, Sheet.setGoalCitation]
      cases s.resolveText address with
      | error e => rfl
      | ok target =>
          dsimp only
          rw [Editing.bind_apply, Editing.look_apply, bind_ok]
          cases s.lineAt id with
          | error e => rfl
          | ok l => cases l <;> rfl

end Command

/-! ## Commands that take node ids -/

namespace Command

theorem perform_addPremise (s : Sheet) : addPremise.perform s = (.ok (.added s.wordId),
    { s.takeWord with premises := s.premises ++ [Premise.blank s.wordId] }.renumber) := by
  rw [perform, editing, Editing.map_apply, Editing.addPremise, Editing.adding_apply]
  rfl

theorem perform_addGoal (s : Sheet) : addGoal.perform s = (.ok (.added s.wordId),
    { s.takeWord with goals := s.goals ++ [Goal.blank s.wordId] }.renumber) := by
  rw [perform, editing, Editing.map_apply, Editing.addGoal, Editing.adding_apply]
  rfl

/-- The sheet that an insertion leaves behind, and its answer, by the sheet `t` whose node ids it has
taken. -/
def inserted (t : Sheet) (scope : List Nat) (index : Nat) (step : Step) : Except EditError Reply × Sheet :=
  ((t.orKeep step.id (t.insertStep scope index step)).1.map .added,
    (t.orKeep step.id (t.insertStep scope index step)).2)

theorem perform_insertStatement (scope : List Nat) (index : Nat) (s : Sheet) :
    (insertStatement scope index).perform s =
      inserted s.takeWord scope index (.line (.blank s.wordId)) := by
  rw [perform, editing, Editing.map_apply, Editing.insertStatement_apply]
  rfl

theorem perform_insertSubproof (scope : List Nat) (index : Nat) (s : Sheet) :
    (insertSubproof scope index).perform s = inserted s.takeWord.takeWord scope index
      (.subproof s.wordId (.blank s.takeWord.wordId) [] none) := by
  rw [perform, editing, Editing.map_apply, Editing.insertSubproof_apply]
  rfl

end Command

namespace NodeId

theorem after_of_lt {n : Nat} (h : n < largest) : after n = n + 1 :=
  Nat.mod_eq_of_lt (Nat.succ_lt_succ h)

theorem after_le (n : Nat) : after n ≤ largest :=
  Nat.le_of_lt_succ (Nat.mod_lt _ (Nat.succ_pos _))

end NodeId

namespace Sheet

variable {s : Sheet}

theorem wordId_eq (h : ∀ e ∈ s.entities, e.id.val < NodeId.largest) : s.wordId = s.freshId := by
  rw [wordId, freshId, wordFloor, idFloor,
    List.map_congr_left fun e he => NodeId.after_of_lt (h e he)]

theorem wordId_of_lt (h : s.freshId.val < NodeId.largest) : s.wordId = s.freshId :=
  wordId_eq fun _ he => Nat.lt_trans (lt_freshId he) h

theorem takeWord_eq (h : s.freshId.val < NodeId.largest) : s.takeWord = s.takeId := by
  rw [takeWord, takeId, wordId_of_lt h, NodeId.after_of_lt h]

theorem idFloor_le {n : Nat} (h : ∀ e ∈ s.entities, e.id.val < n) : s.idFloor ≤ n := by
  rw [idFloor, List.foldl_max, Nat.zero_max]
  cases hmax : (s.entities.map (·.id.val + 1)).max? with
  | none => exact Nat.zero_le n
  | some m =>
      obtain ⟨e, he, rfl⟩ := List.mem_map.1 (List.max?_mem hmax)
      exact h e he

end Sheet

namespace Command

variable {s : Sheet} {c : Command}

/-- If the node ids that a command takes fit into 32 bits, performing it is the same as running it. -/
theorem perform_eq_run (h : s.freshId.val + c.takes ≤ NodeId.largest) : c.perform s = c.run s := by
  cases c with
  | addPremise =>
      rw [perform_addPremise, Sheet.wordId_of_lt h, Sheet.takeWord_eq h]
      rfl
  | addGoal =>
      rw [perform_addGoal, Sheet.wordId_of_lt h, Sheet.takeWord_eq h]
      rfl
  | insertStatement scope index =>
      rw [perform_insertStatement, Sheet.wordId_of_lt h, Sheet.takeWord_eq h]
      rfl
  | insertSubproof scope index =>
      have hfirst : s.freshId.val < NodeId.largest := Nat.lt_of_succ_lt h
      have hsecond : s.takeId.freshId.val < NodeId.largest := by
        rw [Sheet.freshId_takeId]
        exact h
      rw [perform_insertSubproof, Sheet.wordId_of_lt hfirst, Sheet.takeWord_eq hfirst,
        Sheet.wordId_of_lt hsecond, Sheet.takeWord_eq hsecond]
      rfl
  | deletePremise | deleteGoal | deleteStep | moveStep | renumber | setText | setRule | setCitations
  | setGoalCitation => exact perform_eq_run_of_takes rfl s

/-! ## Histories -/

theorem freshId_run_le (s : Sheet) (c : Command) :
    (c.run s).2.freshId.val ≤ s.freshId.val + c.takes := by
  have hnext : (c.run s).2.nextId ≤ s.freshId.val + c.takes := by
    rw [nextId_run]
    split
    · exact Nat.le_trans s.nextId_le_freshId (Nat.le_add_right _ _)
    · exact Nat.le_refl _
  refine Nat.max_le.2 ⟨hnext, Sheet.idFloor_le fun e he => ?_⟩
  have hout := run_handsOut s c
  -- what is on the sheet then was there before or has been taken
  rcases List.mem_append.1 (hout.accounted.subset (List.mem_map_of_mem he)) with hnew | hold
  · exact Nat.lt_of_lt_of_le (hout.taken _ hnew) hnext
  · obtain ⟨e', he', hid⟩ := List.mem_map.1 hold
    rw [← hid]
    exact Nat.lt_of_lt_of_le (Sheet.lt_freshId he') (Nat.le_add_right _ _)

/-- As long as the node ids taken along a history fit into 32 bits, it makes no difference whether the
commands are performed or run. -/
theorem performAll_eq_runAll (cs : List Command) :
    ∀ {s : Sheet}, s.freshId.val + (cs.map takes).sum ≤ NodeId.largest → performAll s cs = runAll s cs := by
  induction cs with
  | nil => intro s h; rfl
  | cons c cs ih =>
      intro s h
      rw [List.map_cons, List.sum_cons] at h
      have hfirst : c.perform s = c.run s := perform_eq_run (by omega)
      have hrest : (c.run s).2.freshId.val + (cs.map takes).sum ≤ NodeId.largest := by
        have := freshId_run_le s c
        omega
      show performAll (c.perform s).2 cs = runAll (c.run s).2 cs
      rw [hfirst, ih hrest]

theorem freshId_runAll_le (cs : List Command) :
    ∀ s : Sheet, (runAll s cs).freshId.val ≤ s.freshId.val + (cs.map takes).sum := by
  induction cs with
  | nil => intro s; exact Nat.le_refl _
  | cons c cs ih =>
      intro s
      have hfirst := freshId_run_le s c
      have hrest := ih (c.run s).2
      rw [List.map_cons, List.sum_cons]
      show (runAll (c.run s).2 cs).freshId.val ≤ _
      omega

/-- Also every answer along such a history is the same. -/
theorem perform_eq_run_along {earlier later : List Command}
    (h : s.freshId.val + ((earlier ++ c :: later).map takes).sum ≤ NodeId.largest) :
    c.perform (performAll s earlier) = c.run (runAll s earlier) := by
  rw [List.map_append, List.sum_append, List.map_cons, List.sum_cons] at h
  rw [performAll_eq_runAll earlier (by omega)]
  have hreached := freshId_runAll_le earlier s
  exact perform_eq_run (by omega)

/-- What is proved of reachable sheets is so of what an editor has in hand, which began with nothing on it
and has not run out of node ids. -/
theorem performAll_reachable {cs : List Command} (h : (cs.map takes).sum ≤ NodeId.largest) :
    (performAll {} cs).Reachable :=
  ⟨cs, (performAll_eq_runAll cs (Nat.le_trans (Nat.le_of_eq (Nat.zero_add _)) h)).symm⟩

end Command

theorem Session.enterText_eq_editText (s : Session) (id : NodeId) (typed : String) :
    s.enterText id typed = s.editText id typed := by
  rw [enterText, perform, Command.perform_eq_run_of_takes rfl]
  rfl

end ProofSheet
