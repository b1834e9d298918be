/-
# Typing and rearranging in either order

A text or a rule is typed into one line, and structural edits move lines around without reading them.  So
the two can be exchanged: the sheet is the same in the end, addresses included, and so is every answer.
What is asked is that no two things share a node id, that the structural edit does not hand out one that
is on the sheet, and that the line is there when it is typed into, before the edit and after it.

Typing is revising every line with an id (`Entry.perform_command`), and a structural edit of a revised
sheet is the revised edit of the sheet (`Command.perform_reviseAt`): the place it looks for is found by
shape, the node ids it takes by ids, and numbering looks at neither text nor rule.  What typing answers
depends on the kind of the line, which no structural edit changes (`Command.perform_keepsKinds`).
-/
import Mathlib.Data.List.Flatten
import ProofSheet.Proofs.InPlace
import ProofSheet.Proofs.LineEdits
import ProofSheet.Proofs.Shifting

namespace ProofSheet

/-! ## Revising and numbering -/

section

variable {α : Type} {key : α → NodeId} {id id' : NodeId} {f g : α → α}

theorem key_atId (hf : ∀ x, key (f x) = key x) (x : α) : key (atId key id f x) = key x := by
  rw [atId]
  split
  · exact hf x
  · rfl

/-- A function that keeps ids and can be exchanged with `f` can be exchanged with `f` at an id. -/
theorem atId_exchange (φ : α → α) {x : α} (hkey : key (φ x) = key x) (hf : f (φ x) = φ (f x)) :
    atId key id f (φ x) = φ (atId key id f x) := by
  by_cases h : key x = id
  · rw [atId, atId, if_pos (hkey.trans h), if_pos h, hf]
  · rw [atId, atId, if_neg (hkey ▸ h), if_neg h]

theorem atId_comm (hne : id ≠ id') (hf : ∀ x, key (f x) = key x) (hg : ∀ x, key (g x) = key x) (x : α) :
    atId key id f (atId key id' g x) = atId key id' g (atId key id f x) := by
  by_cases h : key x = id
  · have h' : key x ≠ id' := fun e => hne (h.symm.trans e)
    rw [atId, atId, atId, atId, if_neg h', if_pos h, if_neg (hf x ▸ h')]
  · rw [atId, atId, if_neg, atId, atId, if_neg h]
    rwa [← atId, key_atId hg]

end

namespace Revision

variable (r : Revision)

theorem id_premise (p : Premise) : (r.premise p).id = p.id := by cases r <;> rfl

theorem id_goal (g : Goal) : (r.goal g).id = g.id := by cases r <;> rfl

theorem id_statement (s : Statement) : (r.statement s).id = s.id := by cases r <;> rfl

theorem id_assumption (s : Statement) : (r.assumption s).id = s.id := by cases r <;> rfl

end Revision

namespace Step

theorem map_id_reviseAllAt (id : NodeId) (r : Revision) (ss : List Step) :
    (entitiesOf (reviseAllAt id r ss)).map Entity.id = (entitiesOf ss).map Entity.id := by
  induction ss using forestInduction with
  | nil => rfl
  | line s ss ih =>
      rw [reviseAllAt, reviseAt, entitiesOf, entitiesOf, entities, entities, List.map_append,
        List.map_append, ih, List.map_singleton, List.map_singleton, Entity.id, Entity.id,
        key_atId r.id_statement]
  | subproof sid a body n ss ihb ih =>
      rw [reviseAllAt, reviseAt, entitiesOf, entitiesOf, entities, entities, List.map_append,
        List.map_append, List.map_cons, List.map_cons, List.map_cons, List.map_cons, ihb, ih, Entity.id,
        Entity.id, Entity.id, Entity.id, key_atId r.id_assumption]

theorem renumberAll_reviseAllAt (id : NodeId) (r : Revision) (ss : List Step) :
    ∀ slot : Nat → Address,
      renumberAll slot (reviseAllAt id r ss) = reviseAllAt id r (renumberAll slot ss) := by
  induction ss using forestInduction with
  | nil => intro slot; rfl
  | line s ss ih =>
      intro slot
      have hs : atId Statement.id id r.statement { s with number := some (slot 0) } =
          { atId Statement.id id r.statement s with number := some (slot 0) } :=
        atId_exchange (fun s : Statement => { s with number := some (slot 0) }) rfl (by cases r <;> rfl)
      rw [reviseAllAt, reviseAt, renumberAll, renumberAll, renumber, renumber, reviseAllAt, reviseAt, ih,
        hs]
  | subproof sid a body n ss ihb ih =>
      intro slot
      have ha : atId Statement.id id r.assumption { a with number := some ((slot 0).child 1) } =
          { atId Statement.id id r.assumption a with number := some ((slot 0).child 1) } :=
        atId_exchange (fun a : Statement => { a with number := some ((slot 0).child 1) }) rfl
          (by cases r <;> rfl)
      rw [reviseAllAt, reviseAt, renumberAll, renumberAll, renumber, renumber, reviseAllAt, reviseAt, ihb,
        ih, ha]

theorem reviseAllAt_comm {id id' : NodeId} (hne : id ≠ id') (r r' : Revision) (ss : List Step) :
    reviseAllAt id r (reviseAllAt id' r' ss) = reviseAllAt id' r' (reviseAllAt id r ss) := by
  induction ss using forestInduction with
  | nil => rfl
  | line s ss ih =>
      rw [reviseAllAt, reviseAllAt, reviseAllAt, reviseAllAt, reviseAt, reviseAt, reviseAt, reviseAt, ih,
        atId_comm hne r.id_statement r'.id_statement]
  | subproof sid a body n ss ihb ih =>
      rw [reviseAllAt, reviseAllAt, reviseAllAt, reviseAllAt, reviseAt, reviseAt, reviseAt, reviseAt, ihb,
        ih, atId_comm hne r.id_assumption r'.id_assumption]

end Step

namespace Sheet

variable {s : Sheet} {id : NodeId} {r : Revision} {scope : List Nat} {index : Nat}

theorem mapIdx_map_exchange {α : Type} {f : Nat → α → α} {g : α → α} (h : ∀ i a, g (f i a) = f i (g a))
    (l : List α) : (l.map g).mapIdx f = (l.mapIdx f).map g := by
  apply List.ext_getElem?
  intro i
  cases hi : l[i]? with
  | none => simp [hi]
  | some a => simp [hi, h]

theorem renumber_reviseAt (id : NodeId) (r : Revision) (s : Sheet) :
    (s.reviseAt id r).renumber = s.renumber.reviseAt id r := by
  have hpremises : (s.premises.map (atId Premise.id id r.premise)).mapIdx
      (fun i p => { p with number := some (.top (i + 1)) }) =
      (s.premises.mapIdx fun i p => { p with number := some (.top (i + 1)) }).map
        (atId Premise.id id r.premise) := by
    refine mapIdx_map_exchange (fun i p => ?_) s.premises
    exact atId_exchange (fun p : Premise => { p with number := some (.top (i + 1)) }) rfl
      (by cases r <;> rfl)
  have hgoals : (s.goals.map (atId Goal.id id r.goal)).mapIdx
      (fun j g => { g with number := some (.top (s.premises.length + s.steps.length + j + 1)) }) =
      (s.goals.mapIdx fun j g =>
        { g with number := some (.top (s.premises.length + s.steps.length + j + 1)) }).map
          (atId Goal.id id r.goal) := by
    refine mapIdx_map_exchange (fun j g => ?_) s.goals
    exact atId_exchange (fun g : Goal =>
      { g with number := some (.top (s.premises.length + s.steps.length + j + 1)) }) rfl
      (by cases r <;> rfl)
  have hlength : (Step.reviseAllAt id r s.steps).length = s.steps.length := by
    rw [Step.reviseAllAt_eq_map, List.length_map]
  simp only [renumber, reviseAt, List.length_map, hlength, Step.renumberAll_reviseAllAt, hpremises, hgoals]

theorem map_id_reviseAt (id : NodeId) (r : Revision) (s : Sheet) :
    (s.reviseAt id r).entities.map Entity.id = s.entities.map Entity.id := by
  have hpremises : Entity.id ∘ Entity.premise ∘ atId Premise.id id r.premise =
      Entity.id ∘ Entity.premise := funext (key_atId r.id_premise)
  have hgoals : Entity.id ∘ Entity.goal ∘ atId Goal.id id r.goal = Entity.id ∘ Entity.goal :=
    funext (key_atId r.id_goal)
  simp only [entities, reviseAt, List.map_append, List.map_map, Step.map_id_reviseAllAt, hpremises, hgoals]

theorem wordId_reviseAt (id : NodeId) (r : Revision) (s : Sheet) :
    (s.reviseAt id r).wordId = s.wordId := by
  have hids := congrArg (List.map fun id : NodeId => NodeId.after id.val) (map_id_reviseAt id r s)
  rw [List.map_map, List.map_map] at hids
  have hfloor : (s.reviseAt id r).wordFloor = s.wordFloor := congrArg (List.foldl max 0) hids
  rw [wordId, hfloor]
  rfl

theorem takeWord_reviseAt (id : NodeId) (r : Revision) (s : Sheet) :
    (s.reviseAt id r).takeWord = s.takeWord.reviseAt id r := by
  rw [takeWord, wordId_reviseAt]
  rfl

theorem reviseAt_comm {id' : NodeId} (hne : id ≠ id') (r r' : Revision) (s : Sheet) :
    (s.reviseAt id' r').reviseAt id r = (s.reviseAt id r).reviseAt id' r' := by
  simp only [reviseAt, List.map_map, Step.reviseAllAt_comm hne]
  congr 1
  · exact List.map_congr_left fun p _ => atId_comm hne r.id_premise r'.id_premise p
  · exact List.map_congr_left fun g _ => atId_comm hne r.id_goal r'.id_goal g

/-! ## Structural edits of a revised sheet -/

theorem stepsAt_reviseAt (id : NodeId) (r : Revision) (s : Sheet) (scope : List Nat) :
    (s.reviseAt id r).stepsAt scope = (s.stepsAt scope).map (List.map (Step.reviseAt id r)) := by
  have hlist := Step.listAt?_map (Step.pointwise_reviseAt id r) scope s.steps
  rw [← Step.reviseAllAt_eq_map] at hlist
  rw [stepsAt, stepsAt, stepsAt?, reviseAt, hlist, stepsAt?]
  cases Step.listAt? scope s.steps <;> rfl

theorem setStepsAt_reviseAt (id : NodeId) (r : Revision) (s : Sheet) (scope : List Nat)
    (new : List Step) : (s.reviseAt id r).setStepsAt scope (new.map (Step.reviseAt id r)) =
      (s.setStepsAt scope new).reviseAt id r := by
  simp only [setStepsAt, reviseAt, Step.reviseAllAt_eq_map,
    Step.setListAt_map (Step.pointwise_reviseAt id r)]

theorem insertStep_reviseAt {step : Step} (hstep : step.reviseAt id r = step) :
    (s.reviseAt id r).insertStep scope index step =
      (s.insertStep scope index step).map (Sheet.reviseAt id r) := by
  rw [insertStep, insertStep, stepsAt_reviseAt]
  cases s.stepsAt scope with
  | error e => rfl
  | ok steps =>
      have hnew : (steps.map (Step.reviseAt id r)).insertIdx index step =
          (steps.insertIdx index step).map (Step.reviseAt id r) := by
        rw [List.map_insertIdx, hstep]
      simp only [Except.map, bind_ok, List.length_map, hnew, setStepsAt_reviseAt, renumber_reviseAt]
      split
      · rfl
      · rfl

theorem moveStep_reviseAt (id : NodeId) (r : Revision) (s : Sheet) (scope : List Nat)
    (source target : Nat) : (s.reviseAt id r).moveStep scope source target =
      (s.moveStep scope source target).map (Sheet.reviseAt id r) := by
  rw [moveStep, moveStep, stepsAt_reviseAt]
  cases s.stepsAt scope with
  | error e => rfl
  | ok steps =>
      simp only [Except.map, bind_ok, List.length_map, List.getElem?_map, List.eraseIdx_map]
      cases steps[source]? with
      | none => rfl
      | some step =>
          simp only [Option.map_some, ← List.map_insertIdx, setStepsAt_reviseAt, renumber_reviseAt]
          cases checkIndex target steps.length with
          | error e => rfl
          | ok u => rfl

end Sheet

def Reply.reviseAt (id : NodeId) (r : Revision) : Reply → Reply
  | .removedPremise p => .removedPremise (atId Premise.id id r.premise p)
  | .removedGoal g => .removedGoal (atId Goal.id id r.goal g)
  | .removedStep s => .removedStep (s.reviseAt id r)
  | reply => reply

namespace Command

/-- Structural edits add, insert, delete, move and number. -/
def isStructural : Command → Bool
  | .setText .. | .setRule .. | .setCitations .. | .setGoalCitation .. => false
  | _ => true

/-- The node ids that a command takes on a sheet, whether it succeeds or fails. -/
def taken (s : Sheet) : Command → List NodeId
  | .addPremise | .addGoal | .insertStatement .. => [s.wordId]
  | .insertSubproof .. => [s.wordId, s.takeWord.wordId]
  | _ => []

variable {s t : Sheet} {id : NodeId} {r : Revision}

theorem adding_reviseAt {put : NodeId → Sheet → Sheet}
    (h : put s.wordId (s.takeWord.reviseAt id r) = (put s.wordId s.takeWord).reviseAt id r) :
    Editing.adding put (s.reviseAt id r) =
      ((Editing.adding put s).1, (Editing.adding put s).2.reviseAt id r) := by
  rw [Editing.adding_apply, Editing.adding_apply, Sheet.wordId_reviseAt, Sheet.takeWord_reviseAt, h,
    Sheet.renumber_reviseAt]

/-- An element that is taken out of a list of the sheet, whichever it is, and answered with. -/
theorem deleting_reviseAt {α : Type} (put : List α → Sheet → Sheet) (answer : α → Reply) (g : α → α)
    (hput : ∀ l, put (l.map g) (s.reviseAt id r) = (put l s).reviseAt id r)
    (hanswer : ∀ a, answer (g a) = (answer a).reviseAt id r) (l : List α) (index : Nat) :
    (answer <$> Editing.deleting (l.map g) put index) (s.reviseAt id r) =
      (((answer <$> Editing.deleting l put index) s).1.map (Reply.reviseAt id r),
        ((answer <$> Editing.deleting l put index) s).2.reviseAt id r) := by
  rw [Editing.map_apply, Editing.map_apply, Editing.deleting_apply, Editing.deleting_apply,
    List.getElem?_map, List.eraseIdx_map, hput, Sheet.renumber_reviseAt, List.length_map]
  cases l[index]? with
  | none => rfl
  | some a => exact congrArg (fun reply => (Except.ok reply, _)) (hanswer a)

theorem inserted_reviseAt {scope : List Nat} {index : Nat} {step : Step}
    (hstep : step.reviseAt id r = step) : inserted (t.reviseAt id r) scope index step =
      ((inserted t scope index step).1.map (Reply.reviseAt id r),
        (inserted t scope index step).2.reviseAt id r) := by
  rw [inserted, Sheet.insertStep_reviseAt hstep, inserted]
  cases t.insertStep scope index step <;> rfl

/-- A structural edit of a revised sheet is the revised edit of the sheet. -/
theorem perform_reviseAt {c : Command} (hc : c.isStructural = true) (r : Revision)
    (hid : id ∉ c.taken s) : c.perform (s.reviseAt id r) =
      ((c.perform s).1.map (Reply.reviseAt id r), (c.perform s).2.reviseAt id r) := by
  cases c with
  | addPremise =>
      have hblank : atId Premise.id id r.premise (.blank s.wordId) = .blank s.wordId :=
        atId_eq_self fun h => absurd (List.mem_singleton.2 h.symm) hid
      simp only [perform, editing, Editing.map_apply, Editing.addPremise]
      rw [adding_reviseAt (by simp only [Sheet.reviseAt, List.map_append, List.map_singleton, hblank])]
      rfl
  | addGoal =>
      have hblank : atId Goal.id id r.goal (.blank s.wordId) = .blank s.wordId :=
        atId_eq_self fun h => absurd (List.mem_singleton.2 h.symm) hid
      simp only [perform, editing, Editing.map_apply, Editing.addGoal]
      rw [adding_reviseAt (by simp only [Sheet.reviseAt, List.map_append, List.map_singleton, hblank])]
      rfl
  | insertStatement scope index =>
      have hstep : (Step.line (.blank s.wordId)).reviseAt id r = .line (.blank s.wordId) := by
        rw [Step.reviseAt]
        exact congrArg Step.line (atId_eq_self fun h => absurd (List.mem_singleton.2 h.symm) hid)
      rw [perform_insertStatement, perform_insertStatement, Sheet.wordId_reviseAt,
        Sheet.takeWord_reviseAt, inserted_reviseAt hstep]
  | insertSubproof scope index =>
      have hne : s.takeWord.wordId ≠ id := fun h => hid (h ▸ by simp [taken])
      have hstep : (Step.subproof s.wordId (.blank s.takeWord.wordId) [] none).reviseAt id r =
          .subproof s.wordId (.blank s.takeWord.wordId) [] none := by
        rw [Step.reviseAt, Step.reviseAllAt]
        exact congrArg (Step.subproof s.wordId · [] none) (atId_eq_self fun h => absurd h hne)
      rw [perform_insertSubproof, perform_insertSubproof, Sheet.takeWord_reviseAt,
        Sheet.wordId_reviseAt, Sheet.wordId_reviseAt, Sheet.takeWord_reviseAt, inserted_reviseAt hstep]
  | deletePremise index =>
      exact deleting_reviseAt (fun premises s => { s with premises }) .removedPremise
        (atId Premise.id id r.premise) (fun _ => rfl) (fun _ => rfl) s.premises index
  | deleteGoal index =>
      exact deleting_reviseAt (fun goals s => { s with goals }) .removedGoal
        (atId Goal.id id r.goal) (fun _ => rfl) (fun _ => rfl) s.goals index
  | deleteStep scope index =>
      simp only [perform, editing, Editing.map_apply, Editing.deleteStep, Editing.bind_apply,
        Editing.look_apply, Sheet.stepsAt_reviseAt]
      cases s.stepsAt scope with
      | error e => rfl
      | ok steps =>
          have hdeleting := deleting_reviseAt (fun steps s => s.setStepsAt scope steps) .removedStep
            (Step.reviseAt id r) (Sheet.setStepsAt_reviseAt id r s scope) (fun _ => rfl) steps index
          rw [Editing.map_apply, Editing.map_apply] at hdeleting
          exact hdeleting
  | moveStep scope source target =>
      rw [perform_eq_run_of_takes rfl, perform_eq_run_of_takes rfl, run, Sheet.moveStep_reviseAt, run]
      cases s.moveStep scope source target <;> rfl
  | renumber =>
      rw [perform_eq_run_of_takes rfl, perform_eq_run_of_takes rfl]
      exact congrArg (Except.ok Reply.done, ·) (Sheet.renumber_reviseAt id r s)
  | setText | setRule | setCitations | setGoalCitation => cases hc

theorem removed_of_takes {c : Command} {reply : Reply} (hc : c.takes ≠ 0)
    (h : c.perform s = (.ok reply, t)) : reply.removed = [] := by
  have hinserted : ∀ {u : Sheet} {scope : List Nat} {index : Nat} {step : Step},
      inserted u scope index step = (.ok reply, t) → reply.removed = [] := by
    intro u scope index step h
    rw [inserted] at h
    cases hx : u.insertStep scope index step <;> rw [hx] at h <;> cases h
    rfl
  cases c with
  | addPremise =>
      rw [perform_addPremise] at h
      cases h
      rfl
  | addGoal =>
      rw [perform_addGoal] at h
      cases h
      rfl
  | insertStatement scope index => exact hinserted (perform_insertStatement scope index s ▸ h)
  | insertSubproof scope index => exact hinserted (perform_insertSubproof scope index s ▸ h)
  | _ => exact absurd rfl hc

/-- What a structural edit takes off the sheet is not revised if the line is still there. -/
theorem reply_reviseAt {c : Command} (hs : (s.entities.map Entity.id).Nodup) (r : Revision)
    (hid : id ∈ (c.perform s).2.lineIds) :
    (c.perform s).1.map (Reply.reviseAt id r) = (c.perform s).1 := by
  rcases hperform : c.perform s with ⟨_ | reply, t⟩
  · rfl
  · rw [hperform] at hid
    -- what was taken off has left the sheet, and the line has not
    have hgone : ∀ e ∈ reply.removed, e.id ≠ id := by
      by_cases hc : c.takes = 0
      · rw [perform_eq_run_of_takes hc] at hperform
        rintro e he rfl
        exact (removed_notMem hs hperform he).2 (Sheet.lineIds_sublist _ |>.subset hid)
      · rw [removed_of_takes hc hperform]
        exact nofun
    refine congrArg Except.ok ?_
    cases reply with
    | removedPremise p =>
        have hp : p.id ≠ id := hgone (.premise p) List.mem_cons_self
        rw [Reply.reviseAt, atId_eq_self fun h => absurd h hp]
    | removedGoal g =>
        have hg : g.id ≠ id := hgone (.goal g) List.mem_cons_self
        rw [Reply.reviseAt, atId_eq_self fun h => absurd h hg]
    | removedStep st =>
        have hst : st.reviseAt id r = st := by
          have hnone : id ∉ (Step.linesOf [st]).map Line.id := by
            intro hin
            have hentity := (Line.ids_sublist (Step.map_entity_linesOf [st])).subset hin
            obtain ⟨e, he, rfl⟩ := List.mem_map.1 hentity
            rw [Step.entitiesOf, Step.entitiesOf, List.append_nil] at he
            exact hgone e he rfl
          exact List.singleton_inj.1 (Step.reviseAllAt_of_notMem r [st] hnone)
        rw [Reply.reviseAt, hst]
    | _ => rfl

end Command

/-! ## What structural edits leave of the kinds of lines -/

theorem Step.linesOf_eq_flatMap (ss : List Step) : linesOf ss = ss.flatMap lines := by
  induction ss with
  | nil => rfl
  | cons s ss ih => rw [linesOf, List.flatMap_cons, ih]

theorem subperm_between {α : Type} {l l' news : List α} (before after : List α)
    (h : l.Subperm (news ++ l')) : (before ++ l ++ after).Subperm (news ++ (before ++ l' ++ after)) := by
  have hperm : (before ++ (news ++ l') ++ after).Perm (news ++ (before ++ l' ++ after)) := by
    simp only [List.append_assoc]
    exact List.perm_append_comm_assoc before news (l' ++ after)
  have hblock := (List.subperm_append_right after).2 ((List.subperm_append_left before).2 h)
  exact hblock.trans hperm.subperm

/-- If a list of steps has the lines of the list it replaces and some others, so has the forest. -/
theorem Step.tags_setListAt {scope : List Nat} {ss old new : List Step} {news : List (NodeId × LineKind)}
    (h : listAt? scope ss = some old)
    (hnew : ((linesOf new).map Line.tag).Subperm (news ++ (linesOf old).map Line.tag)) :
    ((linesOf (setListAt new scope ss)).map Line.tag).Subperm (news ++ (linesOf ss).map Line.tag) := by
  have happend : ∀ ss ts : List Step, (linesOf (ss ++ ts)).map Line.tag =
      (linesOf ss).map Line.tag ++ (linesOf ts).map Line.tag := by
    intro ss ts
    rw [linesOf_append, List.map_append]
  have hsubproof : ∀ id a body n, (linesOf [.subproof id a body n]).map Line.tag =
      [(a.id, .assumption)] ++ (linesOf body).map Line.tag := by
    intro id a body n
    rw [linesOf, linesOf, lines, List.append_nil, List.map_cons]
    rfl
  obtain ⟨before, after, hold, hset⟩ := setListAt_listed (fun ss => (linesOf ss).map Line.tag)
    (fun _ a => [(a.id, .assumption)]) happend hsubproof h
  rw [hold, hset]
  exact subperm_between before after hnew

namespace Sheet

variable {s t : Sheet} {ids : List NodeId} {scope : List Nat} {index : Nat}

/-- From the sheet `s` to the sheet `t` no line becomes one of another kind: it was there with its kind.
At most one line is new, and its node id is out of `ids`. -/
def KeepsKinds (s t : Sheet) (ids : List NodeId) : Prop :=
  ∃ new : Option (NodeId × LineKind), (∀ x ∈ new, x.1 ∈ ids) ∧ t.tags.Subperm (new.toList ++ s.tags)

theorem KeepsKinds.of_subperm (h : t.tags.Subperm s.tags) : s.KeepsKinds t ids :=
  ⟨none, nofun, h⟩

theorem tags_edited {old new : List Step} (news : List (NodeId × LineKind))
    (h : s.stepsAt? scope = some old)
    (hnew : ((Step.linesOf new).map Line.tag).Subperm (news ++ (Step.linesOf old).map Line.tag)) :
    (s.setStepsAt scope new).renumber.tags.Subperm (news ++ s.tags) := by
  rw [tags_renumber, tags_eq, tags_eq]
  exact subperm_between _ _ (Step.tags_setListAt h hnew)

/-- Inserting a step that has one line, whether the place exists or not. -/
theorem keepsKinds_inserted {step : Step} {l : Line} (ht : t.tags = s.tags) (hstep : step.lines = [l])
    (hl : l.id ∈ ids) : s.KeepsKinds (Command.inserted t scope index step).2 ids := by
  rw [Command.inserted]
  cases h : t.insertStep scope index step with
  | error e => exact .of_subperm (ht ▸ List.Subperm.refl _)
  | ok u =>
      obtain ⟨steps, hs, hi, rfl⟩ := insertStep_eq_ok.1 h
      have hlines : ((Step.linesOf (steps.insertIdx index step)).map Line.tag).Perm
          ([l.tag] ++ (Step.linesOf steps).map Line.tag) := by
        rw [Step.linesOf_eq_flatMap, Step.linesOf_eq_flatMap, ← List.map_singleton, ← hstep,
          ← List.map_append, ← List.flatMap_cons]
        exact ((List.perm_insertIdx step steps hi).flatMap_right _).map _
      refine ⟨some l.tag, fun x hx => ?_, ?_⟩
      · cases hx
        exact hl
      · rw [← ht]
        exact tags_edited _ hs hlines.subperm

end Sheet

open Sheet in
theorem Command.perform_keepsKinds {s : Sheet} {c : Command} (hc : c.isStructural = true) :
    s.KeepsKinds (c.perform s).2 (c.taken s) := by
  -- an edit that gives a sheet or leaves the one it was made on
  have settled : ∀ {α : Type} {x : Except EditError α} {f : α → Reply × Sheet},
      (∀ a, x = .ok a → (f a).2.tags.Subperm s.tags) →
        s.KeepsKinds (settle s (x.map f)).2 (c.taken s) := by
    intro α x f h
    cases x with
    | error e => exact .of_subperm (List.Subperm.refl _)
    | ok a => exact .of_subperm (h a rfl)
  cases c with
  | addPremise =>
      refine ⟨some (s.wordId, .premise), fun x hx => ?_, ?_⟩
      · cases hx
        exact List.mem_singleton_self _
      · rw [perform_addPremise, tags_renumber, tags_eq, tags_eq]
        simp only [List.map_append, List.append_assoc]
        exact List.perm_middle.subperm
  | addGoal =>
      refine ⟨some (s.wordId, .goal), fun x hx => ?_, ?_⟩
      · cases hx
        exact List.mem_singleton_self _
      · rw [perform_addGoal, tags_renumber, tags_eq, tags_eq]
        simp only [List.map_append, ← List.append_assoc]
        exact List.perm_append_comm.subperm
  | insertStatement scope index =>
      rw [perform_insertStatement]
      exact keepsKinds_inserted rfl rfl (List.mem_singleton_self _)
  | insertSubproof scope index =>
      rw [perform_insertSubproof]
      exact keepsKinds_inserted rfl rfl (List.mem_cons_of_mem _ (List.mem_singleton_self _))
  | deletePremise index =>
      rw [perform_eq_run_of_takes rfl]
      refine settled fun a ha => ?_
      rw [(deletePremise_eq_ok.1 ha).2, tags_renumber, tags_eq, tags_eq]
      have hkept := (List.eraseIdx_sublist s.premises index).map fun p => (p.id, LineKind.premise)
      exact ((hkept.append_right _).append_right _).subperm
  | deleteGoal index =>
      rw [perform_eq_run_of_takes rfl]
      refine settled fun a ha => ?_
      rw [(deleteGoal_eq_ok.1 ha).2, tags_renumber, tags_eq, tags_eq]
      have hkept := (List.eraseIdx_sublist s.goals index).map fun g => (g.id, LineKind.goal)
      exact (hkept.append_left _).subperm
  | deleteStep scope index =>
      rw [perform_eq_run_of_takes rfl]
      refine settled fun a ha => ?_
      obtain ⟨steps, hs, -, ht⟩ := deleteStep_eq_ok.1 ha
      rw [ht]
      refine tags_edited [] hs ?_
      rw [Step.linesOf_eq_flatMap, Step.linesOf_eq_flatMap]
      exact (((List.eraseIdx_sublist steps index).flatMap _).map _).subperm
  | moveStep scope source target =>
      rw [perform_eq_run_of_takes rfl]
      refine settled fun t ht => ?_
      obtain ⟨steps, hs, step, hstep, htarget, rfl⟩ := moveStep_eq_ok.1 ht
      refine tags_edited [] hs ?_
      rw [Step.linesOf_eq_flatMap, Step.linesOf_eq_flatMap]
      exact (((moved_perm hstep htarget).flatMap_right _).map _).subperm
  | renumber =>
      rw [perform_eq_run_of_takes rfl]
      exact .of_subperm (s.tags_renumber ▸ List.Subperm.refl _)
  | setText | setRule | setCitations | setGoalCitation => cases hc

/-! ## Typing into a line -/

inductive Entry where
  | text (typed : String)
  | rule (name : String)

namespace Entry

def command (id : NodeId) : Entry → Command
  | .text typed => .setText id typed
  | .rule name => .setRule id name

def revision : Entry → Revision
  | .text typed => .text typed
  | .rule name => .rule name

/-- What an entry is answered, by the kind of the line with the node id. -/
def answer (id : NodeId) : Entry → Option LineKind → Except EditError Reply
  | _, none => .error (.unknownNode id)
  | .text typed, some _ => .ok (.typed typed (.ofText typed))
  | .rule _, some .statement => .ok .done
  | .rule name, some .assumption => if name = noRule then .ok .done else .error .assumptionRule
  | .rule _, some _ => .error (.notAStatement id)

variable {s : Sheet}

/-- Typing revises every line with the node id, if the kind of the line has a place for it, and what it
answers depends on the kind alone. -/
theorem perform_command (x : Entry) (id : NodeId) (h : s.lineIds.Nodup) :
    (x.command id).perform s = (x.answer id (s.kindOf? id), s.reviseAt id x.revision) := by
  have hrun : (x.command id).perform s = (x.command id).run s :=
    Command.perform_eq_run_of_takes (by cases x <;> rfl) s
  rw [hrun, Sheet.kindOf?]
  cases hl : s.line? id with
  | none =>
      rw [Sheet.reviseAt_of_line?_eq_none x.revision h hl]
      cases x <;> simp only [command, Command.run, Sheet.setText, Sheet.setRule, Sheet.lineAt, hl] <;> rfl
  | some l =>
      cases x with
      | text typed =>
          rw [revision, ← Sheet.setLine_eq_reviseAt (.text typed) h hl]
          simp only [command, Command.run, Sheet.setText, Sheet.lineAt, hl]
          rfl
      | rule name =>
          simp only [command, Command.run, Sheet.setRule, Sheet.lineAt, hl, bind_ok, revision]
          cases l with
          | statement st =>
              rw [← Sheet.setLine_eq_reviseAt (.rule name) h hl]
              rfl
          | assumption a =>
              rw [Sheet.reviseAt_of_revise_eq h hl rfl]
              simp only [Option.map_some, Line.kind, answer]
              split <;> rfl
          | premise p =>
              rw [Sheet.reviseAt_of_revise_eq h hl rfl]
              rfl
          | goal g =>
              rw [Sheet.reviseAt_of_revise_eq h hl rfl]
              rfl

end Entry

/-! ## Either order -/

/-- Two commands can be given in either order: the sheet is the same in the end, and so is what each of
them answers. -/
structure Command.Commutes (s : Sheet) (c d : Command) : Prop where
  sheet : (d.perform (c.perform s).2).2 = (c.perform (d.perform s).2).2
  first : (c.perform (d.perform s).2).1 = (c.perform s).1
  second : (d.perform (c.perform s).2).1 = (d.perform s).1

namespace Sheet

variable {s t : Sheet} {id id' : NodeId} {ids : List NodeId}

theorem lineIds_reviseAt (id : NodeId) (r : Revision) (s : Sheet) :
    (s.reviseAt id r).lineIds = s.lineIds := by
  rw [← map_fst_tags, tags_reviseAt, map_fst_tags]

theorem kindOf?_reviseAt (id' : NodeId) (r : Revision) (h : s.lineIds.Nodup) :
    (s.reviseAt id' r).kindOf? id = s.kindOf? id := by
  refine Option.ext fun k => ?_
  rw [kindOf?_eq_some_iff h, kindOf?_eq_some_iff (by rwa [lineIds_reviseAt]), tags_reviseAt]

theorem KeepsKinds.nodup (h : s.KeepsKinds t ids) (hs : s.lineIds.Nodup)
    (hids : ∀ i ∈ ids, i ∉ s.lineIds) : t.lineIds.Nodup := by
  obtain ⟨new, hnew, l, hperm, hsub⟩ := h
  have hall : ((new.toList ++ s.tags).map Prod.fst).Nodup := by
    cases new with
    | none => rwa [Option.toList_none, List.nil_append, map_fst_tags]
    | some x =>
        rw [Option.toList_some, List.singleton_append, List.map_cons, map_fst_tags]
        exact List.nodup_cons.2 ⟨hids _ (hnew x rfl), hs⟩
  rw [← map_fst_tags]
  exact (hperm.map Prod.fst).nodup_iff.1 (hall.sublist (hsub.map Prod.fst))

theorem KeepsKinds.kindOf?_eq (h : s.KeepsKinds t ids) (hs : s.lineIds.Nodup)
    (hids : ∀ i ∈ ids, i ∉ s.lineIds) (hid : id ∈ s.lineIds) (hid' : id ∈ t.lineIds) :
    t.kindOf? id = s.kindOf? id := by
  have ht := h.nodup hs hids
  rw [← map_fst_tags] at hid'
  obtain ⟨⟨i, k⟩, htag, rfl⟩ := List.mem_map.1 hid'
  obtain ⟨new, hnew, hsub⟩ := h
  rcases List.mem_append.1 (hsub.subset htag) with hmem | hold
  · exact absurd hid (hids _ (hnew _ (Option.mem_toList.1 hmem)))
  · rw [(kindOf?_eq_some_iff ht).2 htag, (kindOf?_eq_some_iff hs).2 hold]

theorem structural_commutes {o : Command} (h : (s.entities.map Entity.id).Nodup)
    (ho : o.isStructural = true) (hfresh : ∀ i ∈ o.taken s, i ∉ s.entities.map Entity.id) (x : Entry)
    (hid : id ∈ s.lineIds) (hid' : id ∈ (o.perform s).2.lineIds) :
    Command.Commutes s o (x.command id) := by
  have hs := nodup_lineIds h
  have hnew : ∀ i ∈ o.taken s, i ∉ s.lineIds := fun i hi hin =>
    hfresh i hi (s.lineIds_sublist.subset hin)
  have hkinds := Command.perform_keepsKinds (s := s) ho
  have hedit := Command.perform_reviseAt ho x.revision fun hin => hnew id hin hid
  have htyped := x.perform_command id hs
  have htyped' := x.perform_command id (hkinds.nodup hs hnew)
  refine ⟨?_, ?_, ?_⟩
  · rw [htyped, htyped', hedit]
  · rw [htyped, hedit]
    exact Command.reply_reviseAt h x.revision hid'
  · rw [htyped, htyped', hkinds.kindOf?_eq hs hnew hid hid']

theorem entries_commute (h : s.lineIds.Nodup) (hne : id ≠ id') (x x' : Entry) :
    Command.Commutes s (x.command id) (x'.command id') := by
  have htyped := x.perform_command id h
  have htyped' := x'.perform_command id' h
  have hafter : ∀ (y y' : Entry) (i i' : NodeId), (y'.command i').perform (s.reviseAt i y.revision) =
      (y'.answer i' (s.kindOf? i'), (s.reviseAt i y.revision).reviseAt i' y'.revision) := by
    intro y y' i i'
    rw [y'.perform_command i' (by rwa [lineIds_reviseAt]), kindOf?_reviseAt i y.revision h]
  refine ⟨?_, ?_, ?_⟩
  · rw [htyped, htyped', hafter, hafter]
    exact reviseAt_comm hne.symm x'.revision x.revision s
  · rw [htyped, htyped', hafter]
  · rw [htyped, htyped', hafter]

/-- Node ids are fresh as long as the last of 32 bits is not on the sheet. -/
theorem taken_fresh (h : ∀ e ∈ s.entities, e.id.val < NodeId.largest) (o : Command) :
    ∀ i ∈ o.taken s, i ∉ s.entities.map Entity.id := by
  -- also after a count that has begun again, what is taken is above every node id
  have hword : ∀ n, wordId { s with nextId := n } ∉ s.entities.map Entity.id := by
    intro n hin
    obtain ⟨e, he, hid⟩ := List.mem_map.1 hin
    have hlt := lt_freshId (s := { s with nextId := n }) he
    rw [wordId_eq (s := { s with nextId := n }) h] at hid
    rw [hid] at hlt
    exact Nat.lt_irrefl _ hlt
  cases o with
  | addPremise | addGoal | insertStatement => exact List.forall_mem_singleton.2 (hword s.nextId)
  | insertSubproof scope index =>
      refine List.forall_mem_cons.2 ⟨hword s.nextId, List.forall_mem_singleton.2 ?_⟩
      exact hword s.takeWord.nextId
  | _ => exact nofun

end Sheet

end ProofSheet
