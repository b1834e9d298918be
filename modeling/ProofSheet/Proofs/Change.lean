/-
# What a command can do

Every command does one of three things to a sheet: it leaves it alone but for node ids handed out;
it rearranges the contents, perhaps with blank new things among them, and numbers the result; or it
revises one line.  `run_change` says so once, for all commands and all their failures, and what is
said of every sheet that commands lead to is derived from it.
-/
import Mathlib.Data.List.Nodup
import ProofSheet.Sheet.Command
import ProofSheet.Proofs.Attempt
import ProofSheet.Proofs.Revision

namespace ProofSheet

/-! ## Things in good order -/

def Entity.Faithful : Entity → Prop
  | .premise p => p.reading = .ofText p.text
  | .statement s => s.reading = .ofText s.text
  | .subproof _ a _ _ => a.reading = .ofText a.text
  | .goal g => g.reading = .ofText g.text

/-- The assumption of a subproof has no rule and cites nothing. -/
def Entity.Bare : Entity → Prop
  | .subproof _ a _ _ => a.rule = noRule ∧ a.citations = []
  | _ => True

theorem Entity.faithful_content {e : Entity} : e.content.Faithful ↔ e.Faithful := by
  cases e <;> exact Iff.rfl

theorem Entity.bare_content {e : Entity} : e.content.Bare ↔ e.Bare := by
  cases e <;> exact Iff.rfl

theorem Line.faithful_revise {l : Line} (r : Revision) (h : l.entity.Faithful) :
    (l.revise r).entity.Faithful := by
  cases r with
  | text t => cases l <;> rfl
  | _ => cases l <;> exact h

theorem Entity.Revised.faithful {r : Revision} {e e' : Entity} (h : Revised r e e')
    (he : e.Faithful) : e'.Faithful := by
  cases h with
  | kept => exact he
  | line l => exact l.faithful_revise r he
  | @opened id a a' body n ha =>
      have := Line.faithful_revise (l := .assumption a) r he
      rw [ha] at this
      exact this
  | around => exact he

/-- A revision of an assumption gives it neither a rule nor a citation. -/
theorem Entity.Revised.bare {r : Revision} {e e' : Entity} (h : Revised r e e') (he : e.Bare) :
    e'.Bare := by
  cases h with
  | kept => exact he
  | line l => cases r <;> cases l <;> trivial
  | opened ha => cases r <;> cases ha <;> exact he
  | around => exact he

namespace Sheet

/-! ## Fresh node ids -/

theorem lt_foldl_max {ns : List Nat} : ∀ {m n : Nat}, n ∈ ns ∨ n ≤ m → n ≤ ns.foldl max m := by
  induction ns with
  | nil =>
      intro m n h
      rcases h with h | h
      · cases h
      · exact h
  | cons k ns ih =>
      intro m n h
      refine ih ?_
      rcases h with h | h
      · rcases List.mem_cons.1 h with rfl | h
        · exact .inr (Nat.le_max_right m n)
        · exact .inl h
      · exact .inr (Nat.le_trans h (Nat.le_max_left m k))

theorem lt_idFloor {s : Sheet} {e : Entity} (h : e ∈ s.entities) : e.id.val < s.idFloor :=
  lt_foldl_max (.inl (List.mem_map_of_mem h))

theorem lt_freshId {s : Sheet} {e : Entity} (h : e ∈ s.entities) : e.id.val < s.freshId.val :=
  Nat.lt_of_lt_of_le (lt_idFloor h) (Nat.le_max_right _ _)

theorem nextId_le_freshId (s : Sheet) : s.nextId ≤ s.freshId.val := Nat.le_max_left _ _

/-- Two node ids handed out in a row are neighbours. -/
theorem freshId_takeId (s : Sheet) : s.takeId.freshId.val = s.freshId.val + 1 := by
  have hfloor : s.takeId.idFloor = s.idFloor := rfl
  have hle : s.idFloor ≤ s.freshId.val := Nat.le_max_right _ _
  show max (s.freshId.val + 1) s.takeId.idFloor = s.freshId.val + 1
  omega

/-! ## Changes -/

/-- Things that are new on a sheet whose next node id is now `n`. -/
structure News (s : Sheet) (n : Nat) (news : List Entity) : Prop where
  later : s.nextId ≤ n
  distinct : (news.map Entity.id).Nodup
  fresh : ∀ e ∈ news, s.freshId.val ≤ e.id.val ∧ e.id.val < n
  sound : ∀ e ∈ news, e.Faithful ∧ e.Bare

/-- The ways in which a command changes a sheet. -/
inductive Change (s : Sheet) : Sheet → Prop
  | kept {n : Nat} : s.nextId ≤ n → Change s { s with nextId := n }
  | rearranged {t : Sheet} {news : List Entity} :
      News s t.nextId news → t.contents.Subperm (news ++ s.contents) → Change s t.renumber
  | revised {id : NodeId} {l : Line} (r : Revision) :
      s.line? id = some l → Change s (s.setLine id (l.revise r))

theorem news_nil (s : Sheet) : News s s.nextId [] :=
  ⟨Nat.le_refl _, List.nodup_nil, by simp, by simp⟩

theorem Change.same (s : Sheet) : Change s s := .kept (Nat.le_refl s.nextId)

/-- New things are numbered on from the next node id. -/
theorem news_of_range {s : Sheet} {n : Nat} {news : List Entity}
    (hn : n = s.freshId.val + news.length)
    (hids : news.map (·.id.val) = List.range' s.freshId.val news.length)
    (hs : ∀ e ∈ news, e.Faithful ∧ e.Bare) : News s n news := by
  subst hn
  refine ⟨Nat.le_trans s.nextId_le_freshId (Nat.le_add_right _ _), ?_, ?_, hs⟩
  · have hnodup : (news.map (·.id.val)).Nodup := hids ▸ List.nodup_range'
    have hmap : news.map (·.id.val) = (news.map Entity.id).map NodeId.val := by
      rw [List.map_map]
      rfl
    exact List.Nodup.of_map _ (hmap ▸ hnodup)
  · intro e he
    have hmem : e.id.val ∈ List.range' s.freshId.val news.length :=
      hids ▸ List.mem_map_of_mem he
    exact List.mem_range'_1.1 hmem

/-! ## The structural edits

Each is described by what it does to the contents, and that decides what kind of change it is. -/

theorem cons_eraseIdx_perm {α : Type} {l : List α} {index : Nat} {a : α}
    (h : l[index]? = some a) : (a :: l.eraseIdx index).Perm l := by
  obtain ⟨hi, rfl⟩ := List.getElem?_eq_some_iff.1 h
  exact List.getElem_cons_eraseIdx_perm hi

/-- A numbered sheet with nothing on it but what was there before and what is new. -/
theorem Change.of_contents {s t : Sheet} {news : List Entity} (ht : t.Numbered)
    (hnews : News s t.nextId news) (hsub : t.contents.Subperm (news ++ s.contents)) :
    Change s t := by
  have hchange := Change.rearranged hnews hsub
  rwa [ht] at hchange

theorem addPremise_contents (s : Sheet) :
    s.addPremise.2.contents.Perm ([.premise (.blank s.freshId)] ++ s.contents) := by
  rw [addPremise, contents_renumber, contents_eq, contents_eq]
  simp only [List.map_append, List.map_cons, List.map_nil, List.append_assoc]
  exact List.perm_middle

theorem addPremise_change (s : Sheet) : Change s s.addPremise.2 := by
  have news : News s (s.freshId.val + 1) [.premise (.blank s.freshId)] :=
    news_of_range rfl rfl (List.forall_mem_singleton.2 ⟨rfl, trivial⟩)
  exact .of_contents (numbered_renumber _) news (addPremise_contents s).subperm

theorem addGoal_contents (s : Sheet) :
    s.addGoal.2.contents.Perm ([.goal (.blank s.freshId)] ++ s.contents) := by
  rw [addGoal, contents_renumber, contents_eq, contents_eq]
  simp only [List.map_append, List.map_cons, List.map_nil, ← List.append_assoc]
  exact List.perm_append_comm

theorem addGoal_change (s : Sheet) : Change s s.addGoal.2 := by
  have news : News s (s.freshId.val + 1) [.goal (.blank s.freshId)] :=
    news_of_range rfl rfl (List.forall_mem_singleton.2 ⟨rfl, trivial⟩)
  exact .of_contents (numbered_renumber _) news (addGoal_contents s).subperm

theorem stepsAt_eq_ok {s : Sheet} {scope : List Nat} {steps : List Step} :
    s.stepsAt scope = .ok steps ↔ s.stepsAt? scope = some steps := by
  rw [stepsAt]
  cases s.stepsAt? scope with
  | none => constructor <;> intro h <;> cases h
  | some steps' => rw [Except.ok.injEq, Option.some.injEq]

theorem insertStep_eq_ok {s t : Sheet} {scope : List Nat} {index : Nat} {step : Step} :
    s.insertStep scope index step = .ok t ↔
      ∃ steps, s.stepsAt? scope = some steps ∧ index ≤ steps.length ∧
        t = (s.setStepsAt scope (steps.insertIdx index step)).renumber := by
  rw [insertStep, bind_eq_ok]
  refine exists_congr fun steps => and_congr stepsAt_eq_ok ?_
  split
  · rename_i hle
    constructor
    · intro h; cases h; exact ⟨hle, rfl⟩
    · rintro ⟨-, rfl⟩; rfl
  · rename_i hle
    constructor
    · intro h; cases h
    · intro h; exact absurd h.1 hle

theorem insertStep_contents {s t : Sheet} {scope : List Nat} {index : Nat} {step : Step}
    (h : s.insertStep scope index step = .ok t) :
    t.Numbered ∧ t.nextId = s.nextId ∧ t.contents.Perm (Step.contents [step] ++ s.contents) := by
  obtain ⟨steps, hs, hi, rfl⟩ := insertStep_eq_ok.1 h
  have hnew : (Step.contents (steps.insertIdx index step)).Perm
      (Step.contents [step] ++ Step.contents steps) := by
    rw [← Step.contents_cons]
    exact Step.contents_perm (List.perm_insertIdx step steps hi)
  refine ⟨numbered_renumber _, rfl, ?_⟩
  rw [contents_renumber]
  exact setStepsAt_perm [] (Step.contents [step]) hs hnew

/-- Inserting a step of new things, whether the place exists or not. -/
theorem insertStep_change {s t : Sheet} {scope : List Nat} {index : Nat} {step : Step} {id : NodeId}
    (ht : t = { s with nextId := t.nextId }) (news : News s t.nextId (Step.contents [step])) :
    Change s (t.orKeep id (t.insertStep scope index step)).2 := by
  cases h : t.insertStep scope index step with
  | error e =>
      rw [orKeep, ht]
      exact .kept news.later
  | ok t' =>
      obtain ⟨hnumbered, hnext, hperm⟩ := insertStep_contents h
      have hcontents : t.contents = s.contents := by
        rw [ht]
        rfl
      rw [hcontents] at hperm
      exact .of_contents hnumbered (hnext ▸ news) hperm.subperm

theorem insertStatement_change (s : Sheet) (scope : List Nat) (index : Nat) :
    Change s (s.insertStatement scope index).2 := by
  have news : News s (s.freshId.val + 1) (Step.contents [.line (.blank s.freshId)]) :=
    news_of_range rfl rfl (List.forall_mem_singleton.2 ⟨rfl, trivial⟩)
  exact insertStep_change (t := s.takeId) rfl news

theorem insertSubproof_change (s : Sheet) (scope : List Nat) (index : Nat) :
    Change s (s.insertSubproof scope index).2 := by
  have news : News s (s.freshId.val + 2)
      (Step.contents [.subproof s.freshId (.blank s.takeId.freshId) [] none]) := by
    refine news_of_range rfl ?_ ?_
    · show [s.freshId.val, s.takeId.freshId.val] = [s.freshId.val, s.freshId.val + 1]
      rw [freshId_takeId]
    · exact List.forall_mem_cons.2 ⟨⟨rfl, rfl, rfl⟩, List.forall_mem_singleton.2 ⟨rfl, trivial⟩⟩
  have hnext : s.takeId.takeId.nextId = s.freshId.val + 2 := by
    show s.takeId.freshId.val + 1 = s.freshId.val + 2
    rw [freshId_takeId]
  exact insertStep_change (t := s.takeId.takeId) rfl (hnext ▸ news)

theorem perm_change {s t : Sheet} (lost : List Entity) (ht : t.Numbered) (hn : t.nextId = s.nextId)
    (h : (lost ++ t.contents).Perm s.contents) : Change s t := by
  have hnews : News s t.nextId [] := hn ▸ news_nil s
  exact .of_contents ht hnews ((List.sublist_append_right lost t.contents).subperm.trans h.subperm)

theorem deletePremise_eq_ok {s t : Sheet} {index : Nat} {p : Premise} :
    s.deletePremise index = .ok (p, t) ↔ s.premises[index]? = some p ∧
      t = { s with premises := s.premises.eraseIdx index }.renumber := by
  rw [deletePremise]
  cases s.premises[index]? with
  | none => simp
  | some removed => simp [eq_comm]

theorem deletePremise_contents {s t : Sheet} {index : Nat} {p : Premise}
    (h : s.deletePremise index = .ok (p, t)) :
    t.Numbered ∧ t.nextId = s.nextId ∧
      ([Entity.content (.premise p)] ++ t.contents).Perm s.contents := by
  obtain ⟨hremoved, rfl⟩ := deletePremise_eq_ok.1 h
  refine ⟨numbered_renumber _, rfl, ?_⟩
  rw [contents_renumber, contents_eq, contents_eq]
  have hperm := (cons_eraseIdx_perm hremoved).map fun p => (Entity.premise { p with number := none })
  exact (hperm.append_right _).append_right _

theorem deleteGoal_eq_ok {s t : Sheet} {index : Nat} {g : Goal} :
    s.deleteGoal index = .ok (g, t) ↔ s.goals[index]? = some g ∧
      t = { s with goals := s.goals.eraseIdx index }.renumber := by
  rw [deleteGoal]
  cases s.goals[index]? with
  | none => simp
  | some removed => simp [eq_comm]

theorem deleteGoal_contents {s t : Sheet} {index : Nat} {g : Goal}
    (h : s.deleteGoal index = .ok (g, t)) :
    t.Numbered ∧ t.nextId = s.nextId ∧
      ([Entity.content (.goal g)] ++ t.contents).Perm s.contents := by
  obtain ⟨hremoved, rfl⟩ := deleteGoal_eq_ok.1 h
  refine ⟨numbered_renumber _, rfl, ?_⟩
  rw [contents_renumber, contents_eq, contents_eq]
  have hperm := (cons_eraseIdx_perm hremoved).map fun g => (Entity.goal { g with number := none })
  refine List.Perm.trans ?_ (hperm.append_left _)
  rw [List.map_cons, List.singleton_append]
  exact List.perm_middle.symm

theorem deleteStep_eq_ok {s t : Sheet} {scope : List Nat} {index : Nat} {step : Step} :
    s.deleteStep scope index = .ok (step, t) ↔
      ∃ steps, s.stepsAt? scope = some steps ∧ steps[index]? = some step ∧
        t = (s.setStepsAt scope (steps.eraseIdx index)).renumber := by
  rw [deleteStep, bind_eq_ok]
  refine exists_congr fun steps => and_congr stepsAt_eq_ok ?_
  cases steps[index]? with
  | none =>
      constructor
      · intro h; cases h
      · intro h; cases h.1
  | some step' =>
      constructor
      · intro h; cases h; exact ⟨rfl, rfl⟩
      · rintro ⟨h, rfl⟩; cases h; rfl

theorem deleteStep_contents {s t : Sheet} {scope : List Nat} {index : Nat} {step : Step}
    (h : s.deleteStep scope index = .ok (step, t)) :
    t.Numbered ∧ t.nextId = s.nextId ∧
      (Step.contents [step] ++ t.contents).Perm s.contents := by
  obtain ⟨steps, hs, hremoved, rfl⟩ := deleteStep_eq_ok.1 h
  refine ⟨numbered_renumber _, rfl, ?_⟩
  rw [contents_renumber]
  have hperm := Step.contents_perm (cons_eraseIdx_perm hremoved)
  rw [Step.contents_cons] at hperm
  exact setStepsAt_perm (Step.contents [step]) [] hs hperm

theorem checkIndex_eq_ok {index length : Nat} {u : Unit} :
    checkIndex index length = .ok u ↔ index < length := by
  rw [checkIndex]
  split
  · rename_i hlt
    exact iff_of_true rfl hlt
  · rename_i hlt
    exact iff_of_false nofun hlt

theorem moveStep_eq_ok {s t : Sheet} {scope : List Nat} {source target : Nat} :
    s.moveStep scope source target = .ok t ↔
      ∃ steps, s.stepsAt? scope = some steps ∧ ∃ step, steps[source]? = some step ∧
        target < steps.length ∧
        t = (s.setStepsAt scope ((steps.eraseIdx source).insertIdx target step)).renumber := by
  rw [moveStep, bind_eq_ok]
  refine exists_congr fun steps => and_congr stepsAt_eq_ok ?_
  cases steps[source]? with
  | none =>
      constructor
      · intro h; cases h
      · rintro ⟨step, h, -⟩; cases h
  | some step =>
      constructor
      · intro h
        obtain ⟨u, hu, h⟩ := bind_eq_ok.1 h
        cases h
        exact ⟨step, rfl, checkIndex_eq_ok.1 hu, rfl⟩
      · rintro ⟨step', h, htarget, rfl⟩
        cases h
        exact bind_eq_ok.2 ⟨(), checkIndex_eq_ok.2 htarget, rfl⟩

theorem moved_perm {α : Type} {l : List α} {source target : Nat} {a : α} (hsource : l[source]? = some a)
    (htarget : target < l.length) : ((l.eraseIdx source).insertIdx target a).Perm l := by
  have hlen : target ≤ (l.eraseIdx source).length := by
    rw [List.length_eraseIdx_of_lt (List.getElem?_eq_some_iff.1 hsource).1]
    omega
  exact (List.perm_insertIdx a _ hlen).trans (cons_eraseIdx_perm hsource)

theorem moveStep_contents {s t : Sheet} {scope : List Nat} {source target : Nat}
    (h : s.moveStep scope source target = .ok t) :
    t.Numbered ∧ t.nextId = s.nextId ∧ t.contents.Perm s.contents := by
  obtain ⟨steps, hs, step, hstep, htarget, rfl⟩ := moveStep_eq_ok.1 h
  refine ⟨numbered_renumber _, rfl, ?_⟩
  rw [contents_renumber]
  exact setStepsAt_perm [] [] hs (Step.contents_perm (moved_perm hstep htarget))

/-! ## The line edits -/

theorem lineAt_eq_ok {s : Sheet} {id : NodeId} {l : Line} (h : s.lineAt id = .ok l) :
    s.line? id = some l := by
  unfold lineAt at h
  split at h
  · rename_i e
    cases h
    exact e
  · cases h

inductive LineChange (s : Sheet) : Sheet → Prop
  | same : LineChange s s
  | revised {id : NodeId} {l : Line} (r : Revision) :
      s.line? id = some l → LineChange s (s.setLine id (l.revise r))

theorem LineChange.change {s t : Sheet} (h : LineChange s t) : Change s t := by
  cases h with
  | same => exact .same s
  | revised r hl => exact .revised r hl

theorem LineChange.nextId_eq {s t : Sheet} (h : LineChange s t) : t.nextId = s.nextId := by
  cases h with
  | same => rfl
  | revised r hl => exact nextId_setLine s _ _

theorem setText_change {s t : Sheet} {id : NodeId} {text : String} {reading : Reading}
    (h : s.setText id text = .ok (reading, t)) : LineChange s t := by
  obtain ⟨l, hl, h⟩ := bind_eq_ok.1 h
  cases h
  exact .revised (.text text) (lineAt_eq_ok hl)

theorem setRule_change {s t : Sheet} {id : NodeId} {rule : String}
    (h : s.setRule id rule = .ok t) : LineChange s t := by
  obtain ⟨l, hl, h⟩ := bind_eq_ok.1 h
  split at h
  · cases h
    exact .revised (.rule rule) (lineAt_eq_ok hl)
  · split at h
    · cases h
      exact .same
    · cases h
  · cases h

theorem setCitations_change {s t : Sheet} {id : NodeId} {addresses : String}
    (h : s.setCitations id addresses = .ok t) : LineChange s t := by
  obtain ⟨citations, -, h⟩ := bind_eq_ok.1 h
  obtain ⟨l, hl, h⟩ := bind_eq_ok.1 h
  split at h
  · cases h
    exact .revised (.citations citations) (lineAt_eq_ok hl)
  · split at h
    · cases h
      exact .same
    · cases h
  · cases h

theorem setGoalCitation_change {s t : Sheet} {id : NodeId} {address : String}
    (h : s.setGoalCitation id address = .ok t) : LineChange s t := by
  obtain ⟨target, -, h⟩ := bind_eq_ok.1 h
  obtain ⟨l, hl, h⟩ := bind_eq_ok.1 h
  split at h
  · cases h
    exact .revised (.goalCitation target) (lineAt_eq_ok hl)
  · cases h

end Sheet

/-! ## Commands -/

namespace Command

open Sheet

theorem settle_change {s : Sheet} {α : Type} {r : Except EditError α} {f : α → Reply × Sheet}
    (h : ∀ a, r = .ok a → Change s (f a).2) : Change s (settle s (r.map f)).2 := by
  cases r with
  | error e => exact .same s
  | ok a => exact h a rfl

/-- Every command, whether it succeeds or fails, changes a sheet in one of the three ways. -/
theorem run_change (s : Sheet) (c : Command) : Change s (run s c).2 := by
  cases c with
  | addPremise => exact addPremise_change s
  | addGoal => exact addGoal_change s
  | insertStatement scope index => exact insertStatement_change s scope index
  | insertSubproof scope index => exact insertSubproof_change s scope index
  | deletePremise index =>
      refine settle_change fun r h => ?_
      obtain ⟨hnumbered, hnext, hperm⟩ := deletePremise_contents h
      exact perm_change _ hnumbered hnext hperm
  | deleteGoal index =>
      refine settle_change fun r h => ?_
      obtain ⟨hnumbered, hnext, hperm⟩ := deleteGoal_contents h
      exact perm_change _ hnumbered hnext hperm
  | deleteStep scope index =>
      refine settle_change fun r h => ?_
      obtain ⟨hnumbered, hnext, hperm⟩ := deleteStep_contents h
      exact perm_change _ hnumbered hnext hperm
  | moveStep scope source target =>
      refine settle_change fun r h => ?_
      obtain ⟨hnumbered, hnext, hperm⟩ := moveStep_contents h
      exact perm_change [] hnumbered hnext hperm
  | renumber => exact .rearranged (news_nil s) (List.Subperm.refl _)
  | setText id text => exact settle_change fun _ h => (setText_change h).change
  | setRule id rule => exact settle_change fun _ h => (setRule_change h).change
  | setCitations id addresses => exact settle_change fun _ h => (setCitations_change h).change
  | setGoalCitation id address => exact settle_change fun _ h => (setGoalCitation_change h).change

end Command

end ProofSheet
