/-
# Fresh node ids on any sheet

A sheet that was read from a file may have any node ids, the same one twice, and a next node id that lags
behind.  What is handed out on it is fresh all the same, because the next id is compared with those on the
sheet each time.  It is only what has been deleted that the comparison does not see: an id that the sheet
began with is safe from being handed out again if the next id was above it from the start.

What a command hands out is told by its answer, and `run_added` says which ids these are.
-/
import ProofSheet.Proofs.Histories

namespace ProofSheet

def Command.opensSubproof : Command → Bool
  | .insertSubproof _ _ => true
  | _ => false

namespace Command

variable {s t u : Sheet} {id j : NodeId}

theorem eq_of_orKeep_added {x : Except EditError Sheet}
    (h : ((u.orKeep j x).1.map Reply.added, (u.orKeep j x).2) = (.ok (.added id), t)) :
    id = j ∧ x = .ok t := by
  cases x with
  | error e => cases (Prod.mk.inj h).1
  | ok v =>
      cases h
      exact ⟨rfl, rfl⟩

/-- What is added is added under the next node id, and the assumption of a subproof under the one after
that. -/
theorem run_added {c : Command} (h : c.run s = (.ok (.added id), t)) :
    id = s.freshId ∧ t.assumptionOf? id = if c.opensSubproof then some ⟨id.val + 1⟩ else none := by
  cases c with
  | addPremise =>
      cases h
      exact ⟨rfl, Sheet.assumptionOf?_added (Sheet.addPremise_contents s) rfl (by simp)⟩
  | addGoal =>
      cases h
      exact ⟨rfl, Sheet.assumptionOf?_added (Sheet.addGoal_contents s) rfl (by simp)⟩
  | insertStatement scope index =>
      obtain ⟨rfl, hinsert⟩ := eq_of_orKeep_added (u := s.takeId) h
      have hperm : t.contents.Perm ([.statement (.blank s.freshId)] ++ s.contents) :=
        (Sheet.insertStep_contents hinsert).2.2
      exact ⟨rfl, Sheet.assumptionOf?_added hperm rfl (by simp)⟩
  | insertSubproof scope index =>
      obtain ⟨rfl, hinsert⟩ := eq_of_orKeep_added (u := s.takeId.takeId) h
      have hperm : t.contents.Perm ([.subproof s.freshId (.blank s.takeId.freshId) [] none,
          .statement (.blank s.takeId.freshId)] ++ s.contents) :=
        (Sheet.insertStep_contents hinsert).2.2
      have hnext : s.takeId.freshId = ⟨s.freshId.val + 1⟩ := congrArg NodeId.mk s.freshId_takeId
      have hother : s.takeId.freshId ≠ s.freshId := by
        rw [hnext]
        exact fun heq => Nat.succ_ne_self _ (congrArg NodeId.val heq)
      refine ⟨rfl, ?_⟩
      rw [Sheet.assumptionOf?_added hperm rfl (List.forall_mem_singleton.2 hother)]
      exact congrArg some hnext
  | deletePremise | deleteGoal | deleteStep | moveStep | setText | setRule | setCitations
  | setGoalCitation =>
      obtain ⟨a, -, hreply, -⟩ := settle_eq_ok h
      cases hreply
  | renumber => cases h

theorem runAll_nodup (cs : List Command) :
    ∀ {s : Sheet}, (s.entities.map Entity.id).Nodup → ((runAll s cs).entities.map Entity.id).Nodup := by
  induction cs with
  | nil => intro s h; exact h
  | cons c cs ih => intro s h; exact ih (run_nodup c h)

/-- On any sheet, whatever its node ids and its next node id, and along any history: the node ids handed out
increase; what a command hands out is not on the sheet that it is given on; the assumption of an
inserted subproof has the node id after that of the subproof, and nothing else that is added comes with
an assumption; distinct node ids stay distinct; and if the next node id was above all node ids to begin
with, none of these is ever handed out. -/
theorem handed_out_fresh (s : Sheet) (history : List Command) :
    ((handedAll s history).Pairwise fun i j => i.val < j.val) ∧
    (∀ c : Command, ∀ id ∈ c.handed (runAll s history),
      id ∉ (runAll s history).entities.map Entity.id) ∧
    (∀ (c : Command) (id : NodeId) (t : Sheet), c.run (runAll s history) = (.ok (.added id), t) →
      t.assumptionOf? id = if c.opensSubproof then some ⟨id.val + 1⟩ else none) ∧
    ((s.entities.map Entity.id).Nodup → ((runAll s history).entities.map Entity.id).Nodup) ∧
    ((∀ e ∈ s.entities, e.id.val < s.nextId) →
      ∀ id ∈ handedAll s history, id ∉ s.entities.map Entity.id) := by
  refine ⟨increasing_handedAll history s, ?_, ?_, runAll_nodup history, ?_⟩
  · intro c
    exact (run_handsOut (runAll s history) c).notMem
  · intro c id t h
    exact (run_added h).2
  · intro hspent id hid hold
    obtain ⟨e, he, rfl⟩ := List.mem_map.1 hold
    exact absurd (hspent e he) (Nat.not_lt.2 (nextId_le_of_mem_handedAll history hid))

/-- The theorem for a sheet with a node id on it twice and a next node id that lags behind, and a history in
which a subproof is inserted, an insertion is refused, and the subproof is deleted before a goal is added;
and for a sheet whose one premise is deleted before another is added. -/
theorem untidy_ids_handed_out : ∃ s t : Sheet,
    s = { premises := [.blank ⟨7⟩], steps := [.subproof ⟨3⟩ (.blank ⟨9⟩) [.line (.blank ⟨7⟩)] none] } ∧
    t = { premises := [.blank ⟨4⟩], nextId := 5 } ∧
    handedAll s [.insertSubproof [] 1, .insertStatement [5] 0, .deleteStep [] 1, .addGoal] =
      [⟨10⟩, ⟨11⟩, ⟨13⟩] ∧
    [(⟨10⟩ : NodeId), ⟨11⟩, ⟨13⟩].Pairwise (fun i j => i.val < j.val) ∧
    ⟨10⟩ ∉ s.entities.map Entity.id ∧
    (runAll s [.insertSubproof [] 1]).assumptionOf? ⟨10⟩ = some ⟨11⟩ ∧
    (t.entities.map Entity.id).Nodup ∧ (∀ e ∈ t.entities, e.id.val < t.nextId) ∧
    ((runAll t [.deletePremise 0, .addPremise]).entities.map Entity.id).Nodup ∧
    ∀ id ∈ handedAll t [.deletePremise 0, .addPremise], id ∉ t.entities.map Entity.id := by
  let s : Sheet :=
    { premises := [.blank ⟨7⟩], steps := [.subproof ⟨3⟩ (.blank ⟨9⟩) [.line (.blank ⟨7⟩)] none] }
  let t : Sheet := { premises := [.blank ⟨4⟩], nextId := 5 }
  have hhanded : handedAll s [.insertSubproof [] 1, .insertStatement [5] 0, .deleteStep [] 1, .addGoal] =
      [⟨10⟩, ⟨11⟩, ⟨13⟩] := by decide +kernel
  have hfirst : ⟨10⟩ ∈ (insertSubproof [] 1).handed s := by decide +kernel
  have hreply : ((insertSubproof [] 1).run s).1 = .ok (.added ⟨10⟩) := by decide +kernel
  have hdistinct : (t.entities.map Entity.id).Nodup := by decide +kernel
  have hspent : ∀ e ∈ t.entities, e.id.val < t.nextId := by decide +kernel
  obtain ⟨hincreasing, -⟩ := handed_out_fresh s
    [.insertSubproof [] 1, .insertStatement [5] 0, .deleteStep [] 1, .addGoal]
  obtain ⟨-, hnew, hopened, -⟩ := handed_out_fresh s []
  obtain ⟨-, -, -, hkept, hgone⟩ := handed_out_fresh t [.deletePremise 0, .addPremise]
  rw [hhanded] at hincreasing
  exact ⟨s, t, rfl, rfl, hhanded, hincreasing, hnew _ _ hfirst, hopened _ _ _ (Prod.ext hreply rfl),
    hdistinct, hspent, hkept hdistinct, hgone hspent⟩

/-- Without the condition on the next node id, a node id that the sheet began with is handed out again once
what had it is gone. -/
example : handedAll { premises := [.blank ⟨0⟩] } [.deletePremise 0, .addPremise] = [⟨0⟩] := by
  decide +kernel

end Command

end ProofSheet
