/-
# Node ids along a history

A node id is handed out once.  What a command hands out is read off its answer: the id of the thing
that was added and, if that is a subproof, the id of its assumption.  `run_handsOut` says of one
command, on any sheet, that these are the next ids in a row and that nothing else is new on the sheet;
along a history it follows that no id is handed out twice and that an id which is gone never comes
back.
-/
import ProofSheet.Proofs.Records

namespace ProofSheet

/-! ## What a command hands out and takes away -/

/-- The node ids that an answer tells of, on the sheet `t` that came with it: that of what was added
and, if this is a subproof, that of its assumption. -/
def Reply.handed (t : Sheet) : Reply → List NodeId
  | .added id => id :: (t.assumptionOf? id).toList
  | _ => []

/-- How many node ids a command takes, whether it succeeds or fails. -/
def Command.takes : Command → Nat
  | .addPremise | .addGoal | .insertStatement .. => 1
  | .insertSubproof .. => 2
  | _ => 0

def Command.handed (s : Sheet) (c : Command) : List NodeId :=
  match c.run s with
  | (.ok r, t) => r.handed t
  | (.error _, _) => []

def Command.handedAll (s : Sheet) : List Command → List NodeId
  | [] => []
  | c :: cs => c.handed s ++ handedAll (c.run s).2 cs

def Reply.removed : Reply → List Entity
  | .removedPremise p => [.premise p]
  | .removedGoal g => [.goal g]
  | .removedStep s => s.entities
  | _ => []

def Entity.opening? : Entity → Option NodeId
  | .subproof _ a _ _ => some a.id
  | _ => none

/-- From the sheet `s` to the sheet `t` the node ids `ids` are handed out: they are the next ones in a
row, and every node id on `t` is one of them or was on `s`. -/
structure Sheet.HandsOut (s t : Sheet) (ids : List NodeId) : Prop where
  inRow : ∃ n, ids = (List.range' s.freshId.val n).map NodeId.mk
  taken : ∀ id ∈ ids, id.val < t.nextId
  later : s.nextId ≤ t.nextId
  accounted : (t.entities.map Entity.id).Subperm (ids ++ s.entities.map Entity.id)

theorem nodup_of_increasing {ids : List NodeId} (h : ids.Pairwise fun i j => i.val < j.val) :
    ids.Nodup :=
  h.imp fun hlt heq => Nat.ne_of_lt hlt (congrArg NodeId.val heq)

namespace Sheet

theorem find?_of_mem {s : Sheet} (h : (s.entities.map Entity.id).Nodup) {e : Entity}
    (he : e ∈ s.entities) : s.find? e.id = some e :=
  find?_of_nodup h he

theorem assumptionOf?_eq (s : Sheet) (id : NodeId) :
    s.assumptionOf? id = (s.contents.find? (·.id == id)).bind Entity.opening? := by
  have hcontent : (Entity.opening? ∘ Entity.content) = Entity.opening? := by
    funext e
    cases e <;> rfl
  have hid : ((fun e : Entity => e.id == id) ∘ Entity.content) = fun e => e.id == id := by
    funext e
    simp
  rw [contents, List.find?_map, hid, Option.bind_map, hcontent, assumptionOf?, Sheet.find?]
  cases s.entities.find? fun e => e.id == id with
  | none => rfl
  | some e => cases e <;> rfl

/-- A thing that was added under the next node id is the only one with that id. -/
theorem assumptionOf?_added {s t : Sheet} {x : Entity} {more : List Entity}
    (h : t.contents.Perm (x :: more ++ s.contents)) (hx : x.id = s.freshId)
    (hmore : ∀ y ∈ more, y.id ≠ s.freshId) : t.assumptionOf? s.freshId = x.opening? := by
  have honly : ∀ y ∈ t.contents, y.id = s.freshId → y = x := by
    intro y hy hid
    rcases List.mem_append.1 (h.subset hy) with hy | hy
    · rcases List.mem_cons.1 hy with rfl | hy
      · rfl
      · exact absurd hid (hmore y hy)
    · obtain ⟨e, he, rfl⟩ := List.mem_map.1 hy
      have hlt := lt_freshId he
      rw [← hid, Entity.id_content] at hlt
      exact absurd hlt (Nat.lt_irrefl _)
  have hmem : x ∈ t.contents := h.symm.subset (by simp)
  have hsome : (t.contents.find? (·.id == s.freshId)).isSome := by
    rw [List.find?_isSome]
    exact ⟨x, hmem, by simp [hx]⟩
  obtain ⟨y, hy⟩ := Option.isSome_iff_exists.1 hsome
  have hyx : y = x := honly y (List.mem_of_find?_eq_some hy) (by simpa using List.find?_some hy)
  rw [assumptionOf?_eq, hy, hyx]
  rfl

theorem subperm_ids {s t : Sheet} {news : List Entity}
    (h : t.contents.Subperm (news ++ s.contents)) :
    (t.entities.map Entity.id).Subperm (news.map Entity.id ++ s.entities.map Entity.id) := by
  obtain ⟨l, hperm, hl⟩ := h
  rw [← map_id_contents, ← map_id_contents, ← List.map_append]
  exact ⟨l.map Entity.id, hperm.map Entity.id, hl.map Entity.id⟩

/-- A change that leaves the next node id alone adds nothing. -/
theorem Change.handsOut {s t : Sheet} (h : Change s t) (hn : t.nextId = s.nextId) :
    HandsOut s t [] := by
  refine ⟨⟨0, rfl⟩, by simp, Nat.le_of_eq hn.symm, ?_⟩
  cases h with
  | kept hle => exact List.Subperm.refl _
  | @rearranged u news hnews hsub =>
      have hnone : news = [] := by
        refine List.eq_nil_iff_forall_not_mem.2 fun e he => ?_
        have hlow := (hnews.fresh e he).1
        have hhigh := (hnews.fresh e he).2
        have hle := s.nextId_le_freshId
        have hnext : u.nextId = s.nextId := hn
        omega
      subst hnone
      rw [← contents_renumber] at hsub
      exact subperm_ids hsub
  | revised r hl =>
      have hids := map_eq_of_forall₂ (fun e e' hr => Entity.Revised.id_eq hr) (setLine_revised r hl)
      rw [hids]
      exact List.Subperm.refl _

/-- A change that adds a thing under the next node id, perhaps with its assumption under the one after
that. -/
theorem handsOut_added {s t : Sheet} {x : Entity} {more : List Entity}
    (hperm : t.contents.Perm (x :: more ++ s.contents))
    (hids : (x :: more).map (·.id.val) = List.range' s.freshId.val (more.length + 1))
    (hopening : x.opening?.toList = more.map Entity.id)
    (hnext : t.nextId = s.freshId.val + (more.length + 1)) :
    HandsOut s t (s.freshId :: (t.assumptionOf? s.freshId).toList) := by
  rw [List.range'_succ, List.map_cons, List.cons.injEq] at hids
  obtain ⟨hx, hmore⟩ := hids
  have hxid : x.id = s.freshId := by
    show NodeId.mk x.id.val = NodeId.mk s.freshId.val
    rw [hx]
  have hdistinct : ∀ y ∈ more, y.id ≠ s.freshId := by
    intro y hy hid
    have hmem : y.id.val ∈ List.range' (s.freshId.val + 1) more.length :=
      hmore ▸ List.mem_map_of_mem hy
    rw [hid] at hmem
    have := List.left_le_of_mem_range' hmem
    omega
  rw [assumptionOf?_added hperm hxid hdistinct, hopening]
  have hrow : s.freshId :: more.map Entity.id =
      (List.range' s.freshId.val (more.length + 1)).map NodeId.mk := by
    rw [List.range'_succ, List.map_cons, ← hmore, List.map_map]
    rfl
  refine ⟨⟨more.length + 1, hrow⟩, ?_, ?_, ?_⟩
  · intro id hid
    rw [hrow] at hid
    obtain ⟨n, hn, rfl⟩ := List.mem_map.1 hid
    rw [hnext]
    exact (List.mem_range'_1.1 hn).2
  · have hle := s.nextId_le_freshId
    omega
  · have hsub := subperm_ids hperm.subperm
    rwa [List.map_cons, hxid] at hsub

theorem HandsOut.increasing {s t : Sheet} {ids : List NodeId} (h : HandsOut s t ids) :
    ids.Pairwise fun i j => i.val < j.val := by
  obtain ⟨n, rfl⟩ := h.inRow
  exact List.pairwise_map.2 List.pairwise_lt_range'

theorem HandsOut.notMem {s t : Sheet} {ids : List NodeId} (h : HandsOut s t ids) :
    ∀ id ∈ ids, id ∉ s.entities.map Entity.id := by
  obtain ⟨n, rfl⟩ := h.inRow
  intro id hid hold
  obtain ⟨m, hm, rfl⟩ := List.mem_map.1 hid
  obtain ⟨e, he, hsame⟩ := List.mem_map.1 hold
  have hlow := (List.mem_range'_1.1 hm).1
  have hhigh := lt_freshId he
  rw [hsame] at hhigh
  exact absurd hhigh (Nat.not_lt.2 hlow)

theorem HandsOut.fresh {s t : Sheet} {ids : List NodeId} (h : HandsOut s t ids) :
    ∀ id ∈ ids, s.nextId ≤ id.val := by
  obtain ⟨n, rfl⟩ := h.inRow
  intro id hid
  obtain ⟨m, hm, rfl⟩ := List.mem_map.1 hid
  exact Nat.le_trans s.nextId_le_freshId (List.mem_range'_1.1 hm).1

end Sheet

/-! ## One command -/

namespace Command

open Sheet

theorem nextId_settle {s : Sheet} {α : Type} {r : Except EditError α} {f : α → Reply × Sheet}
    (h : ∀ a, r = .ok a → (f a).2.nextId = s.nextId) : (settle s (r.map f)).2.nextId = s.nextId := by
  cases r with
  | error e => rfl
  | ok a => exact h a rfl

theorem nextId_orKeep {t : Sheet} {id : NodeId} {scope : List Nat} {index : Nat} {step : Step} :
    (t.orKeep id (t.insertStep scope index step)).2.nextId = t.nextId := by
  cases h : t.insertStep scope index step with
  | error e => rfl
  | ok u => exact (insertStep_contents h).2.1

theorem nextId_run (s : Sheet) (c : Command) :
    (c.run s).2.nextId = if c.takes = 0 then s.nextId else s.freshId.val + c.takes := by
  cases c with
  | addPremise | addGoal | renumber => rfl
  | insertStatement scope index => exact nextId_orKeep
  | insertSubproof scope index =>
      refine nextId_orKeep.trans ?_
      show s.takeId.freshId.val + 1 = s.freshId.val + 2
      rw [freshId_takeId]
  | deletePremise index => exact nextId_settle fun r h => (deletePremise_contents h).2.1
  | deleteGoal index => exact nextId_settle fun r h => (deleteGoal_contents h).2.1
  | deleteStep scope index => exact nextId_settle fun r h => (deleteStep_contents h).2.1
  | moveStep scope source target => exact nextId_settle fun r h => (moveStep_contents h).2.1
  | setText id text => exact nextId_settle fun r h => (setText_change h).nextId_eq
  | setRule id rule => exact nextId_settle fun r h => (setRule_change h).nextId_eq
  | setCitations id addresses => exact nextId_settle fun r h => (setCitations_change h).nextId_eq
  | setGoalCitation id address => exact nextId_settle fun r h => (setGoalCitation_change h).nextId_eq

theorem handsOut_settle {s : Sheet} {c : Command} {α : Type} {r : Except EditError α}
    {f : α → Reply × Sheet} (hc : c.run s = settle s (r.map f))
    (hf : ∀ a id, (f a).1 ≠ .added id) (hn : (c.run s).2.nextId = s.nextId) :
    HandsOut s (c.run s).2 (c.handed s) := by
  have hnone : c.handed s = [] := by
    rw [handed, hc]
    cases r with
    | error e => rfl
    | ok a =>
        show (f a).1.handed (f a).2 = []
        cases hreply : (f a).1 with
        | added id => exact absurd hreply (hf a id)
        | _ => rfl
  rw [hnone]
  exact (run_change s c).handsOut hn

theorem handsOut_insert {s t : Sheet} {c : Command} {scope : List Nat} {index : Nat} {step : Step}
    {x : Entity} {more : List Entity} (ht : t = { s with nextId := t.nextId })
    (hc : c.run s = ((t.orKeep s.freshId (t.insertStep scope index step)).1.map .added,
      (t.orKeep s.freshId (t.insertStep scope index step)).2))
    (hstep : Step.contents [step] = x :: more)
    (hids : (x :: more).map (·.id.val) = List.range' s.freshId.val (more.length + 1))
    (hopening : x.opening?.toList = more.map Entity.id)
    (hnext : t.nextId = s.freshId.val + (more.length + 1)) :
    HandsOut s (c.run s).2 (c.handed s) := by
  rw [handed, hc]
  have hentities : t.entities = s.entities := by
    rw [ht]
    rfl
  cases h : t.insertStep scope index step with
  | error e =>
      show HandsOut s t []
      refine ⟨⟨0, rfl⟩, by simp, ?_, ?_⟩
      · have hle := s.nextId_le_freshId
        omega
      · rw [hentities]
        exact List.Subperm.refl _
  | ok u =>
      obtain ⟨-, hunext, hperm⟩ := insertStep_contents h
      have hcontents : t.contents = s.contents := congrArg (List.map Entity.content) hentities
      rw [hstep, hcontents] at hperm
      exact handsOut_added hperm hids hopening (hunext.trans hnext)

/-- Of every command, whether it succeeds or fails: it hands out the next node ids in a row, as many
as it adds things, and nothing else is new on the sheet. -/
theorem run_handsOut (s : Sheet) (c : Command) : HandsOut s (c.run s).2 (c.handed s) := by
  cases c with
  | addPremise => exact handsOut_added (addPremise_contents s) rfl rfl rfl
  | addGoal => exact handsOut_added (addGoal_contents s) rfl rfl rfl
  | insertStatement scope index =>
      exact handsOut_insert (t := s.takeId) rfl rfl rfl rfl rfl rfl
  | insertSubproof scope index =>
      refine handsOut_insert (t := s.takeId.takeId) rfl rfl rfl ?_ rfl ?_
      · show [s.freshId.val, s.takeId.freshId.val] = [s.freshId.val, s.freshId.val + 1]
        rw [freshId_takeId]
      · show s.takeId.freshId.val + 1 = s.freshId.val + 2
        rw [freshId_takeId]
  | renumber => exact (run_change s .renumber).handsOut rfl
  | deletePremise | deleteGoal | deleteStep | moveStep | setText | setRule | setCitations
  | setGoalCitation => exact handsOut_settle rfl nofun (nextId_run s _)

theorem settle_eq_ok {s t : Sheet} {α : Type} {x : Except EditError α} {f : α → Reply × Sheet}
    {r : Reply} (h : settle s (x.map f) = (.ok r, t)) : ∃ a, x = .ok a ∧ (f a).1 = r ∧ (f a).2 = t := by
  cases x with
  | error e => cases h
  | ok a =>
      have hpair : (Except.ok (f a).1, (f a).2) = (Except.ok r, t) := h
      obtain ⟨hr, ht⟩ := Prod.mk.inj hpair
      exact ⟨a, rfl, Except.ok.inj hr, ht⟩

/-- What a command takes off the sheet, it says, and it takes off nothing else. -/
theorem run_removed {s t : Sheet} {c : Command} {r : Reply} (h : c.run s = (.ok r, t)) :
    r.removed = [] ∨ (r.removed.map Entity.content ++ t.contents).Perm s.contents := by
  cases c with
  | addPremise => cases h; exact .inl rfl
  | addGoal => cases h; exact .inl rfl
  | insertStatement scope index =>
      simp only [run] at h
      cases hr : (s.insertStatement scope index).1 with
      | error e => rw [hr] at h; cases h
      | ok id => rw [hr] at h; cases h; exact .inl rfl
  | insertSubproof scope index =>
      simp only [run] at h
      cases hr : (s.insertSubproof scope index).1 with
      | error e => rw [hr] at h; cases h
      | ok id => rw [hr] at h; cases h; exact .inl rfl
  | deletePremise index =>
      obtain ⟨a, ha, rfl, rfl⟩ := settle_eq_ok h
      exact .inr (deletePremise_contents ha).2.2
  | deleteGoal index =>
      obtain ⟨a, ha, rfl, rfl⟩ := settle_eq_ok h
      exact .inr (deleteGoal_contents ha).2.2
  | deleteStep scope index =>
      obtain ⟨a, ha, rfl, rfl⟩ := settle_eq_ok h
      have hperm := (deleteStep_contents ha).2.2
      rw [Step.contents, Step.entitiesOf, Step.entitiesOf, List.append_nil] at hperm
      exact .inr hperm
  | moveStep scope source target => obtain ⟨a, -, rfl, -⟩ := settle_eq_ok h; exact .inl rfl
  | renumber => cases h; exact .inl rfl
  | setText id text => obtain ⟨a, -, rfl, -⟩ := settle_eq_ok h; exact .inl rfl
  | setRule id rule => obtain ⟨a, -, rfl, -⟩ := settle_eq_ok h; exact .inl rfl
  | setCitations id addresses => obtain ⟨a, -, rfl, -⟩ := settle_eq_ok h; exact .inl rfl
  | setGoalCitation id address => obtain ⟨a, -, rfl, -⟩ := settle_eq_ok h; exact .inl rfl

theorem run_nodup {s : Sheet} (c : Command) (h : (s.entities.map Entity.id).Nodup) :
    ((c.run s).2.entities.map Entity.id).Nodup := by
  have hout := run_handsOut s c
  have hall : (c.handed s ++ s.entities.map Entity.id).Nodup := by
    refine List.nodup_append.2 ⟨nodup_of_increasing hout.increasing, h, ?_⟩
    rintro i hi j hj rfl
    exact hout.notMem i hi hj
  obtain ⟨l, hperm, hsub⟩ := hout.accounted
  exact hperm.nodup_iff.1 (hall.sublist hsub)

/-- What a command has taken off a sheet with distinct node ids was there and is gone. -/
theorem removed_notMem {s t : Sheet} {c : Command} {r : Reply} (hs : (s.entities.map Entity.id).Nodup)
    (h : c.run s = (.ok r, t)) {e : Entity} (he : e ∈ r.removed) :
    e.id ∈ s.entities.map Entity.id ∧ e.id ∉ t.entities.map Entity.id := by
  rcases run_removed h with hnone | hperm
  · rw [hnone] at he
    cases he
  · have hids : (r.removed.map Entity.id ++ t.entities.map Entity.id).Perm
        (s.entities.map Entity.id) := by
      have := hperm.map Entity.id
      rwa [List.map_append, map_id_contents, map_id_contents, List.map_map,
        show Entity.id ∘ Entity.content = Entity.id from funext Entity.id_content] at this
    have hmem : e.id ∈ r.removed.map Entity.id := List.mem_map_of_mem he
    refine ⟨hids.subset (List.mem_append_left _ hmem), fun hin => ?_⟩
    have hnodup := hids.nodup_iff.2 hs
    exact (List.nodup_append.1 hnodup).2.2 _ hmem _ hin rfl

/-- What a command has taken off a sheet in good order is gone, and its node id is spent. -/
theorem removed_gone {s t : Sheet} {c : Command} {r : Reply} (hs : s.Invariant)
    (h : c.run s = (.ok r, t)) {e : Entity} (he : e ∈ r.removed) :
    e.id.val < t.nextId ∧ e.id ∉ t.entities.map Entity.id := by
  have hlater : s.nextId ≤ t.nextId := by
    have := (run_handsOut s c).later
    rwa [h] at this
  obtain ⟨hthere, hgone⟩ := removed_notMem hs.distinct h he
  obtain ⟨e', he', hid⟩ := List.mem_map.1 hthere
  refine ⟨?_, hgone⟩
  rw [← hid]
  exact Nat.lt_of_lt_of_le (hs.below e' he') hlater

/-! ## Histories -/

theorem nextId_le_of_mem_handedAll (cs : List Command) :
    ∀ {s : Sheet} {id : NodeId}, id ∈ handedAll s cs → s.nextId ≤ id.val := by
  induction cs with
  | nil => intro s id h; cases h
  | cons c cs ih =>
      intro s id h
      have hstep := run_handsOut s c
      rcases List.mem_append.1 h with h | h
      · exact hstep.fresh id h
      · exact Nat.le_trans hstep.later (ih h)

theorem increasing_handedAll (cs : List Command) :
    ∀ s : Sheet, (handedAll s cs).Pairwise fun i j => i.val < j.val := by
  induction cs with
  | nil => intro s; exact .nil
  | cons c cs ih =>
      intro s
      have hstep := run_handsOut s c
      refine List.pairwise_append.2 ⟨hstep.increasing, ih _, ?_⟩
      intro i hi j hj
      exact Nat.lt_of_lt_of_le (hstep.taken i hi) (nextId_le_of_mem_handedAll cs hj)

theorem nodup_handedAll (cs : List Command) (s : Sheet) : (handedAll s cs).Nodup :=
  nodup_of_increasing (increasing_handedAll cs s)

/-- What is on the sheet after a history was there before it or has been handed out along it. -/
theorem mem_handedAll (cs : List Command) :
    ∀ {s : Sheet} {id : NodeId}, id ∈ (runAll s cs).entities.map Entity.id →
      id ∈ handedAll s cs ∨ id ∈ s.entities.map Entity.id := by
  induction cs with
  | nil => intro s id h; exact .inr h
  | cons c cs ih =>
      intro s id h
      rcases ih h with h | h
      · exact .inl (List.mem_append_right _ h)
      · rcases List.mem_append.1 ((run_handsOut s c).accounted.subset h) with h | h
        · exact .inl (List.mem_append_left _ h)
        · exact .inr h

theorem gone_runAll {s : Sheet} {id : NodeId} (hlt : id.val < s.nextId)
    (hgone : id ∉ s.entities.map Entity.id) (cs : List Command) :
    id ∉ (runAll s cs).entities.map Entity.id := by
  intro h
  rcases mem_handedAll cs h with h | h
  · exact absurd hlt (Nat.not_lt.2 (nextId_le_of_mem_handedAll cs h))
  · exact hgone h

theorem runAll_append (s : Sheet) (cs ds : List Command) :
    runAll s (cs ++ ds) = runAll (runAll s cs) ds :=
  List.foldl_append

end Command

end ProofSheet
