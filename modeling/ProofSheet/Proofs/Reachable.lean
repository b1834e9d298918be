/-
# Sheets that edits lead to

What holds of a sheet after any history of edits, made one by one, each of which may fail.  Node ids
are distinct and all handed out; the sheet is numbered; the reading of every line is that of its
text; and no assumption of a subproof has a rule or cites anything.

The invariant is kept by each of the ways in which a command changes a sheet, hence by every command,
hence by every history.
-/
import ProofSheet.Session
import ProofSheet.Proofs.Change

namespace ProofSheet

namespace Sheet

/-- What holds of a sheet between two edits. -/
structure Invariant (s : Sheet) : Prop where
  /-- No two things have the same node id. -/
  distinct : (s.entities.map Entity.id).Nodup
  /-- Every node id has been handed out. -/
  below : ∀ e ∈ s.entities, e.id.val < s.nextId
  /-- Every thing has the address that numbering gives it. -/
  numbered : s.renumber = s
  /-- The reading of every line is that of its text. -/
  faithful : ∀ e ∈ s.entities, e.Faithful
  /-- Every assumption of a subproof is without a rule and without citations. -/
  bare : ∀ e ∈ s.entities, e.Bare

theorem map_id_contents (s : Sheet) : s.contents.map Entity.id = s.entities.map Entity.id := by
  rw [contents, List.map_map]
  exact List.map_congr_left fun e _ => e.id_content

/-- A property that does not depend on addresses and bodies can be read off the contents. -/
theorem forall_mem_contents {s : Sheet} {P : Entity → Prop} (hP : ∀ e, P e.content ↔ P e) :
    (∀ e ∈ s.contents, P e) ↔ ∀ e ∈ s.entities, P e := by
  rw [contents, List.forall_mem_map]
  exact forall₂_congr fun e _ => hP e

theorem invariant_empty : Invariant {} :=
  ⟨List.nodup_nil, by simp [entities, Step.entitiesOf], rfl, by simp [entities, Step.entitiesOf],
    by simp [entities, Step.entitiesOf]⟩

/-! ## One change -/

theorem Invariant.kept {s : Sheet} {n : Nat} (h : s.Invariant) (hn : s.nextId ≤ n) :
    Invariant { s with nextId := n } where
  distinct := h.distinct
  below := fun e he => Nat.lt_of_lt_of_le (h.below e he) hn
  numbered := congrArg (fun t : Sheet => { t with nextId := n }) h.numbered
  faithful := h.faithful
  bare := h.bare

/-- New node ids are no smaller than any that was handed out, so they are none of the old ones. -/
theorem Invariant.nodup_news {s : Sheet} {n : Nat} {news : List Entity} (h : s.Invariant)
    (hnews : News s n news) : ((news ++ s.contents).map Entity.id).Nodup := by
  rw [List.map_append, map_id_contents, List.nodup_append]
  refine ⟨hnews.distinct, h.distinct, ?_⟩
  intro i hi j hj hij
  obtain ⟨e, he, rfl⟩ := List.mem_map.1 hi
  obtain ⟨e', he', rfl⟩ := List.mem_map.1 hj
  have hfresh := (hnews.fresh e he).1
  have hold := lt_freshId he'
  rw [hij] at hfresh
  exact absurd hold (Nat.not_lt.2 hfresh)

theorem Invariant.rearranged {s t : Sheet} {news : List Entity} (h : s.Invariant)
    (hnews : News s t.nextId news) (hsub : t.contents.Subperm (news ++ s.contents)) :
    t.renumber.Invariant := by
  -- what is on the new sheet was on the old one or is new
  have hmem : ∀ e ∈ t.renumber.contents, e ∈ news ∨ e ∈ s.contents := by
    intro e he
    rw [contents_renumber] at he
    exact List.mem_append.1 (hsub.subset he)
  constructor
  · rw [← map_id_contents, contents_renumber]
    obtain ⟨l, hperm, hl⟩ := hsub
    have hnodup := (h.nodup_news hnews).sublist (hl.map Entity.id)
    exact (hperm.map Entity.id).nodup_iff.1 hnodup
  · refine (forall_mem_contents (P := fun e => e.id.val < t.nextId) fun e => by simp).1 ?_
    intro e he
    rcases hmem e he with hn | ho
    · exact (hnews.fresh e hn).2
    · have hbelow := (forall_mem_contents (P := fun e => e.id.val < s.nextId) fun e => by simp).2 h.below
      exact Nat.lt_of_lt_of_le (hbelow e ho) hnews.later
  · exact numbered_renumber t
  · refine (forall_mem_contents fun e => Entity.faithful_content).1 ?_
    intro e he
    rcases hmem e he with hn | ho
    · exact (hnews.sound e hn).1
    · exact (forall_mem_contents fun e => Entity.faithful_content).2 h.faithful e ho
  · refine (forall_mem_contents fun e => Entity.bare_content).1 ?_
    intro e he
    rcases hmem e he with hn | ho
    · exact (hnews.sound e hn).2
    · exact (forall_mem_contents fun e => Entity.bare_content).2 h.bare e ho

theorem Invariant.revised {s : Sheet} {id : NodeId} {l : Line} (h : s.Invariant) (r : Revision)
    (hl : s.line? id = some l) : (s.setLine id (l.revise r)).Invariant := by
  have hrev := setLine_revised r hl
  have hmem := exists_of_forall₂ hrev
  have hids : (s.setLine id (l.revise r)).entities.map Entity.id = s.entities.map Entity.id :=
    map_eq_of_forall₂ (fun e e' hr => hr.id_eq) hrev
  constructor
  · rw [hids]
    exact h.distinct
  · intro e' he'
    obtain ⟨e, he, hr⟩ := hmem e' he'
    rw [hr.id_eq, nextId_setLine]
    exact h.below e he
  · exact numbered_setLine r h.numbered hl
  · intro e' he'
    obtain ⟨e, he, hr⟩ := hmem e' he'
    exact hr.faithful (h.faithful e he)
  · intro e' he'
    obtain ⟨e, he, hr⟩ := hmem e' he'
    exact hr.bare (h.bare e he)

theorem Change.invariant {s t : Sheet} (hc : Change s t) (h : s.Invariant) : t.Invariant := by
  cases hc with
  | kept hn => exact h.kept hn
  | rearranged hnews hsub => exact h.rearranged hnews hsub
  | revised r hl => exact h.revised r hl

end Sheet

/-! ## Histories -/

theorem Command.runAll_invariant (cs : List Command) :
    ∀ {s : Sheet}, s.Invariant → (runAll s cs).Invariant := by
  induction cs with
  | nil => intro s h; exact h
  | cons c cs ih => intro s h; exact ih ((run_change s c).invariant h)

theorem Sheet.Reachable.invariant {s : Sheet} (h : s.Reachable) : s.Invariant := by
  obtain ⟨cs, rfl⟩ := h
  exact Command.runAll_invariant cs Sheet.invariant_empty

namespace Session

/-- What can be done in a session to its sheet: an edit, typing into a line, and new settings, which
decide how typing is taken. -/
inductive Action where
  | edit (c : Command)
  | type (id : NodeId) (typed : String)
  | configure (config : Config)

def act (s : Session) : Action → Session
  | .edit c => (s.run c).2
  | .type id typed => (s.editText id typed).2
  | .configure config => { s with config }

def actAll (s : Session) (actions : List Action) : Session := actions.foldl act s

theorem act_invariant (s : Session) (a : Action) (h : s.sheet.Invariant) :
    (s.act a).sheet.Invariant := by
  cases a with
  | edit c => exact (Command.run_change s.sheet c).invariant h
  | type id typed =>
      exact (Command.run_change s.sheet (.setText id (s.storedText typed))).invariant h
  | configure config => exact h

theorem actAll_invariant (actions : List Action) :
    ∀ {s : Session}, s.sheet.Invariant → (s.actAll actions).sheet.Invariant := by
  induction actions with
  | nil => intro s h; exact h
  | cons a actions ih => intro s h; exact ih (s.act_invariant a h)

/-- Whatever is done in a session that begins with an empty sheet, and whatever of it fails, its
sheet is in good order, and nothing on it is without an address. -/
theorem sheet_invariant (config : Config) (rules : RuleBook) (actions : List Action) :
    (actAll { config, rules } actions).sheet.Invariant ∧
      ∀ e ∈ (actAll { config, rules } actions).sheet.entities, e.number ≠ none := by
  have h : (actAll { config, rules } actions).sheet.Invariant :=
    actAll_invariant actions Sheet.invariant_empty
  exact ⟨h, fun e he => Sheet.Numbered.ne_none h.numbered he⟩

end Session

end ProofSheet
