/-
# Revising a line

A line edit looks for a line, changes one thing about it and puts it back where it was found.  What
can be changed is a `Revision`.  Seen from the list of entities, a revision replaces one line by the
revised line, and the subproofs around it by themselves with another body; everything keeps its
place, its node id and its address (`setLine_revised`).
-/
import Mathlib.Data.List.Forall2
import ProofSheet.Sheet.Line
import ProofSheet.Proofs.Attempt
import ProofSheet.Proofs.Numbering

namespace ProofSheet

/-- A change of one line: its text, its rule, what it cites. -/
inductive Revision where
  | text (text : String)
  | rule (rule : String)
  | citations (citations : List NodeId)
  | goalCitation (target : NodeId)

namespace Line

/-- The line after a revision.  A revision that its kind has no place for changes nothing. -/
def revise : Revision → Line → Line
  | .text text, l => l.withText text (Reading.ofText text)
  | .rule rule, .statement s => .statement { s with rule }
  | .citations citations, .statement s => .statement { s with citations }
  | .goalCitation target, .goal g => .goal { g with citation := some target }
  | _, l => l

def entity : Line → Entity
  | .premise p => .premise p
  | .goal g => .goal g
  | .statement s => .statement s
  | .assumption s => .statement s

theorem id_revise (r : Revision) (l : Line) : (l.revise r).entity.id = l.entity.id := by
  cases r <;> cases l <;> rfl

def statement? : Line → Option Statement
  | .statement s => some s
  | .assumption s => some s
  | _ => none

theorem revise_premise (r : Revision) (p : Premise) : ∃ p', revise r (.premise p) = .premise p' ∧
    p'.id = p.id ∧ p'.number = p.number := by
  cases r <;> exact ⟨_, rfl, rfl, rfl⟩

theorem revise_goal (r : Revision) (g : Goal) : ∃ g', revise r (.goal g) = .goal g' ∧
    g'.id = g.id ∧ g'.number = g.number := by
  cases r <;> exact ⟨_, rfl, rfl, rfl⟩

theorem revise_statement (r : Revision) (s : Statement) :
    ∃ s', revise r (.statement s) = .statement s' ∧ s'.id = s.id ∧ s'.number = s.number := by
  cases r <;> exact ⟨_, rfl, rfl, rfl⟩

theorem revise_assumption (r : Revision) (s : Statement) :
    ∃ s', revise r (.assumption s) = .assumption s' ∧ s'.id = s.id ∧ s'.number = s.number := by
  cases r <;> exact ⟨_, rfl, rfl, rfl⟩

end Line

/-- `Revised r e e'`: in a sheet where one line is revised by `r`, the thing `e` has become `e'`. -/
inductive Entity.Revised (r : Revision) : Entity → Entity → Prop
  | kept (e : Entity) : Revised r e e
  | line (l : Line) : Revised r l.entity (l.revise r).entity
  | opened {id : NodeId} {a a' : Statement} {body : List Step} {n : Option Address} :
      Line.revise r (.assumption a) = .assumption a' →
      Revised r (.subproof id a body n) (.subproof id a' body n)
  | around {id : NodeId} {a : Statement} {body body' : List Step} {n : Option Address} :
      Revised r (.subproof id a body n) (.subproof id a body' n)

theorem Entity.Revised.of_eq {r : Revision} {l l' : Line} (h : l.revise r = l') :
    Revised r l.entity l'.entity :=
  h ▸ .line l

theorem Entity.Revised.id_eq {r : Revision} {e e' : Entity} (h : Revised r e e') : e'.id = e.id := by
  cases h with
  | kept => rfl
  | line l => exact l.id_revise r
  | opened => rfl
  | around => rfl

theorem forall₂_kept (r : Revision) (es : List Entity) :
    List.Forall₂ (Entity.Revised r) es es :=
  List.forall₂_same.2 fun e _ => .kept e

/-! ## Lines among the steps -/

namespace Step

variable {id : NodeId}

theorem lineIn?_line (s : Statement) (ss : List Step) :
    lineIn? id (.line s :: ss) = if s.id = id then some (.statement s) else lineIn? id ss := by
  by_cases h : s.id = id <;> simp [lineIn?, line?, h]

theorem lineIn?_subproof (sid : NodeId) (a : Statement) (body : List Step) (n : Option Address)
    (ss : List Step) :
    lineIn? id (.subproof sid a body n :: ss) =
      if a.id = id then some (.assumption a) else (lineIn? id body).or (lineIn? id ss) := by
  by_cases h : a.id = id
  · simp [lineIn?, line?, h]
  · cases hb : lineIn? id body <;> simp [lineIn?, line?, h, hb]

theorem setStatementIn_line (new s : Statement) (ss : List Step) :
    setStatementIn id new (.line s :: ss) =
      if s.id = id then .line new :: ss else .line s :: setStatementIn id new ss := by
  by_cases h : s.id = id <;> simp [setStatementIn, setStatement, line?, h]

theorem setStatementIn_subproof (new : Statement) (sid : NodeId) (a : Statement) (body : List Step)
    (n : Option Address) (ss : List Step) :
    setStatementIn id new (.subproof sid a body n :: ss) =
      if a.id = id then .subproof sid new body n :: ss
      else if (lineIn? id body).isSome then .subproof sid a (setStatementIn id new body) n :: ss
      else .subproof sid a body n :: setStatementIn id new ss := by
  by_cases h : a.id = id
  · simp [setStatementIn, setStatement, line?, h]
  · cases hb : lineIn? id body <;> simp [setStatementIn, setStatement, line?, h, hb]

/-- Putting a revised line back revises the list of entities in one place. -/
theorem setStatementIn_revised (r : Revision) (ss : List Step) :
    ∀ {l : Line} {new : Statement}, lineIn? id ss = some l → (l.revise r).statement? = some new →
      List.Forall₂ (Entity.Revised r) (entitiesOf ss) (entitiesOf (setStatementIn id new ss)) := by
  induction ss using forestInduction with
  | nil =>
      intro l new h
      cases h
  | line s ss ih =>
      intro l new h hnew
      rw [lineIn?_line] at h
      rw [setStatementIn_line]
      split at h
      · rename_i hid
        cases h
        obtain ⟨s', hs, -⟩ := Line.revise_statement r s
        rw [hs] at hnew
        cases hnew
        rw [if_pos hid]
        exact .cons (.of_eq hs) (forall₂_kept r _)
      · rename_i hid
        rw [if_neg hid]
        exact .cons (.kept _) (ih h hnew)
  | subproof sid a body n ss ihb ih =>
      intro l new h hnew
      rw [lineIn?_subproof] at h
      rw [setStatementIn_subproof]
      split at h
      · rename_i hid
        cases h
        obtain ⟨a', ha, -⟩ := Line.revise_assumption r a
        rw [ha] at hnew
        cases hnew
        rw [if_pos hid]
        exact .cons (.opened ha) (.cons (.of_eq ha) (forall₂_kept r _))
      · rename_i hid
        rw [if_neg hid]
        cases hb : lineIn? id body with
        | some l' =>
            rw [hb, Option.some_or] at h
            cases h
            have hbody := List.rel_append (ihb hb hnew) (forall₂_kept r (entitiesOf ss))
            exact .cons .around (.cons (.kept _) hbody)
        | none =>
            rw [hb, Option.none_or] at h
            have hrest := List.rel_append (forall₂_kept r (entitiesOf body)) (ih h hnew)
            exact .cons (.kept _) (.cons (.kept _) hrest)

/-- Putting back a line with the address it had leaves a numbered forest numbered. -/
theorem numbered_setStatementIn {new : Statement} (ss : List Step) :
    ∀ {slot : Nat → Address} {l : Line} {old : Statement}, Numbered slot ss →
      lineIn? id ss = some l → l.statement? = some old → new.number = old.number →
      Numbered slot (setStatementIn id new ss) := by
  induction ss using forestInduction with
  | nil =>
      intro slot l old _ h
      cases h
  | line s ss ih =>
      intro slot l old hss h hold hnum
      obtain ⟨hs, hss⟩ := numbered_line.1 hss
      rw [lineIn?_line] at h
      rw [setStatementIn_line]
      split at h
      · rename_i hid
        cases h
        cases hold
        rw [if_pos hid]
        exact numbered_line.2 ⟨hnum.trans hs, hss⟩
      · rename_i hid
        rw [if_neg hid]
        exact numbered_line.2 ⟨hs, ih hss h hold hnum⟩
  | subproof sid a body n ss ihb ih =>
      intro slot l old hss h hold hnum
      obtain ⟨hn, ha, hbody, hss⟩ := numbered_subproof.1 hss
      rw [lineIn?_subproof] at h
      rw [setStatementIn_subproof]
      split at h
      · rename_i hid
        cases h
        cases hold
        rw [if_pos hid]
        exact numbered_subproof.2 ⟨hn, hnum.trans ha, hbody, hss⟩
      · rename_i hid
        rw [if_neg hid]
        cases hb : lineIn? id body with
        | some l' =>
            rw [hb, Option.some_or] at h
            cases h
            exact numbered_subproof.2 ⟨hn, ha, ihb hbody hb hold hnum, hss⟩
        | none =>
            rw [hb, Option.none_or] at h
            exact numbered_subproof.2 ⟨hn, ha, hbody, ih hss h hold hnum⟩

theorem length_setStatementIn (new : Statement) (ss : List Step) :
    (setStatementIn id new ss).length = ss.length := by
  induction ss with
  | nil => rfl
  | cons s ss ih =>
      rw [setStatementIn]
      split
      · rfl
      · rw [List.length_cons, List.length_cons, ih]

theorem statement?_of_lineIn? (ss : List Step) :
    ∀ {l : Line}, lineIn? id ss = some l → (∃ s, l = .statement s) ∨ ∃ s, l = .assumption s := by
  induction ss using forestInduction with
  | nil => intro l h; cases h
  | line s ss ih =>
      intro l h
      rw [lineIn?_line] at h
      split at h
      · cases h; exact .inl ⟨s, rfl⟩
      · exact ih h
  | subproof sid a body n ss ihb ih =>
      intro l h
      rw [lineIn?_subproof] at h
      split at h
      · cases h; exact .inr ⟨a, rfl⟩
      · rcases Option.or_eq_some_iff.1 h with hb | ⟨-, hs⟩
        · exact ihb hb
        · exact ih hs

end Step

/-! ## Lines of a sheet -/

namespace Sheet

theorem forall₂_replaceFirst {α : Type} {R : α → α → Prop} {fits : α → Bool} {a new : α}
    (hR : ∀ x, R x x) (hnew : R a new) :
    ∀ {l : List α}, l.find? fits = some a → List.Forall₂ R l (replaceFirst fits new l)
  | [], h => by cases h
  | x :: l, h => by
      rw [List.find?_cons] at h
      rw [replaceFirst]
      cases hx : fits x with
      | true =>
          rw [hx] at h
          cases h
          exact .cons hnew (List.forall₂_same.2 fun y _ => hR y)
      | false =>
          rw [hx] at h
          exact .cons (hR x) (forall₂_replaceFirst hR hnew h)

theorem length_replaceFirst {α : Type} (fits : α → Bool) (new : α) (l : List α) :
    (replaceFirst fits new l).length = l.length := by
  induction l with
  | nil => rfl
  | cons x l ih =>
      rw [replaceFirst]
      split
      · rfl
      · rw [List.length_cons, List.length_cons, ih]

/-- The three places where a line is looked for, in this order. -/
theorem line?_eq_some {s : Sheet} {id : NodeId} {l : Line} (h : s.line? id = some l) :
    (∃ p, l = .premise p ∧ s.premises.find? (·.id == id) = some p) ∨
    (∃ g, l = .goal g ∧ s.goals.find? (·.id == id) = some g) ∨
    (∃ st, l = .statement st ∧ Step.lineIn? id s.steps = some l) ∨
    (∃ st, l = .assumption st ∧ Step.lineIn? id s.steps = some l) := by
  unfold line? at h
  split at h
  · rename_i p hp
    cases h
    exact .inl ⟨p, rfl, hp⟩
  · split at h
    · rename_i g hg
      cases h
      exact .inr (.inl ⟨g, rfl, hg⟩)
    · rcases Step.statement?_of_lineIn? s.steps h with ⟨st, rfl⟩ | ⟨st, rfl⟩
      · exact .inr (.inr (.inl ⟨st, rfl, h⟩))
      · exact .inr (.inr (.inr ⟨st, rfl, h⟩))

theorem setLine_revised (r : Revision) {s : Sheet} {id : NodeId} {l : Line}
    (h : s.line? id = some l) :
    List.Forall₂ (Entity.Revised r) s.entities (s.setLine id (l.revise r)).entities := by
  have kept := forall₂_kept r
  obtain ⟨p, rfl, hp⟩ | ⟨g, rfl, hg⟩ | ⟨st, rfl, hst⟩ | ⟨st, rfl, hst⟩ := line?_eq_some h
  · obtain ⟨p', hr, -⟩ := Line.revise_premise r p
    rw [hr]
    have hps := forall₂_replaceFirst (R := fun x y => Entity.Revised r (.premise x) (.premise y))
      (fun x => .kept _) (.of_eq hr) hp
    refine List.rel_append (List.rel_append ?_ (kept _)) (kept _)
    exact List.forall₂_map_left_iff.2 (List.forall₂_map_right_iff.2 hps)
  · obtain ⟨g', hr, -⟩ := Line.revise_goal r g
    rw [hr]
    have hgs := forall₂_replaceFirst (R := fun x y => Entity.Revised r (.goal x) (.goal y))
      (fun x => .kept _) (.of_eq hr) hg
    refine List.rel_append (kept _) ?_
    exact List.forall₂_map_left_iff.2 (List.forall₂_map_right_iff.2 hgs)
  · obtain ⟨st', hr, -⟩ := Line.revise_statement r st
    have hsteps := Step.setStatementIn_revised r s.steps hst (by rw [hr]; rfl)
    rw [hr]
    exact List.rel_append (List.rel_append (kept _) hsteps) (kept _)
  · obtain ⟨st', hr, -⟩ := Line.revise_assumption r st
    have hsteps := Step.setStatementIn_revised r s.steps hst (by rw [hr]; rfl)
    rw [hr]
    exact List.rel_append (List.rel_append (kept _) hsteps) (kept _)

theorem numbered_replaceFirst {α : Type} {number : α → Option Address} (slot : Nat → Address)
    {fits : α → Bool} {a new : α} {l : List α} (hf : l.find? fits = some a)
    (hnew : number new = number a)
    (h : ∀ (i : Nat) (x : α), l[i]? = some x → number x = some (slot i)) :
    ∀ (i : Nat) (x : α), (replaceFirst fits new l)[i]? = some x → number x = some (slot i) := by
  have hmap : (replaceFirst fits new l).map number = l.map number :=
    map_eq_of_forall₂ (fun _ _ hxy => hxy)
      (forall₂_replaceFirst (R := fun x y => number y = number x) (fun _ => rfl) hnew hf)
  intro i x hx
  have hi := congrArg (fun ns => ns[i]?) hmap
  simp only [List.getElem?_map, hx, Option.map_some] at hi
  obtain ⟨y, hy, hxy⟩ := Option.map_eq_some_iff.1 hi.symm
  rw [← hxy]
  exact h i y hy

theorem numbered_setLine (r : Revision) {s : Sheet} {id : NodeId} {l : Line} (hs : s.Numbered)
    (h : s.line? id = some l) : (s.setLine id (l.revise r)).Numbered := by
  obtain ⟨hps, hss, hgs⟩ := numbered_iff.1 hs
  obtain ⟨p, rfl, hp⟩ | ⟨g, rfl, hg⟩ | ⟨st, rfl, hst⟩ | ⟨st, rfl, hst⟩ := line?_eq_some h
  · obtain ⟨p', hr, -, hn⟩ := Line.revise_premise r p
    rw [hr, setLine, numbered_iff]
    simp only [length_replaceFirst]
    exact ⟨numbered_replaceFirst (fun i => .top (i + 1)) hp hn hps, hss, hgs⟩
  · obtain ⟨g', hr, -, hn⟩ := Line.revise_goal r g
    rw [hr, setLine, numbered_iff]
    exact ⟨hps, hss, numbered_replaceFirst
      (fun j => .top (s.premises.length + s.steps.length + j + 1)) hg hn hgs⟩
  · obtain ⟨st', hr, -, hn⟩ := Line.revise_statement r st
    rw [hr, setLine, numbered_iff]
    simp only [Step.length_setStatementIn]
    exact ⟨hps, Step.numbered_setStatementIn s.steps hss hst rfl hn, hgs⟩
  · obtain ⟨st', hr, -, hn⟩ := Line.revise_assumption r st
    rw [hr, setLine, numbered_iff]
    simp only [Step.length_setStatementIn]
    exact ⟨hps, Step.numbered_setStatementIn s.steps hss hst rfl hn, hgs⟩

theorem nextId_setLine (s : Sheet) (id : NodeId) (l : Line) : (s.setLine id l).nextId = s.nextId := by
  cases l <;> rfl

end Sheet

end ProofSheet
