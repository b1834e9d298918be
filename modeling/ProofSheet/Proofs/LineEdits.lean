/-
# Line edits as functions on every line

A line edit looks for one line and puts it back revised.  On a sheet where no two lines share a node id
it makes no difference where it looks: the edit comes to the same as going through all lines and revising
those with that id (`Sheet.setLine_eq_reviseAt`).  In this form nothing is looked for, so that what a line
edit leaves alone can be read off, and so that line edits can be exchanged with other edits.

The lines of a sheet are listed by `Sheet.lines`, and a look-up finds a line exactly if it is on the list
(`Sheet.line?_eq_some_iff`).
-/
import ProofSheet.Proofs.Faults
import ProofSheet.Proofs.Scopes

namespace ProofSheet

/-! ## Revisions, kind by kind -/

namespace Revision

def premise : Revision → Premise → Premise
  | .text typed, p => { p with text := typed, reading := .ofText typed }
  | _, p => p

def goal : Revision → Goal → Goal
  | .text typed, g => { g with text := typed, reading := .ofText typed }
  | .goalCitation target, g => { g with citation := some target }
  | _, g => g

def statement : Revision → Statement → Statement
  | .text typed, s => { s with text := typed, reading := .ofText typed }
  | .rule name, s => { s with rule := name }
  | .citations cited, s => { s with citations := cited }
  | _, s => s

/-- What a revision makes of an assumption, which takes no rule and no citations. -/
def assumption : Revision → Statement → Statement
  | .text typed, s => { s with text := typed, reading := .ofText typed }
  | _, s => s

variable (r : Revision)

theorem revise_premise (p : Premise) : Line.revise r (.premise p) = .premise (r.premise p) := by
  cases r <;> rfl

theorem revise_goal (g : Goal) : Line.revise r (.goal g) = .goal (r.goal g) := by
  cases r <;> rfl

theorem revise_statement (s : Statement) :
    Line.revise r (.statement s) = .statement (r.statement s) := by
  cases r <;> rfl

theorem revise_assumption (s : Statement) :
    Line.revise r (.assumption s) = .assumption (r.assumption s) := by
  cases r <;> rfl

end Revision

def Line.id : Line → NodeId
  | .premise p => p.id
  | .goal g => g.id
  | .statement s => s.id
  | .assumption s => s.id

@[simp] theorem Line.id_statement (s : Statement) : (Line.statement s).id = s.id := rfl

@[simp] theorem Line.id_assumption (s : Statement) : (Line.assumption s).id = s.id := rfl

theorem Line.id_entity (l : Line) : l.entity.id = l.id := by
  cases l <;> rfl

/-- Lines are things on the sheet, in the same order. -/
theorem Line.ids_sublist {ls : List Line} {es : List Entity}
    (h : ls.map Line.entity = es.filter Entity.isLine) :
    (ls.map Line.id).Sublist (es.map Entity.id) := by
  have hids : ls.map Line.id = (es.filter Entity.isLine).map Entity.id := by
    rw [← h, List.map_map]
    exact List.map_congr_left fun l _ => l.id_entity.symm
  rw [hids]
  exact List.filter_sublist.map Entity.id

/-- What a function on things with node ids makes of the thing with a given id; others stay. -/
def atId {α : Type} (key : α → NodeId) (id : NodeId) (f : α → α) (x : α) : α :=
  if key x = id then f x else x

namespace Step

mutual

def reviseAt (id : NodeId) (r : Revision) : Step → Step
  | .line s => .line (atId Statement.id id r.statement s)
  | .subproof sid a body n =>
    .subproof sid (atId Statement.id id r.assumption a) (reviseAllAt id r body) n

def reviseAllAt (id : NodeId) (r : Revision) : List Step → List Step
  | [] => []
  | s :: ss => s.reviseAt id r :: reviseAllAt id r ss

end

end Step

/-- The sheet with its lines of a given node id revised, and all else as it is. -/
def Sheet.reviseAt (id : NodeId) (r : Revision) (s : Sheet) : Sheet :=
  { s with
    premises := s.premises.map (atId Premise.id id r.premise)
    steps := Step.reviseAllAt id r s.steps
    goals := s.goals.map (atId Goal.id id r.goal) }

/-! ## Lists with distinct keys -/

section

variable {α : Type} {key : α → NodeId} {id : NodeId} {f : α → α} {l : List α} {a : α}

theorem mem_of_find? (h : l.find? (key · == id) = some a) : id ∈ l.map key := by
  have hkey : key a = id := by simpa using List.find?_some h
  exact hkey ▸ List.mem_map_of_mem (List.mem_of_find?_eq_some h)

theorem atId_eq_self (h : key a = id → f a = a) : atId key id f a = a :=
  ite_eq_right_iff.2 h

theorem map_atId_eq_self (h : ∀ x ∈ l, key x = id → f x = x) : l.map (atId key id f) = l :=
  (List.map_congr_left fun x hx => atId_eq_self (h x hx)).trans (List.map_id l)

theorem map_atId_of_notMem (f : α → α) (h : id ∉ l.map key) : l.map (atId key id f) = l :=
  map_atId_eq_self fun _ hx hid => absurd (hid ▸ List.mem_map_of_mem hx) h

/-- To replace the first with an id is to go through all, if no two have the same. -/
theorem Sheet.replaceFirst_eq_map :
    ∀ {l : List α} {a : α}, (l.map key).Nodup → l.find? (key · == id) = some a →
      replaceFirst (key · == id) (f a) l = l.map (atId key id f)
  | [], _, _, h => by cases h
  | x :: l, a, hnodup, h => by
      obtain ⟨hx, hl⟩ := List.nodup_cons.1 hnodup
      by_cases hid : key x = id
      · have hfits : (key x == id) = true := by simp [hid]
        rw [List.find?_cons, hfits] at h
        cases h
        rw [replaceFirst, if_pos hfits, List.map_cons, atId, if_pos hid,
          map_atId_of_notMem f (hid ▸ hx)]
      · have hfits : (key x == id) = false := by simp [hid]
        rw [List.find?_cons, hfits] at h
        rw [replaceFirst, if_neg (by simp [hid]), List.map_cons, atId, if_neg hid,
          replaceFirst_eq_map hl h]

end

/-! ## Lines among the steps -/

namespace Step

variable {id : NodeId} {r : Revision}

theorem reviseAllAt_eq_map (id : NodeId) (r : Revision) (ss : List Step) :
    reviseAllAt id r ss = ss.map (reviseAt id r) := by
  induction ss with
  | nil => rfl
  | cons s ss ih => rw [reviseAllAt, List.map_cons, ih]

theorem pointwise_reviseAt (id : NodeId) (r : Revision) : Pointwise (reviseAt id r) where
  line s := ⟨_, by rw [reviseAt]⟩
  subproof sid a n := ⟨sid, _, n, fun body => by rw [reviseAt, reviseAllAt_eq_map]⟩

theorem linesOf_append (ss ts : List Step) : linesOf (ss ++ ts) = linesOf ss ++ linesOf ts := by
  induction ss with
  | nil => rfl
  | cons s ss ih => rw [List.cons_append, linesOf, linesOf, ih, List.append_assoc]

theorem lineIn?_eq_find? (ss : List Step) : lineIn? id ss = (linesOf ss).find? (·.id == id) := by
  induction ss using forestInduction with
  | nil => rfl
  | line s ss ih =>
      rw [lineIn?_line, linesOf, lines, List.singleton_append, ih]
      by_cases h : s.id = id
      · rw [if_pos h, List.find?_cons_of_pos (by simpa using h)]
      · rw [if_neg h, List.find?_cons_of_neg (by simpa using h)]
  | subproof sid a body n ss ihb ih =>
      rw [lineIn?_subproof, linesOf, lines, List.cons_append, ihb, ih]
      by_cases h : a.id = id
      · rw [if_pos h, List.find?_cons_of_pos (by simpa using h)]
      · rw [if_neg h, List.find?_cons_of_neg (by simpa using h), List.find?_append]

theorem linesOf_reviseAllAt (id : NodeId) (r : Revision) (ss : List Step) :
    linesOf (reviseAllAt id r ss) = (linesOf ss).map (atId Line.id id (Line.revise r)) := by
  induction ss using forestInduction with
  | nil => rfl
  | line s ss ih =>
      rw [reviseAllAt, reviseAt, linesOf, linesOf, lines, lines, ih, List.map_append, List.map_singleton]
      by_cases h : s.id = id <;> simp [atId, r.revise_statement, h]
  | subproof sid a body n ss ihb ih =>
      rw [reviseAllAt, reviseAt, linesOf, linesOf, lines, lines, ihb, ih, List.map_append, List.map_cons]
      by_cases h : a.id = id <;> simp [atId, r.revise_assumption, h]

theorem reviseAllAt_eq_self (ss : List Step) :
    (∀ l ∈ linesOf ss, l.id = id → l.revise r = l) → reviseAllAt id r ss = ss := by
  induction ss using forestInduction with
  | nil => intro _; rfl
  | line s ss ih =>
      intro h
      rw [linesOf, lines, List.singleton_append, List.forall_mem_cons, r.revise_statement] at h
      obtain ⟨hs, hss⟩ := h
      rw [reviseAllAt, reviseAt, atId_eq_self fun e => Line.statement.inj (hs e), ih hss]
  | subproof sid a body n ss ihb ih =>
      intro h
      rw [linesOf, lines, List.cons_append, List.forall_mem_cons, List.forall_mem_append,
        r.revise_assumption] at h
      obtain ⟨ha, hbody, hss⟩ := h
      rw [reviseAllAt, reviseAt, atId_eq_self fun e => Line.assumption.inj (ha e), ihb hbody, ih hss]

theorem reviseAllAt_of_notMem (r : Revision) (ss : List Step) (h : id ∉ (linesOf ss).map Line.id) :
    reviseAllAt id r ss = ss :=
  reviseAllAt_eq_self ss fun _ hl hid => absurd (hid ▸ List.mem_map_of_mem hl) h

/-- Putting a revised line back is revising every line with its node id. -/
theorem setStatementIn_eq_reviseAllAt (ss : List Step) :
    ∀ {l : Line} {new : Statement}, ((linesOf ss).map Line.id).Nodup → lineIn? id ss = some l →
      (l.revise r).statement? = some new → setStatementIn id new ss = reviseAllAt id r ss := by
  induction ss using forestInduction with
  | nil =>
      intro l new _ h
      cases h
  | line s ss ih =>
      intro l new hnodup h hnew
      rw [linesOf, lines, List.map_append, List.map_singleton, List.singleton_append,
        List.nodup_cons] at hnodup
      rw [lineIn?_line] at h
      rw [setStatementIn_line, reviseAllAt, reviseAt]
      split at h
      · rename_i hid
        cases h
        rw [r.revise_statement] at hnew
        cases hnew
        rw [if_pos hid, atId, if_pos hid, reviseAllAt_of_notMem r ss (hid ▸ hnodup.1)]
      · rename_i hid
        rw [if_neg hid, atId, if_neg hid, ih hnodup.2 h hnew]
  | subproof sid a body n ss ihb ih =>
      intro l new hnodup h hnew
      rw [linesOf, lines, List.map_append, List.map_cons, List.cons_append, List.nodup_cons,
        List.mem_append, not_or] at hnodup
      obtain ⟨⟨habody, hass⟩, hrest⟩ := hnodup
      obtain ⟨hbody, hss, hdisjoint⟩ := List.nodup_append.1 hrest
      rw [lineIn?_subproof] at h
      rw [setStatementIn_subproof, reviseAllAt, reviseAt]
      split at h
      · rename_i hid
        cases h
        rw [r.revise_assumption] at hnew
        cases hnew
        rw [if_pos hid, atId, if_pos hid, reviseAllAt_of_notMem r body (hid ▸ habody),
          reviseAllAt_of_notMem r ss (hid ▸ hass)]
      · rename_i hid
        rw [if_neg hid, atId, if_neg hid]
        cases hb : lineIn? id body with
        | some l' =>
            have hmem : id ∈ (linesOf body).map Line.id := mem_of_find? (lineIn?_eq_find? body ▸ hb)
            rw [hb, Option.some_or] at h
            cases h
            rw [reviseAllAt_of_notMem r ss fun hin => hdisjoint _ hmem _ hin rfl, ihb hbody hb hnew]
            rfl
        | none =>
            have hnone : id ∉ (linesOf body).map Line.id := by
              rw [lineIn?_eq_find?, List.find?_eq_none] at hb
              intro hin
              obtain ⟨l', hl', rfl⟩ := List.mem_map.1 hin
              exact hb l' hl' (beq_self_eq_true _)
            rw [hb, Option.none_or] at h
            rw [reviseAllAt_of_notMem r body hnone, ih hss h hnew]
            rfl

end Step

/-! ## Lines of a sheet -/

namespace Sheet

variable {s : Sheet} {id : NodeId} {l : Line}

def lineIds (s : Sheet) : List NodeId := s.lines.map Line.id

theorem lineIds_eq (s : Sheet) : s.lineIds = s.premises.map Premise.id ++
    (Step.linesOf s.steps).map Line.id ++ s.goals.map Goal.id := by
  simp only [lineIds, lines, List.map_append, List.map_map]
  rfl

theorem lineIds_sublist (s : Sheet) : s.lineIds.Sublist (s.entities.map Entity.id) :=
  Line.ids_sublist s.map_entity_lines

theorem nodup_lineIds (h : (s.entities.map Entity.id).Nodup) : s.lineIds.Nodup :=
  h.sublist s.lineIds_sublist

/-- Premises are searched before goals and goals before steps, but among distinct ids the order does not
matter. -/
theorem line?_eq_find? (h : s.lineIds.Nodup) : s.line? id = s.lines.find? (·.id == id) := by
  rw [lineIds_eq] at h
  have hpremises : (s.premises.map Line.premise).find? (·.id == id) =
      (s.premises.find? (·.id == id)).map .premise := List.find?_map
  have hgoals : (s.goals.map Line.goal).find? (·.id == id) =
      (s.goals.find? (·.id == id)).map .goal := List.find?_map
  rw [lines, List.find?_append, List.find?_append, hpremises, hgoals, ← Step.lineIn?_eq_find?, line?]
  cases s.premises.find? (·.id == id) with
  | some p => rfl
  | none =>
      cases hg : s.goals.find? (·.id == id) with
      | none => simp
      | some g =>
          -- a goal with this id is the only line with it
          have hgoal : id ∈ s.goals.map Goal.id := mem_of_find? hg
          have hsteps : Step.lineIn? id s.steps = none := by
            rw [Step.lineIn?_eq_find?, List.find?_eq_none]
            intro l hl hid
            have hline : id ∈ (Step.linesOf s.steps).map Line.id :=
              eq_of_beq hid ▸ List.mem_map_of_mem hl
            exact (List.nodup_append.1 h).2.2 id (List.mem_append_right _ hline) id hgoal rfl
          rw [hsteps]
          rfl

theorem line?_eq_some_iff (h : s.lineIds.Nodup) :
    s.line? id = some l ↔ l ∈ s.lines ∧ l.id = id := by
  rw [line?_eq_find? h]
  constructor
  · intro hl
    exact ⟨List.mem_of_find?_eq_some hl, by simpa using List.find?_some hl⟩
  · rintro ⟨hl, rfl⟩
    exact find?_of_nodup h hl

theorem line?_eq_none_iff (h : s.lineIds.Nodup) : s.line? id = none ↔ id ∉ s.lineIds := by
  rw [line?_eq_find? h, List.find?_eq_none]
  simp [lineIds]

theorem lines_reviseAt (id : NodeId) (r : Revision) (s : Sheet) :
    (s.reviseAt id r).lines = s.lines.map (atId Line.id id (Line.revise r)) := by
  have hpremises : (s.premises.map (atId Premise.id id r.premise)).map Line.premise =
      (s.premises.map Line.premise).map (atId Line.id id (Line.revise r)) := by
    rw [List.map_map, List.map_map]
    refine List.map_congr_left fun p _ => ?_
    by_cases hp : p.id = id <;> simp [atId, Line.id, r.revise_premise, hp]
  have hgoals : (s.goals.map (atId Goal.id id r.goal)).map Line.goal =
      (s.goals.map Line.goal).map (atId Line.id id (Line.revise r)) := by
    rw [List.map_map, List.map_map]
    refine List.map_congr_left fun g _ => ?_
    by_cases hg : g.id = id <;> simp [atId, Line.id, r.revise_goal, hg]
  rw [lines, lines, List.map_append, List.map_append, ← hpremises, ← hgoals, ← Step.linesOf_reviseAllAt]
  rfl

theorem reviseAt_eq_self {r : Revision} (h : ∀ l ∈ s.lines, l.id = id → l.revise r = l) :
    s.reviseAt id r = s := by
  rw [lines, List.forall_mem_append, List.forall_mem_append, List.forall_mem_map,
    List.forall_mem_map] at h
  obtain ⟨⟨hpremises, hsteps⟩, hgoals⟩ := h
  have hps : s.premises.map (atId Premise.id id r.premise) = s.premises := by
    refine map_atId_eq_self fun p hp hid => ?_
    have hrevised := hpremises p hp hid
    rw [r.revise_premise] at hrevised
    exact Line.premise.inj hrevised
  have hgs : s.goals.map (atId Goal.id id r.goal) = s.goals := by
    refine map_atId_eq_self fun g hg hid => ?_
    have hrevised := hgoals g hg hid
    rw [r.revise_goal] at hrevised
    exact Line.goal.inj hrevised
  rw [reviseAt, hps, hgs, Step.reviseAllAt_eq_self s.steps hsteps]

theorem reviseAt_of_line?_eq_none (r : Revision) (h : s.lineIds.Nodup) (hl : s.line? id = none) :
    s.reviseAt id r = s :=
  reviseAt_eq_self fun _ hmem hid =>
    absurd (hid ▸ List.mem_map_of_mem hmem) ((line?_eq_none_iff h).1 hl)

theorem reviseAt_of_revise_eq {r : Revision} (h : s.lineIds.Nodup) (hl : s.line? id = some l)
    (hr : l.revise r = l) : s.reviseAt id r = s := by
  refine reviseAt_eq_self fun l' hmem hid => ?_
  have hsame : some l' = some l := ((line?_eq_some_iff h).2 ⟨hmem, hid⟩).symm.trans hl
  rw [Option.some.inj hsame, hr]

/-- On a sheet with distinct ids, putting a revised line back is revising every line with its id. -/
theorem setLine_eq_reviseAt (r : Revision) (h : s.lineIds.Nodup) (hl : s.line? id = some l) :
    s.setLine id (l.revise r) = s.reviseAt id r := by
  rw [lineIds_eq] at h
  obtain ⟨hfront, hgoals, hback⟩ := List.nodup_append.1 h
  obtain ⟨hpremises, hsteps, hmiddle⟩ := List.nodup_append.1 hfront
  -- the id is in one of the three parts, and the other two stay as they are
  have keepPremises (hin : id ∉ s.premises.map Premise.id) := map_atId_of_notMem r.premise hin
  have keepGoals (hin : id ∉ s.goals.map Goal.id) := map_atId_of_notMem r.goal hin
  have keepSteps (hin : id ∉ (Step.linesOf s.steps).map Line.id) :=
    Step.reviseAllAt_of_notMem r s.steps hin
  obtain ⟨p, rfl, hp⟩ | ⟨g, rfl, hg⟩ | ⟨st, rfl, hst⟩ | ⟨st, rfl, hst⟩ := line?_eq_some hl
  · have hin : id ∈ s.premises.map Premise.id := mem_of_find? hp
    rw [r.revise_premise, setLine, reviseAt, replaceFirst_eq_map hpremises hp,
      keepSteps fun hs => hmiddle _ hin _ hs rfl,
      keepGoals fun hg => hback _ (List.mem_append_left _ hin) _ hg rfl]
  · have hin : id ∈ s.goals.map Goal.id := mem_of_find? hg
    rw [r.revise_goal, setLine, reviseAt, replaceFirst_eq_map hgoals hg,
      keepSteps fun hs => hback _ (List.mem_append_right _ hs) _ hin rfl,
      keepPremises fun hp => hback _ (List.mem_append_left _ hp) _ hin rfl]
  · have hin : id ∈ (Step.linesOf s.steps).map Line.id :=
      mem_of_find? (Step.lineIn?_eq_find? s.steps ▸ hst)
    rw [r.revise_statement, setLine, reviseAt,
      Step.setStatementIn_eq_reviseAllAt s.steps hsteps hst (by rw [r.revise_statement]; rfl),
      keepPremises fun hp => hmiddle _ hp _ hin rfl,
      keepGoals fun hg => hback _ (List.mem_append_right _ hin) _ hg rfl]
  · have hin : id ∈ (Step.linesOf s.steps).map Line.id :=
      mem_of_find? (Step.lineIn?_eq_find? s.steps ▸ hst)
    rw [r.revise_assumption, setLine, reviseAt,
      Step.setStatementIn_eq_reviseAllAt s.steps hsteps hst (by rw [r.revise_assumption]; rfl),
      keepPremises fun hp => hmiddle _ hp _ hin rfl,
      keepGoals fun hg => hback _ (List.mem_append_right _ hin) _ hg rfl]

end Sheet

/-! ## Kinds of lines -/

/-- What a line is, whatever it says. -/
inductive LineKind where
  | premise
  | goal
  | statement
  | assumption
  deriving DecidableEq, Repr

def Line.kind : Line → LineKind
  | .premise _ => .premise
  | .goal _ => .goal
  | .statement _ => .statement
  | .assumption _ => .assumption

def Line.tag (l : Line) : NodeId × LineKind := (l.id, l.kind)

theorem Line.tag_revise (r : Revision) (l : Line) : (l.revise r).tag = l.tag := by
  cases r <;> cases l <;> rfl

theorem Step.tags_renumberAll (ss : List Step) : ∀ slot : Nat → Address,
    (linesOf (renumberAll slot ss)).map Line.tag = (linesOf ss).map Line.tag := by
  induction ss using forestInduction with
  | nil => intro slot; rfl
  | line s ss ih =>
      intro slot
      rw [renumberAll, renumber, linesOf, linesOf, List.map_append, List.map_append, ih]
      rfl
  | subproof id a body n ss ihb ih =>
      intro slot
      rw [renumberAll, renumber, linesOf, linesOf, lines, lines, List.map_append, List.map_append,
        List.map_cons, List.map_cons, ihb, ih]
      rfl

namespace Sheet

variable {s : Sheet} {id : NodeId} {k : LineKind}

/-- The node ids and kinds of the lines of a sheet, in its order. -/
def tags (s : Sheet) : List (NodeId × LineKind) := s.lines.map Line.tag

theorem tags_eq (s : Sheet) : s.tags = s.premises.map (fun p => (p.id, .premise)) ++
    (Step.linesOf s.steps).map Line.tag ++ s.goals.map fun g => (g.id, .goal) := by
  simp only [tags, lines, List.map_append, List.map_map]
  rfl

theorem tags_renumber (s : Sheet) : s.renumber.tags = s.tags := by
  have hp : s.renumber.premises.map (fun p => (p.id, LineKind.premise)) =
      s.premises.map fun p => (p.id, .premise) := by
    refine map_mapIdx_eq ?_ s.premises
    intro i p
    rfl
  have hg : s.renumber.goals.map (fun g => (g.id, LineKind.goal)) =
      s.goals.map fun g => (g.id, .goal) := by
    refine map_mapIdx_eq ?_ s.goals
    intro i g
    rfl
  have hs : (Step.linesOf s.renumber.steps).map Line.tag = (Step.linesOf s.steps).map Line.tag :=
    Step.tags_renumberAll s.steps _
  rw [tags_eq, hp, hg, hs, ← tags_eq]

theorem tags_reviseAt (id : NodeId) (r : Revision) (s : Sheet) : (s.reviseAt id r).tags = s.tags := by
  rw [tags, lines_reviseAt, List.map_map, tags]
  refine List.map_congr_left fun l _ => ?_
  show (atId Line.id id (Line.revise r) l).tag = l.tag
  rw [atId]
  split
  · exact l.tag_revise r
  · rfl

def kindOf? (s : Sheet) (id : NodeId) : Option LineKind := (s.line? id).map Line.kind

theorem kindOf?_eq_some_iff (h : s.lineIds.Nodup) : s.kindOf? id = some k ↔ (id, k) ∈ s.tags := by
  rw [kindOf?, Option.map_eq_some_iff, tags, List.mem_map]
  refine exists_congr fun l => ?_
  rw [line?_eq_some_iff h, Line.tag, Prod.mk.injEq, and_assoc]

theorem map_fst_tags (s : Sheet) : s.tags.map Prod.fst = s.lineIds := by
  rw [tags, List.map_map]
  rfl

end Sheet

end ProofSheet
