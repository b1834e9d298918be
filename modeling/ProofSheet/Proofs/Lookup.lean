/-
# Two look-ups

A thing on a sheet can be looked at (`Sheet.find?`) and a line can be typed into (`Sheet.line?`).  The two
search in different orders and by different recursions: the first goes through the whole sheet from top to
bottom, subproofs included, while the second goes through premises, goals and steps, passes over subproofs
and tells assumptions from other lines.  On a sheet where no two things share a node id they find the same
thing (`Sheet.line?_eq_some_iff_find?`).

So what is typed into a line is what is seen there afterwards, and anywhere else nothing has changed, but
for the subproofs around the line, which hold it.
-/
import ProofSheet.Proofs.Commuting
import ProofSheet.Proofs.Enclosure

namespace ProofSheet

def Sheet.Opens (s : Sheet) (st : Statement) : Prop :=
  ∃ id body n, .subproof id st body n ∈ s.entities

/-- The line is taken for an assumption exactly if it opens a subproof. -/
def Line.Fits (s : Sheet) : Line → Prop
  | .statement st => ¬ s.Opens st
  | .assumption st => s.Opens st
  | _ => True

/-! ## Lines and things -/

theorem Line.eq_of_fits {s : Sheet} {l l' : Line} (he : l.entity = l'.entity) (h : l.Fits s)
    (h' : l'.Fits s) : l = l' := by
  cases l <;> cases l' <;> cases he
  case statement.assumption => exact absurd h' h
  case assumption.statement => exact absurd h h'
  all_goals rfl

theorem Step.mem_linesOf_assumption {st : Statement} (ss : List Step) :
    .assumption st ∈ linesOf ss ↔ ∃ id body n, .subproof id st body n ∈ entitiesOf ss := by
  induction ss using forestInduction with
  | nil => simp [linesOf, entitiesOf]
  | line s ss ih => simp [linesOf, lines, entitiesOf, entities, ih]
  | subproof id a body n ss ihb ih =>
      simp only [linesOf, lines, entitiesOf, entities, List.cons_append, List.mem_cons, List.mem_append,
        ihb, ih, Line.assumption.injEq, Entity.subproof.injEq, reduceCtorEq, false_or]
      constructor
      · rintro (rfl | ⟨id', body', n', h⟩ | ⟨id', body', n', h⟩)
        · exact ⟨id, body, n, .inl ⟨rfl, rfl, rfl, rfl⟩⟩
        · exact ⟨id', body', n', .inr (.inl h)⟩
        · exact ⟨id', body', n', .inr (.inr h)⟩
      · rintro ⟨id', body', n', ⟨-, rfl, -, -⟩ | h | h⟩
        · exact .inl rfl
        · exact .inr (.inl ⟨id', body', n', h⟩)
        · exact .inr (.inr ⟨id', body', n', h⟩)

namespace Sheet

variable {s : Sheet} {id : NodeId}

theorem mem_lines_assumption {st : Statement} : .assumption st ∈ s.lines ↔ s.Opens st := by
  simp [lines, Opens, entities, Step.mem_linesOf_assumption]

theorem entity_mem_of_mem_lines {l : Line} (h : l ∈ s.lines) : l.entity ∈ s.entities := by
  have hline : l.entity ∈ s.lines.map Line.entity := List.mem_map_of_mem h
  rw [map_entity_lines] at hline
  exact (List.mem_filter.1 hline).1

theorem exists_line_of_mem {e : Entity} (h : e ∈ s.entities) (he : e.isLine = true) :
    ∃ l ∈ s.lines, l.entity = e := by
  have hline : e ∈ s.lines.map Line.entity := by
    rw [map_entity_lines]
    exact List.mem_filter.2 ⟨h, he⟩
  exact List.mem_map.1 hline

/-- A line of a sheet is an assumption if it opens a subproof, and only then: one thing cannot be both. -/
theorem fits_of_mem_lines (h : s.lineIds.Nodup) {l : Line} (hl : l ∈ s.lines) : l.Fits s := by
  cases l with
  | premise p => exact trivial
  | goal g => exact trivial
  | assumption st => exact mem_lines_assumption.1 hl
  | statement st =>
      intro hopens
      -- the assumption is a line too, and has the same node id
      have hboth := List.inj_on_of_nodup_map h hl (mem_lines_assumption.2 hopens) rfl
      cases hboth

theorem find?_eq_some_iff (h : (s.entities.map Entity.id).Nodup) {e : Entity} :
    s.find? id = some e ↔ e ∈ s.entities ∧ e.id = id := by
  constructor
  · intro he
    exact ⟨List.mem_of_find?_eq_some he, by simpa using List.find?_some he⟩
  · rintro ⟨he, rfl⟩
    exact find?_of_mem h he

/-- The two look-ups agree: what can be typed into is what can be looked at, taken for what it is. -/
theorem line?_eq_some_iff_find? (h : (s.entities.map Entity.id).Nodup) {l : Line} :
    s.line? id = some l ↔ s.find? id = some l.entity ∧ l.Fits s := by
  have hlines := nodup_lineIds h
  rw [line?_eq_some_iff hlines, find?_eq_some_iff h, l.id_entity]
  constructor
  · rintro ⟨hl, rfl⟩
    exact ⟨⟨entity_mem_of_mem_lines hl, rfl⟩, fits_of_mem_lines hlines hl⟩
  · rintro ⟨⟨he, rfl⟩, hfits⟩
    -- some line of the sheet is this thing; being of the right kind, it is `l`
    obtain ⟨l', hl', e⟩ := exists_line_of_mem he (by cases l <;> rfl)
    rw [← Line.eq_of_fits e (fits_of_mem_lines hlines hl') hfits]
    exact ⟨hl', rfl⟩

theorem exists_line?_iff (h : (s.entities.map Entity.id).Nodup) :
    (∃ l, s.line? id = some l) ↔ ∃ e, s.find? id = some e ∧ e.isLine = true := by
  constructor
  · rintro ⟨l, hl⟩
    exact ⟨l.entity, ((line?_eq_some_iff_find? h).1 hl).1, by cases l <;> rfl⟩
  · rintro ⟨e, he, hline⟩
    obtain ⟨hmem, rfl⟩ := (find?_eq_some_iff h).1 he
    obtain ⟨l, hl, rfl⟩ := exists_line_of_mem hmem hline
    exact ⟨l, (line?_eq_some_iff (nodup_lineIds h)).2 ⟨hl, l.id_entity.symm⟩⟩

theorem line?_eq_none_iff_find? (h : (s.entities.map Entity.id).Nodup) :
    s.line? id = none ↔
      s.find? id = none ∨ ∃ sid a body n, s.find? id = some (.subproof sid a body n) := by
  have hexists : (∃ l, s.line? id = some l) ↔ _ := exists_line?_iff h
  constructor
  · intro hnone
    cases hfind : s.find? id with
    | none => exact .inl rfl
    | some e =>
        cases e with
        | subproof sid a body n => exact .inr ⟨sid, a, body, n, rfl⟩
        | _ =>
            obtain ⟨l, hl⟩ := hexists.2 ⟨_, hfind, rfl⟩
            cases hnone.symm.trans hl
  · intro hfind
    cases hline : s.line? id with
    | none => rfl
    | some l =>
        obtain ⟨e, he, hisLine⟩ := hexists.1 ⟨l, hline⟩
        rcases hfind with hnone | ⟨sid, a, body, n, hsub⟩
        · cases hnone.symm.trans he
        · cases hsub.symm.trans he
          cases hisLine

end Sheet

/-! ## What is seen after typing -/

namespace Entity

/-- A line with another text, as a thing on the sheet.  A subproof has no text of its own. -/
def withText (text : String) (reading : Reading) : Entity → Entity
  | .premise p => .premise { p with text, reading }
  | .statement s => .statement { s with text, reading }
  | .goal g => .goal { g with text, reading }
  | e => e

/-- A thing after something was typed into the line with a given node id: that line itself has the text, and
so has that line where it is inside a subproof. -/
def retypeAt (id : NodeId) (text : String) : Entity → Entity
  | .premise p => .premise (atId Premise.id id (Revision.text text).premise p)
  | .statement s => .statement (atId Statement.id id (Revision.text text).statement s)
  | .goal g => .goal (atId Goal.id id (Revision.text text).goal g)
  | .subproof sid a body n =>
    .subproof sid (atId Statement.id id (Revision.text text).assumption a)
      (Step.reviseAllAt id (.text text) body) n

variable {id : NodeId} {text : String}

theorem id_retypeAt (e : Entity) : (e.retypeAt id text).id = e.id := by
  cases e with
  | premise p => exact key_atId (Revision.id_premise _) p
  | statement s => exact key_atId (Revision.id_statement _) s
  | goal g => exact key_atId (Revision.id_goal _) g
  | subproof sid a body n => rfl

theorem retypeAt_self {e : Entity} (he : e.isLine = true) (hid : e.id = id) :
    e.retypeAt id text = e.withText text (.ofText text) := by
  cases e with
  | premise p => exact congrArg Entity.premise (if_pos hid)
  | statement s => exact congrArg Entity.statement (if_pos hid)
  | goal g => exact congrArg Entity.goal (if_pos hid)
  | subproof => cases he

/-- A thing that neither is the line nor has it inside stays. -/
theorem retypeAt_other {e : Entity} (hid : e.id ≠ id) (hin : id ∉ e.inside.map Entity.id) :
    e.retypeAt id text = e := by
  cases e with
  | premise p => exact congrArg Entity.premise (if_neg hid)
  | statement s => exact congrArg Entity.statement (if_neg hid)
  | goal g => exact congrArg Entity.goal (if_neg hid)
  | subproof sid a body n =>
      rw [inside, List.map_cons, List.mem_cons, not_or] at hin
      have hbody : id ∉ (Step.linesOf body).map Line.id := fun h =>
        hin.2 ((Line.ids_sublist (Step.map_entity_linesOf body)).subset h)
      have ha : a.id ≠ id := Ne.symm hin.1
      rw [retypeAt, atId, if_neg ha, Step.reviseAllAt_of_notMem _ body hbody]

end Entity

theorem Step.entitiesOf_reviseAllAt (id : NodeId) (text : String) (ss : List Step) :
    entitiesOf (reviseAllAt id (.text text) ss) = (entitiesOf ss).map (Entity.retypeAt id text) := by
  induction ss using forestInduction with
  | nil => rfl
  | line s ss ih =>
      rw [reviseAllAt, reviseAt, entitiesOf, entitiesOf, entities, entities, List.map_append, ih]
      rfl
  | subproof sid a body n ss ihb ih =>
      rw [reviseAllAt, reviseAt, entitiesOf, entitiesOf, entities, entities, List.map_append, List.map_cons,
        List.map_cons, ihb, ih]
      rfl

namespace Sheet

variable {s : Sheet} {id : NodeId}

theorem entities_reviseAt_text (id : NodeId) (text : String) (s : Sheet) :
    (s.reviseAt id (.text text)).entities = s.entities.map (Entity.retypeAt id text) := by
  rw [entities, entities, List.map_append, List.map_append, ← Step.entitiesOf_reviseAllAt, List.map_map,
    List.map_map]
  simp only [reviseAt, List.map_map]
  rfl

/-- After typing, every look-up finds what it found before, with the text in its place. -/
theorem find?_reviseAt_text (id : NodeId) (text : String) (s : Sheet) (j : NodeId) :
    (s.reviseAt id (.text text)).find? j = (s.find? j).map (Entity.retypeAt id text) := by
  -- typing keeps node ids, so the search stops at the same place
  have hkey : ((·.id == j) ∘ Entity.retypeAt id text : Entity → Bool) = (·.id == j) := by
    funext e
    exact congrArg (· == j) e.id_retypeAt
  rw [find?, entities_reviseAt_text, List.find?_map, hkey]
  rfl

theorem setText_eq_ok (h : (s.entities.map Entity.id).Nodup) {raw : String} {reading : Reading}
    {t : Sheet} :
    s.setText id raw = .ok (reading, t) ↔
      (∃ e, s.find? id = some e ∧ e.isLine = true) ∧ reading = .ofText raw ∧
        t = s.reviseAt id (.text raw) := by
  have hlines := nodup_lineIds h
  rw [← exists_line?_iff h]
  constructor
  · intro hset
    obtain ⟨l, hl, hset⟩ := bind_eq_ok.1 hset
    have hline := lineAt_eq_ok hl
    cases hset
    exact ⟨⟨l, hline⟩, rfl, setLine_eq_reviseAt (.text raw) hlines hline⟩
  · rintro ⟨⟨l, hl⟩, rfl, rfl⟩
    rw [← setLine_eq_reviseAt (.text raw) hlines hl, setText, lineAt, hl]
    rfl

structure FindsAlike (s : Sheet) (id : NodeId) : Prop where
  premise : ∀ p, s.line? id = some (.premise p) ↔ s.find? id = some (.premise p)
  goal : ∀ g, s.line? id = some (.goal g) ↔ s.find? id = some (.goal g)
  /-- A line that opens no subproof. -/
  statement : ∀ st, s.line? id = some (.statement st) ↔ s.find? id = some (.statement st) ∧ ¬ s.Opens st
  /-- A line that opens a subproof. -/
  assumption : ∀ st, s.line? id = some (.assumption st) ↔ s.find? id = some (.statement st) ∧ s.Opens st
  /-- A subproof is found but is no line. -/
  none : s.line? id = none ↔
    s.find? id = none ∨ ∃ sid a body n, s.find? id = some (.subproof sid a body n)

/-- What is seen on the sheet `t` that a text typed into a line of `s` has led to. -/
structure ShowsTyped (s t : Sheet) (id : NodeId) (raw : String) : Prop where
  /-- The line shows the text and what it amounts to, and else is what it was. -/
  typed : ∃ e, s.find? id = some e ∧ e.isLine = true ∧
    t.find? id = some (e.withText raw (.ofText raw))
  /-- Anything else that does not have the line inside it is unchanged. -/
  others : ∀ j e, j ≠ id → s.find? j = some e → id ∉ e.inside.map Entity.id → t.find? j = some e
  /-- A subproof around the line is unchanged up to that line. -/
  around : ∀ j sid a body n, s.find? j = some (.subproof sid a body n) →
    t.find? j = some (.subproof sid (atId Statement.id id (Revision.text raw).assumption a)
      (Step.reviseAllAt id (.text raw) body) n)
  /-- What is not there does not appear. -/
  absent : ∀ j, s.find? j = none → t.find? j = none

theorem findsAlike (h : (s.entities.map Entity.id).Nodup) (id : NodeId) : s.FindsAlike id where
  premise _ := (line?_eq_some_iff_find? h).trans (and_iff_left trivial)
  goal _ := (line?_eq_some_iff_find? h).trans (and_iff_left trivial)
  statement _ := line?_eq_some_iff_find? h
  assumption _ := line?_eq_some_iff_find? h
  none := line?_eq_none_iff_find? h

theorem showsTyped_reviseAt (h : (s.entities.map Entity.id).Nodup) {e : Entity} (he : s.find? id = some e)
    (hline : e.isLine = true) (raw : String) : s.ShowsTyped (s.reviseAt id (.text raw)) id raw where
  typed := by
    refine ⟨e, he, hline, ?_⟩
    rw [find?_reviseAt_text, he, Option.map_some,
      Entity.retypeAt_self hline ((find?_eq_some_iff h).1 he).2]
  others j e' hj he' hin := by
    obtain ⟨-, rfl⟩ := (find?_eq_some_iff h).1 he'
    rw [find?_reviseAt_text, he', Option.map_some, Entity.retypeAt_other hj hin]
  around j sid a body n hsub := by
    rw [find?_reviseAt_text, hsub, Option.map_some, Entity.retypeAt]
  absent j hnone := by
    rw [find?_reviseAt_text, hnone, Option.map_none]

/-- On a sheet with distinct node ids, as every sheet that edits lead to is, looking at a thing and typing
into it find the same thing.  So typing succeeds exactly where a line is seen, and then the text is seen
there, and nothing else is changed but what holds that line. -/
theorem lookups_find_same_line (s : Sheet) :
    (s.Reachable → (s.entities.map Entity.id).Nodup) ∧
    ((s.entities.map Entity.id).Nodup → ∀ id, s.FindsAlike id ∧ ∀ raw,
      ((∃ answer, s.setText id raw = .ok answer) ↔ ∃ e, s.find? id = some e ∧ e.isLine = true) ∧
      ∀ reading t, s.setText id raw = .ok (reading, t) →
        reading = .ofText raw ∧ s.ShowsTyped t id raw) := by
  refine ⟨fun hreachable => hreachable.invariant.distinct, fun h id => ⟨findsAlike h id, fun raw => ?_⟩⟩
  refine ⟨⟨?_, ?_⟩, ?_⟩
  · rintro ⟨⟨reading, t⟩, hset⟩
    exact ((setText_eq_ok h).1 hset).1
  · intro hline
    exact ⟨(_, _), (setText_eq_ok h).2 ⟨hline, rfl, rfl⟩⟩
  · intro reading t hset
    obtain ⟨⟨e, he, hline⟩, rfl, rfl⟩ := (setText_eq_ok h).1 hset
    exact ⟨rfl, showsTyped_reviseAt h he hline raw⟩

/-- The theorem for the assumption of a subproof: it can be typed into, the subproof cannot, and what is
typed is seen there while the line below it stays. -/
theorem typed_assumption_shows : ∃ s a t, s = Command.runAll {} twoScopes ∧ s.Reachable ∧
    (s.entities.map Entity.id).Nodup ∧ s.line? ⟨1⟩ = none ∧ s.find? ⟨2⟩ = some (.statement a) ∧
    s.line? ⟨2⟩ = some (.assumption a) ∧ s.setText ⟨2⟩ "P" = .ok (.ofText "P", t) ∧
    t.find? ⟨2⟩ = some (.statement { a with text := "P", reading := .ofText "P" }) ∧
    t.find? ⟨3⟩ = s.find? ⟨3⟩ ∧ s.ShowsTyped t ⟨2⟩ "P" := by
  have hreachable : (Command.runAll {} twoScopes).Reachable := ⟨twoScopes, rfl⟩
  obtain ⟨hdistinct, hlookups⟩ := lookups_find_same_line (Command.runAll {} twoScopes)
  have h := hdistinct hreachable
  have hsub : ((Command.runAll {} twoScopes).line? ⟨1⟩) = none := by decide +kernel
  obtain ⟨halike, htyped⟩ := hlookups h ⟨2⟩
  obtain ⟨a, ha⟩ : ∃ a, (Command.runAll {} twoScopes).line? ⟨2⟩ = some (.assumption a) := ⟨_, rfl⟩
  have hfind := ((halike.assumption a).1 ha).1
  obtain ⟨⟨reading, t⟩, hset⟩ := (htyped "P").1.2 ⟨_, hfind, rfl⟩
  obtain ⟨rfl, hshows⟩ := (htyped "P").2 _ _ hset
  obtain ⟨e, he, -, hseen⟩ := hshows.typed
  cases hfind.symm.trans he
  obtain ⟨below, hbelow⟩ : ∃ st, (Command.runAll {} twoScopes).find? ⟨3⟩ = some (.statement st) :=
    ⟨_, rfl⟩
  have hstays := hshows.others ⟨3⟩ _ (by decide) hbelow List.not_mem_nil
  exact ⟨_, a, t, rfl, hreachable, h, hsub, hfind, ha, hset, hseen, hstays.trans hbelow.symm, hshows⟩

end Sheet

end ProofSheet
