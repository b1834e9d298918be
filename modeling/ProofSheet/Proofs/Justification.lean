/-
# The rules that a payload names

Every line of a sheet has one record in the payload, in the same order, and the record names a rule:
`Assumption` for a premise and for what opens a subproof, `Reiteration` for a goal, and for any other
line what the rule book says of its rule.  A verifier takes an assumption on trust, so it matters that
no inference can be told as one: a book that was filled name by name has no such answer to give,
whatever names it was offered.
-/
import ProofSheet.Proofs.Faults
import ProofSheet.Proofs.RuleBook

namespace ProofSheet

/-! ## Line by line -/

inductive LineRecord where
  | assumption (x : Assumption)
  | inference (i : Inference)

namespace Item

mutual

def lineRecords : Item → List LineRecord
  | .subproof _ x steps => .assumption x :: lineRecordsOf steps
  | .inference i => [.inference i]

def lineRecordsOf : List Item → List LineRecord
  | [] => []
  | i :: is => i.lineRecords ++ lineRecordsOf is

end

end Item

def Payload.lineRecords (p : Payload) : List LineRecord :=
  p.premises.map .assumption ++ Item.lineRecordsOf p.steps ++ p.conclusions.map .inference

/-- The record of a line is of its kind and names its rule, and an inference is told neither as
unjustified nor as an assumption. -/
def Line.Justified (b : RuleBook) : Line → LineRecord → Prop
  | .premise _, .assumption x => x.rule = "Assumption"
  | .assumption _, .assumption x => x.rule = "Assumption"
  | .statement s, .inference i => b.Tells s.rule i.rule ∧ i.rule ≠ "none" ∧ i.rule ≠ "Assumption"
  | .goal _, .inference i => i.rule = "Reiteration"
  | _, _ => False

/-- `r` is the record that a book and a directory make of the line `l`. -/
def Line.Yields (b : RuleBook) (d : Directory) : (l : Line) → (r : LineRecord) → Prop
  | .premise p, .assumption x => Payload.assumption d p.id p.reading = .ok x
  | .assumption a, .assumption x => Payload.assumption d a.id a.reading = .ok x
  | .statement s, .inference i => Payload.inference b d s = .ok i
  | .goal g, .inference i => Payload.conclusion d g = .ok i
  | _, _ => False

/-! ## The records of a sheet -/

namespace Payload

variable {b : RuleBook} {d : Directory}

theorem rule_of_assumption {id : NodeId} {r : Reading} {x : Assumption}
    (h : assumption d id r = .ok x) : x.rule = "Assumption" := by
  obtain ⟨a, -, -, -, hrule⟩ := assumption_eq_ok.1 h
  exact hrule

theorem rule_of_conclusion {g : Goal} {i : Inference} (h : conclusion d g = .ok i) :
    i.rule = "Reiteration" := by
  obtain ⟨a, c, q, -, -, hrule, -⟩ := conclusion_eq_ok.1 h
  exact hrule

theorem justified_inference (hb : b.Guarded) {s : Statement} {i : Inference}
    (h : inference b d s = .ok i) : (Line.statement s).Justified b (.inference i) := by
  obtain ⟨a, -, -, hrule, -, -⟩ := inference_eq_ok.1 h
  have hreserved := hb _ _ hrule
  rw [isReservedRule, Bool.or_eq_false_iff, beq_eq_false_iff_ne, beq_eq_false_iff_ne] at hreserved
  exact ⟨RuleBook.resolve?_eq_some.1 hrule, hreserved.1, hreserved.2⟩

theorem yields_items (ss : List Step) :
    ∀ {is : List Item}, items b d ss = .ok is →
      List.Forall₂ (Line.Yields b d) (Step.linesOf ss) (Item.lineRecordsOf is) := by
  induction ss using Step.forestInduction with
  | nil =>
      intro is h
      cases h
      exact .nil
  | line s ss ih =>
      intro is h
      obtain ⟨i, js, hi, hjs, rfl⟩ := items_line_eq_ok.1 h
      rw [Step.linesOf, Step.lines, Item.lineRecordsOf, Item.lineRecords]
      exact .cons hi (ih hjs)
  | subproof id a body n ss ihb ih =>
      intro is h
      obtain ⟨line, x, ks, js, -, hx, hks, hjs, rfl⟩ := items_subproof_eq_ok.1 h
      rw [Step.linesOf, Step.lines, Item.lineRecordsOf, Item.lineRecords]
      have hopening : (Line.assumption a).Yields b d (.assumption x) := hx
      exact List.rel_append (.cons hopening (ihb hks)) (ih hjs)

/-- The lines of a sheet and their records in a payload go together. -/
theorem yields_ofSheet {s : Sheet} {p : Payload} (h : ofSheet b s = .ok p) :
    ∃ d, List.Forall₂ (Line.Yields b d) s.lines p.lineRecords := by
  obtain ⟨d, -, hps, his, hcs⟩ := ofSheet_eq_ok.1 h
  have hpremises : List.Forall₂ (Line.Yields b d) (s.premises.map .premise)
      (p.premises.map .assumption) := by
    rw [List.forall₂_map_left_iff, List.forall₂_map_right_iff]
    exact hps
  have hgoals : List.Forall₂ (Line.Yields b d) (s.goals.map .goal) (p.conclusions.map .inference) := by
    rw [List.forall₂_map_left_iff, List.forall₂_map_right_iff]
    exact hcs
  exact ⟨d, List.rel_append (List.rel_append hpremises (yields_items s.steps his)) hgoals⟩

theorem justified_of_yields (hb : b.Guarded) {l : Line} {r : LineRecord} (h : l.Yields b d r) :
    l.Justified b r := by
  match l, r with
  | .premise _, .assumption _ => exact rule_of_assumption h
  | .assumption _, .assumption _ => exact rule_of_assumption h
  | .statement _, .inference _ => exact justified_inference hb h
  | .goal _, .inference _ => exact rule_of_conclusion h

/-- Whatever names a rule book was offered, at first and one by one later: in a payload every premise
and every assumption of a subproof is told as an assumption, every goal as a reiteration, and every
other line, at any depth, by the long name of its built-in rule or else by its custom rule as it is,
and never as an assumption. -/
theorem no_inference_as_assumption (names more : List String) {s : Sheet} {p : Payload}
    (h : ofSheet (more.foldl RuleBook.insert (.ofNames names)) s = .ok p) :
    List.Forall₂ (Line.Justified (more.foldl RuleBook.insert (.ofNames names)))
      s.lines p.lineRecords := by
  rw [RuleBook.foldl_insert_ofNames] at h ⊢
  obtain ⟨d, hlines⟩ := yields_ofSheet h
  exact hlines.imp fun l r hlr => justified_of_yields (RuleBook.guarded_ofNames _) hlr

/-- Reserved names are offered in both ways and not taken; a line in a subproof is told by a name that
was taken, and another by its built-in rule although the book holds its short name too. -/
theorem weakening_rules_told : ∃ (b : RuleBook) (s : Sheet) (p : Payload),
    b = ["Assumption", "Restated", "→Intro", "Restated"].foldl RuleBook.insert
      (.ofNames ["none", "Assumption"]) ∧
    b.custom = ["Restated", "→Intro"] ∧
    s = Command.runAll {} (weakening ++ [.setRule ⟨3⟩ "Restated"]) ∧
    ofSheet b s = .ok p ∧ List.Forall₂ (Line.Justified b) s.lines p.lineRecords := by
  obtain ⟨p, h⟩ := exists_of_toBool
    (x := ofSheet (["Assumption", "Restated", "→Intro", "Restated"].foldl RuleBook.insert
      (.ofNames ["none", "Assumption"]))
      (Command.runAll {} (weakening ++ [.setRule ⟨3⟩ "Restated"]))) (by decide +kernel)
  exact ⟨_, _, p, rfl, by decide, rfl, h, no_inference_as_assumption _ _ h⟩

end Payload

end ProofSheet
