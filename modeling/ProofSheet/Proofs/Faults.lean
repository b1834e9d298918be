/-
# The faults of a sheet

A sheet that cannot be handed to a verifier has faults, and there may be many.  They are listed here
without building anything: line by line in the order of the sheet, and for each line in a fixed
order.  Building the payload stops at the first fault on its way, which goes through premises, nested
steps and goals.  That fault is the first of the list, and without faults there is a payload
(`Payload.reports_ofSheet`).
-/
import ProofSheet.Proofs.Records

namespace ProofSheet

/-! ## The lines of a sheet -/

namespace Step

mutual

def lines : Step → List Line
  | .line s => [.statement s]
  | .subproof _ a body _ => .assumption a :: linesOf body

def linesOf : List Step → List Line
  | [] => []
  | s :: ss => s.lines ++ linesOf ss

end

end Step

def Sheet.lines (s : Sheet) : List Line :=
  s.premises.map .premise ++ Step.linesOf s.steps ++ s.goals.map .goal

def Entity.isLine : Entity → Bool
  | .subproof .. => false
  | _ => true

theorem Step.map_entity_linesOf (ss : List Step) :
    (linesOf ss).map Line.entity = (entitiesOf ss).filter Entity.isLine := by
  induction ss using forestInduction with
  | nil => rfl
  | line s ss ih =>
      rw [linesOf, lines, entitiesOf, entities, List.map_append, List.filter_append, ih]
      rfl
  | subproof id a body n ss ihb ih =>
      rw [linesOf, lines, entitiesOf, entities, List.map_append, List.filter_append, ih,
        List.map_cons, ihb]
      rfl

/-- The lines of a sheet are the things on it that are not subproofs. -/
theorem Sheet.map_entity_lines (s : Sheet) :
    s.lines.map Line.entity = s.entities.filter Entity.isLine := by
  have hp : (s.premises.map Entity.premise).filter Entity.isLine = s.premises.map .premise :=
    List.filter_eq_self.2 (List.forall_mem_map.2 fun _ _ => rfl)
  have hg : (s.goals.map Entity.goal).filter Entity.isLine = s.goals.map .goal :=
    List.filter_eq_self.2 (List.forall_mem_map.2 fun _ _ => rfl)
  rw [lines, entities, List.map_append, List.map_append, List.filter_append, List.filter_append,
    Step.map_entity_linesOf, hp, hg, List.map_map, List.map_map]
  rfl

/-! ## What is wrong with a line -/

def Reading.faults (line : Address) : Reading → List Fault
  | .formula _ => []
  | r => [.invalidFormula line r.status]

def RuleBook.faults (b : RuleBook) (line : Address) (rule : String) : List Fault :=
  if (b.resolve? rule).isSome then [] else [.unmappedRule line rule]

/-- What is wrong with the citation of a node by the line at an address. -/
def Sheet.citationFaults (s : Sheet) (line : Address) (target : NodeId) : List Fault :=
  match s.find? target with
  | none => [.danglingReference line target]
  | some e =>
    match e.number with
    | some a => if a.before line then [] else [.forwardReference line a]
    | none => []

def Line.faults (b : RuleBook) (s : Sheet) (line : Address) : Line → List Fault
  | .premise p => p.reading.faults line
  | .assumption a => a.reading.faults line
  | .statement st =>
    b.faults line st.rule ++ st.reading.faults line ++
      st.citations.flatMap (s.citationFaults line)
  | .goal g =>
    (if g.citation.isSome then [] else [.missingGoalCitation line]) ++ g.reading.faults line ++
      g.citation.toList.flatMap (s.citationFaults line)

/-- All that is wrong with a sheet, line by line. -/
def Sheet.faults (b : RuleBook) (s : Sheet) : List Fault :=
  s.lines.flatMap fun l => l.entity.number.toList.flatMap fun line => l.faults b s line

/-! ## One line -/

theorem Reading.reports_formulaAt (line : Address) (r : Reading) :
    Reports (r.formulaAt line) (r.faults line) := by
  cases r with
  | formula f => exact .success f
  | blank => exact .failure _ []
  | wrong m => exact .failure _ []
  | unfinished m => exact .failure _ []

namespace Directory

variable {s : Sheet} {d : Directory}

theorem cite_of_absent (hd : ofSheet s = .ok d) (line : Address) {target : NodeId}
    (h : ∀ e ∈ s.entities, e.id ≠ target) :
    d.cite line target = .error (.danglingReference line target) := by
  rw [cite, lookup_eq_none hd h]

/-- A citation of a thing on the sheet is told by the address that the thing has now. -/
theorem cite_of_mem (hs : s.Invariant) (hd : ofSheet s = .ok d) (line : Address) {e : Entity}
    (he : e ∈ s.entities) : ∃ a, e.number = some a ∧
      d.cite line e.id = if a.before line then .ok a.print else .error (.forwardReference line a) := by
  obtain ⟨a, ha⟩ := Option.ne_none_iff_exists'.1 (Sheet.Numbered.ne_none hs.numbered he)
  refine ⟨a, ha, ?_⟩
  rw [cite, lookup_of_mem hd hs.distinct he ha]

end Directory

namespace Payload

variable {b : RuleBook} {s : Sheet} {d : Directory}

theorem reports_cite (hs : s.Invariant) (hd : Directory.ofSheet s = .ok d) (line : Address)
    (target : NodeId) : Reports (d.cite line target) (s.citationFaults line target) := by
  rw [Sheet.citationFaults]
  cases hfind : s.find? target with
  | none =>
      have habsent : ∀ e ∈ s.entities, e.id ≠ target := by
        intro e he
        simpa using List.find?_eq_none.1 hfind e he
      rw [Directory.cite_of_absent hd line habsent]
      exact .failure _ []
  | some e =>
      obtain rfl : e.id = target := by simpa using List.find?_some hfind
      obtain ⟨a, ha, hcite⟩ := Directory.cite_of_mem hs hd line (List.mem_of_find?_eq_some hfind)
      rw [hcite]
      simp only [ha]
      split
      · exact .success _
      · exact .failure _ []

theorem address_of_mem (hs : s.Invariant) (hd : Directory.ofSheet s = .ok d) {e : Entity}
    (he : e ∈ s.entities) : ∃ a, e.number = some a ∧ d.address e.id = .ok a := by
  obtain ⟨a, ha⟩ := Option.ne_none_iff_exists'.1 (Sheet.Numbered.ne_none hs.numbered he)
  exact ⟨a, ha, Directory.address_eq_ok.2 (Directory.lookup_of_mem hd hs.distinct he ha)⟩

theorem reports_assumption (hs : s.Invariant) (hd : Directory.ofSheet s = .ok d) {e : Entity}
    (he : e ∈ s.entities) (r : Reading) :
    Reports (assumption d e.id r) (e.number.toList.flatMap fun line => r.faults line) := by
  obtain ⟨a, ha, haddress⟩ := address_of_mem hs hd he
  rw [assumption, haddress, bind_ok, ha, Option.toList_some, List.flatMap_singleton]
  exact (r.reports_formulaAt a).finish _

theorem reports_inference (hs : s.Invariant) (hd : Directory.ofSheet s = .ok d) {st : Statement}
    (he : .statement st ∈ s.entities) :
    Reports (inference b d st)
      (st.number.toList.flatMap fun line => (Line.statement st).faults b s line) := by
  obtain ⟨a, ha, haddress⟩ := address_of_mem hs hd he
  have hnumber : st.number = some a := ha
  have hlookup : d.address st.id = .ok a := haddress
  rw [inference, hlookup, bind_ok, hnumber, Option.toList_some, List.flatMap_singleton, Line.faults,
    RuleBook.faults]
  cases b.resolve? st.rule with
  | none => exact .failure _ _
  | some rule =>
      refine (st.reading.reports_formulaAt a).bind fun f _ => ?_
      exact (reports_mapM fun t _ => reports_cite hs hd a t).finish _

theorem reports_conclusion (hs : s.Invariant) (hd : Directory.ofSheet s = .ok d) {g : Goal}
    (he : .goal g ∈ s.entities) :
    Reports (conclusion d g) (g.number.toList.flatMap fun line => (Line.goal g).faults b s line) := by
  obtain ⟨a, ha, haddress⟩ := address_of_mem hs hd he
  have hnumber : g.number = some a := ha
  have hlookup : d.address g.id = .ok a := haddress
  rw [conclusion, hlookup, bind_ok, hnumber, Option.toList_some, List.flatMap_singleton, Line.faults]
  cases g.citation with
  | none => exact .failure _ _
  | some target =>
      refine (g.reading.reports_formulaAt a).bind fun f _ => ?_
      rw [Option.toList_some, List.flatMap_singleton]
      exact (reports_cite hs hd a target).finish _

/-! ## The whole sheet -/

theorem reports_items (hs : s.Invariant) (hd : Directory.ofSheet s = .ok d) (ss : List Step) :
    (∀ e ∈ Step.entitiesOf ss, e ∈ s.entities) →
      Reports (items b d ss) ((Step.linesOf ss).flatMap fun l =>
        l.entity.number.toList.flatMap fun line => l.faults b s line) := by
  induction ss using Step.forestInduction with
  | nil =>
      intro _
      exact .success []
  | line st ss ih =>
      intro hmem
      rw [Step.entitiesOf, Step.entities] at hmem
      obtain ⟨hst, hss⟩ := List.forall_mem_append.1 hmem
      rw [items, item, Step.linesOf, Step.lines, List.flatMap_append, List.flatMap_singleton]
      have hline := (reports_inference (b := b) hs hd (List.forall_mem_singleton.1 hst)).finish
        Item.inference
      exact hline.bind fun i _ => (ih hss).finish (i :: ·)
  | subproof id a body n ss ihb ih =>
      intro hmem
      rw [Step.entitiesOf, Step.entities] at hmem
      obtain ⟨hsub, hss⟩ := List.forall_mem_append.1 hmem
      obtain ⟨hself, hinside⟩ := List.forall_mem_cons.1 hsub
      obtain ⟨hopening, hbody⟩ := List.forall_mem_cons.1 hinside
      obtain ⟨line, -, haddress⟩ := address_of_mem hs hd hself
      have hid : d.address id = .ok line := haddress
      rw [items, item, hid, bind_ok, Step.linesOf, Step.lines, List.flatMap_append,
        List.flatMap_cons]
      -- the subproof itself adds nothing: its faults are those of its assumption and its body
      have hitem := (reports_assumption hs hd hopening a.reading).bind fun x _ =>
        (ihb hbody).finish (Item.subproof line.print x)
      exact hitem.bind fun i _ => (ih hss).finish (i :: ·)

theorem reports_ofSheet (b : RuleBook) (hs : s.Invariant) : Reports (ofSheet b s) (s.faults b) := by
  obtain ⟨d, hd⟩ := Directory.exists_ofSheet hs.numbered
  rw [ofSheet, hd, bind_ok, Sheet.faults, Sheet.lines, List.flatMap_append, List.flatMap_append,
    List.append_assoc, List.flatMap_map, List.flatMap_map]
  have hpremises : ∀ p ∈ s.premises, Reports (assumption d p.id p.reading)
      (p.number.toList.flatMap fun line => (Line.premise p).faults b s line) := by
    intro p hp
    exact reports_assumption hs hd (e := .premise p) (by simp [Sheet.entities, hp]) p.reading
  have hsteps := reports_items (b := b) hs hd s.steps fun e he => by simp [Sheet.entities, he]
  have hgoals : ∀ g ∈ s.goals, Reports (conclusion d g)
      (g.number.toList.flatMap fun line => (Line.goal g).faults b s line) := by
    intro g hg
    exact reports_conclusion hs hd (by simp [Sheet.entities, hg])
  exact (reports_mapM hpremises).bind fun ps _ => hsteps.bind fun is _ =>
    (reports_mapM hgoals).finish _

theorem unnumbered_notMem_faults (b : RuleBook) (s : Sheet) : .unnumbered ∉ s.faults b := by
  have hreading : ∀ (line : Address) (r : Reading), .unnumbered ∉ r.faults line := by
    intro line r
    cases r <;> simp [Reading.faults]
  have hcitation : ∀ (line : Address) (t : NodeId), .unnumbered ∉ s.citationFaults line t := by
    intro line t
    rw [Sheet.citationFaults]
    split
    · simp
    · split
      · split <;> simp
      · simp
  intro h
  obtain ⟨l, -, h⟩ := List.mem_flatMap.1 h
  obtain ⟨line, -, h⟩ := List.mem_flatMap.1 h
  cases l with
  | premise p => exact hreading line _ h
  | assumption a => exact hreading line _ h
  | statement st =>
      rcases List.mem_append.1 h with h | h
      · rcases List.mem_append.1 h with h | h
        · rw [RuleBook.faults] at h
          split at h <;> simp at h
        · exact hreading line _ h
      · obtain ⟨t, -, h⟩ := List.mem_flatMap.1 h
        exact hcitation line t h
  | goal g =>
      rcases List.mem_append.1 h with h | h
      · rcases List.mem_append.1 h with h | h
        · split at h <;> simp at h
        · exact hreading line _ h
      · obtain ⟨t, -, h⟩ := List.mem_flatMap.1 h
        exact hcitation line t h

/-- Of a sheet that edits lead to: it has a payload exactly if none of its lines has a fault, and
otherwise the first fault is reported, in the order of the lines, which is that of the sheet.  That
something is without an address is never the reason. -/
theorem ofSheet_first_fault (b : RuleBook) {s : Sheet} (hs : s.Reachable) :
    s.lines.map Line.entity = s.entities.filter Entity.isLine ∧
    ((∃ p, ofSheet b s = .ok p) ↔ s.faults b = []) ∧
    (∀ f, ofSheet b s = .error f ↔ (s.faults b).head? = some f) ∧
    ofSheet b s ≠ .error .unnumbered := by
  have hreports := reports_ofSheet b hs.invariant
  refine ⟨s.map_entity_lines, hreports.ok_iff, hreports.error_iff, ?_⟩
  intro h
  have hhead := (hreports.error_iff .unnumbered).1 h
  exact unnumbered_notMem_faults b s (List.mem_of_mem_head? hhead)

/-- A history after which a line in a subproof lacks a rule and half of its formula, cites a premise
that is gone and a line that is yet to come, and two more lines have faults. -/
def unfinishedHistory : List Command :=
  [.addPremise, .insertSubproof [] 0, .setText ⟨2⟩ "Q", .insertStatement [0] 0,
   .setText ⟨3⟩ "P ∧", .insertStatement [] 1, .setCitations ⟨3⟩ "1, 3", .deletePremise 0, .addGoal]

theorem unfinished_first_fault :
    (Command.runAll {} unfinishedHistory).faults {} =
      [.unmappedRule ⟨[1, 2]⟩ "none", .invalidFormula ⟨[1, 2]⟩ "incomplete",
       .danglingReference ⟨[1, 2]⟩ ⟨0⟩, .forwardReference ⟨[1, 2]⟩ ⟨[2]⟩,
       .unmappedRule ⟨[2]⟩ "none", .invalidFormula ⟨[2]⟩ "empty",
       .missingGoalCitation ⟨[3]⟩, .invalidFormula ⟨[3]⟩ "empty"] ∧
    ofSheet {} (Command.runAll {} unfinishedHistory) = .error (.unmappedRule ⟨[1, 2]⟩ "none") := by
  have hfaults : (Command.runAll {} unfinishedHistory).faults {} =
      [.unmappedRule ⟨[1, 2]⟩ "none", .invalidFormula ⟨[1, 2]⟩ "incomplete",
       .danglingReference ⟨[1, 2]⟩ ⟨0⟩, .forwardReference ⟨[1, 2]⟩ ⟨[2]⟩,
       .unmappedRule ⟨[2]⟩ "none", .invalidFormula ⟨[2]⟩ "empty",
       .missingGoalCitation ⟨[3]⟩, .invalidFormula ⟨[3]⟩ "empty"] := by
    decide +kernel
  obtain ⟨-, -, herror, -⟩ := ofSheet_first_fault {} ⟨unfinishedHistory, rfl⟩
  exact ⟨hfaults, (herror _).2 (by rw [hfaults]; rfl)⟩

end Payload

end ProofSheet
