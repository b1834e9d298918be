/-
# Refused commands

What speaks against a command on a sheet is a list of objections, in the order in which the command looks
for them.  A command is carried out if there are none, and else refused with the first
(`perform_reports`).

A command is performed in place, so nothing is put back when it is refused.  Premises, steps and goals are
as they were all the same, because it looks before it writes.  Only insertions leave a trace: their node
ids are taken before the place is looked at, and stay taken.
-/
import ProofSheet.Proofs.InPlace
import ProofSheet.Proofs.LineEdits
import ProofSheet.Proofs.Shifting

namespace ProofSheet

namespace Sheet

/-! ## Objections -/

def indexObjections (index length : Nat) : List EditError :=
  if index < length then [] else [.indexOutOfRange index length]

/-- What speaks against a gap of a list of some length, before the first position or after one. -/
def gapObjections (index length : Nat) : List EditError :=
  if index ≤ length then [] else [.indexOutOfRange index length]

/-- What speaks against a scope, or else against the use of its list, by the length. -/
def scopeObjections (s : Sheet) (scope : List Nat) (use : Nat → List EditError) : List EditError :=
  match s.stepsAt? scope with
  | none => [.invalidScope scope]
  | some steps => use steps.length

/-- What speaks against a node id, or else against the use of its line, by the kind. -/
def lineObjections (s : Sheet) (id : NodeId) (use : LineKind → List EditError) : List EditError :=
  match s.kindOf? id with
  | none => [.unknownNode id]
  | some k => use k

def addressObjections (s : Sheet) (text : String) : List EditError :=
  match Address.parse? text with
  | none => [.invalidAddress text]
  | some a => if (s.resolve? a).isSome then [] else [.unknownAddress a]

end Sheet

/-- What speaks against giving a line with a node id a justification.  That of an assumption may only be
cleared. -/
def LineKind.justifyObjections (id : NodeId) (clears : Bool) : LineKind → List EditError
  | .statement => []
  | .assumption => if clears then [] else [.assumptionRule]
  | _ => [.notAStatement id]

/-- What speaks against saying what establishes the line with a node id. -/
def LineKind.establishObjections (id : NodeId) : LineKind → List EditError
  | .goal => []
  | _ => [.notAGoal id]

/-- What speaks against a command on a sheet, in the order in which it is looked at. -/
def Command.objections (s : Sheet) : Command → List EditError
  | .addPremise | .addGoal | .renumber => []
  | .insertStatement scope index | .insertSubproof scope index =>
    s.scopeObjections scope (Sheet.gapObjections index)
  | .deletePremise index => Sheet.indexObjections index s.premises.length
  | .deleteGoal index => Sheet.indexObjections index s.goals.length
  | .deleteStep scope index => s.scopeObjections scope (Sheet.indexObjections index)
  | .moveStep scope source target => s.scopeObjections scope fun length =>
    Sheet.indexObjections source length ++ Sheet.indexObjections target length
  | .setText id _ => s.lineObjections id fun _ => []
  | .setRule id rule => s.lineObjections id (LineKind.justifyObjections id (rule = noRule))
  | .setCitations id addresses =>
    (Sheet.listItems addresses).flatMap s.addressObjections ++
      s.lineObjections id (LineKind.justifyObjections id (Sheet.listItems addresses).isEmpty)
  | .setGoalCitation id address =>
    s.addressObjections address ++ s.lineObjections id (LineKind.establishObjections id)

/-! ## The first objection is the answer -/

namespace Sheet

variable {s : Sheet} {α : Type}

theorem indexObjections_of_some {l : List α} {index : Nat} {a : α} (h : l[index]? = some a) :
    indexObjections index l.length = [] :=
  if_pos (List.getElem?_eq_some_iff.1 h).1

theorem indexObjections_of_none {l : List α} {index : Nat} (h : l[index]? = none) :
    indexObjections index l.length = [.indexOutOfRange index l.length] :=
  if_neg (Nat.not_lt.2 (List.getElem?_eq_none_iff.1 h))

theorem reports_checkIndex (index length : Nat) :
    Reports (checkIndex index length) (indexObjections index length) := by
  rw [checkIndex, indexObjections]
  split
  · exact .success ()
  · exact .failure _ []

theorem reports_stepsAt {scope : List Nat} {use : Nat → List EditError}
    {k : List Step → Except EditError α} (hk : ∀ steps, Reports (k steps) (use steps.length)) :
    Reports (s.stepsAt scope >>= k) (s.scopeObjections scope use) := by
  rw [stepsAt, scopeObjections]
  cases s.stepsAt? scope with
  | none => exact .failure _ []
  | some steps => exact hk steps

theorem reports_lineAt {id : NodeId} {use : LineKind → List EditError} {k : Line → Except EditError α}
    (hk : ∀ l, Reports (k l) (use l.kind)) :
    Reports (s.lineAt id >>= k) (s.lineObjections id use) := by
  rw [lineAt, lineObjections, kindOf?]
  cases s.line? id with
  | none => exact .failure _ []
  | some l => exact hk l

theorem reports_resolveText (s : Sheet) (text : String) :
    Reports (s.resolveText text) (s.addressObjections text) := by
  rw [resolveText, addressObjections]
  cases Address.parse? text with
  | none => exact .failure _ []
  | some a =>
      cases ha : s.resolve? a with
      | none => simpa only [ha] using .failure _ []
      | some id => simpa only [ha] using .success id

theorem reports_insertStep (s : Sheet) (scope : List Nat) (index : Nat) (step : Step) :
    Reports (s.insertStep scope index step) (s.scopeObjections scope (gapObjections index)) := by
  refine reports_stepsAt fun steps => ?_
  rw [gapObjections]
  split
  · exact .success _
  · exact .failure _ []

theorem reports_deletePremise (s : Sheet) (index : Nat) :
    Reports (s.deletePremise index) (indexObjections index s.premises.length) := by
  rw [deletePremise]
  cases h : s.premises[index]? with
  | none => exact indexObjections_of_none h ▸ .failure _ []
  | some p => exact indexObjections_of_some h ▸ .success _

theorem reports_deleteGoal (s : Sheet) (index : Nat) :
    Reports (s.deleteGoal index) (indexObjections index s.goals.length) := by
  rw [deleteGoal]
  cases h : s.goals[index]? with
  | none => exact indexObjections_of_none h ▸ .failure _ []
  | some g => exact indexObjections_of_some h ▸ .success _

theorem reports_deleteStep (s : Sheet) (scope : List Nat) (index : Nat) :
    Reports (s.deleteStep scope index) (s.scopeObjections scope (indexObjections index)) := by
  refine reports_stepsAt fun steps => ?_
  cases h : steps[index]? with
  | none => exact indexObjections_of_none h ▸ .failure _ []
  | some st => exact indexObjections_of_some h ▸ .success _

theorem reports_moveStep (s : Sheet) (scope : List Nat) (source target : Nat) :
    Reports (s.moveStep scope source target) (s.scopeObjections scope fun length =>
      indexObjections source length ++ indexObjections target length) := by
  refine reports_stepsAt fun steps => ?_
  cases h : steps[source]? with
  | none => exact indexObjections_of_none h ▸ .failure _ _
  | some st =>
      rw [indexObjections_of_some h]
      exact (reports_checkIndex target steps.length).finish _

theorem reports_setText (s : Sheet) (id : NodeId) (text : String) :
    Reports (s.setText id text) (s.lineObjections id fun _ => []) :=
  reports_lineAt fun _ => .success _

theorem reports_setRule (s : Sheet) (id : NodeId) (rule : String) :
    Reports (s.setRule id rule) (s.lineObjections id (LineKind.justifyObjections id (rule = noRule))) := by
  refine reports_lineAt fun l => ?_
  cases l with
  | statement st => exact .success _
  | assumption a =>
      by_cases hrule : rule = noRule
      · simpa [Line.kind, LineKind.justifyObjections, hrule] using .success s
      · simpa [Line.kind, LineKind.justifyObjections, hrule] using .failure _ []
  | premise p => exact .failure _ []
  | goal g => exact .failure _ []

theorem reports_setCitations (s : Sheet) (id : NodeId) (addresses : String) :
    Reports (s.setCitations id addresses) ((listItems addresses).flatMap s.addressObjections ++
      s.lineObjections id (LineKind.justifyObjections id (listItems addresses).isEmpty)) := by
  refine (reports_mapM fun text _ => s.reports_resolveText text).bind fun citations hcited => ?_
  refine reports_lineAt fun l => ?_
  cases l with
  | statement st => exact .success _
  | assumption a =>
      -- there is one citation for every item
      have hempty : citations.isEmpty = (listItems addresses).isEmpty := by
        rw [Bool.eq_iff_iff, List.isEmpty_iff_length_eq_zero, List.isEmpty_iff_length_eq_zero,
          (mapM_eq_ok.1 hcited).length_eq]
      cases hnone : (listItems addresses).isEmpty with
      | true => simpa [Line.kind, LineKind.justifyObjections, hempty.trans hnone] using .success s
      | false => simpa [Line.kind, LineKind.justifyObjections, hempty.trans hnone] using .failure _ []
  | premise p => exact .failure _ []
  | goal g => exact .failure _ []

theorem reports_setGoalCitation (s : Sheet) (id : NodeId) (address : String) :
    Reports (s.setGoalCitation id address)
      (s.addressObjections address ++ s.lineObjections id (LineKind.establishObjections id)) := by
  refine (s.reports_resolveText address).bind fun target _ => ?_
  refine reports_lineAt fun l => ?_
  cases l with
  | goal g => exact .success _
  | _ => exact .failure _ []

end Sheet

namespace Command

theorem reports_settle {s : Sheet} {α : Type} {x : Except EditError α} {es : List EditError}
    (h : Reports x es) (f : α → Reply × Sheet) : Reports (settle s (x.map f)).1 es := by
  cases h with
  | success a => exact .success _
  | failure e es => exact .failure e es

theorem reports_orKeep {t : Sheet} {id : NodeId} {x : Except EditError Sheet} {es : List EditError}
    (h : Reports x es) : Reports ((t.orKeep id x).1.map Reply.added) es := by
  cases h with
  | success u => exact .success _
  | failure e es => exact .failure e es

theorem run_reports {c : Command} (h : c.takes = 0) (s : Sheet) :
    Reports (c.run s).1 (c.objections s) := by
  cases c with
  | addPremise | addGoal | insertStatement | insertSubproof => cases h
  | renumber => exact .success _
  | deletePremise index => exact reports_settle (s.reports_deletePremise index) _
  | deleteGoal index => exact reports_settle (s.reports_deleteGoal index) _
  | deleteStep scope index => exact reports_settle (s.reports_deleteStep scope index) _
  | moveStep scope source target => exact reports_settle (s.reports_moveStep scope source target) _
  | setText id text => exact reports_settle (s.reports_setText id text) _
  | setRule id rule => exact reports_settle (s.reports_setRule id rule) _
  | setCitations id addresses => exact reports_settle (s.reports_setCitations id addresses) _
  | setGoalCitation id address => exact reports_settle (s.reports_setGoalCitation id address) _

/-- A command answers with its first objection, and is carried out if there is none. -/
theorem perform_reports (s : Sheet) (c : Command) : Reports (c.perform s).1 (c.objections s) := by
  by_cases h : c.takes = 0
  · rw [perform_eq_run_of_takes h]
    exact run_reports h s
  · cases c with
    | addPremise =>
        rw [perform_addPremise]
        exact .success _
    | addGoal =>
        rw [perform_addGoal]
        exact .success _
    | insertStatement scope index =>
        rw [perform_insertStatement]
        exact reports_orKeep (s.takeWord.reports_insertStep scope index _)
    | insertSubproof scope index =>
        rw [perform_insertSubproof]
        exact reports_orKeep (s.takeWord.takeWord.reports_insertStep scope index _)
    | _ => exact absurd rfl h

end Command

/-! ## What a refused command leaves behind -/

namespace Sheet

/-- The least number from the next node id on that is above every node id on the sheet. -/
def nextUnused (s : Sheet) : Nat :=
  match (s.entities.map (·.id.val)).max? with
  | none => s.nextId
  | some largest => max s.nextId (largest + 1)

theorem freshId_val (s : Sheet) : s.freshId.val = s.nextUnused := by
  rw [nextUnused, freshId]
  cases h : (s.entities.map (·.id.val)).max? with
  | none =>
      have hnone : s.entities = [] := List.map_eq_nil_iff.1 (List.max?_eq_none_iff.1 h)
      rw [idFloor, hnone]
      exact Nat.max_zero _
  | some largest =>
      obtain ⟨hmem, hle⟩ := List.max?_eq_some_iff.1 h
      obtain ⟨e, he, rfl⟩ := List.mem_map.1 hmem
      have hfloor : (s.entities.map (·.id.val + 1)).max? = some (e.id.val + 1) := by
        refine List.max?_eq_some_iff.2 ⟨List.mem_map.2 ⟨e, he, rfl⟩, List.forall_mem_map.2 ?_⟩
        intro e' he'
        exact Nat.succ_le_succ (hle e'.id.val (List.mem_map.2 ⟨e', he', rfl⟩))
      rw [idFloor, List.foldl_max, hfloor, Option.getD_some, Nat.zero_max]

/-- A number of 32 bits that is counted up to what does not fit is another one. -/
theorem counted_iff {n m : Nat} (hm : m ≤ NodeId.largest) (h : n ≤ NodeId.largest → m = n) :
    m = n ↔ n ≤ NodeId.largest :=
  ⟨fun heq => heq ▸ hm, h⟩

theorem takeWord_counted (s : Sheet) :
    s.takeWord.nextId = s.nextUnused + 1 ↔ s.nextUnused + 1 ≤ NodeId.largest := by
  refine counted_iff (NodeId.after_le _) fun h => ?_
  rw [← freshId_val] at h ⊢
  rw [takeWord_eq h]
  rfl

theorem takeWord_takeWord_counted (s : Sheet) :
    s.takeWord.takeWord.nextId = s.nextUnused + 2 ↔ s.nextUnused + 2 ≤ NodeId.largest := by
  refine counted_iff (NodeId.after_le _) fun h => ?_
  rw [← freshId_val] at h ⊢
  have hsecond : s.takeId.freshId.val < NodeId.largest := by
    rw [freshId_takeId]
    exact h
  rw [takeWord_eq (Nat.lt_of_succ_lt h), takeWord_eq hsecond, takeId, freshId_takeId]

end Sheet

/-- The next node id to expect of a command that is refused.  An insertion has taken its node ids by then:
one for a line, two for a subproof and its assumption. -/
def Command.nextIdRefused (s : Sheet) : Command → Nat
  | .insertStatement .. => s.nextUnused + 1
  | .insertSubproof .. => s.nextUnused + 2
  | _ => s.nextId

namespace Command

variable {s t : Sheet} {e : EditError}

theorem settle_eq_error {α : Type} {x : Except EditError α} {f : α → Reply × Sheet}
    (h : settle s (x.map f) = (.error e, t)) : t = s := by
  cases x with
  | error e' => exact (Prod.mk.inj h).2.symm
  | ok a => cases (Prod.mk.inj h).1

theorem inserted_eq_error {u : Sheet} {scope : List Nat} {index : Nat} {step : Step}
    (h : inserted u scope index step = (.error e, t)) : t = u := by
  rw [inserted] at h
  cases hx : u.insertStep scope index step with
  | error e' =>
      rw [hx] at h
      exact (Prod.mk.inj h).2.symm
  | ok v =>
      rw [hx] at h
      cases (Prod.mk.inj h).1

theorem eq_of_refused {c : Command} (hc : c.takes = 0) (h : c.perform s = (.error e, t)) : t = s := by
  rw [perform_eq_run_of_takes hc] at h
  cases c with
  | addPremise | addGoal | insertStatement | insertSubproof => cases hc
  | renumber => cases h
  | deletePremise | deleteGoal | deleteStep | moveStep | setText | setRule | setCitations
  | setGoalCitation => exact settle_eq_error h

theorem eq_of_perform_error {c : Command} (h : c.perform s = (.error e, t)) :
    t = { s with nextId := t.nextId } ∧
      (t.nextId = c.nextIdRefused s ↔ c.takes = 0 ∨ c.nextIdRefused s ≤ NodeId.largest) := by
  by_cases hc : c.takes = 0
  · have ht : t = s := eq_of_refused hc h
    have hnext : c.nextIdRefused s = s.nextId := by
      cases c with
      | insertStatement | insertSubproof => cases hc
      | _ => rfl
    rw [ht, hnext]
    exact ⟨rfl, iff_of_true rfl (.inl hc)⟩
  · rw [or_iff_right hc]
    cases c with
    | addPremise =>
        rw [perform_addPremise] at h
        cases h
    | addGoal =>
        rw [perform_addGoal] at h
        cases h
    | insertStatement scope index =>
        rw [perform_insertStatement] at h
        obtain rfl := inserted_eq_error h
        exact ⟨rfl, s.takeWord_counted⟩
    | insertSubproof scope index =>
        rw [perform_insertSubproof] at h
        obtain rfl := inserted_eq_error h
        exact ⟨rfl, s.takeWord_takeWord_counted⟩
    | _ => exact absurd rfl hc

end Command

end ProofSheet
