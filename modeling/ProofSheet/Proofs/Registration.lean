/-
# A rule that was just accepted

When a verifier has accepted a sheet as a rule, the session knows the rule at once: the rule book has an
answer for the name, so no sheet lacks a payload for the sake of that name, and every line that names
the rule is told by the answer (`Session.Knows`).

What the answer is depends on the name alone.  It is the name itself, except for the short names of the
built-in rules: these come first, so a rule that was accepted under such a name cannot be told, and the
built-in rule goes on being told in its place.
-/
import ProofSheet.Proofs.Exchange
import ProofSheet.Proofs.Justification

namespace ProofSheet

/-! ## What an attempt can fail with -/

section

variable {ε α β : Type} {P : ε → Prop}

/-- Whatever the attempt `x` fails with satisfies `P`. -/
def FailsOnly (P : ε → Prop) (x : Except ε α) : Prop := ∀ e, x = .error e → P e

theorem failsOnly_ok (a : α) : FailsOnly P (.ok a) := by
  intro e h
  cases h

theorem failsOnly_error {e : ε} (h : P e) : FailsOnly P (.error e : Except ε α) := by
  intro e' he
  cases he
  exact h

theorem FailsOnly.bind {x : Except ε α} {k : α → Except ε β} (hx : FailsOnly P x)
    (hk : ∀ a, FailsOnly P (k a)) : FailsOnly P (x >>= k) := by
  cases x with
  | error e => exact failsOnly_error (hx e rfl)
  | ok a => exact hk a

theorem failsOnly_mapM {f : α → Except ε β} (h : ∀ x, FailsOnly P (f x)) (xs : List α) :
    FailsOnly P (xs.mapM f) := by
  induction xs with
  | nil => exact failsOnly_ok []
  | cons x xs ih =>
      rw [List.mapM_cons]
      exact (h x).bind fun y => ih.bind fun ys => failsOnly_ok (y :: ys)

end

/-! ## Faults about a rule -/

/-- A fault that is about a rule is about one that the book has no answer for. -/
def Fault.Founded (b : RuleBook) (f : Fault) : Prop :=
  ∀ line rule, f = .unmappedRule line rule → b.resolve? rule = none

namespace Payload

variable {b : RuleBook} {d : Directory}

theorem founded_address (id : NodeId) : FailsOnly (Fault.Founded b) (d.address id) := by
  rw [Directory.address]
  split
  · exact failsOnly_ok _
  · exact failsOnly_error fun _ _ h => by cases h

theorem founded_formulaAt (line : Address) (r : Reading) :
    FailsOnly (Fault.Founded b) (r.formulaAt line) := by
  rw [Reading.formulaAt]
  split
  · exact failsOnly_ok _
  · exact failsOnly_error fun _ _ h => by cases h

theorem founded_cite (line : Address) (target : NodeId) :
    FailsOnly (Fault.Founded b) (d.cite line target) := by
  rw [Directory.cite]
  split
  · exact failsOnly_error fun _ _ h => by cases h
  · split
    · exact failsOnly_ok _
    · exact failsOnly_error fun _ _ h => by cases h

theorem founded_assumption (id : NodeId) (r : Reading) :
    FailsOnly (Fault.Founded b) (assumption d id r) :=
  (founded_address id).bind fun line => (founded_formulaAt line r).bind fun _ => failsOnly_ok _

theorem founded_inference (s : Statement) : FailsOnly (Fault.Founded b) (inference b d s) := by
  refine (founded_address s.id).bind fun line => ?_
  cases hrule : b.resolve? s.rule with
  | none =>
      refine failsOnly_error ?_
      rintro _ _ ⟨⟩
      exact hrule
  | some rule =>
      exact (founded_formulaAt line s.reading).bind fun _ =>
        (failsOnly_mapM (founded_cite line) s.citations).bind fun _ => failsOnly_ok _

theorem founded_conclusion (g : Goal) : FailsOnly (Fault.Founded b) (conclusion d g) := by
  refine (founded_address g.id).bind fun line => ?_
  cases g.citation with
  | none => exact failsOnly_error fun _ _ h => by cases h
  | some target =>
      exact (founded_formulaAt line g.reading).bind fun _ =>
        (founded_cite line target).bind fun _ => failsOnly_ok _

theorem founded_items (ss : List Step) : FailsOnly (Fault.Founded b) (items b d ss) := by
  induction ss using Step.forestInduction with
  | nil => exact failsOnly_ok []
  | line s ss ih =>
      rw [items, item]
      exact ((founded_inference s).bind fun _ => failsOnly_ok _).bind fun _ =>
        ih.bind fun _ => failsOnly_ok _
  | subproof id a body n ss ihb ih =>
      rw [items, item]
      refine ((founded_address id).bind fun line => ?_).bind fun _ => ih.bind fun _ => failsOnly_ok _
      exact (founded_assumption a.id a.reading).bind fun _ => ihb.bind fun _ => failsOnly_ok _

/-- A sheet lacks a payload for a rule only if the book has no answer for it. -/
theorem founded_ofSheet (b : RuleBook) (s : Sheet) : FailsOnly (Fault.Founded b) (ofSheet b s) := by
  have hdirectory : FailsOnly (Fault.Founded b) (Directory.ofSheet s) := by
    have hentries : FailsOnly (Fault.Founded b) (s.entities.mapM Directory.entry) := by
      refine failsOnly_mapM (fun e => ?_) s.entities
      rw [Directory.entry]
      split
      · exact failsOnly_ok _
      · exact failsOnly_error fun _ _ h => by cases h
    exact hentries.bind fun _ => failsOnly_ok _
  exact hdirectory.bind fun d =>
    (failsOnly_mapM (fun p => founded_assumption p.id p.reading) s.premises).bind fun _ =>
      (founded_items s.steps).bind fun _ =>
        (failsOnly_mapM founded_conclusion s.goals).bind fun _ => failsOnly_ok _

end Payload

/-! ## Sessions that know a rule -/

namespace Session

/-- The session knows the rule `name`, and a verifier is told `told` for it, whatever the sheet. -/
structure Knows (s : Session) (name told : String) : Prop where
  /-- The rule book has the answer. -/
  resolves : s.rules.resolve? name = some told
  /-- A line that names the rule has a record as soon as its address, its formula and its citations
  are in order. -/
  converts : ∀ (d : Directory) (st : Statement) (a : Address) (f : Formula) (qs : List String),
    st.rule = name → d.lookup st.id = some a → st.reading.formula? = some f →
    List.Forall₂ (fun c q => d.cite a c = .ok q) st.citations qs →
    Payload.inference s.rules d st = .ok { id := a.print, formula := f, rule := told, premises := qs }
  /-- No sheet lacks a payload because a line names the rule. -/
  blameless : ∀ (t : Sheet) (line : Address),
    ({ s with sheet := t } : Session).payload ≠ .error (.unmappedRule line name)
  /-- In a payload every line that names the rule is told by the answer. -/
  told : ∀ (t : Sheet) (p : Payload), ({ s with sheet := t } : Session).payload = .ok p →
    List.Forall₂ (fun l r => ∀ st, l = .statement st → st.rule = name →
      ∃ i, r = .inference i ∧ i.rule = told) t.lines p.lineRecords

theorem knows_of_resolve? {s : Session} {name answer : String}
    (h : s.rules.resolve? name = some answer) : s.Knows name answer where
  resolves := h
  converts := by
    rintro d st a f qs rfl ha hf hqs
    exact Payload.inference_eq_ok.2 ⟨a, ha, rfl, h, hf, hqs⟩
  blameless := by
    intro t line hfail
    have hnone := Payload.founded_ofSheet s.rules t _ hfail line name rfl
    rw [h] at hnone
    cases hnone
  told := by
    intro t p hp
    obtain ⟨d, hlines⟩ := Payload.yields_ofSheet hp
    refine hlines.imp ?_
    rintro l r hlr st rfl rfl
    cases r with
    | assumption x => exact hlr.elim
    | inference i =>
        obtain ⟨a, -, -, hrule, -⟩ := Payload.inference_eq_ok.1 hlr
        exact ⟨i, rfl, Option.some.inj (hrule.symm.trans h)⟩

variable {σ : Type} {s s' : Session} {name : String} {v : Verifier σ} {state state' : σ}

theorem rules_of_register (h : s.register name v state = (.ok .valid, s', state')) :
    s'.rules = s.rules.insert name := by
  rw [register] at h
  split at h
  · cases h
  · split at h
    · cases h
      rfl
    · -- any other answer is handed on as it is, and so was not this one
      rename_i hother _
      cases h
      exact absurd rfl hother

/-- Whatever a verifier is: once it has accepted a sheet as a rule, under a name that is not reserved,
the session knows the rule.  It is told by its name, unless that is the short name of a built-in rule;
then the built-in rule is told, by its long name. -/
theorem registered_rule_known (hnone : name ≠ "none") (hassumption : name ≠ "Assumption")
    (h : s.register name v state = (.ok .valid, s', state')) :
    ((∀ r : Rule, r.shortName ≠ name) → s'.Knows name name) ∧
    ∀ r : Rule, r.shortName = name → s'.Knows name r.longName := by
  have hrules := rules_of_register h
  constructor
  · intro hcustom
    have hreserved : isReservedRule name = false := by
      rw [isReservedRule, Bool.or_eq_false_iff]
      exact ⟨beq_eq_false_iff_ne.2 hnone, beq_eq_false_iff_ne.2 hassumption⟩
    have hmem : name ∈ s'.rules.custom := by
      rw [hrules, RuleBook.custom_insert]
      split
      · rename_i hthere
        exact hthere.resolve_left (by simp [hreserved])
      · exact List.mem_append_right _ List.mem_cons_self
    exact knows_of_resolve? (RuleBook.resolve?_eq_some.2 (.inr ⟨hcustom, rfl, hmem⟩))
  · rintro r rfl
    exact knows_of_resolve? (s'.rules.resolve?_shortName r)

/-- A rule that is accepted as `Modus Tollens` is told so, and one that is accepted as `Reit` is never
told: lines with that name are told as reiterations. -/
theorem accepted_rules_known :
    (({} : Session).register "Modus Tollens" .accepting () =
        (.ok .valid, { rules := ⟨["Modus Tollens"]⟩ }, ()) ∧
      Knows { rules := ⟨["Modus Tollens"]⟩ } "Modus Tollens" "Modus Tollens") ∧
    ({} : Session).register "Reit" .accepting () = (.ok .valid, { rules := ⟨["Reit"]⟩ }, ()) ∧
      Knows { rules := ⟨["Reit"]⟩ } "Reit" "Reiteration" := by
  have hcustom : ∀ r : Rule, r.shortName ≠ "Modus Tollens" := by
    intro r
    cases r <;> decide
  have hnew : ({} : Session).register "Modus Tollens" .accepting () =
      (.ok .valid, { rules := ⟨["Modus Tollens"]⟩ }, ()) := rfl
  have hold : ({} : Session).register "Reit" .accepting () =
      (.ok .valid, { rules := ⟨["Reit"]⟩ }, ()) := rfl
  exact ⟨⟨hnew, (registered_rule_known (by decide) (by decide) hnew).1 hcustom⟩,
    hold, (registered_rule_known (by decide) (by decide) hold).2 .reiteration rfl⟩

/-- Not every rule that was accepted is told by its name: the name may belong to a built-in rule. -/
theorem registered_not_all_verbatim :
    ¬ ∀ (s s' : Session) (name : String) (v : Verifier Unit),
      s.register name v () = (.ok .valid, s', ()) → s'.rules.resolve? name = some name := by
  intro h
  have hverbatim := h {} { rules := ⟨["Reit"]⟩ } "Reit" .accepting rfl
  exact absurd hverbatim (by decide)

end Session

end ProofSheet
