/-
# From a rejection back to the sheet

A verifier that rejects a payload names a record by its id.  Looking that id up on the sheet inverts
the making of the payload: every record of whatever kind leads back to the thing it was made from
(`Payload.mirrors_ofSheet`), although ids are read as typed addresses are, with blanks, leading zeros
and plus signs allowed.  And whatever a verifier may name, what is found is the one thing with that
address.
-/
import ProofSheet.Verifier.Basic
import ProofSheet.Proofs.Records

namespace ProofSheet

/-! ## Payloads that mirror a sheet -/

/-- Items have the shape of some steps, and `R` relates each line, subproof and assumption among the
steps to the id of the record in its place. -/
inductive Item.Mirror (R : Entity → String → Prop) : List Step → List Item → Prop
  | nil : Mirror R [] []
  | line {s : Statement} {i : Inference} {ss : List Step} {is : List Item} :
      R (.statement s) i.id → Mirror R ss is → Mirror R (.line s :: ss) (.inference i :: is)
  | subproof {id : NodeId} {a : Statement} {body : List Step} {n : Option Address} {line : String}
      {x : Assumption} {ks : List Item} {ss : List Step} {is : List Item} :
      R (.subproof id a body n) line → R (.statement a) x.id → Mirror R body ks → Mirror R ss is →
      Mirror R (.subproof id a body n :: ss) (.subproof line x ks :: is)

/-- A payload has the shape of a sheet, and `R` relates each thing on the sheet to the id of the record
in its place. -/
structure Payload.Mirrors (R : Entity → String → Prop) (s : Sheet) (p : Payload) : Prop where
  premises : List.Forall₂ (fun u x => R (.premise u) x.id) s.premises p.premises
  steps : Item.Mirror R s.steps p.steps
  conclusions : List.Forall₂ (fun g i => R (.goal g) i.id) s.goals p.conclusions

namespace Payload

variable {b : RuleBook} {d : Directory}

def Listed (d : Directory) (e : Entity) (id : String) : Prop :=
  ∃ a, d.lookup e.id = some a ∧ a.print = id

theorem mirror_items (ss : List Step) :
    ∀ {is : List Item}, items b d ss = .ok is → Item.Mirror (Listed d) ss is := by
  induction ss using Step.forestInduction with
  | nil =>
      intro is h
      cases h
      exact .nil
  | line s ss ih =>
      intro is h
      obtain ⟨i, js, hi, hjs, rfl⟩ := items_line_eq_ok.1 h
      obtain ⟨a, ha, hid, -⟩ := inference_eq_ok.1 hi
      exact .line ⟨a, ha, hid⟩ (ih hjs)
  | subproof id a body n ss ihb ih =>
      intro is h
      obtain ⟨line, x, ks, js, hline, hx, hks, hjs, rfl⟩ := items_subproof_eq_ok.1 h
      obtain ⟨c, hc, hid, -⟩ := assumption_eq_ok.1 hx
      exact .subproof ⟨line, hline, rfl⟩ ⟨c, hc, hid⟩ (ihb hks) (ih hjs)

end Payload

theorem Item.Mirror.imp {R R' : Entity → String → Prop} (hR : ∀ e id, R e id → R' e id)
    {ss : List Step} {is : List Item} (h : Mirror R ss is) : Mirror R' ss is := by
  induction h with
  | nil => exact .nil
  | line hs _ ih => exact .line (hR _ _ hs) ih
  | subproof hself hopening _ _ ihb ih => exact .subproof (hR _ _ hself) (hR _ _ hopening) ihb ih

theorem Payload.mirrors_ofSheet {b : RuleBook} {s : Sheet} {p : Payload} (h : ofSheet b s = .ok p) :
    ∃ d, Directory.ofSheet s = .ok d ∧ Mirrors (Listed d) s p := by
  obtain ⟨d, hd, hps, his, hcs⟩ := ofSheet_eq_ok.1 h
  refine ⟨d, hd, hps.imp ?_, mirror_items s.steps his, hcs.imp ?_⟩
  · intro u x hx
    obtain ⟨a, ha, hid, -⟩ := assumption_eq_ok.1 hx
    exact ⟨a, ha, hid⟩
  · intro g i hi
    obtain ⟨a, -, -, ha, hid, -⟩ := conclusion_eq_ok.1 hi
    exact ⟨a, ha, hid⟩

theorem Payload.Mirrors.imp {R R' : Entity → String → Prop} (hR : ∀ e id, R e id → R' e id)
    {s : Sheet} {p : Payload} (h : Mirrors R s p) : Mirrors R' s p :=
  ⟨h.premises.imp fun _ _ => hR _ _, h.steps.imp hR, h.conclusions.imp fun _ _ => hR _ _⟩

/-! ## Finding the way back -/

namespace Sheet

variable {s : Sheet}

/-- On a sheet in good order, the id that the directory says of a thing leads back to it. -/
theorem Invariant.locate?_listed (h : s.Invariant)
    (hsize : s.entities.length ≤ Address.maxPosition) {d : Directory}
    (hd : Directory.ofSheet s = .ok d) {e : Entity} {line : String}
    (hline : Payload.Listed d e line) (message : String) :
    s.locate? (.invalid (some line) message) = some e.id := by
  obtain ⟨a, ha, rfl⟩ := hline
  obtain ⟨f, hf, hsame, hnumber⟩ := Directory.exists_of_lookup hd ha
  have htypable : a.Typable := Numbered.typable h.numbered hsize hf hnumber
  rw [locate?, Address.parse?_print htypable, Option.bind_some,
    Numbered.resolve? h.numbered hf hnumber, hsame]

theorem Invariant.locate?_eq_some (h : s.Invariant) {line message : String} {id : NodeId}
    (hid : s.locate? (.invalid (some line) message) = some id) :
    ∃ a e, Address.parse? line = some a ∧ e ∈ s.entities ∧ e.id = id ∧ e.number = some a ∧
      ∀ f ∈ s.entities, f.id = id ∨ f.number = some a → f = e := by
  obtain ⟨a, ha, hresolve⟩ := Option.bind_eq_some_iff.1 hid
  obtain ⟨e, he, hnumber, rfl⟩ := exists_of_resolve? hresolve
  refine ⟨a, e, ha, he, rfl, hnumber, ?_⟩
  intro f hf hsame
  rcases hsame with hsame | hsame
  · exact List.inj_on_of_nodup_map h.distinct hf he hsame
  · exact List.inj_on_of_nodup_map (Numbered.nodup h.numbered) hf he (hsame.trans hnumber.symm)

end Sheet

/-- Every record of a payload, named in a rejection, leads back to the thing that it was made from, on
a sheet that edits lead to and whose positions can all be typed.  And any text that leads anywhere
is one for the address of what is found, and nothing else has that address. -/
theorem Payload.rejections_lead_back (b : RuleBook) {s : Sheet} (hs : s.Reachable) :
    (∀ p, ofSheet b s = .ok p → s.entities.length ≤ Address.maxPosition →
      Mirrors (fun e line => ∀ message, s.locate? (.invalid (some line) message) = some e.id) s p) ∧
    ∀ line message id, s.locate? (.invalid (some line) message) = some id →
      ∃ a e, Address.parse? line = some a ∧ e ∈ s.entities ∧ e.id = id ∧ e.number = some a ∧
        ∀ f ∈ s.entities, f.id = id ∨ f.number = some a → f = e := by
  have hinv := hs.invariant
  constructor
  · intro p hp hsize
    obtain ⟨d, hd, hmirrors⟩ := mirrors_ofSheet hp
    exact hmirrors.imp fun e line hline => hinv.locate?_listed hsize hd hline
  · intro line message id hid
    exact hinv.locate?_eq_some hid

/-- The second line of the subproof can also be named with blanks, a plus sign and a zero. -/
theorem Payload.weakening_leads_back : ∃ s p, s = Command.runAll {} weakening ∧
    ofSheet {} s = .ok p ∧ s.entities.length ≤ Address.maxPosition ∧
    Mirrors (fun e line => ∀ message, s.locate? (.invalid (some line) message) = some e.id) s p ∧
    s.locate? (.invalid (some " +2.02 ") "no") = some ⟨3⟩ ∧
    ∃ a e, Address.parse? " +2.02 " = some a ∧ e ∈ s.entities ∧ e.id = ⟨3⟩ ∧ e.number = some a ∧
      ∀ f ∈ s.entities, f.id = ⟨3⟩ ∨ f.number = some a → f = e := by
  have hok : (ofSheet {} (Command.runAll {} weakening)).toBool = true := by
    decide +kernel
  have hsize : (Command.runAll {} weakening).entities.length ≤ Address.maxPosition := by
    decide +kernel
  have hfound : (Command.runAll {} weakening).locate? (.invalid (some " +2.02 ") "no") =
      some ⟨3⟩ := by
    decide +kernel
  obtain ⟨hrecords, htexts⟩ := rejections_lead_back {} (s := Command.runAll {} weakening)
    ⟨weakening, rfl⟩
  cases h : ofSheet {} (Command.runAll {} weakening) with
  | error f =>
      rw [h] at hok
      cases hok
  | ok p =>
      exact ⟨_, p, rfl, h, hsize, hrecords p h hsize, hfound, htexts _ _ _ hfound⟩

end ProofSheet
