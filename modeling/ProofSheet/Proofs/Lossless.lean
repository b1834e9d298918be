/-
# What the text of a payload says

The JSON text of a payload tells it apart from every other payload (`Payload.text_injective`), so
what a verifier is sent decides what it is asked to check.

Two sheets correspond when they have the same shape, and line by line the same formula, the same
rule by the rule book and citations of the same places.  For sheets that edits lead to, this is so
exactly when their payloads have the same text: neither what was typed nor which node ids were handed
out can be seen in it, and all the rest can.
-/
import ProofSheet.Proofs.Delivery
import ProofSheet.Proofs.Records

namespace ProofSheet

/-! ## The trees of payloads -/

namespace Json

@[simp] theorem text_inj {s t : String} : text s = text t ↔ s = t := by
  simp [text]

@[simp] theorem record_inj {ms ns : List (String × Json)} : record ms = record ns ↔ ms = ns := by
  rw [record, record, Json.object.injEq]
  refine List.map_inj_right ?_
  rintro ⟨m, j⟩ ⟨n, k⟩ ⟨⟩
  rfl

end Json

theorem Term.toJson_injective : Function.Injective Term.toJson := by
  intro t u h
  cases t <;> cases u <;> simp_all [toJson, jsonKind, name]

theorem Connective.jsonName_injective : Function.Injective Connective.jsonName := by
  intro c e h
  cases c <;> cases e <;> first | rfl | simp [jsonName] at h

theorem Quantifier.jsonName_injective : Function.Injective Quantifier.jsonName := by
  intro q r h
  cases q <;> cases r <;> first | rfl | simp [jsonName] at h

namespace Formula

theorem wireArgs_injective : Function.Injective wireArgs := by
  intro ts us h
  cases ts with
  | nil => cases us <;> simp_all [wireArgs]
  | cons t ts =>
      cases us with
      | nil => simp [wireArgs] at h
      | cons u us =>
          simp only [wireArgs, List.cons.injEq, Prod.mk.injEq, Json.array.injEq] at h
          exact (List.map_inj_right Term.toJson_injective).1 h.1.2

theorem toWire_injective : Function.Injective toWire := by
  intro f
  induction f with
  | predicate name args =>
      intro g h
      cases g with
      | predicate name' args' =>
          obtain ⟨hname, hargs⟩ : name = name' ∧ wireArgs args = wireArgs args' := by
            simpa [toWire] using h
          rw [hname, wireArgs_injective hargs]
      | _ => simp [toWire] at h
  | bottom =>
      intro g h
      cases g with
      | bottom => rfl
      | _ => simp [toWire] at h
  | neg f ih =>
      intro g h
      cases g with
      | neg g =>
          have hf : f.toWire = g.toWire := by simpa [toWire] using h
          rw [ih hf]
      | _ => simp [toWire] at h
  | binary c l r ihl ihr =>
      intro g h
      cases g with
      | binary c' l' r' =>
          obtain ⟨hc, hl, hr⟩ :
              c.jsonName = c'.jsonName ∧ l.toWire = l'.toWire ∧ r.toWire = r'.toWire := by
            simpa [toWire] using h
          rw [Connective.jsonName_injective hc, ihl hl, ihr hr]
      | _ => simp [toWire] at h
  | quantified q x f ih =>
      intro g h
      cases g with
      | quantified q' y g =>
          obtain ⟨hq, hx, hf⟩ : q.jsonName = q'.jsonName ∧ x = y ∧ f.toWire = g.toWire := by
            simpa [toWire] using h
          rw [Quantifier.jsonName_injective hq, hx, ih hf]
      | _ => simp [toWire] at h

end Formula

theorem Assumption.toJson_injective : Function.Injective Assumption.toJson := by
  rintro ⟨i, f, r⟩ ⟨j, g, u⟩ h
  obtain ⟨hi, hf, hr⟩ : i = j ∧ f.toWire = g.toWire ∧ r = u := by
    simpa [toJson] using h
  rw [hi, Formula.toWire_injective hf, hr]

theorem Inference.toJson_injective : Function.Injective Inference.toJson := by
  rintro ⟨i, f, r, ps⟩ ⟨j, g, u, qs⟩ h
  obtain ⟨hi, hf, hr, hps⟩ :
      i = j ∧ f.toWire = g.toWire ∧ r = u ∧ ps.map Json.text = qs.map Json.text := by
    simpa [toJson] using h
  rw [hi, Formula.toWire_injective hf, hr, (List.map_inj_right fun _ _ => Json.text_inj.1).1 hps]

namespace Item

mutual

theorem toJson_injective : ∀ {i j : Item}, i.toJson = j.toJson → i = j
  | .subproof x a is, .subproof y c js, h => by
      obtain ⟨hid, ha, hsteps⟩ :
          x = y ∧ a.toJson = c.toJson ∧ toJsonAll is = toJsonAll js := by
        simpa [toJson] using h
      rw [hid, Assumption.toJson_injective ha, toJsonAll_injective hsteps]
  | .inference i, .inference j, h => by
      rw [toJson, toJson] at h
      rw [Inference.toJson_injective h]
  | .subproof x a is, .inference j, h => by
      -- the second member is the type of the one and the formula of the other
      simp [toJson, Inference.toJson] at h
  | .inference i, .subproof y c js, h => by
      simp [toJson, Inference.toJson] at h

theorem toJsonAll_injective : ∀ {is js : List Item}, toJsonAll is = toJsonAll js → is = js
  | [], [], _ => rfl
  | i :: is, j :: js, h => by
      rw [toJsonAll, toJsonAll, List.cons.injEq] at h
      rw [toJson_injective h.1, toJsonAll_injective h.2]
  | [], j :: js, h => by cases h
  | i :: is, [], h => by cases h

end

end Item

namespace Payload

theorem toJson_injective : Function.Injective toJson := by
  rintro ⟨ps, is, cs⟩ ⟨qs, js, es⟩ h
  obtain ⟨hps, his, hcs⟩ : ps.map Assumption.toJson = qs.map Assumption.toJson ∧
      Item.toJsonAll is = Item.toJsonAll js ∧
      cs.map Inference.toJson = es.map Inference.toJson := by
    simpa [toJson] using h
  rw [(List.map_inj_right Assumption.toJson_injective).1 hps, Item.toJsonAll_injective his,
    (List.map_inj_right Inference.toJson_injective).1 hcs]

theorem text_injective : Function.Injective text := by
  intro p q h
  exact toJson_injective (Json.print_injective p.ordinary_toJson.plain q.ordinary_toJson.plain h)

end Payload

/-! ## Sheets that correspond -/

/-- Two lists of steps have the same shape, and in the same places the same formulas, the same rules
by a rule book and citations that go together. -/
inductive Step.Corresponds (b : RuleBook) (same : NodeId → NodeId → Prop) :
    List Step → List Step → Prop
  | nil : Corresponds b same [] []
  | line {s t : Statement} {ss ts : List Step} (formula : s.reading.formula? = t.reading.formula?)
      (rule : b.resolve? s.rule = b.resolve? t.rule)
      (citations : List.Forall₂ same s.citations t.citations) :
      Corresponds b same ss ts → Corresponds b same (.line s :: ss) (.line t :: ts)
  | subproof {i j : NodeId} {a c : Statement} {body body' ss ts : List Step} {m n : Option Address}
      (formula : a.reading.formula? = c.reading.formula?) :
      Corresponds b same body body' → Corresponds b same ss ts →
      Corresponds b same (.subproof i a body m :: ss) (.subproof j c body' n :: ts)

namespace Sheet

/-- The things with the node ids `c` on `s` and `c'` on `t` are at the same place. -/
def SamePlace (s t : Sheet) (c c' : NodeId) : Prop :=
  ∃ i : Nat, s.entities[i]?.map Entity.id = some c ∧ t.entities[i]?.map Entity.id = some c'

/-- Two sheets have the same shape, and in the same places the same formulas, the same rules by a
rule book and citations of the same places. -/
structure Corresponds (b : RuleBook) (s t : Sheet) : Prop where
  premises : List.Forall₂ (fun u v => u.reading.formula? = v.reading.formula?) s.premises t.premises
  steps : Step.Corresponds b (SamePlace s t) s.steps t.steps
  goals : List.Forall₂ (fun g h => g.reading.formula? = h.reading.formula? ∧
    Option.Rel (SamePlace s t) g.citation h.citation) s.goals t.goals

end Sheet

/-! ## One payload, corresponding sheets -/

/-- Two directories give two node ids the same dotted form. -/
def Directory.Agree (d d' : Directory) (c c' : NodeId) : Prop :=
  ∃ a a', d.lookup c = some a ∧ d'.lookup c' = some a' ∧ a.print = a'.print

theorem Step.Corresponds.imp {b : RuleBook} {R R' : NodeId → NodeId → Prop} {ss ts : List Step}
    (hR : ∀ c c', R c c' → R' c c') (h : Corresponds b R ss ts) : Corresponds b R' ss ts := by
  induction h with
  | nil => exact .nil
  | line hf hr hc _ ih => exact .line hf hr (hc.imp hR) ih
  | subproof hf _ _ ihb ih => exact .subproof hf ihb ih

namespace Payload

variable {b : RuleBook} {d d' : Directory}

theorem agree_of_cite {line line' : Address} {c c' : NodeId} {q : String}
    (h : d.cite line c = .ok q) (h' : d'.cite line' c' = .ok q) : d.Agree d' c c' := by
  obtain ⟨a, ha, -, hq⟩ := Directory.cite_eq_ok.1 h
  obtain ⟨a', ha', -, hq'⟩ := Directory.cite_eq_ok.1 h'
  exact ⟨a, a', ha, ha', hq.trans hq'.symm⟩

theorem formula_of_assumption {i j : NodeId} {r u : Reading} {x : Assumption}
    (h : assumption d i r = .ok x) (h' : assumption d' j u = .ok x) : r.formula? = u.formula? := by
  obtain ⟨a, -, -, hf, -⟩ := assumption_eq_ok.1 h
  obtain ⟨a', -, -, hf', -⟩ := assumption_eq_ok.1 h'
  exact hf.trans hf'.symm

theorem corresponds_of_items (ss : List Step) :
    ∀ {ts : List Step} {is : List Item}, items b d ss = .ok is → items b d' ts = .ok is →
      Step.Corresponds b (d.Agree d') ss ts := by
  induction ss using Step.forestInduction with
  | nil =>
      intro ts is h h'
      cases h
      cases ts using Step.forestInduction with
      | nil => exact .nil
      | line t ts _ =>
          obtain ⟨i, js, -, -, he⟩ := items_line_eq_ok.1 h'
          cases he
      | subproof j c body' n ts _ _ =>
          obtain ⟨line, x, ks, js, -, -, -, -, he⟩ := items_subproof_eq_ok.1 h'
          cases he
  | line s ss ih =>
      intro ts is h h'
      obtain ⟨i, js, hi, hjs, rfl⟩ := items_line_eq_ok.1 h
      cases ts using Step.forestInduction with
      | nil => cases h'
      | line t ts _ =>
          obtain ⟨i', js', hi', hjs', he⟩ := items_line_eq_ok.1 h'
          cases he
          obtain ⟨a, -, -, hr, hf, hqs⟩ := inference_eq_ok.1 hi
          obtain ⟨a', -, -, hr', hf', hqs'⟩ := inference_eq_ok.1 hi'
          have hcitations : List.Forall₂ (d.Agree d') s.citations t.citations :=
            forall₂_comp hqs hqs'.flip fun _ _ _ hc hc' => agree_of_cite hc hc'
          exact .line (hf.trans hf'.symm) (hr.trans hr'.symm) hcitations (ih hjs hjs')
      | subproof j c body' n ts _ _ =>
          obtain ⟨line, x, ks, js', -, -, -, -, he⟩ := items_subproof_eq_ok.1 h'
          cases he
  | subproof id a body n ss ihb ih =>
      intro ts is h h'
      obtain ⟨line, x, ks, js, -, hx, hks, hjs, rfl⟩ := items_subproof_eq_ok.1 h
      cases ts using Step.forestInduction with
      | nil => cases h'
      | line t ts _ =>
          obtain ⟨i, js', -, -, he⟩ := items_line_eq_ok.1 h'
          cases he
      | subproof j c body' n ts _ _ =>
          obtain ⟨line', x', ks', js', -, hx', hks', hjs', he⟩ := items_subproof_eq_ok.1 h'
          simp only [List.cons.injEq, Item.subproof.injEq] at he
          obtain ⟨⟨-, rfl, rfl⟩, rfl⟩ := he
          exact .subproof (formula_of_assumption hx hx') (ihb hks hks') (ih hjs hjs')

theorem same_of_agree {s t : Sheet} {p : Payload} (hs : s.Invariant) (ht : t.Invariant)
    (hp : ofSheet b s = .ok p) (hp' : ofSheet b t = .ok p) (hd : Directory.ofSheet s = .ok d)
    (hd' : Directory.ofSheet t = .ok d') {c c' : NodeId} (h : d.Agree d' c c') :
    s.SamePlace t c c' := by
  obtain ⟨a, a', ha, ha', hprint⟩ := h
  obtain ⟨e, he, rfl, hnumber⟩ := Directory.exists_of_lookup hd ha
  obtain ⟨e', he', rfl, hnumber'⟩ := Directory.exists_of_lookup hd' ha'
  obtain ⟨i, hi⟩ := List.mem_iff_getElem?.1 he
  obtain ⟨j, hj⟩ := List.mem_iff_getElem?.1 he'
  -- both are at the place of the one record with that id
  have hrecords := handed_ofSheet hs hp
  have hnodup : (p.records.map fun r => some r.id).Nodup := by
    have hsome := (nodup_id_records hs hrecords).map (Option.some_injective _)
    rwa [List.map_map] at hsome
  have hid : (p.records.map fun r => some r.id)[i]? = some (some a.print) := by
    rw [map_id_records hrecords, List.getElem?_map, hi, Option.map_some, hnumber, Option.map_some]
  have hid' : (p.records.map fun r => some r.id)[j]? = some (some a.print) := by
    rw [map_id_records (handed_ofSheet ht hp'), List.getElem?_map, hj, Option.map_some, hnumber',
      Option.map_some, hprint]
  obtain ⟨hlt, -⟩ := List.getElem?_eq_some_iff.1 hid
  obtain rfl : i = j := (List.getElem?_inj hlt hnodup).1 (hid.trans hid'.symm)
  exact ⟨i, by rw [hi, Option.map_some], by rw [hj, Option.map_some]⟩

theorem corresponds_of_eq {s t : Sheet} {p : Payload} (hs : s.Invariant) (ht : t.Invariant)
    (hp : ofSheet b s = .ok p) (hp' : ofSheet b t = .ok p) : s.Corresponds b t := by
  obtain ⟨d, hd, hps, his, hcs⟩ := ofSheet_eq_ok.1 hp
  obtain ⟨d', hd', hps', his', hcs'⟩ := ofSheet_eq_ok.1 hp'
  have hsame : ∀ c c', d.Agree d' c c' → s.SamePlace t c c' := fun c c' h =>
    same_of_agree hs ht hp hp' hd hd' h
  refine ⟨?_, (corresponds_of_items s.steps his his').imp hsame, ?_⟩
  · exact forall₂_comp hps hps'.flip fun _ _ _ h h' => formula_of_assumption h h'
  · refine forall₂_comp hcs hcs'.flip ?_
    intro g i g' h h'
    obtain ⟨a, c, q, -, -, -, hf, hc, hq, hpremises⟩ := conclusion_eq_ok.1 h
    obtain ⟨a', c', q', -, -, -, hf', hc', hq', hpremises'⟩ := conclusion_eq_ok.1 h'
    obtain rfl : q = q' := List.singleton_inj.1 (hpremises.symm.trans hpremises')
    refine ⟨hf.trans hf'.symm, ?_⟩
    rw [hc, hc']
    exact .some (hsame c c' (agree_of_cite hq hq'))

end Payload

/-! ## Corresponding sheets, one payload

Numbering sees only the shape of a sheet, so things at the same place have the same address. -/

namespace Step

variable {b : RuleBook} {R : NodeId → NodeId → Prop} {ss ts : List Step}

theorem Corresponds.length_eq (h : Corresponds b R ss ts) : ss.length = ts.length := by
  induction h with
  | nil => rfl
  | line _ _ _ _ ih => rw [List.length_cons, List.length_cons, ih]
  | subproof _ _ _ _ ih => rw [List.length_cons, List.length_cons, ih]

theorem Corresponds.length_entitiesOf (h : Corresponds b R ss ts) :
    (entitiesOf ss).length = (entitiesOf ts).length := by
  induction h with
  | nil => rfl
  | line _ _ _ _ ih => simp [entitiesOf, entities, ih]
  | subproof _ _ _ ihb ih => simp [entitiesOf, entities, ihb, ih]

theorem Corresponds.map_number (h : Corresponds b R ss ts) :
    ∀ {slot : Nat → Address}, Numbered slot ss → Numbered slot ts →
      (entitiesOf ss).map Entity.number = (entitiesOf ts).map Entity.number := by
  induction h with
  | nil =>
      intro slot _ _
      rfl
  | line _ _ _ _ ih =>
      intro slot hs ht
      obtain ⟨hn, hs⟩ := numbered_line.1 hs
      obtain ⟨hn', ht⟩ := numbered_line.1 ht
      simp only [entitiesOf, entities, List.map_append, List.map_cons, List.map_nil, Entity.number,
        hn, hn', ih hs ht]
  | subproof _ _ _ ihb ih =>
      intro slot hs ht
      obtain ⟨hn, ha, hbody, hs⟩ := numbered_subproof.1 hs
      obtain ⟨hn', ha', hbody', ht⟩ := numbered_subproof.1 ht
      simp only [entitiesOf, entities, List.map_append, List.map_cons, Entity.number, hn, hn', ha,
        ha', ihb hbody hbody', ih hs ht]

end Step

theorem Sheet.Corresponds.map_number {b : RuleBook} {s t : Sheet} (h : s.Corresponds b t)
    (hs : s.Numbered) (ht : t.Numbered) :
    s.entities.map Entity.number = t.entities.map Entity.number := by
  obtain ⟨-, hss, -⟩ := numbered_iff.1 hs
  obtain ⟨-, hts, -⟩ := numbered_iff.1 ht
  have hpremises := h.premises.length_eq
  rw [← hpremises] at hts
  rw [hs.map_number, ht.map_number, h.steps.map_number hss hts, hpremises, h.steps.length_eq,
    h.goals.length_eq]

namespace Payload

variable {b : RuleBook} {d d' : Directory}

theorem cite_congr {line : Address} {c c' : NodeId} {q : String} (h : d.lookup c = d'.lookup c')
    (hq : d.cite line c = .ok q) : d'.cite line c' = .ok q := by
  rw [Directory.cite_eq_ok] at hq ⊢
  rwa [← h]

theorem assumption_congr {i j : NodeId} {r u : Reading} {x : Assumption}
    (h : d.lookup i = d'.lookup j) (hf : r.formula? = u.formula?) (hx : assumption d i r = .ok x) :
    assumption d' j u = .ok x := by
  rw [assumption_eq_ok] at hx ⊢
  rwa [← h, ← hf]

theorem items_congr {R : NodeId → NodeId → Prop} (hR : ∀ c c', R c c' → d.lookup c = d'.lookup c')
    {ss ts : List Step} (h : Step.Corresponds b R ss ts) :
    ∀ {is : List Item},
      List.Forall₂ (fun e f => d.lookup e.id = d'.lookup f.id) (Step.entitiesOf ss)
        (Step.entitiesOf ts) →
      items b d ss = .ok is → items b d' ts = .ok is := by
  induction h with
  | nil =>
      intro is _ his
      exact his
  | @line s t ss ts hf hr hc _ ih =>
      intro is hids his
      obtain ⟨i, js, hi, hjs, rfl⟩ := items_line_eq_ok.1 his
      obtain ⟨a, ha, hid, hrule, hformula, hqs⟩ := inference_eq_ok.1 hi
      simp only [Step.entitiesOf, Step.entities, List.cons_append, List.nil_append,
        List.forall₂_cons] at hids
      obtain ⟨hline, hids⟩ := hids
      have hqs' : List.Forall₂ (fun c q => d'.cite a c = .ok q) t.citations i.premises :=
        forall₂_comp hc.flip hqs fun _ _ _ hcc hq => cite_congr (hR _ _ hcc) hq
      have hi' : inference b d' t = .ok i := inference_eq_ok.2
        ⟨a, hline.symm.trans ha, hid, hr.symm.trans hrule, hf.symm.trans hformula, hqs'⟩
      exact items_line_eq_ok.2 ⟨i, js, hi', ih hids hjs, rfl⟩
  | subproof hf hbody _ ihb ih =>
      intro is hids his
      obtain ⟨line, x, ks, js, hline, hx, hks, hjs, rfl⟩ := items_subproof_eq_ok.1 his
      simp only [Step.entitiesOf, Step.entities, List.cons_append, List.forall₂_cons,
        forall₂_append hbody.length_entitiesOf] at hids
      obtain ⟨hself, hopening, hinside, hids⟩ := hids
      exact items_subproof_eq_ok.2 ⟨line, x, ks, js, hself.symm.trans hline,
        assumption_congr hopening hf hx, ihb hinside hks, ih hids hjs, rfl⟩

theorem conclusion_congr {R : NodeId → NodeId → Prop}
    (hR : ∀ c c', R c c' → d.lookup c = d'.lookup c') {g h : Goal} {i : Inference}
    (hid : d.lookup g.id = d'.lookup h.id) (hf : g.reading.formula? = h.reading.formula?)
    (hc : Option.Rel R g.citation h.citation) (hi : conclusion d g = .ok i) :
    conclusion d' h = .ok i := by
  obtain ⟨a, c, q, ha, hprint, hrule, hformula, hcg, hq, hpremises⟩ := conclusion_eq_ok.1 hi
  rw [hcg] at hc
  cases hch : h.citation with
  | none =>
      rw [hch] at hc
      cases hc
  | some c' =>
      rw [hch] at hc
      cases hc with
      | some hcc =>
          exact conclusion_eq_ok.2 ⟨a, c', q, hid.symm.trans ha, hprint, hrule,
            hf.symm.trans hformula, hch, cite_congr (hR c c' hcc) hq, hpremises⟩

/-- The directories of corresponding sheets agree on things at the same place. -/
theorem lookup_congr {s t : Sheet} (h : s.Corresponds b t) (hs : s.Invariant) (ht : t.Invariant)
    (hd : Directory.ofSheet s = .ok d) (hd' : Directory.ofSheet t = .ok d') :
    List.Forall₂ (fun e f => d.lookup e.id = d'.lookup f.id) s.entities t.entities := by
  have hnumbers := h.map_number hs.numbered ht.numbered
  rw [← List.forall₂_eq_eq_eq, List.forall₂_map_left_iff, List.forall₂_map_right_iff] at hnumbers
  refine List.forall₂_iff_zip.2 ⟨hnumbers.length_eq, ?_⟩
  intro e f hef
  obtain ⟨he, hf⟩ := List.of_mem_zip hef
  rw [Directory.lookup_eq_number hs hd he, Directory.lookup_eq_number ht hd' hf]
  exact List.forall₂_zip hnumbers hef

theorem ofSheet_congr {s t : Sheet} {p : Payload} (h : s.Corresponds b t) (hs : s.Invariant)
    (ht : t.Invariant) (hp : ofSheet b s = .ok p) : ofSheet b t = .ok p := by
  obtain ⟨d, hd, hps, his, hcs⟩ := ofSheet_eq_ok.1 hp
  obtain ⟨d', hd'⟩ := Directory.exists_ofSheet ht.numbered
  have hids := lookup_congr h hs ht hd hd'
  have hsame : ∀ c c', s.SamePlace t c c' → d.lookup c = d'.lookup c' := by
    rintro c c' ⟨i, hc, hc'⟩
    obtain ⟨f, hf, rfl⟩ := Option.map_eq_some_iff.1 hc'
    obtain ⟨e, he, hef⟩ := getElem?_of_forall₂ hids hf
    rw [he, Option.map_some] at hc
    rwa [Option.some.inj hc] at hef
  have hlen : (s.premises.map Entity.premise).length = (t.premises.map Entity.premise).length := by
    rw [List.length_map, List.length_map, h.premises.length_eq]
  rw [Sheet.entities, Sheet.entities, List.append_assoc, List.append_assoc, forall₂_append hlen,
    forall₂_append h.steps.length_entitiesOf] at hids
  simp only [List.forall₂_map_left_iff, List.forall₂_map_right_iff] at hids
  obtain ⟨hpremises, hsteps, hgoals⟩ := hids
  refine ofSheet_eq_ok.2 ⟨d', hd', ?_, items_congr hsame h.steps hsteps his, ?_⟩
  · have hboth := List.Forall₂.mp (fun _ _ => And.intro) hpremises h.premises
    exact forall₂_comp hboth.flip hps fun _ _ _ hpq hx => assumption_congr hpq.1 hpq.2 hx
  · have hboth := List.Forall₂.mp (fun _ _ => And.intro) hgoals h.goals
    exact forall₂_comp hboth.flip hcs fun _ _ _ hgh hi =>
      conclusion_congr hsame hgh.1 hgh.2.1 hgh.2.2 hi

/-- For sheets that edits lead to and that have payloads: the payloads have the same text exactly if
the sheets correspond. -/
theorem text_eq_iff_corresponds (b : RuleBook) {s t : Sheet} {p q : Payload} (hs : s.Reachable)
    (ht : t.Reachable) (hp : ofSheet b s = .ok p) (hq : ofSheet b t = .ok q) :
    p.text = q.text ↔ s.Corresponds b t := by
  constructor
  · intro h
    obtain rfl : p = q := text_injective h
    exact corresponds_of_eq hs.invariant ht.invariant hp hq
  · intro h
    have hsame : ofSheet b t = .ok p := ofSheet_congr h hs.invariant ht.invariant hp
    rw [Except.ok.inj (hsame.symm.trans hq)]

/-- A history that leads to the sheet of `weakening` from the bottom up, with other node ids and other
texts. -/
def weakeningUpward : List Command :=
  [.addGoal, .setText ⟨0⟩ "(Q → P)", .insertStatement [] 0, .setText ⟨1⟩ "Q → (P)",
   .setRule ⟨1⟩ "→Intro", .setGoalCitation ⟨0⟩ "1", .insertSubproof [] 0, .setCitations ⟨1⟩ "1",
   .setText ⟨3⟩ " Q", .insertStatement [0] 0, .setText ⟨4⟩ "((P))", .setRule ⟨4⟩ "Reit",
   .addPremise, .setText ⟨5⟩ "P ", .setCitations ⟨4⟩ "1"]

theorem weakening_corresponds : ∃ p q, ofSheet {} (Command.runAll {} weakening) = .ok p ∧
    ofSheet {} (Command.runAll {} weakeningUpward) = .ok q ∧ p.text = q.text ∧
    Command.runAll {} weakening ≠ Command.runAll {} weakeningUpward ∧
    (Command.runAll {} weakening).Corresponds {} (Command.runAll {} weakeningUpward) := by
  have hsame : ofSheet {} (Command.runAll {} weakening) =
      ofSheet {} (Command.runAll {} weakeningUpward) := by
    decide +kernel
  have hne : Command.runAll {} weakening ≠ Command.runAll {} weakeningUpward := by
    decide +kernel
  have hok : (ofSheet {} (Command.runAll {} weakening)).toBool = true := by
    decide +kernel
  cases h : ofSheet {} (Command.runAll {} weakening) with
  | error f =>
      rw [h] at hok
      cases hok
  | ok p =>
      have h' := hsame.symm.trans h
      exact ⟨p, p, rfl, h', rfl, hne,
        (text_eq_iff_corresponds {} ⟨weakening, rfl⟩ ⟨weakeningUpward, rfl⟩ h h').1 rfl⟩

end Payload

end ProofSheet
