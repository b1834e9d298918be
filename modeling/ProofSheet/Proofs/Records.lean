/-
# The records of a payload

A payload is a tree, and a verifier meets its records in an order: premises, steps, conclusions, and
a subproof before its assumption and its body.  That is the order of the sheet, so the records and
the things on the sheet go together one by one (`Payload.handed_ofSheet`): the id of a record is the
dotted form of an address, and its premises are the dotted forms of earlier addresses.

For a sheet that edits lead to, such a payload is closed and looks only backward: ids are distinct,
a premise is the id of an earlier record, and read as an address it leads to the very node that the
line cites.
-/
import ProofSheet.Payload.OfSheet
import ProofSheet.Proofs.Attempt
import ProofSheet.Proofs.Reachable

namespace ProofSheet

/-! ## Listing a payload -/

/-- A record of a payload, as far as records refer to each other. -/
structure Record where
  id : String
  premises : List String
  deriving DecidableEq

def Assumption.record (a : Assumption) : Record := ⟨a.id, []⟩

def Inference.record (i : Inference) : Record := ⟨i.id, i.premises⟩

namespace Item

mutual

/-- The records of an item, a subproof before its assumption and its body. -/
def records : Item → List Record
  | .subproof id assumption steps => ⟨id, []⟩ :: assumption.record :: recordsOf steps
  | .inference i => [i.record]

def recordsOf : List Item → List Record
  | [] => []
  | i :: is => i.records ++ recordsOf is

end

end Item

/-- The records of a payload in the order in which a verifier meets them. -/
def Payload.records (p : Payload) : List Record :=
  p.premises.map Assumption.record ++ Item.recordsOf p.steps ++ p.conclusions.map Inference.record

def Entity.cited : Entity → List NodeId
  | .statement s => s.citations
  | .goal g => g.citation.toList
  | _ => []

/-! ## The directory -/

namespace Directory

theorem address_eq_ok {d : Directory} {id : NodeId} {a : Address} :
    d.address id = .ok a ↔ d.lookup id = some a := by
  rw [address]
  cases d.lookup id with
  | none =>
      constructor <;> intro h <;> cases h
  | some b =>
      constructor
      · intro h; cases h; rfl
      · intro h; cases h; rfl

theorem cite_eq_ok {d : Directory} {line : Address} {target : NodeId} {q : String} :
    d.cite line target = .ok q ↔
      ∃ a, d.lookup target = some a ∧ a.before line = true ∧ a.print = q := by
  rw [cite]
  cases d.lookup target with
  | none =>
      constructor
      · intro h; cases h
      · rintro ⟨a, h, -⟩; cases h
  | some b =>
      show (if b.before line = true then _ else _) = _ ↔ _
      constructor
      · intro h
        split at h
        · rename_i hb
          cases h
          exact ⟨b, rfl, hb, rfl⟩
        · cases h
      · rintro ⟨a, h, ha, rfl⟩
        cases h
        exact if_pos ha

theorem entry_eq_ok {e : Entity} {id : NodeId} {a : Address} :
    entry e = .ok (id, a) ↔ e.id = id ∧ e.number = some a := by
  rw [entry]
  cases e.number with
  | none =>
      constructor
      · intro h; cases h
      · rintro ⟨-, h⟩; cases h
  | some c =>
      constructor
      · intro h; cases h; exact ⟨rfl, rfl⟩
      · rintro ⟨rfl, h⟩; cases h; rfl

/-- What the directory of a sheet says is so on the sheet. -/
theorem exists_of_lookup {s : Sheet} {d : Directory} (hd : ofSheet s = .ok d) {id : NodeId}
    {a : Address} (h : d.lookup id = some a) :
    ∃ e ∈ s.entities, e.id = id ∧ e.number = some a := by
  obtain ⟨l, r, hsplit, -⟩ := List.lookup_eq_some_iff.1 h
  have hmem : (id, a) ∈ d := by
    rw [hsplit]
    exact List.mem_append_right l List.mem_cons_self
  rw [ofSheet] at hd
  cases hentries : s.entities.mapM entry with
  | error f =>
      rw [hentries] at hd
      cases hd
  | ok entries =>
      rw [hentries] at hd
      cases hd
      obtain ⟨e, he, hentry⟩ :=
        exists_of_forall₂ (mapM_eq_ok.1 hentries) (id, a) (List.mem_reverse.1 hmem)
      exact ⟨e, he, entry_eq_ok.1 hentry⟩

theorem lookup_eq_none {s : Sheet} {d : Directory} (hd : ofSheet s = .ok d) {id : NodeId}
    (h : ∀ e ∈ s.entities, e.id ≠ id) : d.lookup id = none := by
  cases hl : d.lookup id with
  | none => rfl
  | some a =>
      obtain ⟨e, he, hid, -⟩ := exists_of_lookup hd hl
      exact absurd hid (h e he)

theorem exists_ofSheet {s : Sheet} (hs : s.Numbered) : ∃ d, ofSheet s = .ok d := by
  have hentry : ∀ e ∈ s.entities, ∃ x, entry e = .ok x := by
    intro e he
    obtain ⟨a, ha⟩ := Option.ne_none_iff_exists'.1 (hs.ne_none he)
    exact ⟨(e.id, a), entry_eq_ok.2 ⟨rfl, ha⟩⟩
  have hentries : ∃ xs, s.entities.mapM entry = .ok xs := by
    refine (reports_mapM (g := fun _ => []) ?_).ok_iff.2 (by simp)
    intro e he
    obtain ⟨x, hx⟩ := hentry e he
    rw [hx]
    exact .success x
  obtain ⟨xs, hxs⟩ := hentries
  exact ⟨xs.reverse, by rw [ofSheet, hxs]; rfl⟩

/-- Where node ids are distinct it says the address of everything on the sheet. -/
theorem lookup_of_mem {s : Sheet} {d : Directory} (hd : ofSheet s = .ok d)
    (hdistinct : (s.entities.map Entity.id).Nodup) {e : Entity} (he : e ∈ s.entities) {a : Address}
    (ha : e.number = some a) : d.lookup e.id = some a := by
  cases hl : d.lookup e.id with
  | some b =>
      obtain ⟨f, hf, hid, hb⟩ := exists_of_lookup hd hl
      obtain rfl : f = e := List.inj_on_of_nodup_map hdistinct hf he hid
      exact hb.symm.trans ha
  | none =>
      -- the entry of the thing is in the directory, so some look-up of its node id succeeds
      rw [ofSheet] at hd
      cases hentries : s.entities.mapM entry with
      | error f =>
          rw [hentries] at hd
          cases hd
      | ok entries =>
          rw [hentries] at hd
          cases hd
          obtain ⟨x, hx, hex⟩ := exists_of_forall₂ (mapM_eq_ok.1 hentries).flip e he
          have hx' : x = (e.id, a) := Except.ok.inj (hex.symm.trans (entry_eq_ok.2 ⟨rfl, ha⟩))
          have hne := List.lookup_eq_none_iff.1 hl x (List.mem_reverse.2 hx)
          rw [hx'] at hne
          simp at hne

theorem lookup_eq_number {s : Sheet} {d : Directory} (hs : s.Invariant) (hd : ofSheet s = .ok d)
    {e : Entity} (he : e ∈ s.entities) : d.lookup e.id = e.number := by
  obtain ⟨a, ha⟩ := Option.ne_none_iff_exists'.1 (Sheet.Numbered.ne_none hs.numbered he)
  rw [lookup_of_mem hd hs.distinct he ha, ha]

end Directory

/-! ## What each part of a payload is made of

The computations that build a payload are opened here once. -/

theorem Reading.formulaAt_eq_ok {line : Address} {r : Reading} {f : Formula} :
    r.formulaAt line = .ok f ↔ r.formula? = some f := by
  rw [formulaAt]
  cases r.formula? with
  | none =>
      constructor <;> intro h <;> cases h
  | some g =>
      constructor
      · intro h; cases h; rfl
      · intro h; cases h; rfl

namespace Payload

variable {b : RuleBook} {d : Directory}

theorem assumption_eq_ok {id : NodeId} {r : Reading} {x : Assumption} :
    assumption d id r = .ok x ↔
      ∃ a, d.lookup id = some a ∧ a.print = x.id ∧ r.formula? = some x.formula ∧
        x.rule = assumptionRule := by
  constructor
  · intro h
    obtain ⟨a, ha, h⟩ := bind_eq_ok.1 h
    obtain ⟨f, hf, h⟩ := bind_eq_ok.1 h
    cases h
    exact ⟨a, Directory.address_eq_ok.1 ha, rfl, Reading.formulaAt_eq_ok.1 hf, rfl⟩
  · obtain ⟨id', f, rule⟩ := x
    rintro ⟨a, ha, rfl, hf, rfl⟩
    exact bind_eq_ok.2 ⟨a, Directory.address_eq_ok.2 ha,
      bind_eq_ok.2 ⟨f, Reading.formulaAt_eq_ok.2 hf, rfl⟩⟩

theorem inference_eq_ok {s : Statement} {i : Inference} :
    inference b d s = .ok i ↔
      ∃ a, d.lookup s.id = some a ∧ a.print = i.id ∧ b.resolve? s.rule = some i.rule ∧
        s.reading.formula? = some i.formula ∧
        List.Forall₂ (fun c q => d.cite a c = .ok q) s.citations i.premises := by
  rw [inference, bind_eq_ok]
  constructor
  · rintro ⟨a, ha, h⟩
    cases hr : b.resolve? s.rule with
    | none =>
        rw [hr] at h
        cases h
    | some rule =>
        rw [hr] at h
        obtain ⟨f, hf, h⟩ := bind_eq_ok.1 h
        obtain ⟨qs, hqs, h⟩ := bind_eq_ok.1 h
        cases h
        exact ⟨a, Directory.address_eq_ok.1 ha, rfl, rfl, Reading.formulaAt_eq_ok.1 hf,
          mapM_eq_ok.1 hqs⟩
  · obtain ⟨id, f, rule, qs⟩ := i
    rintro ⟨a, ha, rfl, hr, hf, hqs⟩
    refine ⟨a, Directory.address_eq_ok.2 ha, ?_⟩
    rw [hr]
    exact bind_eq_ok.2 ⟨f, Reading.formulaAt_eq_ok.2 hf, bind_eq_ok.2 ⟨qs, mapM_eq_ok.2 hqs, rfl⟩⟩

theorem conclusion_eq_ok {g : Goal} {i : Inference} :
    conclusion d g = .ok i ↔
      ∃ a c q, d.lookup g.id = some a ∧ a.print = i.id ∧ i.rule = goalRule ∧
        g.reading.formula? = some i.formula ∧ g.citation = some c ∧ d.cite a c = .ok q ∧
        i.premises = [q] := by
  rw [conclusion, bind_eq_ok]
  constructor
  · rintro ⟨a, ha, h⟩
    cases hc : g.citation with
    | none =>
        rw [hc] at h
        cases h
    | some c =>
        rw [hc] at h
        obtain ⟨f, hf, h⟩ := bind_eq_ok.1 h
        obtain ⟨q, hq, h⟩ := bind_eq_ok.1 h
        cases h
        exact ⟨a, c, q, Directory.address_eq_ok.1 ha, rfl, rfl, Reading.formulaAt_eq_ok.1 hf, rfl,
          hq, rfl⟩
  · obtain ⟨id, f, rule, qs⟩ := i
    rintro ⟨a, c, q, ha, rfl, rfl, hf, hc, hq, rfl⟩
    refine ⟨a, Directory.address_eq_ok.2 ha, ?_⟩
    rw [hc]
    exact bind_eq_ok.2 ⟨f, Reading.formulaAt_eq_ok.2 hf, bind_eq_ok.2 ⟨q, hq, rfl⟩⟩

theorem items_line_eq_ok {s : Statement} {ss : List Step} {is : List Item} :
    items b d (.line s :: ss) = .ok is ↔
      ∃ i js, inference b d s = .ok i ∧ items b d ss = .ok js ∧ is = .inference i :: js := by
  rw [items, item]
  constructor
  · intro h
    obtain ⟨x, hx, h⟩ := bind_eq_ok.1 h
    obtain ⟨js, hjs, h⟩ := bind_eq_ok.1 h
    obtain ⟨i, hi, hx⟩ := bind_eq_ok.1 hx
    cases h
    cases hx
    exact ⟨i, js, hi, hjs, rfl⟩
  · rintro ⟨i, js, hi, hjs, rfl⟩
    exact bind_eq_ok.2 ⟨_, bind_eq_ok.2 ⟨i, hi, rfl⟩, bind_eq_ok.2 ⟨js, hjs, rfl⟩⟩

theorem items_subproof_eq_ok {id : NodeId} {a : Statement} {body : List Step} {n : Option Address}
    {ss : List Step} {is : List Item} :
    items b d (.subproof id a body n :: ss) = .ok is ↔
      ∃ line x ks js, d.lookup id = some line ∧ assumption d a.id a.reading = .ok x ∧
        items b d body = .ok ks ∧ items b d ss = .ok js ∧ is = .subproof line.print x ks :: js := by
  rw [items, item]
  constructor
  · intro h
    obtain ⟨i, hi, h⟩ := bind_eq_ok.1 h
    obtain ⟨js, hjs, h⟩ := bind_eq_ok.1 h
    obtain ⟨line, hline, hi⟩ := bind_eq_ok.1 hi
    obtain ⟨x, hx, hi⟩ := bind_eq_ok.1 hi
    obtain ⟨ks, hks, hi⟩ := bind_eq_ok.1 hi
    cases h
    cases hi
    exact ⟨line, x, ks, js, Directory.address_eq_ok.1 hline, hx, hks, hjs, rfl⟩
  · rintro ⟨line, x, ks, js, hline, hx, hks, hjs, rfl⟩
    refine bind_eq_ok.2 ⟨_, ?_, bind_eq_ok.2 ⟨js, hjs, rfl⟩⟩
    exact bind_eq_ok.2 ⟨line, Directory.address_eq_ok.2 hline,
      bind_eq_ok.2 ⟨x, hx, bind_eq_ok.2 ⟨ks, hks, rfl⟩⟩⟩

theorem ofSheet_eq_ok {s : Sheet} {p : Payload} :
    ofSheet b s = .ok p ↔
      ∃ d, Directory.ofSheet s = .ok d ∧
        List.Forall₂ (fun u x => assumption d u.id u.reading = .ok x) s.premises p.premises ∧
        items b d s.steps = .ok p.steps ∧
        List.Forall₂ (fun g i => conclusion d g = .ok i) s.goals p.conclusions := by
  constructor
  · intro h
    obtain ⟨d, hd, h⟩ := bind_eq_ok.1 h
    obtain ⟨ps, hps, h⟩ := bind_eq_ok.1 h
    obtain ⟨is, his, h⟩ := bind_eq_ok.1 h
    obtain ⟨cs, hcs, h⟩ := bind_eq_ok.1 h
    cases h
    exact ⟨d, hd, mapM_eq_ok.1 hps, his, mapM_eq_ok.1 hcs⟩
  · rintro ⟨d, hd, hps, his, hcs⟩
    exact bind_eq_ok.2 ⟨d, hd, bind_eq_ok.2 ⟨_, mapM_eq_ok.2 hps,
      bind_eq_ok.2 ⟨_, his, bind_eq_ok.2 ⟨_, mapM_eq_ok.2 hcs, rfl⟩⟩⟩⟩

end Payload

/-! ## One record for each thing on the sheet -/

def Recorded (d : Directory) (e : Entity) (r : Record) : Prop :=
  ∃ a, d.lookup e.id = some a ∧ a.print = r.id ∧
    List.Forall₂ (fun c q => d.cite a c = .ok q) e.cited r.premises

namespace Payload

variable {b : RuleBook} {d : Directory}

theorem recorded_assumption {e : Entity} {r : Reading} {x : Assumption}
    (h : assumption d e.id r = .ok x) (he : e.cited = []) : Recorded d e x.record := by
  obtain ⟨a, ha, hid, -⟩ := assumption_eq_ok.1 h
  refine ⟨a, ha, hid, ?_⟩
  rw [he]
  exact List.Forall₂.nil

theorem recorded_inference {s : Statement} {i : Inference} (h : inference b d s = .ok i) :
    Recorded d (.statement s) i.record := by
  obtain ⟨a, ha, hid, -, -, hqs⟩ := inference_eq_ok.1 h
  exact ⟨a, ha, hid, hqs⟩

theorem recorded_conclusion {g : Goal} {i : Inference} (h : conclusion d g = .ok i) :
    Recorded d (.goal g) i.record := by
  obtain ⟨a, c, q, ha, hid, -, -, hc, hq, hpremises⟩ := conclusion_eq_ok.1 h
  refine ⟨a, ha, hid, ?_⟩
  rw [Inference.record, hpremises, Entity.cited, hc]
  exact List.Forall₂.cons hq List.Forall₂.nil

theorem recorded_items (ss : List Step) :
    ∀ {is : List Item}, items b d ss = .ok is → (∀ e ∈ Step.entitiesOf ss, e.Bare) →
      List.Forall₂ (Recorded d) (Step.entitiesOf ss) (Item.recordsOf is) := by
  induction ss using Step.forestInduction with
  | nil =>
      intro is h _
      cases h
      exact List.Forall₂.nil
  | line s ss ih =>
      intro is h hbare
      obtain ⟨i, js, hi, hjs, rfl⟩ := items_line_eq_ok.1 h
      rw [Step.entitiesOf, Step.entities] at hbare ⊢
      rw [Item.recordsOf, Item.records]
      exact List.Forall₂.cons (recorded_inference hi)
        (ih hjs fun e he => hbare e (List.mem_append_right _ he))
  | subproof id a body n ss ihb ih =>
      intro is h hbare
      obtain ⟨line, x, ks, js, hline, hx, hks, hjs, rfl⟩ := items_subproof_eq_ok.1 h
      rw [Step.entitiesOf, Step.entities] at hbare ⊢
      rw [Item.recordsOf, Item.records]
      have hopen : Recorded d (.subproof id a body n) ⟨line.print, []⟩ :=
        ⟨line, hline, rfl, List.Forall₂.nil⟩
      -- the assumption is listed as a line, and cites nothing
      have hassumed : Recorded d (.statement a) x.record :=
        recorded_assumption hx (hbare _ List.mem_cons_self).2
      have hbody := ihb hks fun e he => hbare e (by simp [he])
      have hrest := ih hjs fun e he => hbare e (by simp [he])
      exact List.rel_append (List.Forall₂.cons hopen (List.Forall₂.cons hassumed hbody)) hrest

theorem recorded_ofSheet {s : Sheet} {p : Payload} (h : ofSheet b s = .ok p)
    (hbare : ∀ e ∈ s.entities, e.Bare) :
    ∃ d, Directory.ofSheet s = .ok d ∧ List.Forall₂ (Recorded d) s.entities p.records := by
  obtain ⟨d, hd, hps, his, hcs⟩ := ofSheet_eq_ok.1 h
  refine ⟨d, hd, ?_⟩
  have hpremises : List.Forall₂ (Recorded d) (s.premises.map .premise)
      (p.premises.map Assumption.record) := by
    rw [List.forall₂_map_left_iff, List.forall₂_map_right_iff]
    exact hps.imp fun u x hx => recorded_assumption (e := .premise u) hx rfl
  have hsteps := recorded_items s.steps his fun e he => hbare e (by simp [Sheet.entities, he])
  have hgoals : List.Forall₂ (Recorded d) (s.goals.map .goal)
      (p.conclusions.map Inference.record) := by
    rw [List.forall₂_map_left_iff, List.forall₂_map_right_iff]
    exact hcs.imp fun g i hi => recorded_conclusion hi
  exact List.rel_append (List.rel_append hpremises hsteps) hgoals

end Payload

/-! ## Sheets in good order

The directory can now be forgotten: on a sheet whose node ids are distinct it says of each thing what
its address is. -/

/-- `r` is what is handed over for `e` on the sheet `s`: the dotted form of its address and, for each
thing it cites, the dotted form of an address before its own. -/
def Handed (s : Sheet) (e : Entity) (r : Record) : Prop :=
  ∃ a, e.number = some a ∧ a.print = r.id ∧
    List.Forall₂ (fun c q => ∃ e' ∈ s.entities, e'.id = c ∧
      ∃ b, e'.number = some b ∧ b.before a = true ∧ b.print = q) e.cited r.premises

theorem Recorded.handed {s : Sheet} {d : Directory} {e : Entity} {r : Record} (hs : s.Invariant)
    (hd : Directory.ofSheet s = .ok d) (he : e ∈ s.entities) (h : Recorded d e r) :
    Handed s e r := by
  obtain ⟨a, ha, hid, hcited⟩ := h
  obtain ⟨e', he', hsame, hnumber⟩ := Directory.exists_of_lookup hd ha
  obtain rfl : e' = e := List.inj_on_of_nodup_map hs.distinct he' he hsame
  refine ⟨a, hnumber, hid, hcited.imp ?_⟩
  intro c q hq
  obtain ⟨b, hb, hbefore, hprint⟩ := Directory.cite_eq_ok.1 hq
  obtain ⟨f, hf, hfid, hfnumber⟩ := Directory.exists_of_lookup hd hb
  exact ⟨f, hf, hfid, b, hfnumber, hbefore, hprint⟩

namespace Payload

variable {b : RuleBook} {s : Sheet} {p : Payload}

/-- The records of a payload are those of the things on the sheet, in the same order. -/
theorem handed_ofSheet (hs : s.Invariant) (h : ofSheet b s = .ok p) :
    List.Forall₂ (Handed s) s.entities p.records := by
  obtain ⟨d, hd, hrecorded⟩ := recorded_ofSheet h hs.bare
  have hmem := (List.forall₂_and_left s.entities p.records).2 ⟨fun e he => he, hrecorded⟩
  exact hmem.imp fun e r her => her.2.handed hs hd her.1

theorem map_id_records (h : List.Forall₂ (Handed s) s.entities p.records) :
    p.records.map (fun r => some r.id) = s.entities.map fun e => e.number.map Address.print := by
  refine map_eq_of_forall₂ ?_ h
  rintro e r ⟨a, ha, hid, -⟩
  rw [ha, ← hid]
  rfl

theorem nodup_id_records (hs : s.Invariant)
    (h : List.Forall₂ (Handed s) s.entities p.records) : (p.records.map Record.id).Nodup := by
  obtain ⟨as, has, hblock⟩ := Sheet.Numbered.block hs.numbered
  have hids : (p.records.map Record.id).map some = (as.map Address.print).map some :=
    calc (p.records.map Record.id).map some
      _ = (s.entities.map Entity.number).map (Option.map Address.print) := by
          rw [List.map_map, List.map_map]
          exact map_id_records h
      _ = (as.map Address.print).map some := by
          rw [has, List.map_map, List.map_map]
          rfl
  rw [(List.map_inj_right (Option.some_injective _)).1 hids]
  exact hblock.nodup.map Address.print_injective

theorem premise_earlier (hs : s.Invariant) (h : List.Forall₂ (Handed s) s.entities p.records)
    {i : Nat} {r : Record} (hi : p.records[i]? = some r) {q : String} (hq : q ∈ r.premises) :
    ∃ j r', j < i ∧ p.records[j]? = some r' ∧ r'.id = q := by
  obtain ⟨e, hei, a, ha, -, hcited⟩ := getElem?_of_forall₂ h hi
  obtain ⟨c, -, f, hf, -, b, hb, hbefore, hprint⟩ := exists_of_forall₂ hcited q hq
  obtain ⟨j, hfj⟩ := List.mem_iff_getElem?.1 hf
  have hflip : List.Forall₂ (fun r e => Handed s e r) p.records s.entities := h.flip
  obtain ⟨r', hrj, b', hb', hid, -⟩ := getElem?_of_forall₂ hflip hfj
  obtain rfl : b' = b := Option.some.inj (hb'.symm.trans hb)
  exact ⟨j, r', Sheet.Numbered.index_lt hs.numbered hei hfj ha hb hbefore, hrj,
    hid.symm.trans hprint⟩

theorem premises_resolve (hs : s.Invariant) (hsize : s.entities.length ≤ Address.maxPosition)
    {e : Entity} {r : Record} (h : Handed s e r) :
    r.premises.map (fun q => (Address.parse? q).bind s.resolve?) = e.cited.map some := by
  obtain ⟨a, -, -, hcited⟩ := h
  refine map_eq_of_forall₂ ?_ hcited
  rintro c q ⟨f, hf, rfl, b, hb, -, rfl⟩
  rw [Address.parse?_print (Sheet.Numbered.typable hs.numbered hsize hf hb), Option.bind_some,
    Sheet.Numbered.resolve? hs.numbered hf hb]

/-- Every payload of a sheet that edits lead to is closed and looks only backward.  Its records have
distinct ids, the dotted forms of the addresses on the sheet, in order; each premise is the id of an
earlier record; and on a sheet whose positions can all be typed, each premise, read as an address,
leads to the node that is cited in its place. -/
theorem premises_look_backward (b : RuleBook) {s : Sheet} {p : Payload} (hs : s.Reachable)
    (h : ofSheet b s = .ok p) :
    (p.records.map Record.id).Nodup ∧
    p.records.map (fun r => some r.id) = s.entities.map (fun e => e.number.map Address.print) ∧
    (∀ (i : Nat) (r : Record), p.records[i]? = some r → ∀ q ∈ r.premises,
      ∃ j r', j < i ∧ p.records[j]? = some r' ∧ r'.id = q) ∧
    (s.entities.length ≤ Address.maxPosition →
      List.Forall₂ (fun e r => r.premises.map (fun q => (Address.parse? q).bind s.resolve?) =
        e.cited.map some) s.entities p.records) := by
  have hinv := hs.invariant
  have hrecords := handed_ofSheet hinv h
  refine ⟨nodup_id_records hinv hrecords, map_id_records hrecords, ?_, ?_⟩
  · intro i r hi q hq
    exact premise_earlier hinv hrecords hi hq
  · intro hsize
    exact hrecords.imp fun e r her => premises_resolve hinv hsize her

/-- A history that leads to a proof of `Q → P` from `P`, by a subproof. -/
def weakening : List Command :=
  [.addPremise, .setText ⟨0⟩ "P", .insertSubproof [] 0, .setText ⟨2⟩ "Q", .insertStatement [0] 0,
   .setText ⟨3⟩ "P", .setRule ⟨3⟩ "Reit", .setCitations ⟨3⟩ "1", .insertStatement [] 1,
   .setText ⟨4⟩ "Q → P", .setRule ⟨4⟩ "→Intro", .setCitations ⟨4⟩ "2", .addGoal,
   .setText ⟨5⟩ "Q → P", .setGoalCitation ⟨5⟩ "3"]

theorem weakening_looks_backward : ∃ s p, s = Command.runAll {} weakening ∧
    ofSheet {} s = .ok p ∧
    p.records = [⟨"1", []⟩, ⟨"2", []⟩, ⟨"2.1", []⟩, ⟨"2.2", ["1"]⟩, ⟨"3", ["2"]⟩, ⟨"4", ["3"]⟩] ∧
    s.entities.length ≤ Address.maxPosition ∧
    (p.records.map Record.id).Nodup ∧
    List.Forall₂ (fun e r => r.premises.map (fun q => (Address.parse? q).bind s.resolve?) =
      e.cited.map some) s.entities p.records := by
  have hrecords : (ofSheet {} (Command.runAll {} weakening)).map records = .ok
      [⟨"1", []⟩, ⟨"2", []⟩, ⟨"2.1", []⟩, ⟨"2.2", ["1"]⟩, ⟨"3", ["2"]⟩, ⟨"4", ["3"]⟩] := by
    decide +kernel
  have hsize : (Command.runAll {} weakening).entities.length ≤ Address.maxPosition := by
    decide +kernel
  cases h : ofSheet {} (Command.runAll {} weakening) with
  | error f =>
      rw [h] at hrecords
      cases hrecords
  | ok p =>
      rw [h] at hrecords
      obtain ⟨hnodup, -, -, hresolve⟩ := premises_look_backward {} ⟨weakening, rfl⟩ h
      exact ⟨_, p, rfl, h, Except.ok.inj hrecords, hsize, hnodup, hresolve hsize⟩

end Payload

end ProofSheet
