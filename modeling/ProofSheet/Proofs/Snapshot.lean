/-
# Sheets survive being stored

A sheet is kept as a JSON text.  If its node ids are numbers of 32 bits and its addresses can be typed,
the text gives the sheet back, down to addresses and citations, as long as it nests no deeper than a
document may; and if it nests deeper, it is refused (`Sheet.load_save_exact`).  Subproofs and formulas
draw on the same levels, so neither has a limit of its own.
-/
import ProofSheet.Sheet.Json
import ProofSheet.Proofs.Decoding
import ProofSheet.Proofs.Nesting
import ProofSheet.Proofs.Records

namespace ProofSheet

open Json (Members Recovers)

/-! ## What can be stored -/

/-- A thing that can be stored: its node id and those it cites are of 32 bits, and its address can be
typed. -/
def Entity.Storable (e : Entity) : Prop :=
  e.id.val ≤ NodeId.largest ∧ (∀ c ∈ e.cited, c.val ≤ NodeId.largest) ∧ ∀ a ∈ e.number, a.Typable

instance (e : Entity) : Decidable e.Storable :=
  inferInstanceAs (Decidable (_ ∧ _ ∧ _))

def Sheet.Storable (s : Sheet) : Prop :=
  s.nextId ≤ NodeId.largest ∧ ∀ e ∈ s.entities, e.Storable

instance (s : Sheet) : Decidable s.Storable :=
  inferInstanceAs (Decidable (_ ∧ _))

/-! ## Node ids and addresses -/

namespace NodeId

theorem ordinary_toJson {id : NodeId} (h : id.val ≤ largest) : id.toJson.Ordinary :=
  Json.ordinary_natural (Nat.le_trans h (by decide))

@[simp] theorem depth_toJson (id : NodeId) : id.toJson.depth = 0 := rfl

theorem ofJson?_toJson {id : NodeId} (h : id.val ≤ largest) : ofJson? id.toJson = some id := by
  rw [ofJson?, toJson, Json.natural?, if_pos h]
  rfl

theorem recovers_toJson {id : NodeId} (h : id.val ≤ largest) :
    Recovers (fun _ => ofJson?) id.toJson id := by
  intro room b
  simp [ofJson?_toJson h]

end NodeId

namespace Address

theorem ordinary_number (n : Option Address) : (Json.orNull toJson n).Ordinary := by
  cases n <;> simp [Json.orNull, toJson]

@[simp] theorem depth_number (n : Option Address) : (Json.orNull toJson n).depth = 0 := by
  cases n <;> rfl

theorem ofJson?_toJson {a : Address} (h : a.Typable) : ofJson? a.toJson = some a := by
  rw [ofJson?, toJson, Json.text?_text, Option.bind_some, parse?_print h]

theorem optional_number {ms : Members} {n : Option Address}
    (hget : ms.get "number" = [.orNull toJson n]) (h : ∀ a ∈ n, a.Typable) :
    ms.optional "number" ofJson? = some n := by
  refine Members.optional_eq hget ?_
  intro a ha
  exact ⟨by simp [toJson, Json.text], ofJson?_toJson (h a ha)⟩

end Address

/-! ## Readings -/

theorem Reading.ordinary_toJson (r : Reading) : r.toJson.Ordinary := by
  cases r <;> simp [toJson, Formula.ordinary_toJson]

theorem Reading.recovers_toJson (r : Reading) (held : Bool) :
    Recovers (ofJson? · held) r.toJson r := by
  cases r with
  | formula f =>
      refine Json.recovers_tagged (by simp [Formula.ordinary_toJson]) (by simp) rfl (fun _ => rfl) rfl ?_
      intro room b
      simp [Members.required, f.recovers_toJson true room]
  | blank =>
      refine Json.recovers_tagged (by simp) (by simp) rfl (fun _ => rfl) rfl ?_
      simp
  | wrong message =>
      refine Json.recovers_tagged (by simp) (by simp) rfl (fun _ => rfl) rfl ?_
      simp [Members.required]
  | unfinished message =>
      refine Json.recovers_tagged (by simp) (by simp) rfl (fun _ => rfl) rfl ?_
      simp [Members.required]

theorem Reading.depth_toJson_pos (r : Reading) : 0 < r.toJson.depth := by
  cases r <;> exact Json.depth_record_pos _

/-! ## Premises, lines, goals -/

theorem Premise.ordinary_toJson {p : Premise} (h : (Entity.premise p).Storable) :
    p.toJson.Ordinary := by
  have hid : p.id.toJson.Ordinary := NodeId.ordinary_toJson h.1
  simp [toJson, hid, Reading.ordinary_toJson, Address.ordinary_number]

theorem Premise.recovers_toJson {p : Premise} (h : (Entity.premise p).Storable) (held : Bool) :
    Recovers (ofJson? · held) p.toJson p := by
  have hid : NodeId.ofJson? p.id.toJson = some p.id := NodeId.ofJson?_toJson h.1
  have hnumber : ∀ a ∈ p.number, a.Typable := h.2.2
  refine Json.recovers_record ?_
  intro room b
  rw [Address.optional_number (by simp) hnumber]
  simp [Members.required, hid, Option.bind_eq_some_iff, p.reading.recovers_toJson held room, and_assoc]

namespace Goal

@[simp] theorem depth_parent (c : Option NodeId) : (Json.orNull NodeId.toJson c).depth = 0 := by
  cases c <;> rfl

theorem ordinary_parent {c : Option NodeId} (h : ∀ id ∈ c, id.val ≤ NodeId.largest) :
    (Json.orNull NodeId.toJson c).Ordinary := by
  cases c with
  | none => exact Json.ordinary_null
  | some id => exact NodeId.ordinary_toJson (h id rfl)

theorem optional_parent {ms : Members} {c : Option NodeId}
    (hget : ms.get "parent" = [.orNull NodeId.toJson c]) (h : ∀ id ∈ c, id.val ≤ NodeId.largest) :
    ms.optional "parent" NodeId.ofJson? = some c := by
  refine Members.optional_eq hget ?_
  intro id hid
  exact ⟨by simp [NodeId.toJson], NodeId.ofJson?_toJson (h id hid)⟩

theorem le_of_mem_citation {g : Goal} (h : (Entity.goal g).Storable) :
    ∀ id ∈ g.citation, id.val ≤ NodeId.largest := by
  intro id hmem
  exact h.2.1 id (Option.mem_toList.2 hmem)

theorem ordinary_toJson {g : Goal} (h : (Entity.goal g).Storable) : g.toJson.Ordinary := by
  have hid : g.id.toJson.Ordinary := NodeId.ordinary_toJson h.1
  have hcitation := ordinary_parent (le_of_mem_citation h)
  simp [toJson, hid, hcitation, Reading.ordinary_toJson, Address.ordinary_number]

theorem recovers_toJson {g : Goal} (h : (Entity.goal g).Storable) (held : Bool) :
    Recovers (ofJson? · held) g.toJson g := by
  have hid : NodeId.ofJson? g.id.toJson = some g.id := NodeId.ofJson?_toJson h.1
  have hnumber : ∀ a ∈ g.number, a.Typable := h.2.2
  refine Json.recovers_record ?_
  intro room b
  rw [Address.optional_number (by simp) hnumber, optional_parent (by simp) (le_of_mem_citation h)]
  simp [Members.required, hid, Option.bind_eq_some_iff, g.reading.recovers_toJson held room, and_assoc]

end Goal

namespace Statement

/-- A tag in front of the members of a line is passed over. -/
theorem ofMembers?_tagged (room : Nat) (held : Bool) (tag : Json) (ms : Members) :
    ofMembers? room held (("type", tag) :: ms) = ofMembers? room held ms := by
  simp [ofMembers?, Members.required, Members.optional]

theorem ordinary_toMembers {s : Statement} (h : (Entity.statement s).Storable) :
    ∀ m ∈ s.toMembers, m.2.Ordinary := by
  have hid : s.id.toJson.Ordinary := NodeId.ordinary_toJson h.1
  have hcitations : ∀ c ∈ s.citations, c.toJson.Ordinary := by
    intro c hc
    exact NodeId.ordinary_toJson (h.2.1 c hc)
  simpa [toMembers, hid, Reading.ordinary_toJson, Address.ordinary_number] using hcitations

theorem ofMembers?_toMembers {s : Statement} (h : (Entity.statement s).Storable) (held : Bool)
    (room : Nat) (b : Statement) : ofMembers? room held s.toMembers = some b ↔
      (∀ m ∈ s.toMembers, m.2.depth ≤ room) ∧ s = b := by
  have hid : NodeId.ofJson? s.id.toJson = some s.id := NodeId.ofJson?_toJson h.1
  have hcitations : Recovers (Json.list? fun _ => NodeId.ofJson?)
      (.array (s.citations.map NodeId.toJson)) s.citations :=
    Json.recovers_list fun c hc => NodeId.recovers_toJson (h.2.1 c hc)
  have hnumber : ∀ a ∈ s.number, a.Typable := h.2.2
  rw [ofMembers?, Address.optional_number (by simp [toMembers]) hnumber]
  simp [toMembers, Members.required, hid, Option.bind_eq_some_iff, s.reading.recovers_toJson held room,
    hcitations room, and_assoc]

theorem recovers_toJson {s : Statement} (h : (Entity.statement s).Storable) (held : Bool) :
    Recovers (ofJson? · held) s.toJson s :=
  Json.recovers_record (ofMembers?_toMembers h held)

end Statement

/-! ## Steps -/

namespace Step

theorem toJsonAll_eq_map (ss : List Step) : toJsonAll ss = ss.map toJson := by
  induction ss with
  | nil => rfl
  | cons s ss ih => rw [toJsonAll, ih, List.map_cons, toJson]

theorem ordinary_toJson (ss : List Step) :
    (∀ e ∈ entitiesOf ss, e.Storable) → ∀ s ∈ ss, s.toJson.Ordinary := by
  induction ss using forestInduction with
  | nil => simp
  | line s ss ih =>
      intro h
      rw [entitiesOf, entities, List.singleton_append, List.forall_mem_cons] at h
      refine List.forall_mem_cons.2 ⟨?_, ih h.2⟩
      rw [toJson, Json.ordinary_record, List.forall_mem_cons]
      exact ⟨Json.ordinary_text _, Statement.ordinary_toMembers h.1⟩
  | subproof id a body n ss ihb ih =>
      intro h
      rw [entitiesOf, entities, List.cons_append, List.cons_append, List.forall_mem_cons,
        List.forall_mem_cons, List.forall_mem_append] at h
      obtain ⟨hself, hopening, hbody, hss⟩ := h
      refine List.forall_mem_cons.2 ⟨?_, ih hss⟩
      have hid : id.toJson.Ordinary := NodeId.ordinary_toJson hself.1
      have hpremise : a.toJson.Ordinary := Json.ordinary_record.2 (Statement.ordinary_toMembers hopening)
      have hsteps : (Json.array (body.map toJson)).Ordinary := by
        rw [Json.ordinary_array, List.forall_mem_map]
        exact ihb hbody
      simp [toJson, toMembers, toJsonAll_eq_map, hid, hpremise, hsteps, Address.ordinary_number,
        -Json.ordinary_array]

theorem recovers_line {s : Statement} (h : (Entity.statement s).Storable) (held : Bool) :
    Recovers (ofJson? · held) (toJson (.line s)) (.line s) := by
  have hordinary : (toJson (.line s)).Ordinary :=
    ordinary_toJson [.line s] (by simpa [entitiesOf, entities] using h) _ List.mem_cons_self
  have hresult : ("result", s.reading.toJson) ∈ ("type", .text "line") :: s.toMembers := by
    simp [Statement.toMembers]
  refine Json.recovers_held_deep hordinary (Json.one_lt_depth_record hresult s.reading.depth_toJson_pos)
    rfl rfl (fun _ => rfl) ?_
  intro room b
  rw [Members.tag?_cons (by simp [toMembers, Statement.toMembers])]
  show Option.map line (Statement.ofMembers? (room + 1) true (_ :: s.toMembers)) = some b ↔ _
  rw [Statement.ofMembers?_tagged, Option.map_eq_some_iff, toMembers, List.forall_mem_cons]
  simp [Statement.ofMembers?_toMembers h, and_assoc]

theorem recovers_subproof {id : NodeId} {a : Statement} {body : List Step} {n : Option Address}
    (h : ∀ e ∈ entities (.subproof id a body n), e.Storable)
    (hbody : ∀ s ∈ body, Recovers (ofJson? · true) s.toJson s) (held : Bool) :
    Recovers (ofJson? · held) (toJson (.subproof id a body n)) (.subproof id a body n) := by
  have hordinary : (toJson (.subproof id a body n)).Ordinary :=
    ordinary_toJson [.subproof id a body n] (by simpa [entitiesOf] using h) _ List.mem_cons_self
  rw [entities, List.forall_mem_cons, List.forall_mem_cons] at h
  obtain ⟨hself, hopening, -⟩ := h
  have hid : NodeId.ofJson? id.toJson = some id := NodeId.ofJson?_toJson hself.1
  have hpremise := Statement.recovers_toJson hopening true
  have hnumber : ∀ p ∈ n, p.Typable := hself.2.2
  have hopen : ("premise", a.toJson) ∈ ("type", .text "subproof") :: toMembers (.subproof id a body n) := by
    simp [toMembers]
  refine Json.recovers_held_deep hordinary (Json.one_lt_depth_record hopen (Json.depth_record_pos _))
    rfl rfl (fun _ => rfl) ?_
  intro room b
  rw [Members.tag?_cons (by simp [toMembers])]
  simp [kinds, jsonKind, List.lookup_cons, toMembers, toJsonAll_eq_map, Members.required, hid,
    Address.optional_number _ hnumber, Option.bind_eq_some_iff, hpremise (room + 1),
    Json.depth_array_le, Json.mapM_recovers hbody room, and_assoc, -List.mapM_map]

theorem recovers_toJson (ss : List Step) :
    (∀ e ∈ entitiesOf ss, e.Storable) → ∀ s ∈ ss, ∀ held, Recovers (ofJson? · held) s.toJson s := by
  induction ss using forestInduction with
  | nil => simp
  | line s ss ih =>
      intro h
      rw [entitiesOf, entities, List.singleton_append, List.forall_mem_cons] at h
      exact List.forall_mem_cons.2 ⟨recovers_line h.1, ih h.2⟩
  | subproof id a body n ss ihb ih =>
      intro h
      rw [entitiesOf, List.forall_mem_append] at h
      have hbody : ∀ e ∈ entitiesOf body, e.Storable := by
        intro e he
        exact h.1 e (by simp [entities, he])
      refine List.forall_mem_cons.2 ⟨?_, ih h.2⟩
      exact recovers_subproof h.1 fun s hs => ihb hbody s hs true

end Step

/-! ## Sheets -/

namespace Sheet

theorem Storable.premise {s : Sheet} (h : s.Storable) {p : Premise} (hp : p ∈ s.premises) :
    (Entity.premise p).Storable :=
  h.2 _ (by simp [Sheet.entities, hp])

theorem Storable.steps {s : Sheet} (h : s.Storable) : ∀ e ∈ Step.entitiesOf s.steps, e.Storable := by
  intro e he
  exact h.2 e (by simp [Sheet.entities, he])

theorem Storable.goal {s : Sheet} (h : s.Storable) {g : Goal} (hg : g ∈ s.goals) :
    (Entity.goal g).Storable :=
  h.2 _ (by simp [Sheet.entities, hg])

theorem ordinary_toJson {s : Sheet} (h : s.Storable) : s.toJson.Ordinary := by
  have hpremises : ∀ p ∈ s.premises, p.toJson.Ordinary := fun p hp =>
    Premise.ordinary_toJson (h.premise hp)
  have hsteps := Step.ordinary_toJson s.steps h.steps
  have hgoals : ∀ g ∈ s.goals, g.toJson.Ordinary := fun g hg => Goal.ordinary_toJson (h.goal hg)
  have hnext : (Json.natural s.nextId).Ordinary :=
    Json.ordinary_natural (Nat.le_trans h.1 (by decide))
  simpa [toJson, Step.toJsonAll_eq_map, hnext] using ⟨hpremises, hsteps, hgoals⟩

theorem recovers_toJson {s : Sheet} (h : s.Storable) (held : Bool) :
    Recovers (ofJson? · held) s.toJson s := by
  have hpremises : Recovers (Json.list? (Premise.ofJson? · held))
      (.array (s.premises.map Premise.toJson)) s.premises :=
    Json.recovers_list fun p hp => Premise.recovers_toJson (h.premise hp) held
  have hsteps : Recovers (Json.list? (Step.ofJson? · held)) (.array (s.steps.map Step.toJson)) s.steps :=
    Json.recovers_list fun t ht => Step.recovers_toJson s.steps h.steps t ht held
  have hgoals : Recovers (Json.list? (Goal.ofJson? · held)) (.array (s.goals.map Goal.toJson)) s.goals :=
    Json.recovers_list fun g hg => Goal.recovers_toJson (h.goal hg) held
  have hnext : Json.natural? NodeId.largest (.natural s.nextId) = some s.nextId := if_pos h.1
  refine Json.recovers_record ?_
  intro room b
  simp [Members.required, Members.orDefault, Step.toJsonAll_eq_map, Option.bind_eq_some_iff,
    hpremises room, hsteps room, hgoals room, hnext, and_assoc]

/-- A sheet with node ids of 32 bits and addresses that can be typed is read back from the text in
which it is kept, if that nests no deeper than 127 levels; else the text is refused. -/
theorem load_save_exact {s : Sheet} (h : s.Storable) :
    load? s.save = if Json.nesting s.save ≤ 127 then some s else none := by
  have hordinary := ordinary_toJson h
  rw [load?, Json.decode?, save, Json.parse?_print hordinary.plain, Option.bind_some,
    Json.nesting_print hordinary.plain]
  exact (recovers_toJson h false).eq_ite Json.maxNesting

/-- A line with a formula inside of `n` subproofs. -/
def enclosed (f : Formula) : (n : Nat) → Step
  | 0 => .line ⟨⟨0⟩, "\"\n∀", .formula f, "Reit", [⟨NodeId.largest⟩], some ⟨[1, Address.maxPosition]⟩⟩
  | n + 1 => .subproof ⟨n + 1⟩ (.blank ⟨NodeId.largest⟩) [enclosed f n] (some ⟨[n + 1]⟩)

/-- Sixty-one subproofs around a line use up every level, and a negation on the line is one too many. -/
theorem load_save_at_limit :
    let s : Sheet := { steps := [enclosed .bottom 61], nextId := NodeId.largest }
    let t : Sheet := { steps := [enclosed (.neg .bottom) 61] }
    s.Storable ∧ Json.nesting s.save = 127 ∧ load? s.save = some s ∧
      t.Storable ∧ Json.nesting t.save = 128 ∧ load? t.save = none := by
  intro s t
  have hs : s.Storable := by decide +kernel
  have ht : t.Storable := by decide +kernel
  have hsave : Json.nesting s.save = 127 := by
    rw [save, Json.nesting_print (ordinary_toJson hs).plain]
    decide +kernel
  have hsave' : Json.nesting t.save = 128 := by
    rw [save, Json.nesting_print (ordinary_toJson ht).plain]
    decide +kernel
  refine ⟨hs, hsave, ?_, ht, hsave', ?_⟩
  · rw [load_save_exact hs, hsave]
    rfl
  · rw [load_save_exact ht, hsave']
    rfl

end Sheet

end ProofSheet
