/-
# Lines and the subproofs around them

What a line cites comes before it in the order of the sheet, and in that order a subproof comes before
all that is inside it.  So a line may cite a subproof that is still open around it, and that is the
only way for a citation not to be complete: anything else that a line cites has ended, with all that
is inside it, before the line.

By its address a thing is around another if the one address extends the other; by its place, if the
other is inside it.  On a numbered sheet these are the same (`Sheet.Numbered.contains_iff`).
-/
import ProofSheet.Proofs.Histories
import ProofSheet.Proofs.SheetOrder

namespace ProofSheet

/-! ## What is inside a thing -/

/-- What is inside a thing: of a subproof its assumption and all of its body, of a line nothing. -/
def Entity.inside : Entity → List Entity
  | .subproof _ a body _ => .statement a :: Step.entitiesOf body
  | _ => []

namespace Step

variable {slot : Nat → Address}

theorem Numbered.exists_path {ss : List Step} {path : List Nat} {n : Nat} (h : Numbered slot ss)
    (hslot : ∀ k, slot k = ⟨path ++ [n + k]⟩) {f : Entity} (hf : f ∈ entitiesOf ss) :
    ∃ m tail, f.number = some ⟨path ++ m :: tail⟩ := by
  obtain ⟨as, has, hblock⟩ := h.block ss hslot
  have hmem : f.number ∈ as.map some := has ▸ List.mem_map_of_mem hf
  obtain ⟨a, ha, hnumber⟩ := List.mem_map.1 hmem
  obtain ⟨m, tail, hpath, -⟩ := hblock.inside a ha
  exact ⟨m, tail, by rw [← hnumber, ← hpath]⟩

theorem Numbered.extends {ss : List Step} (h : Numbered slot ss) {e f : Entity}
    (he : e ∈ entitiesOf ss) (hf : f ∈ e.inside) :
    ∃ d m tail, e.number = some d ∧ f.number = some ⟨d.path ++ m :: tail⟩ := by
  cases e with
  | subproof id x body n =>
      obtain ⟨d, hd, hx, hbody⟩ := h.interior ss he
      rcases List.mem_cons.1 hf with rfl | hf
      · exact ⟨d, 1, [], hd, hx⟩
      · obtain ⟨m, tail, hnumber⟩ := hbody.exists_path (slot_child d) hf
        exact ⟨d, m, tail, hd, hnumber⟩
  | _ => cases hf

/-- Whatever address stands between a list of steps and a thing in it is that of something around the
thing. -/
theorem Numbered.exists_around (ss : List Step) :
    ∀ {slot : Nat → Address} {path q : List Nat} {n : Nat} {f : Entity} {a : Address},
      Numbered slot ss → (∀ k, slot k = ⟨path ++ [n + k]⟩) → f ∈ entitiesOf ss →
      f.number = some a → q <+: a.path → path.length < q.length → q.length < a.path.length →
      ∃ e ∈ entitiesOf ss, e.number = some ⟨q⟩ ∧ f ∈ e.inside := by
  induction ss using forestInduction with
  | nil =>
      intro slot path q n f a _ _ hf
      cases hf
  | line s ss ih =>
      intro slot path q n f a h hslot hf ha hq hlong hshort
      obtain ⟨hs, hss⟩ := numbered_line.1 h
      rw [entitiesOf, entities] at hf ⊢
      rcases List.mem_append.1 hf with hf | hf
      · -- nothing stands between the list and a line of it
        obtain rfl := List.mem_singleton.1 hf
        obtain rfl : slot 0 = a := Option.some.inj (hs.symm.trans ha)
        rw [hslot, List.length_append, List.length_singleton] at hshort
        omega
      · obtain ⟨e, he, hin⟩ := ih hss (slot_succ hslot) hf ha hq hlong hshort
        exact ⟨e, List.mem_append_right _ he, hin⟩
  | subproof id x body m ss ihb ih =>
      intro slot path q n f a h hslot hf ha hq hlong hshort
      obtain ⟨hm, hx, hbody, hss⟩ := numbered_subproof.1 h
      rw [entitiesOf, entities] at hf ⊢
      rcases List.mem_append.1 hf with hf | hf
      · rcases List.mem_cons.1 hf with rfl | hf
        · obtain rfl : slot 0 = a := Option.some.inj (hm.symm.trans ha)
          rw [hslot, List.length_append, List.length_singleton] at hshort
          omega
        · have hself : Entity.subproof id x body m ∈ entitiesOf (.subproof id x body m :: ss) := by
            simp [entitiesOf, entities]
          obtain ⟨d, k, tail, hd, hnumber⟩ := h.extends hself hf
          obtain rfl : slot 0 = d := Option.some.inj (hm.symm.trans hd)
          obtain rfl := Option.some.inj (hnumber.symm.trans ha)
          have hextends : (slot 0).path <+: (slot 0).path ++ k :: tail := List.prefix_append _ _
          have hlen : (slot 0).path.length = path.length + 1 := by
            rw [hslot, List.length_append, List.length_singleton]
          by_cases hnext : q.length = path.length + 1
          · -- the address is that of the subproof itself
            obtain rfl : q = (slot 0).path :=
              (List.prefix_of_prefix_length_le hq hextends (by omega)).eq_of_length (by omega)
            exact ⟨_, List.mem_append_left _ List.mem_cons_self, hm, hf⟩
          · rcases List.mem_cons.1 hf with rfl | hf
            · obtain ⟨rfl, rfl⟩ : k = 1 ∧ tail = [] := by
                simpa [Entity.number, hx, Address.child] using hnumber.symm
              simp only [List.length_append, List.length_singleton] at hshort
              omega
            · obtain ⟨e, he, hin⟩ :=
                ihb hbody (slot_child (slot 0)) hf hnumber hq (by omega) hshort
              exact ⟨e, by simp [he], hin⟩
      · obtain ⟨e, he, hin⟩ := ih hss (slot_succ hslot) hf ha hq hlong hshort
        exact ⟨e, List.mem_append_right _ he, hin⟩

end Step

namespace Sheet

variable {s : Sheet} {e f : Entity} {a d : Address}

theorem mem_steps_of_inside (he : e ∈ s.entities) (hf : f ∈ e.inside) :
    e ∈ Step.entitiesOf s.steps := by
  cases e with
  | subproof id x body n => simpa [entities] using he
  | _ => cases hf

theorem Numbered.extends (h : s.Numbered) (he : e ∈ s.entities) (hf : f ∈ e.inside) :
    ∃ d m tail, e.number = some d ∧ f.number = some ⟨d.path ++ m :: tail⟩ := by
  obtain ⟨-, hs, -⟩ := numbered_iff.1 h
  exact hs.extends (mem_steps_of_inside he hf) hf

/-- An address is properly inside another exactly if what has it is inside what has the other. -/
theorem Numbered.contains_iff (h : s.Numbered) (he : e ∈ s.entities)
    (hf : f ∈ Step.entitiesOf s.steps) (hd : e.number = some d) (ha : f.number = some a)
    (hne : d ≠ a) : d.contains a = true ↔ f ∈ e.inside := by
  rw [Address.contains_iff]
  constructor
  · intro hextends
    obtain ⟨-, hs, -⟩ := numbered_iff.1 h
    have hshort : d.path.length < a.path.length := by
      refine Nat.lt_of_le_of_ne hextends.length_le fun hlen => hne ?_
      exact congrArg Address.mk (hextends.eq_of_length hlen)
    have hlong : ([] : List Nat).length < d.path.length := by
      obtain ⟨as, has, hblock⟩ := h.block
      have hmem : some d ∈ as.map some := has ▸ hd ▸ List.mem_map_of_mem he
      exact List.length_pos_iff.2
        (hblock.path_ne_nil d ((List.mem_map_of_injective (Option.some_injective _)).1 hmem))
    obtain ⟨e', he', hnumber, hin⟩ :=
      hs.exists_around s.steps (Step.slot_top _) hf ha hextends hlong hshort
    obtain rfl : e' = e := List.inj_on_of_nodup_map h.nodup (by simp [entities, he']) he
      (hnumber.trans hd.symm)
    exact hin
  · intro hin
    obtain ⟨d', m, tail, hd', ha'⟩ := h.extends he hin
    obtain rfl : d' = d := Option.some.inj (hd'.symm.trans hd)
    obtain rfl := Option.some.inj (ha'.symm.trans ha)
    exact List.prefix_append _ _

/-- What comes before a line and is not around it has ended before the line. -/
theorem Numbered.ended (h : s.Numbered) (he : e ∈ s.entities) (hd : e.number = some d)
    (hbefore : d.before a = true) (hclosed : d.contains a = false) (hf : f ∈ e.inside) :
    ∃ k, f.number = some k ∧ k.before a = true := by
  obtain ⟨d', m, tail, hd', hk⟩ := h.extends he hf
  obtain rfl : d' = d := Option.some.inj (hd'.symm.trans hd)
  exact ⟨_, hk, Address.before_inside hbefore hclosed (Address.contains_iff.2 (List.prefix_append _ _))
    (Address.contains_refl a)⟩

end Sheet

/-! ## Citations -/

theorem Sheet.exists_line (s : Sheet) (cs : List NodeId) (a : Address)
    (h : (s.entities.any fun e => e.citations? == some cs && e.number == some a) = true) :
    ∃ line, Entity.statement line ∈ s.entities ∧ line.citations = cs ∧ line.number = some a := by
  obtain ⟨e, he, hline⟩ := List.any_eq_true.1 h
  rw [Bool.and_eq_true, beq_iff_eq, beq_iff_eq] at hline
  cases e with
  | statement line => exact ⟨line, he, Option.some.inj hline.1, hline.2⟩
  | _ => cases hline.1

namespace Payload

/-- On a sheet that edits lead to and that has a payload, whatever a line cites is on the sheet and
comes before the line.  It is around the line by its address only if it is a subproof that the line
lies in; anything else has ended before the line, with all that is inside it. -/
theorem citations_ended_or_around (b : RuleBook) {s : Sheet} {p : Payload} (hs : s.Reachable)
    (h : ofSheet b s = .ok p) {line : Statement} (hline : .statement line ∈ s.entities)
    {c : NodeId} (hc : c ∈ line.citations) :
    ∃ e a d, s.find? c = some e ∧ line.number = some a ∧ e.number = some d ∧
      d.before a = true ∧ (d.contains a = true ↔ Entity.statement line ∈ e.inside) ∧
      (Entity.statement line ∉ e.inside →
        ∀ f ∈ e.inside, ∃ k, f.number = some k ∧ k.before a = true) := by
  have hinv := hs.invariant
  obtain ⟨r, -, a, ha, -, hpremises⟩ := exists_of_forall₂ (handed_ofSheet hinv h).flip _ hline
  obtain ⟨q, -, e, he, rfl, d, hd, hbefore, -⟩ := exists_of_forall₂ hpremises.flip c hc
  have hsteps : Entity.statement line ∈ Step.entitiesOf s.steps := by
    simpa [Sheet.entities] using hline
  have hne : d ≠ a := by
    rintro rfl
    rw [Address.before_irrefl] at hbefore
    cases hbefore
  have haround := Sheet.Numbered.contains_iff hinv.numbered he hsteps hd ha hne
  refine ⟨e, a, d, Sheet.find?_of_mem hinv.distinct he, ha, hd, hbefore, haround, ?_⟩
  intro houtside f hf
  have hclosed : d.contains a = false := Bool.eq_false_iff.2 fun hin => houtside (haround.1 hin)
  exact Sheet.Numbered.ended hinv.numbered he hd hbefore hclosed hf

/-- Line 3 cites subproof 2, which has ended with both of its lines. -/
theorem weakening_citation_ended : ∃ s p line e, s = Command.runAll {} weakening ∧
    ofSheet {} s = .ok p ∧ Entity.statement line ∈ s.entities ∧ line.citations = [⟨1⟩] ∧
    line.number = some ⟨[3]⟩ ∧ s.find? ⟨1⟩ = some e ∧ e.number = some ⟨[2]⟩ ∧
    Entity.statement line ∉ e.inside ∧
    ∀ f ∈ e.inside, ∃ k, f.number = some k ∧ k.before ⟨[3]⟩ = true := by
  have hok : (ofSheet {} (Command.runAll {} weakening)).toBool = true := by
    decide +kernel
  have hnumber : (Command.runAll {} weakening).numberOf? ⟨1⟩ = some ⟨[2]⟩ := by
    decide +kernel
  obtain ⟨line, hline, hcitations, hat⟩ := Sheet.exists_line
    (Command.runAll {} weakening) [⟨1⟩] ⟨[3]⟩ (by decide +kernel)
  cases h : ofSheet {} (Command.runAll {} weakening) with
  | error f =>
      rw [h] at hok
      cases hok
  | ok p =>
      obtain ⟨e, a, d, he, ha, hd, -, haround, hended⟩ :=
        citations_ended_or_around {} ⟨weakening, rfl⟩ h hline (c := ⟨1⟩) (by simp [hcitations])
      obtain rfl := Option.some.inj (ha.symm.trans hat)
      rw [Sheet.numberOf?, he, Option.bind_some] at hnumber
      obtain rfl := Option.some.inj (hd.symm.trans hnumber)
      have houtside : Entity.statement line ∉ e.inside := by
        rw [← haround]
        decide
      exact ⟨_, p, line, e, rfl, h, hline, hcitations, hat, he, hnumber, houtside, hended houtside⟩

/-- A history that leads to a subproof whose second line cites the subproof. -/
def reiteration : List Command :=
  [.insertSubproof [] 0, .setText ⟨1⟩ "P", .insertStatement [0] 0, .setText ⟨2⟩ "P",
   .setRule ⟨2⟩ "Reit", .setCitations ⟨2⟩ "1"]

/-- A line may cite a subproof that is still open around it. -/
theorem citations_not_all_ended : ¬ ∀ (b : RuleBook) (s : Sheet) (p : Payload), s.Reachable →
    ofSheet b s = .ok p → ∀ line, Entity.statement line ∈ s.entities → ∀ c ∈ line.citations,
      ∀ e, s.find? c = some e → ∀ a d, line.number = some a → e.number = some d →
        d.before a = true ∧ d.contains a = false := by
  intro hall
  have hok : (ofSheet {} (Command.runAll {} reiteration)).toBool = true := by
    decide +kernel
  have hnumber : (Command.runAll {} reiteration).numberOf? ⟨0⟩ = some ⟨[1]⟩ := by
    decide +kernel
  obtain ⟨line, hline, hcitations, hat⟩ := Sheet.exists_line
    (Command.runAll {} reiteration) [⟨0⟩] ⟨[1, 2]⟩ (by decide +kernel)
  obtain ⟨e, he, hd⟩ := Option.bind_eq_some_iff.1 hnumber
  cases h : ofSheet {} (Command.runAll {} reiteration) with
  | error f =>
      rw [h] at hok
      cases hok
  | ok p =>
      have hclosed := (hall {} _ p ⟨reiteration, rfl⟩ h line hline ⟨0⟩ (by simp [hcitations]) e he
        _ _ hat hd).2
      cases hclosed

end Payload

end ProofSheet
