/-
# Numbered sheets

A sheet is numbered when numbering it would change nothing.  The equation is taken apart here once,
along the forest of steps: a list of steps is numbered when each step is at its slot and each
subproof is numbered inside (`numbered_line`, `numbered_subproof`).  Numbering a sheet makes it
numbered.

On a numbered sheet everything has an address, and the addresses come in the order of the sheet
(`Sheet.Numbered.block`).  So an address leads back to the one thing that has it.
-/
import Mathlib.Data.List.Nodup
import Mathlib.Data.Option.Basic
import ProofSheet.Proofs.AddressOrder
import ProofSheet.Proofs.AddressSyntax
import ProofSheet.Proofs.Forest

namespace ProofSheet

theorem Premise.number_eq_iff (p : Premise) (a : Address) :
    { p with number := some a } = p ↔ p.number = some a := by
  obtain ⟨i, t, r, n⟩ := p
  simp [eq_comm]

theorem Goal.number_eq_iff (g : Goal) (a : Address) :
    { g with number := some a } = g ↔ g.number = some a := by
  obtain ⟨i, t, r, c, n⟩ := g
  simp [eq_comm]

theorem Statement.number_eq_iff (s : Statement) (a : Address) :
    { s with number := some a } = s ↔ s.number = some a := by
  obtain ⟨i, t, r, u, c, n⟩ := s
  simp [eq_comm]

namespace Step

/-- Position `k` of the list is at address `slot k`, and so on inside the subproofs. -/
def Numbered (slot : Nat → Address) (ss : List Step) : Prop := renumberAll slot ss = ss

variable {slot : Nat → Address}

theorem numbered_line {s : Statement} {ss : List Step} :
    Numbered slot (.line s :: ss) ↔
      s.number = some (slot 0) ∧ Numbered (fun k => slot (k + 1)) ss := by
  rw [Numbered, renumberAll, renumber, List.cons.injEq, Step.line.injEq, Statement.number_eq_iff]
  rfl

theorem numbered_subproof {id : NodeId} {a : Statement} {body : List Step} {n : Option Address}
    {ss : List Step} :
    Numbered slot (.subproof id a body n :: ss) ↔
      n = some (slot 0) ∧ a.number = some ((slot 0).child 1) ∧
        Numbered (fun k => (slot 0).child (k + 2)) body ∧ Numbered (fun k => slot (k + 1)) ss := by
  rw [Numbered, renumberAll, renumber, List.cons.injEq, Step.subproof.injEq,
    Statement.number_eq_iff]
  constructor
  · rintro ⟨⟨-, ha, hb, hn⟩, hs⟩
    exact ⟨hn.symm, ha, hb, hs⟩
  · rintro ⟨hn, ha, hb, hs⟩
    exact ⟨⟨rfl, ha, hb, hn.symm⟩, hs⟩

theorem numbered_renumberAll (ss : List Step) :
    ∀ slot : Nat → Address, Numbered slot (renumberAll slot ss) := by
  induction ss using forestInduction with
  | nil => intro slot; rfl
  | line s ss ih =>
      intro slot
      rw [renumberAll, renumber, numbered_line]
      exact ⟨rfl, ih _⟩
  | subproof id a body n ss ihb ih =>
      intro slot
      rw [renumberAll, renumber, numbered_subproof]
      exact ⟨rfl, rfl, ihb _, ih _⟩

theorem length_renumberAll (ss : List Step) :
    ∀ slot : Nat → Address, (renumberAll slot ss).length = ss.length := by
  induction ss with
  | nil => intro slot; rfl
  | cons s ss ih => intro slot; rw [renumberAll, List.length_cons, ih, List.length_cons]

end Step

theorem mapIdx_eq_self {α : Type} {f : Nat → α → α} {l : List α} :
    l.mapIdx f = l ↔ ∀ i a, l[i]? = some a → f i a = a := by
  constructor
  · intro h i a ha
    have hi : (l.mapIdx f)[i]? = some a := by rw [h, ha]
    rw [List.getElem?_mapIdx, ha] at hi
    exact Option.some.inj hi
  · intro h
    apply List.ext_getElem?
    intro i
    rw [List.getElem?_mapIdx]
    cases hi : l[i]? with
    | none => rfl
    | some a => exact congrArg some (h i a hi)

namespace Sheet

def Numbered (s : Sheet) : Prop := s.renumber = s

theorem numbered_iff {s : Sheet} : s.Numbered ↔
    (∀ (i : Nat) (p : Premise), s.premises[i]? = some p → p.number = some (.top (i + 1))) ∧
    Step.Numbered (fun k => .top (s.premises.length + k + 1)) s.steps ∧
    (∀ (j : Nat) (g : Goal), s.goals[j]? = some g →
      g.number = some (.top (s.premises.length + s.steps.length + j + 1))) := by
  obtain ⟨ps, ss, gs, n⟩ := s
  simp only [Numbered, renumber, Sheet.mk.injEq, mapIdx_eq_self, Premise.number_eq_iff,
    Goal.number_eq_iff, Step.Numbered, and_true]

theorem numbered_renumber (s : Sheet) : s.renumber.Numbered := by
  rw [numbered_iff]
  simp only [renumber, List.length_mapIdx, Step.length_renumberAll]
  refine ⟨?_, Step.numbered_renumberAll _ _, ?_⟩
  · intro i p hp
    rw [List.getElem?_mapIdx, Option.map_eq_some_iff] at hp
    obtain ⟨p', -, rfl⟩ := hp
    rfl
  · intro j g hg
    rw [List.getElem?_mapIdx, Option.map_eq_some_iff] at hg
    obtain ⟨g', -, rfl⟩ := hg
    rfl

end Sheet

/-! ## Addresses in order

Along a numbered list of steps the addresses form a block: they come in the order of the sheet, and
each begins with the path of the list and a position in it.  Blocks at later positions come after
blocks at earlier ones, so blocks can be put together from left to right. -/

namespace Address

/-- `Block path lo hi most as`: the addresses `as` are in order, each extends `path` by a position
from `lo` on and below `hi`, and any further positions are between one and `most`. -/
structure Block (path : List Nat) (lo hi most : Nat) (as : List Address) : Prop where
  ordered : as.Pairwise fun a b => a.before b = true
  inside : ∀ a ∈ as, ∃ m tail, a.path = path ++ m :: tail ∧ lo ≤ m ∧ m < hi ∧
    ∀ k ∈ tail, 1 ≤ k ∧ k ≤ most

variable {path : List Nat} {lo mid hi hi' most most' : Nat} {as bs : List Address}

theorem block_nil : Block path lo hi most [] :=
  ⟨List.Pairwise.nil, by simp⟩

theorem block_singleton (h : lo < hi) : Block path lo hi most [⟨path ++ [lo]⟩] := by
  refine ⟨List.pairwise_singleton _ _, ?_⟩
  intro a ha
  rw [List.mem_singleton.1 ha]
  exact ⟨lo, [], rfl, Nat.le_refl _, h, by simp⟩

theorem Block.widen (h : Block path lo hi most as) (hhi : hi ≤ hi') (hm : most ≤ most') :
    Block path lo hi' most' as := by
  refine ⟨h.ordered, ?_⟩
  intro a ha
  obtain ⟨m, tail, e, hlo, hlt, ht⟩ := h.inside a ha
  refine ⟨m, tail, e, hlo, Nat.lt_of_lt_of_le hlt hhi, ?_⟩
  intro k hk
  exact ⟨(ht k hk).1, Nat.le_trans (ht k hk).2 hm⟩

theorem Block.append (ha : Block path lo mid most as) (hb : Block path mid hi most bs)
    (hlo : lo ≤ mid) (hhi : mid ≤ hi) : Block path lo hi most (as ++ bs) := by
  refine ⟨List.pairwise_append.2 ⟨ha.ordered, hb.ordered, ?_⟩, ?_⟩
  · intro a ham b hbm
    obtain ⟨m, u, ea, -, hm, -⟩ := ha.inside a ham
    obtain ⟨n, v, eb, hn, -, -⟩ := hb.inside b hbm
    rw [before, ea, eb, pathBefore_append]
    exact pathBefore_cons (Nat.lt_of_lt_of_le hm hn) u v
  · intro a ham
    rcases List.mem_append.1 ham with ham | ham
    · obtain ⟨m, u, e, h₁, h₂, h₃⟩ := ha.inside a ham
      exact ⟨m, u, e, h₁, Nat.lt_of_lt_of_le h₂ hhi, h₃⟩
    · obtain ⟨m, u, e, h₁, h₂, h₃⟩ := hb.inside a ham
      exact ⟨m, u, e, Nat.le_trans hlo h₁, h₂, h₃⟩

/-- A subproof at position `n` and the block of what is inside it make up the block of position
`n`. -/
theorem Block.enclose {n : Nat} (h : Block (path ++ [n]) 1 hi most as) (hm : hi ≤ most + 1) :
    Block path n (n + 1) most (⟨path ++ [n]⟩ :: as) := by
  refine ⟨List.pairwise_cons.2 ⟨?_, h.ordered⟩, ?_⟩
  · intro a ha
    obtain ⟨m, u, e, -⟩ := h.inside a ha
    rw [before, e]
    exact pathBefore_of_prefix (List.prefix_append _ _) (by simp)
  · intro a ha
    rcases List.mem_cons.1 ha with rfl | ha
    · exact ⟨n, [], rfl, Nat.le_refl _, Nat.lt_succ_self _, by simp⟩
    · obtain ⟨m, u, e, h₁, h₂, h₃⟩ := h.inside a ha
      refine ⟨n, m :: u, by rw [e]; simp, Nat.le_refl _, Nat.lt_succ_self _, ?_⟩
      intro k hk
      rcases List.mem_cons.1 hk with rfl | hk
      · exact ⟨h₁, by omega⟩
      · exact h₃ k hk

theorem block_run (n : Nat) :
    ∀ {lo : Nat}, Block [] lo (lo + n) most ((List.range' lo n).map top) := by
  induction n with
  | zero =>
      intro lo
      exact block_nil
  | succ n ih =>
      intro lo
      have hrest : Block [] (lo + 1) (lo + (n + 1)) most ((List.range' (lo + 1) n).map top) := by
        have h := @ih (lo + 1)
        rwa [Nat.add_assoc, Nat.add_comm 1 n] at h
      exact (block_singleton (Nat.lt_succ_self lo)).append hrest (Nat.le_succ lo) (by omega)

theorem map_number_run {α : Type} {number : α → Option Address} {l : List α} {n : Nat}
    (h : ∀ (i : Nat) (a : α), l[i]? = some a → number a = some (top (n + i))) :
    l.map number = ((List.range' n l.length).map top).map some := by
  induction l generalizing n with
  | nil => rfl
  | cons a l ih =>
      have hl : ∀ (i : Nat) (b : α), l[i]? = some b → number b = some (top (n + 1 + i)) := by
        intro i b hb
        rw [h (i + 1) b (by rw [List.getElem?_cons_succ, hb]), Nat.add_comm i 1, Nat.add_assoc]
      rw [List.map_cons, h 0 a rfl, ih hl]
      rfl

theorem Block.nodup (h : Block path lo hi most as) : as.Nodup := by
  refine h.ordered.imp ?_
  rintro a b hab rfl
  rw [before_irrefl] at hab
  cases hab

theorem Block.path_ne_nil (h : Block path lo hi most as) : ∀ a ∈ as, a.path ≠ [] := by
  intro a ha
  obtain ⟨m, tail, e, -⟩ := h.inside a ha
  rw [e]
  exact List.append_ne_nil_of_right_ne_nil path (List.cons_ne_nil m tail)

theorem Block.typable (h : Block [] 1 (most + 1) most as) (hmost : most ≤ maxPosition) :
    ∀ a ∈ as, a.Typable := by
  intro a ha
  refine ⟨h.path_ne_nil a ha, ?_⟩
  obtain ⟨m, tail, e, hlo, hhi, ht⟩ := h.inside a ha
  rw [e]
  intro k hk
  rcases List.mem_cons.1 hk with rfl | hk
  · exact ⟨hlo, Nat.le_trans (Nat.le_of_lt_succ hhi) hmost⟩
  · exact ⟨(ht k hk).1, Nat.le_trans (ht k hk).2 hmost⟩

end Address

namespace Step

variable {slot : Nat → Address}

theorem length_le_entitiesOf (ss : List Step) : ss.length ≤ (entitiesOf ss).length := by
  induction ss using forestInduction with
  | nil => exact Nat.le_refl _
  | line s ss ih =>
      simp only [entitiesOf, entities, List.length_cons, List.length_append, List.length_nil]
      omega
  | subproof id a body n ss _ ih =>
      simp only [entitiesOf, entities, List.length_cons, List.length_append]
      omega

theorem slot_succ {path : List Nat} {n : Nat} (h : ∀ k, slot k = ⟨path ++ [n + k]⟩) (k : Nat) :
    slot (k + 1) = ⟨path ++ [n + 1 + k]⟩ := by
  rw [h, Nat.add_comm k 1, Nat.add_assoc]

theorem slot_top (n k : Nat) : Address.top (n + k + 1) = ⟨[] ++ [n + 1 + k]⟩ := by
  rw [Nat.add_right_comm]
  rfl

theorem slot_child (p : Address) (k : Nat) : p.child (k + 2) = ⟨p.path ++ [2 + k]⟩ := by
  rw [Address.child, Nat.add_comm k 2]

/-- Everything on a numbered list of steps has an address, and the addresses form a block. -/
theorem Numbered.block (ss : List Step) :
    ∀ {slot : Nat → Address} {path : List Nat} {n : Nat}, Numbered slot ss →
      (∀ k, slot k = ⟨path ++ [n + k]⟩) →
      ∃ as, (entitiesOf ss).map Entity.number = as.map some ∧
        Address.Block path n (n + ss.length) (entitiesOf ss).length as := by
  induction ss using forestInduction with
  | nil =>
      intro slot path n _ _
      exact ⟨[], rfl, Address.block_nil⟩
  | line s ss ih =>
      intro slot path n h hslot
      obtain ⟨hs, hss⟩ := numbered_line.1 h
      obtain ⟨as, has, hblock⟩ := ih hss (slot_succ hslot)
      refine ⟨[⟨path ++ [n]⟩] ++ as, ?_, ?_⟩
      · rw [entitiesOf, entities, List.map_append, List.map_append, has, List.map_singleton,
          Entity.number, hs, hslot]
        rfl
      · have hlen : n + (Step.line s :: ss).length = n + 1 + ss.length := by
          rw [List.length_cons]
          omega
        rw [hlen]
        refine Address.Block.append (Address.block_singleton (Nat.lt_succ_self n))
          (hblock.widen (Nat.le_refl _) ?_) (Nat.le_succ n) (Nat.le_add_right _ _)
        simp [entitiesOf, entities]
  | subproof id a body m ss ihb ih =>
      intro slot path n h hslot
      obtain ⟨hm, ha, hbody, hss⟩ := numbered_subproof.1 h
      have hin : ∀ k, (slot 0).child (k + 2) = ⟨(path ++ [n]) ++ [2 + k]⟩ := by
        intro k
        rw [slot_child, hslot]
        rfl
      obtain ⟨bs, hbs, hinner⟩ := ihb hbody hin
      obtain ⟨as, has, hblock⟩ := ih hss (slot_succ hslot)
      have hlen : (entitiesOf (Step.subproof id a body m :: ss)).length =
          (entitiesOf body).length + 2 + (entitiesOf ss).length := by
        simp only [entitiesOf, entities, List.length_append, List.length_cons]
      have hbody_le := length_le_entitiesOf body
      refine ⟨(⟨path ++ [n]⟩ :: ([⟨(path ++ [n]) ++ [1]⟩] ++ bs)) ++ as, ?_, ?_⟩
      · simp only [entitiesOf, entities, List.map_append, List.map_cons, List.map_nil, hbs, has,
          Entity.number, hm, ha, hslot, Address.child]
        rfl
      · have hend : n + (Step.subproof id a body m :: ss).length = n + 1 + ss.length := by
          rw [List.length_cons]
          omega
        rw [hend]
        refine Address.Block.append (Address.Block.enclose (Address.Block.append
            (Address.block_singleton (Nat.lt_succ_self 1)) (hinner.widen (Nat.le_refl _) ?_) (Nat.le_succ 1)
            (Nat.le_add_right _ _)) ?_) (hblock.widen (Nat.le_refl _) ?_) (Nat.le_succ n) (Nat.le_add_right _ _)
        · omega
        · omega
        · omega

end Step

namespace Sheet

/-- The addresses of a numbered sheet: premises and goals are lines in a row. -/
theorem Numbered.map_number {s : Sheet} (h : s.Numbered) :
    s.entities.map Entity.number =
      ((List.range' 1 s.premises.length).map .top).map some ++
      (Step.entitiesOf s.steps).map Entity.number ++
      ((List.range' (s.premises.length + 1 + s.steps.length) s.goals.length).map .top).map some := by
  obtain ⟨hp, -, hg⟩ := numbered_iff.1 h
  have hpremises : s.premises.map Premise.number =
      ((List.range' 1 s.premises.length).map .top).map some :=
    Address.map_number_run fun i p hi => by rw [hp i p hi, Nat.add_comm]
  have hgoals : s.goals.map Goal.number =
      ((List.range' (s.premises.length + 1 + s.steps.length) s.goals.length).map .top).map some :=
    Address.map_number_run fun j g hj => by
      rw [hg j g hj]
      congr 2
      omega
  rw [← hpremises, ← hgoals]
  simp only [entities, List.map_append, List.map_map]
  rfl

/-- On a numbered sheet everything has an address, and the addresses come in order. -/
theorem Numbered.block {s : Sheet} (h : s.Numbered) :
    ∃ as, s.entities.map Entity.number = as.map some ∧
      Address.Block [] 1 (s.entities.length + 1) s.entities.length as := by
  obtain ⟨-, hs, -⟩ := numbered_iff.1 h
  obtain ⟨as, has, hsteps⟩ := hs.block s.steps (Step.slot_top _)
  have hle := Step.length_le_entitiesOf s.steps
  have hlen : s.entities.length =
      s.premises.length + (Step.entitiesOf s.steps).length + s.goals.length := by
    simp only [entities, List.length_append, List.length_map]
  refine ⟨(List.range' 1 s.premises.length).map .top ++ as ++
    (List.range' (s.premises.length + 1 + s.steps.length) s.goals.length).map .top, ?_, ?_⟩
  · rw [List.map_append, List.map_append, ← has]
    exact h.map_number
  · have hblock : Address.Block [] 1 (s.premises.length + 1 + s.steps.length + s.goals.length)
        (Step.entitiesOf s.steps).length _ :=
      (((Address.block_run s.premises.length).widen (Nat.le_of_eq (Nat.add_comm _ _)) (Nat.le_refl _)).append
        hsteps (by omega) (by omega)).append (Address.block_run s.goals.length) (by omega) (by omega)
    exact hblock.widen (by omega) (by omega)

/-! ## From an address back to what has it -/

section

variable {s : Sheet} {e e' : Entity} {a b : Address}

theorem Numbered.ne_none (h : s.Numbered) (he : e ∈ s.entities) : e.number ≠ none := by
  obtain ⟨as, has, -⟩ := h.block
  have hmem : e.number ∈ as.map some := has ▸ List.mem_map_of_mem he
  obtain ⟨a, -, ha⟩ := List.mem_map.1 hmem
  rw [← ha]
  exact Option.some_ne_none a

theorem Numbered.nodup (h : s.Numbered) : (s.entities.map Entity.number).Nodup := by
  obtain ⟨as, has, hblock⟩ := h.block
  rw [has]
  exact hblock.nodup.map (Option.some_injective _)

theorem Numbered.typable (h : s.Numbered) (hsize : s.entities.length ≤ Address.maxPosition)
    (he : e ∈ s.entities) (ha : e.number = some a) : a.Typable := by
  obtain ⟨as, has, hblock⟩ := h.block
  have hmem : some a ∈ as.map some := has ▸ ha ▸ List.mem_map_of_mem he
  exact hblock.typable hsize a ((List.mem_map_of_injective (Option.some_injective _)).1 hmem)

theorem exists_of_resolve? {id : NodeId} (h : s.resolve? a = some id) :
    ∃ e ∈ s.entities, e.number = some a ∧ e.id = id := by
  rw [Sheet.resolve?, Option.map_eq_some_iff] at h
  obtain ⟨e, he, rfl⟩ := h
  have hnumber := List.find?_some he
  exact ⟨e, List.mem_of_find?_eq_some he, eq_of_beq hnumber, rfl⟩

theorem Numbered.resolve? (h : s.Numbered) (he : e ∈ s.entities) (ha : e.number = some a) :
    s.resolve? a = some e.id := by
  have hfound := find?_of_nodup h.nodup he
  rw [ha] at hfound
  rw [Sheet.resolve?, hfound]
  rfl

/-- What comes before by its address comes before on the sheet. -/
theorem Numbered.index_lt (h : s.Numbered) {i j : Nat} (hi : s.entities[i]? = some e)
    (hj : s.entities[j]? = some e') (ha : e.number = some a) (hb : e'.number = some b)
    (hba : b.before a = true) : j < i := by
  obtain ⟨as, has, hblock⟩ := h.block
  have hat : ∀ {k : Nat} {f : Entity} {c : Address}, s.entities[k]? = some f →
      f.number = some c → ∃ hk : k < as.length, as[k] = c := by
    intro k f c hk hc
    have hmap : (as.map some)[k]? = some (some c) := by
      rw [← has, List.getElem?_map, hk, ← hc]
      rfl
    rw [List.getElem?_map, Option.map_eq_some_iff] at hmap
    obtain ⟨c', hc', e⟩ := hmap
    cases e
    exact List.getElem?_eq_some_iff.1 hc'
  obtain ⟨hi, rfl⟩ := hat hi ha
  obtain ⟨hj, rfl⟩ := hat hj hb
  have hordered := List.pairwise_iff_getElem.1 hblock.ordered
  rcases Nat.lt_trichotomy j i with hlt | rfl | hgt
  · exact hlt
  · rw [Address.before_irrefl] at hba
    cases hba
  · rw [Address.before_asymm (hordered i j hi hj hgt)] at hba
    cases hba

end

end Sheet

end ProofSheet
