/-
# Where numbering puts things

Numbering is a function of the shape of a sheet: position `k` of the list that a scope names gets an
address that can be written down from `k`, the scope and the number of premises
(`stepsAt?_renumber`).  It touches nothing but addresses (`unnumber_renumber`), and what it gives is a
strict order of everything on the sheet, with one address for each thing.

Nothing is asked of the sheet: it may be numbered in any way or not at all, and node ids may repeat.
-/
import ProofSheet.Sheet.Scope
import ProofSheet.Proofs.Numbering

namespace ProofSheet

/-! ## Sheets without addresses -/

namespace Step

mutual

def unnumber : Step → Step
  | .line s => .line { s with number := none }
  | .subproof id a body _ => .subproof id { a with number := none } (unnumberAll body) none

def unnumberAll : List Step → List Step
  | [] => []
  | s :: ss => s.unnumber :: unnumberAll ss

end

theorem unnumberAll_renumberAll (ss : List Step) :
    ∀ slot : Nat → Address, unnumberAll (renumberAll slot ss) = unnumberAll ss := by
  induction ss using forestInduction with
  | nil => intro slot; rfl
  | line s ss ih =>
      intro slot
      rw [renumberAll, renumber, unnumberAll, unnumberAll, ih]
      rfl
  | subproof id a body n ss ihb ih =>
      intro slot
      rw [renumberAll, renumber, unnumberAll, unnumberAll, unnumber, unnumber, ihb, ih]

end Step

namespace Sheet

def unnumber (s : Sheet) : Sheet :=
  { s with
    premises := s.premises.map fun p => { p with number := none }
    steps := Step.unnumberAll s.steps
    goals := s.goals.map fun g => { g with number := none } }

theorem unnumber_renumber (s : Sheet) : s.renumber.unnumber = s.unnumber := by
  have hp : s.renumber.premises.map (fun p => { p with number := none }) =
      s.premises.map fun p => { p with number := none } := by
    refine map_mapIdx_eq ?_ s.premises
    intro i p
    rfl
  have hg : s.renumber.goals.map (fun g => { g with number := none }) =
      s.goals.map fun g => { g with number := none } := by
    refine map_mapIdx_eq ?_ s.goals
    intro j g
    rfl
  have hs : Step.unnumberAll s.renumber.steps = Step.unnumberAll s.steps :=
    Step.unnumberAll_renumberAll s.steps _
  rw [unnumber, unnumber, hp, hg, hs]
  rfl

end Sheet

/-! ## Addresses by position

The slots of a list of steps decide the slots of every list inside it. -/

namespace Address

/-- The slots of the list that a scope names, given those of the list it starts from. -/
def slotIn (slot : Nat → Address) : (scope : List Nat) → Nat → Address
  | [] => slot
  | i :: scope => slotIn (fun k => (slot i).child (k + 2)) scope

/-- The address of position `k` of the list that a scope names, on a sheet with `first` premises. -/
def inScope (first : Nat) : (scope : List Nat) → (k : Nat) → Address
  | [], k => ⟨[first + k + 1]⟩
  | i :: scope, k => ⟨(first + i + 1) :: (scope.map (· + 2) ++ [k + 2])⟩

theorem slotIn_child (scope : List Nat) :
    ∀ a : Address, slotIn (fun k => a.child (k + 2)) scope =
      fun k => ⟨a.path ++ (scope.map (· + 2) ++ [k + 2])⟩ := by
  induction scope with
  | nil => intro a; rfl
  | cons i scope ih =>
      intro a
      rw [slotIn, ih]
      simp [child]

theorem slotIn_top (first : Nat) (scope : List Nat) :
    slotIn (fun k => .top (first + k + 1)) scope = inScope first scope := by
  cases scope with
  | nil => rfl
  | cons i scope => exact slotIn_child scope (.top (first + i + 1))

end Address

namespace Step

theorem getElem?_renumberAll (ss : List Step) :
    ∀ (slot : Nat → Address) (k : Nat),
      (renumberAll slot ss)[k]? = ss[k]?.map (renumber (slot k)) := by
  induction ss with
  | nil => intro slot k; rfl
  | cons s ss ih =>
      intro slot k
      cases k with
      | zero => rfl
      | succ k =>
          rw [renumberAll, List.getElem?_cons_succ, List.getElem?_cons_succ]
          exact ih _ k

theorem number_renumber (a : Address) (s : Step) : (s.renumber a).number = some a := by
  cases s with
  | line s => rw [renumber, number]
  | subproof id b body n => rw [renumber, number]

theorem listAt?_renumberAll (scope : List Nat) :
    ∀ (slot : Nat → Address) (ss : List Step), listAt? scope (renumberAll slot ss) =
      (listAt? scope ss).map (renumberAll (Address.slotIn slot scope)) := by
  induction scope with
  | nil => intro slot ss; rfl
  | cons i scope ih =>
      intro slot ss
      rw [listAt?, listAt?, getElem?_renumberAll]
      cases hi : ss[i]? with
      | none => rfl
      | some s =>
          cases s with
          | line s => simp [renumber]
          | subproof id a body n =>
              rw [Option.map_some, renumber]
              exact ih _ body

/-- An assumption is line 1 of its subproof, and the body goes on from line 2. -/
theorem Numbered.interior (ss : List Step) :
    ∀ {slot : Nat → Address} {id : NodeId} {a : Statement} {body : List Step} {n : Option Address},
      Numbered slot ss → Entity.subproof id a body n ∈ entitiesOf ss →
      ∃ p, n = some p ∧ a.number = some (p.child 1) ∧
        Numbered (fun k => p.child (k + 2)) body := by
  induction ss using forestInduction with
  | nil =>
      intro slot id a body n _ he
      cases he
  | line s ss ih =>
      intro slot id a body n h he
      rw [entitiesOf, entities] at he
      rcases List.mem_append.1 he with he | he
      · cases List.mem_singleton.1 he
      · exact ih (numbered_line.1 h).2 he
  | subproof sid b inner m ss ihb ih =>
      intro slot id a body n h he
      obtain ⟨hm, hb, hinner, hss⟩ := numbered_subproof.1 h
      rw [entitiesOf, entities] at he
      rcases List.mem_append.1 he with he | he
      · rcases List.mem_cons.1 he with he | he
        · cases he
          exact ⟨slot 0, hm, hb, hinner⟩
        · rcases List.mem_cons.1 he with he | he
          · cases he
          · exact ihb hinner he
      · exact ih hss he

end Step

namespace Sheet

theorem stepsAt?_renumber (s : Sheet) (scope : List Nat) :
    s.renumber.stepsAt? scope =
      (s.stepsAt? scope).map (Step.renumberAll (Address.inScope s.premises.length scope)) := by
  rw [← Address.slotIn_top]
  exact Step.listAt?_renumberAll scope _ s.steps

theorem Numbered.opening {s : Sheet} (h : s.Numbered) {id : NodeId} {a : Statement}
    {body : List Step} {n : Option Address} (he : Entity.subproof id a body n ∈ s.entities) :
    ∃ p, n = some p ∧ a.number = some (p.child 1) := by
  obtain ⟨-, hs, -⟩ := numbered_iff.1 h
  have hsteps : Entity.subproof id a body n ∈ Step.entitiesOf s.steps := by
    simpa [entities] using he
  obtain ⟨p, hn, ha, -⟩ := hs.interior s.steps hsteps
  exact ⟨p, hn, ha⟩

/-- On a sheet that has just been numbered, whatever it was before: the addresses come in strict
order, so they are distinct and sorted; each leads back to the thing that has it; each is given by
the position of that thing alone; and nothing but addresses has changed, nor would change if the
sheet were numbered again. -/
theorem renumber_in_order (s : Sheet) :
    (∃ as, s.renumber.entities.map Entity.number = as.map some ∧
      as.Pairwise (fun a b => a.before b = true) ∧ as.Nodup ∧ Address.sort as = as) ∧
    (∀ e ∈ s.renumber.entities, e.number.bind s.renumber.resolve? = some e.id) ∧
    (∀ (scope : List Nat) (steps : List Step), s.stepsAt? scope = some steps →
      ∃ steps', s.renumber.stepsAt? scope = some steps' ∧ steps'.length = steps.length ∧
        ∀ (k : Nat) (st : Step), steps'[k]? = some st →
          st.number = some (.inScope s.premises.length scope k)) ∧
    (∀ (id : NodeId) (a : Statement) (body : List Step) (n : Option Address),
      .subproof id a body n ∈ s.renumber.entities →
        ∃ p, n = some p ∧ a.number = some (p.child 1)) ∧
    (∀ (i : Nat) (p : Premise), s.renumber.premises[i]? = some p →
      p.number = some ⟨[i + 1]⟩) ∧
    (∀ (j : Nat) (g : Goal), s.renumber.goals[j]? = some g →
      g.number = some ⟨[s.premises.length + s.steps.length + j + 1]⟩) ∧
    s.renumber.unnumber = s.unnumber ∧
    s.renumber.renumber = s.renumber := by
  have hnumbered := s.numbered_renumber
  obtain ⟨hps, -, hgs⟩ := numbered_iff.1 hnumbered
  have hplen : s.renumber.premises.length = s.premises.length := List.length_mapIdx
  have hslen : s.renumber.steps.length = s.steps.length := Step.length_renumberAll s.steps _
  refine ⟨?_, ?_, ?_, ?_, hps, ?_, s.unnumber_renumber, hnumbered⟩
  · obtain ⟨as, has, hblock⟩ := hnumbered.block
    exact ⟨as, has, hblock.ordered, hblock.nodup, Address.sort_eq_self hblock.ordered⟩
  · intro e he
    obtain ⟨a, ha⟩ := Option.ne_none_iff_exists'.1 (hnumbered.ne_none he)
    rw [ha, Option.bind_some]
    exact hnumbered.resolve? he ha
  · intro scope steps hsteps
    refine ⟨_, by rw [stepsAt?_renumber, hsteps]; rfl, Step.length_renumberAll steps _, ?_⟩
    intro k st hst
    rw [Step.getElem?_renumberAll, Option.map_eq_some_iff] at hst
    obtain ⟨st', -, rfl⟩ := hst
    exact Step.number_renumber _ st'
  · intro id a body n he
    exact hnumbered.opening he
  · intro j g hg
    rw [hgs j g hg, hplen, hslen]
    rfl

end Sheet

end ProofSheet
