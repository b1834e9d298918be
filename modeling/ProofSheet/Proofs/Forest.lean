/-
# Forests of steps

The steps of a sheet are a forest: lists of lines and subproofs, with lists inside the subproofs.
This module holds what all proofs about them share: induction over a forest, and the *contents* of a
forest, which are its entities without addresses and without the bodies of subproofs.

The contents are what structural edits move around.  Numbering does not touch them, and a list of
steps that a scope names is one block of them: replacing the list replaces the block and nothing
else (`setListAt_contents`).
-/
import Mathlib.Data.List.Nodup
import Mathlib.Data.List.Perm.Subperm
import ProofSheet.Sheet.Numbering
import ProofSheet.Sheet.Scope

namespace ProofSheet

theorem find?_of_nodup {α κ : Type} [BEq κ] [LawfulBEq κ] {key : α → κ} {l : List α} {a : α}
    (h : (l.map key).Nodup) (ha : a ∈ l) : l.find? (key · == key a) = some a := by
  have hsome : (l.find? (key · == key a)).isSome := by
    rw [List.find?_isSome]
    exact ⟨a, ha, beq_self_eq_true _⟩
  obtain ⟨b, hb⟩ := Option.isSome_iff_exists.1 hsome
  have hkey : key b = key a := by simpa using List.find?_some hb
  rw [hb, List.inj_on_of_nodup_map h (List.mem_of_find?_eq_some hb) ha hkey]

namespace Step

/-- Induction over a forest: the first step is a line, or a subproof with a forest inside. -/
@[elab_as_elim]
theorem forestInduction {P : List Step → Prop} (nil : P [])
    (line : ∀ s ss, P ss → P (.line s :: ss))
    (subproof : ∀ id a body n ss, P body → P ss → P (.subproof id a body n :: ss)) :
    ∀ ss, P ss
  | [] => nil
  | .line s :: ss => line s ss (forestInduction nil line subproof ss)
  | .subproof id a body n :: ss =>
      subproof id a body n ss (forestInduction nil line subproof body)
        (forestInduction nil line subproof ss)

theorem entitiesOf_append (ss ts : List Step) :
    entitiesOf (ss ++ ts) = entitiesOf ss ++ entitiesOf ts := by
  induction ss with
  | nil => rfl
  | cons s ss ih => rw [List.cons_append, entitiesOf, entitiesOf, ih, List.append_assoc]

end Step

/-! ## Contents -/

namespace Entity

/-- A thing without its address and, if it is a subproof, without its body. -/
def content : Entity → Entity
  | .premise p => .premise { p with number := none }
  | .statement s => .statement { s with number := none }
  | .subproof id a _ _ => .subproof id { a with number := none } [] none
  | .goal g => .goal { g with number := none }

@[simp] theorem id_content (e : Entity) : e.content.id = e.id := by
  cases e <;> rfl

end Entity

namespace Step

def contents (ss : List Step) : List Entity := (entitiesOf ss).map Entity.content

theorem contents_cons (s : Step) (ss : List Step) :
    contents (s :: ss) = contents [s] ++ contents ss := by
  simp [contents, entitiesOf]

theorem contents_append (ss ts : List Step) : contents (ss ++ ts) = contents ss ++ contents ts := by
  rw [contents, entitiesOf_append, List.map_append]
  rfl

theorem contents_subproof (id : NodeId) (a : Statement) (body : List Step) (n : Option Address) :
    contents [.subproof id a body n] =
      .subproof id { a with number := none } [] none :: .statement { a with number := none } ::
        contents body := by
  simp [contents, entitiesOf, entities, Entity.content]

theorem contents_renumberAll (ss : List Step) :
    ∀ slot : Nat → Address, contents (renumberAll slot ss) = contents ss := by
  induction ss using forestInduction with
  | nil => intro slot; rfl
  | line s ss ih =>
      intro slot
      rw [renumberAll, renumber, contents_cons, ih, contents_cons (.line s)]
      rfl
  | subproof id a body n ss ihb ih =>
      intro slot
      rw [renumberAll, renumber, contents_cons, ih, contents_cons (.subproof id a body n),
        contents_subproof, contents_subproof, ihb]

/-- A scope enters the list at a subproof, and what is replaced is inside that subproof. -/
theorem listAt?_cons {i : Nat} {scope : List Nat} {ss old : List Step}
    (h : listAt? (i :: scope) ss = some old) :
    ∃ pre id a body n post, ss = pre ++ .subproof id a body n :: post ∧ pre.length = i ∧
      listAt? scope body = some old ∧
      ∀ new, setListAt new (i :: scope) ss =
        pre ++ .subproof id a (setListAt new scope body) n :: post := by
  rw [listAt?] at h
  split at h
  · rename_i id a body n hi
    obtain ⟨hlt, e⟩ := List.getElem?_eq_some_iff.1 hi
    refine ⟨ss.take i, id, a, body, n, ss.drop (i + 1), ?_,
      List.length_take_of_le (Nat.le_of_lt hlt), h, ?_⟩
    · rw [← e, List.getElem_cons_drop, List.take_append_drop]
    · intro new
      rw [setListAt, hi]
      exact List.set_eq_take_append_cons_drop.trans (if_pos hlt)
  · cases h

/-- A list of steps that a scope names is one block of whatever is listed of the forest step by step, and
replacing the list replaces the block. -/
theorem setListAt_listed {β : Type} (listed : List Step → List β)
    (opening : NodeId → Statement → List β)
    (append : ∀ ss ts, listed (ss ++ ts) = listed ss ++ listed ts)
    (subproof : ∀ id a body n, listed [.subproof id a body n] = opening id a ++ listed body)
    {scope : List Nat} :
    ∀ {ss old : List Step}, listAt? scope ss = some old →
      ∃ before after, listed ss = before ++ listed old ++ after ∧
        ∀ new, listed (setListAt new scope ss) = before ++ listed new ++ after := by
  induction scope with
  | nil =>
      intro ss old h
      cases h
      exact ⟨[], [], by simp, fun new => by simp [setListAt]⟩
  | cons i scope ih =>
      intro ss old h
      obtain ⟨pre, id, a, body, n, post, rfl, -, hlist, hset⟩ := listAt?_cons h
      obtain ⟨before, after, hbody, hnew⟩ := ih hlist
      have hentered : ∀ body', listed (pre ++ .subproof id a body' n :: post) =
          listed pre ++ opening id a ++ listed body' ++ listed post := by
        intro body'
        rw [← List.singleton_append, append, append, subproof]
        simp only [List.append_assoc]
      refine ⟨listed pre ++ opening id a ++ before, after ++ listed post, ?_, ?_⟩
      · rw [hentered, hbody]
        simp only [List.append_assoc]
      · intro new
        rw [hset, hentered, hnew]
        simp only [List.append_assoc]

/-- A list of steps that a scope names is one block of the contents, and replacing the list replaces
the block. -/
theorem setListAt_contents {scope : List Nat} {ss old : List Step} (h : listAt? scope ss = some old) :
    ∃ before after, contents ss = before ++ contents old ++ after ∧
      ∀ new, contents (setListAt new scope ss) = before ++ contents new ++ after := by
  refine setListAt_listed contents (fun id a => [.subproof id { a with number := none } [] none,
    .statement { a with number := none }]) contents_append ?_ h
  intro id a body n
  exact contents_subproof id a body n

theorem contents_perm {ss ts : List Step} (h : ss.Perm ts) : (contents ss).Perm (contents ts) := by
  have hflat : ∀ us : List Step, contents us = us.flatMap fun s => contents [s] := by
    intro us
    induction us with
    | nil => rfl
    | cons u us ih => rw [contents_cons, ih, List.flatMap_cons]
  rw [hflat, hflat]
  exact h.flatMap_right _

end Step

/-! ## Contents of a sheet -/

namespace Sheet

def contents (s : Sheet) : List Entity := s.entities.map Entity.content

theorem contents_eq (s : Sheet) :
    s.contents = s.premises.map (fun p => .premise { p with number := none }) ++
      Step.contents s.steps ++ s.goals.map fun g => .goal { g with number := none } := by
  simp [contents, entities, Step.contents, Entity.content, Function.comp_def]

theorem map_mapIdx_eq {α β γ : Type} {f : Nat → α → β} {g : β → γ} {h : α → γ}
    (e : ∀ i a, g (f i a) = h a) (l : List α) : (l.mapIdx f).map g = l.map h := by
  apply List.ext_getElem?
  intro i
  cases hi : l[i]? with
  | none => simp [hi]
  | some a => simp [hi, e]

theorem mapIdx_map {α β γ : Type} (f : Nat → β → γ) (g : α → β) (l : List α) :
    (l.map g).mapIdx f = l.mapIdx fun i a => f i (g a) := by
  simp [List.mapIdx_eq_zipIdx_map, List.zipIdx_map, Function.comp_def]

theorem contents_renumber (s : Sheet) : s.renumber.contents = s.contents := by
  have hp : s.renumber.premises.map (fun p => Entity.premise { p with number := none }) =
      s.premises.map fun p => .premise { p with number := none } := by
    refine map_mapIdx_eq ?_ s.premises
    intro i a
    rfl
  have hg : s.renumber.goals.map (fun g => Entity.goal { g with number := none }) =
      s.goals.map fun g => .goal { g with number := none } := by
    refine map_mapIdx_eq ?_ s.goals
    intro i a
    rfl
  have hs : Step.contents s.renumber.steps = Step.contents s.steps :=
    Step.contents_renumberAll s.steps _
  rw [contents_eq, hp, hg, hs, ← contents_eq]

theorem setStepsAt_contents {s : Sheet} {scope : List Nat} {old : List Step}
    (h : s.stepsAt? scope = some old) :
    ∃ before after, s.contents = before ++ Step.contents old ++ after ∧
      ∀ new, (s.setStepsAt scope new).contents = before ++ Step.contents new ++ after := by
  obtain ⟨before, after, hold, hnew⟩ := Step.setListAt_contents h
  refine ⟨s.premises.map (fun p => .premise { p with number := none }) ++ before,
    after ++ s.goals.map fun g => .goal { g with number := none }, ?_, ?_⟩
  · rw [contents_eq, hold]
    simp only [List.append_assoc]
  · intro new
    rw [contents_eq, setStepsAt, hnew]
    simp only [List.append_assoc]

/-- What a list of steps gains and loses by a change, the whole sheet gains and loses, and nothing
else. -/
theorem setStepsAt_perm {s : Sheet} {scope : List Nat} {old new : List Step} (lost gained : List Entity)
    (h : s.stepsAt? scope = some old)
    (hn : (lost ++ Step.contents new).Perm (gained ++ Step.contents old)) :
    (lost ++ (s.setStepsAt scope new).contents).Perm (gained ++ s.contents) := by
  obtain ⟨before, after, hold, hnew⟩ := setStepsAt_contents h
  -- a block may be taken out of the middle
  have hmiddle : ∀ more block : List Entity,
      (more ++ (before ++ block ++ after)).Perm (before ++ (more ++ block) ++ after) := by
    intro more block
    have hswap : (more ++ before).Perm (before ++ more) := List.perm_append_comm
    have := (hswap.append_right block).append_right after
    simpa only [List.append_assoc] using this
  rw [hold, hnew]
  have hblocks : (before ++ (lost ++ Step.contents new) ++ after).Perm
      (before ++ (gained ++ Step.contents old) ++ after) :=
    (hn.append_left before).append_right after
  exact ((hmiddle lost _).trans hblocks).trans (hmiddle gained _).symm

end Sheet

end ProofSheet
