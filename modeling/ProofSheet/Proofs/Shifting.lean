/-
# How structural edits shift addresses

An edit numbers the whole sheet afresh, but on a sheet that was numbered few addresses change: those at
and inside the later positions of the list that is edited, and each of them at one position only
(`Address.Shift`).  Lines that come later but in a list around it stay where they are.

Old and new things are paired in the order of the sheet: `Spliced` says that two listings go together but
for one block, which is what the edit has put in or taken out.  The argument has three parts.  Numbered
steps that are numbered again move with their slots (`Step.moved_renumberAll`).  If a block of a list is
replaced, the slots after it move (`Step.spliced_renumberAll`).  And whatever is outside of the list that
a scope names is outside of all slots of that list (`Step.spliced_setListAt`).
-/
import ProofSheet.Proofs.Enclosure
import ProofSheet.Proofs.StepEdits

namespace ProofSheet

/-! ## Lists that go together around a block -/

/-- In the list `l` the block `gone` has given way to the block `new`, which makes it `m`; before and
after the blocks the two lists go together. -/
def Spliced {α β : Type} (R : α → β → Prop) (gone : List α) (new : List β) (l : List α) (m : List β) :
    Prop :=
  ∃ before after before' after', l = before ++ gone ++ after ∧ m = before' ++ new ++ after' ∧
    List.Forall₂ R before before' ∧ List.Forall₂ R after after'

section

variable {α β : Type} {R : α → β → Prop} {gone l : List α} {new m : List β}

theorem spliced_self : Spliced R gone new gone new :=
  ⟨[], [], [], [], by simp, by simp, .nil, .nil⟩

theorem Spliced.surround (h : Spliced R gone new l m) {before after : List α} {before' after' : List β}
    (hbefore : List.Forall₂ R before before') (hafter : List.Forall₂ R after after') :
    Spliced R gone new (before ++ l ++ after) (before' ++ m ++ after') := by
  obtain ⟨b, a, b', a', rfl, rfl, hb, ha⟩ := h
  refine ⟨before ++ b, a ++ after, before' ++ b', a' ++ after', ?_, ?_,
    List.rel_append hbefore hb, List.rel_append ha hafter⟩
  · simp only [List.append_assoc]
  · simp only [List.append_assoc]

theorem Spliced.append_right (h : Spliced R gone new l m) {after : List α} {after' : List β}
    (hafter : List.Forall₂ R after after') : Spliced R gone new (l ++ after) (m ++ after') :=
  h.surround .nil hafter

theorem Spliced.trans (h : Spliced R gone new l m) {l' : List α} {m' : List β}
    (houter : Spliced R l m l' m') : Spliced R gone new l' m' := by
  obtain ⟨b, a, b', a', rfl, rfl, hb, ha⟩ := houter
  exact h.surround hb ha

end

/-! ## Shifted addresses -/

namespace Address

theorem contains_of_ne {x y : Nat} (h : x ≠ y) (path u v : List Nat) :
    contains ⟨path ++ x :: u⟩ ⟨path ++ y :: v⟩ = false := by
  rw [Bool.eq_false_iff, Ne, contains_iff]
  intro hextends
  exact h (List.cons_prefix_cons.1 ((List.prefix_append_right_inj path).1 hextends)).1

theorem contains_of_length_lt {a b : Address} (h : b.path.length < a.path.length) :
    a.contains b = false := by
  rw [Bool.eq_false_iff, Ne, contains_iff]
  intro hextends
  exact absurd hextends.length_le (Nat.not_le.2 h)

/-- The address `a` becomes `b` when the slots from `first` on move: the position at index `depth` is
changed by `f` if `a` is at or inside one of these slots, and else nothing is changed. -/
structure Shift (slot : Nat → Address) (first depth : Nat) (f : Nat → Nat) (a b : Address) : Prop where
  inside : ∀ k, first ≤ k → (slot k).contains a = true → b.path = a.path.modify depth f
  outside : (∀ k, first ≤ k → (slot k).contains a = false) → b = a

variable {slot : Nat → Address} {path : List Nat} {m first depth : Nat} {f : Nat → Nat}

theorem modify_append_length (path : List Nat) (x : Nat) (tail : List Nat) :
    (path ++ x :: tail).modify path.length f = path ++ f x :: tail := by
  induction path with
  | nil => rfl
  | cons n path ih =>
      rw [List.cons_append, List.length_cons, List.modify_succ_cons, ih, List.cons_append]

theorem shift_slot (hslot : ∀ k, slot k = ⟨path ++ [m + k]⟩) {k k' : Nat} (hk : first ≤ k)
    (hf : f (m + k) = m + k') (tail : List Nat) :
    Shift slot first path.length f ⟨(slot k).path ++ tail⟩ ⟨(slot k').path ++ tail⟩ where
  inside _ _ _ := by
    rw [hslot, hslot, List.append_assoc, List.append_assoc, List.singleton_append, List.singleton_append,
      modify_append_length, hf]
  outside h := by
    have hself : (slot k).contains ⟨(slot k).path ++ tail⟩ = true :=
      contains_iff.2 (List.prefix_append _ _)
    rw [h k hk] at hself
    cases hself

theorem shift_slot_self (hslot : ∀ k, slot k = ⟨path ++ [m + k]⟩) {k k' : Nat} (hk : first ≤ k)
    (hf : f (m + k) = m + k') : Shift slot first path.length f (slot k) (slot k') := by
  have hshift := shift_slot hslot hk hf []
  rwa [List.append_nil, List.append_nil] at hshift

theorem shift_same {a : Address} (h : ∀ k, first ≤ k → (slot k).contains a = false) :
    Shift slot first depth f a a where
  inside k hk hin := by
    rw [h k hk] at hin
    cases hin
  outside _ := rfl

theorem shift_top {k k' : Nat} (hk : first ≤ k) (hf : f (k + 1) = k' + 1) (tail : List Nat) :
    Shift (fun k => .top (k + 1)) first 0 f ⟨[k + 1] ++ tail⟩ ⟨[k' + 1] ++ tail⟩ := by
  have hslot : ∀ k, Address.top (k + 1) = ⟨[] ++ [1 + k]⟩ := by
    intro k
    rw [Nat.add_comm]
    rfl
  rw [Nat.add_comm k, Nat.add_comm k'] at hf
  exact shift_slot hslot hk hf tail

theorem shift_top_same {k : Nat} (hk : k < first) :
    Shift (fun k => .top (k + 1)) first depth f (.top (k + 1)) (.top (k + 1)) :=
  shift_same fun _ hj => contains_of_ne (by omega) [] [] []

/-- The slots of a list end in consecutive positions. -/
theorem inScope_eq (first : Nat) (scope : List Nat) :
    ∃ path m, path.length = scope.length ∧ ∀ k, inScope first scope k = ⟨path ++ [m + k]⟩ := by
  cases scope with
  | nil =>
      refine ⟨[], first + 1, rfl, ?_⟩
      intro k
      rw [inScope, Nat.add_right_comm]
      rfl
  | cons i scope =>
      refine ⟨(first + i + 1) :: scope.map (· + 2), 2, by simp, ?_⟩
      intro k
      rw [inScope, Nat.add_comm k 2]
      rfl

theorem inScope_contains_top {first n : Nat} {scope : List Nat} (k : Nat)
    (h : scope = [] → first + k + 1 ≠ n) : (inScope first scope k).contains (.top n) = false := by
  cases scope with
  | nil => exact contains_of_ne (h rfl) [] [] []
  | cons i scope => exact contains_of_length_lt (by simp [inScope, top])

/-- The slots of a list inside a subproof come after its assumption. -/
theorem slotIn_child_cons (a : Address) (scope : List Nat) (k : Nat) :
    ∃ x u, slotIn (fun k => a.child (k + 2)) scope k = ⟨a.path ++ (x + 2) :: u⟩ := by
  rw [slotIn_child]
  cases scope with
  | nil => exact ⟨k, [], rfl⟩
  | cons i scope => exact ⟨i, scope.map (· + 2) ++ [k + 2], rfl⟩

end Address

/-! ## Things that move -/

/-- The thing `e` has become `e'`: only its address has changed, as `moves` says, and, if it is a
subproof, its body. -/
def Entity.Moved (moves : Address → Address → Prop) (e e' : Entity) : Prop :=
  e'.content = e.content ∧ ∃ a b, e.number = some a ∧ e'.number = some b ∧ moves a b

namespace Step

variable {moves : Address → Address → Prop}

theorem renumberAll_append (ss ts : List Step) :
    ∀ slot : Nat → Address, renumberAll slot (ss ++ ts) =
      renumberAll slot ss ++ renumberAll (fun k => slot (ss.length + k)) ts := by
  induction ss with
  | nil =>
      intro slot
      simp only [List.nil_append, List.length_nil, Nat.zero_add, renumberAll]
  | cons s ss ih =>
      intro slot
      rw [List.cons_append, renumberAll, ih, renumberAll, List.cons_append, List.length_cons]
      simp only [Nat.add_right_comm]

theorem numbered_append {slot : Nat → Address} {ss ts : List Step} :
    Numbered slot (ss ++ ts) ↔
      Numbered slot ss ∧ Numbered (fun k => slot (ss.length + k)) ts := by
  rw [Numbered, renumberAll_append]
  constructor
  · intro h
    exact List.append_inj h (length_renumberAll ss slot)
  · rintro ⟨hs, ht⟩
    exact congrArg₂ _ hs ht

theorem entitiesOf_singleton (st : Step) : entitiesOf [st] = st.entities := by
  rw [entitiesOf, entitiesOf, List.append_nil]

theorem entitiesOf_around (pre : List Step) (id : NodeId) (a : Statement) (body : List Step)
    (n : Option Address) (post : List Step) :
    entitiesOf (pre ++ .subproof id a body n :: post) =
      (entitiesOf pre ++ [.subproof id a body n, .statement a]) ++ entitiesOf body ++
        entitiesOf post := by
  simp [entitiesOf_append, entitiesOf, entities]

/-- Numbered steps that are numbered again from other slots: what was at or inside a slot is at or
inside the slot that it was given. -/
theorem moved_renumberAll (ss : List Step) :
    ∀ {slot : Nat → Address} (slot' : Nat → Address), Numbered slot ss →
      (∀ k < ss.length, ∀ tail, moves ⟨(slot k).path ++ tail⟩ ⟨(slot' k).path ++ tail⟩) →
      List.Forall₂ (Entity.Moved moves) (entitiesOf ss) (entitiesOf (renumberAll slot' ss)) := by
  induction ss using forestInduction with
  | nil =>
      intro slot slot' _ _
      exact .nil
  | line s ss ih =>
      intro slot slot' h hmoves
      obtain ⟨hs, hss⟩ := numbered_line.1 h
      have hself := hmoves 0 (Nat.succ_pos _) []
      rw [List.append_nil, List.append_nil] at hself
      rw [renumberAll, renumber, entitiesOf, entitiesOf, entities, entities]
      refine .cons ⟨rfl, _, _, hs, rfl, hself⟩ (ih _ hss ?_)
      intro k hk
      exact hmoves (k + 1) (Nat.succ_lt_succ hk)
  | subproof id a body n ss ihb ih =>
      intro slot slot' h hmoves
      obtain ⟨hn, ha, hbody, hss⟩ := numbered_subproof.1 h
      have hhead := hmoves 0 (Nat.succ_pos _)
      have hself := hhead []
      rw [List.append_nil, List.append_nil] at hself
      have hinside := ihb (fun k => (slot' 0).child (k + 2)) hbody fun k _ tail => by
        rw [Address.child, Address.child, List.append_assoc, List.append_assoc]
        exact hhead _
      have hlater := ih (fun k => slot' (k + 1)) hss fun k hk =>
        hmoves (k + 1) (Nat.succ_lt_succ hk)
      rw [renumberAll, renumber, entitiesOf, entitiesOf, entities, entities]
      exact List.rel_append
        (.cons ⟨rfl, _, _, hn, rfl, hself⟩ (.cons ⟨rfl, _, _, ha, rfl, hhead [1]⟩ hinside)) hlater

/-- If the list that a scope names is replaced, everything outside it keeps its address. -/
theorem spliced_setListAt {scope : List Nat} :
    ∀ {slot : Nat → Address} {path : List Nat} {m : Nat} {ss old : List Step},
      (∀ k, slot k = ⟨path ++ [m + k]⟩) → Numbered slot ss → listAt? scope ss = some old →
      (∀ a, (∀ k, (Address.slotIn slot scope k).contains a = false) → moves a a) →
      ∀ new, Spliced (Entity.Moved moves) (entitiesOf old)
        (entitiesOf (renumberAll (Address.slotIn slot scope) new))
        (entitiesOf ss) (entitiesOf (renumberAll slot (setListAt new scope ss))) := by
  induction scope with
  | nil =>
      intro slot path m ss old _ _ hlist _ new
      cases hlist
      exact spliced_self
  | cons i scope ih =>
      intro slot path m ss old hslot hss hlist hmoves new
      obtain ⟨pre, id, a, body, n, post, rfl, rfl, hlist, hset⟩ := listAt?_cons hlist
      obtain ⟨hpre, hrest⟩ := numbered_append.1 hss
      obtain ⟨hn, ha, hbody, hpost⟩ := numbered_subproof.1 hrest
      have hinner := ih (slot_child (slot pre.length)) hbody hlist hmoves new
      -- the list is inside the subproof, after its assumption, so nothing else is at or inside a slot
      have houtside : ∀ a, (∀ x u, Address.contains ⟨(slot pre.length).path ++ (x + 2) :: u⟩ a = false) →
          moves a a := by
        intro a ha
        refine hmoves a fun j => ?_
        obtain ⟨x, u, hin⟩ := Address.slotIn_child_cons (slot pre.length) scope j
        rw [Address.slotIn, hin]
        exact ha x u
      have hbeside : ∀ k, k ≠ pre.length → ∀ tail,
          moves ⟨(slot k).path ++ tail⟩ ⟨(slot k).path ++ tail⟩ := by
        intro k hk tail
        refine houtside _ fun x u => ?_
        rw [hslot, hslot, List.append_assoc, List.append_assoc]
        exact Address.contains_of_ne (by omega) _ _ _
      have hself : moves (slot pre.length) (slot pre.length) :=
        houtside _ fun x u => Address.contains_of_length_lt (by simp)
      have hassumption : moves ((slot pre.length).child 1) ((slot pre.length).child 1) :=
        houtside _ fun x u => Address.contains_of_ne (by omega) _ _ _
      have hbefore := moved_renumberAll pre slot hpre fun k hk => hbeside k (Nat.ne_of_lt hk)
      have hafter := moved_renumberAll post _ hpost fun k _ => hbeside _ (by omega)
      rw [hset, renumberAll_append, renumberAll, renumber, entitiesOf_around, entitiesOf_around]
      refine hinner.surround (List.rel_append hbefore ?_) hafter
      exact .cons ⟨rfl, _, _, hn, rfl, hself⟩ (.cons ⟨rfl, _, _, ha, rfl, hassumption⟩ .nil)

/-- If some steps of a list give way to others, the steps before them keep their slots and those after
them move. -/
theorem spliced_renumberAll {slot : Nat → Address} {path : List Nat} {m : Nat}
    (hslot : ∀ k, slot k = ⟨path ++ [m + k]⟩) {pre gone post : List Step}
    (h : Numbered slot (pre ++ gone ++ post)) (new : List Step) :
    Spliced (Entity.Moved (Address.Shift slot (pre.length + gone.length) path.length
        fun c => c - gone.length + new.length))
      (entitiesOf gone) (entitiesOf (renumberAll (fun k => slot (pre.length + k)) new))
      (entitiesOf (pre ++ gone ++ post)) (entitiesOf (renumberAll slot (pre ++ new ++ post))) := by
  obtain ⟨hfront, hpost⟩ := numbered_append.1 h
  obtain ⟨hpre, -⟩ := numbered_append.1 hfront
  rw [renumberAll_append, renumberAll_append, entitiesOf_append, entitiesOf_append, entitiesOf_append,
    entitiesOf_append]
  refine spliced_self.surround (moved_renumberAll pre _ hpre ?_) (moved_renumberAll post _ hpost ?_)
  · intro j hj tail
    refine Address.shift_same fun k hk => ?_
    rw [hslot, hslot, List.append_assoc]
    exact Address.contains_of_ne (by omega) _ _ _
  · intro k _ tail
    refine Address.shift_slot hslot ?_ ?_ tail
    · rw [List.length_append]
      omega
    · rw [List.length_append, List.length_append]
      omega

end Step

namespace Sheet

theorem moved_row {α : Type} {moves : Address → Address → Prop} {thing : α → Entity} {f : Nat → α → α}
    {l : List α} {slot : Nat → Address} (slot' : Nat → Address)
    (hl : ∀ (i : Nat) (a : α), l[i]? = some a → (thing a).number = some (slot i))
    (hf : ∀ (i : Nat) (a : α), (thing (f i a)).content = (thing a).content ∧
      (thing (f i a)).number = some (slot' i))
    (hmoves : ∀ i < l.length, moves (slot i) (slot' i)) :
    List.Forall₂ (Entity.Moved moves) (l.map thing) ((l.mapIdx f).map thing) := by
  rw [List.forall₂_map_left_iff, List.forall₂_map_right_iff, List.forall₂_iff_get]
  refine ⟨List.length_mapIdx.symm, ?_⟩
  intro i hi _
  rw [List.get_eq_getElem, List.get_eq_getElem, List.getElem_mapIdx]
  exact ⟨(hf i _).1, _, _, hl i _ (List.getElem?_eq_getElem hi), (hf i _).2, hmoves i hi⟩

/-- If some lines of a row give way to others, the lines before them keep their slots and those after
them move. -/
theorem spliced_row {α : Type} {moves : Address → Address → Prop} {thing : α → Entity}
    {f : Nat → α → α} {slot : Nat → Address} {pre gone post : List α} (new : List α)
    (hl : ∀ (i : Nat) (a : α), (pre ++ gone ++ post)[i]? = some a → (thing a).number = some (slot i))
    (hf : ∀ (i : Nat) (a : α), (thing (f i a)).content = (thing a).content ∧
      (thing (f i a)).number = some (slot i))
    (hkept : ∀ k < pre.length, moves (slot k) (slot k))
    (hlater : ∀ k, moves (slot (pre.length + gone.length + k)) (slot (pre.length + new.length + k))) :
    Spliced (Entity.Moved moves) (gone.map thing)
      ((new.mapIdx fun k => f (k + pre.length)).map thing)
      ((pre ++ gone ++ post).map thing) (((pre ++ new ++ post).mapIdx f).map thing) := by
  have hbefore : List.Forall₂ (Entity.Moved moves) (pre.map thing) ((pre.mapIdx f).map thing) := by
    refine moved_row slot ?_ hf hkept
    intro i a ha
    have hi := (List.getElem?_eq_some_iff.1 ha).1
    exact hl i a (by rw [List.append_assoc, List.getElem?_append_left hi, ha])
  have hafter : List.Forall₂ (Entity.Moved moves) (post.map thing)
      ((post.mapIdx fun k => f (k + (pre ++ new).length)).map thing) := by
    have hpost : ∀ (i : Nat) (a : α), post[i]? = some a →
        (thing a).number = some (slot (pre.length + gone.length + i)) := by
      intro i a ha
      refine hl _ a ?_
      rw [List.getElem?_append_right (by simp), ← ha]
      simp
    refine moved_row _ hpost (fun i a => hf (i + (pre ++ new).length) a) ?_
    intro i _
    rw [Nat.add_comm i, List.length_append]
    exact hlater i
  rw [List.mapIdx_append, List.mapIdx_append, List.map_append, List.map_append, List.map_append,
    List.map_append]
  exact spliced_self.surround hbefore hafter

/-- The sheet `s` has become `t`: the things `gone` have given way to `new`, and all else is still
there, with the address it gets when the slots from `first` on move. -/
def ShiftsTo (s t : Sheet) (slot : Nat → Address) (first depth : Nat) (f : Nat → Nat)
    (gone new : List Entity) : Prop :=
  Spliced (Entity.Moved (Address.Shift slot first depth f)) gone new s.entities t.entities

variable {s : Sheet} {scope : List Nat} {steps : List Step} {i : Nat}

theorem Numbered.stepsAt? (h : s.Numbered) (hsteps : s.stepsAt? scope = some steps) :
    Step.Numbered (Address.inScope s.premises.length scope) steps := by
  have hagain := s.stepsAt?_renumber scope
  rw [h, hsteps, Option.map_some] at hagain
  exact (Option.some.inj hagain).symm

theorem Numbered.spliced_setStepsAt (h : s.Numbered) {moves : Address → Address → Prop}
    (hsteps : s.stepsAt? scope = some steps)
    (hmoves : ∀ a, (∀ k, (Address.inScope s.premises.length scope k).contains a = false) → moves a a)
    (new : List Step) :
    Spliced (Entity.Moved moves) (Step.entitiesOf steps)
      (Step.entitiesOf (Step.renumberAll (Address.inScope s.premises.length scope) new))
      (Step.entitiesOf s.steps) (Step.entitiesOf (s.setStepsAt scope new).renumber.steps) := by
  rw [← Address.slotIn_top] at hmoves ⊢
  exact Step.spliced_setListAt (Step.slot_top _) (numbered_iff.1 h).2.1 hsteps hmoves new

/-- The goals come after the list of the sheet itself, and are outside of any other list. -/
theorem shift_goal {pre gone post : List Step}
    (hsteps : s.stepsAt? scope = some (pre ++ gone ++ post)) (new : List Step) (j : Nat) :
    Address.Shift (Address.inScope s.premises.length scope) (pre.length + gone.length) scope.length
      (fun c => c - gone.length + new.length) (.top (s.premises.length + s.steps.length + j + 1))
      (.top (s.premises.length + (s.setStepsAt scope (pre ++ new ++ post)).steps.length + j + 1)) := by
  cases scope with
  | nil =>
      have hold : s.steps.length = pre.length + gone.length + post.length := by
        rw [Option.some.inj hsteps, List.length_append, List.length_append]
      have hnew : (pre ++ new ++ post).length = pre.length + new.length + post.length := by
        rw [List.length_append, List.length_append]
      have hslot : ∀ k, Address.inScope s.premises.length [] k = ⟨[] ++ [s.premises.length + 1 + k]⟩ :=
        fun k => Step.slot_top _ k
      have hgoal : Address.Shift (Address.inScope s.premises.length []) (pre.length + gone.length) 0
          (fun c => c - gone.length + new.length)
          (.inScope s.premises.length [] (s.steps.length + j))
          (.inScope s.premises.length [] ((pre ++ new ++ post).length + j)) :=
        Address.shift_slot_self hslot (by omega) (by omega)
      rw [Address.inScope, Address.inScope, ← Nat.add_assoc, ← Nat.add_assoc] at hgoal
      exact hgoal
  | cons i scope =>
      have hlength : (s.setStepsAt (i :: scope) (pre ++ new ++ post)).steps.length = s.steps.length := by
        obtain ⟨_, _, _, _, _, _, hold, -, -, hset⟩ := Step.listAt?_cons hsteps
        rw [setStepsAt, hset, hold]
        simp
      rw [hlength]
      exact Address.shift_same fun k _ =>
        Address.inScope_contains_top k fun hnil => absurd hnil (List.cons_ne_nil i scope)

/-- If some steps of a list give way to others, the later steps of the list move, and, if it is the list
of the sheet itself, so do the goals. -/
theorem Numbered.shiftsTo_steps (h : s.Numbered) {pre gone post : List Step}
    (hsteps : s.stepsAt? scope = some (pre ++ gone ++ post)) (new : List Step) (next : Nat) :
    s.ShiftsTo ({ s with nextId := next }.setStepsAt scope (pre ++ new ++ post)).renumber
      (.inScope s.premises.length scope) (pre.length + gone.length) scope.length
      (fun c => c - gone.length + new.length) (Step.entitiesOf gone)
      (Step.entitiesOf (Step.renumberAll
        (fun k => .inScope s.premises.length scope (pre.length + k)) new)) := by
  obtain ⟨hps, -, hgs⟩ := numbered_iff.1 h
  obtain ⟨path, m, hlen, hslot⟩ := Address.inScope_eq s.premises.length scope
  have hinner := Step.spliced_renumberAll hslot (h.stepsAt? hsteps) new
  rw [hlen] at hinner
  have hlists := hinner.trans (h.spliced_setStepsAt hsteps
    (fun a ha => Address.shift_same fun k _ => ha k) (pre ++ new ++ post))
  refine hlists.surround (moved_row _ hps (fun _ _ => ⟨rfl, rfl⟩) ?_)
    (moved_row _ hgs (fun _ _ => ⟨rfl, rfl⟩) fun j _ => shift_goal hsteps new j)
  intro i hi
  exact Address.shift_same fun k _ => Address.inScope_contains_top k fun _ => by omega

theorem Numbered.shiftsTo_premises (h : s.Numbered) {pre gone post : List Premise}
    (hpremises : s.premises = pre ++ gone ++ post) (new : List Premise) (next : Nat) :
    s.ShiftsTo { s with premises := pre ++ new ++ post, nextId := next }.renumber
      (fun k => .top (k + 1)) (pre.length + gone.length) 0 (fun c => c - gone.length + new.length)
      (gone.map .premise)
      ((new.mapIdx fun k p => { p with number := some (.top (k + pre.length + 1)) }).map .premise) := by
  obtain ⟨hps, hss, hgs⟩ := numbered_iff.1 h
  have hlength : s.premises.length = pre.length + gone.length + post.length := by
    rw [hpremises, List.length_append, List.length_append]
  have hlength' : (pre ++ new ++ post).length = pre.length + new.length + post.length := by
    rw [List.length_append, List.length_append]
  refine Spliced.append_right (Spliced.append_right ?_ (Step.moved_renumberAll s.steps
      (fun k => .top ((pre ++ new ++ post).length + k + 1)) hss ?_))
    (moved_row (fun j => .top ((pre ++ new ++ post).length + s.steps.length + j + 1)) hgs
      (fun _ _ => ⟨rfl, rfl⟩) ?_)
  · rw [hpremises] at hps ⊢
    refine spliced_row new hps (fun _ _ => ⟨rfl, rfl⟩) ?_ ?_
    · intro k hk
      exact Address.shift_top_same (by omega)
    · intro k
      exact Address.shift_top (by omega) (by omega) []
  · intro k _ tail
    exact Address.shift_top (by omega) (by omega) tail
  · intro j _
    exact Address.shift_top (by omega) (by omega) []

/-! ## The edits -/

/-- How addresses change when premises are added or taken out. -/
structure ShiftsPremises (s : Sheet) : Prop where
  /-- The new premise comes after the others, and everything after it moves down by one. -/
  addPremise : s.ShiftsTo s.addPremise.2 (fun k => .top (k + 1)) s.premises.length 0 (· + 1)
    [] [.premise { Premise.blank s.addPremise.1 with number := some (.top (s.premises.length + 1)) }]
  /-- The premise is handed out with its address, and everything after it moves up by one. -/
  deletePremise : ∀ i < s.premises.length, ∃ p t, s.deletePremise i = .ok (p, t) ∧
    p.number = some (.top (i + 1)) ∧
    s.ShiftsTo t (fun k => .top (k + 1)) (i + 1) 0 (· - 1) [.premise p] []

/-- How addresses change when steps of the list that a scope names are inserted or taken out.  The slots
of the list are given by the scope, and the position that changes in an address is the last one of a
slot. -/
structure ShiftsSteps (s : Sheet) (scope : List Nat) (steps : List Step) : Prop where
  slots : ∀ (k : Nat) (st : Step), steps[k]? = some st →
    st.number = some (.inScope s.premises.length scope k)
  insertStatement : ∀ i ≤ steps.length, ∃ id t, s.insertStatement scope i = (.ok id, t) ∧
    s.ShiftsTo t (.inScope s.premises.length scope) i scope.length (· + 1)
      [] [.statement { Statement.blank id with number := some (.inScope s.premises.length scope i) }]
  /-- The assumption is line 1 of the new subproof. -/
  insertSubproof : ∀ i ≤ steps.length, ∃ id a t, s.insertSubproof scope i = (.ok id, t) ∧
    a = { Statement.blank ⟨id.val + 1⟩ with
      number := some ((Address.inScope s.premises.length scope i).child 1) } ∧
    s.ShiftsTo t (.inScope s.premises.length scope) i scope.length (· + 1)
      [] [.subproof id a [] (some (.inScope s.premises.length scope i)), .statement a]
  /-- The step is handed out with its address. -/
  deleteStep : ∀ i < steps.length, ∃ st t, s.deleteStep scope i = .ok (st, t) ∧
    st.number = some (.inScope s.premises.length scope i) ∧
    s.ShiftsTo t (.inScope s.premises.length scope) (i + 1) scope.length (· - 1) st.entities []

theorem Numbered.number_step (h : s.Numbered) (hsteps : s.stepsAt? scope = some steps) {k : Nat}
    {st : Step} (hst : steps[k]? = some st) :
    st.number = some (.inScope s.premises.length scope k) := by
  have hagain := Step.getElem?_renumberAll steps (.inScope s.premises.length scope) k
  rw [h.stepsAt? hsteps, hst, Option.map_some] at hagain
  rw [Option.some.inj hagain]
  exact Step.number_renumber _ st

theorem Numbered.shiftsTo_insertStep (h : s.Numbered) (hsteps : s.stepsAt? scope = some steps)
    (hi : i ≤ steps.length) (step : Step) (next : Nat) :
    ∃ t, ({ s with nextId := next } : Sheet).insertStep scope i step = .ok t ∧
      s.ShiftsTo t (.inScope s.premises.length scope) i scope.length (· + 1)
        [] (step.renumber (.inScope s.premises.length scope i)).entities := by
  refine ⟨_, insertStep_eq_ok.2 ⟨steps, hsteps, hi, rfl⟩, ?_⟩
  obtain ⟨pre, post, rfl, hold, hnew⟩ := putIn_insertIdx (x := step) hi
  have hsplit : s.stepsAt? scope = some (pre ++ [] ++ post) := by
    rw [List.append_nil, ← hold, hsteps]
  have hshift := h.shiftsTo_steps hsplit [step] next
  rw [Step.renumberAll, Step.renumberAll, Step.entitiesOf_singleton] at hshift
  rw [hnew, List.append_cons]
  exact hshift

theorem Numbered.shiftsTo_deleteStep (h : s.Numbered) (hsteps : s.stepsAt? scope = some steps)
    (hi : i < steps.length) : ∃ st t, s.deleteStep scope i = .ok (st, t) ∧
      st.number = some (.inScope s.premises.length scope i) ∧
      s.ShiftsTo t (.inScope s.premises.length scope) (i + 1) scope.length (· - 1)
        st.entities [] := by
  have hst := List.getElem?_eq_getElem hi
  refine ⟨steps[i], _, deleteStep_eq_ok.2 ⟨steps, hsteps, hst, rfl⟩, h.number_step hsteps hst, ?_⟩
  obtain ⟨pre, post, rfl, hnew, hold⟩ := putIn_eraseIdx hst
  have hsplit : s.stepsAt? scope = some (pre ++ [steps[pre.length]] ++ post) := by
    rw [← List.append_cons, ← hold, hsteps]
  have hshift := h.shiftsTo_steps hsplit [] s.nextId
  rw [Step.entitiesOf_singleton, List.append_nil] at hshift
  rw [hnew]
  exact hshift

/-- On a numbered sheet, an edit of a list shifts exactly the addresses it must: at and inside each
later position of the list one position of the address goes up or down by one, and everything else
keeps its address. -/
theorem edits_shift_addresses (h : s.Numbered) :
    s.ShiftsPremises ∧
    ∀ scope steps, s.stepsAt? scope = some steps → s.ShiftsSteps scope steps := by
  refine ⟨⟨?_, ?_⟩, fun scope steps hsteps => ⟨fun _ _ => h.number_step hsteps, ?_, ?_, fun i hi =>
    h.shiftsTo_deleteStep hsteps hi⟩⟩
  · have hpremises : s.premises = s.premises ++ [] ++ [] := by simp
    have hshift := h.shiftsTo_premises hpremises [.blank s.freshId] s.takeId.nextId
    simp only [List.append_nil, List.mapIdx_cons, List.mapIdx_nil, Nat.zero_add] at hshift
    exact hshift
  · intro i hi
    have hp := List.getElem?_eq_getElem hi
    refine ⟨s.premises[i], _, by rw [deletePremise, hp], (numbered_iff.1 h).1 i _ hp, ?_⟩
    obtain ⟨pre, post, rfl, hnew, hold⟩ := putIn_eraseIdx hp
    rw [List.append_cons] at hold
    have hshift := h.shiftsTo_premises hold [] s.nextId
    rw [List.append_nil, ← hnew] at hshift
    exact hshift
  · intro i hi
    obtain ⟨t, ht, hshift⟩ := h.shiftsTo_insertStep hsteps hi (.line (.blank s.freshId)) _
    exact ⟨s.freshId, t, orKeep_eq_ok.2 ⟨rfl, ht⟩, hshift⟩
  · intro i hi
    obtain ⟨t, ht, hshift⟩ := h.shiftsTo_insertStep hsteps hi
      (.subproof s.freshId (.blank s.takeId.freshId) [] none) _
    have hid : s.takeId.freshId = ⟨s.freshId.val + 1⟩ := congrArg NodeId.mk s.freshId_takeId
    exact ⟨s.freshId, _, t, orKeep_eq_ok.2 ⟨rfl, ht⟩, rfl, hid ▸ hshift⟩

/-- A history that leads to premise 1, subproof 2 with a line in it, line 3 and goal 4. -/
def twoScopes : List Command :=
  [.addPremise, .insertSubproof [] 0, .insertStatement [0] 0, .insertStatement [] 1, .addGoal]

/-- The theorem for the body of the subproof: a line put in at its start moves line 2.2 and nothing else,
while without the premise everything moves. -/
theorem two_scopes_shift : ∃ s steps, s = Command.runAll {} twoScopes ∧
    s.entities.map Entity.number =
      [some ⟨[1]⟩, some ⟨[2]⟩, some ⟨[2, 1]⟩, some ⟨[2, 2]⟩, some ⟨[3]⟩, some ⟨[4]⟩] ∧
    s.stepsAt? [0] = some steps ∧ s.ShiftsPremises ∧ s.ShiftsSteps [0] steps := by
  have hnumbered : (Command.runAll {} twoScopes).Numbered :=
    (Reachable.invariant ⟨twoScopes, rfl⟩).numbered
  have hbody : ((Command.runAll {} twoScopes).stepsAt? [0]).isSome = true := by decide +kernel
  obtain ⟨steps, hsteps⟩ := Option.isSome_iff_exists.1 hbody
  obtain ⟨hpremises, hlists⟩ := edits_shift_addresses hnumbered
  exact ⟨_, steps, rfl, by decide +kernel, hsteps, hpremises, hlists [0] steps hsteps⟩

end Sheet

end ProofSheet
