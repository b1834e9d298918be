/-
# Decoding what was encoded

A decoder *recovers* a value from its tree when it gives the value back wherever there is room for
the tree, and refuses the tree wherever there is not (`Recovers`).  Records, alternatives and lists
recover what their parts recover, and the two JSON forms of formulas do so by induction
(`Formula.recovers_toJson`, `Formula.recovers_toWire`).

The limit on nesting is part of every statement here: a tree that is too deep is refused by whatever
part of it meets the limit first, so a refusal of a part has to be a refusal of the whole.
-/
import ProofSheet.Formula.Json
import ProofSheet.Proofs.JsonText

namespace ProofSheet

open Json (Members)

namespace Json

/-! ## Ordinary trees -/

/-- A tree that can be written and read back, also where it is held as a whole. -/
structure Ordinary (j : Json) : Prop where
  plain : j.Plain
  readable : j.readable = true

theorem ordinary_iff {j : Json} : j.Ordinary ↔ j.Plain ∧ j.readable = true :=
  ⟨fun h => ⟨h.plain, h.readable⟩, fun h => ⟨h.1, h.2⟩⟩

@[simp] theorem ordinary_null : Ordinary .null := ⟨trivial, rfl⟩

@[simp] theorem ordinary_text (s : String) : (text s).Ordinary := ⟨rfl, rfl⟩

theorem ordinary_natural {n : Nat} (h : n ≤ Numeral.maxWord) : (natural n).Ordinary :=
  ⟨trivial, by simp [readable, naturalInRange, h]⟩

@[simp] theorem ordinary_array {js : List Json} : (array js).Ordinary ↔ ∀ j ∈ js, j.Ordinary := by
  induction js with
  | nil => simp [ordinary_iff, Plain, PlainItems, readable, readableItems]
  | cons j js ih =>
      have hcons : (array (j :: js)).Ordinary ↔ j.Ordinary ∧ (array js).Ordinary := by
        simp only [ordinary_iff, Plain, PlainItems, readable, readableItems, Bool.and_eq_true]
        exact and_and_and_comm
      rw [hcons, ih, List.forall_mem_cons]

@[simp] theorem ordinary_record {ms : List (String × Json)} :
    (record ms).Ordinary ↔ ∀ m ∈ ms, m.2.Ordinary := by
  induction ms with
  | nil => simp [ordinary_iff, record, Plain, PlainMembers, readable, readableMembers]
  | cons m ms ih =>
      have hcons : (record (m :: ms)).Ordinary ↔ m.2.Ordinary ∧ (record ms).Ordinary := by
        simp only [ordinary_iff, record, List.map_cons, Plain, PlainMembers, readable,
          readableMembers, Option.isSome_some, Bool.and_eq_true, true_and]
        exact and_and_and_comm
      rw [hcons, ih, List.forall_mem_cons]

/-! ## Depth -/

@[simp] theorem depth_text (s : String) : (text s).depth = 0 := rfl

@[simp] theorem depth_natural (n : Nat) : (natural n).depth = 0 := rfl

theorem depth_array_le {js : List Json} {room : Nat} :
    (array js).depth ≤ room + 1 ↔ ∀ j ∈ js, j.depth ≤ room := by
  rw [depth, Nat.add_le_add_iff_right]
  induction js with
  | nil => simp [depthOfItems]
  | cons j js ih => rw [depthOfItems, Nat.max_le, ih, List.forall_mem_cons]

theorem depth_record_le {ms : Members} {room : Nat} :
    (record ms).depth ≤ room + 1 ↔ ∀ m ∈ ms, m.2.depth ≤ room := by
  rw [record, depth, Nat.add_le_add_iff_right]
  induction ms with
  | nil => simp [depthOfMembers]
  | cons m ms ih => rw [List.map_cons, depthOfMembers, Nat.max_le, ih, List.forall_mem_cons]

@[simp] theorem text?_text (s : String) : text? (text s) = some s := rfl

/-! ## Members -/

namespace Members

@[simp] theorem get_nil (name : String) : get [] name = [] := rfl

@[simp] theorem get_cons (m : String × Json) (ms : Members) (name : String) :
    get (m :: ms) name = if m.1 = name then m.2 :: get ms name else get ms name := by
  by_cases h : m.1 = name <;> simp [get, h]

variable {α : Type} {ms : Members} {name : String} {j : Json} {read : Json → Option α}

theorem required_eq (h : ms.get name = [j]) : ms.required name read = read j := by
  rw [required, h]

theorem required_absent (h : ms.get name = []) : ms.required name read = none := by
  rw [required, h]

/-- A member that may be absent is recovered, absent or not. -/
theorem optional_eq {write : α → Json} {o : Option α} (h : ms.get name = [orNull write o])
    (hread : ∀ a ∈ o, write a ≠ .null ∧ read (write a) = some a) :
    ms.optional name read = some o := by
  rw [optional, h]
  cases o with
  | none => rfl
  | some a =>
      obtain ⟨hnull, ha⟩ := hread a rfl
      rw [orNull]
      split
      · contradiction
      · rename_i e
        exact absurd (List.singleton_inj.1 e) hnull
      · rename_i e
        rw [← List.singleton_inj.1 e, ha]
        rfl
      · rename_i hmany
        exact absurd rfl (hmany (write a))

theorem tag?_cons {κ : Type} {held : Bool} {tag : String} {table : List (String × κ)}
    (h : ∀ m ∈ ms, m.1 ≠ name) : tag? ((name, text tag) :: ms) held name table = table.lookup tag := by
  have hrest : ms.get name = [] := by
    rw [get, List.map_eq_nil_iff, List.filter_eq_nil_iff]
    simpa using h
  rw [tag?, required_eq (by rw [get_cons, if_pos rfl, hrest])]
  rfl

end Members

/-! ## Recovery -/

variable {α β : Type}

/-- The decoder `d` gives `a` back from `j` where there is room for `j`, and nowhere else gives
anything. -/
def Recovers (d : Nat → Json → Option α) (j : Json) (a : α) : Prop :=
  ∀ (room : Nat) (b : α), d room j = some b ↔ j.depth ≤ room ∧ a = b

theorem Recovers.eq_ite {d : Nat → Json → Option α} {j : Json} {a : α} (h : Recovers d j a)
    (room : Nat) : d room j = if j.depth ≤ room then some a else none := by
  apply Option.ext
  intro b
  rw [h room b]
  split
  · rename_i hd
    simp [hd]
  · rename_i hd
    simp [hd]

theorem members?_record (ms : Members) : members? (ms.map fun m => (some m.1, m.2)) = some ms := by
  induction ms with
  | nil => rfl
  | cons m ms ih =>
      rw [members?] at ih ⊢
      rw [List.map_cons, List.mapM_cons, ih]
      rfl

theorem refused_iff {x : Option α} {j : Json} {room : Nat} {a b : α} (hx : x = none)
    (hroom : room < j.depth) : x = some b ↔ j.depth ≤ room ∧ a = b := by
  rw [hx]
  constructor
  · intro hnone
    cases hnone
  · rintro ⟨hdepth, -⟩
    exact absurd hroom (Nat.not_lt.2 hdepth)

theorem depth_record_pos (ms : Members) : 0 < (record ms).depth := by
  rw [record, depth]
  exact Nat.succ_pos _

theorem one_lt_depth_record {ms : Members} {m : String × Json} (hm : m ∈ ms) (h : 0 < m.2.depth) :
    1 < (record ms).depth := by
  rw [← Nat.not_le, depth_record_le]
  intro hall
  exact absurd h (Nat.not_lt.2 (hall m hm))

theorem recovers_record {read : Nat → Bool → Members → Option α} {held : Bool} {ms : Members}
    {a : α} (h : ∀ room b, read room held ms = some b ↔ (∀ m ∈ ms, m.2.depth ≤ room) ∧ a = b) :
    Recovers (record? read · held) (record ms) a := by
  intro room b
  cases room with
  | zero => exact refused_iff rfl (depth_record_pos ms)
  | succ room =>
      rw [depth_record_le, ← h room b]
      show (members? _).bind _ = some b ↔ _
      rw [members?_record, Option.bind_some]

/-- Holding a record as a whole adds nothing to what its members refuse: what does not fit is refused
at once where holding begins, and by its members where it is held already. -/
theorem bind_hold?_iff {held : Bool} {ms : Members} {k : Members → Option α} {room : Nat} {a b : α}
    (hms : (record ms).Ordinary) (h : k ms = some b ↔ (record ms).depth ≤ room ∧ a = b) :
    (hold? room held (ms.map fun m => (some m.1, m.2))).bind k = some b ↔
      (record ms).depth ≤ room ∧ a = b := by
  have hfits : (object (ms.map fun m => (some m.1, m.2))).fits room =
      decide ((record ms).depth ≤ room) := by
    show (decide ((record ms).depth ≤ room) && (record ms).readable) = _
    rw [hms.readable, Bool.and_true]
  rw [hold?, hfits, members?_record]
  split
  · exact h
  · rename_i hnot
    refine refused_iff rfl ?_
    simp only [Bool.or_eq_true, decide_eq_true_eq, not_or] at hnot
    exact Nat.not_le.1 hnot.2

theorem recovers_held {d : Nat → Json → Option α} {k : Nat → Members → Option α} {held : Bool}
    {ms : Members} {a : α} (hms : (record ms).Ordinary) (hzero : d 0 (record ms) = none)
    (hsucc : ∀ room, d (room + 1) (record ms) =
      (hold? (room + 1) held (ms.map fun m => (some m.1, m.2))).bind (k room))
    (h : ∀ room b, k room ms = some b ↔ (∀ m ∈ ms, m.2.depth ≤ room) ∧ a = b) :
    Recovers d (record ms) a := by
  intro room b
  cases room with
  | zero => exact refused_iff hzero (depth_record_pos ms)
  | succ room =>
      rw [hsucc]
      exact bind_hold?_iff hms (by rw [depth_record_le, h])

/-- The same for a decoder that looks at a record only with two levels of room, given that the record
needs them. -/
theorem recovers_held_deep {d : Nat → Json → Option α} {k : Nat → Members → Option α} {held : Bool}
    {ms : Members} {a : α} (hms : (record ms).Ordinary) (hdeep : 1 < (record ms).depth)
    (hzero : d 0 (record ms) = none) (hone : d 1 (record ms) = none)
    (hsucc : ∀ room, d (room + 2) (record ms) =
      (hold? (room + 2) held (ms.map fun m => (some m.1, m.2))).bind (k room))
    (h : ∀ room b, k room ms = some b ↔ (∀ m ∈ ms, m.2.depth ≤ room + 1) ∧ a = b) :
    Recovers d (record ms) a := by
  intro room b
  match room with
  | 0 => exact refused_iff hzero (depth_record_pos ms)
  | 1 => exact refused_iff hone hdeep
  | room + 2 =>
      rw [hsucc]
      exact bind_hold?_iff hms (by rw [depth_record_le, h])

theorem recovers_tagged {κ : Type} {d : Nat → Json → Option α} {k : Nat → κ → Members → Option α}
    {held : Bool} {tag t : String} {table : List (String × κ)} {kind : κ} {ms : Members} {a : α}
    (hms : (record ms).Ordinary) (hnames : ∀ m ∈ ms, m.1 ≠ tag)
    (hzero : d 0 (record ((tag, text t) :: ms)) = none)
    (hsucc : ∀ room, d (room + 1) (record ((tag, text t) :: ms)) =
      (hold? (room + 1) held (((tag, text t) :: ms).map fun m => (some m.1, m.2))).bind fun ms =>
        (ms.tag? held tag table).bind fun kind => k room kind ms)
    (hkind : table.lookup t = some kind)
    (h : ∀ room b, k room kind ((tag, text t) :: ms) = some b ↔
      (∀ m ∈ ms, m.2.depth ≤ room) ∧ a = b) :
    Recovers d (record ((tag, text t) :: ms)) a := by
  refine recovers_held ?_ hzero hsucc ?_
  · rw [ordinary_record, List.forall_mem_cons]
    exact ⟨ordinary_text t, ordinary_record.1 hms⟩
  · intro room b
    rw [Members.tag?_cons hnames, hkind, Option.bind_some, h room b, List.forall_mem_cons]
    simp

theorem mapM_recovers {item : Nat → Json → Option α} {write : α → Json} {as : List α}
    (h : ∀ a ∈ as, Recovers item (write a) a) (room : Nat) :
    ∀ bs, (as.map write).mapM (item room) = some bs ↔
      (∀ a ∈ as, (write a).depth ≤ room) ∧ as = bs := by
  induction as with
  | nil =>
      intro bs
      simp [eq_comm]
  | cons a as ih =>
      intro bs
      obtain ⟨ha, has⟩ := List.forall_mem_cons.1 h
      simp only [List.map_cons, List.mapM_cons, Option.bind_eq_bind, Option.bind_eq_some_iff, ha room,
        ih has, Option.pure_def, Option.some.injEq, List.forall_mem_cons]
      constructor
      · rintro ⟨b, ⟨hd, rfl⟩, bs', ⟨hds, rfl⟩, rfl⟩
        exact ⟨⟨hd, hds⟩, rfl⟩
      · rintro ⟨⟨hd, hds⟩, rfl⟩
        exact ⟨a, ⟨hd, rfl⟩, as, ⟨hds, rfl⟩, rfl⟩

theorem recovers_list {item : Nat → Json → Option α} {write : α → Json} {as : List α}
    (h : ∀ a ∈ as, Recovers item (write a) a) :
    Recovers (list? item) (.array (as.map write)) as := by
  intro room bs
  cases room with
  | zero => exact refused_iff rfl (by rw [depth]; exact Nat.succ_pos _)
  | succ room =>
      rw [depth_array_le, List.forall_mem_map]
      exact mapM_recovers h room bs

end Json

/-! ## Terms and formulas -/

namespace Term

theorem ordinary_toJson (t : Term) : t.toJson.Ordinary := by
  simp [toJson]

/-- A term is recovered, whichever kind comes first in the table. -/
theorem recovers_toJson {kinds : List (String × (String → Term))}
    (hvar : kinds.lookup "variable" = some .var) (hconst : kinds.lookup "constant" = some .const)
    (t : Term) (held : Bool) : Json.Recovers (decoder kinds · held) t.toJson t := by
  cases t with
  | var x =>
      refine Json.recovers_tagged (by simp) (by simp) rfl (fun _ => rfl) hvar ?_
      simp [Members.required, name]
  | const c =>
      refine Json.recovers_tagged (by simp) (by simp) rfl (fun _ => rfl) hconst ?_
      simp [Members.required, name]

end Term

namespace Formula

theorem lookup_connective {predicate : String} {c : Connective}
    (h : (c.jsonName == predicate) = false) :
    (kinds predicate).lookup c.jsonName = some (.binary c) := by
  rw [kinds, List.lookup_cons, h]
  cases c <;> rfl

theorem lookup_quantifier {predicate : String} {q : Quantifier}
    (h : (q.jsonName == predicate) = false) :
    (kinds predicate).lookup q.jsonName = some (.quantified q) := by
  rw [kinds, List.lookup_cons, h]
  cases q <;> rfl

theorem recovers_variable (x : String) (held : Bool) :
    Json.Recovers (variableOfJson? · held) (variableToJson x) x := by
  refine Json.recovers_record ?_
  simp [Members.required]

theorem ordinary_toJson (f : Formula) : f.toJson.Ordinary := by
  induction f with
  | predicate name args => simp [toJson, Term.ordinary_toJson]
  | bottom => simp [toJson]
  | neg f ih => simp [toJson, ih]
  | binary c l r ihl ihr => simp [toJson, ihl, ihr]
  | quantified q x f ih => simp [toJson, variableToJson, ih]

theorem recovers_toJson (f : Formula) : ∀ held, Json.Recovers (ofJson? · held) f.toJson f := by
  induction f with
  | predicate name args =>
      intro held
      have hargs : Json.Recovers (Json.list? (Term.ofJson? · true)) (.array (args.map Term.toJson))
          args :=
        Json.recovers_list fun t _ => Term.recovers_toJson rfl rfl t true
      refine Json.recovers_tagged (by simp [Term.ordinary_toJson]) (by simp) rfl (fun _ => rfl) rfl ?_
      intro room b
      simp [Members.required, Option.bind_eq_some_iff, hargs room, and_assoc]
  | bottom =>
      intro held
      refine Json.recovers_tagged (by simp) (by simp) rfl (fun _ => rfl) rfl ?_
      simp
  | neg f ih =>
      intro held
      refine Json.recovers_tagged (by simp [ordinary_toJson]) (by simp) rfl
        (fun _ => rfl) rfl ?_
      intro room b
      simp [Members.required, Option.bind_eq_some_iff, ih true room, and_assoc]
  | binary c l r ihl ihr =>
      intro held
      refine Json.recovers_tagged (by simp [ordinary_toJson]) (by simp) rfl
        (fun _ => rfl) (lookup_connective (by cases c <;> rfl)) ?_
      intro room b
      simp [Members.required, Option.bind_eq_some_iff, ihl true room, ihr true room, and_assoc]
  | quantified q x f ih =>
      intro held
      refine Json.recovers_tagged (by simp [ordinary_toJson, variableToJson]) (by simp) rfl
        (fun _ => rfl) (lookup_quantifier (by cases q <;> rfl)) ?_
      intro room b
      simp [Members.required, Option.bind_eq_some_iff, recovers_variable x true room, ih true room,
        and_assoc]

theorem ordinary_toWire (f : Formula) : f.toWire.Ordinary := by
  induction f with
  | predicate name args =>
      cases args with
      | nil => simp [toWire, wireArgs]
      | cons t ts => simp [toWire, wireArgs, Term.ordinary_toJson]
  | bottom => simp [toWire]
  | neg f ih => simp [toWire, ih]
  | binary c l r ihl ihr => simp [toWire, ihl, ihr]
  | quantified q x f ih => simp [toWire, ih]

theorem recovers_toWire (f : Formula) : ∀ held, Json.Recovers (ofWire? · held) f.toWire f := by
  induction f with
  | predicate name args =>
      intro held
      cases args with
      | nil =>
          -- the arguments are left out, and the default stands in for them
          refine Json.recovers_tagged (by simp [wireArgs]) (by simp [wireArgs]) rfl (fun _ => rfl) rfl ?_
          simp [Members.required, Members.orDefault, wireArgs]
      | cons t ts =>
          have hargs : Json.Recovers (Json.list? (Term.ofWire? · true))
              (.array ((t :: ts).map Term.toJson)) (t :: ts) :=
            Json.recovers_list fun t _ => Term.recovers_toJson rfl rfl t true
          refine Json.recovers_tagged (by simp [wireArgs, Term.ordinary_toJson]) (by simp [wireArgs]) rfl
            (fun _ => rfl) rfl ?_
          intro room b
          simp [Members.required, Members.orDefault, Option.bind_eq_some_iff, wireArgs, hargs room,
            and_assoc, -List.map_cons]
  | bottom =>
      intro held
      refine Json.recovers_tagged (by simp) (by simp) rfl (fun _ => rfl) rfl ?_
      simp
  | neg f ih =>
      intro held
      refine Json.recovers_tagged (by simp [ordinary_toWire]) (by simp) rfl (fun _ => rfl) rfl ?_
      intro room b
      simp [Members.required, Option.bind_eq_some_iff, ih true room, and_assoc]
  | binary c l r ihl ihr =>
      intro held
      refine Json.recovers_tagged (by simp [ordinary_toWire]) (by simp) rfl
        (fun _ => rfl) (lookup_connective (by cases c <;> rfl)) ?_
      intro room b
      simp [Members.required, Option.bind_eq_some_iff, ihl true room, ihr true room, and_assoc]
  | quantified q x f ih =>
      intro held
      refine Json.recovers_tagged (by simp [ordinary_toWire]) (by simp) rfl
        (fun _ => rfl) (lookup_quantifier (by cases q <;> rfl)) ?_
      intro room b
      simp [Members.required, Option.bind_eq_some_iff, ih true room, and_assoc]

end Formula

end ProofSheet
