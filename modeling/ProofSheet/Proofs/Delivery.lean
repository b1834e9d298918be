/-
# Payloads survive being sent

A payload is read back from its text as long as the text nests no deeper than a document may, and is
refused if it nests deeper (`Payload.read_text_exact`).

Items carry no common tag: a reader first tries the one kind and then the other.  An inference has no
member that makes it a subproof, and a subproof none that makes it an inference, so the second attempt
is never made in vain: it neither takes one kind for the other nor covers up that a subproof was
refused for something inside it.
-/
import ProofSheet.Payload.Json
import ProofSheet.Proofs.Decoding
import ProofSheet.Proofs.Nesting

namespace ProofSheet

open Json (Members Recovers)

theorem Formula.depth_toWire_pos (f : Formula) : 0 < f.toWire.depth := by
  cases f <;> exact Json.depth_record_pos _

/-! ## Assumptions and inferences -/

namespace Assumption

theorem ordinary_toJson (a : Assumption) : a.toJson.Ordinary := by
  simp [toJson, Formula.ordinary_toWire]

theorem recovers_toJson (a : Assumption) (held : Bool) : Recovers (ofJson? · held) a.toJson a := by
  refine Json.recovers_record ?_
  intro room b
  simp [Members.required, Option.bind_eq_some_iff, a.formula.recovers_toWire held room, and_assoc]

end Assumption

namespace Inference

def toMembers (i : Inference) : Members :=
  [("id", .text i.id), ("formula", i.formula.toWire), ("rule", .text i.rule),
    ("premises", .array (i.premises.map Json.text))]

theorem ordinary_toJson (i : Inference) : i.toJson.Ordinary := by
  simp [toJson, Formula.ordinary_toWire]

theorem ofMembers?_toMembers (i : Inference) (held : Bool) (room : Nat) (b : Inference) :
    ofMembers? room held i.toMembers = some b ↔
      (∀ m ∈ i.toMembers, m.2.depth ≤ room) ∧ i = b := by
  have hpremises : Recovers Json.texts? (.array (i.premises.map Json.text)) i.premises := by
    refine Json.recovers_list ?_
    intro q _ room b
    simp
  simp [ofMembers?, toMembers, Members.required, Members.orDefault, Option.bind_eq_some_iff,
    i.formula.recovers_toWire held room, hpremises room, and_assoc]

theorem recovers_toJson (i : Inference) (held : Bool) : Recovers (ofJson? · held) i.toJson i :=
  Json.recovers_record (ofMembers?_toMembers i held)

end Inference

/-! ## Items -/

namespace Item

theorem toJsonAll_eq_map (is : List Item) : toJsonAll is = is.map toJson := by
  induction is with
  | nil => rfl
  | cons i is ih => rw [toJsonAll, ih, List.map_cons]

mutual

theorem ordinary_toJson : ∀ i : Item, i.toJson.Ordinary
  | .subproof id a is => by
      simpa [toJson, toJsonAll_eq_map, Assumption.ordinary_toJson] using ordinary_all is
  | .inference i => by
      rw [toJson]
      exact i.ordinary_toJson

theorem ordinary_all : ∀ is : List Item, ∀ i ∈ is, i.toJson.Ordinary
  | [] => by simp
  | i :: is => List.forall_mem_cons.2 ⟨ordinary_toJson i, ordinary_all is⟩

end

/-- An item that is held is a subproof, or else an inference. -/
theorem ofJson?_object (room : Nat) (held : Bool) (ms : List (Option String × Json)) :
    ofJson? (room + 2) held (.object ms) = (Json.hold? (room + 2) held ms).bind fun ms =>
      (subproofOf? (Json.list? (ofJson? · true) (room + 1)) (room + 1) ms).or
        ((Inference.ofMembers? (room + 1) true ms).map .inference) := by
  have hsteps : ∀ {steps? : Json → Option (List Item)} {ms : Members} {x : Option Item},
      subproofOf? steps? (room + 1) ms = x →
      (∀ j, steps? j = Json.list? (ofJson? · true) (room + 1) j) →
      subproofOf? (Json.list? (ofJson? · true) (room + 1)) (room + 1) ms = x := by
    intro steps? ms x h hsame
    rw [← h, funext hsame]
  rw [ofJson?]
  refine congrArg _ (funext fun ms => ?_)
  dsimp only
  split
  · rename_i s hs
    rw [hsteps hs fun j => by cases j <;> rfl, Option.some_or]
    rfl
  · rename_i hs
    rw [hsteps hs fun j => by cases j <;> rfl, Option.none_or]

theorem subproofOf?_eq_none {steps? : Json → Option (List Item)} {room : Nat} {ms : Members}
    (h : ms.get "type" = []) : subproofOf? steps? room ms = none := by
  rw [subproofOf?, Members.required_absent h]
  simp

theorem ofMembers?_eq_none {room : Nat} {held : Bool} {ms : Members} (h : ms.get "formula" = []) :
    Inference.ofMembers? room held ms = none := by
  rw [Inference.ofMembers?, Members.required_absent h]
  simp

theorem recovers_inference (i : Inference) (held : Bool) :
    Recovers (ofJson? · held) (toJson (.inference i)) (.inference i) := by
  have hformula : ("formula", i.formula.toWire) ∈ i.toMembers := by simp [Inference.toMembers]
  have hdeep := Json.one_lt_depth_record hformula i.formula.depth_toWire_pos
  refine Json.recovers_held_deep (ordinary_toJson (.inference i)) hdeep rfl rfl
    (fun room => ofJson?_object room held _) ?_
  intro room b
  show (subproofOf? _ _ i.toMembers).or ((Inference.ofMembers? (room + 1) true i.toMembers).map _) =
    some b ↔ (∀ m ∈ i.toMembers, m.2.depth ≤ room + 1) ∧ _
  -- the first attempt fails
  rw [subproofOf?_eq_none (by simp [Inference.toMembers]), Option.none_or, Option.map_eq_some_iff]
  simp [Inference.ofMembers?_toMembers, and_assoc]

theorem recovers_subproof {is : List Item} (his : ∀ i ∈ is, Recovers (ofJson? · true) i.toJson i)
    (id : String) (a : Assumption) (held : Bool) :
    Recovers (ofJson? · held) (toJson (.subproof id a is)) (.subproof id a is) := by
  have hordinary := ordinary_toJson (.subproof id a is)
  have hsteps := Json.recovers_list his
  rw [toJson, toJsonAll_eq_map] at hordinary ⊢
  have hassumption : ("assumption", a.toJson) ∈ ([("id", .text id), ("type", .text "subproof"),
      ("assumption", a.toJson), ("steps", .array (is.map toJson))] : Members) := by simp
  have hdeep := Json.one_lt_depth_record hassumption (Json.depth_record_pos _)
  refine Json.recovers_held_deep hordinary hdeep rfl rfl (fun room => ofJson?_object room held _) ?_
  intro room b
  have htype : Json.named? [("subproof", ())] (room + 1) (.text "subproof") = some () := rfl
  -- the second attempt fails, so the first one decides
  rw [ofMembers?_eq_none (by simp), Option.map_none, Option.or_none]
  simp [subproofOf?, Members.required, htype, Option.bind_eq_some_iff,
    a.recovers_toJson true (room + 1), hsteps (room + 1), and_assoc]

mutual

theorem recovers_toJson : ∀ (i : Item) (held : Bool), Recovers (ofJson? · held) i.toJson i
  | .subproof id a is, held => recovers_subproof (recovers_all is) id a held
  | .inference i, held => recovers_inference i held

theorem recovers_all : ∀ is : List Item, ∀ i ∈ is, Recovers (ofJson? · true) i.toJson i
  | [] => by simp
  | i :: is => List.forall_mem_cons.2 ⟨recovers_toJson i true, recovers_all is⟩

end

end Item

/-! ## Payloads -/

namespace Payload

theorem ordinary_toJson (p : Payload) : p.toJson.Ordinary := by
  simpa [toJson, Assumption.ordinary_toJson, Inference.ordinary_toJson, Item.toJsonAll_eq_map] using
    Item.ordinary_all p.steps

theorem recovers_toJson (p : Payload) : Recovers (ofJson? · false) p.toJson p := by
  have hpremises : Recovers (Json.list? (Assumption.ofJson? · false))
      (.array (p.premises.map Assumption.toJson)) p.premises :=
    Json.recovers_list fun a _ => a.recovers_toJson false
  have hsteps : Recovers (Json.list? (Item.ofJson? · false)) (.array (p.steps.map Item.toJson)) p.steps :=
    Json.recovers_list fun i _ => i.recovers_toJson false
  have hconclusions : Recovers (Json.list? (Inference.ofJson? · false))
      (.array (p.conclusions.map Inference.toJson)) p.conclusions :=
    Json.recovers_list fun i _ => i.recovers_toJson false
  refine Json.recovers_record ?_
  intro room b
  simp [Members.required, Item.toJsonAll_eq_map, Option.bind_eq_some_iff, hpremises room, hsteps room,
    hconclusions room, and_assoc]

/-- A payload is read back from its text, each of its items as the kind it is of, if the text nests no
deeper than 127 levels; else the text is refused. -/
theorem read_text_exact (p : Payload) :
    ofText? p.text = if Json.nesting p.text ≤ 127 then some p else none := by
  have hplain := p.ordinary_toJson.plain
  rw [ofText?, Json.decode?, text, Json.parse?_print hplain, Option.bind_some,
    Json.nesting_print hplain]
  exact p.recovers_toJson.eq_ite Json.maxNesting

end Payload

end ProofSheet
