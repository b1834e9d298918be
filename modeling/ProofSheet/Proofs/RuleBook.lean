/-
# What a rule book holds and what it says

A book is filled name by name.  However it is filled, its custom rules are the names that were offered,
each where it came first, without the reserved ones (`custom_ofNames`).

A built-in rule is told by its long name and a custom rule by its own, and built-in rules come first
(`resolve?_eq_some`).  So no book can change what is told for a built-in rule, a larger book only
knows more names, and a book that was filled name by name never answers with a reserved name
(`guarded_ofNames`).
-/
import Mathlib.Data.List.Induction
import ProofSheet.Rule.Book

namespace ProofSheet

namespace Rule

theorem ofShortName?_eq_none {name : String} :
    ofShortName? name = none ↔ ∀ r : Rule, r.shortName ≠ name := by
  constructor
  · rintro h r rfl
    rw [ofShortName?_shortName] at h
    cases h
  · intro h
    cases hr : ofShortName? name with
    | none => rfl
    | some r => exact absurd (shortName_of_ofShortName? hr) (h r)

theorem isReservedRule_longName (r : Rule) : isReservedRule r.longName = false := by
  cases r <;> decide

end Rule

namespace RuleBook

variable {b b' : RuleBook} {name told : String}

/-! ## What a book says -/

@[simp] theorem resolve?_shortName (b : RuleBook) (r : Rule) :
    b.resolve? r.shortName = some r.longName := by
  rw [resolve?, Rule.ofShortName?_shortName]

theorem resolve?_of_not_builtin (h : ∀ r : Rule, r.shortName ≠ name) :
    b.resolve? name = if name ∈ b.custom then some name else none := by
  rw [resolve?, Rule.ofShortName?_eq_none.2 h]
  simp

/-- `told` is what is told for the rule name of a line: the long name of the built-in rule that has it
as its short name, or else the name itself, which is then a custom rule of the book. -/
def Tells (b : RuleBook) (name told : String) : Prop :=
  (∃ r : Rule, r.shortName = name ∧ told = r.longName) ∨
  ((∀ r : Rule, r.shortName ≠ name) ∧ told = name ∧ name ∈ b.custom)

theorem resolve?_eq_some : b.resolve? name = some told ↔ b.Tells name told := by
  rw [Tells]
  by_cases hbuiltin : ∃ r : Rule, r.shortName = name
  · obtain ⟨r, rfl⟩ := hbuiltin
    rw [resolve?_shortName]
    constructor
    · intro h
      exact .inl ⟨r, rfl, (Option.some.inj h).symm⟩
    · rintro (⟨r', hr', rfl⟩ | ⟨hnone, -⟩)
      · have hsame := Rule.ofShortName?_shortName r'
        rw [hr', Rule.ofShortName?_shortName] at hsame
        rw [Option.some.inj hsame]
      · exact absurd rfl (hnone r)
  · rw [not_exists] at hbuiltin
    rw [resolve?_of_not_builtin hbuiltin, Option.ite_none_right_eq_some]
    constructor
    · rintro ⟨hmem, htold⟩
      exact .inr ⟨hbuiltin, (Option.some.inj htold).symm, hmem⟩
    · rintro (⟨r, hr, -⟩ | ⟨-, rfl, hmem⟩)
      · exact absurd hr (hbuiltin r)
      · exact ⟨hmem, rfl⟩

theorem resolve?_of_subset (hsub : ∀ n ∈ b.custom, n ∈ b'.custom)
    (h : b.resolve? name = some told) : b'.resolve? name = some told := by
  rw [resolve?_eq_some] at h ⊢
  exact Or.imp id (fun ⟨hnone, htold, hmem⟩ => ⟨hnone, htold, hsub name hmem⟩) h

/-! ## Filling a book -/

theorem custom_insert (b : RuleBook) (name : String) :
    (b.insert name).custom =
      if isReservedRule name = true ∨ name ∈ b.custom then b.custom else b.custom ++ [name] := by
  by_cases hreserved : isReservedRule name = true
  · simp [insert, admits, hreserved]
  · by_cases hmem : name ∈ b.custom
    · simp [insert, admits, hmem]
    · simp [insert, admits, hreserved, hmem]

/-- Names that are offered one by one to the book of some names make up the book of them all. -/
theorem foldl_insert_ofNames (names more : List String) :
    more.foldl insert (ofNames names) = ofNames (names ++ more) := by
  rw [ofNames, ofNames, List.foldl_append]

/-- The custom rules of a book: the names offered, each where it came first, without the reserved
ones. -/
theorem custom_ofNames (names : List String) :
    (ofNames names).custom = (names.filter fun n => !isReservedRule n).eraseDups := by
  induction names using List.reverseRecOn with
  | nil => rfl
  | append_singleton names n ih =>
      rw [← foldl_insert_ofNames, List.foldl_cons, List.foldl_nil, custom_insert, ih,
        List.filter_append, List.eraseDups_append]
      -- the last name is dropped if it is reserved or came before
      by_cases hreserved : isReservedRule n = true
      · simp [hreserved, List.removeAll]
      · by_cases hmem : n ∈ names
        · simp [hreserved, hmem, List.removeAll]
        · simp [hreserved, hmem, List.removeAll, List.eraseDups_cons]

/-- No answer of the book is a reserved name. -/
def Guarded (b : RuleBook) : Prop :=
  ∀ name told, b.resolve? name = some told → isReservedRule told = false

theorem guarded_ofNames (names : List String) : (ofNames names).Guarded := by
  intro name told h
  rcases resolve?_eq_some.1 h with ⟨r, -, rfl⟩ | ⟨-, rfl, hmem⟩
  · exact r.isReservedRule_longName
  · rw [custom_ofNames, List.mem_eraseDups, List.mem_filter] at hmem
    simpa using hmem.2

end RuleBook

end ProofSheet
