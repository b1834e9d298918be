/-
# The order of addresses

There are two reasons for an address to come before another: it is around the other, or the two paths part
and the first goes to the smaller position (`pathBefore_iff`).  The second reason is inherited by whatever
is inside the two, because paths that part have parted for good.  So the addresses inside one address are
an unbroken block of the order.

That the order is strict and total is taken over from the comparison of lists, which it agrees with.
-/
import Mathlib.Data.List.Infix
import ProofSheet.Address

namespace ProofSheet

namespace Address

variable {a b c a' b' : Address}

/-! ## The order of the sheet -/

theorem pathBefore_append (p xs ys : List Nat) :
    pathBefore (p ++ xs) (p ++ ys) = pathBefore xs ys := by
  induction p with
  | nil => rfl
  | cons n p ih => rw [List.cons_append, List.cons_append, pathBefore, if_pos rfl, ih]

theorem pathBefore_cons {m n : Nat} (h : m < n) (xs ys : List Nat) :
    pathBefore (m :: xs) (n :: ys) = true := by
  rw [pathBefore, if_neg (Nat.ne_of_lt h), decide_eq_true h]

/-- What goes by the first positions, and by the rest of the paths where these are the same, is the order of
the sheet. -/
theorem pathBefore_iff_of_cons {R : List Nat → List Nat → Prop} (hnil : ∀ xs, ¬ R xs [])
    (hshort : ∀ y ys, R [] (y :: ys))
    (hcons : ∀ x xs y ys, R (x :: xs) (y :: ys) ↔ x < y ∨ x = y ∧ R xs ys) {xs : List Nat} :
    ∀ {ys : List Nat}, pathBefore xs ys = true ↔ R xs ys := by
  induction xs with
  | nil =>
      intro ys
      cases ys with
      | nil => exact iff_of_false Bool.false_ne_true (hnil [])
      | cons y ys => exact iff_of_true rfl (hshort y ys)
  | cons x xs ih =>
      intro ys
      cases ys with
      | nil => exact iff_of_false Bool.false_ne_true (hnil _)
      | cons y ys =>
          rw [pathBefore, hcons]
          split
          · rename_i hxy
            simp [hxy, ih]
          · rename_i hxy
            simp [hxy]

theorem pathBefore_iff_compare {xs ys : List Nat} : pathBefore xs ys = true ↔ compare xs ys = .lt := by
  refine pathBefore_iff_of_cons (R := fun xs ys => compare xs ys = .lt) ?_ ?_ ?_
  · intro xs
    cases xs <;> simp
  · intro y ys
    simp
  · intro x xs y ys
    rw [List.compare_cons_cons, Ordering.then_eq_lt, Nat.compare_eq_lt, Nat.compare_eq_eq]

theorem before_irrefl (a : Address) : a.before a = false := by
  have heq : compare a.path a.path = .eq := Std.ReflCmp.compare_self
  rw [before, Bool.eq_false_iff, ne_eq, pathBefore_iff_compare, heq]
  exact Ordering.noConfusion

theorem before_asymm {a b : Address} (h : a.before b = true) : b.before a = false := by
  have hgt : compare b.path a.path = .gt := Std.OrientedCmp.gt_of_lt (pathBefore_iff_compare.1 h)
  rw [before, Bool.eq_false_iff, ne_eq, pathBefore_iff_compare, hgt]
  exact Ordering.noConfusion

theorem sort_eq_self {as : List Address} (h : as.Pairwise fun a b => a.before b = true) :
    sort as = as := by
  refine List.mergeSort_of_pairwise (h.imp ?_)
  intro a b hab
  have hlt : compare a b = .lt := pathBefore_iff_compare.1 hab
  rw [hlt]
  rfl

/-! ## The two ways to come first -/

/-- The paths have a beginning in common, and after it the first goes to the smaller position. -/
def PartsBelow (xs ys : List Nat) : Prop :=
  ∃ common m n us vs, xs = common ++ m :: us ∧ ys = common ++ n :: vs ∧ m < n

theorem PartsBelow.cons {xs ys : List Nat} (n : Nat) (h : PartsBelow xs ys) :
    PartsBelow (n :: xs) (n :: ys) := by
  obtain ⟨common, m, k, us, vs, rfl, rfl, hlt⟩ := h
  exact ⟨n :: common, m, k, us, vs, rfl, rfl, hlt⟩

theorem PartsBelow.extend {xs ys xs' ys' : List Nat} (h : PartsBelow xs ys) (hx : xs <+: xs')
    (hy : ys <+: ys') : PartsBelow xs' ys' := by
  obtain ⟨common, m, n, us, vs, rfl, rfl, hlt⟩ := h
  obtain ⟨us', rfl⟩ := hx
  obtain ⟨vs', rfl⟩ := hy
  exact ⟨common, m, n, us ++ us', vs ++ vs', by simp, by simp, hlt⟩

theorem PartsBelow.pathBefore {xs ys : List Nat} (h : PartsBelow xs ys) : pathBefore xs ys = true := by
  obtain ⟨common, m, n, us, vs, rfl, rfl, hlt⟩ := h
  rw [pathBefore_append, pathBefore_cons hlt]

theorem pathBefore_of_prefix {xs ys : List Nat} (h : xs <+: ys) (hne : xs ≠ ys) :
    pathBefore xs ys = true := by
  obtain ⟨tail, rfl⟩ := h
  cases tail with
  | nil => exact absurd (List.append_nil xs).symm hne
  | cons n tail =>
      have hshort := pathBefore_append xs [] (n :: tail)
      rwa [List.append_nil] at hshort

theorem prefix_or_partsBelow {xs : List Nat} : ∀ {ys : List Nat}, pathBefore xs ys = true →
    (xs <+: ys ∧ xs ≠ ys) ∨ PartsBelow xs ys := by
  induction xs with
  | nil =>
      intro ys h
      cases ys with
      | nil => cases h
      | cons y ys => exact .inl ⟨List.nil_prefix, (List.cons_ne_nil y ys).symm⟩
  | cons x xs ih =>
      intro ys h
      cases ys with
      | nil => cases h
      | cons y ys =>
          rw [pathBefore] at h
          split at h
          · rename_i hxy
            subst hxy
            rcases ih h with ⟨hin, hne⟩ | hparts
            · exact .inl ⟨List.cons_prefix_cons.2 ⟨rfl, hin⟩, mt List.tail_eq_of_cons_eq hne⟩
            · exact .inr (hparts.cons x)
          · exact .inr ⟨[], x, y, xs, ys, rfl, rfl, of_decide_eq_true h⟩

/-- A path comes before its proper extensions and before the paths it parts from on the smaller side. -/
theorem pathBefore_iff {xs ys : List Nat} :
    pathBefore xs ys = true ↔ (xs <+: ys ∧ xs ≠ ys) ∨ PartsBelow xs ys := by
  constructor
  · exact prefix_or_partsBelow
  · rintro (⟨hin, hne⟩ | hparts)
    · exact pathBefore_of_prefix hin hne
    · exact hparts.pathBefore

/-- Two paths compared at their first difference or, if there is none, by their lengths. -/
def smallerAtDifference (xs ys : List Nat) : Bool :=
  match (xs.zip ys).find? fun p => p.1 != p.2 with
  | some (x, y) => x < y
  | none => xs.length < ys.length

theorem pathBefore_eq_smallerAtDifference (xs ys : List Nat) :
    pathBefore xs ys = smallerAtDifference xs ys := by
  induction xs generalizing ys with
  | nil => cases ys <;> rfl
  | cons x xs ih =>
      cases ys with
      | nil => rfl
      | cons y ys =>
          rw [pathBefore, smallerAtDifference, List.zip_cons_cons, List.length_cons, List.length_cons]
          by_cases hxy : x = y
          · rw [if_pos hxy, ih, List.find?_cons_of_neg (by simp [hxy]), smallerAtDifference]
            simp only [Nat.add_lt_add_iff_right]
          · rw [if_neg hxy, List.find?_cons_of_pos (by simp [hxy])]

/-! ## A strict total order -/

theorem before_iff_compare : a.before b = true ↔ compare a b = .lt :=
  pathBefore_iff_compare

theorem pathBefore_iff_lt {xs ys : List Nat} : pathBefore xs ys = true ↔ xs < ys :=
  pathBefore_iff_of_cons List.not_lt_nil List.nil_lt_cons fun _ _ _ _ => List.cons_lt_cons_iff

theorem before_trans (hab : a.before b = true) (hbc : b.before c = true) : a.before c = true :=
  pathBefore_iff_compare.2 <|
    Std.TransCmp.lt_trans (pathBefore_iff_compare.1 hab) (pathBefore_iff_compare.1 hbc)

theorem eq_of_not_before (hab : ¬ a.before b = true) (hba : ¬ b.before a = true) : a = b := by
  rw [before, pathBefore_iff_compare] at hab hba
  cases h : compare a.path b.path with
  | lt => exact absurd h hab
  | gt => exact absurd (Std.OrientedCmp.gt_iff_lt.1 h) hba
  | eq => exact congrArg Address.mk (Std.LawfulEqCmp.compare_eq_iff_eq.1 h)

theorem isStrictTotalOrder_before : IsStrictTotalOrder Address fun a b => a.before b = true where
  irrefl a := by simp [before_irrefl]
  trans _ _ _ := before_trans
  trichotomous _ _ := eq_of_not_before

/-! ## Addresses inside addresses -/

theorem contains_iff : a.contains b = true ↔ a.path <+: b.path :=
  List.isPrefixOf_iff_prefix

theorem contains_refl (a : Address) : a.contains a = true :=
  contains_iff.2 List.prefix_rfl

theorem isPartialOrder_contains : IsPartialOrder Address fun a b => a.contains b = true where
  refl := contains_refl
  trans _ _ _ hab hbc := contains_iff.2 ((contains_iff.1 hab).trans (contains_iff.1 hbc))
  antisymm _ _ hab hba :=
    congrArg Address.mk (antisymm (r := (· <+: ·)) (contains_iff.1 hab) (contains_iff.1 hba))

theorem before_of_contains (h : a.contains b = true) (hne : a ≠ b) : a.before b = true :=
  pathBefore_of_prefix (contains_iff.1 h) fun hpath => hne (congrArg Address.mk hpath)

/-- An address that comes before another and is not around it has parted from it, so all that is inside the
one comes before all that is inside the other. -/
theorem before_inside (hbefore : a.before b = true) (hclosed : a.contains b = false)
    (ha : a.contains a' = true) (hb : b.contains b' = true) : a'.before b' = true := by
  rcases pathBefore_iff.1 hbefore with ⟨hin, -⟩ | hparts
  · rw [contains_iff.2 hin] at hclosed
    cases hclosed
  · exact (hparts.extend (contains_iff.1 ha) (contains_iff.1 hb)).pathBefore

/-- Between an address and what is inside it there is nothing that is outside. -/
theorem contains_of_between (hac : a.contains c = true) (hab : a.before b = true)
    (hbc : b.before c = true) : a.contains b = true := by
  cases hclosed : a.contains b with
  | true => rfl
  | false =>
      have hcb : c.before b = true := before_inside hab hclosed hac (contains_refl b)
      rw [before_asymm hcb] at hbc
      cases hbc

/-- One address is before another exactly if its path is smaller in the lexicographic order, and this is a
strict total order.  One address around another is a partial order, and then the outer one comes first.
The addresses inside one address are a block: if one address is before another and not around it, then
all that is inside the first is before all that is inside the second, and what comes between an address
and something inside it is inside it too. -/
theorem before_lexicographic_in_blocks :
    (∀ a b : Address, (a.before b = true ↔ compare a b = .lt) ∧ (a.before b = true ↔ a.path < b.path) ∧
      a.before b = smallerAtDifference a.path b.path) ∧
    IsStrictTotalOrder Address (fun a b => a.before b = true) ∧
    IsPartialOrder Address (fun a b => a.contains b = true) ∧
    (∀ a b : Address, a.contains b = true → a ≠ b → a.before b = true) ∧
    (∀ a b : Address, a.before b = true → a.contains b = false →
      ∀ a' b' : Address, a.contains a' = true → b.contains b' = true → a'.before b' = true) ∧
    (∀ a b c : Address, a.contains c = true → a.before b = true → b.before c = true →
      a.contains b = true) := by
  refine ⟨?_, isStrictTotalOrder_before, isPartialOrder_contains, ?_, ?_, ?_⟩
  · intro a b
    exact ⟨before_iff_compare, pathBefore_iff_lt, pathBefore_eq_smallerAtDifference a.path b.path⟩
  · intro a b
    exact before_of_contains
  · intro a b hbefore hclosed a' b'
    exact before_inside hbefore hclosed
  · intro a b c
    exact contains_of_between

/-- The theorem for addresses that decimal text would put in another order: 2.3 and 2.10, with something deep
inside each, and 2.9 between 2 and 2.10.1. -/
theorem blocks_of_three_and_ten :
    before ⟨[2, 3]⟩ ⟨[2, 10]⟩ = true ∧ contains ⟨[2, 3]⟩ ⟨[2, 10]⟩ = false ∧
    before ⟨[2, 3, 40, 1]⟩ ⟨[2, 10, 1]⟩ = true ∧ before ⟨[2]⟩ ⟨[2, 10, 1]⟩ = true ∧
    contains ⟨[2]⟩ ⟨[2, 9]⟩ = true := by
  obtain ⟨hlex, -, -, hnested, hblock, hbetween⟩ := before_lexicographic_in_blocks
  have hbefore : before ⟨[2, 3]⟩ ⟨[2, 10]⟩ = true := (hlex _ _).2.1.2 (by decide)
  have hapart : contains ⟨[2, 3]⟩ ⟨[2, 10]⟩ = false := by decide
  exact ⟨hbefore, hapart, hblock _ _ hbefore hapart _ _ (by decide) (by decide),
    hnested _ _ (by decide) (by decide), hbetween _ _ ⟨[2, 10, 1]⟩ (by decide) (by decide) (by decide)⟩

end Address

end ProofSheet
