/-
# Larger rule books

More custom rules can only help.  Whatever a book has a payload for, a larger book has the same payload
for, and a fault that is not about a rule stays the first fault: all that comes before it is the same
with the larger book, because each of its rules was known already.

So the payload is built twice, side by side, and the two attempts agree step by step until the smaller
book does not know a rule.  In particular the built-in rules are enough for what they are enough for,
whatever custom rules a session knows.
-/
import ProofSheet.Proofs.Records
import ProofSheet.Proofs.RuleBook

namespace ProofSheet

/-! ## Two attempts side by side -/

section

variable {ε α β : Type} {waived : ε → Prop}

/-- `Persists waived x y`: the attempt `y` comes to what `x` comes to, unless `x` fails for a reason
that is waived. -/
inductive Persists (waived : ε → Prop) : Except ε α → Except ε α → Prop
  | same (x : Except ε α) : Persists waived x x
  | waive {e : ε} (he : waived e) (y : Except ε α) : Persists waived (.error e) y

namespace Persists

theorem bind {x y : Except ε α} {k k' : α → Except ε β} (hx : Persists waived x y)
    (hk : ∀ a, Persists waived (k a) (k' a)) : Persists waived (x >>= k) (y >>= k') := by
  cases hx with
  | same =>
      cases x with
      | error e => exact .same (.error e)
      | ok a => exact hk a
  | waive he => exact .waive he _

theorem ok {x y : Except ε α} (h : Persists waived x y) {a : α} (hx : x = .ok a) : y = .ok a := by
  cases h with
  | same => exact hx
  | waive => cases hx

theorem error {x y : Except ε α} (h : Persists waived x y) {e : ε} (hx : x = .error e)
    (he : ¬ waived e) : y = .error e := by
  cases h with
  | same => exact hx
  | waive hw =>
      cases hx
      exact absurd hw he

end Persists

end

/-! ## Two books -/

/-- A fault about a rule that the book does not know. -/
def Fault.Unmapped (f : Fault) : Prop := ∃ line rule, f = .unmappedRule line rule

namespace Payload

variable {b b' : RuleBook}

theorem persists_inference (hsub : ∀ n ∈ b.custom, n ∈ b'.custom) (d : Directory) (s : Statement) :
    Persists Fault.Unmapped (inference b d s) (inference b' d s) := by
  rw [inference, inference]
  refine .bind (.same _) fun line => ?_
  -- the rule is the only thing that the book is asked for
  cases hrule : b.resolve? s.rule with
  | none => exact .waive ⟨line, s.rule, rfl⟩ _
  | some told =>
      rw [RuleBook.resolve?_of_subset hsub hrule]
      exact .same _

theorem persists_items (hsub : ∀ n ∈ b.custom, n ∈ b'.custom) (d : Directory) (ss : List Step) :
    Persists Fault.Unmapped (items b d ss) (items b' d ss) := by
  induction ss using Step.forestInduction with
  | nil => exact .same _
  | line s ss ih =>
      rw [items, items, item, item]
      have hline : Persists Fault.Unmapped (inference b d s >>= fun i => pure (Item.inference i))
          (inference b' d s >>= fun i => pure (Item.inference i)) :=
        (persists_inference hsub d s).bind fun _ => .same _
      exact hline.bind fun _ => ih.bind fun _ => .same _
  | subproof id a body n ss ihb ih =>
      rw [items, items, item, item]
      -- the address and the assumption of the subproof do not depend on the book
      refine .bind (.bind (.same _) fun line => ?_) fun _ => ih.bind fun _ => .same _
      exact .bind (.same _) fun opening => ihb.bind fun _ => .same _

/-- With a larger book, the payload is the same or the first fault is, unless that is about a rule. -/
theorem persists_ofSheet (hsub : ∀ n ∈ b.custom, n ∈ b'.custom) (s : Sheet) :
    Persists Fault.Unmapped (ofSheet b s) (ofSheet b' s) := by
  rw [ofSheet, ofSheet]
  refine .bind (.same _) fun d => .bind (.same _) fun premises => ?_
  exact (persists_items hsub d s.steps).bind fun _ => .same _

/-- Custom rules are a conservative extension, on any sheet.  A larger book gives the same payload where
the smaller one gives any, and the same fault where that is not about a rule.  So what has a payload
with the built-in rules has the same payload in every session; and no book changes what is told for
a built-in rule. -/
theorem custom_rules_conservative {b b' : RuleBook} (hsub : ∀ n ∈ b.custom, n ∈ b'.custom)
    (s : Sheet) :
    (∀ p, ofSheet b s = .ok p → ofSheet b' s = .ok p) ∧
    (∀ f, ofSheet b s = .error f → (∀ line rule, f ≠ .unmappedRule line rule) →
      ofSheet b' s = .error f) ∧
    (∀ p, ofSheet {} s = .ok p →
      ∀ session : Session, session.sheet = s → session.payload = .ok p) ∧
    (∀ r : Rule, b'.resolve? r.shortName = some r.longName) := by
  have hpersists := persists_ofSheet hsub s
  refine ⟨fun p hp => hpersists.ok hp, ?_, ?_, b'.resolve?_shortName⟩
  · intro f hf hrule
    exact hpersists.error hf fun ⟨line, rule, h⟩ => hrule line rule h
  · rintro p hp session rfl
    have hnone : ∀ n ∈ ({} : RuleBook).custom, n ∈ session.rules.custom := by
      intro n hn
      cases hn
    exact (persists_ofSheet hnone session.sheet).ok hp

/-- A second custom rule has the short name of a built-in rule.  The payload is the same, and so is the
fault when the premise is gone that a line cites. -/
theorem weakening_conservative :
    (∀ n ∈ (⟨["Reiteration"]⟩ : RuleBook).custom,
      n ∈ (⟨["→Intro", "Reiteration"]⟩ : RuleBook).custom) ∧
    (∃ p, ofSheet ⟨["Reiteration"]⟩ (Command.runAll {} weakening) = .ok p ∧
      ofSheet ⟨["→Intro", "Reiteration"]⟩ (Command.runAll {} weakening) = .ok p) ∧
    ofSheet ⟨["Reiteration"]⟩ (Command.runAll {} (weakening ++ [.deletePremise 0])) =
      .error (.danglingReference ⟨[1, 2]⟩ ⟨0⟩) ∧
    ofSheet ⟨["→Intro", "Reiteration"]⟩ (Command.runAll {} (weakening ++ [.deletePremise 0])) =
      .error (.danglingReference ⟨[1, 2]⟩ ⟨0⟩) := by
  have hsub : ∀ n ∈ (⟨["Reiteration"]⟩ : RuleBook).custom,
      n ∈ (⟨["→Intro", "Reiteration"]⟩ : RuleBook).custom := by simp
  obtain ⟨p, hp⟩ := exists_of_toBool
    (x := ofSheet ⟨["Reiteration"]⟩ (Command.runAll {} weakening)) (by decide +kernel)
  have hgone : ofSheet ⟨["Reiteration"]⟩ (Command.runAll {} (weakening ++ [.deletePremise 0])) =
      .error (.danglingReference ⟨[1, 2]⟩ ⟨0⟩) := by
    decide +kernel
  refine ⟨hsub, ⟨p, hp, (custom_rules_conservative hsub _).1 p hp⟩, hgone, ?_⟩
  exact (custom_rules_conservative hsub _).2.1 _ hgone fun line rule h => by cases h

end Payload

end ProofSheet
