/-
# Rules of inference

The built-in rules.  A rule has a short name, which a line of the sheet shows, and a long name,
which a verifier is told.
-/

namespace ProofSheet

inductive Rule where
  | andElim
  | orElim
  | notElim
  | bottomElim
  | impliesElim
  | iffElim
  | andIntro
  | orIntro
  | notIntro
  | bottomIntro
  | impliesIntro
  | iffIntro
  | forallElim
  | forallIntro
  | existsElim
  | existsIntro
  | reiteration
  | peanoInduction
  | strongInduction
  deriving DecidableEq, Repr, Inhabited

namespace Rule

def all : List Rule :=
  [.andElim, .orElim, .notElim, .bottomElim, .impliesElim, .iffElim,
   .andIntro, .orIntro, .notIntro, .bottomIntro, .impliesIntro, .iffIntro,
   .forallElim, .forallIntro, .existsElim, .existsIntro,
   .reiteration, .peanoInduction, .strongInduction]

/-- The name a line of the sheet shows. -/
def shortName : Rule → String
  | .andElim => "∧Elim"
  | .orElim => "∨Elim"
  | .notElim => "¬Elim"
  | .bottomElim => "⊥Elim"
  | .impliesElim => "→Elim"
  | .iffElim => "↔Elim"
  | .andIntro => "∧Intro"
  | .orIntro => "∨Intro"
  | .notIntro => "¬Intro"
  | .bottomIntro => "⊥Intro"
  | .impliesIntro => "→Intro"
  | .iffIntro => "↔Intro"
  | .forallElim => "∀Elim"
  | .forallIntro => "∀Intro"
  | .existsElim => "∃Elim"
  | .existsIntro => "∃Intro"
  | .reiteration => "Reit"
  | .peanoInduction => "P-Ind"
  | .strongInduction => "S-Ind"

/-- The name a verifier is told. -/
def longName : Rule → String
  | .andElim => "And Elimination"
  | .orElim => "Or Elimination"
  | .notElim => "Not Elimination"
  | .bottomElim => "Bottom Elimination"
  | .impliesElim => "Implies Elimination"
  | .iffElim => "Iff Elimination"
  | .andIntro => "And Introduction"
  | .orIntro => "Or Introduction"
  | .notIntro => "Not Introduction"
  | .bottomIntro => "Bottom Introduction"
  | .impliesIntro => "Implies Introduction"
  | .iffIntro => "Iff Introduction"
  | .forallElim => "Forall Elimination"
  | .forallIntro => "Forall Introduction"
  | .existsElim => "Exists Elimination"
  | .existsIntro => "Exists Introduction"
  | .reiteration => "Reiteration"
  | .peanoInduction => "Peano Induction"
  | .strongInduction => "Strong Induction"

instance : ToString Rule := ⟨shortName⟩

def ofShortName? (name : String) : Option Rule :=
  all.find? (·.shortName == name)

/-- Short names tell the rules apart. -/
theorem ofShortName?_shortName (r : Rule) : ofShortName? r.shortName = some r := by
  cases r <;> decide

/-- A rule is found only under its own short name. -/
theorem shortName_of_ofShortName? {name : String} {r : Rule} (h : ofShortName? name = some r) :
    r.shortName = name := by
  simpa using List.find?_some h

end Rule

/-! ## Names with a fixed meaning -/

/-- The rule name of a line that no rule justifies yet. -/
def noRule : String := "none"

/-- What a verifier is told of a premise or an assumption. -/
def assumptionRule : String := "Assumption"

/-- What a verifier is told of a goal, which restates the line it cites. -/
def goalRule : String := Rule.reiteration.longName

end ProofSheet
