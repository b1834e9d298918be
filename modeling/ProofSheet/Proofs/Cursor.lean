/-
# A cursor on the tokens

The reader of formulas takes tokens off a list and is told how many levels it may open.  Here the
reading is done by a cursor instead.  It stays on one list and keeps two counts, the tokens it has
passed and the levels that are open, and it has to keep them right itself: what opens a level closes
it again, also when something inside went wrong.

The walks of the cursor are the least solution of recursive equations.  Most calls pass no token, a loop
goes on as long as it finds its separator, and no measure is given.  So nothing says that a walk ends,
and one that did not would be `none`.

One move of the cursor passes a token that is not `eof`, opens a level below the limit, or closes one
(`Move`).  What every move keeps holds all along a path (`Path.forall_mem`): the open levels stay within
the limit, and the cursor stays in front of the next `eof` and of the end of the list.
-/
import ProofSheet.Formula.Parser

namespace ProofSheet

namespace Formula

/-! ## Cursors and walks -/

/-- How many tokens have been passed, and how many levels are open. -/
structure Spot where
  pos : Nat
  depth : Nat
  deriving DecidableEq, Repr

/-- A cursor stands at a spot of a token list.  It keeps the spots it has come to, the latest last. -/
structure Cursor where
  tokens : List Token
  spot : Spot
  trail : List Spot
  deriving DecidableEq, Repr

namespace Cursor

/-- The token in front of the cursor; the end of the list counts as `eof`. -/
def current (c : Cursor) : Token := c.tokens[c.spot.pos]?.getD .eof

def rest (c : Cursor) : List Token := c.tokens.drop c.spot.pos

/-- The only way in which a cursor changes. -/
def moveTo (c : Cursor) (p : Spot) : Cursor := { c with spot := p, trail := c.trail ++ [p] }

def advance (c : Cursor) : Cursor := c.moveTo { c.spot with pos := c.spot.pos + 1 }

def enter (c : Cursor) : Cursor := c.moveTo { c.spot with depth := c.spot.depth + 1 }

def leave (c : Cursor) : Cursor := c.moveTo { c.spot with depth := c.spot.depth - 1 }

end Cursor

/-- A computation that moves a cursor; `none` is one that never ends. -/
abbrev Walk (α : Type) : Type := StateT Cursor Option α

/-- What a walk finds: a value, or what is wrong. -/
abbrev Verdict (α : Type) : Type := Except ParseError α

namespace Walk

def current : Walk Token := return (← get).current

def advance : Walk Unit := modify Cursor.advance

/-- Passes the given token if it is in front, and tells whether it was. -/
def accept (t : Token) : Walk Bool := do
  if (← current) = t then
    advance
    return true
  else return false

def closing : Walk (Verdict Unit) := do
  if ← accept .closing then return .ok ()
  else return .error (.expectedClosing (← current))

def term : Walk (Verdict Term) := do
  match ← current with
  | .identifier name =>
    advance
    return .ok (.ofName name)
  | _ => return .error .expectedTerm

end Walk

/-- A place in the loop of an argument list, with the terms found so far: a term comes next, or a comma
may. -/
inductive Listing where
  | atTerm (found : List Term)
  | atComma (found : List Term)

def Listing.walk : Listing → Walk (Verdict (List Term))
  | .atTerm found => do
    match ← Walk.term with
    | .error e => return .error e
    | .ok t => Listing.atComma (found ++ [t]) |>.walk
  | .atComma found => do
    if ← Walk.accept .comma then Listing.atTerm found |>.walk
    else return .ok found
partial_fixpoint

namespace Walk

def listed : Walk (Verdict (List Term)) := do
  match ← (Listing.atTerm []).walk with
  | .error e => return .error e
  | .ok found => return (← closing).map fun () => found

def arguments : Walk (Verdict (List Term)) := do
  if ← accept .opening then
    if ← accept .closing then return .ok [] else listed
  else return .ok []

def boundVariable : Walk (Verdict String) := do
  match ← current with
  | .identifier name =>
    if isVariableName name then
      advance
      return .ok name
    else return .error (.expectedVariable (.identifier name))
  | .eof => return .error .unexpectedEnd
  | t => return .error (.expectedVariable t)

end Walk

inductive Phrase where
  /-- Operands joined by the given connectives, the loosest first. -/
  | joined (cs : List Connective)
  /-- The loop of a connective, behind what it has joined so far. -/
  | rounds (c : Connective) (tighter : List Connective) (left : Formula)
  | operand
  /-- The variable and the body of a quantifier. -/
  | body (q : Quantifier)
  /-- A phrase one level deeper. -/
  | nested (inner : Phrase)

def Phrase.walk : Phrase → Walk (Verdict Formula)
  | .joined [] => Phrase.operand |>.walk
  | .joined (c :: tighter) => do
    match ← Phrase.joined tighter |>.walk with
    | .error e => return .error e
    | .ok left => Phrase.rounds c tighter left |>.walk
  | .rounds c tighter left => do
    if ← Walk.accept (.connective c) then
      match ← Phrase.joined tighter |>.walk with
      | .error e => return .error e
      | .ok right => Phrase.rounds c tighter (.binary c left right) |>.walk
    else return .ok left
  | .operand => do
    if ← Walk.accept .negation then
      return (← Phrase.nested .operand |>.walk).map .neg
    else if ← Walk.accept (.quantifier .universal) then
      Phrase.nested (.body .universal) |>.walk
    else if ← Walk.accept (.quantifier .existential) then
      Phrase.nested (.body .existential) |>.walk
    else
      match ← Walk.current with
      | .opening =>
        Walk.advance
        match ← Phrase.nested (.joined precedence) |>.walk with
        | .error e => return .error e
        | .ok f => return (← Walk.closing).map fun () => f
      | .identifier name =>
        Walk.advance
        return (← Walk.arguments).map (.predicate name)
      | .bottom =>
        Walk.advance
        return .ok .bottom
      | .eof => return .error .unexpectedEnd
      | t => return .error (.unexpectedToken t)
  | .body q => do
    match ← Walk.boundVariable with
    | .error e => return .error e
    | .ok x => return (← Phrase.joined precedence |>.walk).map (.quantified q x)
  | .nested inner => do
    if (← get).spot.depth < maxDepth then
      modify Cursor.enter
      -- a failure is a verdict like any other here: the level is left before it is passed on
      let verdict ← inner |>.walk
      modify Cursor.leave
      return verdict
    else return .error .tooDeep
partial_fixpoint

def Walk.formula : Walk (Verdict Formula) := (Phrase.joined precedence).walk

/-! ## Moves and paths -/

/-- What a cursor on the tokens `ts` may do next. -/
inductive Move (ts : List Token) (p : Spot) : Spot → Prop
  | advance {t : Token} : ts[p.pos]? = some t → t ≠ .eof → Move ts p { p with pos := p.pos + 1 }
  | enter : p.depth < maxDepth → Move ts p { p with depth := p.depth + 1 }
  | leave : 0 < p.depth → Move ts p { p with depth := p.depth - 1 }

/-- `Path ts p trail q`: one move after the other, through the spots of the trail, from `p` to `q`. -/
inductive Path (ts : List Token) : Spot → List Spot → Spot → Prop
  | stay {p : Spot} : Path ts p [] p
  | move {p q r : Spot} {trail : List Spot} :
      Move ts p q → Path ts q trail r → Path ts p (q :: trail) r

section

variable {ts : List Token} {p q r : Spot} {trail : List Spot}

theorem Path.append {trail' : List Spot} (h : Path ts p trail q) (h' : Path ts q trail' r) :
    Path ts p (trail ++ trail') r := by
  induction h with
  | stay => exact h'
  | move hmove _ ih => exact .move hmove (ih h')

/-- What every move keeps holds at every spot of a path. -/
theorem Path.forall_mem {I : Spot → Prop} (h : Path ts p trail q)
    (hstep : ∀ {p q}, Move ts p q → I p → I q) (hp : I p) : ∀ r ∈ p :: trail, I r := by
  induction h with
  | stay => exact List.forall_mem_singleton.2 hp
  | move hmove _ ih => exact List.forall_mem_cons.2 ⟨hp, ih (hstep hmove hp)⟩

theorem Move.depth_le (h : Move ts p q) (hp : p.depth ≤ maxDepth) : q.depth ≤ maxDepth := by
  cases h with
  | advance _ _ => exact hp
  | enter hlt => exact hlt
  | leave _ => exact Nat.le_trans (Nat.sub_le _ _) hp

theorem Move.pos_le (h : Move ts p q) : p.pos ≤ q.pos := by
  cases h with
  | advance _ _ => exact Nat.le_succ _
  | enter _ => exact Nat.le_refl _
  | leave _ => exact Nat.le_refl _

/-- No move passes an `eof`, nor the end of the list. -/
theorem Move.pos_le_of_eof {n : Nat} (hn : ts[n]?.getD .eof = .eof) (h : Move ts p q)
    (hp : p.pos ≤ n) : q.pos ≤ n := by
  cases h with
  | advance ht hne =>
      have hpn : p.pos ≠ n := by
        rintro rfl
        rw [ht] at hn
        exact hne hn
      exact Nat.lt_of_le_of_ne hp hpn
  | enter _ => exact hp
  | leave _ => exact hp

end

namespace Cursor

variable {c c' : Cursor} {t : Token} {ts : List Token}

theorem current_eq (c : Cursor) : c.current = Reader.current c.rest := by
  rw [current, ← List.head?_drop, rest]
  cases c.tokens.drop c.spot.pos <;> rfl

theorem current_of_nil (hc : c.rest = []) : c.current = .eof := by
  rw [c.current_eq, hc]
  rfl

theorem current_of_cons (hc : c.rest = t :: ts) : c.current = t := by
  rw [c.current_eq, hc]
  rfl

theorem rest_advance (hc : c.rest = t :: ts) : c.advance.rest = ts := by
  rw [rest] at hc
  rw [rest, advance, moveTo, ← List.tail_drop, hc, List.tail_cons]

theorem rest_of_current (hc : c.current = t) (ht : t ≠ .eof) : c.rest = t :: c.advance.rest := by
  rw [c.current_eq] at hc
  cases hrest : c.rest with
  | nil =>
      rw [hrest] at hc
      exact absurd hc.symm ht
  | cons s ts =>
      rw [hrest] at hc
      obtain rfl : s = t := hc
      rw [c.rest_advance hrest]

/-- `c.Leads c'`: the cursor `c` has come to be `c'` by moves, all of which are on the trail. -/
structure Leads (c c' : Cursor) : Prop where
  tokens : c'.tokens = c.tokens
  path : ∃ trail, c'.trail = c.trail ++ trail ∧ Path c.tokens c.spot trail c'.spot

theorem Leads.refl (c : Cursor) : c.Leads c := ⟨rfl, [], (List.append_nil _).symm, .stay⟩

theorem Leads.trans {c'' : Cursor} (h : c.Leads c') (h' : c'.Leads c'') : c.Leads c'' := by
  obtain ⟨trail, htrail, hpath⟩ := h.path
  obtain ⟨trail', htrail', hpath'⟩ := h'.path
  rw [h.tokens] at hpath'
  exact ⟨h'.tokens.trans h.tokens, trail ++ trail', by rw [htrail', htrail, List.append_assoc],
    hpath.append hpath'⟩

theorem leads_moveTo {p : Spot} (h : Move c.tokens c.spot p) : c.Leads (c.moveTo p) :=
  ⟨rfl, [p], rfl, .move h .stay⟩

theorem leads_advance (hc : c.rest = t :: ts) (ht : t ≠ .eof) : c.Leads c.advance := by
  refine leads_moveTo (.advance ?_ ht)
  rw [← List.head?_drop, ← rest, hc]
  rfl

end Cursor

end Formula

end ProofSheet
