/-
# The grammar of formulas

The reader of formulas is a loop for each connective around a recursion on the levels that may still
be opened.  Here is the grammar it implements, as a relation between token lists and formulas, and
the proof that the reader accepts exactly what the grammar derives, with the same tree.

The grammar says three things that the loops only do.

* A level joins operands of the next tighter level, and the left one may be of the same level: every
  connective associates to the left.
* The body of a quantifier runs as far as it can.  A derivation is *open* when it ends in such a
  body, and an open formula is never the left operand of a connective, since the connective and what
  follows would have been part of the body.
* Negations, quantifiers and parentheses go one level deeper, and none of them is derived at the
  greatest depth.

**Sound**: what the reader takes from the front of a list is derived, and if it is open, then no
connective follows (`read_sound`).  **Complete**: in front of a rest that cannot go on with it, a
derived list is read as its formula, whatever the rest is (`Derives.read`).
-/
import ProofSheet.Formula.Parser
import ProofSheet.Proofs.Rounds
import ProofSheet.Proofs.Scan

namespace ProofSheet

namespace Formula

open Reader

/-- The level of what the connectives join: past all of them. -/
abbrev operandLevel : Nat := precedence.length

/-- `Derives level depth ts f isOpen`: at a level of binding and a depth of nesting, the tokens `ts`
are a form of `f`; `isOpen` tells whether they end in the body of a quantifier. -/
inductive Derives : (level depth : Nat) → List Token → Formula → (isOpen : Bool) → Prop
  | tighter {l d : Nat} {ts : List Token} {f : Formula} {o : Bool} :
      l < operandLevel → Derives (l + 1) d ts f o → Derives l d ts f o
  | joined {l d : Nat} {c : Connective} {ts us : List Token} {f g : Formula} {o : Bool} :
      precedence[l]? = some c → Derives l d ts f false → Derives (l + 1) d us g o →
      Derives l d (ts ++ .connective c :: us) (.binary c f g) o
  | negated {d : Nat} {ts : List Token} {f : Formula} {o : Bool} :
      d < maxDepth → Derives operandLevel (d + 1) ts f o →
      Derives operandLevel d (.negation :: ts) (.neg f) o
  | quantified {d : Nat} {q : Quantifier} {x : String} {ts : List Token} {f : Formula} {o : Bool} :
      d < maxDepth → isVariableName x = true → Derives 0 (d + 1) ts f o →
      Derives operandLevel d (.quantifier q :: .identifier x :: ts) (.quantified q x f) true
  | enclosed {d : Nat} {ts : List Token} {f : Formula} {o : Bool} :
      d < maxDepth → Derives 0 (d + 1) ts f o →
      Derives operandLevel d (.opening :: (ts ++ [.closing])) f false
  | name {d : Nat} {n : String} : Derives operandLevel d [.identifier n] (.predicate n []) false
  | emptyList {d : Nat} {n : String} :
      Derives operandLevel d [.identifier n, .opening, .closing] (.predicate n []) false
  | applied {d : Nat} {n x : String} {xs : List String} :
      Derives operandLevel d
        (.identifier n :: .opening ::
          (((x :: xs).map Token.identifier).intersperse .comma ++ [.closing]))
        (.predicate n ((x :: xs).map Term.ofName)) false
  | bottom {d : Nat} : Derives operandLevel d [.bottom] .bottom false

/-! ## What a reader takes

One lemma for each reader says all the ways in which it succeeds; the proofs below cite these and do
not open a reader. -/

theorem term_eq_ok {ts rest : List Token} {t : Term} (h : term ts = .ok (t, rest)) :
    ∃ x, t = .ofName x ∧ ts = .identifier x :: rest := by
  unfold term at h
  split at h
  · cases h; exact ⟨_, rfl, rfl⟩
  · cases h

theorem closing_eq_ok {ts rest : List Token} (h : closing ts = .ok ((), rest)) :
    ts = .closing :: rest := by
  unfold closing at h
  split at h
  · cases h; rfl
  · cases h

theorem boundVariable_eq_ok {ts rest : List Token} {x : String}
    (h : boundVariable ts = .ok (x, rest)) :
    isVariableName x = true ∧ ts = .identifier x :: rest := by
  unfold boundVariable at h
  split at h
  · split at h
    · rename_i hx
      cases h
      exact ⟨hx, rfl⟩
    · cases h
  · cases h
  · cases h
  · cases h

theorem unary_eq_ok {room : Nat} {ts rest : List Token} {f : Formula} :
    unary room ts = .ok (f, rest) ↔
      (∃ r us g, room = r + 1 ∧ ts = .negation :: us ∧ unary r us = .ok (g, rest) ∧ f = .neg g) ∨
      (∃ r q x us g, room = r + 1 ∧ ts = .quantifier q :: .identifier x :: us ∧
        isVariableName x = true ∧ read r us = .ok (g, rest) ∧ f = .quantified q x g) ∨
      (∃ r us, room = r + 1 ∧ ts = .opening :: us ∧ read r us = .ok (f, .closing :: rest)) ∨
      (∃ n us args, ts = .identifier n :: us ∧ arguments us = .ok (args, rest) ∧
        f = .predicate n args) ∨
      (ts = .bottom :: rest ∧ f = .bottom) := by
  constructor
  · intro h
    unfold unary at h
    split at h
    case h_4 r us =>
      obtain ⟨⟨g, rest'⟩, hg, h⟩ := bind_eq_ok.1 h
      cases h
      exact .inl ⟨r, us, g, rfl, rfl, hg, rfl⟩
    case h_5 r q us =>
      obtain ⟨⟨x, mid⟩, hx, h⟩ := bind_eq_ok.1 h
      obtain ⟨⟨g, rest'⟩, hg, h⟩ := bind_eq_ok.1 h
      cases h
      obtain ⟨hv, rfl⟩ := boundVariable_eq_ok hx
      exact .inr (.inl ⟨r, q, x, mid, g, rfl, rfl, hv, hg, rfl⟩)
    case h_6 r us =>
      obtain ⟨⟨g, mid⟩, hg, h⟩ := bind_eq_ok.1 h
      obtain ⟨⟨u, rest'⟩, hc, h⟩ := bind_eq_ok.1 h
      cases h
      obtain rfl := closing_eq_ok hc
      exact .inr (.inr (.inl ⟨r, us, rfl, rfl, hg⟩))
    case h_7 n us =>
      obtain ⟨⟨args, rest'⟩, ha, h⟩ := bind_eq_ok.1 h
      cases h
      exact .inr (.inr (.inr (.inl ⟨n, us, args, rfl, ha, rfl⟩)))
    case h_8 us =>
      cases h
      exact .inr (.inr (.inr (.inr ⟨rfl, rfl⟩)))
    all_goals cases h
  · rintro (⟨r, us, g, rfl, rfl, hg, rfl⟩ | ⟨r, q, x, us, g, rfl, rfl, hx, hg, rfl⟩ |
      ⟨r, us, rfl, rfl, hg⟩ | ⟨n, us, args, rfl, ha, rfl⟩ | ⟨rfl, rfl⟩)
    · rw [unary, hg]
      rfl
    · rw [read] at hg
      rw [unary, boundVariable, if_pos hx, bind_ok]
      simp only [hg]
      rfl
    · rw [read] at hg
      rw [unary, hg]
      rfl
    · rw [unary, ha]
      rfl
    · rw [unary]

/-! ## Reading never lengthens the input -/

theorem shrinks_term : Parser.Shrinks term := by
  intro ts t rest h
  obtain ⟨x, -, rfl⟩ := term_eq_ok h
  simp

theorem shrinks_arguments : Parser.Shrinks arguments := by
  intro ts args rest h
  unfold arguments at h
  split at h
  · cases h
    simp only [List.length_cons]
    omega
  · obtain ⟨⟨⟨t, others⟩, mid⟩, hs, h⟩ := bind_eq_ok.1 h
    obtain ⟨⟨u, left⟩, hc, h⟩ := bind_eq_ok.1 h
    cases h
    have hm := Parser.shrinks_sepBy shrinks_term _ _ _ hs
    obtain rfl := closing_eq_ok hc
    simp only [List.length_cons] at hm ⊢
    omega
  · cases h
    exact Nat.le_refl _

theorem shrinks_joined {operand : Reader Formula} (h : Parser.Shrinks operand) :
    ∀ cs : List Connective, Parser.Shrinks (joined operand cs)
  | [] => h
  | c :: cs => by
      intro ts f rest hp
      obtain ⟨⟨⟨g, gs⟩, left⟩, hs, hp⟩ := bind_eq_ok.1 hp
      cases hp
      exact Parser.shrinks_sepBy (shrinks_joined h cs) _ _ _ hs

theorem shrinks_unary (room : Nat) : Parser.Shrinks (unary room) := by
  induction room using Nat.strongRecOn with
  | ind room ih =>
      intro ts f rest h
      obtain ⟨r, us, g, rfl, rfl, hg, -⟩ | ⟨r, q, x, us, g, rfl, rfl, -, hg, -⟩ |
        ⟨r, us, rfl, rfl, hg⟩ | ⟨n, us, args, rfl, ha, -⟩ | ⟨rfl, -⟩ := unary_eq_ok.1 h
      · have := ih r (Nat.lt_succ_self r) _ _ _ hg
        simp only [List.length_cons]
        omega
      · have := shrinks_joined (ih r (Nat.lt_succ_self r)) precedence _ _ _ hg
        simp only [List.length_cons]
        omega
      · have := shrinks_joined (ih r (Nat.lt_succ_self r)) precedence _ _ _ hg
        simp only [List.length_cons] at this ⊢
        omega
      · have := shrinks_arguments _ _ _ ha
        simp only [List.length_cons]
        omega
      · simp

/-! ## Where a level stops -/

def NoConnective (rest : List Token) : Prop := ∀ c, current rest ≠ .connective c

/-- A level leaves no connective of its own or of a tighter level. -/
theorem joined_stops {operand : Reader Formula} (h : Parser.Shrinks operand) :
    ∀ (cs : List Connective) {ts rest : List Token} {f : Formula},
      joined operand cs ts = .ok (f, rest) → ∀ c ∈ cs, current rest ≠ .connective c
  | [], _, _, _, _ => by simp
  | c :: cs, ts, rest, f, hp => by
      obtain ⟨⟨⟨g, gs⟩, left⟩, hs, hp⟩ := bind_eq_ok.1 hp
      cases hp
      obtain ⟨⟨g', mid, hg'⟩, hstop⟩ := Parser.sepBy_stops (shrinks_joined h cs) hs
      intro c' hc'
      rcases List.mem_cons.1 hc' with rfl | hc'
      · intro hr
        cases rest with
        | nil => cases hr
        | cons t rest =>
            have := hstop t rfl
            simp only [current] at hr
            simp [hr] at this
      · exact joined_stops h cs hg' c' hc'

theorem read_stops {room : Nat} {ts rest : List Token} {f : Formula}
    (h : read room ts = .ok (f, rest)) : NoConnective rest := by
  intro c
  refine joined_stops (shrinks_unary room) precedence h c ?_
  cases c <;> decide

/-! ## Sound

A reader is sound at a level and a depth when what it takes is derived there, and an open formula is
not followed by a connective. -/

/-- What the reader takes from the front of a list is derived. -/
def SoundAt (level depth : Nat) (p : Reader Formula) : Prop :=
  ∀ ts f rest, p ts = .ok (f, rest) →
    ∃ used o, ts = used ++ rest ∧ Derives level depth used f o ∧ (o = true → NoConnective rest)

/-- The rounds of a connective, started behind a derived formula, extend the derivation.  A round
begins at a connective, and there the formula so far is not open. -/
theorem rounds_sound {l d : Nat} {c : Connective} {item : Reader Formula}
    (hc : precedence[l]? = some c) (hi : SoundAt (l + 1) d item)
    {input rest : List Token} {gs : List Formula}
    (h : Parser.Rounds (· == .connective c) item input gs rest) :
    ∀ {used : List Token} {f : Formula} {o : Bool},
      Derives l d used f o → (o = true → NoConnective input) →
      ∃ more o', input = more ++ rest ∧ Derives l d (used ++ more) (gs.foldl (.binary c) f) o' ∧
        (o' = true → NoConnective rest) := by
  induction h with
  | stop =>
      intro used f o hf ho
      exact ⟨[], o, rfl, by simpa using hf, ho⟩
  | @round s input mid rest g gs hs hg _ ih =>
      intro used f o hf ho
      obtain rfl : s = .connective c := eq_of_beq hs
      obtain rfl : o = false := by
        cases o with
        | false => rfl
        | true => exact absurd rfl (ho rfl c)
      obtain ⟨us, o₁, rfl, hus, ho₁⟩ := hi _ _ _ hg
      obtain ⟨more, o₂, rfl, hmore, ho₂⟩ := ih (.joined hc hf hus) ho₁
      exact ⟨.connective c :: us ++ more, o₂, by simp, by simpa using hmore, ho₂⟩

/-- A level and what is tighter: the connective of the level comes first. -/
theorem precedence_of_drop {l : Nat} {c : Connective} {cs : List Connective}
    (h : precedence.drop l = c :: cs) :
    l < operandLevel ∧ precedence[l]? = some c ∧ precedence.drop (l + 1) = cs := by
  have hl : precedence[l]? = some c := by
    rw [← List.head?_drop, h]; rfl
  refine ⟨?_, hl, ?_⟩
  · exact (List.getElem?_eq_some_iff.1 hl).1
  · rw [← List.tail_drop, h]; rfl

theorem joined_sound {d : Nat} {operand : Reader Formula} (h : SoundAt operandLevel d operand) :
    ∀ (cs : List Connective) (l : Nat), l ≤ operandLevel → precedence.drop l = cs →
      SoundAt l d (joined operand cs)
  | [], l, hl, hcs => by
      have : l = operandLevel := Nat.le_antisymm hl (List.drop_eq_nil_iff.1 hcs)
      rw [this]
      exact h
  | c :: cs, l, _, hcs => by
      obtain ⟨hl, hc, hcs'⟩ := precedence_of_drop hcs
      have item := joined_sound h cs (l + 1) hl hcs'
      intro ts f rest hp
      simp only [joined] at hp
      obtain ⟨⟨⟨g, gs⟩, left⟩, hs, hp⟩ := bind_eq_ok.1 hp
      cases hp
      obtain ⟨mid, hg, hgs⟩ := Parser.sepBy_eq_ok hs
      obtain ⟨used, o, rfl, hused, ho⟩ := item _ _ _ hg
      obtain ⟨more, o', rfl, hmore, ho'⟩ := rounds_sound hc item hgs (.tighter hl hused) ho
      exact ⟨used ++ more, o', by simp, hmore, ho'⟩

/-- What the rounds of an argument list take: a comma and a name each. -/
theorem rounds_term {input rest : List Token} {args : List Term}
    (h : Parser.Rounds (· == .comma) term input args rest) :
    ∃ xs : List String, args = xs.map Term.ofName ∧
      input = (xs.map Token.identifier).flatMap (fun t => [.comma, t]) ++ rest := by
  induction h with
  | stop => exact ⟨[], rfl, rfl⟩
  | @round s input mid rest t ts hs ht _ ih =>
      obtain ⟨xs, rfl, rfl⟩ := ih
      obtain rfl : s = .comma := eq_of_beq hs
      obtain ⟨x, rfl, rfl⟩ := term_eq_ok ht
      exact ⟨x :: xs, rfl, rfl⟩

theorem intersperse_cons {α : Type} (sep a : α) (as : List α) :
    (a :: as).intersperse sep = a :: as.flatMap fun b => [sep, b] := by
  induction as generalizing a with
  | nil => rfl
  | cons b as ih => simp [List.intersperse, ih]

theorem arguments_sound {ts rest : List Token} {args : List Term}
    (h : arguments ts = .ok (args, rest)) (d : Nat) (n : String) :
    ∃ used, ts = used ++ rest ∧
      Derives operandLevel d (.identifier n :: used) (.predicate n args) false := by
  unfold arguments at h
  split at h
  · cases h
    exact ⟨[.opening, .closing], rfl, .emptyList⟩
  · obtain ⟨⟨⟨t, others⟩, mid⟩, hs, h⟩ := bind_eq_ok.1 h
    obtain ⟨⟨u, left⟩, hc, h⟩ := bind_eq_ok.1 h
    cases h
    obtain ⟨mid', ht, hothers⟩ := Parser.sepBy_eq_ok hs
    obtain ⟨x, rfl, rfl⟩ := term_eq_ok ht
    obtain ⟨xs, rfl, rfl⟩ := rounds_term hothers
    obtain rfl := closing_eq_ok hc
    refine ⟨.opening :: (((x :: xs).map Token.identifier).intersperse .comma ++ [.closing]),
      ?_, .applied⟩
    simp only [List.map_cons, intersperse_cons, List.cons_append, List.append_assoc, List.nil_append]
  · cases h
    exact ⟨[], rfl, .name⟩

/-! ### Operands and formulas -/

/-- The reader of operands is sound.  The room and the depth of a reader add up to the limit. -/
theorem unary_sound (room : Nat) :
    ∀ d, d + room = maxDepth → SoundAt operandLevel d (unary room) := by
  induction room using Nat.strongRecOn with
  | ind room ih =>
      intro d hd ts f rest h
      obtain ⟨r, us, g, rfl, rfl, hg, rfl⟩ | ⟨r, q, x, us, g, rfl, rfl, hx, hg, rfl⟩ |
        ⟨r, us, rfl, rfl, hg⟩ | ⟨n, us, args, rfl, ha, rfl⟩ | ⟨rfl, rfl⟩ := unary_eq_ok.1 h
      · have operand := ih r (Nat.lt_succ_self r) (d + 1) (by omega)
        obtain ⟨used, o, rfl, hused, ho⟩ := operand _ _ _ hg
        exact ⟨.negation :: used, o, rfl, .negated (by omega) hused, ho⟩
      · have operand := ih r (Nat.lt_succ_self r) (d + 1) (by omega)
        obtain ⟨used, o, rfl, hused, -⟩ :=
          joined_sound operand precedence 0 (Nat.zero_le _) rfl _ _ _ hg
        -- the body may well be closed; the whole is open all the same
        exact ⟨.quantifier q :: .identifier x :: used, true, rfl,
          .quantified (by omega) hx hused, fun _ => read_stops hg⟩
      · have operand := ih r (Nat.lt_succ_self r) (d + 1) (by omega)
        obtain ⟨used, o, rfl, hused, -⟩ :=
          joined_sound operand precedence 0 (Nat.zero_le _) rfl _ _ _ hg
        exact ⟨.opening :: (used ++ [.closing]), false, by simp, .enclosed (by omega) hused, by simp⟩
      · obtain ⟨used, rfl, hused⟩ := arguments_sound ha d n
        exact ⟨.identifier n :: used, false, rfl, hused, by simp⟩
      · exact ⟨[.bottom], false, rfl, .bottom, by simp⟩

theorem read_sound {room d : Nat} (hd : d + room = maxDepth) : SoundAt 0 d (read room) :=
  joined_sound (unary_sound room d hd) precedence 0 (Nat.zero_le _) rfl

/-! ## Complete

The connective of a level may be next when the left operand has been read, so the induction cannot
speak of a level that has been read to its end.  It speaks of a level that has been read up to some
round of its loop (`Reaches`); the loop then goes on with the next round, or stops. -/

/-- `Reaches room cs ts f rest`: at the level with the connectives `cs`, the loosest first, the
reader has made up `f` from the front of `ts` when `rest` is left. -/
def Reaches (room : Nat) : List Connective → List Token → Formula → List Token → Prop
  | [], ts, f, rest => unary room ts = .ok (f, rest)
  | c :: cs, ts, f, rest =>
      ∃ g gs mid, joined (unary room) cs ts = .ok (g, mid) ∧
        Parser.Rounds (· == .connective c) (joined (unary room) cs) mid gs rest ∧
        gs.foldl (.binary c) g = f

/-- `Ends l o rest`: nothing at the front of `rest` goes on with a formula of level `l`, open or
not.  A name would go on with a list of arguments, hence the parenthesis. -/
structure Ends (l : Nat) (o : Bool) (rest : List Token) : Prop where
  noList : current rest ≠ .opening
  noJoin : ∀ c ∈ precedence.drop l, current rest ≠ .connective c
  noBody : o = true → NoConnective rest

theorem Ends.tighter {l : Nat} {o : Bool} {rest : List Token} (h : Ends l o rest) :
    Ends (l + 1) o rest := by
  refine ⟨h.noList, ?_, h.noBody⟩
  intro c hc
  refine h.noJoin c ?_
  rw [← List.drop_drop] at hc
  exact List.mem_of_mem_drop hc

theorem ends_of_noConnective {l : Nat} {o : Bool} {rest : List Token}
    (h : current rest ≠ .opening) (hc : NoConnective rest) : Ends l o rest :=
  ⟨h, fun c _ => hc c, fun _ => hc⟩

theorem joined_of_reaches {room : Nat} {cs : List Connective} {ts rest : List Token} {f : Formula}
    (h : Reaches room cs ts f rest) (hr : ∀ c ∈ cs, current rest ≠ .connective c) :
    joined (unary room) cs ts = .ok (f, rest) := by
  cases cs with
  | nil => exact h
  | cons c cs =>
      obtain ⟨g, gs, mid, hg, hgs, rfl⟩ := h
      have hstop : ∀ s ∈ rest.head?, (s == Token.connective c) = false := by
        intro s hs
        have hne := hr c List.mem_cons_self
        cases rest with
        | nil => cases hs
        | cons t rest =>
            cases hs
            exact beq_false_of_ne hne
      have := Parser.sepBy_of_rounds (shrinks_joined (shrinks_unary room) cs) hg hgs hstop
      simp only [joined, this, bind_ok]
      rfl

theorem read_of_reaches {room : Nat} {o : Bool} {ts rest : List Token} {f : Formula}
    (h : Reaches room (precedence.drop 0) ts f rest) (he : Ends 0 o rest) :
    read room ts = .ok (f, rest) :=
  joined_of_reaches h he.noJoin

theorem drop_precedence {l : Nat} (h : l < operandLevel) :
    ∃ c, precedence[l]? = some c ∧ precedence.drop l = c :: precedence.drop (l + 1) :=
  ⟨precedence[l], List.getElem?_eq_getElem h, List.drop_eq_getElem_cons h⟩

theorem ne_of_mem_drop {l : Nat} {c c' : Connective} (hc : precedence[l]? = some c)
    (hc' : c' ∈ precedence.drop (l + 1)) : c' ≠ c := by
  rintro rfl
  have hd : (precedence.drop l).Nodup := List.Nodup.sublist (List.drop_sublist l _) (by decide)
  have hl : l < operandLevel := (List.getElem?_eq_some_iff.1 hc).1
  obtain ⟨c'', hc'', e⟩ := drop_precedence hl
  obtain rfl : c' = c'' := Option.some.inj (hc.symm.trans hc'')
  rw [e] at hd
  exact (List.nodup_cons.1 hd).1 hc'

theorem rounds_of_names (xs : List String) (rest : List Token) :
    Parser.Rounds (· == .comma) term
      ((xs.map Token.identifier).flatMap (fun t => [.comma, t]) ++ rest) (xs.map Term.ofName) rest := by
  induction xs with
  | nil => exact .stop
  | cons x xs ih => exact .round (by simp) rfl ih

theorem arguments_of_names (x : String) (xs : List String) (rest : List Token) :
    arguments (.opening :: (((x :: xs).map Token.identifier).intersperse .comma ++
      .closing :: rest)) = .ok ((x :: xs).map Term.ofName, rest) := by
  have hs : Parser.sepBy (· == .comma) term
      (((x :: xs).map Token.identifier).intersperse .comma ++ .closing :: rest) =
        .ok ((.ofName x, xs.map Term.ofName), .closing :: rest) := by
    rw [List.map_cons, intersperse_cons]
    exact Parser.sepBy_of_rounds shrinks_term rfl (rounds_of_names xs _) (by simp)
  rw [List.map_cons, intersperse_cons] at hs ⊢
  simp only [List.cons_append] at hs ⊢
  simp only [arguments, hs, bind_ok, closing]
  rfl

theorem arguments_of_noList {rest : List Token} (h : current rest ≠ .opening) :
    arguments rest = .ok ([], rest) := by
  unfold arguments
  split
  · exact absurd rfl h
  · exact absurd rfl h
  · rfl

/-- A derived list is read up to its end, with what follows left over. -/
theorem Derives.reaches {l d : Nat} {ts : List Token} {f : Formula} {o : Bool}
    (h : Derives l d ts f o) :
    ∀ {room : Nat} {rest : List Token}, d + room = maxDepth → Ends (l + 1) o rest →
      Reaches room (precedence.drop l) (ts ++ rest) f rest := by
  induction h with
  | @tighter l d ts f o hl _ ih =>
      intro room rest hd he
      obtain ⟨c, _, e⟩ := drop_precedence hl
      rw [e]
      exact ⟨f, [], rest, joined_of_reaches (ih hd he.tighter) he.noJoin, .stop, rfl⟩
  | @joined l d c ts us f g o hc _ _ ihf ihg =>
      intro room rest hd he
      have hl : l < operandLevel := (List.getElem?_eq_some_iff.1 hc).1
      obtain ⟨c', hc', e⟩ := drop_precedence hl
      obtain rfl : c = c' := Option.some.inj (hc.symm.trans hc')
      -- the left operand is followed by the connective of its own level
      have hleft : Ends (l + 1) false (Token.connective c :: (us ++ rest)) := by
        refine ⟨by simp [current], ?_, by simp⟩
        intro c' hc' h
        exact ne_of_mem_drop hc hc' (by simpa [current] using h.symm)
      have hf := ihf hd hleft
      rw [e] at hf
      obtain ⟨g₀, gs, mid, hg₀, hgs, rfl⟩ := hf
      have hg := joined_of_reaches (ihg hd he.tighter) he.noJoin
      rw [e, List.append_assoc]
      exact ⟨g₀, gs ++ [g], mid, hg₀, hgs.snoc (by simp) hg, by simp⟩
  | @negated d ts f o hlt _ ih =>
      intro room rest hd he
      obtain ⟨r, rfl⟩ : ∃ r, room = r + 1 := ⟨room - 1, by omega⟩
      have hf : unary r (ts ++ rest) = .ok (f, rest) := ih (by omega) he
      exact unary_eq_ok.2 (.inl ⟨r, ts ++ rest, f, rfl, rfl, hf, rfl⟩)
  | @quantified d q x ts f o hlt hx _ ih =>
      intro room rest hd he
      obtain ⟨r, rfl⟩ : ∃ r, room = r + 1 := ⟨room - 1, by omega⟩
      have hend : Ends 0 o rest := ends_of_noConnective he.noList (he.noBody rfl)
      have hf : read r (ts ++ rest) = .ok (f, rest) :=
        read_of_reaches (ih (by omega) hend.tighter) hend
      exact unary_eq_ok.2 (.inr (.inl ⟨r, q, x, ts ++ rest, f, rfl, rfl, hx, hf, rfl⟩))
  | @enclosed d ts f o hlt _ ih =>
      intro room rest hd he
      obtain ⟨r, rfl⟩ : ∃ r, room = r + 1 := ⟨room - 1, by omega⟩
      have hend : Ends 0 o (Token.closing :: rest) :=
        ends_of_noConnective (by simp [current]) (by simp [NoConnective, current])
      have hf : read r (ts ++ .closing :: rest) = .ok (f, .closing :: rest) :=
        read_of_reaches (ih (by omega) hend.tighter) hend
      exact unary_eq_ok.2 (.inr (.inr (.inl ⟨r, ts ++ .closing :: rest, rfl, by simp, hf⟩)))
  | @name d n =>
      intro room rest _ he
      have ha := arguments_of_noList he.noList
      exact unary_eq_ok.2 (.inr (.inr (.inr (.inl ⟨n, rest, [], rfl, ha, rfl⟩))))
  | @emptyList d n =>
      intro room rest _ _
      exact unary_eq_ok.2 (.inr (.inr (.inr (.inl ⟨n, _, [], rfl, rfl, rfl⟩))))
  | @applied d n x xs =>
      intro room rest _ _
      have ha := arguments_of_names x xs rest
      refine unary_eq_ok.2 (.inr (.inr (.inr (.inl ⟨n, _, _, ?_, ha, rfl⟩))))
      simp
  | bottom =>
      intro room rest _ _
      exact unary_eq_ok.2 (.inr (.inr (.inr (.inr ⟨rfl, rfl⟩))))

theorem Derives.read {d room : Nat} {ts rest : List Token} {f : Formula} {o : Bool}
    (h : Derives 0 d ts f o) (hd : d + room = maxDepth) (he : Ends 0 o rest) :
    Formula.read room (ts ++ rest) = .ok (f, rest) :=
  read_of_reaches (h.reaches hd he.tighter) he

/-! ## Exactly the grammar -/

theorem Derives.noEof {l d : Nat} {ts : List Token} {f : Formula} {o : Bool}
    (h : Derives l d ts f o) : Token.eof ∉ ts := by
  induction h with
  | tighter _ _ ih => exact ih
  | joined _ _ _ ihf ihg => simp [ihf, ihg]
  | negated _ _ ih => simp [ih]
  | quantified _ _ _ ih => simp [ih]
  | enclosed _ _ ih => simp [ih]
  | name => simp
  | emptyList => simp
  | applied => simp [intersperse_cons]
  | bottom => simp

theorem takeWhile_of_current {used rest : List Token} (hu : Token.eof ∉ used)
    (hr : current rest = .eof) : (used ++ rest).takeWhile (· ≠ .eof) = used := by
  have hused : ∀ t ∈ used, decide (t ≠ Token.eof) = true := by
    intro t ht
    refine decide_eq_true ?_
    rintro rfl
    exact hu ht
  rw [List.takeWhile_append_of_pos hused]
  cases rest with
  | nil => simp
  | cons t rest =>
      obtain rfl : t = .eof := hr
      simp

theorem current_dropWhile (ts : List Token) : current (ts.dropWhile (· ≠ .eof)) = .eof := by
  induction ts with
  | nil => rfl
  | cons t ts ih =>
      by_cases h : t = .eof
      · subst h; rfl
      · rw [List.dropWhile_cons_of_pos (by simp [h])]
        exact ih

theorem ofTokens_eq_ok {ts : List Token} {f : Formula} :
    ofTokens ts = .ok f ↔ ∃ o, Derives 0 0 (ts.takeWhile (· ≠ .eof)) f o := by
  constructor
  · intro h
    unfold ofTokens at h
    split at h
    · cases h
    · rename_i g rest hg
      split at h
      · rename_i hr
        cases h
        obtain ⟨used, o, rfl, hused, -⟩ := read_sound (Nat.zero_add maxDepth) _ _ _ hg
        rw [takeWhile_of_current hused.noEof hr]
        exact ⟨o, hused⟩
      · cases h
  · rintro ⟨o, h⟩
    have hr := current_dropWhile ts
    have he : Ends 0 o (ts.dropWhile (· ≠ .eof)) := by
      refine ends_of_noConnective ?_ ?_
      · rw [hr]; exact Token.noConfusion
      · intro c; rw [hr]; exact Token.noConfusion
    have hread := h.read (Nat.zero_add maxDepth) he
    rw [List.takeWhile_append_dropWhile] at hread
    simp only [ofTokens, hread, hr, if_true]

theorem takeWhile_scan (s : String) :
    (Token.scan s).takeWhile (· ≠ .eof) = (Token.scan s).dropLast := by
  obtain ⟨ts, e, hts⟩ := Token.scan_eq_append s
  rw [e, takeWhile_of_current hts rfl, List.dropLast_concat]

/-- Reading accepts exactly what the grammar derives, with the same tree: a list of tokens up to its
first `eof`, and so a text by its tokens. -/
theorem accepts_exactly_derived (f : Formula) :
    (∀ ts, ofTokens ts = .ok f ↔ ∃ o, Derives 0 0 (ts.takeWhile (· ≠ .eof)) f o) ∧
    (∀ s, parse s = .ok f ↔ ∃ o, Derives 0 0 (Token.scan s).dropLast f o) := by
  refine ⟨fun ts => ofTokens_eq_ok, fun s => ?_⟩
  rw [← takeWhile_scan, parse]
  exact ofTokens_eq_ok

end Formula

end ProofSheet
