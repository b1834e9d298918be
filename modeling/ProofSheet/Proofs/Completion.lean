/-
# Finishing a formula

A text that ends too early is called unfinished, and an unfinished text can be finished.  The reader has
come to the end where a variable or an operand is expected.  A variable, the falsum and the parentheses
that are still open are all that is missing, and none of them opens a level, so this works at the greatest
depth too (`ending`).

The proof follows the reader to where it failed.  What it had read by then is derived by the grammar, part
by part, and each part that was begun is derived when the ending is put after it (`Unfinished`).
-/
import ProofSheet.Proofs.Rereading

namespace ProofSheet

/-! ## Tokens with blanks between them -/

namespace Token

/-- Can the token be typed?  Any can but the mark at the end, stray symbols and identifiers that are no
names. -/
def isTypable : Token → Bool
  | .identifier n => isName n
  | .stray _ => false
  | .eof => false
  | _ => true

def spaced (ts : List Token) : String := String.ofList (ts.flatMap fun t => ' ' :: t.text.toList)

theorem scanFrom_text {t : Token} (ht : t.isTypable = true) {rest : List Char} (hr : Separates rest) :
    scanFrom [] (t.text.toList ++ rest) = t :: scanFrom [] rest := by
  cases t with
  | identifier n => exact scanFrom_name ht hr
  | stray _ => cases ht
  | eof => cases ht
  | connective c => cases c <;> exact scanFrom_symbol rfl rest
  | quantifier q => cases q <;> exact scanFrom_symbol rfl rest
  | _ => exact scanFrom_symbol rfl rest

theorem scanFrom_spaced {ts : List Token} (h : ∀ t ∈ ts, t.isTypable = true) :
    scanFrom [] (ts.flatMap fun t => ' ' :: t.text.toList) = ts ++ [eof] := by
  induction ts with
  | nil => rfl
  | cons t ts ih =>
      obtain ⟨ht, hts⟩ := List.forall_mem_cons.1 h
      have hsep : Separates (ts.flatMap fun t => ' ' :: t.text.toList) := by
        cases ts with
        | nil => exact separates_nil
        | cons u us => exact separates_cons rfl
      rw [List.flatMap_cons, List.cons_append, scanFrom_char rfl, scanFrom_text ht hsep, ih hts]
      rfl

/-- A character that is dropped ends an identifier, and what follows is scanned on its own. -/
theorem scanFrom_dropped {c : Char} (hname : isNameChar c = false) (hnone : ofChar? c = none)
    (cs rest : List Char) : ∀ name : List Char,
      scanFrom name (cs ++ c :: rest) = (scanFrom name cs).dropLast ++ scanFrom [] rest := by
  induction cs with
  | nil =>
      intro name
      have hcontinues : continues name c = false := by
        cases name with
        | nil => exact isNameStart_eq_false hname
        | cons d name => exact hname
      have hscan : scanFrom name (c :: rest) = close name ++ scanFrom [] rest := by
        simp [scanFrom, hcontinues, hnone]
      rw [List.nil_append, hscan, scanFrom, List.dropLast_concat]
  | cons d cs ih =>
      intro name
      obtain ⟨ts, e, -⟩ := scanFrom_eq_append [] cs
      rw [List.cons_append, scanFrom, scanFrom]
      split
      · exact ih (d :: name)
      · rw [ih [], e, ← List.append_assoc _ ts, List.dropLast_concat, List.dropLast_concat,
          List.append_assoc _ ts]

theorem scan_append_spaced (s : String) {t : Token} {ts : List Token}
    (h : ∀ u ∈ t :: ts, u.isTypable = true) :
    scan (s ++ spaced (t :: ts)) = (scan s).dropLast ++ (t :: ts) ++ [eof] := by
  have hscan := scanFrom_spaced h
  rw [List.flatMap_cons, List.cons_append, scanFrom_char rfl] at hscan
  rw [scan, spaced, String.toList_append, String.toList_ofList, List.flatMap_cons, List.cons_append,
    scanFrom_dropped rfl rfl, List.append_assoc, ← hscan]
  rfl

end Token

namespace Formula

open Reader

/-! ## What is missing -/

/-- What finishes a text that ends too early: a variable if a quantifier waits for one, an operand, and the
parentheses that are open. -/
def ending (variableMissing : Bool) (opened : Nat) : List Token :=
  (if variableMissing then [.identifier "x"] else []) ++ .bottom :: List.replicate opened .closing

theorem ending_succ (v : Bool) (n : Nat) : ending v (n + 1) = ending v n ++ [.closing] := by
  simp [ending, List.replicate_succ']

theorem isTypable_of_mem_ending {v : Bool} {n : Nat} {t : Token} (h : t ∈ ending v n) :
    t.isTypable = true := by
  rw [ending, List.mem_append, List.mem_cons, List.mem_replicate] at h
  rcases h with h | rfl | ⟨-, rfl⟩
  · cases v with
    | true =>
        cases List.mem_singleton.1 h
        rfl
    | false => cases h
  · rfl
  · rfl

/-- `Unfinished level depth ts left`: from the front of `ts` a formula was begun at a level and a depth,
and the tokens ended at `left`; some ending finishes it. -/
def Unfinished (level depth : Nat) (ts left : List Token) : Prop :=
  ∃ used v n f o, ts = used ++ left ∧ current left = .eof ∧
    Derives level depth (used ++ ending v n) f o

/-- A reader that runs out of tokens has begun a formula that can be finished. -/
def Finishable (level depth : Nat) (p : Reader Formula) : Prop :=
  ∀ ts left, p ts = .error ⟨.unexpectedEnd, left⟩ → Unfinished level depth ts left

/-! ## Levels -/

/-- All levels are finishable when the operands are.  The rounds before the one that ran out of tokens are
derived, and they end in front of a connective, so what they make up is not open. -/
theorem joined_finishable {d : Nat} {operand : Reader Formula} (hs : SoundAt operandLevel d operand)
    (hf : Finishable operandLevel d operand) :
    ∀ (cs : List Connective) (l : Nat), l ≤ operandLevel → precedence.drop l = cs →
      Finishable l d (joined operand cs)
  | [], l, hl, hcs => by
      have : l = operandLevel := Nat.le_antisymm hl (List.drop_eq_nil_iff.1 hcs)
      rw [this]
      exact hf
  | c :: cs, l, _, hcs => by
      obtain ⟨hl, hc, hcs'⟩ := precedence_of_drop hcs
      have hsound := joined_sound hs cs (l + 1) hl hcs'
      have item := joined_finishable hs hf cs (l + 1) hl hcs'
      intro ts left h
      rcases bind_eq_error.1 h with hsepBy | ⟨r, -, hok⟩
      · rcases Parser.sepBy_eq_error hsepBy with hfail | ⟨g, mid, gs, s, rest, hg, hgs, hsep, hfail⟩
        · obtain ⟨used, v, n, f, o, rfl, hleft, hder⟩ := item _ _ hfail
          exact ⟨used, v, n, f, o, rfl, hleft, .tighter hl hder⟩
        · obtain rfl : s = .connective c := eq_of_beq hsep
          obtain ⟨first, o, rfl, hfirst, ho⟩ := hsound _ _ _ hg
          obtain ⟨more, o', rfl, hmore, ho'⟩ := rounds_sound hc hsound hgs (.tighter hl hfirst) ho
          -- an open formula would have read on, so it cannot stand before a connective
          obtain rfl : o' = false := by
            cases o' with
            | false => rfl
            | true => exact absurd rfl (ho' rfl c)
          obtain ⟨used, v, n, f, o'', rfl, hleft, hder⟩ := item _ _ hfail
          have hjoined := Derives.joined hc hmore hder
          rw [← List.cons_append, ← List.append_assoc] at hjoined
          exact ⟨first ++ more ++ .connective c :: used, v, n, _, o'', by simp, hleft, hjoined⟩
      · cases hok

/-! ## Operands -/

theorem closing_ne_unexpectedEnd {ts left : List Token} :
    closing ts ≠ .error ⟨.unexpectedEnd, left⟩ := by
  intro h
  unfold closing at h
  split at h <;> cases h

theorem term_ne_unexpectedEnd {ts left : List Token} : term ts ≠ .error ⟨.unexpectedEnd, left⟩ := by
  intro h
  unfold term at h
  split at h <;> cases h

/-- A list of arguments that is cut short is an error of another kind. -/
theorem arguments_ne_unexpectedEnd {ts left : List Token} :
    arguments ts ≠ .error ⟨.unexpectedEnd, left⟩ := by
  intro h
  unfold arguments at h
  split at h
  · cases h
  · rcases bind_eq_error.1 h with hterms | ⟨r, -, hrest⟩
    · rcases Parser.sepBy_eq_error hterms with hterm | ⟨t, mid, ts, s, rest, -, -, -, hterm⟩
      · exact term_ne_unexpectedEnd hterm
      · exact term_ne_unexpectedEnd hterm
    · rcases bind_eq_error.1 hrest with hclosing | ⟨r', -, hok⟩
      · exact closing_ne_unexpectedEnd hclosing
      · cases hok
  · cases h

theorem boundVariable_unexpectedEnd {ts left : List Token}
    (h : boundVariable ts = .error ⟨.unexpectedEnd, left⟩) : left = ts ∧ current ts = .eof := by
  unfold boundVariable at h
  split at h
  · split at h <;> cases h
  · cases h; exact ⟨rfl, rfl⟩
  · cases h; exact ⟨rfl, rfl⟩
  · cases h

/-- The ways in which an operand runs out of tokens: before it begins, inside a negation, before or after
the variable of a quantifier, inside parentheses. -/
theorem unary_unexpectedEnd {room : Nat} {ts left : List Token}
    (h : unary room ts = .error ⟨.unexpectedEnd, left⟩) :
    (left = ts ∧ current ts = .eof) ∨
    (∃ r us, room = r + 1 ∧ ts = .negation :: us ∧ unary r us = .error ⟨.unexpectedEnd, left⟩) ∨
    (∃ r q, room = r + 1 ∧ ts = .quantifier q :: left ∧ current left = .eof) ∨
    (∃ r q x us, room = r + 1 ∧ ts = .quantifier q :: .identifier x :: us ∧
      isVariableName x = true ∧ read r us = .error ⟨.unexpectedEnd, left⟩) ∨
    (∃ r us, room = r + 1 ∧ ts = .opening :: us ∧ read r us = .error ⟨.unexpectedEnd, left⟩) := by
  unfold unary at h
  split at h
  case h_4 r us =>
    rcases bind_eq_error.1 h with hoperand | ⟨g, -, hok⟩
    · exact .inr (.inl ⟨r, us, rfl, rfl, hoperand⟩)
    · cases hok
  case h_5 r q us =>
    rcases bind_eq_error.1 h with hvariable | ⟨⟨x, mid⟩, hx, hrest⟩
    · obtain ⟨rfl, hend⟩ := boundVariable_unexpectedEnd hvariable
      exact .inr (.inr (.inl ⟨r, q, rfl, rfl, hend⟩))
    · obtain ⟨hv, rfl⟩ := boundVariable_eq_ok hx
      rcases bind_eq_error.1 hrest with hbody | ⟨g, -, hok⟩
      · exact .inr (.inr (.inr (.inl ⟨r, q, x, mid, rfl, rfl, hv, hbody⟩)))
      · cases hok
  case h_6 r us =>
    rcases bind_eq_error.1 h with hbody | ⟨g, -, hrest⟩
    · exact .inr (.inr (.inr (.inr ⟨r, us, rfl, rfl, hbody⟩)))
    · rcases bind_eq_error.1 hrest with hclosing | ⟨u, -, hok⟩
      · exact absurd hclosing closing_ne_unexpectedEnd
      · cases hok
  case h_7 n us =>
    rcases bind_eq_error.1 h with harguments | ⟨args, -, hok⟩
    · exact absurd harguments arguments_ne_unexpectedEnd
    · cases hok
  case h_9 => cases h; exact .inl ⟨rfl, rfl⟩
  case h_10 => cases h; exact .inl ⟨rfl, rfl⟩
  all_goals cases h

theorem read_finishable {room d : Nat} (hd : d + room = maxDepth)
    (h : Finishable operandLevel d (unary room)) : Finishable 0 d (read room) :=
  joined_finishable (unary_sound room d hd) h precedence 0 (Nat.zero_le _) rfl

/-- The reader of operands is finishable.  An operand that has not begun is finished by the falsum, which
needs no level; and what has begun has opened its level already. -/
theorem unary_finishable (room : Nat) :
    ∀ d, d + room = maxDepth → Finishable operandLevel d (unary room) := by
  induction room using Nat.strongRecOn with
  | ind room ih =>
      intro d hd ts left h
      have hread : ∀ r, room = r + 1 → Finishable 0 (d + 1) (read r) := by
        rintro r rfl
        have hd' : d + 1 + r = maxDepth := by omega
        exact read_finishable hd' (ih r (Nat.lt_succ_self r) (d + 1) hd')
      obtain ⟨rfl, hend⟩ | ⟨r, us, rfl, rfl, hoperand⟩ | ⟨r, q, rfl, rfl, hend⟩ |
        ⟨r, q, x, us, rfl, rfl, hx, hbody⟩ | ⟨r, us, rfl, rfl, hbody⟩ := unary_unexpectedEnd h
      · exact ⟨[], false, 0, .bottom, false, rfl, hend, .bottom⟩
      · obtain ⟨used, v, n, f, o, rfl, hleft, hder⟩ :=
          ih r (Nat.lt_succ_self r) (d + 1) (by omega) _ _ hoperand
        exact ⟨.negation :: used, v, n, .neg f, o, rfl, hleft, .negated (by omega) hder⟩
      · have hfalsum : Derives 0 (d + 1) [.bottom] .bottom false := Derives.bottom.loosest
        exact ⟨[.quantifier q], true, 0, .quantified q "x" .bottom, true, rfl, hend,
          .quantified (by omega) rfl hfalsum⟩
      · obtain ⟨used, v, n, f, o, rfl, hleft, hder⟩ := hread r rfl _ _ hbody
        exact ⟨.quantifier q :: .identifier x :: used, v, n, .quantified q x f, true, rfl, hleft,
          .quantified (by omega) hx hder⟩
      · obtain ⟨used, v, n, f, o, rfl, hleft, hder⟩ := hread r rfl _ _ hbody
        -- one more parenthesis to close, after those of the body
        refine ⟨.opening :: used, v, n + 1, f, false, rfl, hleft, ?_⟩
        rw [ending_succ, List.cons_append, ← List.append_assoc]
        exact .enclosed (by omega) hder

/-! ## Texts -/

/-- The tokens of a text that ends too early make up a formula with some ending. -/
theorem derives_ending {t : String} (h : parse t = .error .unexpectedEnd) :
    ∃ v n f o, Derives 0 0 ((Token.scan t).dropLast ++ ending v n) f o := by
  unfold parse ofTokens at h
  split at h
  · rename_i failure hfail
    obtain ⟨cause, left⟩ := failure
    cases h
    have hroom := Nat.zero_add maxDepth
    obtain ⟨used, v, n, f, o, hscan, hleft, hder⟩ :=
      read_finishable hroom (unary_finishable _ _ hroom) _ _ hfail
    have hused : Token.eof ∉ used := fun hmem => hder.noEof (List.mem_append_left _ hmem)
    refine ⟨v, n, f, o, ?_⟩
    rwa [← takeWhile_scan, hscan, takeWhile_of_current hused hleft]
  · split at h <;> cases h

theorem parse_append_ending {t : String} (h : parse t = .error .unexpectedEnd) :
    ∃ v n f, parse (t ++ Token.spaced (ending v n)) = .ok f := by
  obtain ⟨v, n, f, o, hder⟩ := derives_ending h
  obtain ⟨u, us, hending⟩ : ∃ u us, ending v n = u :: us :=
    List.exists_cons_of_ne_nil (by simp [ending])
  have htypable : ∀ w ∈ u :: us, w.isTypable = true := fun w hw =>
    isTypable_of_mem_ending (hending ▸ hw)
  refine ⟨v, n, f, ofTokens_eq_ok.2 ⟨o, ?_⟩⟩
  rw [hending] at hder ⊢
  rw [Token.scan_append_spaced t htypable, takeWhile_of_current hder.noEof rfl]
  exact hder

end Formula

namespace Reading

theorem ofText_eq_unfinished {t m : String} (h : ofText t = .unfinished m) :
    Formula.parse t = .error .unexpectedEnd := by
  rw [ofText] at h
  split at h
  · cases h
  · split at h
    · cases h
    · rename_i e hparse
      cases e with
      | unexpectedEnd => exact hparse
      | _ => cases h

/-- Every unfinished text can be finished: something typed after it makes it a formula, and it need be no
more than a variable, the falsum and closing parentheses. -/
theorem unfinished_can_be_finished {t m : String} (h : ofText t = .unfinished m) :
    ∃ s f, ofText (t ++ s) = .formula f ∧ ∃ v n, s = Token.spaced (Formula.ending v n) := by
  obtain ⟨v, n, f, hparse⟩ := Formula.parse_append_ending (ofText_eq_unfinished h)
  exact ⟨_, f, ofText_eq_formula.2 hparse, v, n, rfl⟩

/-- A text of dropped characters only, and one that has opened every level and waits for a variable at the
last. -/
theorem deepest_can_be_finished :
    let deep := String.ofList (List.replicate 127 '(' ++ ['∀'])
    (∃ m, ofText "2 + 2 =" = .unfinished m) ∧
    (∃ s f, ofText ("2 + 2 =" ++ s) = .formula f ∧ ∃ v n, s = Token.spaced (Formula.ending v n)) ∧
    (∃ m, ofText deep = .unfinished m) ∧
    ∃ s f, ofText (deep ++ s) = .formula f ∧ ∃ v n, s = Token.spaced (Formula.ending v n) := by
  have hdropped : ofText "2 + 2 =" = .unfinished "Unexpected end of input" := by decide +kernel
  have hdeep : ofText (String.ofList (List.replicate 127 '(' ++ ['∀'])) =
      .unfinished "Unexpected end of input" := by decide +kernel
  exact ⟨⟨_, hdropped⟩, unfinished_can_be_finished hdropped, ⟨_, hdeep⟩,
    unfinished_can_be_finished hdeep⟩

end Reading

end ProofSheet
