/-
# Reading what was written

A formula is written with every binary and every quantified part in parentheses, so its text can be
read back, up to the limit on nesting.  Parentheses count as nesting, and so does what is inside
them: a quantifier costs two levels, since it stands in parentheses of its own.

The proof goes through the tokens of the written form.  Scanning gives them back one by one, because
no two written names touch.  The grammar derives the formula from them as long as the levels suffice;
and where they do not, the first thing that goes wrong is the limit, because all before it was in
order.
-/
import ProofSheet.Proofs.Grammar

namespace ProofSheet

/-- A term that can be typed: its name can be, and tells whether it is a variable. -/
def Term.typable : Term → Bool
  | .var n => isVariableName n
  | .const n => Token.isName n && !isVariableName n

namespace Formula

open Reader

/-- A formula that can be typed: its names can be, and its variables are single letters. -/
def typable : Formula → Bool
  | .predicate n args => Token.isName n && args.all Term.typable
  | .bottom => true
  | .neg f => f.typable
  | .binary _ l r => l.typable && r.typable
  | .quantified _ x f => isVariableName x && f.typable

/-- The levels that the written form of a formula opens, one inside the other. -/
def nesting : Formula → Nat
  | .predicate _ _ => 0
  | .bottom => 0
  | .neg f => 1 + f.nesting
  | .binary _ l r => 1 + max l.nesting r.nesting
  | .quantified _ _ f => 2 + f.nesting

/-! ## The tokens of the written form -/

/-- The tokens of the arguments of a predicate; an empty list has no parentheses. -/
def argTokens : List Term → List Token
  | [] => []
  | t :: ts => .opening ::
      (((t :: ts).map fun a => Token.identifier a.name).intersperse .comma ++ [.closing])

def tokens : Formula → List Token
  | .predicate n args => .identifier n :: argTokens args
  | .bottom => [.bottom]
  | .neg f => .negation :: f.tokens
  | .binary c l r => .opening :: (l.tokens ++ .connective c :: (r.tokens ++ [.closing]))
  | .quantified q x f => .opening :: .quantifier q :: .identifier x :: (f.tokens ++ [.closing])

theorem isName_of_isVariableName {n : String} (h : isVariableName n = true) :
    Token.isName n = true := by
  unfold isVariableName at h
  split at h
  · rename_i c e
    have hc : Token.isNameStart c = true := by
      show (c.isUpper || c.isLower || c == '_') = true
      rw [h, Bool.or_true, Bool.true_or]
    simp [Token.isName, e, hc]
  · cases h

theorem isName_of_typable {t : Term} (h : t.typable = true) : Token.isName t.name = true := by
  cases t with
  | var n => exact isName_of_isVariableName h
  | const n =>
      rw [Term.typable, Bool.and_eq_true] at h
      exact h.1

theorem ofName_of_typable {t : Term} (h : t.typable = true) : Term.ofName t.name = t := by
  cases t with
  | var n => exact if_pos h
  | const n =>
      rw [Term.typable, Bool.and_eq_true, Bool.not_eq_true'] at h
      exact if_neg (by simp [Term.name, h.2])

theorem scanFrom_writeTerms {ts : List Term} (h : ts.all Term.typable = true) (rest : List Char) :
    Token.scanFrom [] (writeTerms ts (')' :: rest)) =
      (ts.map fun a => Token.identifier a.name).flatMap (fun t => [.comma, t]) ++
        .closing :: Token.scanFrom [] rest := by
  induction ts with
  | nil => exact Token.scanFrom_symbol rfl rest
  | cons t ts ih =>
      rw [List.all_cons, Bool.and_eq_true] at h
      have hsep : Token.Separates (writeTerms ts (')' :: rest)) := by
        cases ts <;> exact Token.separates_cons rfl
      rw [writeTerms, Token.scanFrom_symbol rfl, Token.scanFrom_char rfl,
        Token.scanFrom_name (isName_of_typable h.1) hsep, ih h.2]
      rfl

theorem scanFrom_writeArgs {ts : List Term} (h : ts.all Term.typable = true) (rest : List Char) :
    Token.scanFrom [] (writeArgs ts rest) = argTokens ts ++ Token.scanFrom [] rest := by
  cases ts with
  | nil => rfl
  | cons t ts =>
      rw [List.all_cons, Bool.and_eq_true] at h
      have hsep : Token.Separates (writeTerms ts (')' :: rest)) := by
        cases ts <;> exact Token.separates_cons rfl
      rw [writeArgs, Token.scanFrom_symbol rfl, Token.scanFrom_name (isName_of_typable h.1) hsep,
        scanFrom_writeTerms h.2, argTokens, List.map_cons, intersperse_cons]
      simp

theorem ofChar?_connective (c : Connective) : Token.ofChar? c.symbol = some (.connective c) := by
  cases c <;> rfl

theorem ofChar?_quantifier (q : Quantifier) : Token.ofChar? q.symbol = some (.quantifier q) := by
  cases q <;> rfl

/-- Scanning a written formula gives its tokens, whatever follows, if it does not run into the last
name. -/
theorem scanFrom_write {f : Formula} (hf : f.typable = true) :
    ∀ {rest : List Char}, Token.Separates rest →
      Token.scanFrom [] (f.write rest) = f.tokens ++ Token.scanFrom [] rest := by
  induction f with
  | predicate n args =>
      intro rest hr
      rw [typable, Bool.and_eq_true] at hf
      have hsep : Token.Separates (writeArgs args rest) := by
        cases args with
        | nil => exact hr
        | cons t ts => exact Token.separates_cons rfl
      rw [write, Token.scanFrom_name hf.1 hsep, scanFrom_writeArgs hf.2]
      rfl
  | bottom =>
      intro rest _
      exact Token.scanFrom_symbol rfl rest
  | neg f ih =>
      intro rest hr
      rw [write, Token.scanFrom_symbol rfl, ih hf hr]
      rfl
  | binary c l r ihl ihr =>
      intro rest hr
      rw [typable, Bool.and_eq_true] at hf
      rw [write, Token.scanFrom_symbol rfl, ihl hf.1 (Token.separates_cons rfl),
        Token.scanFrom_char rfl, Token.scanFrom_symbol (ofChar?_connective c),
        Token.scanFrom_char rfl, ihr hf.2 (Token.separates_cons rfl), Token.scanFrom_symbol rfl]
      simp [tokens, Token.ofChar?]
  | quantified q x f ih =>
      intro rest hr
      rw [typable, Bool.and_eq_true] at hf
      rw [write, Token.scanFrom_symbol rfl, Token.scanFrom_symbol (ofChar?_quantifier q),
        Token.scanFrom_name (isName_of_isVariableName hf.1) (Token.separates_cons rfl),
        Token.scanFrom_char rfl, ih hf.2 (Token.separates_cons rfl), Token.scanFrom_symbol rfl]
      simp [tokens, Token.ofChar?]

theorem scan_print {f : Formula} (hf : f.typable = true) : Token.scan f.print = f.tokens ++ [.eof] := by
  rw [Token.scan, print, String.toList_ofList, text, scanFrom_write hf Token.separates_nil]
  rfl

/-! ## Within the limit -/

theorem map_ofName {args : List Term} (h : args.all Term.typable = true) :
    (args.map Term.name).map Term.ofName = args := by
  rw [List.map_map, List.all_eq_true] at *
  refine (List.map_congr_left ?_).trans (List.map_id args)
  intro t ht
  exact ofName_of_typable (h t ht)

theorem derives_argTokens (d : Nat) (n : String) {args : List Term}
    (h : args.all Term.typable = true) :
    Derives operandLevel d (.identifier n :: argTokens args) (.predicate n args) false := by
  cases args with
  | nil => exact .name
  | cons t ts =>
      have happ := @Derives.applied d n t.name (ts.map Term.name)
      rw [← List.map_cons, map_ofName h, List.map_map] at happ
      exact happ

theorem Derives.looser {l m d : Nat} {ts : List Token} {f : Formula} {o : Bool} (hl : l ≤ m) :
    m ≤ operandLevel → Derives m d ts f o → Derives l d ts f o := by
  induction hl with
  | refl => exact fun _ h => h
  | step _ ih =>
      intro hm h
      exact ih (Nat.le_of_succ_le hm) (.tighter hm h)

theorem Derives.loosest {d : Nat} {ts : List Token} {f : Formula} {o : Bool}
    (h : Derives operandLevel d ts f o) : Derives 0 d ts f o :=
  .looser (Nat.zero_le _) (Nat.le_refl _) h

theorem level_of_connective (c : Connective) : ∃ i, i < operandLevel ∧ precedence[i]? = some c := by
  have hc : c ∈ precedence := by cases c <;> decide
  obtain ⟨i, hi, e⟩ := List.getElem_of_mem hc
  exact ⟨i, hi, by rw [List.getElem?_eq_getElem hi, e]⟩

/-- The grammar derives a formula from its tokens where the levels suffice for its nesting. -/
theorem derives_tokens {f : Formula} (hf : f.typable = true) :
    ∀ {d : Nat}, d + f.nesting ≤ maxDepth → Derives operandLevel d f.tokens f false := by
  induction f with
  | predicate n args =>
      intro d _
      rw [typable, Bool.and_eq_true] at hf
      exact derives_argTokens d n hf.2
  | bottom =>
      intro d _
      exact .bottom
  | neg f ih =>
      intro d hd
      rw [nesting] at hd
      exact .negated (by omega) (ih hf (by omega))
  | binary c l r ihl ihr =>
      intro d hd
      rw [nesting] at hd
      rw [typable, Bool.and_eq_true] at hf
      have hl : Derives operandLevel (d + 1) l.tokens l false := ihl hf.1 (by omega)
      have hr : Derives operandLevel (d + 1) r.tokens r false := ihr hf.2 (by omega)
      obtain ⟨i, hi, hc⟩ := level_of_connective c
      have hj : Derives i (d + 1) (l.tokens ++ .connective c :: r.tokens) (.binary c l r) false :=
        .joined hc (.looser (Nat.le_of_lt hi) (Nat.le_refl _) hl) (.looser hi (Nat.le_refl _) hr)
      have he := Derives.enclosed (by omega) (Derives.looser (Nat.zero_le i) (Nat.le_of_lt hi) hj)
      simpa [tokens] using he
  | quantified q x f ih =>
      intro d hd
      rw [nesting] at hd
      rw [typable, Bool.and_eq_true] at hf
      have hb : Derives operandLevel (d + 2) f.tokens f false := ih hf.2 (by omega)
      have hq := Derives.quantified (q := q) (by omega) hf.1 hb.loosest
      exact .enclosed (by omega) hq.loosest

theorem unary_tokens {f : Formula} (hf : f.typable = true) {room : Nat} (rest : List Token)
    (hm : room ≤ maxDepth) (h : f.nesting ≤ room) (hr : current rest ≠ .opening) :
    unary room (f.tokens ++ rest) = .ok (f, rest) := by
  have hd : Derives operandLevel (maxDepth - room) f.tokens f false :=
    derives_tokens hf (by omega)
  have he : Ends (operandLevel + 1) false rest := by
    refine ⟨hr, ?_, fun h => absurd h Bool.false_ne_true⟩
    intro c hc
    exact absurd hc List.not_mem_nil
  exact hd.reaches (by omega) he

/-! ## Past the limit

A failure of the first operand is a failure of every level, and so is a failure of the second one
when the first was read. -/

theorem joined_of_operand {operand : Reader Formula} {ts rest : List Token} {f : Formula}
    (h : operand ts = .ok (f, rest)) :
    ∀ {cs : List Connective}, (∀ c ∈ cs, current rest ≠ .connective c) →
      joined operand cs ts = .ok (f, rest)
  | [], _ => h
  | c :: cs, hcs => by
      have item : joined operand cs ts = .ok (f, rest) :=
        joined_of_operand h fun c' hc' => hcs c' (List.mem_cons_of_mem _ hc')
      have stop : Parser.further (· == .connective c) (joined operand cs) rest rest = .ok ([], rest) := by
        cases rest with
        | nil => rfl
        | cons t rest =>
            have hne : t ≠ .connective c := hcs c List.mem_cons_self
            simp [Parser.further, hne]
      simp only [joined, Parser.sepBy, item, bind_ok, stop]
      rfl

theorem joined_error {operand : Reader Formula} {ts : List Token} {e : Failure}
    (h : operand ts = .error e) : ∀ cs : List Connective, joined operand cs ts = .error e
  | [] => h
  | c :: cs => by
      simp only [joined, Parser.sepBy, joined_error h cs, bind_error]

theorem joined_error_right {operand : Reader Formula} {ts us : List Token} {f : Formula}
    {c : Connective} {e : Failure} (hf : operand ts = .ok (f, .connective c :: us))
    (he : operand us = .error e) :
    ∀ {cs : List Connective}, c ∈ cs → cs.Nodup → joined operand cs ts = .error e
  | [], hc, _ => absurd hc List.not_mem_nil
  | c' :: cs, hc, hcs => by
      obtain ⟨hc', hcs⟩ := List.nodup_cons.1 hcs
      rcases List.mem_cons.1 hc with rfl | hc
      · have item : joined operand cs ts = .ok (f, .connective c :: us) := by
          refine joined_of_operand hf ?_
          rintro c₁ hc₁ ⟨⟩
          exact hc' hc₁
        simp only [joined, Parser.sepBy, item, bind_ok, Parser.further, beq_self_eq_true, if_true,
          joined_error he cs, bind_error]
      · simp only [joined, Parser.sepBy, joined_error_right hf he hc hcs, bind_error]

/-- Where the levels do not suffice for the nesting of a formula, its tokens fail at the limit. -/
theorem unary_tokens_error {f : Formula} (hf : f.typable = true) :
    ∀ {room : Nat} (rest : List Token), room ≤ maxDepth → room < f.nesting →
      ∃ left, unary room (f.tokens ++ rest) = .error ⟨.tooDeep, left⟩ := by
  induction f with
  | predicate n args =>
      intro room rest _ h
      exact absurd h (Nat.not_lt_zero room)
  | bottom =>
      intro room rest _ h
      exact absurd h (Nat.not_lt_zero room)
  | neg f ih =>
      intro room rest hm h
      rw [nesting] at h
      cases room with
      | zero => exact ⟨_, rfl⟩
      | succ r =>
          obtain ⟨left, e⟩ := ih hf rest (Nat.le_of_succ_le hm) (by omega)
          exact ⟨left, by rw [tokens, List.cons_append, unary, e]; rfl⟩
  | binary c l r ihl ihr =>
      intro room rest hm h
      rw [nesting] at h
      rw [typable, Bool.and_eq_true] at hf
      cases room with
      | zero => exact ⟨_, rfl⟩
      | succ k =>
          have split : (Formula.binary c l r).tokens ++ rest =
              .opening :: (l.tokens ++ .connective c :: (r.tokens ++ .closing :: rest)) := by
            simp [tokens]
          -- the left operand fails, or else it is read and the right one fails
          have inner : ∃ left, joined (unary k) precedence
              (l.tokens ++ .connective c :: (r.tokens ++ .closing :: rest)) =
                .error ⟨.tooDeep, left⟩ := by
            by_cases hl : l.nesting ≤ k
            · have hread := unary_tokens hf.1 (.connective c :: (r.tokens ++ .closing :: rest))
                (Nat.le_of_succ_le hm) hl Token.noConfusion
              obtain ⟨left, e⟩ := ihr hf.2 (.closing :: rest) (Nat.le_of_succ_le hm) (by omega)
              exact ⟨left, joined_error_right hread e (by cases c <;> decide) (by decide)⟩
            · obtain ⟨left, e⟩ := ihl hf.1 _ (Nat.le_of_succ_le hm) (by omega)
              exact ⟨left, joined_error e precedence⟩
          obtain ⟨left, e⟩ := inner
          exact ⟨left, by rw [split, unary, e]; rfl⟩
  | quantified q x f ih =>
      intro room rest hm h
      rw [nesting] at h
      rw [typable, Bool.and_eq_true] at hf
      have split : (Formula.quantified q x f).tokens ++ rest =
          .opening :: .quantifier q :: .identifier x :: (f.tokens ++ .closing :: rest) := by
        simp [tokens]
      cases room with
      | zero => exact ⟨_, rfl⟩
      | succ k =>
          cases k with
          | zero =>
              -- the last level goes to the parenthesis, and none is left for the quantifier
              refine ⟨.identifier x :: (f.tokens ++ .closing :: rest), ?_⟩
              have e : unary 0 (.quantifier q :: .identifier x :: (f.tokens ++ .closing :: rest)) =
                  .error ⟨.tooDeep, .identifier x :: (f.tokens ++ .closing :: rest)⟩ := rfl
              rw [split, unary, joined_error e]
              rfl
          | succ k =>
              obtain ⟨left, e⟩ := ih hf.2 (.closing :: rest)
                (Nat.le_trans (Nat.le_add_right k 2) hm) (by omega)
              refine ⟨left, ?_⟩
              have e' : unary (k + 1)
                  (.quantifier q :: .identifier x :: (f.tokens ++ .closing :: rest)) =
                    .error ⟨.tooDeep, left⟩ := by
                rw [unary, boundVariable, if_pos hf.1, bind_ok]
                simp only [joined_error e, bind_error]
              rw [split, unary, joined_error e']
              rfl

/-! ## There and back -/

/-- The written form of a formula that can be typed: it is read back, or nested too deeply. -/
theorem parse_print {f : Formula} (hf : f.typable = true) :
    parse f.print = if f.nesting ≤ maxDepth then .ok f else .error .tooDeep := by
  rw [parse, scan_print hf]
  split
  · rename_i h
    have hread : read maxDepth (f.tokens ++ [.eof]) = .ok (f, [.eof]) := by
      refine joined_of_operand (unary_tokens hf [.eof] (Nat.le_refl _) h Token.noConfusion) ?_
      intro c _
      exact Token.noConfusion
    simp only [ofTokens, hread, current, if_true]
  · rename_i h
    obtain ⟨left, e⟩ := unary_tokens_error hf [.eof] (Nat.le_refl _) (Nat.lt_of_not_le h)
    have hread : read maxDepth (f.tokens ++ [.eof]) = .error ⟨.tooDeep, left⟩ :=
      joined_error e precedence
    simp only [ofTokens, hread]

/-- A formula that can be typed is read back from its written form exactly when its nesting is within
the limit; beyond it, the nesting is what the reader complains about. -/
theorem parse_print_exact (f : Formula) (hf : f.typable = true) :
    (f.nesting ≤ maxDepth → parse f.print = .ok f) ∧
    (maxDepth < f.nesting → parse f.print = .error .tooDeep) := by
  rw [parse_print hf]
  exact ⟨fun h => if_pos h, fun h => if_neg (Nat.not_le.2 h)⟩

/-- Sixty-four quantifiers use up every level, and a negation is one too many. -/
theorem parse_print_at_limit :
    let f := Nat.repeat (quantified .universal "x") 64 (.predicate "P" [.var "x", .const "a_1"])
    f.typable = true ∧ f.nesting = maxDepth ∧
      parse f.print = .ok f ∧ parse f.neg.print = .error .tooDeep :=
  ⟨by decide, by decide, (parse_print_exact _ (by decide)).1 (by decide),
    (parse_print_exact _ (by decide)).2 (by decide)⟩

end Formula

end ProofSheet
