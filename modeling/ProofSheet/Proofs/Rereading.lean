/-
# Reading a formula again

Whatever text a field holds, if it holds a formula then its names can be typed, because they were
(`typable_of_parse`).  So the written form of the formula can be scanned, and the only thing that can
go wrong when it is read is its nesting.

That does go wrong.  The limit is on the levels of what is typed, and the written form has parentheses
that need not have been typed: a row of quantifiers or a chain of connectives opens more levels when it
is written than when it was typed.
-/
import ProofSheet.Formula.Reading
import ProofSheet.Proofs.RoundTrip

namespace ProofSheet

/-! ## What is read can be typed -/

theorem Term.typable_ofName {n : String} (h : Token.isName n = true) :
    (Term.ofName n).typable = true := by
  rw [ofName]
  split
  · rename_i hv
    exact hv
  · rename_i hv
    rw [typable, h, Bool.eq_false_iff.2 hv]
    rfl

namespace Formula

theorem Derives.typable {l d : Nat} {ts : List Token} {f : Formula} {o : Bool}
    (h : Derives l d ts f o) :
    (∀ n, .identifier n ∈ ts → Token.isName n = true) → f.typable = true := by
  induction h with
  | tighter _ _ ih => exact ih
  | joined _ _ _ ihf ihg =>
      intro hn
      rw [Formula.typable, ihf fun n hm => hn n (by simp [hm]), ihg fun n hm => hn n (by simp [hm])]
      rfl
  | negated _ _ ih =>
      intro hn
      exact ih fun n hm => hn n (List.mem_cons_of_mem _ hm)
  | quantified _ hx _ ih =>
      intro hn
      rw [Formula.typable, hx, ih fun n hm => hn n (by simp [hm])]
      rfl
  | enclosed _ _ ih =>
      intro hn
      exact ih fun n hm => hn n (by simp [hm])
  | name =>
      intro hn
      rw [Formula.typable, hn _ (List.mem_singleton.2 rfl)]
      rfl
  | emptyList =>
      intro hn
      rw [Formula.typable, hn _ List.mem_cons_self]
      rfl
  | @applied d n x xs =>
      intro hn
      have hargs : ∀ y ∈ x :: xs, Token.isName y = true := by
        intro y hy
        refine hn y ?_
        rw [List.map_cons, intersperse_cons]
        rcases List.mem_cons.1 hy with rfl | hy
        · simp
        · simp [hy]
      rw [Formula.typable, hn n List.mem_cons_self, Bool.true_and, List.all_map, List.all_eq_true]
      exact fun y hy => Term.typable_ofName (hargs y hy)
  | bottom => exact fun _ => rfl

theorem typable_of_parse {s : String} {f : Formula} (h : parse s = .ok f) : f.typable = true := by
  obtain ⟨o, hf⟩ := ofTokens_eq_ok.1 h
  refine hf.typable fun n hn => ?_
  exact Token.isName_of_mem_scan ((List.takeWhile_sublist _).subset hn)

end Formula

/-! ## Blank fields -/

namespace Token

theorem toNat_of_isNameChar {c : Char} (h : isNameChar c = true) :
    48 ≤ c.toNat ∧ c.toNat ≤ 122 := by
  -- letters, digits and the underscore, by their code points
  have hclasses : (((decide (65 ≤ c.val ∧ c.val ≤ 90) ||
      decide (97 ≤ c.val) && decide (c.val ≤ 122)) ||
      decide (48 ≤ c.val) && decide (c.val ≤ 57)) || c == '_') = true := h
  simp only [Bool.or_eq_true, Bool.and_eq_true, decide_eq_true_eq, beq_iff_eq,
    UInt32.le_iff_toNat_le] at hclasses
  have hranges : ((65 ≤ c.toNat ∧ c.toNat ≤ 90 ∨ 97 ≤ c.toNat ∧ c.toNat ≤ 122) ∨
      48 ≤ c.toNat ∧ c.toNat ≤ 57) ∨ c = '_' := hclasses
  rcases hranges with hranges | rfl
  · omega
  · decide

theorem isNameChar_of_isBlank {c : Char} (h : Text.isBlank c = true) : isNameChar c = false := by
  cases hc : isNameChar c with
  | false => rfl
  | true =>
      obtain ⟨hlo, hhi⟩ := toNat_of_isNameChar hc
      simp only [Text.isBlank, Text.blankRanges, List.any_cons, List.any_nil, Bool.or_false,
        Bool.or_eq_true, Bool.and_eq_true, decide_eq_true_eq] at h
      omega

theorem ofChar?_of_isBlank {c : Char} (h : Text.isBlank c = true) : ofChar? c = none := by
  unfold ofChar?
  split
  case h_12 => rfl
  all_goals cases h

theorem scanFrom_blank_append {cs : List Char} (h : cs.all Text.isBlank = true) (rest : List Char) :
    scanFrom [] (cs ++ rest) = scanFrom [] rest := by
  induction cs with
  | nil => rfl
  | cons c cs ih =>
      rw [List.all_cons, Bool.and_eq_true] at h
      have hstart : isNameStart c = false := isNameStart_eq_false (isNameChar_of_isBlank h.1)
      rw [List.cons_append, scanFrom_char hstart, ofChar?_of_isBlank h.1, ih h.2]
      rfl

theorem scanFrom_of_blank {cs : List Char} (h : cs.all Text.isBlank = true) :
    scanFrom [] cs = [eof] := by
  rw [← List.append_nil cs, scanFrom_blank_append h]
  rfl

end Token

namespace Reading

/-- A text that is read to a formula, or to a mistake, is not blank. -/
theorem not_blank_of_parse {s : String} (h : Formula.parse s ≠ .error .unexpectedEnd) :
    ¬ s.toList.all Text.isBlank = true := by
  intro hblank
  rw [Formula.parse, Token.scan, Token.scanFrom_of_blank hblank] at h
  exact h rfl

theorem ofText_eq_formula {s : String} {f : Formula} :
    ofText s = .formula f ↔ Formula.parse s = .ok f := by
  constructor
  · intro h
    rw [ofText] at h
    split at h
    · cases h
    · split at h
      · rename_i hparse
        cases h
        exact hparse
      · split at h <;> cases h
  · intro h
    have hsome : ¬ s.toList.all Text.isBlank = true := not_blank_of_parse (by simp [h])
    rw [ofText, if_neg hsome, h]

theorem ofText_of_mistake {s : String} {e : ParseError} (h : Formula.parse s = .error e)
    (he : e ≠ .unexpectedEnd) : ofText s = .wrong e.message := by
  have hsome : ¬ s.toList.all Text.isBlank = true := not_blank_of_parse (by simp [h, he])
  have hcomplete : e.isIncomplete = false := by
    cases e with
    | unexpectedEnd => exact absurd rfl he
    | _ => rfl
  simp only [ofText, if_neg hsome, h, hcomplete, Bool.false_eq_true, if_false]

theorem ofText_print {f : Formula} (hf : f.typable = true) :
    ofText f.print =
      if f.nesting ≤ Formula.maxDepth then .formula f else .wrong ParseError.tooDeep.message := by
  have hparse := Formula.parse_print hf
  split
  · rename_i hdepth
    rw [if_pos hdepth] at hparse
    exact ofText_eq_formula.2 hparse
  · rename_i hdepth
    rw [if_neg hdepth] at hparse
    exact ofText_of_mistake hparse (by simp)

/-- A formula that any text was read as is read again from its written form, if that is nested within
the limit; if not, it is a mistake, and the nesting is what is wrong with it. -/
theorem ofText_print_exact {t : String} {f : Formula} (h : ofText t = .formula f) :
    (f.nesting ≤ Formula.maxDepth → ofText f.print = .formula f) ∧
    (Formula.maxDepth < f.nesting → ofText f.print = .wrong "Formula is nested too deeply") := by
  rw [ofText_print (Formula.typable_of_parse (ofText_eq_formula.1 h))]
  constructor
  · intro hdepth
    exact if_pos hdepth
  · intro hdepth
    exact if_neg (Nat.not_le_of_lt hdepth)

end Reading

/-! ## Rows of quantifiers

A quantifier that is typed opens one level, and written it opens two. -/

namespace Formula

/-- A row of quantifiers in front of a predicate. -/
def row (n : Nat) : Formula := Nat.repeat (.quantified .universal "x") n (.atom "P")

/-- A row of quantifiers as it can be typed, without parentheses. -/
def typedRow (n : Nat) : String := String.ofList (Nat.repeat ("∀x ".toList ++ ·) n "P".toList)

theorem nesting_row (n : Nat) : (row n).nesting = 2 * n := by
  induction n with
  | zero => rfl
  | succ n ih =>
      have hstep : (row (n + 1)).nesting = 2 + (row n).nesting := rfl
      rw [hstep, ih]
      omega

theorem derives_row (n : Nat) : ∀ {d : Nat}, d + n ≤ maxDepth → ∃ ts o,
    Token.scanFrom [] (Nat.repeat ("∀x ".toList ++ ·) n "P".toList) = ts ++ [.eof] ∧
      Derives operandLevel d ts (row n) o := by
  induction n with
  | zero =>
      intro d _
      exact ⟨[.identifier "P"], false, rfl, .name⟩
  | succ n ih =>
      intro d hd
      obtain ⟨ts, o, hscan, hder⟩ := ih (d := d + 1) (by omega)
      refine ⟨.quantifier .universal :: .identifier "x" :: ts, true, ?_,
        .quantified (by omega) rfl hder.loosest⟩
      rw [List.cons_append, List.cons_append, ← hscan]
      rfl

/-- As many quantifiers can be typed in a row as there are levels. -/
theorem parse_typedRow {n : Nat} (h : n ≤ maxDepth) : parse (typedRow n) = .ok (row n) := by
  obtain ⟨ts, o, hscan, hder⟩ := derives_row n (d := 0) (by omega)
  rw [parse, Token.scan, typedRow, String.toList_ofList, hscan]
  refine ofTokens_eq_ok.2 ⟨o, ?_⟩
  rw [takeWhile_of_current hder.noEof rfl]
  exact hder.loosest

end Formula

namespace Reading

theorem ofText_typedRow {n : Nat} (h : n ≤ Formula.maxDepth) :
    ofText (Formula.typedRow n) = .formula (Formula.row n) :=
  ofText_eq_formula.2 (Formula.parse_typedRow h)

/-- Sixty-four quantifiers in a row are read again, sixty-five are not. -/
theorem row_again_at_limit :
    ofText (Formula.typedRow 64) = .formula (Formula.row 64) ∧
    ofText (Formula.row 64).print = .formula (Formula.row 64) ∧
    ofText (Formula.typedRow 65) = .formula (Formula.row 65) ∧
    ofText (Formula.row 65).print = .wrong "Formula is nested too deeply" := by
  have hwithin := ofText_typedRow (n := 64) (by decide)
  have hbeyond := ofText_typedRow (n := 65) (by decide)
  refine ⟨hwithin, (ofText_print_exact hwithin).1 ?_, hbeyond, (ofText_print_exact hbeyond).2 ?_⟩
  · rw [Formula.nesting_row]
    decide
  · rw [Formula.nesting_row]
    decide

/-- Not every formula that a text was read as is read again from its written form. -/
theorem not_all_read_again :
    ¬ ∀ (t : String) (f : Formula), ofText t = .formula f → ofText f.print = .formula f := by
  intro hall
  have htyped := ofText_typedRow (n := 65) (by decide)
  have hagain := hall _ _ htyped
  rw [ofText_print (Formula.typable_of_parse (ofText_eq_formula.1 htyped)), Formula.nesting_row,
    if_neg (by decide)] at hagain
  cases hagain

end Reading

end ProofSheet
