/-
# What a formula that was read is like

Whatever text a formula was read from, its names are spelled as names, its arguments are variables or
constants by their names, its quantifiers bind single letters, and no path from the root to a leaf goes
through more negations and quantifiers than there are levels (`WellFormed`).

A text whose shorthand keys have been replaced contains no key, the underscore among them.  So the names of
a formula that was read from it contain no underscore, and neither do they contain any other key; nor do
the symbols of the written form.  Replacing the keys of the written form therefore changes nothing.
-/
import ProofSheet.Formula.Shorthand
import ProofSheet.Proofs.Rereading

namespace ProofSheet

/-! ## Classes of characters and names -/

/-- A letter of the class `[A-Za-z]`. -/
def IsLetter (c : Char) : Prop := ('A' ≤ c ∧ c ≤ 'Z') ∨ ('a' ≤ c ∧ c ≤ 'z')

/-- A name that matches `[A-Za-z_][A-Za-z0-9_]*`. -/
def IsSpelled (n : String) : Prop :=
  ∃ c cs, n.toList = c :: cs ∧ (IsLetter c ∨ c = '_') ∧
    ∀ d ∈ cs, IsLetter d ∨ ('0' ≤ d ∧ d ≤ '9') ∨ d = '_'

def IsSingleLetter (n : String) : Prop := ∃ c, n.toList = [c] ∧ 'a' ≤ c ∧ c ≤ 'z'

theorem inRange_iff {a b c : Char} :
    (decide (c.val ≥ a.val) && decide (c.val ≤ b.val)) = true ↔ a ≤ c ∧ c ≤ b := by
  rw [Bool.and_eq_true, decide_eq_true_iff, decide_eq_true_iff]
  exact Iff.rfl

theorem isLower_iff {c : Char} : c.isLower = true ↔ 'a' ≤ c ∧ c ≤ 'z' := inRange_iff

theorem isAlpha_iff {c : Char} : c.isAlpha = true ↔ IsLetter c := by
  have hupper : c.isUpper = true ↔ 'A' ≤ c ∧ c ≤ 'Z' := decide_eq_true_iff
  show (c.isUpper || c.isLower) = true ↔ _
  rw [Bool.or_eq_true, hupper, isLower_iff]
  exact Iff.rfl

theorem isNameStart_iff {c : Char} : Token.isNameStart c = true ↔ IsLetter c ∨ c = '_' := by
  rw [Token.isNameStart, Bool.or_eq_true, isAlpha_iff, beq_iff_eq]

theorem isNameChar_iff {c : Char} :
    Token.isNameChar c = true ↔ IsLetter c ∨ ('0' ≤ c ∧ c ≤ '9') ∨ c = '_' := by
  have hdigit : c.isDigit = true ↔ '0' ≤ c ∧ c ≤ '9' := inRange_iff
  show ((c.isAlpha || c.isDigit) || c == '_') = true ↔ _
  rw [Bool.or_eq_true, Bool.or_eq_true, isAlpha_iff, hdigit, beq_iff_eq, or_assoc]

theorem isVariableName_iff {n : String} : isVariableName n = true ↔ IsSingleLetter n := by
  unfold isVariableName
  split
  · rename_i c e
    rw [isLower_iff]
    constructor
    · intro h
      exact ⟨c, e, h⟩
    · rintro ⟨d, hd, h⟩
      cases e.symm.trans hd
      exact h
  · rename_i hne
    constructor
    · intro h
      cases h
    · rintro ⟨c, hc, -⟩
      exact absurd hc (hne c)

theorem isSpelled_of_isName {n : String} (h : Token.isName n = true) : IsSpelled n := by
  unfold Token.isName at h
  split at h
  · cases h
  · rename_i c cs e
    rw [Bool.and_eq_true, List.all_eq_true] at h
    exact ⟨c, cs, e, isNameStart_iff.1 h.1, fun d hd => isNameChar_iff.1 (h.2 d hd)⟩

namespace Formula

/-! ## Parts of a formula -/

def names : Formula → List String
  | .predicate n args => n :: args.map Term.name
  | .bottom => []
  | .neg f => f.names
  | .binary _ l r => l.names ++ r.names
  | .quantified _ x f => x :: f.names

def terms : Formula → List Term
  | .predicate _ args => args
  | .bottom => []
  | .neg f => f.terms
  | .binary _ l r => l.terms ++ r.terms
  | .quantified _ _ f => f.terms

/-- The variables that the quantifiers of a formula bind. -/
def boundVariables : Formula → List String
  | .predicate _ _ => []
  | .bottom => []
  | .neg f => f.boundVariables
  | .binary _ l r => l.boundVariables ++ r.boundVariables
  | .quantified _ x f => x :: f.boundVariables

/-- The paths from the root of a formula to a leaf, as lists of the subformulas on the way. -/
def paths : Formula → List (List Formula)
  | .predicate n args => [[.predicate n args]]
  | .bottom => [[.bottom]]
  | .neg f => f.paths.map (.neg f :: ·)
  | .binary c l r => (l.paths ++ r.paths).map (.binary c l r :: ·)
  | .quantified q x f => f.paths.map (.quantified q x f :: ·)

def isDeepening : Formula → Bool
  | .neg _ => true
  | .quantified _ _ _ => true
  | _ => false

/-- What holds of every formula that was read. -/
structure WellFormed (f : Formula) : Prop where
  /-- Every name matches `[A-Za-z_][A-Za-z0-9_]*`. -/
  spelled : ∀ n ∈ f.names, IsSpelled n
  /-- An argument is a variable exactly if its name is one lowercase letter. -/
  classified : ∀ t ∈ f.terms, t.isVar = true ↔ IsSingleLetter t.name
  /-- A bound variable is one lowercase letter. -/
  bound : ∀ x ∈ f.boundVariables, IsSingleLetter x
  /-- No path to a leaf goes through more negations and quantifiers than there are levels. -/
  shallow : ∀ p ∈ f.paths, p.countP isDeepening ≤ 128

/-! ## What is derived -/

theorem Derives.names_mem {l d : Nat} {ts : List Token} {f : Formula} {o : Bool}
    (h : Derives l d ts f o) : ∀ n ∈ f.names, .identifier n ∈ ts := by
  induction h with
  | tighter _ _ ih => exact ih
  | joined _ _ _ ihf ihg =>
      intro n hn
      rcases List.mem_append.1 hn with hn | hn
      · simp [ihf n hn]
      · simp [ihg n hn]
  | negated _ _ ih =>
      intro n hn
      exact List.mem_cons_of_mem _ (ih n hn)
  | quantified _ _ _ ih =>
      intro n hn
      rcases List.mem_cons.1 hn with rfl | hn
      · simp
      · simp [ih n hn]
  | enclosed _ _ ih =>
      intro n hn
      simp [ih n hn]
  | name =>
      intro n hn
      cases List.mem_singleton.1 hn
      simp
  | emptyList =>
      intro n hn
      cases List.mem_singleton.1 hn
      simp
  | @applied d n x xs =>
      intro m hm
      have hargs : ((x :: xs).map Term.ofName).map Term.name = x :: xs := by
        simp [Function.comp_def]
      rw [names, hargs] at hm
      rw [List.map_cons, intersperse_cons]
      rcases List.mem_cons.1 hm with rfl | hm
      · simp
      · rcases List.mem_cons.1 hm with rfl | hm
        · simp
        · simp [hm]
  | bottom =>
      intro n hn
      cases hn

/-- A negation or a quantifier is derived one level deeper, and a connective at the same depth, so the
depth counts the negations and quantifiers above, and parentheses besides. -/
theorem Derives.shallow {l d : Nat} {ts : List Token} {f : Formula} {o : Bool}
    (h : Derives l d ts f o) :
    d ≤ maxDepth → ∀ p ∈ f.paths, d + p.countP isDeepening ≤ maxDepth := by
  induction h with
  | tighter _ _ ih => exact ih
  | joined _ _ _ ihf ihg =>
      intro hd path hpath
      obtain ⟨p, hp, rfl⟩ := List.mem_map.1 hpath
      rw [List.countP_cons_of_neg (by simp [isDeepening])]
      rcases List.mem_append.1 hp with hp | hp
      · exact ihf hd p hp
      · exact ihg hd p hp
  | negated hlt _ ih =>
      intro _ path hpath
      obtain ⟨p, hp, rfl⟩ := List.mem_map.1 hpath
      have hbelow := ih hlt p hp
      rw [List.countP_cons_of_pos rfl]
      omega
  | quantified hlt _ _ ih =>
      intro _ path hpath
      obtain ⟨p, hp, rfl⟩ := List.mem_map.1 hpath
      have hbelow := ih hlt p hp
      rw [List.countP_cons_of_pos rfl]
      omega
  | enclosed hlt _ ih =>
      intro _ p hp
      have hbelow := ih hlt p hp
      omega
  | name | emptyList | applied | bottom =>
      intro hd p hp
      cases List.mem_singleton.1 hp
      exact hd

/-! ## What can be typed -/

theorem typable_of_mem_terms {f : Formula} (hf : f.typable = true) : ∀ t ∈ f.terms, t.typable = true := by
  induction f with
  | predicate n args =>
      rw [typable, Bool.and_eq_true, List.all_eq_true] at hf
      exact hf.2
  | bottom => exact fun t ht => by cases ht
  | neg f ih => exact ih hf
  | binary c l r ihl ihr =>
      rw [typable, Bool.and_eq_true] at hf
      exact List.forall_mem_append.2 ⟨ihl hf.1, ihr hf.2⟩
  | quantified q x f ih =>
      rw [typable, Bool.and_eq_true] at hf
      exact ih hf.2

theorem isVariableName_of_mem_boundVariables {f : Formula} (hf : f.typable = true) :
    ∀ x ∈ f.boundVariables, isVariableName x = true := by
  induction f with
  | predicate n args => exact fun x hx => by cases hx
  | bottom => exact fun x hx => by cases hx
  | neg f ih => exact ih hf
  | binary c l r ihl ihr =>
      rw [typable, Bool.and_eq_true] at hf
      exact List.forall_mem_append.2 ⟨ihl hf.1, ihr hf.2⟩
  | quantified q x f ih =>
      rw [typable, Bool.and_eq_true] at hf
      exact List.forall_mem_cons.2 ⟨hf.1, ih hf.2⟩

theorem isVar_of_typable {t : Term} (h : t.typable = true) : t.isVar = isVariableName t.name := by
  rw [← ofName_of_typable h, Term.isVar_ofName, Term.name_ofName]

theorem mem_scan_of_parse {t : String} {f : Formula} (h : parse t = .ok f) {n : String}
    (hn : n ∈ f.names) : .identifier n ∈ Token.scan t := by
  obtain ⟨o, hder⟩ := ofTokens_eq_ok.1 h
  exact (List.takeWhile_sublist _).subset (hder.names_mem n hn)

theorem wellFormed_of_parse {t : String} {f : Formula} (h : parse t = .ok f) : f.WellFormed := by
  have htypable := typable_of_parse h
  obtain ⟨o, hder⟩ := ofTokens_eq_ok.1 h
  constructor
  · intro n hn
    exact isSpelled_of_isName (Token.isName_of_mem_scan (mem_scan_of_parse h hn))
  · intro a ha
    rw [isVar_of_typable (typable_of_mem_terms htypable a ha), isVariableName_iff]
  · intro x hx
    exact isVariableName_iff.1 (isVariableName_of_mem_boundVariables htypable x hx)
  · intro p hp
    have hcount := hder.shallow (Nat.zero_le _) p hp
    rwa [Nat.zero_add] at hcount

end Formula

/-! ## Texts without keys -/

theorem Token.isNameChar_of_mem {n : String} {c : Char} (h : isName n = true) (hc : c ∈ n.toList) :
    isNameChar c = true := by
  unfold isName at h
  split at h
  · cases h
  · rename_i d ds e
    rw [Bool.and_eq_true, List.all_eq_true] at h
    rw [e] at hc
    rcases List.mem_cons.1 hc with rfl | hc
    · exact isNameChar_of_isNameStart h.1
    · exact h.2 c hc

theorem Token.mem_of_mem_scanFrom {n : String} {c : Char} (hc : c ∈ n.toList) (cs : List Char) :
    ∀ {name : List Char}, identifier n ∈ scanFrom name cs → c ∈ name ∨ c ∈ cs := by
  have hclosed : ∀ {name : List Char}, identifier n ∈ close name → c ∈ name := by
    intro name h
    cases name with
    | nil => cases h
    | cons d name =>
        cases List.mem_singleton.1 h
        rwa [String.toList_ofList, List.mem_reverse] at hc
  induction cs with
  | nil =>
      intro name h
      rcases List.mem_append.1 h with h | h
      · exact .inl (hclosed h)
      · cases List.mem_singleton.1 h
  | cons d cs ih =>
      intro name h
      rw [scanFrom] at h
      split at h
      · rcases ih h with hname | hcs
        · rcases List.mem_cons.1 hname with rfl | hname
          · exact .inr List.mem_cons_self
          · exact .inl hname
        · exact .inr (List.mem_cons_of_mem _ hcs)
      · rcases List.mem_append.1 h with h | h
        · rcases List.mem_append.1 h with h | h
          · exact .inl (hclosed h)
          -- a single character gives a symbol and never an identifier
          · have hsymbol := mem_symbols_of_ofChar? (Option.mem_toList.1 h)
            simp [symbols] at hsymbol
        · rcases ih h with hname | hcs
          · cases hname
          · exact .inr (List.mem_cons_of_mem _ hcs)

theorem Token.mem_of_mem_scan {s n : String} {c : Char} (h : identifier n ∈ scan s)
    (hc : c ∈ n.toList) : c ∈ s.toList :=
  (mem_of_mem_scanFrom hc s.toList h).resolve_left List.not_mem_nil

namespace Shorthand

/-- The underscore is a key, so no expansion leaves one: a second expansion would replace it. -/
theorem expandChar_ne_underscore (c : Char) : expandChar c ≠ '_' := by
  intro h
  have hagain := expandChar_expandChar c
  rw [h] at hagain
  exact absurd hagain (by decide)

theorem underscore_notMem_expand (s : String) : '_' ∉ (expand s).toList := by
  rw [expand, String.toList_ofList, List.mem_map]
  rintro ⟨c, -, h⟩
  exact expandChar_ne_underscore c h

theorem expandChar_eq_self {c : Char} (h : ∀ p ∈ table, p.1 ≠ c) : expandChar c = c := by
  cases hs : symbolFor? c with
  | none => rw [expandChar, hs, Option.getD_none]
  | some d => exact absurd rfl (h _ (symbolFor?_eq_some hs))

/-- Of the characters of names, only the underscore is a key. -/
theorem expandChar_of_isNameChar {c : Char} (h : Token.isNameChar c = true) (hne : c ≠ '_') :
    expandChar c = c := by
  have hkeys : ∀ p ∈ table, Token.isNameChar p.1 = true → p.1 = '_' := by decide
  refine expandChar_eq_self ?_
  rintro p hp rfl
  exact hne (hkeys p hp h)

theorem expand_eq_self {s : String} (h : ∀ c ∈ s.toList, expandChar c = c) : expand s = s := by
  rw [expand, List.map_congr_left h, List.map_id', String.ofList_toList]

end Shorthand

/-! ## The written form -/

namespace Formula

/-- The characters of the written form that belong to no name. -/
def marks : List Char := ['(', ')', ',', ' ', '¬', '⊥', '∧', '∨', '→', '↔', '∀', '∃']

/-- A character of the written form is a mark, or belongs to a name. -/
def Written (ns : List String) (c : Char) : Prop := c ∈ marks ∨ ∃ n ∈ ns, c ∈ n.toList

theorem Written.mono {ms ns : List String} {c : Char} (h : Written ms c) (hs : ∀ n ∈ ms, n ∈ ns) :
    Written ns c :=
  h.imp_right fun ⟨n, hn, hc⟩ => ⟨n, hs n hn, hc⟩

theorem mem_writeTerms {c : Char} (ts : List Term) {rest : List Char} (h : c ∈ writeTerms ts rest) :
    Written (ts.map Term.name) c ∨ c ∈ rest := by
  induction ts with
  | nil => exact .inr h
  | cons t ts ih =>
      rw [writeTerms, List.mem_cons, List.mem_cons, List.mem_append] at h
      rcases h with rfl | rfl | h | h
      · exact .inl (.inl (by decide))
      · exact .inl (.inl (by decide))
      · exact .inl (.inr ⟨t.name, List.mem_cons_self, h⟩)
      · exact (ih h).imp_left fun hw => hw.mono fun n hn => List.mem_cons_of_mem _ hn

theorem mem_writeArgs {c : Char} (ts : List Term) {rest : List Char} (h : c ∈ writeArgs ts rest) :
    Written (ts.map Term.name) c ∨ c ∈ rest := by
  cases ts with
  | nil => exact .inr h
  | cons t ts =>
      rw [writeArgs, List.mem_cons, List.mem_append] at h
      rcases h with rfl | h | h
      · exact .inl (.inl (by decide))
      · exact .inl (.inr ⟨t.name, List.mem_cons_self, h⟩)
      · rcases mem_writeTerms ts h with hw | h
        · exact .inl (hw.mono fun n hn => List.mem_cons_of_mem _ hn)
        · rcases List.mem_cons.1 h with rfl | h
          · exact .inl (.inl (by decide))
          · exact .inr h

theorem mem_write {c : Char} (f : Formula) :
    ∀ {rest : List Char}, c ∈ f.write rest → Written f.names c ∨ c ∈ rest := by
  have hmark : ∀ {ns : List String}, c ∈ marks → Written ns c := fun h => .inl h
  induction f with
  | predicate n args =>
      intro rest h
      rcases List.mem_append.1 h with h | h
      · exact .inl (.inr ⟨n, List.mem_cons_self, h⟩)
      · exact (mem_writeArgs args h).imp_left fun hw => hw.mono fun m hm => List.mem_cons_of_mem _ hm
  | bottom =>
      intro rest h
      rcases List.mem_cons.1 h with rfl | h
      · exact .inl (hmark (by decide))
      · exact .inr h
  | neg f ih =>
      intro rest h
      rcases List.mem_cons.1 h with rfl | h
      · exact .inl (hmark (by decide))
      · exact ih h
  | binary con l r ihl ihr =>
      intro rest h
      have hcon : con.symbol ∈ marks := by cases con <;> decide
      rw [write, List.mem_cons] at h
      rcases h with rfl | h
      · exact .inl (hmark (by decide))
      rcases ihl h with hw | h
      · exact .inl (hw.mono fun n hn => List.mem_append_left _ hn)
      rw [List.mem_cons, List.mem_cons, List.mem_cons] at h
      rcases h with rfl | rfl | rfl | h
      · exact .inl (hmark (by decide))
      · exact .inl (hmark hcon)
      · exact .inl (hmark (by decide))
      rcases ihr h with hw | h
      · exact .inl (hw.mono fun n hn => List.mem_append_right _ hn)
      rcases List.mem_cons.1 h with rfl | h
      · exact .inl (hmark (by decide))
      · exact .inr h
  | quantified q x f ih =>
      intro rest h
      have hq : q.symbol ∈ marks := by cases q <;> decide
      rw [write, List.mem_cons, List.mem_cons, List.mem_append, List.mem_cons] at h
      rcases h with rfl | rfl | h | rfl | h
      · exact .inl (hmark (by decide))
      · exact .inl (hmark hq)
      · exact .inl (.inr ⟨x, List.mem_cons_self, h⟩)
      · exact .inl (hmark (by decide))
      rcases ih h with hw | h
      · exact .inl (hw.mono fun n hn => List.mem_cons_of_mem _ hn)
      rcases List.mem_cons.1 h with rfl | h
      · exact .inl (hmark (by decide))
      · exact .inr h

/-- The written form contains no key if the names are without underscores. -/
theorem expand_print {f : Formula} (hnames : ∀ n ∈ f.names, Token.isName n = true)
    (hbar : ∀ n ∈ f.names, '_' ∉ n.toList) : Shorthand.expand f.print = f.print := by
  refine Shorthand.expand_eq_self fun c hc => ?_
  rw [print, String.toList_ofList] at hc
  rcases (mem_write f hc).resolve_right List.not_mem_nil with hmark | ⟨n, hn, hc⟩
  · have hkeys : ∀ p ∈ Shorthand.table, p.1 ∉ marks := by decide
    refine Shorthand.expandChar_eq_self ?_
    rintro p hp rfl
    exact hkeys p hp hmark
  · refine Shorthand.expandChar_of_isNameChar (Token.isNameChar_of_mem (hnames n hn) hc) ?_
    rintro rfl
    exact hbar n hn hc

/-- Every formula that a text was read as is well formed.  If the keys of the text had been replaced, then
its names are without underscores, and replacing the keys of its written form changes nothing. -/
theorem read_formulas_well_formed {t : String} {f : Formula} (h : parse t = .ok f) :
    f.WellFormed ∧
    ∀ raw, t = Shorthand.expand raw →
      (∀ n ∈ f.names, '_' ∉ n.toList) ∧ Shorthand.expand f.print = f.print := by
  refine ⟨wellFormed_of_parse h, ?_⟩
  rintro raw rfl
  have hbar : ∀ n ∈ f.names, '_' ∉ n.toList := fun n hn hmem =>
    Shorthand.underscore_notMem_expand raw (Token.mem_of_mem_scan (mem_scan_of_parse h hn) hmem)
  exact ⟨hbar, expand_print (fun n hn => Token.isName_of_mem_scan (mem_scan_of_parse h hn)) hbar⟩

/-- As many quantifiers as there are levels; and a text with keys, one of them inside a name, which it
cuts short. -/
theorem typed_formulas_well_formed :
    parse (typedRow 128) = .ok (row 128) ∧ (row 128).WellFormed ∧
    ∃ f, parse (Shorthand.expand "@x ~Loves(x, bob_2) $ ^") = .ok f ∧ f.WellFormed ∧
      (∀ n ∈ f.names, '_' ∉ n.toList) ∧ Shorthand.expand f.print = f.print := by
  have hrow := parse_typedRow (n := 128) (by decide)
  have hkeys : (parse (Shorthand.expand "@x ~Loves(x, bob_2) $ ^")).toBool = true := by decide +kernel
  obtain ⟨f, hf⟩ := exists_of_toBool hkeys
  exact ⟨hrow, (read_formulas_well_formed hrow).1, f, hf, (read_formulas_well_formed hf).1,
    (read_formulas_well_formed hf).2 _ rfl⟩

end Formula

end ProofSheet
