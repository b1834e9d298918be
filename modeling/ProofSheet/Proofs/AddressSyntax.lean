/-
# The dotted form of addresses

`Dotted t path` says from the side of the one who types what a text with an address looks like: blanks, then
words with points between them, then blanks, and each word is a number in digits with perhaps a plus sign
before it.  Such texts and no others are read, and they are read as the numbers that the digits denote
(`parse?_eq_some_iff`).

Many texts are read as the same address, because of blanks, plus signs and leading zeros.  One of them is
the printed form.  A printed form is read as the address that was printed or not at all
(`eq_of_parse?_print`), so it is the only printed form among them.
-/
import Mathlib.Data.Nat.Digits.Defs
import ProofSheet.Address
import ProofSheet.Proofs.Attempt
import ProofSheet.Proofs.Cutting

namespace ProofSheet

namespace Address

/-! ## Addresses as they are typed -/

/-- The number that a run of digits denotes, the most significant digit first. -/
def digitsValue (ds : List Char) : Nat :=
  Nat.ofDigits 10 (ds.reverse.map fun d => d.toNat - '0'.toNat)

/-- The word is a position as it can be typed: digits, perhaps after one plus sign. -/
def Spells (w : List Char) (n : Nat) : Prop :=
  ∃ ds, (w = ds ∨ w = '+' :: ds) ∧ ds ≠ [] ∧ (∀ d ∈ ds, '0' ≤ d ∧ d ≤ '9') ∧
    digitsValue ds = n ∧ 1 ≤ n ∧ n ≤ 4294967295

/-- The text is an address as it can be typed: words with points between them and blanks around all. -/
def Dotted (t : String) (path : List Nat) : Prop :=
  ∃ pre words post, t.toList = pre ++ ['.'].intercalate words ++ post ∧ Text.Blanks pre ∧
    Text.Blanks post ∧ words ≠ [] ∧ List.Forall₂ Spells words path

/-! ## Positions -/

variable {c : Char} {ds w : List Char} {n : Nat} {a b : Address}

theorem isDigit_iff : c.isDigit = true ↔ '0' ≤ c ∧ c ≤ '9' :=
  Char.isDigit_iff_toNat

theorem isBlank_of_isDigit (h : c.isDigit = true) : Text.isBlank c = false := by
  have hrange : 48 ≤ c.toNat ∧ c.toNat ≤ 57 := Char.isDigit_iff_toNat.1 h
  simp only [Text.isBlank, Text.blankRanges, List.any_cons, List.any_nil, Bool.or_false,
    Bool.or_eq_false_iff, Bool.and_eq_false_iff, decide_eq_false_iff_not]
  omega

theorem ofDigitChars_eq_digitsValue (ds : List Char) : Nat.ofDigitChars 10 ds 0 = digitsValue ds := by
  induction ds using List.reverseRecOn with
  | nil => rfl
  | append_singleton ds d ih =>
      rw [Nat.ofDigitChars_append, ih, digitsValue, digitsValue, List.reverse_concat, List.map_cons,
        Nat.ofDigits_cons, Nat.ofDigitChars_cons, Nat.ofDigitChars_nil]
      exact Nat.add_comm _ _

theorem ofDecimal?_eq_some : Text.ofDecimal? ds = some n ↔
    ds ≠ [] ∧ (∀ d ∈ ds, '0' ≤ d ∧ d ≤ '9') ∧ digitsValue ds = n := by
  rw [Text.ofDecimal?, Option.ite_none_right_eq_some, Option.some.injEq, ofDigitChars_eq_digitsValue,
    Bool.and_eq_true, List.all_eq_true, and_assoc]
  simp only [Bool.not_eq_true', List.isEmpty_eq_false_iff, isDigit_iff]

theorem dropPlus_of_digits (h : ∀ d ∈ ds, '0' ≤ d ∧ d ≤ '9') : dropPlus ds = ds := by
  unfold dropPlus
  split
  · exact absurd (h '+' List.mem_cons_self) (by decide)
  · rfl

theorem eq_dropPlus_or (w : List Char) : w = dropPlus w ∨ w = '+' :: dropPlus w := by
  unfold dropPlus
  split
  · exact .inr rfl
  · exact .inl rfl

/-- The words that are read as positions, zero apart, are those that spell them. -/
theorem spells_iff : Spells w n ↔ position? w = some n ∧ n ≠ 0 := by
  rw [position?, Option.filter_eq_some_iff, ofDecimal?_eq_some, decide_eq_true_iff, and_assoc]
  constructor
  · rintro ⟨ds, hw, hne, hdigits, hvalue, hpos, hle⟩
    have hds : dropPlus w = ds := by
      rcases hw with rfl | rfl
      · exact dropPlus_of_digits hdigits
      · rfl
    rw [hds]
    exact ⟨⟨hne, hdigits, hvalue⟩, hle, Nat.ne_of_gt hpos⟩
  · rintro ⟨⟨hne, hdigits, hvalue⟩, hle, hzero⟩
    exact ⟨dropPlus w, eq_dropPlus_or w, hne, hdigits, hvalue, Nat.pos_of_ne_zero hzero, hle⟩

theorem Spells.mem (h : Spells w n) (hc : c ∈ w) : c = '+' ∨ c.isDigit = true := by
  obtain ⟨ds, hw, -, hdigits, -⟩ := h
  rcases hw with rfl | rfl
  · exact .inr (isDigit_iff.2 (hdigits c hc))
  · exact (List.mem_cons.1 hc).imp_right fun hc => isDigit_iff.2 (hdigits c hc)

/-- A number spells itself, and nothing else, if it is a position at all. -/
theorem spells_decimal {m : Nat} : Spells (Text.decimal m) n ↔ m = n ∧ 1 ≤ n ∧ n ≤ maxPosition := by
  have hvalue := ofDecimal?_eq_some.1 (Text.ofDecimal?_decimal m)
  rw [spells_iff, position?, dropPlus_of_digits hvalue.2.1, Text.ofDecimal?_decimal,
    Option.filter_eq_some_iff, Option.some.injEq, decide_eq_true_iff, Nat.one_le_iff_ne_zero]
  tauto

/-! ## Reading -/

theorem ofPath?_eq_some {path : List Nat} :
    ofPath? path = some a ↔ a.path = path ∧ path ≠ [] ∧ ∀ n ∈ path, n ≠ 0 := by
  rw [ofPath?, Option.ite_none_left_eq_some, Option.some.injEq]
  simp only [Bool.or_eq_true, List.isEmpty_iff, List.contains_iff_mem, not_or]
  constructor
  · rintro ⟨⟨hne, hzero⟩, rfl⟩
    exact ⟨rfl, hne, fun n hn hn0 => hzero (hn0 ▸ hn)⟩
  · rintro ⟨rfl, hne, hpos⟩
    exact ⟨⟨hne, fun hzero => hpos 0 hzero rfl⟩, rfl⟩

theorem forall₂_spells {words : List (List Char)} {path : List Nat} :
    List.Forall₂ Spells words path ↔ words.mapM position? = some path ∧ ∀ n ∈ path, n ≠ 0 := by
  rw [mapM_eq_some]
  constructor
  · intro h
    refine ⟨h.imp fun w n hw => (spells_iff.1 hw).1, fun n hn => ?_⟩
    obtain ⟨w, -, hw⟩ := exists_of_forall₂ h n hn
    exact (spells_iff.1 hw).2
  · rintro ⟨h, hpos⟩
    induction h with
    | nil => exact .nil
    | cons hw _ ih =>
        obtain ⟨hn, hpath⟩ := List.forall_mem_cons.1 hpos
        exact .cons (spells_iff.2 ⟨hw, hn⟩) (ih hpath)

/-- Reading trims the text and cuts it at the points, and every part has to spell a position. -/
theorem parse?_eq_some {t : String} : parse? t = some a ↔
    List.Forall₂ Spells (Text.fields '.' (Text.trim t.toList)) a.path := by
  rw [parse?, Option.bind_eq_some_iff, forall₂_spells]
  constructor
  · rintro ⟨path, hread, h⟩
    obtain ⟨rfl, -, hpos⟩ := ofPath?_eq_some.1 h
    exact ⟨hread, hpos⟩
  · rintro ⟨hread, hpos⟩
    refine ⟨a.path, hread, ofPath?_eq_some.2 ⟨rfl, ?_, hpos⟩⟩
    intro hnil
    rw [hnil, mapM_eq_some, List.forall₂_nil_right_iff] at hread
    exact Text.fields_ne_nil _ _ hread

theorem mem_of_mem_words {words : List (List Char)} {path : List Nat}
    (h : List.Forall₂ Spells words path) (hw : w ∈ words) (hc : c ∈ w) :
    c = '+' ∨ c.isDigit = true := by
  obtain ⟨n, -, hn⟩ := exists_of_forall₂ h.flip w hw
  exact Spells.mem hn hc

/-- A text is read as an address exactly if it is that address as it can be typed. -/
theorem parse?_eq_some_iff {t : String} : parse? t = some a ↔ Dotted t a.path := by
  rw [parse?_eq_some]
  constructor
  · intro h
    obtain ⟨pre, post, hpre, hpost, hcut, -⟩ := Text.exists_trim t.toList
    refine ⟨pre, _, post, ?_, hpre, hpost, Text.fields_ne_nil _ _, h⟩
    rwa [Text.intercalate_fields]
  · rintro ⟨pre, words, post, ht, hpre, hpost, hne, h⟩
    have hsolid : ∀ c ∈ ['.'].intercalate words, Text.isBlank c = false := by
      intro c hc
      rcases Text.mem_intercalate hc with rfl | ⟨w, hw, hcw⟩
      · rfl
      · rcases mem_of_mem_words h hw hcw with rfl | hdigit
        · rfl
        · exact isBlank_of_isDigit hdigit
    have hpoints : ∀ w ∈ words, '.' ∉ w := by
      intro w hw hin
      rcases mem_of_mem_words h hw hin with hplus | hdigit
      · cases hplus
      · cases hdigit
    rw [ht, Text.trim_padded hpre hpost (Text.tight_of_solid hsolid), Text.fields_intercalate hne hpoints]
    exact h

theorem typable_of_parse? {t : String} (h : parse? t = some a) : a.Typable := by
  have hspelled := parse?_eq_some.1 h
  constructor
  · intro hnil
    rw [hnil, List.forall₂_nil_right_iff] at hspelled
    exact Text.fields_ne_nil _ _ hspelled
  · intro n hn
    obtain ⟨w, -, ds, -, -, -, -, hbounds⟩ := exists_of_forall₂ hspelled n hn
    exact hbounds

/-! ## Printing -/

theorem notMem_decimal (hc : c.isDigit = false) (n : Nat) : c ∉ Text.decimal n := by
  intro h
  rw [Text.isDigit_of_mem_decimal h] at hc
  cases hc

theorem isBlank_text : ∀ c ∈ a.text, Text.isBlank c = false := by
  intro c hc
  rcases Text.mem_intercalate hc with rfl | ⟨w, hw, hcw⟩
  · rfl
  · obtain ⟨n, -, rfl⟩ := List.mem_map.1 hw
    exact isBlank_of_isDigit (Text.isDigit_of_mem_decimal hcw)

theorem fields_text (h : a.path ≠ []) : Text.fields '.' a.text = a.path.map Text.decimal := by
  refine Text.fields_intercalate ?_ ?_
  · exact fun e => h (List.map_eq_nil_iff.1 e)
  · intro w hw
    obtain ⟨n, -, rfl⟩ := List.mem_map.1 hw
    exact notMem_decimal rfl n

theorem text_eq_nil_iff : a.text = [] ↔ a.path = [] := by
  constructor
  · intro h
    by_contra hne
    have hfields := fields_text hne
    rw [h] at hfields
    have hmem : [] ∈ a.path.map Text.decimal := hfields ▸ List.mem_singleton_self []
    obtain ⟨n, -, hn⟩ := List.mem_map.1 hmem
    exact Text.decimal_ne_nil n hn
  · intro h
    rw [text, h]
    rfl

theorem decimal_injective : Function.Injective Text.decimal := by
  intro m n h
  have hread := congrArg Text.ofDecimal? h
  rw [Text.ofDecimal?_decimal, Text.ofDecimal?_decimal] at hread
  exact Option.some.inj hread

theorem print_injective : Function.Injective print := by
  intro a b h
  have htext : a.text = b.text := String.ofList_injective h
  have hpath : a.path = b.path := by
    by_cases ha : a.path = []
    · rw [ha, text_eq_nil_iff.1 (htext.symm.trans (text_eq_nil_iff.2 ha))]
    · have hb : b.path ≠ [] := fun hb => ha (text_eq_nil_iff.1 (htext.trans (text_eq_nil_iff.2 hb)))
      refine decimal_injective.list_map ?_
      rw [← fields_text ha, ← fields_text hb, htext]
  exact congrArg Address.mk hpath

theorem parse?_print_eq_some : parse? b.print = some a ↔
    b.path ≠ [] ∧ List.Forall₂ (fun m n => m = n ∧ 1 ≤ n ∧ n ≤ maxPosition) b.path a.path := by
  rw [parse?_eq_some, print, String.toList_ofList, Text.trim_eq_self isBlank_text]
  by_cases hb : b.path = []
  · -- nothing is printed, and no text is no word
    have hempty : ¬ List.Forall₂ Spells [[]] a.path := by
      intro h
      obtain ⟨n, -, hn⟩ := exists_of_forall₂ h.flip [] (List.mem_singleton_self [])
      obtain ⟨ds, hw, hne, -⟩ : Spells [] n := hn
      rcases hw with hw | hw
      · exact hne hw.symm
      · cases hw
    rw [text_eq_nil_iff.2 hb]
    exact iff_of_false hempty fun h => h.1 hb
  · rw [fields_text hb, List.forall₂_map_left_iff]
    simp only [spells_decimal, hb, ne_eq, not_false_eq_true, true_and]

theorem eq_of_parse?_print (h : parse? b.print = some a) : b = a := by
  obtain ⟨-, hpath⟩ := parse?_print_eq_some.1 h
  have hsame : List.Forall₂ Eq b.path a.path := hpath.imp fun m n hmn => hmn.1
  rw [List.forall₂_eq_eq_eq] at hsame
  exact congrArg Address.mk hsame

theorem parse?_print (h : a.Typable) : parse? a.print = some a :=
  parse?_print_eq_some.2 ⟨h.1, List.forall₂_same.2 fun n hn => ⟨rfl, h.2 n hn⟩⟩

/-- A text is read as an address exactly if it is words with points between them and blanks around all, each
word spelling its position.  Printing tells addresses apart, and an address can be typed exactly if it is
read back from its printed form.  So of all texts that are read as one address, just one is printed for
an address, namely for this one. -/
theorem dotted_form_exact :
    (∀ (t : String) (path : List Nat), parse? t = some ⟨path⟩ ↔ Dotted t path) ∧
    (∀ a : Address, a.Typable ↔ parse? a.print = some a) ∧
    Function.Injective print ∧
    (∀ (t : String) (a : Address), parse? t = some a →
      parse? a.print = parse? t ∧ ∀ b : Address, parse? b.print = parse? t → b.print = a.print) := by
  refine ⟨?_, ?_, print_injective, ?_⟩
  · intro t path
    exact parse?_eq_some_iff
  · intro a
    exact ⟨parse?_print, typable_of_parse?⟩
  · intro t a h
    rw [h]
    refine ⟨parse?_print (typable_of_parse? h), ?_⟩
    intro b hb
    rw [eq_of_parse?_print hb]

/-- The theorem for a text with a plus sign, leading zeros, the largest position and two kinds of blanks. -/
theorem untidy_address_read :
    Dotted "\t+007.4294967295\u3000" [7, 4294967295] ∧
    parse? "\t+007.4294967295\u3000" = some ⟨[7, 4294967295]⟩ ∧
    print ⟨[7, 4294967295]⟩ = "7.4294967295" ∧
    parse? "7.4294967295" = parse? "\t+007.4294967295\u3000" := by
  have hseven : Spells "+007".toList 7 := spells_iff.2 ⟨by decide +kernel, by decide⟩
  have hlargest : Spells "4294967295".toList 4294967295 :=
    spells_iff.2 ⟨by decide +kernel, by decide⟩
  have htyped : Dotted "\t+007.4294967295\u3000" [7, 4294967295] :=
    ⟨['\t'], _, ['\u3000'], by decide +kernel, List.forall_mem_singleton.2 rfl,
      List.forall_mem_singleton.2 rfl, List.cons_ne_nil _ _, .cons hseven (.cons hlargest .nil)⟩
  obtain ⟨hread, -, -, hprinted⟩ := dotted_form_exact
  have hprint : print ⟨[7, 4294967295]⟩ = "7.4294967295" := by decide +kernel
  have h := (hread _ _).2 htyped
  exact ⟨htyped, h, hprint, hprint ▸ (hprinted _ _ h).1⟩

end Address

end ProofSheet
