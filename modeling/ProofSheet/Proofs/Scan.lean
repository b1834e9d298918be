/-
# Scanning

The scanner walks a text once and keeps the identifier it is inside of.  A few facts are all that the
rest of the library needs of it: the mark `eof` stands at the end of a scan and nowhere else
(`scan_eq_append`); no stray symbol is ever scanned (`stray_notMem_scan`); the identifiers of a scan
are names (`isName_of_mem_scan`); an identifier ends where its characters end (`scanFrom_name`); and a
character outside an identifier that begins none is scanned on its own (`scanFrom_char`).
-/
import ProofSheet.Formula.Token

namespace ProofSheet

namespace Token

/-- A name that is scanned as one identifier: a letter or an underscore, then letters, digits and
underscores. -/
def isName (name : String) : Bool :=
  match name.toList with
  | [] => false
  | c :: cs => isNameStart c && cs.all isNameChar

def Separates (cs : List Char) : Prop := ∀ c ∈ cs.head?, isNameChar c = false

theorem separates_nil : Separates [] := by
  intro c hc
  cases hc

theorem separates_cons {c : Char} {cs : List Char} (h : isNameChar c = false) :
    Separates (c :: cs) := by
  intro d hd
  cases hd
  exact h

theorem isNameChar_of_isNameStart {c : Char} (h : isNameStart c = true) : isNameChar c = true := by
  simp only [isNameStart, isNameChar, Char.isAlphanum, Bool.or_eq_true] at h ⊢
  rcases h with h | h
  · exact .inl (.inl h)
  · exact .inr h

theorem isNameStart_eq_false {c : Char} (h : isNameChar c = false) : isNameStart c = false := by
  cases hs : isNameStart c with
  | false => rfl
  | true => rw [isNameChar_of_isNameStart hs] at h; cases h

theorem isNameChar_of_ofChar? {c : Char} {t : Token} (h : ofChar? c = some t) :
    isNameChar c = false := by
  unfold ofChar? at h
  split at h
  case h_12 => cases h
  all_goals rfl

/-! ## The end of a scan -/

theorem eof_notMem_close (name : List Char) : eof ∉ close name := by
  cases name with
  | nil => exact List.not_mem_nil
  | cons c name =>
      intro h
      cases List.mem_singleton.1 h

/-- A character on its own makes up the falsum or a symbol. -/
theorem mem_symbols_of_ofChar? {c : Char} {t : Token} (h : ofChar? c = some t) :
    t ∈ bottom :: symbols := by
  unfold ofChar? at h
  split at h
  case h_12 => cases h
  all_goals
    cases h
    decide

theorem ofChar?_ne_eof (c : Char) : ofChar? c ≠ some eof := by
  intro h
  exact absurd (mem_symbols_of_ofChar? h) (by decide)

theorem scanFrom_eq_append (name cs : List Char) :
    ∃ ts, scanFrom name cs = ts ++ [eof] ∧ eof ∉ ts := by
  induction cs generalizing name with
  | nil => exact ⟨close name, rfl, eof_notMem_close name⟩
  | cons c cs ih =>
      by_cases h : continues name c = true
      · obtain ⟨ts, e, hts⟩ := ih (c :: name)
        exact ⟨ts, by rw [scanFrom, if_pos h, e], hts⟩
      · obtain ⟨ts, e, hts⟩ := ih []
        refine ⟨close name ++ (ofChar? c).toList ++ ts, ?_, ?_⟩
        · rw [scanFrom, if_neg h, e, List.append_assoc (close name ++ _)]
        · simp only [List.mem_append, not_or]
          refine ⟨⟨eof_notMem_close name, ?_⟩, hts⟩
          intro hc
          exact ofChar?_ne_eof c (Option.mem_toList.1 hc)

/-- A scan ends with the mark `eof`, which stands nowhere else. -/
theorem scan_eq_append (s : String) : ∃ ts, scan s = ts ++ [eof] ∧ eof ∉ ts :=
  scanFrom_eq_append [] s.toList

/-- A symbol that formulas are not written with is dropped, and never scanned as a stray one. -/
theorem stray_notMem_scanFrom (d : Char) (cs : List Char) :
    ∀ name : List Char, stray d ∉ scanFrom name cs := by
  have hclose : ∀ name : List Char, stray d ∉ close name := by
    intro name h
    cases name with
    | nil => cases h
    | cons c name => cases List.mem_singleton.1 h
  induction cs with
  | nil =>
      intro name h
      rcases List.mem_append.1 h with h | h
      · exact hclose name h
      · cases List.mem_singleton.1 h
  | cons c cs ih =>
      intro name h
      rw [scanFrom] at h
      split at h
      · exact ih (c :: name) h
      · rcases List.mem_append.1 h with h | h
        · rcases List.mem_append.1 h with h | h
          · exact hclose name h
          · have hsymbol := mem_symbols_of_ofChar? (Option.mem_toList.1 h)
            simp [symbols] at hsymbol
        · exact ih [] h

theorem stray_notMem_scan (d : Char) (s : String) : stray d ∉ scan s :=
  stray_notMem_scanFrom d s.toList []

/-! ## The names of a scan

The open identifier is a name as soon as it has a character, and every further character keeps it
one. -/

theorem isName_ofList {c : Char} {cs : List Char} :
    isName (String.ofList (c :: cs)) = (isNameStart c && cs.all isNameChar) := by
  rw [isName, String.toList_ofList]

theorem isName_continued {name : List Char} {c : Char} (hc : continues name c = true)
    (hname : name ≠ [] → isName (String.ofList name.reverse) = true) :
    isName (String.ofList (c :: name).reverse) = true := by
  cases name with
  | nil =>
      have hstart : isNameStart c = true := hc
      rw [List.reverse_singleton, isName_ofList, hstart]
      rfl
  | cons d name =>
      have hchar : isNameChar c = true := hc
      obtain ⟨e, es, he⟩ : ∃ e es, (d :: name).reverse = e :: es :=
        List.exists_cons_of_ne_nil (by simp)
      have hopen := hname (List.cons_ne_nil d name)
      rw [he, isName_ofList, Bool.and_eq_true] at hopen
      rw [List.reverse_cons, he, List.cons_append, isName_ofList, List.all_append, hopen.1, hopen.2,
        List.all_cons, hchar]
      rfl

theorem isName_of_mem_scanFrom {n : String} (cs : List Char) :
    ∀ {name : List Char}, (name ≠ [] → isName (String.ofList name.reverse) = true) →
      identifier n ∈ scanFrom name cs → isName n = true := by
  have hclosed : ∀ {name : List Char}, (name ≠ [] → isName (String.ofList name.reverse) = true) →
      identifier n ∈ close name → isName n = true := by
    intro name hname h
    cases name with
    | nil => cases h
    | cons c name =>
        cases List.mem_singleton.1 h
        exact hname (List.cons_ne_nil c name)
  induction cs with
  | nil =>
      intro name hname h
      rcases List.mem_append.1 h with h | h
      · exact hclosed hname h
      · cases List.mem_singleton.1 h
  | cons c cs ih =>
      intro name hname h
      rw [scanFrom] at h
      split at h
      · rename_i hc
        exact ih (fun _ => isName_continued hc hname) h
      · rcases List.mem_append.1 h with h | h
        · rcases List.mem_append.1 h with h | h
          · exact hclosed hname h
          · have hsymbol := mem_symbols_of_ofChar? (Option.mem_toList.1 h)
            simp [symbols] at hsymbol
        · exact ih (fun hne => absurd rfl hne) h

theorem isName_of_mem_scan {s n : String} (h : identifier n ∈ scan s) : isName n = true :=
  isName_of_mem_scanFrom s.toList (fun hne => absurd rfl hne) h

/-! ## One token at a time -/

theorem scanFrom_append {cs : List Char} (h : cs.all isNameChar = true) :
    ∀ (c : Char) (name rest : List Char),
      scanFrom (c :: name) (cs ++ rest) = scanFrom (cs.reverse ++ c :: name) rest := by
  induction cs with
  | nil => intro c name rest; rfl
  | cons d cs ih =>
      intro c name rest
      rw [List.all_cons, Bool.and_eq_true] at h
      have hd : continues (c :: name) d = true := h.1
      rw [List.cons_append, scanFrom, if_pos hd, ih h.2]
      simp

theorem scanFrom_close {rest : List Char} (h : Separates rest) (c : Char) (name : List Char) :
    scanFrom (c :: name) rest = close (c :: name) ++ scanFrom [] rest := by
  cases rest with
  | nil => rfl
  | cons d rest =>
      have hd : isNameChar d = false := h d rfl
      have hstart := isNameStart_eq_false hd
      simp [scanFrom, continues, close, hd, hstart]

/-- A name in front of anything that cannot continue it is scanned as one identifier. -/
theorem scanFrom_name {n : String} {rest : List Char} (hn : isName n = true)
    (hr : Separates rest) : scanFrom [] (n.toList ++ rest) = identifier n :: scanFrom [] rest := by
  unfold isName at hn
  split at hn
  · cases hn
  · rename_i c cs e
    rw [Bool.and_eq_true] at hn
    have hc : continues [] c = true := hn.1
    rw [e, List.cons_append, scanFrom, if_pos hc, scanFrom_append hn.2]
    obtain ⟨d, ds, hd⟩ : ∃ d ds, cs.reverse ++ [c] = d :: ds :=
      List.exists_cons_of_ne_nil (by simp)
    rw [hd, scanFrom_close hr, ← hd]
    have hname : String.ofList (cs.reverse ++ [c]).reverse = n := by
      rw [List.reverse_append, List.reverse_reverse, List.reverse_singleton, List.singleton_append,
        ← e, String.ofList_toList]
    rw [close, hname]
    · rfl
    · simp

/-- Outside an identifier, a character that begins none is scanned on its own. -/
theorem scanFrom_char {c : Char} (h : isNameStart c = false) (rest : List Char) :
    scanFrom [] (c :: rest) = (ofChar? c).toList ++ scanFrom [] rest := by
  have hc : continues [] c = false := h
  simp [scanFrom, hc, close]

theorem scanFrom_symbol {c : Char} {t : Token} (h : ofChar? c = some t) (rest : List Char) :
    scanFrom [] (c :: rest) = t :: scanFrom [] rest := by
  rw [scanFrom_char (isNameStart_eq_false (isNameChar_of_ofChar? h)), h]
  rfl

end Token

end ProofSheet
