/-
# Spacing a text anew

How a text is spaced does not matter, as long as its names are kept apart.  A text with blanks in the middle
is scanned in two parts (`scan_append_blanks`), and the tokens of a text, typed one after the other with a
blank between them, are scanned as the same tokens (`scan_joined`).

What the blanks are needed for shows where the tokens stand.  `LaidOut ts cs` says that the text `cs` has the
tokens `ts` at places of their own, and it is the same as to say that `cs` is scanned as `ts`
(`scan_eq_iff`).  In particular a name takes all the characters that it can (`exists_of_name`), so that two
names with nothing between them would have been one.
-/
import ProofSheet.Proofs.Completion
import ProofSheet.Proofs.Cutting
import ProofSheet.Proofs.WellFormed

namespace ProofSheet

namespace Token

/-! ## Where the tokens stand -/

/-- `LaidOut ts cs`: the tokens `ts` stand in the text `cs`, in their order, and the other characters belong
to no token.  A name stands where nothing continues it. -/
inductive LaidOut : List Token → List Char → Prop
  | nil : LaidOut [] []
  | dropped {c : Char} {ts : List Token} {cs : List Char} : isNameStart c = false → ofChar? c = none →
      LaidOut ts cs → LaidOut ts (c :: cs)
  | symbol {c : Char} {t : Token} {ts : List Token} {cs : List Char} : ofChar? c = some t →
      LaidOut ts cs → LaidOut (t :: ts) (c :: cs)
  | name {n : String} {ts : List Token} {cs : List Char} : isName n = true → Separates cs →
      LaidOut ts cs → LaidOut (.identifier n :: ts) (n.toList ++ cs)

theorem LaidOut.scanFrom_eq {ts : List Token} {cs : List Char} (h : LaidOut ts cs) :
    scanFrom [] cs = ts ++ [eof] := by
  induction h with
  | nil => rfl
  | dropped hstart hnone _ ih =>
      rw [scanFrom_char hstart, hnone, ih]
      rfl
  | symbol hc _ ih =>
      rw [scanFrom_symbol hc, ih]
      rfl
  | name hn hr _ ih =>
      rw [scanFrom_name hn hr, ih]
      rfl

/-- An open identifier is closed in front of what does not continue it. -/
theorem LaidOut.close_append {name cs : List Char} {ts : List Token} (h : LaidOut ts cs)
    (hname : name ≠ [] → isName (String.ofList name.reverse) = true)
    (hr : name ≠ [] → Separates cs) : LaidOut (close name ++ ts) (name.reverse ++ cs) := by
  cases name with
  | nil => exact h
  | cons c name =>
      have hne := List.cons_ne_nil c name
      have hlaid := LaidOut.name (hname hne) (hr hne) h
      rwa [String.toList_ofList] at hlaid

/-- The walk of the scanner, inside an identifier or outside of one, finds where the tokens stand. -/
theorem exists_laidOut (cs : List Char) :
    ∀ name : List Char, (name ≠ [] → isName (String.ofList name.reverse) = true) →
      ∃ ts, scanFrom name cs = ts ++ [eof] ∧ LaidOut ts (name.reverse ++ cs) := by
  induction cs with
  | nil =>
      intro name hname
      have hlaid := LaidOut.nil.close_append hname fun _ => separates_nil
      rw [List.append_nil] at hlaid
      exact ⟨close name, rfl, hlaid⟩
  | cons c cs ih =>
      intro name hname
      by_cases hc : continues name c = true
      · obtain ⟨ts, e, hlaid⟩ := ih (c :: name) fun _ => isName_continued hc hname
        rw [List.reverse_cons, List.append_assoc] at hlaid
        exact ⟨ts, by rw [scanFrom, if_pos hc, e], hlaid⟩
      · obtain ⟨ts, e, hlaid⟩ := ih [] fun hne => absurd rfl hne
        have hr : name ≠ [] → Separates (c :: cs) := by
          intro hne
          obtain ⟨d, name, rfl⟩ := List.exists_cons_of_ne_nil hne
          exact separates_cons (Bool.eq_false_iff.2 hc)
        have hstart : isNameStart c = false := by
          cases name with
          | nil => exact Bool.eq_false_iff.2 hc
          | cons d name => exact isNameStart_eq_false (Bool.eq_false_iff.2 hc)
        have hchar : LaidOut ((ofChar? c).toList ++ ts) (c :: cs) := by
          cases hsymbol : ofChar? c with
          | none => exact .dropped hstart hsymbol hlaid
          | some t => exact .symbol hsymbol hlaid
        refine ⟨close name ++ ((ofChar? c).toList ++ ts), ?_, hchar.close_append hname hr⟩
        rw [scanFrom, if_neg hc, e]
        simp only [List.append_assoc]

theorem scan_eq_iff {s : String} {ts : List Token} : scan s = ts ++ [eof] ↔ LaidOut ts s.toList := by
  constructor
  · intro h
    obtain ⟨us, e, hlaid⟩ := exists_laidOut s.toList [] fun hne => absurd rfl hne
    obtain rfl : us = ts := List.append_cancel_right (e.symm.trans h)
    exact hlaid
  · exact LaidOut.scanFrom_eq

/-! ## Names take all that they can -/

theorem Separates.left {cs rest : List Char} (h : Separates (cs ++ rest)) : Separates cs := by
  cases cs with
  | nil => exact separates_nil
  | cons c cs => exact separates_cons (h c rfl)

/-- The first character of a name would continue a name in front of it. -/
theorem not_separates_name {n : String} (hn : isName n = true) (rest : List Char) :
    ¬ Separates (n.toList ++ rest) := by
  intro h
  unfold isName at hn
  split at hn
  · cases hn
  · rename_i c cs e
    rw [Bool.and_eq_true] at hn
    rw [e] at h
    have hc : isNameChar c = false := h c rfl
    rw [isNameChar_of_isNameStart hn.1] at hc
    cases hc

theorem isNameStart_of_getLast?_cons {c : Char} {cs : List Char} (hc : isNameStart c = false)
    (h : ∀ d ∈ cs.getLast?, isNameStart d = false) : ∀ d ∈ (c :: cs).getLast?, isNameStart d = false := by
  cases cs with
  | nil =>
      intro d hd
      cases hd
      exact hc
  | cons b cs => rwa [List.getLast?_cons_cons]

/-- Cut a text at one of its names.  Nothing continues the name, and the character in front of it, which may
be a digit that was dropped, does not begin one. -/
theorem LaidOut.exists_of_name {before after : List Token} {n : String} {cs : List Char}
    (h : LaidOut (before ++ .identifier n :: after) cs) :
    ∃ u v, cs = u ++ n.toList ++ v ∧ LaidOut before u ∧ LaidOut after v ∧ isName n = true ∧
      (∀ c ∈ u.getLast?, isNameStart c = false) ∧ Separates v := by
  generalize e : before ++ .identifier n :: after = ts at h
  induction h generalizing before with
  | nil => cases (List.append_eq_nil_iff.1 e).2
  | @dropped c _ _ hstart hnone _ ih =>
      obtain ⟨u, v, rfl, hu, hv, hn, hlast, hr⟩ := ih e
      refine ⟨c :: u, v, rfl, .dropped hstart hnone hu, hv, hn, ?_, hr⟩
      exact isNameStart_of_getLast?_cons hstart hlast
  | @symbol c t _ _ hc _ ih =>
      cases before with
      | nil =>
          cases e
          exact absurd (mem_symbols_of_ofChar? hc) (by simp [symbols])
      | cons b before =>
          cases e
          obtain ⟨u, v, rfl, hu, hv, hn, hlast, hr⟩ := ih rfl
          refine ⟨c :: u, v, rfl, .symbol hc hu, hv, hn, ?_, hr⟩
          exact isNameStart_of_getLast?_cons (isNameStart_eq_false (isNameChar_of_ofChar? hc)) hlast
  | @name m _ cs hm hsep hlaid ih =>
      cases before with
      | nil =>
          cases e
          exact ⟨[], cs, rfl, .nil, hlaid, hm, by simp, hsep⟩
      | cons b before =>
          cases e
          obtain ⟨u, v, rfl, hu, hv, hn, hlast, hr⟩ := ih rfl
          -- a name right behind another would continue it
          have hne : u ≠ [] := by
            rintro rfl
            exact not_separates_name hn v hsep
          refine ⟨m.toList ++ u, v, by simp, .name hm hsep.left.left hu, hv, hn, ?_, hr⟩
          rwa [List.getLast?_append_of_ne_nil _ hne]

theorem laidOut_of_scan_eq {s : String} {before after : List Token} {t : Token} (ht : t ≠ eof)
    (h : scan s = before ++ t :: after) :
    ∃ rest, after = rest ++ [eof] ∧ LaidOut (before ++ t :: rest) s.toList := by
  obtain ⟨ts, e, -⟩ := scan_eq_append s
  have hlast := e.symm.trans h
  rcases List.eq_nil_or_concat after with rfl | ⟨rest, last, rfl⟩
  · cases (List.append_inj' hlast rfl).2
    exact absurd rfl ht
  · rw [List.concat_eq_append, ← List.cons_append, ← List.append_assoc] at hlast
    obtain ⟨rfl, heof⟩ := List.append_inj' hlast rfl
    obtain rfl := List.singleton_inj.1 heof
    exact ⟨rest, List.concat_eq_append, scan_eq_iff.1 e⟩

theorem exists_of_name {s n : String} {before after : List Token}
    (h : scan s = before ++ .identifier n :: after) :
    ∃ u v, s = u ++ n ++ v ∧ scan u = before ++ [eof] ∧ scan v = after ∧ isName n = true ∧
      (∀ c ∈ u.toList.getLast?, isNameStart c = false) ∧ Separates v.toList := by
  obtain ⟨rest, rfl, hlaid⟩ := laidOut_of_scan_eq (t := .identifier n) nofun h
  obtain ⟨u, v, e, hu, hv, hn, hlast, hr⟩ := hlaid.exists_of_name
  obtain ⟨u, rfl⟩ : ∃ t : String, t.toList = u := ⟨String.ofList u, String.toList_ofList⟩
  obtain ⟨v, rfl⟩ : ∃ t : String, t.toList = v := ⟨String.ofList v, String.toList_ofList⟩
  rw [← String.toList_append, ← String.toList_append] at e
  exact ⟨u, v, String.toList_injective e, scan_eq_iff.2 hu, scan_eq_iff.2 hv, hn, hlast, hr⟩

/-- Between two names in a row stands something that continues neither. -/
theorem exists_between_names {s n m : String} {before after : List Token}
    (h : scan s = before ++ .identifier n :: .identifier m :: after) :
    ∃ u gap v, s = u ++ n ++ gap ++ m ++ v ∧ scan u = before ++ [eof] ∧ scan gap = [eof] ∧
      scan v = after ∧ ∃ c ∈ gap.toList, isNameChar c = false := by
  obtain ⟨u, rest, rfl, hu, hrest, -, -, hr⟩ := exists_of_name h
  have hsecond : scan rest = [] ++ .identifier m :: after := hrest
  obtain ⟨gap, v, rfl, hgap, hv, hm, -, -⟩ := exists_of_name hsecond
  refine ⟨u, gap, v, by simp only [String.append_assoc], hu, hgap, hv, ?_⟩
  rw [String.append_assoc, String.toList_append, String.toList_append] at hr
  cases hcs : gap.toList with
  | nil =>
      rw [hcs] at hr
      exact absurd hr (not_separates_name hm v.toList)
  | cons c cs =>
      rw [hcs] at hr
      exact ⟨c, List.mem_cons_self, hr c rfl⟩

/-! ## Blanks between tokens -/

theorem scan_append_blanks {w : String} (hne : w ≠ "") (hw : Text.Blanks w.toList) (a b : String) :
    scan (a ++ w ++ b) = (scan a).dropLast ++ scan b := by
  obtain ⟨c, cs, e⟩ : ∃ c cs, w.toList = c :: cs :=
    List.exists_cons_of_ne_nil fun hnil => hne (String.toList_eq_nil_iff.1 hnil)
  rw [e] at hw
  obtain ⟨hc, hcs⟩ := List.forall_mem_cons.1 hw
  have htext : (a ++ w ++ b).toList = a.toList ++ c :: (cs ++ b.toList) := by
    simp [String.toList_append, e]
  rw [scan, htext, scanFrom_dropped (isNameChar_of_isBlank hc) (ofChar?_of_isBlank hc),
    scanFrom_blank_append (List.all_eq_true.2 hcs)]
  rfl

def joined (ts : List Token) : String := " ".intercalate (ts.map text)

/-- With a blank before the first as well, this is how tokens are typed after a text. -/
theorem toList_joined (ts : List Token) : ∀ t : Token,
    ((t :: ts).flatMap fun u => ' ' :: u.text.toList) = ' ' :: (joined (t :: ts)).toList := by
  induction ts with
  | nil =>
      intro t
      simp [joined]
  | cons u ts ih =>
      intro t
      rw [List.flatMap_cons, ih u]
      simp [joined, String.intercalate_cons_cons, String.toList_append]

theorem scan_joined {ts : List Token} (h : ∀ t ∈ ts, t.isTypable = true) :
    scan (joined ts) = ts ++ [eof] := by
  cases ts with
  | nil => rfl
  | cons t ts =>
      have hscan := scanFrom_spaced h
      rwa [toList_joined, scanFrom_char rfl] at hscan

theorem isTypable_of_mem_scan {s : String} {t : Token} (h : t ∈ scan s) (ht : t ≠ eof) :
    t.isTypable = true := by
  cases t with
  | identifier n => exact isName_of_mem_scan h
  | stray d => exact absurd h (stray_notMem_scan d s)
  | eof => exact absurd rfl ht
  | _ => rfl

theorem scan_joined_scan (s : String) : scan (joined (scan s).dropLast) = scan s := by
  obtain ⟨ts, e, heof⟩ := scan_eq_append s
  have htypable : ∀ t ∈ ts, t.isTypable = true := by
    intro t ht
    refine isTypable_of_mem_scan (s := s) ?_ fun h => heof (h ▸ ht)
    rw [e]
    exact List.mem_append_left _ ht
  rw [e, List.dropLast_concat, scan_joined htypable]

/-- How a text is spaced makes no difference to what it says.  A text with blanks in the middle is scanned in
two parts.  The tokens of a text, with single blanks between them, are scanned as the same tokens, and so they
are read as the same formula, or refused for the same reason.  A scan has one end, after everything else, and
before it are the tokens that stand in the text.  Every name takes all that it can: no character behind it
continues it, none in front of it begins it earlier, and two names in a row are kept apart by a character that
is no part of a name. -/
theorem scan_stable_under_spacing :
    (∀ a b w : String, w ≠ "" → Text.Blanks w.toList →
      scan (a ++ w ++ b) = (scan a).dropLast ++ scan b) ∧
    (∀ t : String, scan (joined (scan t).dropLast) = scan t ∧
      Formula.parse (joined (scan t).dropLast) = Formula.parse t) ∧
    (∀ t : String, ∃ ts, scan t = ts ++ [eof] ∧ eof ∉ ts ∧ LaidOut ts t.toList) ∧
    (∀ (t n : String) (before after : List Token), scan t = before ++ .identifier n :: after →
      ∃ u v, t = u ++ n ++ v ∧ scan u = before ++ [eof] ∧ scan v = after ∧
        (∀ c ∈ u.toList.getLast?, ¬ (IsLetter c ∨ c = '_')) ∧
        ∀ c ∈ v.toList.head?, ¬ (IsLetter c ∨ ('0' ≤ c ∧ c ≤ '9') ∨ c = '_')) ∧
    (∀ (t n m : String) (before after : List Token),
      scan t = before ++ .identifier n :: .identifier m :: after →
      ∃ u gap v, t = u ++ n ++ gap ++ m ++ v ∧ scan u = before ++ [eof] ∧ scan gap = [eof] ∧
        scan v = after ∧ ∃ c ∈ gap.toList, ¬ (IsLetter c ∨ ('0' ≤ c ∧ c ≤ '9') ∨ c = '_')) := by
  refine ⟨fun a b w hne hw => scan_append_blanks hne hw a b, fun t => ?_, fun t => ?_,
    fun t n before after h => ?_, fun t n m before after h => ?_⟩
  · have hscan := scan_joined_scan t
    exact ⟨hscan, by rw [Formula.parse, Formula.parse, hscan]⟩
  · obtain ⟨ts, e, heof⟩ := scan_eq_append t
    exact ⟨ts, e, heof, scan_eq_iff.1 e⟩
  · obtain ⟨u, v, e, hu, hv, -, hlast, hr⟩ := exists_of_name h
    refine ⟨u, v, e, hu, hv, fun c hc => ?_, fun c hc => ?_⟩
    · exact fun hstart => Bool.eq_false_iff.1 (hlast c hc) (isNameStart_iff.2 hstart)
    · exact fun hchar => Bool.eq_false_iff.1 (hr c hc) (isNameChar_iff.2 hchar)
  · obtain ⟨u, gap, v, e, hu, hgap, hv, c, hc, hchar⟩ := exists_between_names h
    exact ⟨u, gap, v, e, hu, hgap, hv, c, hc, fun h => Bool.eq_false_iff.1 hchar (isNameChar_iff.2 h)⟩

/-- Two names with a wide blank and a dropped digit between them, and a third that ends at a sign which is
dropped. -/
theorem names_kept_apart :
    scan ("∀x P\u2003(" ++ "\u00a0\n" ++ "7y") =
      [.quantifier .universal, .identifier "x", .identifier "P", .opening] ++ scan "7y" ∧
    Formula.parse (joined (scan "P_1 7Q≠¬R2").dropLast) = Formula.parse "P_1 7Q≠¬R2" ∧
    (∃ u v, "P_1 7Q≠¬R2" = u ++ "Q" ++ v ∧ scan u = [.identifier "P_1"] ++ [eof] ∧
      scan v = [.negation, .identifier "R2", eof] ∧
      (∀ c ∈ u.toList.getLast?, ¬ (IsLetter c ∨ c = '_')) ∧
      ∀ c ∈ v.toList.head?, ¬ (IsLetter c ∨ ('0' ≤ c ∧ c ≤ '9') ∨ c = '_')) ∧
    ∃ u gap v, "P_1 7Q≠¬R2" = u ++ "P_1" ++ gap ++ "Q" ++ v ∧ scan u = [] ++ [eof] ∧ scan gap = [eof] ∧
      scan v = [.negation, .identifier "R2", eof] ∧
      ∃ c ∈ gap.toList, ¬ (IsLetter c ∨ ('0' ≤ c ∧ c ≤ '9') ∨ c = '_') := by
  obtain ⟨hcut, hjoined, -, hname, hnames⟩ := scan_stable_under_spacing
  have hscan : scan "P_1 7Q≠¬R2" =
      [.identifier "P_1", .identifier "Q", .negation, .identifier "R2", eof] := by decide +kernel
  have hblank : Text.Blanks "\u00a0\n".toList := List.all_eq_true.1 rfl
  have hfront : scan "∀x P\u2003(" =
      [.quantifier .universal, .identifier "x", .identifier "P", .opening, eof] := by decide +kernel
  refine ⟨?_, (hjoined _).2, hname _ _ [.identifier "P_1"] _ hscan, hnames _ _ _ [] _ hscan⟩
  rw [hcut _ _ _ (by decide) hblank, hfront]
  rfl

end Token

end ProofSheet
