/-
# JSON text is read back

A tree whose strings have texts and whose numbers are natural is read back from its written form
(`parse?_print`), however deep it is: the reader has no limit of its own.  So the written form tells
such trees apart.

The proof follows the writer.  Everything is written in front of a rest, and what is read leaves
that rest, given that it begins with something that closes a value.
-/
import ProofSheet.Json.Reader
import ProofSheet.Json.Writer
import ProofSheet.Proofs.Rounds

namespace ProofSheet

namespace Json

/-! ## Plain trees -/

mutual

/-- Every string in the tree has a text, and every number is a natural number. -/
def Plain : Json → Prop
  | .numeral _ => False
  | .string s => s.isSome
  | .array items => PlainItems items
  | .object members => PlainMembers members
  | _ => True

def PlainItems : List Json → Prop
  | [] => True
  | j :: js => j.Plain ∧ PlainItems js

def PlainMembers : List (Option String × Json) → Prop
  | [] => True
  | (name, j) :: ms => name.isSome ∧ j.Plain ∧ PlainMembers ms

end

namespace Reader

/-! ## Strings -/

theorem hexValue?_hexDigit : ∀ n < 16, hexValue? (hexDigit n) = some n := by
  decide

theorem hexCode?_escape {n : Nat} (h : n < 256) :
    hexCode? '0' '0' (hexDigit (n / 16)) (hexDigit (n % 16)) = some n := by
  have hzero : hexValue? '0' = some 0 := rfl
  have hhigh := hexValue?_hexDigit (n / 16) (by omega)
  have hlow := hexValue?_hexDigit (n % 16) (by omega)
  rw [hexCode?, hzero, hhigh, hlow]
  show some (((0 * 16 + 0) * 16 + n / 16) * 16 + n % 16) = some n
  congr 1
  omega

/-- The piece `p` stands for the character `c`, whatever follows it. -/
def Denotes (p : Piece) (c : Char) : Prop :=
  ∀ ps, characters? (p :: ps) = (characters? ps).map (c :: ·)

theorem denotes_char (c : Char) : Denotes (.char c) c := by
  intro ps
  rw [characters?]

/-- A code unit below the surrogates stands for a character by itself. -/
theorem denotes_unit {c : Char} (h : c.toNat < 0xD800) : Denotes (.unit c.toNat) c := by
  have hhigh : isHighHalf c.toNat = false := by simp [isHighHalf]; omega
  have hlow : isLowHalf c.toNat = false := by simp [isLowHalf]; omega
  intro ps
  cases ps with
  | nil => simp [characters?, hhigh, hlow]
  | cons p ps => cases p <;> simp [characters?, hhigh, hlow]

/-- A character as it stands in a string is read as one piece, which stands for it. -/
theorem pieces_escapeChar (c : Char) (cs : List Char) :
    ∃ p, Denotes p c ∧
      pieces (escapeChar c ++ cs) = pieces cs >>= fun r => pure (p :: r.1, r.2) := by
  unfold escapeChar
  split
  · exact ⟨.char '"', denotes_char _, rfl⟩
  · exact ⟨.char '\\', denotes_char _, rfl⟩
  · exact ⟨.char '\x08', denotes_char _, rfl⟩
  · exact ⟨.char '\x0c', denotes_char _, rfl⟩
  · exact ⟨.char '\n', denotes_char _, rfl⟩
  · exact ⟨.char '\r', denotes_char _, rfl⟩
  · exact ⟨.char '\t', denotes_char _, rfl⟩
  · rename_i hquote hslash _ _ _ _ _
    split
    · rename_i hc
      have hlt : c.toNat < 32 := hc
      refine ⟨.unit c.toNat, denotes_unit (by omega), ?_⟩
      show pieces ('\\' :: 'u' :: '0' :: '0' :: hexDigit (c.toNat / 16) ::
        hexDigit (c.toNat % 16) :: cs) = _
      rw [pieces, hexCode?_escape (by omega)]
    · rename_i hc
      refine ⟨.char c, denotes_char c, ?_⟩
      rw [List.singleton_append, pieces]
      · exact if_neg (not_or.2 ⟨hslash, hc⟩)
      · exact hquote
      · intro _ _ _ _ _ he
        exact absurd he hslash
      · intro _ _ he
        exact absurd he hslash

theorem pieces_writeChars (cs rest : List Char) :
    ∃ ps, pieces (writeChars cs ('"' :: rest)) = .ok (ps, rest) ∧ characters? ps = some cs := by
  induction cs with
  | nil => exact ⟨[], rfl, rfl⟩
  | cons c cs ih =>
      obtain ⟨ps, hps, hcs⟩ := ih
      obtain ⟨p, hp, hpieces⟩ := pieces_escapeChar c (writeChars cs ('"' :: rest))
      refine ⟨p :: ps, ?_, ?_⟩
      · rw [writeChars, hpieces, hps]
        rfl
      · rw [hp ps, hcs]
        rfl

theorem stringBody_writeChars (s : String) (rest : List Char) :
    stringBody (writeChars s.toList ('"' :: rest)) = .ok (some s, rest) := by
  obtain ⟨ps, hps, hcs⟩ := pieces_writeChars s.toList rest
  rw [stringBody, hps, bind_ok]
  show Except.ok ((characters? ps).map String.ofList, rest) = _
  rw [hcs, Option.map_some, String.ofList_toList]

/-! ## Numbers -/

theorem decimal_head {n : Nat} (hn : 0 < n) :
    ∀ {c : Char} {cs : List Char}, Text.decimal n = c :: cs → c ≠ '0' := by
  induction n using Nat.strongRecOn with
  | _ n ih =>
      intro c cs h
      by_cases hlt : n < 10
      · have hdigit : ∀ m < 10, 0 < m → Nat.digitChar m ≠ '0' := by decide
        rw [Text.decimal, Nat.toDigits_of_lt_base hlt] at h
        cases h
        exact hdigit n hlt hn
      · rw [Text.decimal, Nat.toDigits_of_base_le (by decide) (Nat.not_lt.1 hlt)] at h
        cases hq : Text.decimal (n / 10) with
        | nil => exact absurd hq (Text.decimal_ne_nil _)
        | cons d ds =>
            rw [show Nat.toDigits 10 (n / 10) = d :: ds from hq] at h
            cases h
            exact ih (n / 10) (by omega) (by omega) hq

theorem wholeDigits_decimal (n : Nat) {rest : List Char}
    (hrest : ∀ c ∈ rest.head?, c.isDigit = false) :
    wholeDigits (Text.decimal n ++ rest) = .ok (Text.decimal n, rest) := by
  have hall : ∀ c ∈ Text.decimal n, c.isDigit = true := fun c hc => Text.isDigit_of_mem_decimal hc
  have htake : rest.takeWhile Char.isDigit = [] := by
    cases rest with
    | nil => rfl
    | cons c rest => simp [hrest c rfl]
  have hdrop : rest.dropWhile Char.isDigit = rest := by
    cases rest with
    | nil => rfl
    | cons c rest => simp [hrest c rfl]
  have hdigits : digits (Text.decimal n ++ rest) = .ok (Text.decimal n, rest) := by
    rw [digits, List.takeWhile_append_of_pos hall, List.dropWhile_append_of_pos hall, htake, hdrop,
      List.append_nil]
    split
    · rename_i he
      exact absurd he (Text.decimal_ne_nil n)
    · rfl
  rw [wholeDigits, hdigits, bind_ok]
  dsimp only
  split
  · rename_i c cs he
    -- two digits with a zero in front are not the decimal form of anything
    rcases Nat.eq_zero_or_pos n with rfl | hn
    · cases he
    · exact absurd rfl (decimal_head hn he)
  · rfl

/-! ## What follows a value -/

/-- Nothing follows, or something that ends a value. -/
def Closes (rest : List Char) : Prop :=
  ∀ c ∈ rest.head?, c = ',' ∨ c = ']' ∨ c = '\x7d'

theorem closes_nil : Closes [] := by
  intro c hc
  cases hc

theorem closes_writeItems (js : List Json) {rest : List Char} (h : Closes rest) :
    Closes (writeItems js rest) := by
  cases js with
  | nil => exact h
  | cons j js =>
      rintro c ⟨⟩
      exact .inl rfl

theorem closes_writeMembers (ms : List (Option String × Json)) {rest : List Char}
    (h : Closes rest) : Closes (writeMembers ms rest) := by
  cases ms with
  | nil => exact h
  | cons m ms =>
      rintro c ⟨⟩
      exact .inl rfl

theorem skip_cons {c : Char} (h : isBlank c = false) (cs : List Char) : skip (c :: cs) = c :: cs :=
  List.dropWhile_cons_of_neg (by simp [h])

theorem skip_of_closes {rest : List Char} (h : Closes rest) : skip rest = rest := by
  cases rest with
  | nil => rfl
  | cons c rest =>
      rcases h c rfl with rfl | rfl | rfl
      · rfl
      · rfl
      · rfl

theorem isBlank_of_isDigit {c : Char} (h : c.isDigit = true) : isBlank c = false := by
  cases hb : isBlank c with
  | false => rfl
  | true =>
      simp only [isBlank, Bool.or_eq_true, beq_iff_eq] at hb
      rcases hb with ((rfl | rfl) | rfl) | rfl <;> cases h

/-- A value in JSON text begins neither with a blank nor with the end of an array. -/
theorem write_head {j : Json} (h : j.Plain) (rest : List Char) :
    ∃ c cs, j.write rest = c :: cs ∧ isBlank c = false ∧ (']' == c) = false := by
  cases j with
  | null => exact ⟨_, _, rfl, rfl, rfl⟩
  | bool b => cases b <;> exact ⟨_, _, rfl, rfl, rfl⟩
  | natural n =>
      cases hn : Text.decimal n with
      | nil => exact absurd hn (Text.decimal_ne_nil n)
      | cons d ds =>
          have hd : d.isDigit = true := Text.isDigit_of_mem_decimal (hn ▸ List.mem_cons_self)
          refine ⟨d, ds ++ rest, by rw [write, hn]; rfl, isBlank_of_isDigit hd, ?_⟩
          exact beq_eq_false_iff_ne.2 fun he => by rw [← he] at hd; cases hd
  | numeral n => exact absurd h id
  | string s => exact ⟨_, _, rfl, rfl, rfl⟩
  | array items => cases items <;> exact ⟨_, _, rfl, rfl, rfl⟩
  | object ms => cases ms <;> exact ⟨_, _, rfl, rfl, rfl⟩

theorem skip_write {j : Json} (h : j.Plain) (rest : List Char) :
    skip (j.write rest) = j.write rest := by
  obtain ⟨c, cs, hhead, hblank, -⟩ := write_head h rest
  rw [hhead]
  exact skip_cons hblank cs

theorem char_write {j : Json} (h : j.Plain) (rest : List Char) :
    char ']' (skip (j.write rest)) = .error () := by
  obtain ⟨c, cs, hhead, -, hbracket⟩ := write_head h rest
  rw [skip_write h, hhead, char, if_neg (beq_eq_false_iff_ne.1 hbracket)]

/-! ## Values -/

theorem unsigned_decimal (n : Nat) {rest : List Char} (h : Closes rest) :
    unsigned false (Text.decimal n ++ rest) = .ok (.natural n, rest) := by
  have hdigit : ∀ c ∈ rest.head?, c.isDigit = false := by
    intro c hc
    rcases h c hc with rfl | rfl | rfl <;> rfl
  have hfraction : fraction rest = .ok ([], rest) := by
    cases rest with
    | nil => rfl
    | cons c rest => rcases h c rfl with rfl | rfl | rfl <;> rfl
  have hexponent : exponent rest = .ok ((false, []), rest) := by
    cases rest with
    | nil => rfl
    | cons c rest => rcases h c rfl with rfl | rfl | rfl <;> rfl
  have hvalue : Nat.ofDigitChars 10 (Text.decimal n) 0 = n :=
    Nat.ofDigitChars_toDigits (by decide) (by decide)
  rw [unsigned, wholeDigits_decimal n hdigit, bind_ok]
  dsimp only
  rw [hfraction, bind_ok]
  dsimp only
  rw [hexponent, bind_ok, hvalue]
  rfl

theorem value_decimal (levels n : Nat) {rest : List Char} (h : Closes rest) :
    value levels (Text.decimal n ++ rest) = .ok (.natural n, rest) := by
  rw [← unsigned_decimal n h]
  cases hn : Text.decimal n with
  | nil => exact absurd hn (Text.decimal_ne_nil n)
  | cons d ds =>
      have hd : d.isDigit = true := Text.isDigit_of_mem_decimal (hn ▸ List.mem_cons_self)
      have hne : ∀ {c : Char} {cs : List Char}, c.isDigit = false →
          d :: (ds ++ rest) ≠ c :: cs := by
        intro c cs hc he
        rw [← (List.cons.inj he).1, hd] at hc
        cases hc
      rw [List.cons_append, value, number]
      -- no other kind of value begins with a digit
      all_goals
        intros
        rename_i he
        exact hne rfl he

/-- A reader that reads a value with nothing blank around it. -/
theorem spaced_eq_ok {α : Type} {item : Reader α} {input rest : List Char} {a : α}
    (h : item input = .ok (a, rest)) (hinput : skip input = input) (hrest : Closes rest) :
    spaced item input = .ok (a, rest) := by
  rw [spaced, hinput, h, bind_ok]
  dsimp only
  rw [skip_of_closes hrest]
  rfl

theorem listUpTo_nil {α : Type} {close : Char} (item : Reader α) (rest : List Char)
    (h : isBlank close = false) : listUpTo close item (close :: rest) = .ok ([], rest) := by
  rw [listUpTo, skip_cons h, char, if_pos rfl]

theorem listUpTo_cons {α : Type} {close : Char} {item : Reader α} {input mid rest : List Char}
    {a : α} {as : List α} (hopen : char close (skip input) = .error ())
    (ha : spaced item input = .ok (a, mid))
    (has : Parser.Rounds (· == ',') (spaced item) mid as (close :: rest))
    (hcount : as.length ≤ mid.length) (hclose : (close == ',') = false) :
    listUpTo close item input = .ok (a :: as, rest) := by
  have hsep : ∀ c ∈ (close :: rest).head?, (c == ',') = false := by
    rintro c ⟨⟩
    exact hclose
  have hfurther := Parser.further_of_rounds_count has hsep hcount
  rw [listUpTo, hopen]
  dsimp only
  rw [Parser.sepBy, ha, bind_ok]
  dsimp only
  rw [hfurther, bind_ok]
  show (char close (close :: rest) >>= _) = _
  rw [char, if_pos rfl]
  rfl

theorem member_eq_ok {value : Reader Json} {j : Json} {input rest : List Char} (name : String)
    (h : value input = .ok (j, rest)) (hinput : skip input = input) :
    member value (writeString (some name) (':' :: input)) = .ok ((some name, j), rest) := by
  rw [member, writeString, char, if_pos rfl, bind_ok]
  dsimp only [Option.getD_some]
  rw [stringBody_writeChars, bind_ok]
  dsimp only
  rw [skip_cons rfl, char, if_pos rfl, bind_ok]
  dsimp only
  rw [hinput, h]
  rfl

/-! ## Reading what was written -/

theorem length_writeString (s : Option String) (rest : List Char) :
    rest.length + 2 ≤ (writeString s rest).length := by
  have hchars : ∀ cs : List Char, ('"' :: rest).length ≤ (writeChars cs ('"' :: rest)).length := by
    intro cs
    induction cs with
    | nil => exact Nat.le_refl _
    | cons c cs ih =>
        rw [writeChars, List.length_append]
        exact Nat.le_trans ih (Nat.le_add_left _ _)
  exact Nat.succ_le_succ (hchars _)

mutual

/-- A tree has no more levels than its text has characters. -/
theorem length_write : ∀ (j : Json) (rest : List Char),
    j.depth + rest.length ≤ (j.write rest).length
  | .null, rest => by simp [depth, write]; omega
  | .bool true, rest => by simp [depth, write]; omega
  | .bool false, rest => by simp [depth, write]; omega
  | .natural n, rest => by simp [depth, write]
  | .numeral n, rest => by simp [depth, write]
  | .string s, rest => by
      have hs := length_writeString s rest
      simp only [depth, write]
      omega
  | .array [], rest => by simp [depth, depthOfItems, write]; omega
  | .array (j :: js), rest => by
      have hj := length_write j (writeItems js (']' :: rest))
      have hjs := (length_writeItems js (']' :: rest)).1
      simp only [depth, depthOfItems, write, List.length_cons] at hj hjs ⊢
      omega
  | .object [], rest => by simp [depth, depthOfMembers, write]; omega
  | .object ((name, j) :: ms), rest => by
      have hname := length_writeString name (':' :: j.write (writeMembers ms ('\x7d' :: rest)))
      have hj := length_write j (writeMembers ms ('\x7d' :: rest))
      have hms := (length_writeMembers ms ('\x7d' :: rest)).1
      simp only [depth, depthOfMembers, write, List.length_cons] at hname hj hms ⊢
      omega

theorem length_writeItems : ∀ (js : List Json) (rest : List Char),
    depthOfItems js + rest.length ≤ (writeItems js rest).length ∧
      js.length + rest.length ≤ (writeItems js rest).length
  | [], rest => by simp [depthOfItems, writeItems]
  | j :: js, rest => by
      have hj := length_write j (writeItems js rest)
      have hjs := length_writeItems js rest
      simp only [depthOfItems, writeItems, List.length_cons] at hj hjs ⊢
      omega

theorem length_writeMembers : ∀ (ms : List (Option String × Json)) (rest : List Char),
    depthOfMembers ms + rest.length ≤ (writeMembers ms rest).length ∧
      ms.length + rest.length ≤ (writeMembers ms rest).length
  | [], rest => by simp [depthOfMembers, writeMembers]
  | (name, j) :: ms, rest => by
      have hname := length_writeString name (':' :: j.write (writeMembers ms rest))
      have hj := length_write j (writeMembers ms rest)
      have hms := length_writeMembers ms rest
      simp only [depthOfMembers, writeMembers, List.length_cons] at hname hj hms ⊢
      omega

end

mutual

/-- A plain tree is read back from its text, up to what follows. -/
theorem value_write : ∀ (j : Json) {levels : Nat} {rest : List Char}, j.Plain → j.depth ≤ levels →
    Closes rest → value levels (j.write rest) = .ok (j, rest)
  | .null, levels, rest, _, _, _ => by
      show value levels ('n' :: 'u' :: 'l' :: 'l' :: rest) = _
      rw [value]
      rfl
  | .bool true, levels, rest, _, _, _ => by
      show value levels ('t' :: 'r' :: 'u' :: 'e' :: rest) = _
      rw [value]
      rfl
  | .bool false, levels, rest, _, _, _ => by
      show value levels ('f' :: 'a' :: 'l' :: 's' :: 'e' :: rest) = _
      rw [value]
      rfl
  | .natural n, levels, rest, _, _, hr => value_decimal levels n hr
  | .string s, levels, rest, hs, _, _ => by
      obtain ⟨t, rfl⟩ := Option.isSome_iff_exists.1 hs
      rw [write, writeString, value, Option.getD_some, stringBody_writeChars]
      rfl
  | .array [], levels, rest, _, hd, _ => by
      obtain ⟨l, rfl⟩ := Nat.exists_eq_succ_of_ne_zero (Nat.ne_zero_of_lt hd)
      rw [write, value, listUpTo_nil _ _ rfl]
      rfl
  | .array (j :: js), levels, rest, hp, hd, _ => by
      obtain ⟨l, rfl⟩ := Nat.exists_eq_succ_of_ne_zero (Nat.ne_zero_of_lt hd)
      obtain ⟨hj, hjs⟩ := hp
      obtain ⟨hdj, hdjs⟩ := Nat.max_le.1 (Nat.le_of_succ_le_succ hd)
      have hclose : Closes (']' :: rest) := by
        rintro c ⟨⟩
        exact .inr (.inl rfl)
      have hrest := closes_writeItems js hclose
      have hfirst := spaced_eq_ok (value_write j hj hdj hrest) (skip_write hj _) hrest
      have hrounds := rounds_writeItems js hjs hdjs hclose
      have hcount : js.length ≤ (writeItems js (']' :: rest)).length :=
        Nat.le_trans (Nat.le_add_right _ _) (length_writeItems js (']' :: rest)).2
      rw [write, value, listUpTo_cons (char_write hj _) hfirst hrounds hcount rfl]
      rfl
  | .object [], levels, rest, _, hd, _ => by
      obtain ⟨l, rfl⟩ := Nat.exists_eq_succ_of_ne_zero (Nat.ne_zero_of_lt hd)
      rw [write, value, listUpTo_nil _ _ rfl]
      rfl
  | .object ((name, j) :: ms), levels, rest, hp, hd, _ => by
      obtain ⟨l, rfl⟩ := Nat.exists_eq_succ_of_ne_zero (Nat.ne_zero_of_lt hd)
      obtain ⟨hname, hj, hms⟩ := hp
      obtain ⟨name, rfl⟩ := Option.isSome_iff_exists.1 hname
      obtain ⟨hdj, hdms⟩ := Nat.max_le.1 (Nat.le_of_succ_le_succ hd)
      have hclose : Closes ('\x7d' :: rest) := by
        rintro c ⟨⟩
        exact .inr (.inr rfl)
      have hrest := closes_writeMembers ms hclose
      have hfirst := spaced_eq_ok (member_eq_ok name (value_write j hj hdj hrest) (skip_write hj _))
        (skip_cons rfl _) hrest
      have hrounds := rounds_writeMembers ms hms hdms hclose
      have hcount : ms.length ≤ (writeMembers ms ('\x7d' :: rest)).length :=
        Nat.le_trans (Nat.le_add_right _ _) (length_writeMembers ms ('\x7d' :: rest)).2
      rw [write, value, listUpTo_cons rfl hfirst hrounds hcount rfl]
      rfl

theorem rounds_writeItems : ∀ (js : List Json) {levels : Nat} {rest : List Char}, PlainItems js →
    depthOfItems js ≤ levels → Closes rest →
    Parser.Rounds (· == ',') (spaced (value levels)) (writeItems js rest) js rest
  | [], levels, rest, _, _, _ => .stop
  | j :: js, levels, rest, hp, hd, hr => by
      obtain ⟨hj, hjs⟩ := hp
      obtain ⟨hdj, hdjs⟩ := Nat.max_le.1 hd
      have hrest := closes_writeItems js hr
      have hfirst := spaced_eq_ok (value_write j hj hdj hrest) (skip_write hj _) hrest
      exact .round rfl hfirst (rounds_writeItems js hjs hdjs hr)

theorem rounds_writeMembers : ∀ (ms : List (Option String × Json)) {levels : Nat}
    {rest : List Char}, PlainMembers ms → depthOfMembers ms ≤ levels → Closes rest →
    Parser.Rounds (· == ',') (spaced (member (value levels))) (writeMembers ms rest) ms rest
  | [], levels, rest, _, _, _ => .stop
  | (name, j) :: ms, levels, rest, hp, hd, hr => by
      obtain ⟨hname, hj, hms⟩ := hp
      obtain ⟨name, rfl⟩ := Option.isSome_iff_exists.1 hname
      obtain ⟨hdj, hdms⟩ := Nat.max_le.1 hd
      have hrest := closes_writeMembers ms hr
      have hfirst := spaced_eq_ok (member_eq_ok name (value_write j hj hdj hrest) (skip_write hj _))
        (skip_cons rfl _) hrest
      exact .round rfl hfirst (rounds_writeMembers ms hms hdms hr)

end

end Reader

theorem parse?_print {j : Json} (h : j.Plain) : parse? j.print = some j := by
  have hdepth : j.depth ≤ j.print.length := by
    rw [print, String.length_ofList]
    exact Reader.length_write j []
  have hvalue := Reader.value_write j h hdepth Reader.closes_nil
  have hspaced := Reader.spaced_eq_ok hvalue (Reader.skip_write h []) Reader.closes_nil
  rw [parse?, print, String.toList_ofList, ← print, hspaced]

theorem print_injective {j k : Json} (hj : j.Plain) (hk : k.Plain) (h : j.print = k.print) :
    j = k := by
  have hread := congrArg parse? h
  rw [parse?_print hj, parse?_print hk] at hread
  exact Option.some.inj hread

end Json

end ProofSheet
