/-
# How deep a text nests

The nesting of a JSON text can be counted without reading it: brackets open and close levels, and
what stands in a string does not count.  On the text of a tree the count is the depth of the tree
(`nesting_print`), so a limit on the nesting of a text and a limit on the depth of what it says are
the same.
-/
import ProofSheet.Json.Writer
import ProofSheet.Proofs.JsonText

namespace ProofSheet.Json

/-- Where a character of a text stands: outside of strings, in one, or after a backslash in one. -/
inductive Place where
  | outside
  | quoted
  | escaped

/-- How many brackets are open at once at most, from a place with `level` of them open. -/
def deepest : (level : Nat) → Place → List Char → Nat
  | level, _, [] => level
  | level, .escaped, _ :: cs => deepest level .quoted cs
  | level, .quoted, c :: cs =>
    if c = '\\' then deepest level .escaped cs
    else if c = '"' then deepest level .outside cs
    else deepest level .quoted cs
  | level, .outside, c :: cs =>
    if c = '"' then deepest level .quoted cs
    else if c = '[' ∨ c = '\x7b' then deepest (level + 1) .outside cs
    else if c = ']' ∨ c = '\x7d' then max level (deepest (level - 1) .outside cs)
    else deepest level .outside cs

def nesting (text : String) : Nat := deepest 0 .outside text.toList

/-! ## One character after the other -/

variable {level : Nat}

theorem deepest_quoted {c : Char} (hslash : c ≠ '\\') (hquote : c ≠ '"') (cs : List Char) :
    deepest level .quoted (c :: cs) = deepest level .quoted cs := by
  rw [deepest, if_neg hslash, if_neg hquote]

theorem deepest_open {c : Char} (h : c = '[' ∨ c = '\x7b') (cs : List Char) :
    deepest level .outside (c :: cs) = deepest (level + 1) .outside cs := by
  have hquote : c ≠ '"' := by rcases h with rfl | rfl <;> decide
  rw [deepest, if_neg hquote, if_pos h]

theorem deepest_close {c : Char} (h : c = ']' ∨ c = '\x7d') (cs : List Char) :
    deepest (level + 1) .outside (c :: cs) = max (level + 1) (deepest level .outside cs) := by
  have hquote : c ≠ '"' := by rcases h with rfl | rfl <;> decide
  have hopen : ¬(c = '[' ∨ c = '\x7b') := by rcases h with rfl | rfl <;> decide
  rw [deepest, if_neg hquote, if_neg hopen, if_pos h, Nat.add_sub_cancel]

/-- The characters that open and close nothing. -/
def Neutral (c : Char) : Prop := c ∉ ['"', '[', '\x7b', ']', '\x7d']

theorem deepest_neutral {cs : List Char} (h : ∀ c ∈ cs, Neutral c) (rest : List Char) :
    deepest level .outside (cs ++ rest) = deepest level .outside rest := by
  induction cs with
  | nil => rfl
  | cons c cs ih =>
      obtain ⟨hc, hcs⟩ := List.forall_mem_cons.1 h
      simp only [Neutral, List.mem_cons, List.not_mem_nil, or_false, not_or] at hc
      rw [List.cons_append, deepest, if_neg hc.1, if_neg (by simp [hc]), if_neg (by simp [hc]),
        ih hcs]

theorem neutral_of_isDigit {c : Char} (h : c.isDigit = true) : Neutral c := by
  intro hc
  simp only [List.mem_cons, List.not_mem_nil, or_false] at hc
  rcases hc with rfl | rfl | rfl | rfl | rfl <;> cases h

/-! ## Strings -/

theorem hexDigit_quoted : ∀ n < 16, hexDigit n ≠ '\\' ∧ hexDigit n ≠ '"' := by
  decide

theorem deepest_escapeChar (c : Char) (cs : List Char) :
    deepest level .quoted (escapeChar c ++ cs) = deepest level .quoted cs := by
  unfold escapeChar
  split
  case h_8 hquote hslash _ _ _ _ _ =>
    split
    · rename_i hc
      have hlt : c.toNat < 32 := hc
      obtain ⟨hhigh, hhigh'⟩ := hexDigit_quoted (c.toNat / 16) (by omega)
      obtain ⟨hlow, hlow'⟩ := hexDigit_quoted (c.toNat % 16) (by omega)
      simp [escapeByNumber, deepest, hhigh, hhigh', hlow, hlow']
    · exact deepest_quoted hslash hquote cs
  all_goals simp [deepest]

theorem deepest_writeString (s : Option String) (rest : List Char) :
    deepest level .outside (writeString s rest) = deepest level .outside rest := by
  have hchars : ∀ cs : List Char, deepest level .quoted (writeChars cs ('"' :: rest)) =
      deepest level .outside rest := by
    intro cs
    induction cs with
    | nil => simp [writeChars, deepest]
    | cons c cs ih => rw [writeChars, deepest_escapeChar, ih]
  rw [writeString, deepest, if_pos rfl, hchars]

/-! ## Trees -/

theorem le_deepest (cs : List Char) :
    ∀ (level : Nat) (place : Place), level ≤ deepest level place cs := by
  induction cs with
  | nil =>
      intro level place
      cases place <;> exact Nat.le_refl level
  | cons c cs ih =>
      intro level place
      cases place with
      | outside =>
          rw [deepest]
          split_ifs
          · exact ih level _
          · exact Nat.le_of_succ_le (ih (level + 1) _)
          · exact Nat.le_max_left level _
          · exact ih level _
      | quoted =>
          rw [deepest]
          split_ifs <;> exact ih level _
      | escaped => exact ih level _

theorem deepest_scalar {cs : List Char} (h : ∀ c ∈ cs, Neutral c) (rest : List Char) :
    deepest level .outside (cs ++ rest) = max (level + 0) (deepest level .outside rest) := by
  rw [deepest_neutral h, Nat.add_zero, Nat.max_eq_right (le_deepest rest level .outside)]

theorem deepest_comma (cs : List Char) :
    deepest level .outside (',' :: cs) = deepest level .outside cs :=
  deepest_neutral (by simp [Neutral] : ∀ c ∈ [','], Neutral c) cs

theorem deepest_colon (name : Option String) (cs : List Char) :
    deepest level .outside (writeString name (':' :: cs)) = deepest level .outside cs := by
  rw [deepest_writeString]
  exact deepest_neutral (by simp [Neutral] : ∀ c ∈ [':'], Neutral c) cs

mutual

/-- A tree goes as far beyond the level it starts from as it is deep. -/
theorem deepest_write : ∀ (j : Json) (level : Nat) (rest : List Char), j.Plain →
    deepest level .outside (j.write rest) = max (level + j.depth) (deepest level .outside rest)
  | .null, _, rest, _ => deepest_scalar (by simp [Neutral]) rest
  | .bool true, _, rest, _ => deepest_scalar (by simp [Neutral]) rest
  | .bool false, _, rest, _ => deepest_scalar (by simp [Neutral]) rest
  | .natural _, _, rest, _ =>
      deepest_scalar (fun _ hc => neutral_of_isDigit (Text.isDigit_of_mem_decimal hc)) rest
  | .numeral _, _, _, h => h.elim
  | .string s, level, rest, _ => by
      rw [write, deepest_writeString]
      exact (Nat.max_eq_right (le_deepest rest level .outside)).symm
  | .array [], level, rest, _ => by
      rw [write, deepest_open (.inl rfl), deepest_close (.inl rfl), depth, depthOfItems]
  | .array (j :: js), level, rest, h => by
      have hj := deepest_write j (level + 1) (writeItems js (']' :: rest)) h.1
      have hjs := deepest_writeItems js (level + 1) (']' :: rest) h.2
      rw [deepest_close (.inl rfl)] at hjs
      rw [write, deepest_open (.inl rfl), hj, hjs, depth, depthOfItems]
      omega
  | .object [], level, rest, _ => by
      rw [write, deepest_open (.inr rfl), deepest_close (.inr rfl), depth, depthOfMembers]
  | .object ((name, j) :: ms), level, rest, h => by
      have hj := deepest_write j (level + 1) (writeMembers ms ('\x7d' :: rest)) h.2.1
      have hms := deepest_writeMembers ms (level + 1) ('\x7d' :: rest) h.2.2
      rw [deepest_close (.inr rfl)] at hms
      rw [write, deepest_open (.inr rfl), deepest_colon, hj, hms, depth, depthOfMembers]
      omega

theorem deepest_writeItems : ∀ (js : List Json) (level : Nat) (rest : List Char), PlainItems js →
    deepest level .outside (writeItems js rest) =
      max (level + depthOfItems js) (deepest level .outside rest)
  | [], level, rest, _ => (Nat.max_eq_right (le_deepest rest level .outside)).symm
  | j :: js, level, rest, h => by
      have hj := deepest_write j level (writeItems js rest) h.1
      have hjs := deepest_writeItems js level rest h.2
      rw [writeItems, deepest_comma, hj, hjs, depthOfItems]
      omega

theorem deepest_writeMembers : ∀ (ms : List (Option String × Json)) (level : Nat)
    (rest : List Char), PlainMembers ms →
    deepest level .outside (writeMembers ms rest) =
      max (level + depthOfMembers ms) (deepest level .outside rest)
  | [], level, rest, _ => (Nat.max_eq_right (le_deepest rest level .outside)).symm
  | (name, j) :: ms, level, rest, h => by
      have hj := deepest_write j level (writeMembers ms rest) h.2.1
      have hms := deepest_writeMembers ms level rest h.2.2
      rw [writeMembers, deepest_comma, deepest_colon, hj, hms, depthOfMembers]
      omega

end

theorem nesting_print {j : Json} (h : j.Plain) : nesting j.print = j.depth := by
  rw [nesting, print, String.toList_ofList, deepest_write j 0 [] h, deepest]
  omega

end ProofSheet.Json
