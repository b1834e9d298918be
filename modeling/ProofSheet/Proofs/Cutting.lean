/-
# Cutting and trimming

Typed lists and typed addresses are texts with a separator between their parts and blanks at the ends.  The
parts are found again if the separator is in none of them (`fields_intercalate`), and trimming takes away
just the blanks that were put around a text which has none at its own ends (`trim_padded`,
`exists_trim`).
-/
import Mathlib.Data.List.DropRight
import Mathlib.Data.List.TakeWhile
import ProofSheet.Text.Blank
import ProofSheet.Text.Split

namespace ProofSheet

namespace Text

/-! ## Cutting what was joined -/

theorem fields_of_notMem {sep : Char} {w : List Char} (h : sep ∉ w) : fields sep w = [w] := by
  induction w with
  | nil => rfl
  | cons c w ih =>
      obtain ⟨hc, hw⟩ := not_or.1 (mt List.mem_cons.2 h)
      rw [fields, if_neg (Ne.symm hc), ih hw]

theorem fields_append {sep : Char} {w : List Char} (h : sep ∉ w) (cs : List Char) :
    fields sep (w ++ sep :: cs) = w :: fields sep cs := by
  induction w with
  | nil => rw [List.nil_append, fields, if_pos rfl]
  | cons c w ih =>
      obtain ⟨hc, hw⟩ := not_or.1 (mt List.mem_cons.2 h)
      rw [List.cons_append, fields, if_neg (Ne.symm hc), ih hw]

theorem fields_intercalate {sep : Char} {ws : List (List Char)} (hne : ws ≠ [])
    (h : ∀ w ∈ ws, sep ∉ w) : fields sep ([sep].intercalate ws) = ws := by
  induction ws with
  | nil => exact absurd rfl hne
  | cons w ws ih =>
      obtain ⟨hw, hws⟩ := List.forall_mem_cons.1 h
      cases ws with
      | nil => simpa [List.intercalate] using fields_of_notMem hw
      | cons v vs =>
          have hjoin : [sep].intercalate (w :: v :: vs) = w ++ sep :: [sep].intercalate (v :: vs) := by
            simp [List.intercalate]
          rw [hjoin, fields_append hw, ih (List.cons_ne_nil v vs) hws]

theorem mem_intersperse {α : Type} {sep a : α} :
    ∀ {l : List α}, a ∈ l.intersperse sep → a = sep ∨ a ∈ l
  | [], h => absurd h List.not_mem_nil
  | [_], h => .inr h
  | x :: y :: l, h => by
      rcases List.mem_cons.1 h with rfl | h
      · exact .inr List.mem_cons_self
      · rcases List.mem_cons.1 h with rfl | h
        · exact .inl rfl
        · rcases mem_intersperse h with rfl | h
          · exact .inl rfl
          · exact .inr (List.mem_cons_of_mem x h)

theorem mem_intercalate {sep c : Char} {ws : List (List Char)} (h : c ∈ [sep].intercalate ws) :
    c = sep ∨ ∃ w ∈ ws, c ∈ w := by
  obtain ⟨w, hw, hc⟩ := List.mem_flatten.1 h
  rcases mem_intersperse hw with rfl | hw
  · exact .inl (List.mem_singleton.1 hc)
  · exact .inr ⟨w, hw, hc⟩

theorem notMem_of_mem_fields {sep : Char} {cs w : List Char} (h : w ∈ fields sep cs) : sep ∉ w := by
  induction cs generalizing w with
  | nil =>
      rw [fields, List.mem_singleton] at h
      rw [h]
      exact List.not_mem_nil
  | cons c cs ih =>
      rw [fields] at h
      split at h
      · rcases List.mem_cons.1 h with rfl | h
        · exact List.not_mem_nil
        · exact ih h
      · rename_i hc
        split at h
        · rename_i hnil
          exact absurd hnil (fields_ne_nil sep cs)
        · rename_i v ws hws
          rw [hws] at ih
          rcases List.mem_cons.1 h with rfl | h
          · intro hin
            rcases List.mem_cons.1 hin with rfl | hin
            · exact hc rfl
            · exact ih List.mem_cons_self hin
          · exact ih (List.mem_cons_of_mem v h)

/-! ## Trimming -/

variable {cs pre post : List Char}

def Blanks (cs : List Char) : Prop := ∀ c ∈ cs, isBlank c = true

/-- The text has no blank at either end. -/
structure Tight (cs : List Char) : Prop where
  first : ∀ c ∈ cs.head?, isBlank c = false
  last : ∀ c ∈ cs.getLast?, isBlank c = false

theorem dropWhile_isBlank_eq_self (h : ∀ c ∈ cs.head?, isBlank c = false) :
    cs.dropWhile isBlank = cs := by
  cases cs with
  | nil => rfl
  | cons c cs => exact List.dropWhile_cons_of_neg (by simp [h c rfl])

theorem trim_padded (hpre : Blanks pre) (hpost : Blanks post) (h : Tight cs) :
    trim (pre ++ cs ++ post) = cs := by
  have hpost' : Blanks post.reverse := fun c hc => hpost c (List.mem_reverse.1 hc)
  cases hcs : cs with
  | nil =>
      -- with nothing in the middle all is blank, and the left side takes everything
      have hleft : trimLeft (pre ++ [] ++ post) = [] := by
        rw [trimLeft, List.append_nil, List.dropWhile_append_of_pos hpre]
        exact List.dropWhile_eq_nil_iff.2 hpost
      rw [trim, hleft]
      rfl
  | cons c ds =>
      rw [← hcs]
      have hhead : ∀ d ∈ (cs ++ post).head?, isBlank d = false := by
        rw [List.head?_append_of_ne_nil cs (hcs ▸ List.cons_ne_nil c ds)]
        exact h.first
      have hlast : ∀ d ∈ cs.reverse.head?, isBlank d = false := by
        rw [List.head?_reverse]
        exact h.last
      rw [trim, trimLeft, List.append_assoc, List.dropWhile_append_of_pos hpre,
        dropWhile_isBlank_eq_self hhead, trimRight, List.reverse_append,
        List.dropWhile_append_of_pos hpost', dropWhile_isBlank_eq_self hlast, List.reverse_reverse]

theorem tight_of_solid (h : ∀ c ∈ cs, isBlank c = false) : Tight cs :=
  ⟨fun c hc => h c (List.mem_of_head? hc), fun c hc => h c (List.mem_of_getLast? hc)⟩

theorem trim_eq_self (h : ∀ c ∈ cs, isBlank c = false) : trim cs = cs := by
  have hnone : Blanks [] := nofun
  simpa using trim_padded hnone hnone (tight_of_solid h)

theorem trim_blanks (h : Blanks cs) : trim cs = [] := by
  have hnone : Tight [] := ⟨nofun, nofun⟩
  have hpost : Blanks [] := nofun
  simpa using trim_padded h hpost hnone

theorem head?_dropWhile_isBlank (cs : List Char) :
    ∀ c ∈ (cs.dropWhile isBlank).head?, isBlank c = false := by
  intro c hc
  have hhead := List.head?_dropWhile_not isBlank cs
  rw [hc] at hhead
  exact hhead

theorem blanks_takeWhile (cs : List Char) : Blanks (cs.takeWhile isBlank) :=
  fun _ => List.mem_takeWhile_imp

/-- What trimming leaves is the text less blanks at its ends, and has none there itself. -/
theorem exists_trim (cs : List Char) :
    ∃ pre post, Blanks pre ∧ Blanks post ∧ cs = pre ++ trim cs ++ post ∧ Tight (trim cs) := by
  let inner := cs.dropWhile isBlank
  let rest := inner.reverse.takeWhile isBlank
  have hinner : inner = trim cs ++ rest.reverse := by
    have hcut := congrArg List.reverse
      (List.takeWhile_append_dropWhile (p := isBlank) (l := inner.reverse))
    rw [List.reverse_append, List.reverse_reverse] at hcut
    exact hcut.symm
  have hrest : Blanks rest.reverse := fun c hc => blanks_takeWhile _ c (List.mem_reverse.1 hc)
  have hcs : cs = cs.takeWhile isBlank ++ trim cs ++ rest.reverse := by
    rw [List.append_assoc, ← hinner]
    exact List.takeWhile_append_dropWhile.symm
  refine ⟨_, _, blanks_takeWhile cs, hrest, hcs, ?_, ?_⟩
  · intro c hc
    have hne : trim cs ≠ [] := fun hnil => by rw [hnil] at hc; cases hc
    refine head?_dropWhile_isBlank cs c ?_
    show c ∈ inner.head?
    rw [hinner, List.head?_append_of_ne_nil _ hne]
    exact hc
  · intro c hc
    rw [trim, trimRight, List.getLast?_reverse] at hc
    exact head?_dropWhile_isBlank _ c hc

end Text

end ProofSheet
