/-
# Fields of a text

A text cut at every occurrence of a separator.  There is always one field more than there are
separators, so the empty text has one empty field.
-/

namespace ProofSheet.Text

/-- The fields of a text between the occurrences of `sep`. -/
def fields (sep : Char) : List Char → List (List Char)
  | [] => [[]]
  | c :: cs =>
    if c = sep then [] :: fields sep cs
    else match fields sep cs with
      | [] => [[c]]
      | w :: ws => (c :: w) :: ws

theorem fields_ne_nil (sep : Char) (cs : List Char) : fields sep cs ≠ [] := by
  cases cs with
  | nil => simp [fields]
  | cons c cs =>
    simp only [fields]
    split
    · simp
    · split <;> simp

/-- Joining the fields with the separator gives the text back. -/
theorem intercalate_fields (sep : Char) (cs : List Char) :
    [sep].intercalate (fields sep cs) = cs := by
  induction cs with
  | nil => rfl
  | cons c cs ih =>
    simp only [fields]
    cases hw : fields sep cs with
    | nil => exact absurd hw (fields_ne_nil sep cs)
    | cons w ws =>
      rw [hw] at ih
      cases ws with
      | nil => by_cases h : c = sep <;> simp_all [List.intercalate, List.intersperse]
      | cons v vs => by_cases h : c = sep <;> simp_all [List.intercalate, List.intersperse]

end ProofSheet.Text
