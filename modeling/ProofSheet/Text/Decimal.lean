/-
# Decimal numerals

Natural numbers written with the digits `0` to `9`.  Reading accepts leading zeros; writing
produces none.
-/

namespace ProofSheet.Text

/-- The decimal digits of a number, most significant first. -/
def decimal (n : Nat) : List Char :=
  Nat.toDigits 10 n

/-- The number that a nonempty run of digits denotes. -/
def ofDecimal? (cs : List Char) : Option Nat :=
  if !cs.isEmpty && cs.all Char.isDigit then some (Nat.ofDigitChars 10 cs 0) else none

theorem isDigit_of_mem_decimal {n : Nat} {c : Char} (h : c ∈ decimal n) : c.isDigit = true :=
  Nat.isDigit_of_mem_toDigits (by decide) (by decide) h

theorem decimal_ne_nil (n : Nat) : decimal n ≠ [] := by
  simp [decimal]

/-- Reading gives back the number that was written. -/
theorem ofDecimal?_decimal (n : Nat) : ofDecimal? (decimal n) = some n := by
  have hd : (decimal n).all Char.isDigit = true :=
    List.all_eq_true.2 fun _ h => isDigit_of_mem_decimal h
  have hn : (decimal n).isEmpty = false := by simp [decimal]
  have hv : Nat.ofDigitChars 10 (decimal n) 0 = n :=
    Nat.ofDigitChars_toDigits (by decide) (by decide)
  simp [ofDecimal?, hd, hn, hv]

end ProofSheet.Text
