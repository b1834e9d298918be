/-
# Numbers as doubles

A decimal number becomes a double in one scaling.  Its leading digits, as many as fit 64 bits, make
an integer; that is rounded to a double and then multiplied or divided by a power of ten.  Each
step rounds to nearest, so the result can differ from the nearest double in the last place.  A
number whose magnitude exceeds every double is refused; one that is too small becomes zero.
-/
import ProofSheet.Json.Basic
import ProofSheet.Text.Decimal

namespace ProofSheet

namespace Numeral

def maxWord : Nat := 18446744073709551615

def digitValue (c : Char) : Nat := c.toNat - '0'.toNat

/-- Goes on with the digits before the point as long as the integer fits: the integer, and how many
digits were left over. -/
def takeWhole : Nat → List Char → Nat × Nat
  | n, [] => (n, 0)
  | n, c :: cs =>
    let next := n * 10 + digitValue c
    if next ≤ maxWord then takeWhole next cs else (n, (c :: cs).length)

/-- Goes on with the digits after the point as long as the integer fits: the integer, and how many
digits were taken. -/
def takeFraction : Nat → List Char → Nat × Nat
  | n, [] => (n, 0)
  | n, c :: cs =>
    let next := n * 10 + digitValue c
    if next ≤ maxWord then
      let (m, taken) := takeFraction next cs
      (m, taken + 1)
    else (n, 0)

def powerOfTen (k : Nat) : Float := Float.ofScientific 1 false k

/-- A double scaled by a power of ten, unless the result is too large.  Powers down to `-308` take
one step; smaller ones take several, each by `10 ^ -308`. -/
def scale (f : Float) (e : Int) : Option Float :=
  if 0 ≤ e then
    if e ≤ 308 then
      let g := f * powerOfTen e.toNat
      if g.isInf then none else some g
    else if f == 0.0 then some f
    else none
  else if -308 ≤ e then some (f / powerOfTen (-e).toNat)
  else if f == 0.0 then some f
  else scale (f / powerOfTen 308) (e + 308)
termination_by (-e).toNat
decreasing_by omega

/-- The double that a number denotes, unless it is too large. -/
def toDouble? (n : Numeral) : Option Float :=
  let (whole, left) := takeWhole 0 n.whole
  let (digits, taken) := takeFraction whole n.fraction
  let written : Int := Nat.ofDigitChars 10 n.exponent 0
  let e : Int := left - taken + (if n.exponentNegative then -written else written)
  (scale digits.toUInt64.toFloat e).map fun f => if n.negative then -f else f

end Numeral

namespace Json

/-- The double that a tree denotes, if it is a number and not too large. -/
def toDouble? : Json → Option Float
  | .natural n => Numeral.toDouble? ⟨false, Text.decimal n, [], false, []⟩
  | .numeral n => n.toDouble?
  | _ => none

/-! ## Readable trees

A tree can be read as a whole when each of its numbers denotes a double and each of its strings has
a text. -/

/-- Is a natural number within the range of numbers?  One of 64 bits always is. -/
def naturalInRange (n : Nat) : Bool :=
  n ≤ Numeral.maxWord || (toDouble? (.natural n)).isSome

mutual

/-- Can the whole tree be read? -/
def readable : Json → Bool
  | .natural n => naturalInRange n
  | .numeral n => n.toDouble?.isSome
  | .string s => s.isSome
  | .array items => readableItems items
  | .object members => readableMembers members
  | _ => true

def readableItems : List Json → Bool
  | [] => true
  | j :: js => j.readable && readableItems js

def readableMembers : List (Option String × Json) → Bool
  | [] => true
  | (name, j) :: ms => name.isSome && j.readable && readableMembers ms

end

/-- Can the whole tree be read, with at most `room` levels of nesting? -/
def fits (room : Nat) (j : Json) : Bool :=
  j.depth ≤ room && j.readable

end Json

end ProofSheet
