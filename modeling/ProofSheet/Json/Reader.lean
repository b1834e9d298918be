/-
# Reading JSON text

The grammar is the strict one: no comments, no trailing commas, no leading zeros, no raw control
characters in strings, nothing after the value.  Blanks are space, tab, line feed and carriage
return.  No limit on nesting is applied here; a text of `n` characters has at most `n` levels, and
that bounds the recursion.
-/
import ProofSheet.Json.Basic
import ProofSheet.Parser

namespace ProofSheet.Json

/-- A parser of characters.  All failures are alike. -/
abbrev Reader (α : Type) : Type := Parser Char Unit α

namespace Reader

def isBlank (c : Char) : Bool :=
  c == ' ' || c == '\t' || c == '\n' || c == '\r'

def skip (cs : List Char) : List Char := cs.dropWhile isBlank

def char (c : Char) : Reader Unit
  | d :: cs => if c = d then .ok ((), cs) else .error ()
  | [] => .error ()

/-- Reads the given characters and stands for `j`. -/
def word (expected : List Char) (j : Json) : Reader Json := fun cs =>
  if expected.isPrefixOf cs then .ok (j, cs.drop expected.length) else .error ()

/-! ## Numbers -/

def digits : Reader (List Char) := fun cs =>
  match cs.takeWhile Char.isDigit with
  | [] => .error ()
  | ds => .ok (ds, cs.dropWhile Char.isDigit)

/-- Reads the digits before the point.  A zero in front stands alone. -/
def wholeDigits : Reader (List Char) := fun cs => do
  let (ds, cs) ← digits cs
  match ds with
  | '0' :: _ :: _ => .error ()
  | _ => return (ds, cs)

/-- Reads the fraction, if there is one: its digits. -/
def fraction : Reader (List Char)
  | '.' :: cs => digits cs
  | cs => .ok ([], cs)

/-- Reads the digits of an exponent and the sign before them. -/
def signedDigits : Reader (Bool × List Char)
  | '-' :: cs => do
    let (ds, cs) ← digits cs
    return ((true, ds), cs)
  | '+' :: cs => do
    let (ds, cs) ← digits cs
    return ((false, ds), cs)
  | cs => do
    let (ds, cs) ← digits cs
    return ((false, ds), cs)

/-- Reads the exponent, if there is one: its sign and its digits. -/
def exponent : Reader (Bool × List Char)
  | 'e' :: cs => signedDigits cs
  | 'E' :: cs => signedDigits cs
  | cs => .ok ((false, []), cs)

def unsigned (negative : Bool) : Reader Json := fun cs => do
  let (whole, cs) ← wholeDigits cs
  let (fraction, cs) ← fraction cs
  let ((exponentNegative, exponent), cs) ← exponent cs
  if !negative && fraction.isEmpty && exponent.isEmpty then
    return (.natural (Nat.ofDigitChars 10 whole 0), cs)
  else return (.numeral ⟨negative, whole, fraction, exponentNegative, exponent⟩, cs)

def number : Reader Json
  | '-' :: cs => unsigned true cs
  | cs => unsigned false cs

/-! ## Strings

A string is read as pieces: characters, and code units given by number.  Two code units that make
up a surrogate pair are one character; half a pair is none. -/

/-- A piece of a string: a character, or a code unit given by its number. -/
inductive Piece where
  | char (c : Char)
  | unit (code : Nat)
  deriving DecidableEq, Repr

def hexValue? (c : Char) : Option Nat :=
  if c.isDigit then some (c.toNat - '0'.toNat)
  else if 'a' ≤ c ∧ c ≤ 'f' then some (c.toNat - 'a'.toNat + 10)
  else if 'A' ≤ c ∧ c ≤ 'F' then some (c.toNat - 'A'.toNat + 10)
  else none

def hexCode? (a b c d : Char) : Option Nat := do
  let a ← hexValue? a
  let b ← hexValue? b
  let c ← hexValue? c
  let d ← hexValue? d
  return ((a * 16 + b) * 16 + c) * 16 + d

/-- The character that a backslash and a letter stand for. -/
def shortEscape? : Char → Option Char
  | '"' => some '"'
  | '\\' => some '\\'
  | '/' => some '/'
  | 'b' => some '\x08'
  | 'f' => some '\x0c'
  | 'n' => some '\n'
  | 'r' => some '\r'
  | 't' => some '\t'
  | _ => none

/-- Reads the pieces of a string up to its closing quote. -/
def pieces : Reader (List Piece)
  | [] => .error ()
  | '"' :: cs => .ok ([], cs)
  | '\\' :: 'u' :: a :: b :: c :: d :: cs =>
    match hexCode? a b c d with
    | none => .error ()
    | some code => do
      let (ps, cs) ← pieces cs
      return (.unit code :: ps, cs)
  | '\\' :: e :: cs =>
    match shortEscape? e with
    | none => .error ()
    | some c => do
      let (ps, cs) ← pieces cs
      return (.char c :: ps, cs)
  | c :: cs =>
    if c = '\\' ∨ c < ' ' then .error ()
    else do
      let (ps, cs) ← pieces cs
      return (.char c :: ps, cs)

def isHighHalf (u : Nat) : Bool := 0xD800 ≤ u && u ≤ 0xDBFF

def isLowHalf (u : Nat) : Bool := 0xDC00 ≤ u && u ≤ 0xDFFF

/-- The characters that some pieces denote, if every half of a surrogate pair has its partner. -/
def characters? : List Piece → Option (List Char)
  | [] => some []
  | .char c :: ps => (characters? ps).map (c :: ·)
  | .unit u :: .unit v :: ps =>
    if isHighHalf u then
      if isLowHalf v then
        (characters? ps).map (Char.ofNat (0x10000 + (u - 0xD800) * 0x400 + (v - 0xDC00)) :: ·)
      else none
    else if isLowHalf u then none
    else (characters? (.unit v :: ps)).map (Char.ofNat u :: ·)
  | .unit u :: ps =>
    if isHighHalf u || isLowHalf u then none
    else (characters? ps).map (Char.ofNat u :: ·)

def stringBody : Reader (Option String) := fun cs => do
  let (ps, cs) ← pieces cs
  return ((characters? ps).map String.ofList, cs)

/-! ## Values -/

/-- Reads something with blanks around it. -/
def spaced {α : Type} (p : Reader α) : Reader α := fun cs => do
  let (a, cs) ← p (skip cs)
  return (a, skip cs)

/-- Reads the items of an array or the members of an object up to the closing character. -/
def listUpTo {α : Type} (close : Char) (item : Reader α) : Reader (List α) := fun cs =>
  match char close (skip cs) with
  | .ok ((), cs) => .ok ([], cs)
  | .error () => do
    let ((a, as), cs) ← Parser.sepBy (· == ',') (spaced item) cs
    let ((), cs) ← char close cs
    return (a :: as, cs)

def member (value : Reader Json) : Reader (Option String × Json) := fun cs => do
  let ((), cs) ← char '"' cs
  let (name, cs) ← stringBody cs
  let ((), cs) ← char ':' (skip cs)
  let (j, cs) ← value (skip cs)
  return ((name, j), cs)

/-- Reads a value with at most `levels` levels of nesting. -/
def value : (levels : Nat) → Reader Json
  | _, 'n' :: cs => word "ull".toList .null cs
  | _, 't' :: cs => word "rue".toList (.bool true) cs
  | _, 'f' :: cs => word "alse".toList (.bool false) cs
  | _, '"' :: cs => do
    let (s, cs) ← stringBody cs
    return (.string s, cs)
  | levels + 1, '[' :: cs => do
    let (items, cs) ← listUpTo ']' (value levels) cs
    return (.array items, cs)
  | levels + 1, '\x7b' :: cs => do
    let (members, cs) ← listUpTo '\x7d' (member (value levels)) cs
    return (.object members, cs)
  | _, cs => number cs

end Reader

def parse? (s : String) : Option Json :=
  match Reader.spaced (Reader.value s.length) s.toList with
  | .ok (j, []) => some j
  | _ => none

end ProofSheet.Json
