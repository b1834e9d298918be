/-
# Writing JSON text

The compact form: no blanks, members in their order.  A string escapes the quote, the backslash and
the control characters below the space, by a letter where there is one and by number otherwise;
every other character stands for itself.  Everything is written in front of a given rest, which keeps
writing linear in the length of the text.
-/
import ProofSheet.Json.Basic
import ProofSheet.Text.Decimal

namespace ProofSheet.Json

def hexDigit (n : Nat) : Char :=
  if n < 10 then Char.ofNat ('0'.toNat + n) else Char.ofNat ('a'.toNat + (n - 10))

def escapeByNumber (c : Char) : List Char :=
  ['\\', 'u', '0', '0', hexDigit (c.toNat / 16), hexDigit (c.toNat % 16)]

def escapeChar (c : Char) : List Char :=
  match c with
  | '"' => ['\\', '"']
  | '\\' => ['\\', '\\']
  | '\x08' => ['\\', 'b']
  | '\x0c' => ['\\', 'f']
  | '\n' => ['\\', 'n']
  | '\r' => ['\\', 'r']
  | '\t' => ['\\', 't']
  | c => if c < ' ' then escapeByNumber c else [c]

/-- Writes the characters of a string, escaped where necessary, in front of `rest`. -/
def writeChars : List Char → List Char → List Char
  | [], rest => rest
  | c :: cs, rest => escapeChar c ++ writeChars cs rest

/-- Writes a string in quotes in front of `rest`.  A string without a text is written empty. -/
def writeString (s : Option String) (rest : List Char) : List Char :=
  '"' :: writeChars (s.getD "").toList ('"' :: rest)

def numeralText (n : Numeral) : List Char :=
  (if n.negative then ['-'] else []) ++ n.whole ++
    (if n.fraction.isEmpty then [] else '.' :: n.fraction) ++
    (if n.exponent.isEmpty then []
      else 'e' :: (if n.exponentNegative then ['-'] else []) ++ n.exponent)

mutual

def write : Json → List Char → List Char
  | .null, rest => "null".toList ++ rest
  | .bool true, rest => "true".toList ++ rest
  | .bool false, rest => "false".toList ++ rest
  | .natural n, rest => Text.decimal n ++ rest
  | .numeral n, rest => numeralText n ++ rest
  | .string s, rest => writeString s rest
  | .array [], rest => '[' :: ']' :: rest
  | .array (j :: js), rest => '[' :: j.write (writeItems js (']' :: rest))
  | .object [], rest => '\x7b' :: '\x7d' :: rest
  | .object ((name, j) :: ms), rest =>
    '\x7b' :: writeString name (':' :: j.write (writeMembers ms ('\x7d' :: rest)))

/-- Writes items, with a comma before each, in front of `rest`. -/
def writeItems : List Json → List Char → List Char
  | [], rest => rest
  | j :: js, rest => ',' :: j.write (writeItems js rest)

/-- Writes members, with a comma before each, in front of `rest`. -/
def writeMembers : List (Option String × Json) → List Char → List Char
  | [], rest => rest
  | (name, j) :: ms, rest => ',' :: writeString name (':' :: j.write (writeMembers ms rest))

end

def print (j : Json) : String := String.ofList (j.write [])

end ProofSheet.Json
