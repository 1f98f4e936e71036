import Mathlib.Data.Int.Notation
import Mathlib.Data.Nat.Notation

/-!
# Reading Integers

Python's `int` of a string: blanks around an optional sign and decimal digits with single
underscores between them. Text beyond ASCII is first translated: every other kind of white
space counts as a blank and every decimal digit of Unicode as the digit it stands for. Numerals
of more than 4300 digits are refused.

The tables are those of Unicode 13, which is what Python 3.10 uses; the limit on the digits is
the default one.
-/

/-- The white space beyond ASCII. -/
def wideSpaces : List ℕ :=
  [0x85, 0xA0, 0x1680, 0x2000, 0x2001, 0x2002, 0x2003, 0x2004, 0x2005, 0x2006, 0x2007, 0x2008,
    0x2009, 0x200A, 0x2028, 0x2029, 0x202F, 0x205F, 0x3000]

/-- The zeros of the decimal digits beyond ASCII. Each is followed by its nine other digits. -/
def wideZeros : List ℕ :=
  [0x660, 0x6F0, 0x7C0, 0x966, 0x9E6, 0xA66, 0xAE6, 0xB66, 0xBE6, 0xC66, 0xCE6, 0xD66, 0xDE6,
    0xE50, 0xED0, 0xF20, 0x1040, 0x1090, 0x17E0, 0x1810, 0x1946, 0x19D0, 0x1A80, 0x1A90, 0x1B50,
    0x1BB0, 0x1C40, 0x1C50, 0xA620, 0xA8D0, 0xA900, 0xA9D0, 0xA9F0, 0xAA50, 0xABF0, 0xFF10,
    0x104A0, 0x10D30, 0x11066, 0x110F0, 0x11136, 0x111D0, 0x112F0, 0x11450, 0x114D0, 0x11650,
    0x116C0, 0x11730, 0x118E0, 0x11950, 0x11C50, 0x11D50, 0x11DA0, 0x16A60, 0x16B50, 0x1D7CE,
    0x1D7D8, 0x1D7E2, 0x1D7EC, 0x1D7F6, 0x1E140, 0x1E2F0, 0x1E950, 0x1FBF0]

/-- A character as `int` takes it. A question mark stands for those that no number has. -/
def toAsciiDigit (c : Char) : Char :=
  if c.toNat < 127 then c
  else if c.toNat ∈ wideSpaces then ' '
  else match wideZeros.find? (fun first => first ≤ c.toNat && c.toNat < first + 10) with
    | some first => Char.ofNat ('0'.toNat + (c.toNat - first))
    | none => '?'

/-- The blanks of ASCII. `int` does not count the separators U+001C to U+001F among them. -/
def isIntSpace (c : Char) : Bool := c ∈ [' ', '\t', '\n', '\x0b', '\x0c', '\r']

/-- Without the blanks at both ends. -/
def stripIntSpaces (s : List Char) : List Char :=
  ((s.dropWhile isIntSpace).reverse.dropWhile isIntSpace).reverse

/-- Decimal digits, with single underscores between them. -/
def pyDigits (s : List Char) : Option ℕ :=
  let parts := s.splitOn '_'
  if parts.all (fun part => !part.isEmpty && part.all Char.isDigit) &&
      parts.flatten.length ≤ 4300 then
    some (parts.flatten.foldl (fun value digit => 10 * value + (digit.toNat - '0'.toNat)) 0)
  else none

/-- `int(s)` of a string, which raises where there is no value. -/
def pyInt (s : String) : Option ℤ :=
  match stripIntSpaces (s.toList.map toAsciiDigit) with
  | '-' :: digits => (pyDigits digits).map (fun value => -(value : ℤ))
  | '+' :: digits => (pyDigits digits).map (fun value => (value : ℤ))
  | digits => (pyDigits digits).map (fun value => (value : ℤ))

example : pyInt "\x0b+1_0 " = some 10 := by decide +kernel
example : pyInt "1__0" = none := by decide +kernel
-- ARABIC-INDIC DIGIT THREE behind a no-break space
example : pyInt (String.ofList [Char.ofNat 0xA0, Char.ofNat 0x663]) = some 3 := by decide +kernel
