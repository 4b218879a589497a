import ExactCover.Text.Unprintable

/-!
# Quoted texts

A text inside a message stands between quotes, so that its ends are visible, and with escapes for
what could be mistaken:

* the quote itself and the backslash follow a backslash;
* the null character, the tab, the line feed and the carriage return have short escapes;
* every other unprintable character is written as its code point in hexadecimal digits, between
  braces.

The quote is a parameter: a text stands between double quotes and a single character between
apostrophes, and each of the two leaves the other's quote alone.
-/

set_option autoImplicit false

namespace ExactCover.Text

/-- The escape that names a character by its code point. -/
def codePointEscape (c : Char) : List Char :=
  ['\\', 'u', '\x7b'] ++ Nat.toDigits 16 c.toNat ++ ['\x7d']

/-- How a character is written between two copies of `quote`. -/
def escape (quote c : Char) : List Char :=
  if c = '\x00' then ['\\', '0']
  else if c = '\t' then ['\\', 't']
  else if c = '\n' then ['\\', 'n']
  else if c = '\r' then ['\\', 'r']
  else if c = '\\' ∨ c = quote then ['\\', c]
  else if isUnprintable c then codePointEscape c
  else [c]

/-- A text between two copies of `quote`, every character escaped as needed. -/
def quoted (quote : Char) (cs : List Char) : List Char :=
  quote :: (cs.flatMap (escape quote) ++ [quote])

end ExactCover.Text
