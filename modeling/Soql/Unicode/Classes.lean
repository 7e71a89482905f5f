/-
  Unicode — the classes of characters that query text is made of.

  * `isBlank`: White_Space, which separates tokens and is trimmed.
  * `isWordStart`, `isWordPart`: characters of names and keywords.
  * `isDecimalDigit`: the digits of a currency amount.
  * `isPlain`: characters that a quotation shows as they are.

  ASCII is decided by comparison; every other character is looked up by the
  edges of the property.
-/
import Soql.Unicode.Edges
import Soql.Unicode.Alphabetic
import Soql.Unicode.Numeric
import Soql.Unicode.DecimalDigit
import Soql.Unicode.Combining
import Soql.Unicode.Unprintable

namespace Soql.Unicode

/-- The characters of the property White_Space. -/
def blanks : List Char :=
  ['\t', '\n', '\x0b', '\x0c', '\r', ' ', '\u0085', '\u00a0', '\u1680', '\u2000', '\u2001',
   '\u2002', '\u2003', '\u2004', '\u2005', '\u2006', '\u2007', '\u2008', '\u2009', '\u200a',
   '\u2028', '\u2029', '\u202f', '\u205f', '\u3000']

/-- White_Space. -/
def isBlank (c : Char) : Bool := blanks.contains c

/-- Whether `c` is one of the 128 ASCII characters. -/
def isAscii (c : Char) : Bool := decide (c.toNat < 128)

/-- Alphabetic. -/
def isAlphabetic (c : Char) : Bool :=
  if isAscii c then c.isAlpha else insideEdges alphabeticEdges c.toNat

/-- Of category Nd, Nl or No. -/
def isNumeric (c : Char) : Bool :=
  if isAscii c then c.isDigit else insideEdges numericEdges c.toNat

/-- Of category Nd in version 16, which is the version that amounts go by. -/
def isDecimalDigit (c : Char) : Bool :=
  if isAscii c then c.isDigit else insideEdges decimalDigitEdges c.toNat

/-- A character that a word may start with: alphabetic, or an underscore. -/
def isWordStart (c : Char) : Bool := isAlphabetic c || c == '_'

/-- A character that a word may go on with: alphabetic, numeric, or an underscore. -/
def isWordPart (c : Char) : Bool := isAlphabetic c || isNumeric c || c == '_'

/-- Extends the character before it: Grapheme_Extend, but no letter. -/
def isCombining (c : Char) : Bool := insideEdges combiningEdges c.toNat

/-- Shows something of its own: neither a control, a format character, a separator other than
    the space, nor a code point without a character. -/
def isPrintable (c : Char) : Bool :=
  if isAscii c then decide (' ' ≤ c ∧ c ≤ '~') else !insideEdges unprintableEdges c.toNat

/-- The letters of the property Default_Ignorable_Code_Point: fillers, which show nothing. -/
def fillers : List Char := ['\u115f', '\u1160', '\u3164', '\uffa0']

/-- A character that stands for itself in a quotation. -/
def isPlain (c : Char) : Bool := isPrintable c && !isCombining c && !fillers.contains c

end Soql.Unicode
