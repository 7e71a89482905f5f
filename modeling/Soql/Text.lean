/-
  Text — queries, names and messages as lists of characters.

  Everything here reads text from the front or puts pieces after one another,
  so a text is a list and its rules are recursion on lists.

  * `fold`, `sameWord`: comparison of words up to ASCII case.
  * `trim`, `trimRight`: blanks taken off the ends.
  * `joinWith`: pieces with a separator between them.
  * `decimal`: a natural number in decimal digits.
-/
import Soql.Unicode.Classes

namespace Soql

/-- A text is the list of its characters. -/
abbrev Text := List Char

/-- A literal such as `"AND"` stands for its characters. -/
instance : Coe String Text := ⟨String.toList⟩

namespace Text

open Unicode

/-- Lower case for the ASCII letters; all other characters stay. -/
def fold (t : Text) : Text := t.map Char.toLower

/-- Whether two words differ at most in the case of ASCII letters. -/
def sameWord (a b : Text) : Bool := fold a == fold b

/-- The text without the blanks at its start. -/
def trimLeft (t : Text) : Text := t.dropWhile isBlank

/-- The text without the blanks at its end. -/
def trimRight (t : Text) : Text := (t.reverse.dropWhile isBlank).reverse

/-- The text without the blanks at its ends. -/
def trim (t : Text) : Text := trimRight (trimLeft t)

/-- The pieces in order, with `sep` between neighbours. -/
def joinWith (sep : Text) : List Text → Text
  | [] => []
  | [t] => t
  | t :: ts => t ++ sep ++ joinWith sep ts

/-- The pieces between the occurrences of `c`; there is one more of them than occurrences. -/
def segments (c : Char) : Text → List Text
  | [] => [[]]
  | d :: t =>
    if d = c then [] :: segments c t
    else match segments c t with
      | [] => [[d]]
      | piece :: pieces => (d :: piece) :: pieces

/-- A natural number in decimal digits, without leading zeros. -/
def decimal (n : Nat) : Text := Nat.toDigits 10 n

/-- Number of bytes of the text in UTF-8. -/
def byteCount (t : Text) : Nat := t.foldl (fun n c => n + c.utf8Size) 0

end Text

end Soql
