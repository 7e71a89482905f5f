/-
  Lexemes — a text as the sequence of its tokens, each with its place, and
  the way the sequence ends.

  * `Lexeme`: a token, where it starts and stops, and the text from there on.
  * `Lexemes`: lexemes up to the end of the text or to an error.
  * `Scanner.lexemes`: all that a scanner still has to read.
-/
import Soql.Token.Scan

namespace Soql

/-- A token at its place in a text. -/
structure Lexeme where
  token : Token
  /-- Number of characters before the token. -/
  start : Nat
  /-- Number of characters up to the end of the token. -/
  stop : Nat
  /-- The text from the start of the token on. -/
  source : Text
deriving DecidableEq

namespace Lexeme

/-- The end of a text of `length` characters. -/
def finish (length : Nat) : Lexeme := ⟨.finish, length, length, []⟩

/-- The text from the start of this lexeme up to the end of a later one. -/
def textUpTo (first last : Lexeme) : Text := first.source.take (last.stop - first.start)

end Lexeme

/-- The lexemes of a text from some place on. -/
inductive Lexemes where
  /-- A lexeme, and those after it. -/
  | next (lexeme : Lexeme) (rest : Lexemes)
  /-- The end of the text, after that many characters. -/
  | finish (length : Nat)
  /-- An error that every further attempt meets again. -/
  | stuck (error : ScanError)
  /-- An error that uses up the text: after it comes the end. -/
  | broken (error : ScanError) (length : Nat)
deriving DecidableEq

namespace Lexemes

/-- Number of lexemes before the end. -/
def size : Lexemes → Nat
  | next _ rest => rest.size + 1
  | _ => 0

/-- The lexemes before the end. -/
def toList : Lexemes → List Lexeme
  | next lexeme rest => lexeme :: rest.toList
  | _ => []

/-- The error or the number of characters at which the sequence ends. -/
def ending : Lexemes → Except ScanError Nat
  | next _ rest => rest.ending
  | finish length => .ok length
  | stuck error => .error error
  | broken error _ => .error error

/-- The next lexeme or the error that stands in its place, and what comes after. -/
def pull : Lexemes → Except ScanError Lexeme × Lexemes
  | next lexeme rest => (.ok lexeme, rest)
  | finish length => (.ok (.finish length), finish length)
  | stuck error => (.error error, stuck error)
  | broken error length => (.error error, finish length)

end Lexemes

/-- The lexemes that `s` still has to read, at most `n` of them. -/
def Scanner.lexemesUpTo : Nat → Scanner → Lexemes
  | 0, s => .finish s.position
  | n + 1, s =>
    match s.next with
    | (.ok .finish, after) => .finish after.position
    | (.ok token, after) =>
      .next ⟨token, after.tokenStart, after.position, s.skipBlanks.rest⟩ (lexemesUpTo n after)
    | (.error error, ⟨_, [], length, _⟩) => .broken error length
    | (.error error, _) => .stuck error

/-- The lexemes that `s` still has to read.  Each takes a character, so their number is bounded
    by the length of the rest. -/
def Scanner.lexemes (s : Scanner) : Lexemes := s.lexemesUpTo (s.rest.length + 1)

/-- The lexemes of a text. -/
def Lexemes.ofText (text : Text) : Lexemes := (Scanner.ofText text).lexemes

end Soql
