/-
  Reading JSON text.

  The members of an object are kept sorted by key, and of two with the same
  key the last counts.  At most 127 arrays and objects may lie inside of one
  another.

  * `Json.readString`: a string at the front of a text.
  * `Json.readList`: elements with commas between them.
  * `Json.readValue`: a value at the front of a text.
  * `Json.read`: the value that a whole text stands for.
-/
import Soql.Json.Number

namespace Soql.Json

/-! ## Strings -/

/-- The value of a hexadecimal digit. -/
def hexValue? (c : Char) : Option Nat :=
  if c.isDigit then some (c.toNat - '0'.toNat)
  else if 'a' ≤ c ∧ c ≤ 'f' then some (c.toNat - 'a'.toNat + 10)
  else if 'A' ≤ c ∧ c ≤ 'F' then some (c.toNat - 'A'.toNat + 10)
  else none

/-- The number that four hexadecimal digits stand for. -/
def hexUnit? (a b c d : Char) : Option Nat := do
  return ((← hexValue? a) * 16 + (← hexValue? b)) * 256 + ((← hexValue? c) * 16 + (← hexValue? d))

/-- The character that an escape of one letter stands for. -/
def simpleEscape? : Char → Option Char
  | '"' => some '"'
  | '\\' => some '\\'
  | '/' => some '/'
  | 'b' => some '\x08'
  | 'f' => some '\x0c'
  | 'n' => some '\n'
  | 'r' => some '\r'
  | 't' => some '\t'
  | _ => none

/-- Whether a unit of UTF-16 is the first of two. -/
def isLead (unit : Nat) : Bool := decide (0xD800 ≤ unit ∧ unit < 0xDC00)

/-- Whether a unit of UTF-16 is the second of two. -/
def isTrail (unit : Nat) : Bool := decide (0xDC00 ≤ unit ∧ unit < 0xE000)

/-- The character of two units of UTF-16. -/
def joinUnits (lead trail : Nat) : Char :=
  Char.ofNat (0x10000 + (lead - 0xD800) * 0x400 + (trail - 0xDC00))

/-- The inside of a string up to its closing quote, and what follows that; `lead` is the first of
    two units of UTF-16 if only that has been read. -/
def readStringAfter : Option Nat → Text → Option (Text × Text)
  | none, '"' :: t => some ([], t)
  | none, '\\' :: 'u' :: a :: b :: c :: d :: t => do
    let unit ← hexUnit? a b c d
    if isLead unit then readStringAfter (some unit) t
    else if isTrail unit then none
    else
      let (inside, rest) ← readStringAfter none t
      return (Char.ofNat unit :: inside, rest)
  | some lead, '\\' :: 'u' :: a :: b :: c :: d :: t => do
    let unit ← hexUnit? a b c d
    if isTrail unit then
      let (inside, rest) ← readStringAfter none t
      return (joinUnits lead unit :: inside, rest)
    else none
  | none, '\\' :: c :: t => do
    let character ← simpleEscape? c
    let (inside, rest) ← readStringAfter none t
    return (character :: inside, rest)
  | none, c :: t =>
    if ' ' ≤ c ∧ c ≠ '\\' then do
      let (inside, rest) ← readStringAfter none t
      return (c :: inside, rest)
    else none
  | _, _ => none

/-- The inside of a string up to its closing quote, and what follows that. -/
def readString (t : Text) : Option (Text × Text) := readStringAfter none t

/-! ## Values -/

/-- Blanks of JSON text. -/
def isJsonBlank (c : Char) : Bool := c == ' ' || c == '\n' || c == '\t' || c == '\r'

/-- The text without the blanks at its start. -/
def skipJsonBlanks (t : Text) : Text := t.dropWhile isJsonBlank

/-- A value that is neither an array nor an object, at the front of a text. -/
def readScalar : Text → Option (Json × Text)
  | 'n' :: 'u' :: 'l' :: 'l' :: t => some (null, t)
  | 't' :: 'r' :: 'u' :: 'e' :: t => some (bool true, t)
  | 'f' :: 'a' :: 'l' :: 's' :: 'e' :: t => some (bool false, t)
  | '"' :: t => (readString t).map fun (inside, rest) => (str inside, rest)
  | t => readNumber t

/-- The elements of a list after the first, at most `n`, each after a comma, up to the sign that
    closes the list. -/
def readRest {α : Type} (close : Char) (element : Text → Option (α × Text)) :
    Nat → Text → Option (List α × Text)
  | 0, _ => none
  | n + 1, t =>
    match skipJsonBlanks t with
    | ',' :: t => do
      let (a, t) ← element (skipJsonBlanks t)
      let (as, t) ← readRest close element n t
      return (a :: as, t)
    | c :: t => if c = close then some ([], t) else none
    | [] => none

/-- The elements of a list after the sign that opens it. -/
def readList {α : Type} (close : Char) (element : Text → Option (α × Text)) (t : Text) :
    Option (List α × Text) :=
  match skipJsonBlanks t with
  | [] => none
  | c :: t =>
    if c = close then some ([], t)
    else do
      let (a, t) ← element (c :: t)
      let (as, t) ← readRest close element (t.length + 1) t
      return (a :: as, t)

/-- A member of an object: its key, a colon and its value. -/
def readMember (value : Text → Option (Json × Text)) (t : Text) :
    Option ((Text × Json) × Text) := do
  let '"' :: t := t | none
  let (key, t) ← readString t
  let ':' :: t := skipJsonBlanks t | none
  let (item, t) ← value (skipJsonBlanks t)
  return ((key, item), t)

/-- A value at the front of a text that does not start blank, with at most that many arrays and
    objects inside of one another. -/
def readValue : Nat → Text → Option (Json × Text)
  | 0, t => readScalar t
  | n + 1, t =>
    match t with
    | '[' :: t => (readList ']' (readValue n) t).map fun (items, t) => (arr items, t)
    | '\x7b' :: t =>
      (readList '\x7d' (readMember (readValue n)) t).map fun (members, t) =>
        (obj (sortMembers members), t)
    | t => readScalar t

/-- How many arrays and objects may lie inside of one another. -/
def maxDepth : Nat := 127

/-- The value that a text stands for. -/
def read (t : Text) : Option Json := do
  let (value, rest) ← readValue maxDepth (skipJsonBlanks t)
  guard (skipJsonBlanks rest).isEmpty
  return value

end Soql.Json
