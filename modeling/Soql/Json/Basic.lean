/-
  JSON values.

  * `Json`: values, with numbers that are integers of 64 bits or binary
    floating-point numbers.
  * `Json.Members.ofList`: the members of an object, sorted by key; of two
    with the same key the last counts.
  * `Json.depth`: how many arrays and objects lie inside of one another.
-/
import Soql.Text
import Soql.Decimal.Binary64

namespace Soql

/-- A JSON value. -/
inductive Json where
  | null
  | bool (value : Bool)
  /-- An integer that fits in 64 bits, signed or not. -/
  | int (value : Int)
  | real (value : Binary64)
  | str (text : Text)
  | arr (items : List Json)
  | obj (members : List (Text × Json))

/-- Whether `a` comes before `b` in the order of their code points. -/
def Text.before : Text → Text → Bool
  | _, [] => false
  | [], _ :: _ => true
  | c :: a, d :: b => decide (c < d) || (c == d && Text.before a b)

namespace Json

/-- Members with a member put in at its place; one with the same key gives way. -/
def insertMember (key : Text) (value : Json) : List (Text × Json) → List (Text × Json)
  | [] => [(key, value)]
  | (k, v) :: members =>
    if k = key then (key, value) :: members
    else if Text.before key k then (key, value) :: (k, v) :: members
    else (k, v) :: insertMember key value members

/-- The members sorted by key; of two with the same key the last counts. -/
def sortMembers (members : List (Text × Json)) : List (Text × Json) :=
  members.foldl (fun sorted (key, value) => insertMember key value sorted) []

/-- The value of a member of an object. -/
def get? (key : Text) : Json → Option Json
  | obj members => members.lookup key
  | _ => none

/-- The text of a string. -/
def text? : Json → Option Text
  | str t => some t
  | _ => none

/-- The items of an array. -/
def items? : Json → Option (List Json)
  | arr items => some items
  | _ => none

mutual

/-- How many arrays and objects lie inside of one another at most. -/
def depth : Json → Nat
  | arr items => depthOfItems items + 1
  | obj members => depthOfMembers members + 1
  | _ => 0

/-- The greatest depth of the items. -/
def depthOfItems : List Json → Nat
  | [] => 0
  | item :: items => max item.depth (depthOfItems items)

/-- The greatest depth of the values. -/
def depthOfMembers : List (Text × Json) → Nat
  | [] => 0
  | (_, value) :: members => max value.depth (depthOfMembers members)

end

mutual

/-- The value with the members of all objects in it sorted. -/
def sorted : Json → Json
  | arr items => arr (sortedItems items)
  | obj members => obj (sortMembers (sortedValues members))
  | value => value

/-- Every item with its members sorted. -/
def sortedItems : List Json → List Json
  | [] => []
  | item :: items => item.sorted :: sortedItems items

/-- Every value with its members sorted. -/
def sortedValues : List (Text × Json) → List (Text × Json)
  | [] => []
  | (key, value) :: members => (key, value.sorted) :: sortedValues members

end

end Json

end Soql
