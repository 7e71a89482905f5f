/-
  Decoding — from JSON values to what they stand for.

  * `Decoder`: reads a value or tells the fault.
  * decoders for texts, truth values, numbers, lists, optional values and
    keywords.
  * `Record`: the form of a structure, read from an object by keys or from an
    array by positions.
-/
import Soql.Codec.Fault
import Soql.Keyword

namespace Soql

/-- Reads what a JSON value stands for. -/
abbrev Decoder (α : Type) := Json → Except Fault α

namespace Decode

variable {α σ κ : Type}

/-! ## Simple values -/

/-- A text. -/
def text : Decoder Text
  | .str t => .ok t
  | v => .error (.invalidType v "a string")

/-- A truth value. -/
def bool : Decoder Bool
  | .bool b => .ok b
  | v => .error (.invalidType v "a boolean")

/-- A natural number below `bound`, which is the range of the type called `wanted`. -/
def natBelow (bound : Nat) (wanted : Text) : Decoder Nat
  | .int i =>
    if 0 ≤ i ∧ i < bound then .ok i.toNat else .error (.invalidInteger i wanted)
  | v => .error (.invalidType v wanted)

/-- The items of an array. -/
def list (item : Decoder α) : Decoder (List α)
  | .arr items => items.mapM item
  | v => .error (.invalidType v "a sequence")

/-- A value that may be absent, which `null` stands for. -/
def optional (value : Decoder α) : Decoder (Option α)
  | .null => .ok none
  | v => some <$> value v

/-- A member of a set of keywords, up to ASCII case. -/
def keyword [Keyword κ] : Decoder κ := fun v => do
  let word ← text v
  match Keyword.ofWord? word with
  | some keyword => .ok keyword
  | none => .error (.unknownVariant word ((Keyword.all : List κ).map Keyword.spelling))

/-- The first of two forms that fits; faults of the forms are not told. -/
def either (type : Text) (first second : Decoder α) : Decoder α := fun v =>
  match first v with
  | .ok a => .ok a
  | .error _ =>
    match second v with
    | .ok a => .ok a
    | .error _ => .error (.noVariant type)

/-! ## Structures -/

/-- A component of a structure `σ`. -/
structure Slot (σ : Type) where
  key : Text
  /-- Whether the structure is incomplete without it. -/
  required : Bool
  /-- Reads the component and puts it in. -/
  put : σ → Json → Except Fault σ

/-- A component that must be there. -/
def required (key : Text) (value : Decoder α) (put : σ → α → σ) : Slot σ :=
  ⟨key, true, fun s v => put s <$> value v⟩

/-- A component that may be left out. -/
def defaulted (key : Text) (value : Decoder α) (put : σ → α → σ) : Slot σ :=
  ⟨key, false, fun s v => put s <$> value v⟩

/-- The form of a structure. -/
structure Record (σ : Type) where
  name : Text
  /-- The components in their order. -/
  slots : List (Slot σ)
  /-- The structure with nothing put in. -/
  blank : σ

/-- Where a value comes from.  What lies under a field expression is held back until the kind of
    the expression is known, and some faults are then told in other words. -/
inductive Origin where
  | direct
  | heldBack
deriving DecidableEq

/-- The members of an object put in, in their order; members that are no component are passed
    over. -/
def putMembers (slots : List (Slot σ)) : σ → List (Text × Json) → Except Fault σ
  | s, [] => .ok s
  | s, (key, value) :: members => do
    match slots.find? (·.key == key) with
    | some slot => putMembers slots (← slot.put s value) members
    | none => putMembers slots s members

/-- Fails on the first required component that is no member. -/
def checkMembers (members : List (Text × Json)) : List (Slot σ) → Except Fault Unit
  | [] => .ok ()
  | slot :: slots =>
    if slot.required && (members.lookup slot.key).isNone then .error (.missingField slot.key)
    else checkMembers members slots

/-- A number of elements. -/
def elementCount (n : Nat) : Text :=
  if n = 1 then "1 element" else Text.decimal n ++ " elements"

/-- The items of an array put in by position, from component number `index` on.  Components at
    the end that may be left out may have no item. -/
def putItems (wanted : Text) (surplus : Fault) :
    Nat → List (Slot σ) → σ → List Json → Except Fault σ
  | _, [], s, [] => .ok s
  | _, [], _, _ :: _ => .error surplus
  | index, slot :: slots, s, [] =>
    if slot.required then .error (.invalidLength index wanted)
    else putItems wanted surplus (index + 1) slots s []
  | index, slot :: slots, s, item :: items => do
    putItems wanted surplus (index + 1) slots (← slot.put s item) items

/-- The fault of an array with more items than there are components. -/
def surplusFault (origin : Origin) (components items : Nat) : Fault :=
  match origin with
  | .direct => .invalidLength items "fewer elements in array"
  | .heldBack => .invalidLength items (elementCount components ++ " in sequence")

/-- The structure from the members of an object. -/
def recordOfMembers (record : Record σ) (members : List (Text × Json)) : Except Fault σ := do
  let s ← putMembers record.slots record.blank members
  checkMembers members record.slots
  return s

/-- The structure from the items of an array. -/
def recordOfItems (record : Record σ) (origin : Origin) (items : List Json) : Except Fault σ :=
  let count := record.slots.length
  putItems ("struct " ++ record.name ++ " with " ++ elementCount count)
    (surplusFault origin count items.length) 0 record.slots record.blank items

/-- The structure from an object or from an array. -/
def record (record : Record σ) (origin : Origin) : Decoder σ
  | .obj members => recordOfMembers record members
  | .arr items => recordOfItems record origin items
  | v => .error (.invalidType v ("struct " ++ record.name))

end Decode

end Soql
