/-
  Journals — what happens while a query is composed.

  * `Entry`: a clause written, or a question put to the layout.
  * `Journaled`: a value with the entries on the way to it, in order.
-/
import Soql.Text

namespace Soql

/-- A step of composing. -/
inductive Entry where
  /-- Composing starts, of a query that reads from this source. -/
  | started (source : Text)
  /-- A clause has been written; the text so far. -/
  | clause (keyword text : Text)
  /-- Composing is over; the whole text. -/
  | finished (text : Text)
  /-- A field list has been laid out. -/
  | fields (texts : List Text) (line : Text)
  /-- A query has been put between parentheses. -/
  | subquery (text : Text) (level : Nat) (inFilter : Bool)
  /-- An operator has been put before the text to its right. -/
  | connective (operator right : Text)
  /-- Sort keys have been put together. -/
  | sortKeys (texts : List Text)
deriving DecidableEq

/-- A value with the entries on the way to it. -/
structure Journaled (α : Type) where
  value : α
  log : List Entry

namespace Journaled

variable {α β : Type}

instance : Monad Journaled where
  pure a := ⟨a, []⟩
  bind x f := ⟨(f x.value).value, x.log ++ (f x.value).log⟩

instance : LawfulMonad Journaled :=
  LawfulMonad.mk' _ (fun _ => congrArg (Journaled.mk _) (List.append_nil _)) (fun _ _ => rfl)
    (fun _ _ _ => congrArg (Journaled.mk _) (List.append_assoc ..))

/-- Makes an entry. -/
def note (entry : Entry) : Journaled Unit := ⟨(), [entry]⟩

@[simp] theorem value_pure (a : α) : (pure a : Journaled α).value = a := rfl

@[simp] theorem log_pure (a : α) : (pure a : Journaled α).log = [] := rfl

@[simp] theorem value_bind (x : Journaled α) (f : α → Journaled β) :
    (x >>= f).value = (f x.value).value := rfl

@[simp] theorem log_bind (x : Journaled α) (f : α → Journaled β) :
    (x >>= f).log = x.log ++ (f x.value).log := rfl

@[simp] theorem value_map (f : α → β) (x : Journaled α) : (f <$> x).value = f x.value := rfl

@[simp] theorem log_map (f : α → β) (x : Journaled α) : (f <$> x).log = x.log :=
  List.append_nil _

@[simp] theorem value_note (entry : Entry) : (note entry).value = () := rfl

@[simp] theorem log_note (entry : Entry) : (note entry).log = [entry] := rfl

end Journaled

end Soql
