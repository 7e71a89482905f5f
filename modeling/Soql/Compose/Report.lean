/-
  Reports — what composing tells an observer.

  * `Event`: something worth telling.
  * `Query.events`: the events of composing a query; there are none unless
    the configuration asks for them.
  * `QueryError.events`: the event of a refused field expression.
-/
import Soql.Compose.Query
import Soql.Error

namespace Soql

/-- Something worth telling. -/
inductive Event where
  /-- A query over this source is about to be composed. -/
  | composing (source : Text)
  /-- A clause has been written; the text so far. -/
  | clause (keyword text : Text)
  /-- A query has been composed; the length of its text in bytes. -/
  | composed (bytes : Nat)
  /-- A field expression of no known kind has been refused. -/
  | unsupportedField (tag : Text)
deriving DecidableEq

/-- What an observer is told of a step. -/
def Entry.event? : Entry → Option Event
  | started source => some (.composing source)
  | clause keyword text => some (.clause keyword text)
  | finished text => some (.composed text.byteCount)
  | _ => none

/-- The events of a journal, if they are asked for. -/
def Config.events (config : Config) (log : List Entry) : List Event :=
  if config.logging then log.filterMap Entry.event? else []

/-- The events of composing a query. -/
def Query.events (q : Query) (config : Config) : List Event :=
  config.events (q.composeJournaled config).log

/-- The events of an operation that fails. -/
def QueryError.events : QueryError → List Event
  | unsupportedField tag => [.unsupportedField tag]
  | _ => []

end Soql
