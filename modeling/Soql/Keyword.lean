/-
  Keywords — the closed sets of words with a meaning of their own.

  Every member of a set has one spelling.  Words of query text and words of
  the JSON form are looked up in a set up to ASCII case.

  * `Keyword`: a set of keywords, in order, with their spellings.
  * `Keyword.ofWord?`: look-up of a word.
  * the sets that queries use, from comparison operators to branches.
-/
import Soql.Text

namespace Soql

/-- A closed set of keywords. -/
class Keyword (κ : Type) where
  /-- The members in their order. -/
  all : List κ
  /-- How a member is written. -/
  spelling : κ → Text

namespace Keyword

/-- The member that a word spells, up to ASCII case. -/
def ofWord? {κ : Type} [Keyword κ] (word : Text) : Option κ :=
  all.find? fun keyword => Text.sameWord (spelling keyword) word

end Keyword

/-! ## The sets -/

/-- Comparison operator of a condition. -/
inductive Comparison where
  | equal | notEqual | lessGreater | less | lessEqual | greater | greaterEqual
  | like | isIn | notIn | includes | excludes
deriving DecidableEq

instance : Keyword Comparison where
  all := [.equal, .notEqual, .lessGreater, .less, .lessEqual, .greater, .greaterEqual,
    .like, .isIn, .notIn, .includes, .excludes]
  spelling
    | .equal => "="
    | .notEqual => "!="
    | .lessGreater => "<>"
    | .less => "<"
    | .lessEqual => "<="
    | .greater => ">"
    | .greaterEqual => ">="
    | .like => "LIKE"
    | .isIn => "IN"
    | .notIn => "NOT IN"
    | .includes => "INCLUDES"
    | .excludes => "EXCLUDES"

/-- Operator that joins a link of a filter to the links after it.  `not` stands on a link
    without a condition and negates the group that follows. -/
inductive Connective where
  | and | or | not
deriving DecidableEq

instance : Keyword Connective where
  all := [.and, .or, .not]
  spelling
    | .and => "AND"
    | .or => "OR"
    | .not => "NOT"

/-- The word that negates a single condition. -/
inductive Negation where
  | not
deriving DecidableEq

instance : Keyword Negation where
  all := [.not]
  spelling
    | .not => "NOT"

/-- Sort direction. -/
inductive SortOrder where
  | ascending | descending
deriving DecidableEq

instance : Keyword SortOrder where
  all := [.ascending, .descending]
  spelling
    | .ascending => "ASC"
    | .descending => "DESC"

/-- Place of the rows without a sort key. -/
inductive NullsPlace where
  | first | last
deriving DecidableEq

instance : Keyword NullsPlace where
  all := [.first, .last]
  spelling
    | .first => "FIRST"
    | .last => "LAST"

/-- Which categories a data category condition selects, seen from the one it names. -/
inductive CategorySelector where
  | exactly | above | below | aboveOrBelow
deriving DecidableEq

instance : Keyword CategorySelector where
  all := [.exactly, .above, .below, .aboveOrBelow]
  spelling
    | .exactly => "AT"
    | .above => "ABOVE"
    | .below => "BELOW"
    | .aboveOrBelow => "ABOVE_OR_BELOW"

/-- What a `FOR` clause asks for. -/
inductive ForTarget where
  | view | update | reference
deriving DecidableEq

instance : Keyword ForTarget where
  all := [.view, .update, .reference]
  spelling
    | .view => "VIEW"
    | .update => "UPDATE"
    | .reference => "REFERENCE"

/-- What an `UPDATE` clause asks for. -/
inductive UpdateTarget where
  | tracking | viewstat
deriving DecidableEq

instance : Keyword UpdateTarget where
  all := [.tracking, .viewstat]
  spelling
    | .tracking => "TRACKING"
    | .viewstat => "VIEWSTAT"

/-- Branch of a `TYPEOF` expression. -/
inductive BranchKind where
  | when | otherwise
deriving DecidableEq

instance : Keyword BranchKind where
  all := [.when, .otherwise]
  spelling
    | .when => "WHEN"
    | .otherwise => "ELSE"

/-! ## Word lists -/

/-- The names of the aggregate functions. -/
def aggregateNames : List Text :=
  ["AVG", "COUNT", "COUNT_DISTINCT", "MIN", "MAX", "SUM", "GROUPING"]

/-- Whether a function of this name computes one value from a group of rows. -/
def isAggregate (name : Text) : Bool := aggregateNames.any fun n => Text.sameWord n name

/-- Words that end a field, a source or a sort key, and so can never be an alias. -/
def reservedWords : List Text :=
  ["SELECT", "FROM", "WHERE", "WITH", "GROUP", "HAVING", "ORDER", "BY", "LIMIT", "OFFSET",
   "FOR", "UPDATE", "USING", "AND", "OR", "NOT", "IN", "LIKE", "INCLUDES", "EXCLUDES", "ASC",
   "DESC", "NULLS", "TYPEOF", "WHEN", "THEN", "ELSE", "END"]

/-- Whether a word is reserved, up to ASCII case. -/
def isReserved (word : Text) : Bool := reservedWords.any fun w => Text.sameWord w word

end Soql
