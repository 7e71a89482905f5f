/-
  Queries up to the case of ASCII letters.

  Words are compared with keywords, aliases and names of functions in any
  case, so what a word is taken for depends on its letters in lower case.

  * `isReserved_fold`, `LiteralKind.ofWord?_fold`, …: what is asked of a word.
  * `Query.folded`: the query in lower case, without the texts that calls were
    written with.
-/
import Mathlib
import Soql.Parse.Query

namespace Soql

open Unicode

/-! ## Characters -/

/-- Only letters change their case. -/
theorem toLower_eq_iff {c d : Char} (hd : d.isAlpha = false) : c.toLower = d ↔ c = d := by
  by_cases hc : c.isUpper
  · constructor
    · rintro rfl
      rw [Char.isAlpha_toLower_eq_isAlpha, Char.isAlpha, hc] at hd
      cases hd
    · rintro rfl
      rw [Char.isAlpha, hc] at hd
      cases hd
  · rw [Char.toLower_eq_of_not_isUpper hc]

theorem isUpper_iff {c : Char} : c.isUpper = true ↔ 65 ≤ c.toNat ∧ c.toNat ≤ 90 := by
  simp [Char.isUpper, UInt32.le_iff_toNat_le, ← Char.toNat_val]

/-- What holds of a character and its lower case alike, if it does not tell letters apart. -/
theorem apply_toLower {α : Type} {f : Char → α} (h : ∀ n, 65 ≤ n → n ≤ 90 →
    f (.ofNat (n + 32)) = f (.ofNat n)) (c : Char) : f c.toLower = f c := by
  by_cases hc : c.isUpper
  · obtain ⟨hlo, hhi⟩ := isUpper_iff.1 hc
    rw [Char.toLower_eq_of_isUpper hc, h _ hlo hhi, Char.ofNat_toNat]
  · rw [Char.toLower_eq_of_not_isUpper hc]

theorem isDecimalDigit_toLower (c : Char) : isDecimalDigit c.toLower = isDecimalDigit c :=
  apply_toLower (fun n hlo hhi => by interval_cases n <;> decide) c

theorem dateLetter_toLower (c : Char) : dateLetter c.toLower = dateLetter c :=
  apply_toLower (fun n hlo hhi => by interval_cases n <;> decide) c

/-! ## Texts and words -/

namespace Text

@[simp] theorem fold_nil : fold [] = [] := rfl

@[simp] theorem fold_cons (c : Char) (t : Text) : fold (c :: t) = c.toLower :: fold t := rfl

@[simp] theorem fold_append (a b : Text) : fold (a ++ b) = fold a ++ fold b := List.map_append

@[simp] theorem fold_fold (t : Text) : t.fold.fold = t.fold := by
  simp [fold, Function.comp_def]

theorem fold_joinWith (sep : Text) (ts : List Text) :
    fold (joinWith sep ts) = joinWith sep.fold (ts.map fold) := by
  induction ts with
  | nil => rfl
  | cons t ts ih => cases ts <;> simp_all [joinWith]

theorem contains_fold {d : Char} (hd : d.isAlpha = false) (t : Text) :
    t.fold.contains d = t.contains d := by
  induction t with
  | nil => rfl
  | cons c t ih =>
    have hc : (d == c.toLower) = (d == c) := by
      rw [Bool.eq_iff_iff, beq_iff_eq, beq_iff_eq, eq_comm, toLower_eq_iff hd, eq_comm]
    rw [fold_cons, List.contains_cons, List.contains_cons, ih, hc]

theorem sameWord_fold_right (a b : Text) : sameWord a b.fold = sameWord a b := by
  rw [sameWord, sameWord, fold_fold]

theorem sameWord_fold_left (a b : Text) : sameWord a.fold b = sameWord a b := by
  rw [sameWord, sameWord, fold_fold]

end Text

open Text

theorem Keyword.ofWord?_fold {κ : Type} [Keyword κ] (w : Text) :
    (Keyword.ofWord? w.fold : Option κ) = Keyword.ofWord? w := by
  simp only [Keyword.ofWord?, sameWord_fold_right]

theorem isReserved_fold (w : Text) : isReserved w.fold = isReserved w := by
  simp only [isReserved, sameWord_fold_right]

theorem isAggregate_fold (w : Text) : isAggregate w.fold = isAggregate w := by
  simp only [isAggregate, sameWord_fold_right]

theorem isRelativeDate_fold (w : Text) : isRelativeDate w.fold = isRelativeDate w := by
  rw [isRelativeDate, isRelativeDate, fold, List.map_map]
  congr 2
  funext c
  exact dateLetter_toLower c

theorem isDigits_fold (t : Text) : isDigits t.fold = isDigits t := by
  simp [isDigits, fold, isDecimalDigit_toLower, Function.comp_def]

theorem isAmount_fold (w : Text) : isAmount w.fold = isAmount w := by
  have hdigit : isDecimalDigit ∘ Char.toLower = isDecimalDigit := funext isDecimalDigit_toLower
  match w with
  | [] | [_] | [_, _] => rfl
  | a :: b :: c :: amount =>
    have htake : (fold amount).takeWhile isDecimalDigit =
        fold (amount.takeWhile isDecimalDigit) := by
      rw [fold, List.takeWhile_map, hdigit]
      rfl
    have hdrop : (fold amount).dropWhile isDecimalDigit =
        fold (amount.dropWhile isDecimalDigit) := by
      rw [fold, List.dropWhile_map, hdigit]
      rfl
    simp only [fold_cons, isAmount, Char.isAlpha_toLower_eq_isAlpha, htake, isDigits_fold, hdrop]
    congr 1
    cases amount.dropWhile isDecimalDigit with
    | nil => rfl
    | cons d ds =>
      by_cases hd : d = '.'
      · subst hd
        exact isDigits_fold ds
      · have hlower : d.toLower ≠ '.' := fun h => hd ((toLower_eq_iff (by decide)).1 h)
        simp [hd, hlower]

theorem LiteralKind.ofWord?_fold (w : Text) : ofWord? w.fold = ofWord? w := by
  simp only [ofWord?, sameWord_fold_left, isRelativeDate_fold, isAmount_fold,
    contains_fold (show '.'.isAlpha = false by decide)]

/-- A literal in lower case is the literal of the text in lower case. -/
theorem LiteralKind.fold_render (kind : LiteralKind) (t : Text) :
    (kind.render t).fold = kind.render t.fold := by
  have hquote : '\''.toLower = '\'' := rfl
  have hcolon : ':'.toLower = ':' := rfl
  cases t with
  | nil => cases kind <;> rfl
  | cons c t =>
    have hc (d : Char) (hd : d.isAlpha = false) : c.toLower = d ↔ c = d := toLower_eq_iff hd
    cases kind with
    | string =>
      by_cases h : c = '\''
      · subst h
        rfl
      · have h' : c.toLower ≠ '\'' := fun h' => h ((hc _ (by decide)).1 h')
        simp [render, h, h', hquote]
    | bindVariable =>
      by_cases h : c = ':'
      · subst h
        rfl
      · have h' : c.toLower ≠ ':' := fun h' => h ((hc _ (by decide)).1 h')
        simp [render, h, h', hcolon]
    | _ => rfl

/-! ## Queries in lower case -/

/-- An argument of a flat call in lower case.  Only the text of a nested call ends in a
    parenthesis, and nothing else is left of that. -/
def FlatCall.foldArgument (t : Text) : Text := if t.getLast? = some ')' then ")" else t.fold

/-- The call in lower case, without the text that it was written with. -/
def FlatCall.folded (c : FlatCall) : FlatCall :=
  { source := none
    name := c.name.map fold
    arguments := c.arguments.map FlatCall.foldArgument
    aliasName := c.aliasName.map fold
    aggregate := c.aggregate }

/-- The value in lower case. -/
def FilterValue.folded : FilterValue → FilterValue
  | single t => single t.fold
  | list ts => list (ts.map fold)

/-- The condition in lower case. -/
def GroupCondition.folded (c : GroupCondition) : GroupCondition :=
  { c with field := c.field.map fold, call := c.call.map FlatCall.folded, value := c.value.fold }

/-- The fields in lower case. -/
def GroupFields.folded : GroupFields → GroupFields
  | one name => one name.fold
  | many names => many (names.map fold)

/-- The grouping in lower case. -/
def Grouping.folded (g : Grouping) : Grouping :=
  { fields := g.fields.map GroupFields.folded
    call := g.call.map FlatCall.folded
    having := g.having.map (Chain.map GroupCondition.folded) }

/-- The key in lower case. -/
def SortKey.folded (k : SortKey) : SortKey :=
  { k with field := k.field.map fold, call := k.call.map FlatCall.folded }

/-- The keys in lower case. -/
def SortKeys.folded : SortKeys → SortKeys
  | one key => one key.folded
  | many keys => many (keys.map SortKey.folded)

/-- The condition in lower case. -/
def CategoryCondition.folded (c : CategoryCondition) : CategoryCondition :=
  { c with group := c.group.fold, categories := c.categories.map fold }

/-- The field in lower case. -/
def PlainField.folded (f : PlainField) : PlainField :=
  ⟨f.name.fold, f.owner.map fold, f.aliasName.map fold⟩

/-- The field in lower case. -/
def PathField.folded (f : PathField) : PathField :=
  ⟨f.name.fold, f.path.map fold, f.owner.map fold, f.aliasName.map fold⟩

/-- The branch in lower case. -/
def TypeBranch.folded (b : TypeBranch) : TypeBranch :=
  { b with object := b.object.map fold, fields := b.fields.map fold }

/-- The expression in lower case. -/
def TypeOf.folded (e : TypeOf) : TypeOf := ⟨e.field.fold, e.branches.map TypeBranch.folded⟩

/-- The source in lower case. -/
def Source.folded : Source → Source
  | relationship name path => relationship name.fold (path.map fold)
  | object name => object name.fold

mutual

/-- The query with all its texts in lower case, and without the texts that calls were written
    with. -/
def Query.folded : Query → Query
  | ⟨fs, source, aliasName, filter, grouping, sorting, limit, offset, categories,
      securityEnforced, forTarget, update⟩ =>
    ⟨Field.foldAll fs, source.folded, aliasName.map fold, Condition.foldFilter filter,
      grouping.map Grouping.folded, sorting.map SortKeys.folded, limit, offset,
      categories.map (List.map CategoryCondition.folded), securityEnforced, forTarget, update⟩

/-- Fields in lower case. -/
def Field.foldAll : List Field → List Field
  | [] => []
  | f :: fs => f.folded :: Field.foldAll fs

/-- A field in lower case. -/
def Field.folded : Field → Field
  | .plain f => .plain f.folded
  | .call c => .call c.folded
  | .path f => .path f.folded
  | .subquery q => .subquery q.folded
  | .typeOf e => .typeOf e.folded

/-- A call in lower case. -/
def Call.folded : Call → Call
  | ⟨name, args, aliasName, aggregate, _⟩ =>
    ⟨name.fold, Argument.foldAll args, aliasName.map fold, aggregate, none⟩

/-- Arguments in lower case. -/
def Argument.foldAll : List Argument → List Argument
  | [] => []
  | a :: as => a.folded :: Argument.foldAll as

/-- An argument in lower case. -/
def Argument.folded : Argument → Argument
  | .text t => .text t.fold
  | .field f => .field f.folded

/-- A filter in lower case. -/
def Condition.foldFilter : Option (Chain Condition) → Option (Chain Condition)
  | none => none
  | some ⟨head, tail⟩ => some ⟨Condition.foldLink head, Condition.foldLinks tail⟩

/-- Links in lower case. -/
def Condition.foldLinks : List (Link Condition) → List (Link Condition)
  | [] => []
  | l :: ls => Condition.foldLink l :: Condition.foldLinks ls

/-- A link in lower case. -/
def Condition.foldLink : Link Condition → Link Condition
  | ⟨none, connective⟩ => ⟨none, connective⟩
  | ⟨some c, connective⟩ => ⟨some c.folded, connective⟩

/-- A condition in lower case. -/
def Condition.folded : Condition → Condition
  | ⟨opens, closes, negated, field, call, comparison, value, kinds, query⟩ =>
    ⟨opens, closes, negated, field.map fold, call.map FlatCall.folded, comparison,
      value.map FilterValue.folded, kinds, Query.foldOption query⟩

/-- A query that may be absent, in lower case. -/
def Query.foldOption : Option Query → Option Query
  | none => none
  | some q => some q.folded

end

theorem Field.foldAll_eq (fs : List Field) : Field.foldAll fs = fs.map Field.folded := by
  induction fs with
  | nil => rfl
  | cons f fs ih => rw [Field.foldAll, ih, List.map_cons]

theorem Argument.foldAll_eq (as : List Argument) :
    Argument.foldAll as = as.map Argument.folded := by
  induction as with
  | nil => rfl
  | cons a as ih => rw [Argument.foldAll, ih, List.map_cons]

theorem Condition.foldLink_eq (x : Link Condition) :
    Condition.foldLink x = x.map Condition.folded := by
  rcases x with ⟨_ | c, connective⟩ <;> rfl

theorem Condition.foldLinks_eq (xs : List (Link Condition)) :
    Condition.foldLinks xs = xs.map (Link.map Condition.folded) := by
  induction xs with
  | nil => rfl
  | cons x xs ih => rw [Condition.foldLinks, ih, Condition.foldLink_eq, List.map_cons]

theorem Condition.foldFilter_eq (o : Option (Chain Condition)) :
    Condition.foldFilter o = o.map (Chain.map Condition.folded) := by
  rcases o with _ | ⟨x, xs⟩
  · rfl
  · rw [Condition.foldFilter, Condition.foldLink_eq, Condition.foldLinks_eq]
    rfl

end Soql
