/-
  The parsers of queries, where a text ends and where clauses follow.

  No parser looks beyond the keyword of a clause that it does not read itself.
  A query between parentheses may: its clauses would go on with those that
  follow.  But it is not closed where the text ends, so that nothing is read
  there.

  * `cut_filter`, `cut_middle`, …: what is read of a text is read again with
    clauses behind it, one lemma per parser.
  * `cut_selectUpTo`: queries inside of others, by induction on their nesting.
-/
import Mathlib
import Soql.Proofs.Parse.Seam
import Soql.Proofs.Parse.Lockstep

namespace Soql

open Unicode Token Soql.Parser

namespace Parser

variable {S : Seam} {p : Prop} {b : Nat} {α κ : Type} {f g : Parser α}

theorem cut_pathRest : Cut S p b pathRest pathRest :=
  ((cut_identifier _).after (t := .dot) trivial).many

theorem cut_path : Cut S p b path path := (cut_identifier _).bind fun w => cut_pathRest.map (w, ·)

theorem cut_dottedPath : Cut S p b dottedPath dottedPath :=
  cut_path.map fun r => Text.joinWith "." (r.1 :: r.2)

/-! ## Calls -/

section Calls

variable {arguments arguments' : Parser (List Argument)} {l m : Lexeme}

theorem cut_callAfterName (hf : Cut S False b arguments arguments') (hlm : S.Lexemes l m)
    (name : Text) :
    Cut S p b (callAfterName arguments l name) (callAfterName arguments' m name) := by
  refine .expect (t := .openParen) trivial _ fun _ _ _ => hf.bind fun as => ?_
  refine .expect (t := .closeParen) trivial _ fun l' m' hlm' => ?_
  rw [hlm.textUpTo hlm']
  exact cut_pure _

theorem cut_argument (hf : ∀ d, b = d + 1 → Cut S False d arguments arguments') :
    Cut S p b (argument arguments) (argument arguments') := by
  refine .cases (.current fun l m t _ _ hl hm => ?_) fun _ => .short
  rw [hl, hm]
  cases t with
  | word name =>
    refine .advance fun l' m' d hlm' hb => .byToken (t := .openParen) trivial ?_ ?_
    · exact ((cut_callAfterName (hf d hb) hlm' name).map fun c => Argument.field (.call c)).at
    · exact cut_pathRest.map fun names => Argument.text (Text.joinWith "." (name :: names))
  | string | number | dateTime => exact .advance fun _ _ _ _ _ => cut_pure _
  | _ => exact (cut_fail _).at

theorem reads_argument_pos (n : Nat) :
    Reads (argument (argumentsUpTo n)) fun us _ _ => 0 < count us :=
  (reads_argument (reads_argumentsUpTo n) fun _ _ _ h => h.1).mono fun _ _ _ h => count_pos h.starts

theorem cut_argumentsUpTo {n n' : Nat} (hn : b < n) (hn' : b < n') :
    Cut S p b (argumentsUpTo n) (argumentsUpTo n') := by
  induction n generalizing p b n' with
  | zero => omega
  | succ n ih =>
    obtain ⟨n', rfl⟩ : ∃ m, n' = m + 1 := ⟨n' - 1, by omega⟩
    rw [argumentsUpTo_succ, argumentsUpTo_succ]
    refine .byToken (t := .closeParen) trivial (cut_pure []).at ?_
    have hitem : Cut S False b (argument (argumentsUpTo n)) (argument (argumentsUpTo n')) :=
      cut_argument fun d hd => ih (by omega) (by omega)
    refine hitem.bindReads (Q := fun k _ => 0 < k) (reads_argument_pos n) fun a k hk hle => ?_
    exact (cut_separator _).bind fun _ => (ih (by omega) (by omega)).map (a :: ·)

theorem cut_call (hlm : S.Lexemes l m) (name : Text) : Cut S p b (call l name) (call m name) :=
  .bounded (f := fun n => callAfterName (argumentsUpTo n) l name)
    (g := fun n => callAfterName (argumentsUpTo n) m name)
    fun _ _ _ _ hn hn' => cut_callAfterName (cut_argumentsUpTo hn hn') hlm name

/-- A name, and a call or something else after it. -/
theorem Cut.named {e : Expectation} {h k : Call → Parser α} {h' k' : Text → Parser α}
    (hk : ∀ c, Cut S p b (h c) (k c)) (hk' : ∀ w, Cut S p b (h' w) (k' w)) :
    Cut S p b (do
      let first ← Parser.current
      let name ← identifier e
      if ← atToken .openParen then h (← call first name) else h' name) (do
      let first ← Parser.current
      let name ← identifier e
      if ← atToken .openParen then k (← call first name) else k' name) := by
  refine .cases (.current fun l m _ _ hlm _ _ => ?_) fun _ => .short
  refine CutAt.at ((cut_identifier e).bind fun name => .byToken (t := .openParen) trivial ?_ ?_)
  · exact CutAt.at ((cut_call hlm name).bind hk)
  · exact hk' name

end Calls

theorem cut_subject : Cut S p b subject subject :=
  .named (h := fun c => pure (Subject.call c.flatten)) (k := fun c => pure (Subject.call c.flatten))
    (fun c => cut_pure (Subject.call c.flatten))
    fun w => cut_pathRest.map fun ws => Subject.field (Text.joinWith "." (w :: ws))

/-! ## Values -/

theorem cut_value : Cut S p b value value := by
  refine .cases (.current fun l m t _ _ hl hm => ?_) fun _ => .short
  rw [hl, hm]
  cases t with
  | string | number => exact .take (cut_pure _)
  | dateTime text =>
    refine .take ?_
    cases LiteralKind.ofDate? text with
    | none => exact cut_throw _ _
    | some kind => exact cut_pure _
  | colon => exact .take ((cut_identifier _).map _)
  | word w =>
    refine .take (.byToken (t := .colon) trivial (.advance fun _ _ _ _ _ => ?_) ?_)
    · refine .cases (.current fun l m t _ _ hl hm => ?_) fun _ => .short
      rw [hl, hm]
      cases t with
      | number count => exact .take (cut_pure _)
      | _ => exact (cut_fail _).at
    · cases LiteralKind.ofWord? w with
      | none => exact cut_throw _ _
      | some kind => exact cut_pure _
  | _ => exact (cut_fail _).at

theorem cut_valueList : Cut S p b valueList valueList :=
  CutAt.upTo (t := .closeParen)
    (cut_value.untilClose (valuePieces_value.mono fun _ _ _ h => h.count_pos) _) trivial _ id

theorem cut_literalText : Cut S p b literalText literalText :=
  cut_value.map fun v => v.2.render v.1

theorem cut_groupValue : Cut S p b groupValue groupValue := by
  refine .ifToken (t := .openParen) trivial (fun _ _ => ?_) cut_literalText
  exact CutAt.upTo (t := .closeParen) (cut_literalText.untilClose reads_literalText_pos _) trivial _
    fun values => "(" ++ Text.joinWith ", " values ++ ")"

theorem cut_rowCount (clause : Text) : Cut S p b (rowCount clause) (rowCount clause) := by
  refine .cases (.current fun l m t _ _ hl hm => ?_) fun _ => .short
  rw [hl, hm]
  cases t with
  | number text =>
    dsimp only
    cases text.number? with
    | none => exact (cut_throw _ _).at
    | some n =>
      by_cases hn : n < UInt64.size
      · simp only [if_pos hn]
        exact .advance fun _ _ _ _ _ => cut_pure _
      · simp only [if_neg hn]
        exact (cut_throw _ _).at
  | _ => exact (cut_fail _).at

/-! ## Filters -/

theorem cut_openParens : Cut S p b openParens openParens :=
  ((cut_pure ()).after (t := .openParen) trivial).many.map List.length

theorem cut_closeParens (depth : Nat) : Cut S p b (closeParens depth) (closeParens depth) :=
  ((((cut_pure ()).after (t := .closeParen) trivial).cut.manyUpTo depth).map List.length).loosen

theorem cut_connective : Cut S p b connective? connective? :=
  .ifKeyword (S.spares (by decide)) (fun _ _ => cut_pure _)
    (.ifKeyword (S.spares (by decide)) (fun _ _ => cut_pure _) (cut_pure _))

theorem cut_comparison : Cut S p b comparison comparison := by
  refine .ifKeyword (S.spares (by decide)) (fun _ _ => .expectKeyword _ fun _ _ => cut_pure _) ?_
  refine .cases (.current fun l m t _ _ hl hm => ?_) fun _ => .short
  rw [hl, hm]
  cases comparisonOf? t with
  | none => exact (cut_fail _).at
  | some k => exact .advance fun _ _ _ _ _ => cut_pure k

theorem Cut.comparing (hf : Cut S False b f g) : Cut S p b (comparing f) (comparing g) :=
  cut_subject.bind fun s => cut_comparison.bind fun k => hf.loosen.map (s, k, ·)

section Nested

variable {nested nested' : Parser Query}

theorem cut_comparand (hn : Cut S True b nested nested') :
    Cut S p b (comparand nested) (comparand nested') := by
  refine .ifToken (t := .openParen) trivial (fun d hd => ?_) (cut_value.map singleComparand)
  refine (cut_atKeyword (S.spares (by decide))).bind fun r => .ite ?_ ?_
  · exact (hn.mono (by omega)).upTo (t := .closeParen) trivial _ _
  · exact cut_valueList.map listComparand

theorem cut_condition (hn : Cut S True b nested nested') :
    Cut S p b (condition nested) (condition nested') := by
  rw [condition_eq, condition_eq]
  exact (cut_comparand hn).comparing.map conditionOf

end Nested

theorem cut_groupCondition : Cut S p b groupCondition groupCondition :=
  cut_groupValue.comparing.map groupConditionOf

theorem cut_front : Cut S p b front front := by
  refine cut_openParens.bind fun opens => .position fun l m => ?_
  refine (cut_eatKeyword (S.spares (by decide))).bind fun negated => ?_
  cases negated with
  | false => exact (cut_atToken (t := .openParen) trivial).bind fun _ => cut_pure _
  | true =>
    refine (cut_atToken (t := .openParen) trivial).bind fun isOpen => .ite ?_ (cut_pure _)
    by_cases hopens : opens = 0
    · simp only [if_pos hopens]
      exact cut_pure _
    · simp only [if_neg hopens]
      exact cut_throw _ _

theorem cut_groupFront : Cut S p b groupFront groupFront :=
  cut_openParens.map fun opens => some (opens, false)

theorem cut_closing (depth : Nat) : Cut S p b (closing depth) (closing depth) :=
  (cut_closeParens depth).bind fun closes => cut_connective.map (closes, ·)

theorem cut_linkOf {front : Parser (Option (Nat × Bool))} {bare bare' : Parser κ}
    (hfront : Cut S False b front front) (hbare : Cut S False b bare bare')
    (surround : κ → Nat → Bool → Nat → κ) (depth : Nat) :
    Cut S p b (linkOf front bare surround depth) (linkOf front bare' surround depth) := by
  refine hfront.bind fun r => ?_
  cases r with
  | none => exact cut_pure _
  | some r => exact hbare.bind fun c => (cut_closing _).map _

theorem cut_chainUpTo {link link' : Nat → Parser (Link κ × Nat)}
    (hlink : ∀ depth, Cut S False b (link depth) (link' depth))
    (hr : ∀ depth, Reads (link depth) fun us _ _ => 0 < count us) {n n' : Nat} (hn : b < n)
    (hn' : b < n') (depth : Nat) :
    Cut S p b (chainUpTo link n depth) (chainUpTo link' n' depth) := by
  induction n generalizing b n' depth with
  | zero => omega
  | succ n ih =>
    obtain ⟨n', rfl⟩ : ∃ m, n' = m + 1 := ⟨n' - 1, by omega⟩
    refine (hlink depth).bindReads (Q := fun k _ => 0 < k) (hr depth) ?_
    rintro ⟨x, after⟩ k hk hle
    dsimp only
    cases x.connective with
    | none => exact cut_pure _
    | some op =>
      exact (ih (fun depth => (hlink depth).mono (by omega)) (by omega) (by omega) after).map _

theorem cut_filter {n n' : Nat} (hn : Cut S True b (selectUpTo n false) (selectUpTo n' false)) :
    Cut S p b (filter (selectUpTo n false)) (filter (selectUpTo n' false)) := by
  refine .bounded (f := fun k => filterUpTo (selectUpTo n false) k 0)
    (g := fun k => filterUpTo (selectUpTo n' false) k 0) fun d k k' hd hk hk' => ?_
  rw [filterUpTo_eq, filterUpTo_eq]
  exact cut_chainUpTo (cut_linkOf cut_front (cut_condition (hn.mono hd)) _)
    (reads_link_pos (again_select n false)) hk hk' 0

theorem cut_groupFilter : Cut S p b groupFilter groupFilter := by
  refine .bounded (f := fun k => groupFilterUpTo k 0) (g := fun k => groupFilterUpTo k 0)
    fun d k k' hd hk hk' => ?_
  rw [groupFilterUpTo_eq, groupFilterUpTo_eq]
  exact cut_chainUpTo (cut_linkOf cut_groupFront cut_groupCondition _) reads_groupLink_pos hk hk' 0

/-! ## Clauses -/

theorem cut_grouping : Cut S p b grouping grouping := by
  refine .position fun l m => cut_subject.commaSeparated.bind ?_
  rintro ⟨s, ss⟩
  dsimp only
  rcases groupingOf_cases s ss with ⟨g, hg⟩ | he
  · rw [hg, hg]
    exact cut_pure g
  · rw [he, he]
    exact cut_throw _ _

/-- The keyword of a clause is no sort direction. -/
theorem order_next (S : Seam) :
    order? (cursor S.whole S.rest) = .ok none (cursor S.whole S.rest) := by
  have hnone : keywordInView? SortOrder (cursor S.whole S.rest) =
      .ok none (cursor S.whole S.rest) := by
    rw [keywordInView_eq, token_cursor]
    rcases S.next.cases with hf | ⟨u, hu, v, hv, huv⟩
    · rw [hf]
    · have hwords : ∀ v ∈ clauseWords, (Keyword.ofWord? v : Option SortOrder) = none := by decide
      rw [hu]
      dsimp only
      rw [ofWord?_eq huv, hwords v hv]
  exact bind_of_ok hnone

theorem cut_order : Cut S p b order? order? := by
  refine .cases (.keywordInView fun o => ?_) fun _ => ?_
  · cases o with
    | none => exact (cut_pure none).at
    | some o => exact .advance fun _ _ _ _ _ => cut_pure (some o)
  · rw [order_next]
    exact .stay none

theorem cut_sortKey : Cut S p b sortKey sortKey :=
  cut_subject.bind fun s => cut_order.bind fun o =>
    ((cut_expectKeywordOf (κ := NullsPlace) _).afterKeyword (.inr (S.spares (by decide)))).cut.map _

theorem cut_sorting : Cut S p b sorting sorting := by
  rw [sorting_eq]
  exact cut_sortKey.commaSeparated.map sortKeysOf

theorem cut_categories : Cut S p b categories categories := by
  refine .ifToken (t := .openParen) trivial (fun _ _ => ?_) ((cut_identifier _).map fun w => [w])
  exact (cut_identifier _).commaSeparated.upTo (t := .closeParen) trivial _ fun r => r.1 :: r.2

theorem cut_categoryCondition : Cut S p b categoryCondition categoryCondition :=
  (cut_identifier _).bind fun _ => (cut_expectKeywordOf _).bind fun _ => cut_categories.map _

theorem cut_withClause : Cut S p b withClause withClause := by
  refine .ifKeyword (S.spares (by decide)) (fun _ _ => cut_pure _)
    (.ifKeyword (S.spares (by decide)) (fun _ _ => .expectKeyword _ fun _ _ => ?_) (cut_fail _))
  exact cut_categoryCondition.bind fun first =>
    (cut_categoryCondition.afterKeyword (.inr (S.spares (by decide)))).many.map _

theorem cut_withClauses (hw : p ∨ S.Spares "WITH") : Cut S p b withClauses withClauses :=
  (cut_withClause.afterKeyword hw).many

theorem cut_branchFields : Cut S p b branchFields branchFields :=
  cut_dottedPath.commaSeparated.map fun r => r.1 :: r.2

theorem cut_whenBranch : Cut S p b whenBranch whenBranch :=
  (cut_identifier _).bind fun _ => .expectKeyword _ fun _ _ => cut_branchFields.map _

theorem cut_elseBranch : Cut S p b elseBranch elseBranch := cut_branchFields.map _

theorem cut_typeOf : Cut S p b typeOf typeOf :=
  cut_dottedPath.bind fun field =>
    (cut_whenBranch.afterKeyword (.inr (S.spares (by decide)))).many.bind fun branches =>
      (cut_elseBranch.afterKeyword (.inr (S.spares (by decide)))).cut.bind fun last =>
        .expectKeyword _ fun _ _ => cut_pure _

theorem cut_groupingClause (hg : p ∨ S.Spares "GROUP") (hh : p ∨ S.Spares "HAVING") :
    Cut S p b groupingClause groupingClause := by
  have hkeys : Cut S False b (expectKeyword "BY" >>= fun _ => grouping)
      (expectKeyword "BY" >>= fun _ => grouping) := .expectKeyword _ fun _ _ => cut_grouping
  have hhaving (g : Option Grouping) : Cut S p b (having? g) (having? g) := by
    refine .position fun l m => ?_
    refine (cut_groupFilter.afterKeyword hh) le_rfl (fun having _ _ => ?_) (cut_pure g)
      fun _ => ⟨g, rfl⟩
    cases g with
    | none => exact cut_throw _ _
    | some g => exact cut_pure _
  exact (hkeys.afterKeyword hg).cut.bindQuiet hhaving fun hp => ⟨hp, fun g _ => ⟨g, rfl⟩⟩

/-- The clauses between those that may be `WITH` clauses. -/
theorem cut_middle (hw : ∀ w ∈ middleWords, p ∨ S.Spares w) : Cut S p b middle middle := by
  have hsorting : Cut S False b (expectKeyword "BY" >>= fun _ => sorting)
      (expectKeyword "BY" >>= fun _ => sorting) := .expectKeyword _ fun _ _ => cut_sorting
  have hlimit :=
    ((cut_rowCount (S := S) (b := b) "LIMIT").afterKeyword (hw "LIMIT" (by decide))).cut
  have hoffset :=
    ((cut_rowCount (S := S) (b := b) "OFFSET").afterKeyword (hw "OFFSET" (by decide))).cut
  refine (cut_groupingClause (hw _ (by decide)) (hw _ (by decide))).both ?_ fun _ _ => ⟨_, rfl⟩
  refine (hsorting.afterKeyword (hw "ORDER" (by decide))).cut.both ?_ fun _ _ => ⟨_, rfl⟩
  exact hlimit.both hoffset fun _ _ => ⟨_, rfl⟩

/-- The clauses after all `WITH` clauses. -/
def last : Parser (Option ForTarget × Option UpdateTarget) :=
  both (afterKeyword "FOR" (expectKeywordOf .forTarget))
    (afterKeyword "UPDATE" (expectKeywordOf .updateTarget))

theorem cut_last (hf : p ∨ S.Spares "FOR") (hu : p ∨ S.Spares "UPDATE") :
    Cut S p b last last :=
  ((cut_expectKeywordOf _).afterKeyword hf).cut.both ((cut_expectKeywordOf _).afterKeyword hu).cut
    fun _ _ => ⟨_, rfl⟩

/-! ## Queries -/

/-- Inside of parentheses the clauses of a query may be lost where a text ends. -/
theorem cut_tail {n n' : Nat} (hn : Cut S True b (selectUpTo n false) (selectUpTo n' false)) :
    Cut S True b (tail (selectUpTo n false)) (tail (selectUpTo n' false)) := by
  have hbody : Cut S True b body body := by
    refine (cut_withClauses (.inl trivial)).bindQuiet (fun early => ?_)
      fun hp => ⟨hp, fun _ _ => ⟨_, rfl⟩⟩
    refine (cut_middle fun _ _ => .inl trivial).bindQuiet (fun x => ?_)
      fun hp => ⟨hp, fun _ _ => ⟨_, rfl⟩⟩
    exact (cut_withClauses (.inl trivial)).map fun late => (x, early ++ late)
  refine ((cut_filter hn).afterKeyword (.inl trivial)).cut.both ?_ fun _ _ => ⟨_, rfl⟩
  exact hbody.both (cut_last (.inl trivial) (.inl trivial)) fun _ _ => ⟨_, rfl⟩

section Nested

variable {n n' : Nat}
  (hn : ∀ isNested, Cut S True b (selectUpTo n isNested) (selectUpTo n' isNested))

include hn

theorem cut_field : Cut S p b (field (selectUpTo n true)) (field (selectUpTo n' true)) := by
  rw [field_eq, field_eq]
  refine .ifToken (t := .openParen) trivial (fun d hd => ?_) ?_
  · exact ((hn true).mono (by omega)).upTo (t := .closeParen) trivial _ Field.subquery
  · refine .ifKeyword (S.spares (by decide)) (fun _ _ => cut_typeOf.map Field.typeOf) ?_
    exact .named (fun c => cut_aliasName.map fun a => Field.call (withAlias a c))
      fun w => cut_pathRest.bind fun ws => cut_aliasName.map fun a => fieldOf w ws a

theorem cut_fields : Cut S p b (commaSeparated (field (selectUpTo n true)))
    (commaSeparated (field (selectUpTo n' true))) := (cut_field hn).commaSeparated

end Nested

theorem cut_fromClause (isNested : Bool) :
    Cut S p b (fromClause isNested) (fromClause isNested) := by
  refine .expectKeyword _ fun _ _ => ?_
  rw [aliasedSource, source_eq]
  exact (cut_path.map (sourceOf isNested)).bind fun s => cut_aliasName.map (s, ·)

/-- **A query inside of another one** is read again with clauses behind the text, unless it may go
    on with them. -/
theorem cut_selectUpTo {n n' : Nat} (hb : b ≤ n) (hb' : b ≤ n') (isNested : Bool) :
    Cut S True b (selectUpTo n isNested) (selectUpTo n' isNested) := by
  induction n generalizing b n' isNested with
  | zero =>
    refine .cases (fun qs hqs hne => ?_) fun _ => .short
    have hpos := count_pos hne
    have := hqs.count
    omega
  | succ n ih =>
    cases n' with
    | zero =>
      refine .cases (fun qs hqs hne => ?_) fun _ => .short
      have hpos := count_pos hne
      have := hqs.count
      omega
    | succ n' =>
      change Cut S True b (selectWith (selectUpTo n) isNested) (selectWith (selectUpTo n') isNested)
      rw [selectWith_eq, selectWith_eq]
      refine .expectKeyword _ fun d hd => CutAt.map ?_ Selection.query
      have hn (isNested : Bool) : Cut S True d (selectUpTo n isNested) (selectUpTo n' isNested) :=
        ih (by omega) (by omega) isNested
      refine (cut_fields hn).bind fun fs => CutAt.map ?_ (fs, ·)
      exact (cut_fromClause isNested).bind fun s => (cut_tail (hn false)).map (s, ·)

/-- What stands before the clauses that may be moved. -/
abbrev Head : Type := (Field × List Field) × (Source × Option Text) × Option (Chain Condition)

/-- The fields, the source and the filter of a query; `nested` reads one between parentheses. -/
def headWith (nested : Bool → Parser Query) : Parser Head := do
  expectKeyword "SELECT"
  both (commaSeparated (field (nested true)))
    (both (fromClause false) (afterKeyword "WHERE" (filter (nested false))))

/-- The fields, the source and the filter of a query that is not inside of another one. -/
def head : Parser Head := do headWith (selectUpTo (← get).size)

/-- The query of its parts. -/
def Head.query (x : Head) (y : Middle × List WithClause)
    (z : Option ForTarget × Option UpdateTarget) : Query :=
  Selection.query (x.1, x.2.1, x.2.2, y, z)

theorem select_eq : select =
    head >>= fun x => body >>= fun y => last >>= fun z => pure (x.query y z) := by
  unfold select head
  rw [bind_assoc]
  congr 1
  funext c
  change selectWith (selectUpTo c.size) false = _
  simp only [selectWith_eq, selection, tail, headWith, last, both, bind_assoc, pure_bind,
    Head.query]

/-- **The fields, the source and the filter** are read again with clauses behind them. -/
theorem cut_head (hw : S.Spares "WHERE") : Cut S p b head head := by
  refine .bounded (f := fun n => headWith (selectUpTo (n - 1)))
    (g := fun n => headWith (selectUpTo (n - 1))) fun d n n' _ hn hn' => ?_
  have hnested (isNested : Bool) :
      Cut S True d (selectUpTo (n - 1) isNested) (selectUpTo (n' - 1) isNested) :=
    cut_selectUpTo (by omega) (by omega) isNested
  refine .expectKeyword _ fun e he => ?_
  refine ((cut_fields hnested).mono (by omega)).bind fun fs => CutAt.map ?_ (fs, ·)
  refine (cut_fromClause false).bind fun s => CutAt.map ?_ (s, ·)
  exact (((cut_filter (hnested false)).afterKeyword (.inr hw)).cut).mono (by omega)

end Parser

end Soql
