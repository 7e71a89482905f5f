/-
  Values and comparison operators, read and read back.

  * `ValuePieces`: what a value is written with.
  * `reads_value`: a value is written as a literal of its kind.
  * `reads_valueList`, `reads_groupValue`: lists of values.
  * `render_list`: the kinds of a list give each value its own back.
  * `exists_comparison`: every operator is read back from its spelling.
  * `run_rowCount`: so is every number of rows.
-/
import Mathlib
import Soql.Parse.Filter
import Soql.Proofs.Parse.Calls

namespace Soql

open Unicode Token Soql.Parser

/-! ## One value -/

theorem render_of_ne {kind : LiteralKind} (h : kind ≠ .string) (h' : kind ≠ .bindVariable)
    (t : Text) : kind.render t = t := by
  cases kind <;> simp_all [LiteralKind.render]

theorem render_string {s : Text} (h : (string s).Proper) :
    LiteralKind.string.render s = (string s).spelling := by
  have := heads_string_iff.1 h
  unfold LiteralKind.render
  split
  · simp [readString] at this
  · rfl
  all_goals simp_all

theorem render_bindVariable {w : Text} (h : (word w).Proper) :
    LiteralKind.bindVariable.render w = ':' :: w := by
  obtain ⟨c, u, f, rfl, hc, -, -⟩ := heads_word_iff.1 h
  have : c ≠ ':' := by rintro rfl; exact absurd hc (by decide)
  simp [LiteralKind.render, this]

theorem ofNumber_ne (t : Text) :
    LiteralKind.ofNumber t ≠ .string ∧ LiteralKind.ofNumber t ≠ .bindVariable := by
  unfold LiteralKind.ofNumber
  split <;> simp

theorem ofDate_ne {t : Text} {kind : LiteralKind} (h : LiteralKind.ofDate? t = some kind) :
    kind ≠ .string ∧ kind ≠ .bindVariable := by
  unfold LiteralKind.ofDate? at h
  split at h
  · cases h; simp
  · split at h <;> cases h
    simp

theorem ofWord_ne {t : Text} {kind : LiteralKind} (h : LiteralKind.ofWord? t = some kind) :
    kind ≠ .string ∧ kind ≠ .bindVariable := by
  unfold LiteralKind.ofWord? at h
  split at h
  · cases h; simp
  · split at h
    · cases h; simp
    · split at h
      · cases h; simp
      · split at h <;> cases h
        split <;> simp

theorem exists_forall₂ {α β : Type} {P : β → α → Prop} {as : List α} (h : ∀ a ∈ as, ∃ b, P b a) :
    ∃ bs, List.Forall₂ P bs as := by
  induction as with
  | nil => exact ⟨[], .nil⟩
  | cons a as ih =>
    obtain ⟨b, hb⟩ := h a (by simp)
    obtain ⟨bs, hbs⟩ := ih fun a ha => h a (by simp [ha])
    exact ⟨b :: bs, .cons hb hbs⟩

namespace Parser

/-- A value written with a single token. -/
theorem phrase_single {α : Type} {f : Parser α} {F : Token → Prop} {t : Token} {us : List Piece}
    {a : α} (h : Single t us) (hrun : ∀ vs ds, Single t vs → F (inView ds) → Run f vs a ds) :
    Phrase f F [] us a [Piece.token t h.proper] := by
  have hv : inView us = t := h.inView
  refine ⟨closed_token t _, by simp [literals_token, h.literals], hv.symm, ?_, tight_token _ _,
    fun hm => ?_, fun ds hds => hrun _ ds (Single.token h.proper) hds⟩
  · rw [hv]
    rintro rfl
    exact not_proper_finish h.proper
  · have hm : '\n' ∈ t.spelling := by simpa using hm
    cases hl : t.literal? with
    | none => exact absurd hm (not_mem_spelling h.proper hl)
    | some s =>
      refine ⟨s, by simp [h.literals, hl], ?_⟩
      cases t <;> simp_all [literal?, spelling]

theorem run_value_string {s : Text} {us : List Piece} (h : Single (.string s) us)
    (ds : List Piece) : Run value us (s, .string) ds := by
  refine Run.current fun lexeme hl => ?_
  rw [hl, h.inView_append]
  exact (skips_take h ds).pure _

theorem run_value_number {n : Text} {us : List Piece} (h : Single (.number n) us)
    (ds : List Piece) : Run value us (n, .ofNumber n) ds := by
  refine Run.current fun lexeme hl => ?_
  rw [hl, h.inView_append]
  exact (skips_take h ds).pure _

theorem run_value_date {d : Text} {kind : LiteralKind} {us : List Piece}
    (h : Single (.dateTime d) us) (hk : LiteralKind.ofDate? d = some kind) (ds : List Piece) :
    Run value us (d, kind) ds := by
  refine Run.current fun lexeme hl => ?_
  rw [h.inView_append] at hl
  simp only [hl, hk]
  exact (skips_take h ds).pure _

theorem run_value_word {w : Text} {kind : LiteralKind} {us ds : List Piece}
    (h : Single (.word w) us) (hk : LiteralKind.ofWord? w = some kind) (hds : inView ds ≠ .colon) :
    Run value us (w, kind) ds := by
  refine Run.current fun lexeme hl => ?_
  rw [h.inView_append] at hl
  simp only [hl, hk]
  rw [← List.append_nil us]
  refine (skips_take h _).bind fun _ => Run.answer (run_atToken _ _) ?_
  rw [List.nil_append, beq_eq_false_iff_ne.2 hds]
  exact Run.pure _ ds

theorem run_value_bindVariable {w : Text} {us vs : List Piece} (h : Single .colon us)
    (h' : Single (.word w) vs) (ds : List Piece) : Run value (us ++ vs) (w, .bindVariable) ds := by
  refine Run.current fun lexeme hl => ?_
  rw [List.append_assoc, h.inView_append] at hl
  rw [hl]
  exact (skips_take h _).bind fun _ =>
    (run_identifier h' _ ds).bind_pure fun name => (name, LiteralKind.bindVariable)

theorem run_value_counted {w n : Text} {us cs vs : List Piece} (h : Single (.word w) us)
    (hc : Single .colon cs) (h' : Single (.number n) vs) (ds : List Piece) :
    Run value (us ++ (cs ++ vs)) (w ++ ":" ++ n, .countedDate) ds := by
  refine Run.current fun lexeme hl => ?_
  rw [List.append_assoc, h.inView_append] at hl
  rw [hl]
  refine (skips_take h _).bind fun _ => run_ifToken hc (Run.current fun lexeme hl => ?_)
  rw [hl, h'.inView_append]
  exact (skips_take h' ds).pure _

/-- What a value is written with, before the token `t`. -/
inductive ValuePieces (t : Token) : List Piece → Text × LiteralKind → Prop
  | string {s : Text} {us : List Piece} (h : Single (.string s) us) : ValuePieces t us (s, .string)
  | number {n : Text} {us : List Piece} (h : Single (.number n) us) :
      ValuePieces t us (n, .ofNumber n)
  | date {d : Text} {kind : LiteralKind} {us : List Piece} (h : Single (.dateTime d) us)
      (hk : LiteralKind.ofDate? d = some kind) : ValuePieces t us (d, kind)
  | word {w : Text} {kind : LiteralKind} {us : List Piece} (h : Single (.word w) us)
      (hk : LiteralKind.ofWord? w = some kind) (ht : t ≠ .colon) : ValuePieces t us (w, kind)
  | bindVariable {w : Text} {us vs : List Piece} (h : Single .colon us) (h' : Single (.word w) vs) :
      ValuePieces t (us ++ vs) (w, .bindVariable)
  | counted {w n : Text} {us cs vs : List Piece} (h : Single (.word w) us) (hc : Single .colon cs)
      (h' : Single (.number n) vs) : ValuePieces t (us ++ (cs ++ vs)) (w ++ ":" ++ n, .countedDate)

/-- The pieces of a value are read again, with a colon after them only if there was one before. -/
theorem ValuePieces.run {t : Token} {us ds : List Piece} {v : Text × LiteralKind}
    (h : ValuePieces t us v) (hds : inView ds = .colon → t = .colon) : Run value us v ds := by
  cases h with
  | string h => exact run_value_string h ds
  | number h => exact run_value_number h ds
  | date h hk => exact run_value_date h hk ds
  | word h hk ht => exact run_value_word h hk fun hcolon => ht (hds hcolon)
  | bindVariable h h' => exact run_value_bindVariable h h' ds
  | counted h hc h' => exact run_value_counted h hc h' ds

/-- The value that a text is, if it has a kind. -/
def valueOf (kind : Option LiteralKind) (t : Text) (position : Nat) :
    Parser (Text × LiteralKind) :=
  match kind with
  | some kind => return (t, kind)
  | none => throw (.invalidValue t position)

theorem reads_valueOf (kind : Option LiteralKind) (t : Text) (position : Nat) :
    Reads (valueOf kind t position) fun us v _ => us = [] ∧ ∃ k, kind = some k ∧ v = (t, k) := by
  cases kind with
  | none => exact Reads.throw _
  | some k => exact (Reads.pure _).mono fun us v ds h => ⟨h.1, k, rfl, h.2⟩

/-- The value of a word and a colon that have just been taken. -/
def dateCount (w : Text) : Parser (Text × LiteralKind) := do
  match (← current).token with
  | .number count =>
    let _ ← take
    return (w ++ ":" ++ count, .countedDate)
  | _ => fail .dateCount

theorem reads_dateCount (w : Text) : Reads (dateCount w) fun us v _ =>
    ∃ n, Single (.number n) us ∧ v = (w ++ ":" ++ n, .countedDate) := by
  refine Reads.byToken fun lexeme => ?_
  cases lexeme.token with
  | number n => exact reads_take.taken_pure (by simp) fun us ds hs => ⟨n, hs, rfl⟩
  | _ => exact Reads.fail _

theorem valuePieces_value : Reads value fun us v ds => ValuePieces (inView ds) us v := by
  refine Reads.byToken fun lexeme => ?_
  cases lexeme.token with
  | string s => exact reads_take.taken_pure (by simp) fun us ds hs => .string hs
  | number n => exact reads_take.taken_pure (by simp) fun us ds hs => .number hs
  | dateTime d =>
    refine reads_take.taken (by simp)
      (fun _ => reads_valueOf (LiteralKind.ofDate? d) d lexeme.start) ?_
    rintro us _ _ ds hs ⟨rfl, kind, hk, rfl⟩
    rw [List.append_nil]
    exact .date hs hk
  | colon =>
    refine reads_take.taken (by simp) (fun _ => (reads_identifier _).bind fun w =>
      Reads.pure (w, LiteralKind.bindVariable)) ?_
    rintro us _ _ ds hs ⟨vs, w, _, rfl, hw, rfl, rfl⟩
    rw [List.append_nil]
    exact .bindVariable hs hw
  | word w =>
    refine reads_take.taken (by simp) (fun _ => Reads.ifToken (by simp) (reads_dateCount w)
      (reads_valueOf (LiteralKind.ofWord? w) w lexeme.start)) ?_
    rintro us _ _ ds hs (⟨cs, vs, rfl, hcs, n, hn, rfl⟩ | ⟨hcolon, rfl, kind, hk, rfl⟩)
    · exact .counted hs hcs hn
    · rw [List.append_nil]
      exact .word hs hk hcolon
  | _ => exact Reads.fail _

/-- A value as it stands in a query. -/
def valueText (v : Text × LiteralKind) : Text := v.2.render v.1

/-- A value is read from the pieces, which are no parenthesis, and read back from a text. -/
def ValuePhrase {α : Type} (item : Parser α) (print : α → Text) (us : List Piece) (a : α) : Prop :=
  (∃ vs, Phrase item (· ≠ .colon) [] us a vs ∧ spell vs = print a) ∧
    inView us ≠ .openParen ∧ inView us ≠ .closeParen

theorem ValuePhrase.bindVariable {w : Text} {us vs : List Piece} (h : Single .colon us)
    (h' : Single (.word w) vs) : ValuePhrase value valueText (us ++ vs) (w, .bindVariable) := by
  refine ⟨⟨[Piece.mark .colon rfl] ++ [Piece.token (.word w) h'.proper],
    ⟨?_, ?_, ?_, ?_, by simp [Tight], ?_, ?_⟩, ?_⟩, by simp [h.inView_append]⟩
  · exact fun r hr => ⟨rfl, closed_token _ h'.proper r hr⟩
  · simp [h.literals, h'.literals, literals_token, literal?]
  · simp [h.inView_append]
  · simp [h.inView_append]
  · intro hm
    have := not_mem_word h'.proper
    simp_all [spelling]
  · exact fun ds _ => run_value_bindVariable (Single.mark .colon rfl)
      (Single.token h'.proper) ds
  · simp [valueText, render_bindVariable h'.proper, spelling]

theorem ValuePhrase.counted {w n : Text} {us cs vs : List Piece} (h : Single (.word w) us)
    (hc : Single .colon cs) (h' : Single (.number n) vs) :
    ValuePhrase value valueText (us ++ (cs ++ vs)) (w ++ ":" ++ n, .countedDate) := by
  refine ⟨⟨[Piece.token (.word w) h.proper] ++
    ([Piece.mark .colon rfl] ++ [Piece.token (.number n) h'.proper]),
    ⟨?_, ?_, ?_, ?_, by simp [Tight], ?_, ?_⟩, ?_⟩, by simp [h.inView_append]⟩
  · exact fun r hr => ⟨goesOn_word_colon w _, rfl, closed_token _ h'.proper r hr⟩
  · simp [h.literals, hc.literals, h'.literals, literals_token, literal?]
  · simp [h.inView_append]
  · simp [h.inView_append]
  · intro hm
    have := not_mem_word h.proper
    have := not_mem_spelling h'.proper rfl
    simp_all [spelling]
  · exact fun ds _ => run_value_counted (Single.token h.proper)
      (Single.mark .colon rfl) (Single.token h'.proper) ds
  · simp [valueText, LiteralKind.render, spelling]

/-- **A value is read back from its literal.** -/
theorem reads_value : Reads value fun us v _ => ValuePhrase value valueText us v := by
  refine valuePieces_value.mono fun us v ds h => ?_
  cases h with
  | string h =>
    refine ⟨⟨_, phrase_single h fun vs ds hv _ => run_value_string hv ds, ?_⟩, by simp [h.inView]⟩
    simp [valueText, render_string h.proper]
  | number h =>
    refine ⟨⟨_, phrase_single h fun vs ds hv _ => run_value_number hv ds, ?_⟩, by simp [h.inView]⟩
    simp [valueText, render_of_ne (ofNumber_ne _).1 (ofNumber_ne _).2, spelling]
  | date h hk =>
    refine ⟨⟨_, phrase_single h fun vs ds hv _ => run_value_date hv hk ds, ?_⟩, by simp [h.inView]⟩
    simp [valueText, render_of_ne (ofDate_ne hk).1 (ofDate_ne hk).2, spelling]
  | word h hk =>
    refine ⟨⟨_, phrase_single h fun vs ds hv => run_value_word hv hk, ?_⟩, by simp [h.inView]⟩
    simp [valueText, render_of_ne (ofWord_ne hk).1 (ofWord_ne hk).2, spelling]
  | bindVariable h h' => exact .bindVariable h h'
  | counted h hc h' => exact .counted h hc h'

/-- The value of a `HAVING` condition is the text of its literal. -/
theorem reads_literalText :
    Reads literalText fun us t _ => ValuePhrase literalText id us t := by
  refine (reads_value.bind fun v => Reads.pure (valueText v)).mono ?_
  rintro us t ds ⟨us, v, _, rfl, ⟨⟨vs, hvs, hsp⟩, hne⟩, rfl, rfl⟩
  rw [List.append_nil]
  refine ⟨⟨vs, ⟨hvs.closed, hvs.literals, hvs.inView, hvs.starts, hvs.tight, hvs.feeds,
    fun ds hds => ?_⟩, hsp⟩, hne⟩
  exact (hvs.run ds hds).bind_pure valueText

/-! ## Lists of values -/

/-- A list of values after its opening parenthesis. -/
def listText (texts : List Text) : Text := Text.joinWith ", " texts ++ ")"

/-- Values up to a closing parenthesis, and that parenthesis. -/
def listed {α : Type} (item : Parser α) (e e' : Expectation) : Parser (List α) := do
  let values ← untilClose item e
  let _ ← expect .closeParen e'
  return values

section Listed

variable {α : Type} {item : Parser α} {print : α → Text}

theorem run_listed {as : List α} (vs : List Piece) {e e' : Expectation} {ds : List Piece}
    (h : Run (untilClose item e) vs as ([Piece.closeParen] ++ ds)) :
    Run (listed item e e') (vs ++ [Piece.closeParen]) as ds :=
  h.upTo (Single.mark .closeParen rfl) e' id

theorem phrase_listed_nil (item : Parser α) (e e' : Expectation) {cs : List Piece}
    (hcs : Single .closeParen cs) : Phrase (listed item e e') (fun _ => True) [] cs []
      [Piece.closeParen] where
  closed := closed_token _ _
  literals := by simp [literals_token, literal?, hcs.literals]
  inView := by simp [hcs.inView]
  starts := by simp [hcs.inView]
  tight := tight_token _ _
  feeds hm := by simp [spelling] at hm
  run ds _ := run_listed [] (run_untilClose_nil item e rfl)

/-- The first value of a list stands at its beginning, and the string literals of the others are
    all that is kept of what follows it. -/
theorem exists_phrase_listed {us rest cs : List Piece} {uss : List (List Piece)} {a : α}
    {as : List α} (h : List.Forall₂ (ValuePhrase item print) (us :: uss) (a :: as))
    (hlit : literals (us ++ rest) = ((us :: uss).map literals).flatten)
    (hcs : Single .closeParen cs) (e e' : Expectation) :
    ∃ vs, Phrase (listed item e e') (fun _ => True) [] (us ++ rest ++ cs) (a :: as) vs ∧
      spell vs = listText ((a :: as).map print) := by
  obtain ⟨vss, vs, hrow, hsp, hcl, htight, hlit', hview, hst, hfeed, hne, hruns⟩ :=
    exists_phraseRow (h.imp fun us a h => h.1)
  have hclose : ∀ ws ∈ us :: uss, inView ws ≠ .closeParen := by
    intro ws hws
    obtain ⟨a, -, ha⟩ := forall₂_mem_left h hws
    exact ha.2.2
  have hvss : ∀ vs ∈ vss, inView vs ≠ .finish ∧ inView vs ≠ .closeParen := by
    intro vs hvs
    obtain ⟨hmem, hf⟩ := hne vs hvs
    obtain ⟨ws, hws, heq⟩ := List.mem_map.1 hmem
    exact ⟨hf, heq ▸ hclose ws hws⟩
  have hclean : Clean (spell [Piece.closeParen]) :=
    clean_cons (c := ')') (by decide) []
  refine ⟨vs ++ [Piece.closeParen],
    ⟨hcl.append (closed_token _ _) hclean, ?_, ?_, ?_,
      htight.append (tight_token _ _) (ne_nil_of_inView (hview ▸ hst)) (by simp) [], ?_,
      fun ds _ => run_listed vs ?_⟩, ?_⟩
  · rw [literals_append, hlit', ← hlit]
    simp [literals_token, literal?, hcs.literals]
  · rw [inView_append (hview ▸ hst), hview, List.append_assoc, inView_append hst]
  · rw [List.append_assoc, inView_append hst]
    exact hst
  · intro hm
    have hm : '\n' ∈ spell vs := by simpa [spelling] using hm
    obtain ⟨u, hu, hn⟩ := hfeed hm
    refine ⟨u, ?_, hn⟩
    rw [List.flatMap_eq_nil_iff.2 fun _ _ => rfl, List.append_nil, ← hlit] at hu
    rw [List.append_nil, literals_append]
    exact List.mem_append_left _ hu
  · exact run_untilClose (F := (· ≠ .colon)) hrow (((List.forall₂_and_left _ _).2
      ⟨hvss, hruns⟩).imp fun vs a h => ⟨h.1.1, h.1.2, h.2⟩) (by simp) (by simp) e rfl
  · simp [hsp, listText, spelling]

theorem reads_listed (hi : Reads item fun us a _ => ValuePhrase item print us a)
    (e e' : Expectation) : Reads (listed item e e') fun us as _ =>
      ∃ vs, Phrase (listed item e e') (fun _ => True) [] us as vs ∧
        spell vs = listText (as.map print) := by
  refine ((Reads.untilClose hi e).bind fun as => (reads_expect (by simp) e').bind fun _ =>
    Reads.pure as).mono ?_
  rintro _ as ds ⟨us, _, _, rfl, ⟨uss, hall, hlit, hnil, hhead⟩, cs, _, _, rfl, hcs, rfl, rfl⟩
  rw [List.append_nil]
  cases hall with
  | nil =>
    obtain rfl := hnil rfl
    exact ⟨_, phrase_listed_nil item e e' hcs, by simp [listText, Text.joinWith, spelling]⟩
  | cons hu hus =>
    obtain ⟨rest, rfl⟩ := hhead _ rfl
    exact exists_phrase_listed (.cons hu hus) hlit hcs e e'

end Listed

theorem reads_valueList : Reads valueList fun us vs _ =>
    ∃ ws, Phrase valueList (fun _ => True) [] us vs ws ∧
      spell ws = listText (vs.map valueText) :=
  reads_listed reads_value .valueSeparator .valuesClose

/-- Values up to a closing parenthesis, as texts. -/
def groupValues : Parser (List Text) := do
  let values ← untilClose literalText .valueSeparator
  let _ ← expect .closeParen .valuesClose
  return values

theorem groupValue_eq : groupValue = (do
    if ← atToken .openParen then
      let _ ← advance
      let values ← groupValues
      return "(" ++ listText values
    else literalText) := by
  unfold groupValue groupValues
  congr 1
  funext b
  congr 2
  funext _
  simp only [bind_assoc, pure_bind, listText, List.append_assoc]

/-- The value of a `HAVING` condition is written as it was read, but for the blanks. -/
theorem reads_groupValue : Reads groupValue fun us t _ =>
    ∃ vs, Phrase groupValue (· ≠ .colon) [] us t vs ∧ spell vs = t := by
  have hlist : Reads groupValues fun us ts _ =>
      ∃ vs, Phrase groupValues (fun _ => True) [] us ts vs ∧ spell vs = listText (ts.map id) :=
    reads_listed reads_literalText .valueSeparator .valuesClose
  rw [groupValue_eq]
  refine (Reads.ifToken (by simp) (hlist.bind fun ts => Reads.pure ("(" ++ listText ts))
    reads_literalText).mono ?_
  rintro _ _ ds (⟨os, _, rfl, ho, us, ts, _, rfl, ⟨vs, hvs, hsp⟩, rfl, rfl⟩ |
    ⟨-, ⟨vs, hvs, hsp⟩, hne, -⟩)
  · rw [List.append_nil]
    refine ⟨_, hvs.opened ho fun ds _ => ?_, by simpa [spelling] using hsp⟩
    exact run_ifToken (Single.mark .openParen rfl)
      ((hvs.run ds trivial).bind_pure fun ts => "(" ++ listText ts)
  · refine ⟨vs, ⟨hvs.closed, hvs.literals, hvs.inView, hvs.starts, hvs.tight, hvs.feeds,
      fun ds hds => run_ifToken_not ?_ (hvs.run ds hds)⟩, hsp⟩
    rwa [inView_append (hvs.inView ▸ hvs.starts), hvs.inView]

end Parser

/-- The kinds of a list give every value its own kind back. -/
theorem at_ofList (kinds : List LiteralKind) {i : Nat} (hi : i < kinds.length) :
    (LiteralKinds.ofList kinds).at? i = some kinds[i] := by
  cases kinds with
  | nil => simp at hi
  | cons kind kinds =>
    rw [LiteralKinds.ofList]
    split
    · rename_i hall
      rw [LiteralKinds.at?]
      cases i with
      | zero => rfl
      | succ i =>
        have hi : i < kinds.length := by simpa using hi
        have := List.all_eq_true.1 hall kinds[i] (List.getElem_mem hi)
        simpa using (beq_iff_eq.1 this).symm
    · simp [LiteralKinds.at?]

theorem render_list (vs : List (Text × LiteralKind)) :
    FilterValue.render (.list (vs.map (·.1))) (some (.ofList (vs.map (·.2)))) =
      "(" ++ Parser.listText (vs.map Parser.valueText) := by
  have h : (vs.map (·.1)).mapIdx (fun index text => renderLiteral
      ((some (LiteralKinds.ofList (vs.map (·.2)))).bind fun kinds => kinds.at? index) text) =
      vs.map Parser.valueText := by
    apply List.ext_getElem
    · simp
    · intro i h1 h2
      have hi : i < vs.length := by simpa using h2
      simp [at_ofList _ (by simpa using hi : i < (vs.map (·.2)).length), renderLiteral,
        Parser.valueText]
  simp only [FilterValue.render, h, Parser.listText, List.append_assoc]

/-! ## Comparison operators -/

namespace Parser

/-- A token that stands for a comparison is neither a string literal nor what goes on a name. -/
theorem comparisonOf?_token {t : Token} {k : Comparison} (h : comparisonOf? t = some k) :
    t ≠ .finish ∧ t.literal? = none ∧ EndsName t := by
  cases t <;> simp_all [comparisonOf?, literal?, EndsName]

theorem reads_comparison : Reads comparison fun us _ _ => literals us = [] := by
  have hnot : Reads (do expectKeyword "IN"; return Comparison.notIn : Parser Comparison)
      fun us _ _ => literals us = [] := by
    refine ((reads_expectKeyword "IN").bind fun _ => Reads.pure Comparison.notIn).mono ?_
    rintro us k ds ⟨vs, _, _, rfl, h, rfl, -⟩
    simpa using h.literals
  refine (Reads.ifKeyword hnot (Q := fun us _ _ => literals us = [])
    (Reads.byToken fun lexeme => ?_)).mono ?_
  · cases hk : comparisonOf? lexeme.token with
    | none => exact Reads.fail _
    | some k =>
      obtain ⟨hne, hl, -⟩ := comparisonOf?_token hk
      exact reads_advance.taken_pure hne fun us ds hs => hs.literals.trans (by rw [hl]; rfl)
  · rintro us k ds (⟨vs, ws, rfl, hs, h⟩ | ⟨-, h⟩)
    · rw [literals_append, hs.literals, h]
      rfl
    · exact h

theorem run_comparison {t : Token} {k : Comparison} (hp : t.Proper)
    (hn : t.isKeyword "NOT" = false) (hk : comparisonOf? t = some k) (ds : List Piece) :
    Run comparison [Piece.token t hp] k ds := by
  refine Run.answer (run_eatKeyword_false hn) (Run.current fun lexeme hl => ?_)
  rw [(Single.token hp).inView_append] at hl
  simp only [hl, hk]
  exact (skips_advance (Single.token hp) ds).pure k

/-- A comparison operator in its own spelling: what it starts with is no part of a subject. -/
def ComparisonPieces (k : Comparison) (vs : List Piece) : Prop :=
  spell vs = Keyword.spelling k ∧ Closed vs ∧ literals vs = [] ∧ '\n' ∉ spell vs ∧
    EndsName (inView vs) ∧ inView vs ≠ .finish ∧ ∀ ds, Run comparison vs k ds

theorem comparisonPieces_token {t : Token} {k : Comparison} (hp : t.Proper)
    (hs : t.spelling = Keyword.spelling k) (hn : t.isKeyword "NOT" = false)
    (hk : comparisonOf? t = some k) : ComparisonPieces k [Piece.token t hp] := by
  obtain ⟨hne, hl, he⟩ := comparisonOf?_token hk
  exact ⟨by simpa using hs, closed_token t hp, by simp [literals_token, hl],
    by simpa using not_mem_spelling hp hl, he, hne, run_comparison hp hn hk⟩

theorem comparisonPieces_word {w : Text} {k : Comparison} (hw : isPlainWord w = true)
    (hs : w = Keyword.spelling k) (hn : Text.sameWord w "NOT" = false)
    (hk : Keyword.ofWord? w = some k) : ComparisonPieces k [Piece.keyword w hw] :=
  comparisonPieces_token (proper_of_isPlainWord hw) hs hn hk

/-- **Every comparison operator is read back from its spelling.** -/
theorem exists_comparison (k : Comparison) : ∃ vs, ComparisonPieces k vs := by
  cases k with
  | equal => exact ⟨_, comparisonPieces_token (proper_mark .eq rfl) rfl rfl rfl⟩
  | notEqual => exact ⟨_, comparisonPieces_token (proper_mark .notEq rfl) rfl rfl rfl⟩
  | lessGreater => exact ⟨_, comparisonPieces_token (proper_mark .lessGreater rfl) rfl rfl rfl⟩
  | less => exact ⟨_, comparisonPieces_token (proper_mark .less rfl) rfl rfl rfl⟩
  | lessEqual => exact ⟨_, comparisonPieces_token (proper_mark .lessEq rfl) rfl rfl rfl⟩
  | greater => exact ⟨_, comparisonPieces_token (proper_mark .greater rfl) rfl rfl rfl⟩
  | greaterEqual => exact ⟨_, comparisonPieces_token (proper_mark .greaterEq rfl) rfl rfl rfl⟩
  | like => exact ⟨_, comparisonPieces_word (by decide) rfl (by decide) (by decide)⟩
  | isIn => exact ⟨_, comparisonPieces_word (by decide) rfl (by decide) (by decide)⟩
  | includes => exact ⟨_, comparisonPieces_word (by decide) rfl (by decide) (by decide)⟩
  | excludes => exact ⟨_, comparisonPieces_word (by decide) rfl (by decide) (by decide)⟩
  | notIn =>
    have hn : isPlainWord "NOT" = true := by decide
    have hi : isPlainWord "IN" = true := by decide
    refine ⟨[Piece.keyword "NOT" hn] ++ ([Piece.space] ++ [Piece.keyword "IN" hi]),
      by simp [Keyword.spelling], closed_keyword (closed_token _ _) _ _, by simp, by simp,
      by simp [EndsName], by simp, fun ds => ?_⟩
    exact (run_eatKeyword (isKeyword_keyword "NOT" hn) _).bind
      (((run_expectKeyword (isKeyword_keyword "IN" hi) ds).blank_append blank_space).bind_pure
        fun _ => Comparison.notIn)

/-! ## Numbers of rows -/

theorem number_decimal (n : Nat) : (Text.decimal n).number? = some n := by
  have hall : (Text.decimal n).all Char.isDigit = true := by
    rw [List.all_eq_true]
    exact fun c hc => Nat.isDigit_of_mem_toDigits (by decide) (by decide) hc
  have hne : (Text.decimal n).isEmpty = false := by
    simp [Text.decimal]
  have := Nat.ofDigitChars_ten_toDigits (n := n)
  rw [Nat.ofDigitChars_eq_foldl] at this
  rw [Text.number?, hall, hne]
  simp only [Bool.not_false, Bool.and_self, if_true, Text.decimal]
  exact congrArg some this

theorem reads_rowCount (clause : Text) :
    Reads (rowCount clause) fun us _ _ => literals us = [] := by
  refine Reads.byToken fun lexeme => ?_
  cases lexeme.token with
  | number text =>
    cases hn : text.number? with
    | none => simpa only [hn] using Reads.throw _
    | some n =>
      simp only [hn]
      refine Reads.ite (fun _ => ?_) fun _ => Reads.throw _
      exact reads_advance.taken_pure (by simp) fun us ds hs => hs.literals
  | _ => exact Reads.fail _

theorem run_rowCount (clause : Text) (n : UInt64) (ds : List Piece) :
    Run (rowCount clause) [.token (.number (Text.decimal n.toNat)) (proper_decimal _)] n ds := by
  have hs := Single.token (proper_decimal n.toNat)
  refine Run.current fun lexeme hl => ?_
  rw [hs.inView_append] at hl
  have hn : n.toNat < UInt64.size := n.toNat_lt
  simp only [hl, number_decimal, hn, if_true]
  have heq : n.toNat.toUInt64 = n := UInt64.ofNat_toNat
  rw [heq]
  exact (skips_advance hs ds).pure n

end Parser

end Soql
