/-
  Two runs of one parser in step.

  A parser sees of its lexemes their tokens and the text between two of them,
  and it names their starts in errors.  Over lexemes that agree in what it
  sees, two runs of it yield the same result or stop at the same place.  What
  agrees is left open: over one sequence of lexemes this tells what errors a
  parser can give, over two of them that the place of a text does not matter.

  * `Token.Complaint`: the errors about a token.
  * `Lockstep`: which cursors, lexemes and errors belong together.
  * `Parser.InStep S R f g`: the parsers `f` and `g` stay in step, with results
    related by `R`.
  * `Parser.steady_query`: the parser of queries stays in step with itself.
-/
import Mathlib
import Soql.Proofs.Parse.Alike
import Soql.Proofs.Parse.Select

namespace Soql

/-- The errors that a parser can give about a token, but for its place. -/
inductive Token.Complaint : Token → (Nat → ParseError) → Prop
  | unexpected (expected : Expectation) {t : Token} (h : t ≠ .finish) :
    Complaint t (.unexpectedToken expected t)
  | number (text : Text) : Complaint (.number text) (.invalidNumber text)
  | word (w : Text) : Complaint (.word w) (.invalidValue w)
  | dateTime (text : Text) : Complaint (.dateTime text) (.invalidValue text)
  | unsupported (form : UnsupportedForm) {t : Token} (h : t ≠ .finish) :
    Complaint t (.unsupported form)

/-- Cursors and lexemes of two runs that belong together, and the errors with the cursors that the
    runs may end with. -/
structure Lockstep where
  cursors : Cursor → Cursor → Prop
  lexemes : Lexeme → Lexeme → Prop
  errors : ParseError → Cursor → ParseError → Cursor → Prop
  /-- A parser bounds its repetitions by the size of its cursor. -/
  size {c d : Cursor} : cursors c d → c.size = d.size
  current {c d : Cursor} : cursors c d → lexemes c.current d.current
  token {l m : Lexeme} : lexemes l m → l.token = m.token
  textUpTo {l m l' m' : Lexeme} : lexemes l m → lexemes l' m' → l.textUpTo l' = m.textUpTo m'
  /-- The next lexemes belong together.  Where an error stands in their place, it counts whatever
      is in view. -/
  pull {c d : Cursor} : cursors c d →
    (∃ l m ls ms, c.ahead.pull = (.ok l, ls) ∧ d.ahead.pull = (.ok m, ms) ∧
      cursors ⟨l, ls⟩ ⟨m, ms⟩) ∨
    ∃ e e' ls ms, c.ahead.pull = (.error e, ls) ∧ d.ahead.pull = (.error e', ms) ∧
      ∀ l m, errors (.scan e) ⟨l, ls⟩ (.scan e') ⟨m, ms⟩
  ended {c d : Cursor} {expected : Expectation} : cursors c d → c.current.token = .finish →
    errors (.unexpectedEnd expected) c (.unexpectedEnd expected) d
  /-- A token may be complained of also later than where it is in view. -/
  complain {c d : Cursor} {l m : Lexeme} {e : Nat → ParseError} : cursors c d → lexemes l m →
    l.token.Complaint e → errors (e l.start) c (e m.start) d

namespace Parser

variable {α β κ : Type}

/-- From cursors that belong together both parsers succeed, with related results and with cursors
    that belong together, or both fail with errors that do. -/
def InStep (S : Lockstep) (R : α → β → Prop) (f : Parser α) (g : Parser β) : Prop :=
  ∀ ⦃c d⦄, S.cursors c d →
    (∃ a b c' d', f c = .ok a c' ∧ g d = .ok b d' ∧ R a b ∧ S.cursors c' d') ∨
    ∃ e e' c' d', f c = .error e c' ∧ g d = .error e' d' ∧ S.errors e c' e' d'

/-- Two runs of the parser stay in step, with the same results. -/
abbrev Steady (S : Lockstep) (f : Parser α) : Prop := InStep S Eq f f

variable {S : Lockstep} {R : α → α → Prop} {R' : β → β → Prop} {f f' : Parser α}
  {g g' : α → Parser β}

/-! ## Parsers after one another -/

namespace InStep

theorem bind (hf : InStep S R f f') (hg : ∀ a b, R a b → InStep S R' (g a) (g' b)) :
    InStep S R' (f >>= g) (f' >>= g') := by
  intro c d hc
  rcases hf hc with ⟨a, b, c', d', h, h', hR, hc'⟩ | ⟨e, e', c', d', h, h', he⟩
  · rw [bind_of_ok h, bind_of_ok h']
    exact hg a b hR hc'
  · exact Or.inr ⟨e, e', c', d', bind_of_error h, bind_of_error h', he⟩

/-- One parser after another that has the same result in both runs. -/
theorem seq (hf : Steady S f) (hg : ∀ a, InStep S R' (g a) (g' a)) :
    InStep S R' (f >>= g) (f >>= g') :=
  hf.bind fun a _ hab => hab ▸ hg a

theorem pure {a b : α} (h : R a b) : InStep S R (pure a) (pure b) :=
  fun c d hc => Or.inl ⟨a, b, c, d, rfl, rfl, h, hc⟩

theorem map (hf : Steady S f) (h : α → β) : Steady S (f >>= fun a => Pure.pure (h a)) :=
  hf.seq fun _ => pure rfl

theorem ite {b : Bool} {h h' : Parser α} (ht : InStep S R f f') (he : InStep S R h h') :
    InStep S R (if b then f else h) (if b then f' else h') := by
  cases b with
  | false => exact he
  | true => exact ht

theorem get {g g' : Cursor → Parser β} (h : ∀ c d, c.size = d.size → InStep S R' (g c) (g' d)) :
    InStep S R' (get >>= g) (get >>= g') := fun c d hc => h c d (S.size hc) hc

/-- A complaint about a lexeme that is or was in view. -/
theorem complain {l m : Lexeme} {e : Nat → ParseError} (h : l.token.Complaint e)
    (hlm : S.lexemes l m) : InStep S R (throw (e l.start)) (throw (e m.start)) :=
  fun c d hc => Or.inr ⟨_, _, c, d, rfl, rfl, S.complain hc hlm h⟩

end InStep

/-! ## Single lexemes -/

theorem inStep_current : InStep S S.lexemes current current :=
  fun c d hc => Or.inl ⟨_, _, c, d, rfl, rfl, S.current hc, hc⟩

/-- A parser that goes by the token in view, which is the same in both runs. -/
theorem InStep.byToken {g g' : Lexeme → Parser β} (h : ∀ l m t, S.lexemes l m → l.token = t →
    m.token = t → InStep S R' (g l) (g' m)) : InStep S R' (current >>= g) (current >>= g') :=
  inStep_current.bind fun l m hlm => h l m m.token hlm (S.token hlm) rfl

/-- A parser that keeps the lexeme in view while `f` is run, whose success tells more of it. -/
theorem InStep.keeping {P : Token → α → Prop} {g g' : Lexeme → α → Parser β} (hf : Steady S f)
    (hP : ∀ c a c', f c = .ok a c' → P c.current.token a)
    (hg : ∀ l m a, S.lexemes l m → P l.token a → InStep S R' (g l a) (g' m a)) :
    InStep S R' (current >>= fun l => f >>= g l) (current >>= fun l => f >>= g' l) := by
  intro c d hc
  have hcurrent (g : Lexeme → α → Parser β) (c : Cursor) :
      (current >>= fun l => f >>= g l) c = (f >>= g c.current) c := rfl
  rw [hcurrent, hcurrent]
  rcases hf hc with ⟨a, _, c', d', h, h', rfl, hc'⟩ | ⟨e, e', c', d', h, h', he⟩
  · rw [bind_of_ok h, bind_of_ok h']
    exact hg _ _ a (S.current hc) (hP c a c' h) hc'
  · exact Or.inr ⟨e, e', c', d', bind_of_error h, bind_of_error h', he⟩

theorem inStep_advance : InStep S S.lexemes advance advance := by
  intro c d hc
  rcases S.pull hc with ⟨l, m, ls, ms, hl, hm, h⟩ | ⟨e, e', ls, ms, hl, hm, h⟩
  · refine Or.inl ⟨c.current, d.current, _, _, ?_, ?_, S.current hc, h⟩
    · simp only [advance, hl]
    · simp only [advance, hm]
  · refine Or.inr ⟨_, _, _, _, ?_, ?_, h c.current d.current⟩
    · simp only [advance, hl]
    · simp only [advance, hm]

/-- Where there is no next lexeme the one in view is replaced, and errors there count whatever is
    in view. -/
theorem inStep_take : InStep S S.lexemes take take := by
  intro c d hc
  rcases S.pull hc with ⟨l, m, ls, ms, hl, hm, h⟩ | ⟨e, e', ls, ms, hl, hm, h⟩
  · refine Or.inl ⟨c.current, d.current, ⟨l, ls⟩, ⟨m, ms⟩, (take_eq ..).2 ?_, (take_eq ..).2 ?_,
      S.current hc, h⟩
    · simp only [advance, hl]
    · simp only [advance, hm]
  · have htake {c : Cursor} {e : ScanError} {ls : Lexemes} (hl : c.ahead.pull = (.error e, ls)) :
        take c = .error (.scan e) ⟨{ c.current with token := .finish }, ls⟩ := by
      refine bind_of_error (c := ⟨{ c.current with token := .finish }, c.ahead⟩) ?_
      simp only [advance, hl]
    exact Or.inr ⟨_, _, _, _, htake hl, htake hm, h _ _⟩

theorem InStep.advance (h : InStep S R f f') :
    InStep S R (advance >>= fun _ => f) (advance >>= fun _ => f') :=
  inStep_advance.bind fun _ _ _ => h

theorem InStep.take (h : InStep S R f f') :
    InStep S R (take >>= fun _ => f) (take >>= fun _ => f') :=
  inStep_take.bind fun _ _ _ => h

theorem inStep_fail (expected : Expectation) : InStep S R (fail expected) (fail expected) := by
  intro c d hc
  have hcurrent (c : Cursor) : (fail expected : Parser α) c =
      (if c.current.token = .finish then throw (.unexpectedEnd expected)
        else throw (.unexpectedToken expected c.current.token c.current.start) : Parser α) c := rfl
  rw [hcurrent, hcurrent, ← S.token (S.current hc)]
  split
  next h => exact Or.inr ⟨_, _, c, d, rfl, rfl, S.ended hc h⟩
  next h => exact InStep.complain (.unexpected expected h) (S.current hc) hc

theorem steady_atToken (t : Token) : Steady S (atToken t) :=
  .byToken fun _ _ _ _ hl hm => .pure (by rw [hl, hm])

theorem InStep.ifToken (t : Token) {h h' : Parser α} (hf : InStep S R f f')
    (hh : InStep S R h h') :
    InStep S R (do if ← atToken t then f else h) (do if ← atToken t then f' else h') :=
  (steady_atToken t).seq fun _ => .ite hf hh

theorem inStep_expect (t : Token) (expected : Expectation) :
    InStep S S.lexemes (expect t expected) (expect t expected) :=
  .ifToken t inStep_advance (inStep_fail expected)

theorem InStep.expect (t : Token) (expected : Expectation) (h : InStep S R f f') :
    InStep S R (expect t expected >>= fun _ => f) (expect t expected >>= fun _ => f') :=
  (inStep_expect t expected).bind fun _ _ _ => h

theorem steady_separator (expected : Expectation) : Steady S (separator expected) :=
  .ifToken _ (.pure rfl) (.expect _ expected (.pure rfl))

/-! ## Words -/

theorem steady_atKeyword (w : Text) : Steady S (atKeyword w) :=
  .byToken fun l m t _ hl hm => by
    rw [hl, hm]
    cases t <;> exact .pure rfl

theorem steady_eatKeyword (w : Text) : Steady S (eatKeyword w) :=
  (steady_atKeyword w).seq fun _ => .ite (.advance (.pure rfl)) (.pure rfl)

theorem InStep.ifKeyword (w : Text) {h h' : Parser α} (hf : InStep S R f f')
    (hh : InStep S R h h') :
    InStep S R (do if ← eatKeyword w then f else h) (do if ← eatKeyword w then f' else h') :=
  (steady_eatKeyword w).seq fun _ => .ite hf hh

theorem steady_expectKeyword (w : Text) : Steady S (expectKeyword w) :=
  .ifKeyword w (.pure rfl) (inStep_fail _)

theorem steady_identifier (expected : Expectation) : Steady S (identifier expected) :=
  .byToken fun l m t _ hl hm => by
    rw [hl, hm]
    cases t with
    | word w => exact .take (.pure rfl)
    | _ => exact inStep_fail expected

theorem steady_keywordInView (κ : Type) [Keyword κ] : Steady S (keywordInView? κ) :=
  .byToken fun l m t _ hl hm => by
    rw [hl, hm]
    cases t <;> exact .pure rfl

theorem steady_expectKeywordOf [Keyword κ] (expected : Expectation) :
    Steady S (expectKeywordOf expected : Parser κ) :=
  (steady_keywordInView κ).seq fun o => by
    cases o with
    | none => exact inStep_fail expected
    | some k => exact .advance (.pure rfl)

theorem steady_aliasName : Steady S aliasName? :=
  .byToken fun l m t _ hl hm => by
    rw [hl, hm]
    cases t with
    | word w => exact .ite (.pure rfl) (.advance (.pure rfl))
    | _ => exact .pure rfl

/-! ## Repetition -/

section Repetition

variable {item : Parser α}

theorem Steady.manyUpTo {step : Parser (Option α)} (h : Steady S step) (k : Nat) :
    Steady S (manyUpTo step k) := by
  induction k with
  | zero => exact .pure rfl
  | succ k ih =>
    refine h.seq fun o => ?_
    cases o with
    | none => exact .pure rfl
    | some a => exact ih.map _

theorem Steady.many {step : Parser (Option α)} (h : Steady S step) : Steady S (many step) :=
  .get fun c d hsize => by
    rw [hsize]
    exact h.manyUpTo _

theorem Steady.after (t : Token) (h : Steady S item) : Steady S (after t item) :=
  .ifToken t (.advance (h.map _)) (.pure rfl)

theorem Steady.afterKeyword (w : Text) (h : Steady S item) : Steady S (afterKeyword w item) :=
  .ifKeyword w (h.map _) (.pure rfl)

theorem Steady.commaSeparated (h : Steady S item) : Steady S (commaSeparated item) :=
  h.seq fun _ => (h.after _).many.map _

theorem Steady.untilClose (expected : Expectation) (h : Steady S item) :
    Steady S (untilClose item expected) := by
  rw [untilClose_eq]
  refine Steady.many (.ifToken _ (.pure rfl) ?_)
  exact h.seq fun _ => (steady_separator expected).map _

theorem Steady.both {item' : Parser β} (h : Steady S item) (h' : Steady S item') :
    Steady S (both item item') := h.seq fun _ => h'.map _

end Repetition

theorem steady_pathRest : Steady S pathRest := ((steady_identifier _).after _).many

theorem steady_path : Steady S path := (steady_identifier _).seq fun _ => steady_pathRest.map _

theorem steady_dottedPath : Steady S dottedPath := steady_path.map _

/-! ## Calls -/

section Calls

variable {arguments : Parser (List Argument)} {l m : Lexeme}

/-- The source text of a call lies between two lexemes. -/
theorem inStep_callAfterName (h : Steady S arguments) (hlm : S.lexemes l m) (name : Text) :
    InStep S Eq (callAfterName arguments l name) (callAfterName arguments m name) := by
  refine .expect _ _ (h.seq fun as => (inStep_expect _ _).bind fun l' m' hlm' => .pure ?_)
  rw [S.textUpTo hlm hlm']

theorem steady_argument (h : Steady S arguments) : Steady S (argument arguments) :=
  .byToken fun l m t _ hl hm => by
    rw [hl, hm]
    cases t with
    | word name =>
      refine inStep_advance.bind fun l' m' hlm' => .ifToken _ ?_ (steady_pathRest.map _)
      exact (inStep_callAfterName h hlm' name).bind fun _ _ hcall => .pure (by rw [hcall])
    | string | number | dateTime => exact .advance (.pure rfl)
    | _ => exact inStep_fail _

theorem steady_argumentsUpTo (n : Nat) : Steady S (argumentsUpTo n) := by
  induction n with
  | zero => exact .pure rfl
  | succ n ih =>
    rw [argumentsUpTo_succ]
    refine .ifToken _ (.pure rfl) ?_
    exact (steady_argument ih).seq fun _ => (steady_separator _).seq fun _ => ih.map _

theorem inStep_call (hlm : S.lexemes l m) (name : Text) :
    InStep S Eq (call l name) (call m name) :=
  .get fun c d hsize => by
    rw [hsize]
    exact inStep_callAfterName (steady_argumentsUpTo _) hlm name

end Calls

theorem steady_subject : Steady S subject := by
  refine inStep_current.bind fun l m hlm => (steady_identifier _).seq fun name => ?_
  refine .ifToken _ ?_ (steady_pathRest.map _)
  exact (inStep_call hlm name).bind fun _ _ hcall => .pure (by rw [hcall])

/-- A subject starts with a token. -/
theorem token_of_subject {c c' : Cursor} {s : Subject} (h : subject c = .ok s c') :
    c.current.token ≠ .finish := by
  obtain ⟨_, _, hcurrent, h⟩ := bind_eq_ok.1 h
  cases hcurrent
  obtain ⟨name, c₁, h, -⟩ := bind_eq_ok.1 h
  obtain ⟨_, _, hcurrent, h⟩ := bind_eq_ok.1 h
  cases hcurrent
  intro hfinish
  rw [hfinish] at h
  exact fail_ne_ok h

/-! ## Values -/

theorem steady_value : Steady S value :=
  .byToken fun l m t hlm hl hm => by
    rw [hl, hm]
    cases t with
    | string | number => exact .take (.pure rfl)
    | dateTime text =>
      refine .take ?_
      cases LiteralKind.ofDate? text with
      | none => exact .complain (hl ▸ .dateTime text) hlm
      | some kind => exact .pure rfl
    | colon => exact .take ((steady_identifier _).map _)
    | word w =>
      refine .take (.ifToken _ (.advance (.byToken fun l m t _ hl hm => ?_)) ?_)
      · rw [hl, hm]
        cases t with
        | number count => exact .take (.pure rfl)
        | _ => exact inStep_fail _
      · cases LiteralKind.ofWord? w with
        | none => exact .complain (hl ▸ .word w) hlm
        | some kind => exact .pure rfl
    | _ => exact inStep_fail _

theorem steady_valueList : Steady S valueList :=
  (steady_value.untilClose _).seq fun _ => .expect _ _ (.pure rfl)

theorem steady_literalText : Steady S literalText := steady_value.map _

theorem steady_groupValue : Steady S groupValue :=
  .ifToken _ (.advance ((steady_literalText.untilClose _).seq fun _ => .expect _ _ (.pure rfl)))
    steady_literalText

theorem steady_rowCount (clause : Text) : Steady S (rowCount clause) :=
  .byToken fun l m t hlm hl hm => by
    rw [hl, hm]
    cases t with
    | number text =>
      have hfault : InStep S (Eq (α := UInt64)) (throw (.invalidNumber text l.start))
          (throw (.invalidNumber text m.start)) := .complain (hl ▸ .number text) hlm
      dsimp only
      cases text.number? with
      | none => exact hfault
      | some n =>
        by_cases hn : n < UInt64.size
        · simp only [if_pos hn]
          exact .advance (.pure rfl)
        · simp only [if_neg hn]
          exact hfault
    | _ => exact inStep_fail _

/-! ## Filters -/

theorem steady_openParens : Steady S openParens :=
  (Steady.after _ (.pure rfl)).many.map _

theorem steady_closeParens (depth : Nat) : Steady S (closeParens depth) :=
  ((Steady.after _ (.pure rfl)).manyUpTo depth).map _

theorem steady_connective : Steady S connective? :=
  .ifKeyword _ (.pure rfl) (.ifKeyword _ (.pure rfl) (.pure rfl))

theorem steady_comparison : Steady S comparison := by
  refine .ifKeyword _ ((steady_expectKeyword _).map _) (.byToken fun l m t _ hl hm => ?_)
  rw [hl, hm]
  cases comparisonOf? t with
  | none => exact inStep_fail _
  | some op => exact .advance (.pure rfl)

theorem steady_comparing {right : Parser α} (h : Steady S right) : Steady S (comparing right) :=
  steady_subject.seq fun _ => steady_comparison.seq fun _ => h.map _

theorem steady_comparand {nested : Parser Query} (h : Steady S nested) :
    Steady S (comparand nested) := by
  refine .ifToken _ (.advance ((steady_atKeyword _).seq fun _ => .ite ?_ ?_)) (steady_value.map _)
  · exact h.seq fun _ => .expect _ _ (.pure rfl)
  · exact steady_valueList.map _

theorem steady_condition {nested : Parser Query} (h : Steady S nested) :
    Steady S (condition nested) := by
  rw [condition_eq]
  exact (steady_comparing (steady_comparand h)).map _

theorem steady_groupCondition : Steady S groupCondition :=
  (steady_comparing steady_groupValue).map _

/-- A keyword that is taken is a token. -/
theorem token_of_eatKeyword {w : Text} {c c' : Cursor} (h : eatKeyword w c = .ok true c') :
    c.current.token ≠ .finish := by
  obtain ⟨b, c₁, hb, h⟩ := bind_eq_ok.1 h
  intro hfinish
  rw [atKeyword_eq, hfinish] at hb
  cases hb
  cases h

theorem steady_front : Steady S front := by
  refine steady_openParens.seq fun opens => ?_
  refine (steady_eatKeyword "NOT").keeping (P := fun t b => b = true → t ≠ .finish) ?_ ?_
  · rintro c _ c' h rfl
    exact token_of_eatKeyword h
  · intro l m negated hlm htoken
    cases negated with
    | false => exact (steady_atToken _).seq fun _ => .pure rfl
    | true =>
      refine (steady_atToken _).seq fun isOpen => .ite ?_ (.pure rfl)
      by_cases hopens : opens = 0
      · simp only [if_pos hopens]
        exact .pure rfl
      · simp only [if_neg hopens]
        exact .complain (.unsupported _ (htoken rfl)) hlm

theorem steady_groupFront : Steady S groupFront := steady_openParens.map _

theorem steady_closing (depth : Nat) : Steady S (closing depth) :=
  (steady_closeParens depth).seq fun _ => steady_connective.map _

theorem steady_linkOf {front : Parser (Option (Nat × Bool))} {bare : Parser κ}
    (hfront : Steady S front) (hbare : Steady S bare) (surround : κ → Nat → Bool → Nat → κ)
    (depth : Nat) : Steady S (linkOf front bare surround depth) := by
  refine hfront.seq fun r => ?_
  cases r with
  | none => exact .pure rfl
  | some r => exact hbare.seq fun _ => (steady_closing _).map _

theorem steady_chainUpTo {link : Nat → Parser (Link κ × Nat)} (h : ∀ depth, Steady S (link depth))
    (n : Nat) : ∀ depth, Steady S (chainUpTo link n depth) := by
  induction n with
  | zero => exact fun depth => inStep_fail _
  | succ n ih =>
    refine fun depth => (h depth).seq fun x => ?_
    obtain ⟨x, after⟩ := x
    dsimp only
    cases x.connective with
    | none => exact .pure rfl
    | some op => exact (ih after).map _

theorem steady_filter {nested : Parser Query} (h : Steady S nested) : Steady S (filter nested) :=
  .get fun c d hsize => by
    rw [hsize, filterUpTo_eq]
    exact steady_chainUpTo (steady_linkOf steady_front (steady_condition h) _) _ 0

theorem steady_groupFilter : Steady S groupFilter :=
  .get fun c d hsize => by
    rw [hsize, groupFilterUpTo_eq]
    exact steady_chainUpTo (steady_linkOf steady_groupFront steady_groupCondition _) _ 0

/-! ## Clauses -/

/-- The only error about keys is the one of mixed keys, whatever their position. -/
theorem groupingOf_cases (s : Subject) (ss : List Subject) :
    (∃ g, ∀ i, groupingOf i s ss = .ok g) ∨
      ∀ i, groupingOf i s ss = .error (.unsupported .mixedGroupKeys i) := by
  unfold groupingOf
  split
  · exact Or.inl ⟨_, fun _ => rfl⟩
  · exact Or.inl ⟨_, fun _ => rfl⟩
  · cases (s :: ss).mapM Subject.field? with
    | none => exact Or.inr fun _ => rfl
    | some names => exact Or.inl ⟨_, fun _ => rfl⟩

theorem steady_grouping : Steady S grouping := by
  refine steady_subject.commaSeparated.keeping (P := fun t _ => t ≠ .finish) ?_ ?_
  · intro c x c' h
    obtain ⟨s, c₁, h, -⟩ := bind_eq_ok.1 h
    exact token_of_subject h
  · rintro l m ⟨s, ss⟩ hlm htoken
    dsimp only
    rcases groupingOf_cases s ss with ⟨g, hg⟩ | he
    · rw [hg, hg]
      exact .pure rfl
    · rw [he, he]
      exact .complain (.unsupported _ htoken) hlm

theorem steady_order : Steady S order? :=
  (steady_keywordInView _).seq fun o => by
    cases o with
    | none => exact .pure rfl
    | some order => exact .advance (.pure rfl)

theorem steady_sortKey : Steady S sortKey :=
  steady_subject.seq fun _ => steady_order.seq fun _ =>
    ((steady_expectKeywordOf _).afterKeyword _).map _

theorem steady_sorting : Steady S sorting := by
  rw [sorting_eq]
  exact steady_sortKey.commaSeparated.map _

theorem steady_categories : Steady S categories := by
  refine .ifToken _ (.advance ?_) ((steady_identifier _).map _)
  exact (steady_identifier _).commaSeparated.seq fun _ => .expect _ _ (.pure rfl)

theorem steady_categoryCondition : Steady S categoryCondition :=
  (steady_identifier _).seq fun _ => (steady_expectKeywordOf _).seq fun _ => steady_categories.map _

theorem steady_withClause : Steady S withClause := by
  refine .ifKeyword _ (.pure rfl) (.ifKeyword _ ?_ (inStep_fail _))
  exact (steady_expectKeyword _).seq fun _ => steady_categoryCondition.seq fun _ =>
    (steady_categoryCondition.afterKeyword _).many.map _

theorem steady_withClauses : Steady S withClauses := (steady_withClause.afterKeyword _).many

theorem steady_branchFields : Steady S branchFields := steady_dottedPath.commaSeparated.map _

theorem steady_whenBranch : Steady S whenBranch :=
  (steady_identifier _).seq fun _ => (steady_expectKeyword _).seq fun _ => steady_branchFields.map _

theorem steady_elseBranch : Steady S elseBranch := steady_branchFields.map _

theorem steady_typeOf : Steady S typeOf :=
  steady_dottedPath.seq fun _ => (steady_whenBranch.afterKeyword _).many.seq fun _ =>
    (steady_elseBranch.afterKeyword _).seq fun _ => (steady_expectKeyword _).map _

theorem steady_groupingClause : Steady S groupingClause := by
  have hkeys : Steady S grouping? :=
    Steady.afterKeyword _ ((steady_expectKeyword _).seq fun _ => steady_grouping)
  refine hkeys.seq fun g => ?_
  refine (steady_groupFilter.afterKeyword "HAVING").keeping
    (P := fun t o => o.isSome = true → t ≠ .finish) ?_ ?_
  · intro c o c' h hsome
    obtain ⟨b, c₁, hb, h⟩ := bind_eq_ok.1 h
    cases b with
    | false =>
      obtain ⟨rfl, -⟩ := pure_eq_ok.1 h
      cases hsome
    | true => exact token_of_eatKeyword hb
  · intro l m o hlm htoken
    cases o with
    | none => exact .pure rfl
    | some having =>
      cases g with
      | none => exact .complain (.unsupported _ (htoken rfl)) hlm
      | some g => exact .pure rfl

theorem steady_middle : Steady S middle := by
  have hsorting : Steady S sorting? :=
    Steady.afterKeyword _ ((steady_expectKeyword _).seq fun _ => steady_sorting)
  exact steady_groupingClause.both (hsorting.both
    (((steady_rowCount _).afterKeyword _).both ((steady_rowCount _).afterKeyword _)))

/-! ## Queries -/

section Queries

variable {nested : Parser Query}

theorem steady_tail (h : Steady S nested) : Steady S (tail nested) := by
  have hbody : Steady S body := steady_withClauses.seq fun _ => steady_middle.seq fun _ =>
    steady_withClauses.map _
  exact ((steady_filter h).afterKeyword _).both (hbody.both
    (((steady_expectKeywordOf _).afterKeyword _).both ((steady_expectKeywordOf _).afterKeyword _)))

theorem steady_namedField : Steady S namedField := by
  refine inStep_current.bind fun l m hlm => (steady_identifier _).seq fun name => ?_
  refine .ifToken _ ?_ (steady_pathRest.seq fun _ => steady_aliasName.map _)
  refine (inStep_call hlm name).bind fun call _ hcall => ?_
  rw [← hcall]
  exact steady_aliasName.map _

theorem steady_field (h : Steady S nested) : Steady S (field nested) := by
  rw [field_eq]
  refine .ifToken _ ?_ (.ifKeyword _ (steady_typeOf.map _) steady_namedField)
  exact .advance (h.seq fun _ => .expect _ _ (.pure rfl))

end Queries

theorem steady_source (isNested : Bool) : Steady S (source isNested) := by
  rw [source_eq]
  exact steady_path.map _

theorem steady_selectWith {nested : Bool → Parser Query} (h : ∀ b, Steady S (nested b))
    (isNested : Bool) : Steady S (selectWith nested isNested) := by
  have hfrom : Steady S (fromClause isNested) :=
    (steady_expectKeyword _).seq fun _ => (steady_source isNested).both steady_aliasName
  rw [selectWith_eq]
  refine (steady_expectKeyword _).seq fun _ => InStep.map ?_ _
  exact (steady_field (h true)).commaSeparated.both (hfrom.both (steady_tail (h false)))

theorem steady_selectUpTo (n : Nat) : ∀ isNested, Steady S (selectUpTo n isNested) := by
  induction n with
  | zero => exact fun _ => inStep_fail _
  | succ n ih => exact steady_selectWith ih

theorem steady_select : Steady S select :=
  .get fun c d hsize => by
    rw [hsize]
    exact steady_selectUpTo _ false

/-- **Two runs of the parser of queries stay in step.** -/
theorem steady_query : Steady S query := steady_select.seq fun _ => .expect _ _ (.pure rfl)

end Parser

end Soql
