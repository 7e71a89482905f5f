/-
  Two runs of parsers over alike tokens.

  Tokens are alike if they are equal up to the case of ASCII letters in words.
  Over alike tokens, parsers that are alike both succeed, with related results
  and with alike tokens left, or fail with alike errors.

  * `Token.folded`: a token in lower case, if it is a word.
  * `Cursor.Alike R`, `ParseError.Alike R`: alike cursors and errors, with
    positions related by `R`.
  * `Parser.Alike R S f g`: the parsers `f` and `g` are alike, with results
    related by `S`.
  * the small parsers and repetition.
-/
import Mathlib
import Soql.Proofs.Parse.Rows
import Soql.Proofs.Query.Folded

namespace Soql

/-- The token with the letters of a word in lower case. -/
def Token.folded : Token → Token
  | word w => word w.fold
  | t => t

/-- Tokens that are the same in lower case are words or equal. -/
theorem Token.folded_eq {t u : Token} (h : t.folded = u.folded) :
    (∃ a b, t = .word a ∧ u = .word b ∧ a.fold = b.fold) ∨ (t = u ∧ ∀ w, t ≠ .word w) := by
  cases t with
  | word a =>
    cases u with
    | word b => exact Or.inl ⟨a, b, rfl, rfl, Token.word.inj h⟩
    | _ => cases h
  | _ =>
    cases u with
    | word b => cases h
    | _ => exact Or.inr ⟨h, nofun⟩

/-- What is shown of alike tokens is shown of words in any case, and of any other token. -/
@[elab_as_elim] theorem Token.folded_elim {motive : Token → Token → Prop} {t u : Token}
    (h : t.folded = u.folded) (word : ∀ a b, a.fold = b.fold → motive (.word a) (.word b))
    (other : ∀ t, (∀ w, t ≠ .word w) → motive t t) : motive t u := by
  rcases Token.folded_eq h with ⟨a, b, rfl, rfl, hab⟩ | ⟨rfl, ht⟩
  · exact word a b hab
  · exact other t ht

/-- A sign is in view of alike tokens or of none. -/
theorem Token.beq_sign {t u s : Token} (h : t.folded = u.folded) (hs : ∀ w, s ≠ .word w) :
    (t == s) = (u == s) := by
  rcases Token.folded_eq h with ⟨a, b, rfl, rfl, -⟩ | ⟨rfl, -⟩
  · rw [beq_eq_false_iff_ne.2 (hs a).symm, beq_eq_false_iff_ne.2 (hs b).symm]
  · rfl

section

variable (R : Nat → Nat → Prop)

/-- Alike tokens at related places. -/
structure Lexeme.Alike (l m : Lexeme) : Prop where
  token : l.token.folded = m.token.folded
  start : R l.start m.start

/-- Alike lexemes up to the end of both texts. -/
inductive Lexemes.Alike : Lexemes → Lexemes → Prop
  | next {l m : Lexeme} {ls ms : Lexemes} (h : Lexeme.Alike R l m) (hs : Lexemes.Alike ls ms) :
    Lexemes.Alike (.next l ls) (.next m ms)
  | finish {i j : Nat} (h : R i j) : Lexemes.Alike (.finish i) (.finish j)

/-- Cursors at alike lexemes, each of them in a text. -/
structure Cursor.Alike (c d : Cursor) : Prop where
  current : Lexeme.Alike R c.current d.current
  ahead : Lexemes.Alike R c.ahead d.ahead
  left : ∃ E T ps, At E T ps c
  right : ∃ E T ps, At E T ps d

/-- The same error at related places, up to the case of the word that it tells. -/
inductive ParseError.Alike : ParseError → ParseError → Prop
  | unexpectedToken (expected : Expectation) {t u : Token} {i j : Nat}
    (htoken : t.folded = u.folded) (h : R i j) :
    ParseError.Alike (.unexpectedToken expected t i) (.unexpectedToken expected u j)
  | unexpectedEnd (expected : Expectation) :
    ParseError.Alike (.unexpectedEnd expected) (.unexpectedEnd expected)
  | invalidNumber (text : Text) {i j : Nat} (h : R i j) :
    ParseError.Alike (.invalidNumber text i) (.invalidNumber text j)
  | invalidValue {a b : Text} {i j : Nat} (htext : a.fold = b.fold) (h : R i j) :
    ParseError.Alike (.invalidValue a i) (.invalidValue b j)
  | unsupported (form : UnsupportedForm) {i j : Nat} (h : R i j) :
    ParseError.Alike (.unsupported form i) (.unsupported form j)

/-- Over alike lexemes both parsers succeed, with related results and alike lexemes left, or both
    fail with alike errors. -/
def Parser.Alike {α β : Type} (S : α → β → Prop) (f : Parser α) (g : Parser β) : Prop :=
  ∀ ⦃c d⦄, Cursor.Alike R c d →
    (∃ a b c' d', f c = .ok a c' ∧ g d = .ok b d' ∧ S a b ∧ Cursor.Alike R c' d') ∨
    ∃ e e' c' d', f c = .error e c' ∧ g d = .error e' d' ∧ ParseError.Alike R e e'

end

/-- Values that `n` makes equal. -/
def On {α γ : Type} (n : α → γ) (a b : α) : Prop := n a = n b

theorem Lexemes.Alike.size {R : Nat → Nat → Prop} {ls ms : Lexemes} (h : Alike R ls ms) :
    ls.size = ms.size := by
  induction h with
  | next _ _ ih => rw [Lexemes.size, Lexemes.size, ih]
  | finish _ => rfl

/-- There is always a next lexeme. -/
theorem Lexemes.Alike.pull {R : Nat → Nat → Prop} {ls ms : Lexemes} (h : Alike R ls ms) :
    ∃ l m ls' ms', ls.pull = (.ok l, ls') ∧ ms.pull = (.ok m, ms') ∧ Lexeme.Alike R l m ∧
      Alike R ls' ms' := by
  cases h with
  | next hl hs => exact ⟨_, _, _, _, rfl, rfl, hl, hs⟩
  | finish h => exact ⟨_, _, _, _, rfl, rfl, ⟨rfl, h⟩, .finish h⟩

theorem Cursor.Alike.size {R : Nat → Nat → Prop} {c d : Cursor} (h : Alike R c d) :
    c.size = d.size := by rw [Cursor.size, Cursor.size, h.ahead.size]

namespace Parser

variable {α β γ δ κ : Type} {R : Nat → Nat → Prop} {S : α → α → Prop} {S' : β → β → Prop}
  {n : α → γ} {m : β → δ} {f f' : Parser α} {g g' : α → Parser β}

/-! ## Parsers after one another -/

namespace Alike

theorem bind (hf : Alike R S f f') (hg : ∀ a b, S a b → Alike R S' (g a) (g' b)) :
    Alike R S' (f >>= g) (f' >>= g') := by
  intro c d hc
  rcases hf hc with ⟨a, b, c', d', h, h', hS, hc'⟩ | ⟨e, e', c', d', h, h', he⟩
  · rcases hg a b hS hc' with ⟨x, y, c'', d'', hx, hy, hS', hc''⟩ | ⟨e, e', c'', d'', hx, hy, he⟩
    · exact Or.inl ⟨x, y, c'', d'', bind_eq_ok.2 ⟨a, c', h, hx⟩, bind_eq_ok.2 ⟨b, d', h', hy⟩,
        hS', hc''⟩
    · exact Or.inr ⟨e, e', c'', d'', (bind_of_ok h).trans hx, (bind_of_ok h').trans hy, he⟩
  · exact Or.inr ⟨e, e', c', d', bind_of_error h, bind_of_error h', he⟩

theorem pure {a b : α} (h : S a b) : Alike R S (pure a) (pure b) :=
  fun c d hc => Or.inl ⟨a, b, c, d, rfl, rfl, h, hc⟩

theorem map {h h' : α → β} (hf : Alike R S f f') (hS : ∀ a b, S a b → S' (h a) (h' b)) :
    Alike R S' (f >>= fun a => Pure.pure (h a)) (f' >>= fun a => Pure.pure (h' a)) :=
  hf.bind fun a b hab => pure (hS a b hab)

theorem throw {e e' : ParseError} (h : ParseError.Alike R e e') :
    Alike R S (throw e) (throw e') :=
  fun c d _ => Or.inr ⟨e, e', c, d, rfl, rfl, h⟩

theorem mono {S₁ : α → α → Prop} (hf : Alike R S f f') (h : ∀ a b, S a b → S₁ a b) :
    Alike R S₁ f f' := by
  intro c d hc
  rcases hf hc with ⟨a, b, c', d', hfc, hgd, hS, hc'⟩ | herror
  · exact Or.inl ⟨a, b, c', d', hfc, hgd, h a b hS, hc'⟩
  · exact Or.inr herror

/-- One of two parsers, by questions with the same answer. -/
theorem ite {b b' : Bool} {h h' : Parser α} (hb : b = b') (ht : Alike R S f f')
    (he : Alike R S h h') : Alike R S (if b then f else h) (if b' then f' else h') := by
  subst hb
  cases b with
  | false => exact he
  | true => exact ht

theorem get {g g' : Cursor → Parser β} (h : ∀ c d, c.size = d.size → Alike R S' (g c) (g' d)) :
    Alike R S' (get >>= g) (get >>= g') := fun c d hc => h c d hc.size hc

/-- What is known of the results of each parser holds beside the relation. -/
theorem reads {P P' : α → Prop} (hf : Alike R S f f') (h : Reads f fun _ a _ => P a)
    (h' : Reads f' fun _ a _ => P' a) : Alike R (fun a b => S a b ∧ P a ∧ P' b) f f' := by
  intro c d hc
  rcases hf hc with ⟨a, b, c', d', hfc, hgd, hS, hc'⟩ | herror
  · obtain ⟨E, T, ps, hat⟩ := hc.left
    obtain ⟨E', T', ps', hat'⟩ := hc.right
    obtain ⟨_, _, _, _, hP⟩ := h hat hfc
    obtain ⟨_, _, _, _, hP'⟩ := h' hat' hgd
    exact Or.inl ⟨a, b, c', d', hfc, hgd, ⟨hS, hP, hP'⟩, hc'⟩
  · exact Or.inr herror

end Alike

/-! ## Single lexemes -/

theorem alike_current : Alike R (Lexeme.Alike R) current current :=
  fun c d hc => Or.inl ⟨_, _, c, d, rfl, rfl, hc.current, hc⟩

theorem exists_at_advance {c c' : Cursor} {l : Lexeme} (h : ∃ E T ps, At E T ps c)
    (hl : advance c = .ok l c') : ∃ E T ps, At E T ps c' := by
  obtain ⟨E, T, ps, hat⟩ := h
  obtain ⟨us, ds, -, hds, -⟩ := reads_advance hat hl
  exact ⟨E, T, ds, hds⟩

/-- Moving on succeeds. -/
theorem exists_advance {c d : Cursor} (hc : Cursor.Alike R c d) :
    ∃ a b c' d', advance c = .ok a c' ∧ advance d = .ok b d' ∧ Lexeme.Alike R a b ∧
      Cursor.Alike R c' d' := by
  obtain ⟨l, m, ls, ms, hl, hm, hlm, hahead⟩ := hc.ahead.pull
  have hadv : advance c = .ok c.current ⟨l, ls⟩ := by simp only [advance, hl]
  have hadv' : advance d = .ok d.current ⟨m, ms⟩ := by simp only [advance, hm]
  exact ⟨_, _, _, _, hadv, hadv', hc.current, hlm, hahead, exists_at_advance hc.left hadv,
    exists_at_advance hc.right hadv'⟩

theorem alike_advance : Alike R (Lexeme.Alike R) advance advance :=
  fun _ _ hc => Or.inl (exists_advance hc)

theorem alike_take : Alike R (Lexeme.Alike R) take take := by
  intro c d hc
  obtain ⟨a, b, c', d', h, h', hS, hc'⟩ := exists_advance hc
  exact Or.inl ⟨a, b, c', d', (take_eq ..).2 h, (take_eq ..).2 h', hS, hc'⟩

theorem alike_fail (e : Expectation) : Alike R S (fail e) (fail e) := by
  refine alike_current.bind fun l m hlm => ?_
  have hfinish : l.token = .finish ↔ m.token = .finish := by
    rw [← beq_iff_eq, Token.beq_sign hlm.token (by nofun), beq_iff_eq]
  by_cases hl : l.token = .finish
  · rw [if_pos hl, if_pos (hfinish.1 hl)]
    exact .throw (.unexpectedEnd e)
  · rw [if_neg hl, if_neg fun hm => hl (hfinish.2 hm)]
    exact .throw (.unexpectedToken e hlm.token hlm.start)

theorem alike_atToken {t : Token} (ht : ∀ w, t ≠ .word w) :
    Alike R Eq (atToken t) (atToken t) :=
  alike_current.map fun _ _ hlm => Token.beq_sign hlm.token ht

theorem Alike.ifToken {t : Token} (ht : ∀ w, t ≠ .word w) {h h' : Parser α}
    (hf : Alike R S f f') (hh : Alike R S h h') :
    Alike R S (do if ← atToken t then f else h) (do if ← atToken t then f' else h') :=
  (alike_atToken ht).bind fun _ _ hb => .ite hb hf hh

theorem alike_expect {t : Token} (ht : ∀ w, t ≠ .word w) (e : Expectation) :
    Alike R (Lexeme.Alike R) (expect t e) (expect t e) :=
  .ifToken ht alike_advance (alike_fail e)

theorem alike_separator (e : Expectation) : Alike R Eq (separator e) (separator e) :=
  .ifToken (by nofun) (.pure rfl) ((alike_expect (by nofun) e).map fun _ _ _ => rfl)

/-! ## Words -/

theorem alike_atKeyword (w : Text) : Alike R Eq (atKeyword w) (atKeyword w) := by
  refine alike_current.bind fun l m hlm => ?_
  refine Token.folded_elim hlm.token (fun a b hab => ?_) fun t ht => ?_
  · exact .pure (by rw [Text.sameWord, Text.sameWord, hab])
  · cases t with
    | word a => exact absurd rfl (ht a)
    | _ => exact .pure rfl

theorem alike_eatKeyword (w : Text) : Alike R Eq (eatKeyword w) (eatKeyword w) :=
  (alike_atKeyword w).bind fun _ _ hb =>
    .ite hb (alike_advance.map fun _ _ _ => rfl) (.pure rfl)

theorem Alike.ifKeyword {w : Text} {h h' : Parser α} (hf : Alike R S f f')
    (hh : Alike R S h h') :
    Alike R S (do if ← eatKeyword w then f else h) (do if ← eatKeyword w then f' else h') :=
  (alike_eatKeyword w).bind fun _ _ hb => .ite hb hf hh

theorem alike_expectKeyword (w : Text) : Alike R Eq (expectKeyword w) (expectKeyword w) :=
  .ifKeyword (.pure rfl) (alike_fail _)

theorem alike_identifier (e : Expectation) :
    Alike R (On Text.fold) (identifier e) (identifier e) := by
  refine alike_current.bind fun l m hlm => ?_
  refine Token.folded_elim hlm.token (fun a b hab => ?_) fun t ht => ?_
  · exact alike_take.map fun _ _ _ => hab
  · cases t with
    | word a => exact absurd rfl (ht a)
    | _ => exact alike_fail e

theorem ofWord?_eq [Keyword κ] {a b : Text} (h : a.fold = b.fold) :
    (Keyword.ofWord? a : Option κ) = Keyword.ofWord? b := by
  rw [← Keyword.ofWord?_fold, h, Keyword.ofWord?_fold]

theorem alike_keywordInView (κ : Type) [Keyword κ] :
    Alike R Eq (keywordInView? κ) (keywordInView? κ) := by
  refine alike_current.bind fun l m hlm => ?_
  refine Token.folded_elim hlm.token (fun a b hab => ?_) fun t ht => ?_
  · exact .pure (ofWord?_eq hab)
  · cases t with
    | word a => exact absurd rfl (ht a)
    | _ => exact .pure rfl

theorem alike_expectKeywordOf [Keyword κ] (e : Expectation) :
    Alike R Eq (expectKeywordOf e : Parser κ) (expectKeywordOf e) := by
  refine (alike_keywordInView κ).bind fun o o' ho => ?_
  subst ho
  cases o with
  | none => exact alike_fail e
  | some k => exact alike_advance.map fun _ _ _ => rfl

theorem alike_aliasName : Alike R (On (Option.map Text.fold)) aliasName? aliasName? := by
  refine alike_current.bind fun l m hlm => ?_
  refine Token.folded_elim hlm.token (fun a b hab => ?_) fun t ht => ?_
  · have hreserved : isReserved a = isReserved b := by
      rw [← isReserved_fold, hab, isReserved_fold]
    exact .ite hreserved (.pure rfl) (alike_advance.map fun _ _ _ => congrArg some hab)
  · cases t with
    | word a => exact absurd rfl (ht a)
    | _ => exact .pure rfl

/-! ## Repetition -/

section Repetition

theorem Alike.manyUpTo {step step' : Parser (Option α)}
    (h : Alike R (On (Option.map n)) step step') (k : Nat) :
    Alike R (On (List.map n)) (manyUpTo step k) (manyUpTo step' k) := by
  induction k with
  | zero => exact .pure rfl
  | succ k ih =>
    refine h.bind fun o o' ho => ?_
    cases o with
    | none =>
      cases o' with
      | none => exact .pure rfl
      | some b => cases ho
    | some a =>
      cases o' with
      | none => cases ho
      | some b => exact ih.map fun as bs hab => congrArg₂ List.cons (Option.some.inj ho) hab

theorem Alike.many {step step' : Parser (Option α)}
    (h : Alike R (On (Option.map n)) step step') :
    Alike R (On (List.map n)) (many step) (many step') :=
  .get fun c d hsize => by
    rw [hsize]
    exact h.manyUpTo _

variable {item item' : Parser α} (hi : Alike R (On n) item item')

include hi

theorem Alike.after {t : Token} (ht : ∀ w, t ≠ .word w) :
    Alike R (On (Option.map n)) (after t item) (after t item') :=
  .ifToken ht (alike_advance.bind fun _ _ _ => hi.map fun _ _ hab => congrArg some hab) (.pure rfl)

theorem Alike.afterKeyword (w : Text) :
    Alike R (On (Option.map n)) (afterKeyword w item) (afterKeyword w item') :=
  .ifKeyword (hi.map fun _ _ hab => congrArg some hab) (.pure rfl)

theorem Alike.commaSeparated :
    Alike R (On (Prod.map n (List.map n))) (commaSeparated item) (commaSeparated item') :=
  hi.bind fun _ _ hab => (hi.after (by nofun)).many.map fun _ _ habs => congrArg₂ Prod.mk hab habs

theorem Alike.untilClose (e : Expectation) :
    Alike R (On (List.map n)) (untilClose item e) (untilClose item' e) := by
  rw [untilClose_eq, untilClose_eq]
  refine Alike.many (.ifToken (by nofun) (.pure rfl) ?_)
  exact hi.bind fun _ _ hab => (alike_separator e).map fun _ _ _ => congrArg some hab

end Repetition

theorem alike_pathRest : Alike R (On (List.map Text.fold)) pathRest pathRest :=
  ((alike_identifier _).after (by nofun)).many

theorem alike_path : Alike R (On (Prod.map Text.fold (List.map Text.fold))) path path :=
  (alike_identifier _).bind fun _ _ hab => alike_pathRest.map fun _ _ habs =>
    congrArg₂ Prod.mk hab habs

theorem fold_dotted {a b : Text} {as bs : List Text} (h : a.fold = b.fold)
    (hs : as.map Text.fold = bs.map Text.fold) :
    (Text.joinWith "." (a :: as)).fold = (Text.joinWith "." (b :: bs)).fold := by
  rw [Text.fold_joinWith, Text.fold_joinWith, List.map_cons, List.map_cons, h, hs]

theorem alike_dottedPath : Alike R (On Text.fold) dottedPath dottedPath :=
  alike_path.map fun _ _ h => fold_dotted (congrArg Prod.fst h) (congrArg Prod.snd h)

end Parser

end Soql
