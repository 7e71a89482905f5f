/-
  Tokens written apart from one another.

  However close the tokens of a text stand, they can be written with blanks
  between neighbours, of any kind and number.  Blanks make no token longer,
  so the scanner finds the same tokens again.

  * `Text.tokens`: the tokens of a text, or the error that ends them.
  * `Spelled ts s`: the text `s` is the spellings of the tokens `ts` with
    blanks between neighbours.
  * `tokens_of_spelled`: tokens of a text are those of each text that spells
    them.
-/
import Mathlib
import Soql.Proofs.Token.Pieces

namespace Soql

open Unicode Token

/-- The tokens of a text up to its end, or the error that comes before that. -/
def Text.tokens (s : Text) : Except ScanError (List Token) :=
  (Lexemes.ofText s).ending.map fun _ => (Lexemes.ofText s).toList.map Lexeme.token

/-- The text is the spellings of the tokens in order, with at least one blank between neighbours and
    with nothing before the first or after the last. -/
inductive Spelled : List Token → Text → Prop
  | nil : Spelled [] []
  | one (t : Token) : Spelled [t] t.spelling
  | cons {t u : Token} {ts : List Token} {gap s : Text} (hne : gap ≠ [])
    (hgap : ∀ c ∈ gap, isBlank c) (hs : Spelled (u :: ts) s) :
    Spelled (t :: u :: ts) (t.spelling ++ gap ++ s)

/-! ## Tokens of pieces -/

/-- The tokens of a text of pieces that fit are those among the pieces. -/
theorem tokens_spell {ps : List Piece} (h : Fits ps []) :
    Text.tokens (spell ps) = .ok (ps.filterMap Piece.token?) := by
  rw [Text.tokens, ofText_spell h, toList_placed, ending_placed]
  rfl

theorem proper_of_mem {ps : List Piece} {t : Token} (h : t ∈ ps.filterMap Piece.token?) :
    t.Proper := by
  obtain ⟨p, -, hp⟩ := List.mem_filterMap.1 h
  cases p with
  | blank => cases hp
  | token t ht =>
    cases hp
    exact ht

/-- Every token of a text is read back from its spelling. -/
theorem proper_of_tokens {s : Text} {ts : List Token} (h : s.tokens = .ok ts) :
    ∀ t ∈ ts, t.Proper := by
  have hok : (Lexemes.ofText s).ending.isOk = true := by
    rw [Text.tokens] at h
    cases hending : (Lexemes.ofText s).ending with
    | ok n => rfl
    | error e =>
      rw [hending] at h
      cases h
  obtain ⟨ps, rfl, hfit⟩ := exists_spell hok
  rw [tokens_spell hfit] at h
  cases h
  exact fun t => proper_of_mem

/-! ## Tokens written apart -/

theorem Blank.filterMap_token {bs : List Piece} (h : Blank bs) :
    bs.filterMap Piece.token? = [] := by
  induction h with
  | nil => rfl
  | cons _ _ _ ih => exact ih

/-- Tokens with blanks between neighbours are pieces, and no token is made longer. -/
theorem Spelled.exists_closed {ts : List Token} {s : Text} (hs : Spelled ts s)
    (h : ∀ t ∈ ts, t.Proper) :
    ∃ ps, s = spell ps ∧ Closed ps ∧ ps.filterMap Piece.token? = ts := by
  induction hs with
  | nil => exact ⟨[], rfl, blank_nil.closed, rfl⟩
  | one t => exact ⟨[.token t (h t (by simp))], by simp, closed_token _ _, rfl⟩
  | @cons t u ts gap s hne hgap _ ih =>
    obtain ⟨ht, hts⟩ := List.forall_mem_cons.1 h
    obtain ⟨ps, rfl, hps, htokens⟩ := ih hts
    obtain ⟨c, gap, rfl⟩ := List.exists_cons_of_ne_nil hne
    obtain ⟨hc, hgap⟩ := List.forall_mem_cons.1 hgap
    obtain ⟨bs, hbs, rfl⟩ := exists_blank hgap
    refine ⟨.token t ht :: .blank c hc :: (bs ++ ps), ?_,
      (hbs.append_closed hps).token_blank t ht, ?_⟩
    · simp
    · have hrest : (bs ++ ps).filterMap Piece.token? = u :: ts := by
        rw [List.filterMap_append, hbs.filterMap_token, htokens, List.nil_append]
      exact congrArg (t :: ·) hrest

/-- **Tokens are scanned again from their spellings**: the tokens of a text are those of each text
    that spells them in order with blanks between neighbours. -/
theorem tokens_of_spelled {s s' : Text} {ts : List Token} (h : s.tokens = .ok ts)
    (hs : Spelled ts s') : s'.tokens = .ok ts := by
  obtain ⟨ps, rfl, hps, rfl⟩ := hs.exists_closed (proper_of_tokens h)
  exact tokens_spell hps.fits

/-- A date before a literal, an amount before a colon, and a number with a sign, close together and
    apart; the literal has blanks and an escape. -/
theorem tokens_of_spelled_close :
    let ts : List Token := [.word "a", .lessEq, .dateTime "2020-01-31T1:0Z", .string "it\\'s  ok",
      .word "USD5.0", .colon, .number "-1.5"]
    Text.tokens "a<=2020-01-31T1:0Z'it\\'s  ok'USD5.0:-1.5" = .ok ts ∧
      Spelled ts "a\t<= \n2020-01-31T1:0Z 'it\\'s  ok'\u2003USD5.0 : -1.5" ∧
      Text.tokens "a\t<= \n2020-01-31T1:0Z 'it\\'s  ok'\u2003USD5.0 : -1.5" = .ok ts := by
  intro ts
  have h : Text.tokens "a<=2020-01-31T1:0Z'it\\'s  ok'USD5.0:-1.5" = .ok ts := by decide +kernel
  have gap (c : Char) (b : Text) (hb : (c :: b).all isBlank = true) {t u : Token}
      {us : List Token} {s : Text} (hs : Spelled (u :: us) s) :
      Spelled (t :: u :: us) (t.spelling ++ (c :: b) ++ s) :=
    .cons (List.cons_ne_nil c b) (List.all_eq_true.1 hb) hs
  have hs : Spelled ts "a\t<= \n2020-01-31T1:0Z 'it\\'s  ok'\u2003USD5.0 : -1.5" :=
    gap '\t' [] rfl <| gap ' ' ['\n'] rfl <| gap ' ' [] rfl <| gap '\u2003' [] rfl <|
      gap ' ' [] rfl <| gap ' ' [] rfl <| .one _
  exact ⟨h, hs, tokens_of_spelled h hs⟩

end Soql
