/-
  What parsers yield, and the parentheses they take.

  Most parsers take as many opening as closing parentheses.  The others tell
  by their result how many more they open, so the two are kept track of
  together.

  * `excess ps`: how many more parentheses open than close among pieces.
  * `Yields f m P`: whenever `f` succeeds, its result satisfies `P` and the
    pieces it took have the excess that `m` gives for the result.
  * `YieldsAt t f m P`: the same where the token `t` is in view.
-/
import Mathlib
import Soql.Proofs.Parse.Rows
import Soql.Parse.Value
import Soql.Parse.Call

namespace Soql

open Unicode Token

/-! ## Parentheses -/

/-- `1` for an opening parenthesis, `-1` for a closing one and `0` for any other token. -/
def Token.paren : Token → Int
  | .openParen => 1
  | .closeParen => -1
  | _ => 0

/-- How many more parentheses open than close among pieces. -/
def excess : List Piece → Int
  | [] => 0
  | .blank .. :: ps => excess ps
  | .token t _ :: ps => t.paren + excess ps

@[simp] theorem excess_nil : excess [] = 0 := rfl

@[simp] theorem excess_blank (c : Char) (h : isBlank c) (ps : List Piece) :
    excess (.blank c h :: ps) = excess ps := rfl

@[simp] theorem excess_token (t : Token) (h : t.Proper) (ps : List Piece) :
    excess (.token t h :: ps) = t.paren + excess ps := rfl

@[simp] theorem excess_append (ps qs : List Piece) : excess (ps ++ qs) = excess ps + excess qs := by
  induction ps with
  | nil => simp
  | cons p ps ih =>
    cases p with
    | blank => exact ih
    | token t h => rw [List.cons_append, excess_token, excess_token, ih, add_assoc]

theorem Blank.excess {bs : List Piece} (h : Blank bs) : excess bs = 0 := by
  simpa using h.append_eq excess_blank []

theorem Single.excess {t : Token} {us : List Piece} (h : Single t us) : excess us = t.paren := by
  obtain ⟨bs, hp, hb, rfl⟩ := h
  simp [hb.excess]

/-- How many more parentheses open than close among the tokens of a text. -/
def Text.excess (s : Text) : Int :=
  ((Lexemes.ofText s).toList.map fun lexeme => lexeme.token.paren).sum

theorem excess_eq_sum (ps : List Piece) :
    excess ps = ((ps.filterMap Piece.token?).map Token.paren).sum := by
  induction ps with
  | nil => rfl
  | cons p ps ih =>
    cases p with
    | blank => exact ih
    | token t h => exact congrArg (t.paren + ·) ih

theorem excess_placed (E : Ending) (T : Nat) (ps : List Piece) :
    ((placed E T ps).toList.map fun lexeme => lexeme.token.paren).sum = excess ps := by
  rw [excess_eq_sum, ← toList_placed, List.map_map]
  rfl

namespace Parser

variable {α β κ : Type} {f f' : Parser α} {g : α → Parser β} {m : α → Int} {k : β → Int}
  {P : α → Prop} {Q : β → Prop} {t : Token}

/-! ## Results and what is taken for them -/

/-- Whenever the parser succeeds, its result satisfies `P` and `m` gives the excess of the pieces
    it took. -/
def Yields (f : Parser α) (m : α → Int) (P : α → Prop) : Prop :=
  Reads f fun us a _ => excess us = m a ∧ P a

/-- The same of a parser where the token `t` is in view. -/
def YieldsAt (t : Token) (f : Parser α) (m : α → Int) (P : α → Prop) : Prop :=
  Reads f fun us a ds => inView (us ++ ds) = t → excess us = m a ∧ P a

theorem Yields.reads (h : Yields f m P) : Reads f fun us a _ => excess us = m a ∧ P a := h

theorem Yields.at (h : Yields f m P) (t : Token) : YieldsAt t f m P :=
  Reads.mono h fun _ _ _ h _ => h

theorem Yields.mono {m' : α → Int} {P' : α → Prop} (h : Yields f m P) (hm : ∀ a, P a → m a = m' a)
    (hP : ∀ a, P a → P' a) : Yields f m' P' :=
  Reads.mono h fun _ a _ ⟨h, hp⟩ => ⟨h.trans (hm a hp), hP a hp⟩

theorem Yields.bind (hf : Yields f m P) (hg : ∀ a, P a → Yields (g a) (fun b => k b - m a) Q) :
    Yields (f >>= g) k Q := by
  intro E T ps c b c'' hc h
  obtain ⟨a, c', h1, h2⟩ := bind_eq_ok.1 h
  obtain ⟨us, ds, rfl, hc', hm, hp⟩ := hf hc h1
  obtain ⟨ws, ds', rfl, hc'', hk, hq⟩ := hg a hp hc' h2
  refine ⟨us ++ ws, ds', (List.append_assoc ..).symm, hc'', ?_, hq⟩
  rw [excess_append, hm, hk]
  exact add_sub_cancel (m a) (k b)

/-- A parser that takes as many opening as closing parentheses, and another one. -/
theorem Yields.seq (hf : Yields f (fun _ => 0) P) (hg : ∀ a, P a → Yields (g a) k Q) :
    Yields (f >>= g) k Q := by
  refine hf.bind fun a ha => (hg a ha).mono (fun b _ => ?_) fun _ => id
  exact (sub_zero _).symm

theorem Yields.pure {a : α} (hm : m a = 0) (hP : P a) : Yields (pure a) m P :=
  (Reads.pure a).mono fun us b ds h => by
    obtain ⟨rfl, rfl⟩ := h
    exact ⟨hm.symm, hP⟩

theorem Yields.map {h : α → β} (hf : Yields f m P) (hm : ∀ a, P a → k (h a) = m a)
    (hP : ∀ a, P a → Q (h a)) : Yields (f >>= fun a => Pure.pure (h a)) k Q :=
  hf.bind fun a ha => Yields.pure (sub_eq_zero.2 (hm a ha)) (hP a ha)

theorem Yields.fail (e : Expectation) : Yields (Parser.fail e) m P := Reads.fail e

theorem Yields.throw (e : ParseError) : Yields (throw e) m P := Reads.throw e

theorem Yields.ite {b : Prop} [Decidable b] (ht : b → Yields f m P) (he : ¬ b → Yields f' m P) :
    Yields (if b then f else f') m P := Reads.ite ht he

theorem Yields.get {g : Cursor → Parser β} (hg : ∀ c, Yields (g c) k Q) :
    Yields (get >>= g) k Q := by
  intro E T ps c b c' hc h
  obtain ⟨_, _, h1, h2⟩ := bind_eq_ok.1 h
  cases h1
  exact hg c hc h2

/-! ## Looking at the token in view -/

theorem Yields.current {g : Lexeme → Parser β} (hg : ∀ l, YieldsAt l.token (g l) k Q) :
    Yields (current >>= g) k Q := by
  intro E T ps c b c' hc h
  obtain ⟨_, _, h1, h2⟩ := bind_eq_ok.1 h
  cases h1
  obtain ⟨us, ds, rfl, hc', hP⟩ := hg c.current hc h2
  exact ⟨us, ds, rfl, hc', hP hc.token.symm⟩

theorem YieldsAt.advance {g : Lexeme → Parser β} (ht : t ≠ .finish)
    (hg : ∀ l, Yields (g l) (fun b => k b - t.paren) Q) : YieldsAt t (advance >>= g) k Q := by
  refine (reads_advance.bind hg).mono ?_
  rintro us b ds ⟨vs, l, ws, rfl, hv, hw, hq⟩ hview
  rw [List.append_assoc] at hview
  have hs := hv.single (hview ▸ ht)
  rw [hview] at hs
  refine ⟨?_, hq⟩
  rw [excess_append, hs.excess, hw]
  exact add_sub_cancel t.paren (k b)

theorem YieldsAt.take {g : Lexeme → Parser β} (ht : t ≠ .finish)
    (hg : ∀ l, Yields (g l) (fun b => k b - t.paren) Q) : YieldsAt t (take >>= g) k Q := by
  intro E T ps c b c' hc h
  obtain ⟨l, c₁, h1, h2⟩ := bind_eq_ok.1 h
  exact YieldsAt.advance ht hg hc (bind_eq_ok.2 ⟨l, c₁, (take_eq c l c₁).1 h1, h2⟩)

/-- A question whether the token `t` is in view. -/
theorem Yields.atToken {g : Bool → Parser β} (ht : YieldsAt t (g true) k Q)
    (hf : Yields (g false) k Q) : Yields (atToken t >>= g) k Q := by
  intro E T ps c b c' hc h
  obtain ⟨_, _, h1, h2⟩ := bind_eq_ok.1 h
  rw [atToken_eq] at h1
  cases h1
  cases hview : c.current.token == t with
  | false =>
    rw [hview] at h2
    exact hf hc h2
  | true =>
    rw [hview] at h2
    obtain ⟨us, ds, rfl, hc', hP⟩ := ht hc h2
    refine ⟨us, ds, rfl, hc', hP ?_⟩
    rw [← hc.token]
    exact beq_iff_eq.1 hview

/-- A sign taken where it is in view, and something else where it is not. -/
theorem Yields.ifToken {f f' : Parser β} (ht : t ≠ .finish)
    (h : Yields f (fun b => k b - t.paren) Q) (h' : Yields f' k Q) :
    Yields (do if ← Parser.atToken t then let _ ← Parser.advance; f else f') k Q := by
  refine Yields.atToken ?_ ?_
  · exact YieldsAt.advance ht fun _ => h
  · exact h'

/-- A question which member of a set of keywords is in view. -/
theorem Yields.keywordInView [Keyword κ] {g : Option κ → Parser β} (hn : Yields (g none) k Q)
    (hs : ∀ a w, YieldsAt (.word w) (g (some a)) k Q) : Yields (keywordInView? κ >>= g) k Q := by
  intro E T ps c b c' hc h
  obtain ⟨o, c₁, h1, h2⟩ := bind_eq_ok.1 h
  obtain ⟨us, ds, rfl, hc₁, rfl, hw⟩ := reads_keywordInView κ hc h1
  cases o with
  | none => exact hn hc₁ h2
  | some a =>
    obtain ⟨w, hw⟩ := hw a rfl
    obtain ⟨us, ds, rfl, hc', hP⟩ := hs a w hc₁ h2
    exact ⟨us, ds, rfl, hc', hP hw⟩

/-! ## Small parsers -/

/-- Nothing is known of the result. -/
def Any (_ : α) : Prop := True

theorem yields_atKeyword (w : Text) : Yields (atKeyword w) (fun _ => 0) Any :=
  (reads_atKeyword w).mono fun _ _ _ h => ⟨by simp [h.1], trivial⟩

theorem yields_eatKeyword (w : Text) : Yields (eatKeyword w) (fun _ => 0) Any := by
  refine (reads_eatKeyword w).mono ?_
  rintro us b ds (⟨-, v, hs, -⟩ | ⟨-, rfl, -⟩)
  · exact ⟨hs.excess, trivial⟩
  · exact ⟨rfl, trivial⟩

theorem yields_expectKeyword (w : Text) : Yields (expectKeyword w) (fun _ => 0) Any := by
  refine (reads_expectKeyword w).mono ?_
  rintro us _ ds ⟨v, hs, -⟩
  exact ⟨hs.excess, trivial⟩

theorem yields_identifier (e : Expectation) : Yields (identifier e) (fun _ => 0) Any :=
  (reads_identifier e).mono fun _ _ _ h => ⟨h.excess, trivial⟩

theorem yields_expectKeywordOf [Keyword κ] (e : Expectation) :
    Yields (expectKeywordOf e : Parser κ) (fun _ => 0) Any := by
  refine (reads_expectKeywordOf e).mono ?_
  rintro us _ ds ⟨w, hs⟩
  exact ⟨hs.excess, trivial⟩

theorem yields_aliasName : Yields aliasName? (fun _ => 0) Any := by
  refine reads_aliasName.mono ?_
  rintro us o ds (⟨-, rfl⟩ | ⟨w, -, hs, -⟩)
  · exact ⟨rfl, trivial⟩
  · exact ⟨hs.excess, trivial⟩

theorem yields_expect (ht : t ≠ .finish) (e : Expectation) :
    Yields (expect t e) (fun _ => t.paren) Any :=
  (reads_expect ht e).mono fun _ _ _ h => ⟨h.excess, trivial⟩

/-! ## Repetition -/

section Repetition

variable {item : Parser α}

theorem Yields.after (ht : t ≠ .finish) (hi : Yields item m P) :
    Yields (after t item) (fun o => o.elim 0 (t.paren + m ·)) fun o => ∀ a ∈ o, P a := by
  refine (Reads.after ht hi).mono ?_
  rintro us o ds (⟨rfl, rfl, -⟩ | ⟨a, vs, ws, rfl, rfl, hs, hw, hp⟩)
  · exact ⟨rfl, by simp⟩
  · refine ⟨by rw [excess_append, hs.excess, hw]; rfl, ?_⟩
    rintro _ ⟨⟩
    exact hp

theorem Yields.afterKeyword {w : Text} (hi : Yields item m P) :
    Yields (afterKeyword w item) (fun o => o.elim 0 m) fun o => ∀ a ∈ o, P a := by
  refine (Reads.afterKeyword hi).mono ?_
  rintro us o ds (⟨rfl, rfl, -⟩ | ⟨a, vs, ws, rfl, rfl, ⟨v, hs, -⟩, hw, hp⟩)
  · exact ⟨rfl, by simp⟩
  · refine ⟨by rw [excess_append, hs.excess, hw]; exact zero_add _, ?_⟩
    rintro _ ⟨⟩
    exact hp

theorem Yields.manyUpTo {step : Parser (Option α)}
    (h : Yields step (fun o => o.elim 0 m) fun o => ∀ a ∈ o, P a) (n : Nat) :
    Yields (manyUpTo step n) (fun as => (as.map m).sum) fun as => ∀ a ∈ as, P a := by
  induction n with
  | zero => exact Yields.pure rfl (by simp)
  | succ n ih =>
    refine h.bind fun o ho => ?_
    cases o with
    | none => exact Yields.pure rfl (by simp)
    | some a =>
      refine ih.map (fun as _ => ?_) fun as has => ?_
      · simp
      · exact List.forall_mem_cons.2 ⟨ho a rfl, has⟩

theorem Yields.many {step : Parser (Option α)}
    (h : Yields step (fun o => o.elim 0 m) fun o => ∀ a ∈ o, P a) :
    Yields (many step) (fun as => (as.map m).sum) fun as => ∀ a ∈ as, P a :=
  Yields.get fun _ => h.manyUpTo _

theorem Yields.commaSeparated (hi : Yields item m P) :
    Yields (commaSeparated item) (fun r => m r.1 + (r.2.map m).sum)
      fun r => P r.1 ∧ ∀ a ∈ r.2, P a := by
  refine hi.bind fun a ha => ?_
  have hrest := (hi.after (t := .comma) (by decide)).many
  refine hrest.map (fun as _ => ?_) fun as has => ⟨ha, has⟩
  simp [Token.paren]

theorem Yields.untilClose (hi : Yields item (fun _ => 0) P) (e : Expectation) :
    Yields (untilClose item e) (fun _ => 0) fun as => ∀ a ∈ as, P a := by
  rw [untilClose_eq]
  have hsep : Yields (separator e) (fun _ => 0) Any := by
    refine (reads_separator e).mono ?_
    rintro us _ ds (hs | ⟨rfl, -⟩)
    · exact ⟨hs.excess, trivial⟩
    · exact ⟨rfl, trivial⟩
  have hentry : Yields (entry item e) (fun o => o.elim 0 fun _ => 0) fun o => ∀ a ∈ o, P a := by
    refine Yields.atToken (Yields.at ?_ _) ?_
    · exact Yields.pure rfl (by simp)
    · refine hi.seq fun a ha => hsep.seq fun _ _ => Yields.pure rfl ?_
      rintro _ ⟨⟩
      exact ha
  exact hentry.many.mono (fun as _ => by simp) fun _ => id

theorem yields_pathRest : Yields pathRest (fun _ => 0) Any := by
  refine ((yields_identifier _).after (t := .dot) (by decide)).many.mono (fun as _ => ?_)
    fun _ _ => trivial
  simp [Token.paren]

theorem yields_path : Yields path (fun _ => 0) Any :=
  (yields_identifier _).seq fun _ _ => yields_pathRest.map (fun _ _ => rfl) fun _ _ => trivial

theorem yields_dottedPath : Yields dottedPath (fun _ => 0) Any :=
  yields_path.map (fun _ _ => rfl) fun _ _ => trivial

end Repetition

end Parser

end Soql
