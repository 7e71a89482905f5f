/-
  Texts as pieces — blanks and tokens in order.

  Every text that the scanner gets through is the spelling of a list of
  pieces, and the scanner finds these pieces again in it as long as no token
  is made longer by what follows it.

  * `Piece`, `spell`: a blank or a token, and the text of a list of them.
  * `Blank.induction`: what is proved of blank pieces, one blank at a time.
  * `Fits ps r`: no token of `ps` is made longer, where `r` follows.
  * `placed`: pieces as the lexemes of a text, up to an `Ending`.
  * `exists_pieces`, `ofText_spell`: the lexemes of a text are its pieces.
  * `indentAll`: pieces with tabs put after every line feed.
-/
import Mathlib
import Soql.Proofs.Token.Heads

namespace Soql

open Unicode Token

/-- A piece of query text: a blank, or a token that is read back from its spelling. -/
inductive Piece where
  | blank (c : Char) (h : isBlank c)
  | token (t : Token) (h : t.Proper)

namespace Piece

/-- The text of a piece. -/
def text : Piece → Text
  | blank c _ => [c]
  | token t _ => t.spelling

/-- What the piece holds if it is a string literal. -/
def literal? : Piece → Option Text
  | blank .. => none
  | token t _ => t.literal?

/-- The token that a piece is. -/
def token? : Piece → Option Token
  | blank .. => none
  | token t _ => some t

/-- Whether the piece is a token. -/
def isToken : Piece → Bool
  | blank .. => false
  | token .. => true

end Piece

/-- The text of pieces in order. -/
def spell (ps : List Piece) : Text := ps.flatMap Piece.text

/-- The string literals among pieces, in order. -/
def literals (ps : List Piece) : List Text := ps.filterMap Piece.literal?

/-- Number of tokens among pieces. -/
def count (ps : List Piece) : Nat := ps.countP Piece.isToken

/-- The first token among pieces. -/
def inView : List Piece → Token
  | [] => .finish
  | .blank .. :: ps => inView ps
  | .token t _ :: _ => t

/-- No token of the pieces is made longer, where `r` follows them. -/
def Fits : List Piece → Text → Prop
  | [], _ => True
  | .blank .. :: ps, r => Fits ps r
  | .token t _ :: ps, r => t.goesOn (spell ps ++ r) = false ∧ Fits ps r

/-- The pieces fit whatever follows, as long as that does not start inside of a token. -/
def Closed (ps : List Piece) : Prop := ∀ r, Clean r → Fits ps r

/-- The pieces are blanks. -/
def Blank (ps : List Piece) : Prop := ∀ p ∈ ps, p.isToken = false

/-- The pieces start and end with a token, if there are any. -/
def Tight (ps : List Piece) : Prop :=
  (∀ p ∈ ps.head?, p.isToken = true) ∧ ∀ p ∈ ps.getLast?, p.isToken = true

section Pieces

variable {ps qs bs : List Piece} {r : Text}

@[simp] theorem spell_nil : spell [] = [] := rfl

@[simp] theorem spell_cons (p : Piece) (ps : List Piece) : spell (p :: ps) = p.text ++ spell ps :=
  rfl

@[simp] theorem spell_append (ps qs : List Piece) : spell (ps ++ qs) = spell ps ++ spell qs :=
  List.flatMap_append

@[simp] theorem Piece.text_blank (c : Char) (h : isBlank c) : (Piece.blank c h).text = [c] := rfl

@[simp] theorem Piece.text_token (t : Token) (h : t.Proper) :
    (Piece.token t h).text = t.spelling := rfl

@[simp] theorem Piece.isToken_blank (c : Char) (h : isBlank c) :
    (Piece.blank c h).isToken = false := rfl

@[simp] theorem Piece.isToken_token (t : Token) (h : t.Proper) :
    (Piece.token t h).isToken = true := rfl

@[simp] theorem literals_nil : literals [] = [] := rfl

@[simp] theorem literals_append (ps qs : List Piece) :
    literals (ps ++ qs) = literals ps ++ literals qs := List.filterMap_append

@[simp] theorem literals_blank (c : Char) (h : isBlank c) (ps : List Piece) :
    literals (.blank c h :: ps) = literals ps := rfl

theorem literals_token (t : Token) (h : t.Proper) (ps : List Piece) :
    literals (.token t h :: ps) = t.literal?.toList ++ literals ps := by
  cases hl : t.literal? <;> simp [literals, Piece.literal?, hl]

@[simp] theorem count_nil : count [] = 0 := rfl

@[simp] theorem count_append (ps qs : List Piece) : count (ps ++ qs) = count ps + count qs :=
  List.countP_append

@[simp] theorem count_blank (c : Char) (h : isBlank c) (ps : List Piece) :
    count (.blank c h :: ps) = count ps := by simp [count]

@[simp] theorem count_token (t : Token) (h : t.Proper) (ps : List Piece) :
    count (.token t h :: ps) = count ps + 1 := List.countP_cons_of_pos rfl

@[simp] theorem inView_nil : inView [] = .finish := rfl

@[simp] theorem inView_blank (c : Char) (h : isBlank c) (ps : List Piece) :
    inView (.blank c h :: ps) = inView ps := rfl

@[simp] theorem inView_token (t : Token) (h : t.Proper) (ps : List Piece) :
    inView (.token t h :: ps) = t := rfl

@[simp] theorem fits_nil (r : Text) : Fits [] r := trivial

@[simp] theorem fits_blank (c : Char) (h : isBlank c) (ps : List Piece) (r : Text) :
    Fits (.blank c h :: ps) r ↔ Fits ps r := Iff.rfl

@[simp] theorem fits_token (t : Token) (h : t.Proper) (ps : List Piece) (r : Text) :
    Fits (.token t h :: ps) r ↔ t.goesOn (spell ps ++ r) = false ∧ Fits ps r := Iff.rfl

@[simp] theorem fits_append (ps qs : List Piece) (r : Text) :
    Fits (ps ++ qs) r ↔ Fits ps (spell qs ++ r) ∧ Fits qs r := by
  induction ps with
  | nil => simp
  | cons p ps ih =>
    cases p with
    | blank => exact ih
    | token t h => simp [ih, and_assoc]

/-- Pieces at the end of others leave room for the rest. -/
theorem length_le_of_append {us vs : List Piece} {n : Nat} (h : (spell (us ++ vs)).length ≤ n) :
    (spell vs).length ≤ n := by
  rw [spell_append, List.length_append] at h
  omega

/-! ## Blanks -/

theorem blank_nil : Blank [] := by simp [Blank]

@[simp] theorem blank_cons (p : Piece) (ps : List Piece) :
    Blank (p :: ps) ↔ p.isToken = false ∧ Blank ps := by simp [Blank]

theorem Blank.cons (c : Char) (hc : isBlank c) (h : Blank bs) : Blank (.blank c hc :: bs) := by
  simpa using h

/-- Blanks are put in front of blanks. -/
@[elab_as_elim, induction_eliminator]
theorem Blank.induction {motive : (bs : List Piece) → Blank bs → Prop} (nil : motive [] blank_nil)
    (cons : ∀ (c : Char) (hc : isBlank c) {bs : List Piece} (h : Blank bs), motive bs h →
      motive (.blank c hc :: bs) (h.cons c hc))
    {bs : List Piece} (h : Blank bs) : motive bs h := by
  induction bs with
  | nil => exact nil
  | cons p bs ih =>
    cases p with
    | blank c hc => exact cons c hc ((blank_cons _ _).1 h).2 (ih _)
    | token t ht => simp at h

/-- What passes over one blank passes over any number of them. -/
theorem Blank.append_eq {α : Sort*} {f : List Piece → α}
    (hf : ∀ c hc ps, f (.blank c hc :: ps) = f ps) (h : Blank bs) (ps : List Piece) :
    f (bs ++ ps) = f ps := by
  induction h with
  | nil => rfl
  | cons c hc _ ih => rw [List.cons_append, hf, ih]

@[simp] theorem blank_append : Blank (ps ++ qs) ↔ Blank ps ∧ Blank qs := by
  simp only [Blank, List.mem_append, or_imp, forall_and]

theorem exists_blank {b : Text} (hb : ∀ c ∈ b, isBlank c) : ∃ bs, Blank bs ∧ spell bs = b := by
  induction b with
  | nil => exact ⟨[], blank_nil, rfl⟩
  | cons c b ih =>
    obtain ⟨bs, h1, h2⟩ := ih fun d hd => hb d (by simp [hd])
    exact ⟨.blank c (hb c (by simp)) :: bs, by simp [h1], by simp [h2]⟩

theorem Blank.inView_append (h : Blank bs) (ps : List Piece) : inView (bs ++ ps) = inView ps :=
  h.append_eq inView_blank ps

theorem Blank.literals (h : Blank bs) : literals bs = [] := by
  simpa using h.append_eq literals_blank []

theorem Blank.count (h : Blank bs) : count bs = 0 := by
  simpa using h.append_eq count_blank []

theorem Blank.fits (h : Blank bs) (r : Text) : Fits bs r := by
  induction h with
  | nil => trivial
  | cons _ _ _ ih => exact ih

/-- Pieces without a token in view are blanks. -/
theorem blank_of_inView (h : inView ps = .finish) : Blank ps := by
  induction ps with
  | nil => exact blank_nil
  | cons p ps ih =>
    cases p with
    | blank => simpa using ih h
    | token t ht =>
      obtain rfl : t = .finish := h
      exact absurd ht not_proper_finish

/-- The token in view and the blanks before it. -/
theorem exists_inView (h : inView ps ≠ .finish) :
    ∃ bs t hp qs, Blank bs ∧ ps = bs ++ .token t hp :: qs := by
  induction ps with
  | nil => exact absurd rfl h
  | cons p ps ih =>
    cases p with
    | blank c hc =>
      obtain ⟨bs, t, hp, qs, hb, rfl⟩ := ih h
      exact ⟨.blank c hc :: bs, t, hp, qs, by simp [hb], rfl⟩
    | token t ht => exact ⟨[], t, ht, ps, blank_nil, rfl⟩

theorem inView_append (h : inView ps ≠ .finish) (qs : List Piece) :
    inView (ps ++ qs) = inView ps := by
  obtain ⟨bs, t, hp, ps, hb, rfl⟩ := exists_inView h
  rw [List.append_assoc, hb.inView_append, hb.inView_append]
  rfl

theorem ne_nil_of_inView (h : inView ps ≠ .finish) : ps ≠ [] := by
  rintro rfl
  exact h rfl

theorem count_pos (h : inView ps ≠ .finish) : 0 < count ps := by
  obtain ⟨bs, t, hp, ps, hb, rfl⟩ := exists_inView h
  simp

theorem clean_cons {c : Char} (hc : isBreak c = true) (r : Text) : Clean (c :: r) := by
  simpa [Clean] using hc

theorem Blank.clean (h : Blank bs) (hr : Clean r) : Clean (spell bs ++ r) := by
  cases h using Blank.induction with
  | nil => exact hr
  | cons c hc => exact clean_cons (isBreak_of_isBlank hc) _

/-! ## What follows pieces -/

/-- Two characters decide whether a token goes on. -/
theorem goesOn_two (t : Token) (c d : Char) (r r' : Text) :
    t.goesOn (c :: d :: r) = t.goesOn (c :: d :: r') := by
  have h1 : opensFraction (c :: d :: r) = opensFraction (c :: d :: r') := by
    by_cases hc : c = '.' <;> simp [opensFraction, hc]
  have h2 : goesOnAsDate (c :: d :: r) = goesOnAsDate (c :: d :: r') := by
    by_cases hc : c = '-' <;> simp [goesOnAsDate, hc]
  cases t <;> simp only [goesOn, h1, h2]

theorem goesOn_append_break (t : Token) {c : Char} (hc : isBreak c = true) (x r r' : Text) :
    t.goesOn (x ++ c :: r) = t.goesOn (x ++ c :: r') := by
  match x with
  | [] => rw [List.nil_append, goesOn_of_clean t (clean_cons hc r), List.nil_append,
      goesOn_of_clean t (clean_cons hc r')]
  | [a] => exact goesOn_two t a c r r'
  | a :: b :: x => exact goesOn_two t a b _ _

theorem fits_append_break {c : Char} (hc : isBreak c = true) (ps : List Piece) (r r' : Text) :
    Fits ps (c :: r) ↔ Fits ps (c :: r') := by
  induction ps with
  | nil => simp
  | cons p ps ih =>
    cases p with
    | blank => exact ih
    | token t h => rw [fits_token, fits_token, goesOn_append_break t hc _ r r', ih]

/-- What ends with a text ends before a character that ends every token. -/
theorem goesOn_append_cons {t : Token} {c : Char} (hc : isBreak c = true) {x : Text}
    (h : t.goesOn x = false) (r : Text) : t.goesOn (x ++ c :: r) = false := by
  match x with
  | [] => exact goesOn_of_clean t (clean_cons hc r)
  | [a] =>
    -- A dot or a hyphen makes a token longer only before a digit.
    have hdigit : c.isDigit = false := by
      by_contra hn
      have hd := isDatePart_of_isDigit (by simpa using hn)
      simp [isBreak, hd] at hc
    have h1 : opensFraction (a :: c :: r) = opensFraction [a] := by
      by_cases ha : a = '.' <;> simp [opensFraction, ha, hdigit]
    have h2 : goesOnAsDate (a :: c :: r) = goesOnAsDate [a] := by
      by_cases ha : a = '-' <;> simp [goesOnAsDate, ha, hdigit]
    rw [← h]
    cases t <;> simp only [goesOn, List.singleton_append, h1, h2]
  | a :: b :: x =>
    rw [← h]
    exact goesOn_two t a b _ _

/-- Pieces that fit at the end of a text fit before a character that ends every token. -/
theorem Fits.append_break {c : Char} (h : Fits ps []) (hc : isBreak c = true) (r : Text) :
    Fits ps (c :: r) := by
  induction ps with
  | nil => trivial
  | cons p ps ih =>
    cases p with
    | blank => exact ih h
    | token t ht =>
      rw [fits_token, List.append_nil] at h
      exact ⟨goesOn_append_cons hc h.1 r, ih h.2⟩

theorem Closed.fits (h : Closed ps) : Fits ps [] := h [] (by simp [Clean])

theorem Closed.append (hp : Closed ps) (hq : Closed qs) (hc : Clean (spell qs)) :
    Closed (ps ++ qs) := by
  intro r hr
  refine (fits_append ps qs r).2 ⟨hp _ ?_, hq r hr⟩
  cases hs : spell qs with
  | nil => exact hr
  | cons c t => exact clean_cons (hc c (by simp [hs])) _

/-- Pieces that stand before a break fit before every text that does not start inside of a
    token. -/
theorem closed_of_fits {c : Char} (hc : isBreak c = true) (hs : spell qs = c :: r)
    (hq : Closed qs) {r' : Text} (h : Fits ps (c :: r')) : Closed (ps ++ qs) := by
  intro x hx
  refine (fits_append ps qs x).2 ⟨?_, hq x hx⟩
  rw [hs, List.cons_append]
  exact (fits_append_break hc ps _ _).1 h

theorem Blank.closed (h : Blank bs) : Closed bs := fun r _ => h.fits r

theorem closed_token (t : Token) (h : t.Proper) : Closed [Piece.token t h] :=
  fun r hr => ⟨goesOn_of_clean t (by simpa using hr), trivial⟩

theorem Blank.append_closed (h : Blank bs) (hp : Closed ps) : Closed (bs ++ ps) :=
  fun r hr => (fits_append bs ps r).2 ⟨h.fits _, hp r hr⟩

theorem Closed.token_blank {c : Char} {hc : isBlank c} (h : Closed ps) (t : Token)
    (hp : t.Proper) : Closed (.token t hp :: .blank c hc :: ps) :=
  fun r hr => ⟨goesOn_of_clean t (clean_cons (isBreak_of_isBlank hc) _), h r hr⟩

/-! ## Ends of pieces -/

theorem tight_token (t : Token) (h : t.Proper) : Tight [Piece.token t h] := by
  simp [Tight]

theorem Tight.append (hp : Tight ps) (hq : Tight qs) (hps : ps ≠ []) (hqs : qs ≠ [])
    (ms : List Piece) : Tight (ps ++ (ms ++ qs)) := by
  refine ⟨fun p h => hp.1 p ?_, fun p h => hq.2 p ?_⟩
  · rwa [List.head?_append_of_ne_nil _ hps] at h
  · rwa [← List.append_assoc, List.getLast?_append_of_ne_nil _ hqs] at h

theorem Tight.inView_ne_finish (h : Tight ps) (hne : ps ≠ []) : inView ps ≠ .finish := by
  obtain ⟨p, ps, rfl⟩ := List.exists_cons_of_ne_nil hne
  cases p with
  | blank => simpa using h.1 _ rfl
  | token t ht =>
    rintro (rfl : t = .finish)
    exact not_proper_finish ht

theorem isToken_head_append (hp : ∀ p ∈ ps.head?, p.isToken = true)
    (hq : ∀ p ∈ qs.head?, p.isToken = true) : ∀ p ∈ (ps ++ qs).head?, p.isToken = true := by
  cases ps with
  | nil => exact hq
  | cons => exact hp

theorem isToken_last_append (hp : ∀ p ∈ ps.getLast?, p.isToken = true)
    (hq : ∀ p ∈ qs.getLast?, p.isToken = true) : ∀ p ∈ (ps ++ qs).getLast?, p.isToken = true := by
  rw [List.getLast?_append]
  cases h : qs.getLast? with
  | none => exact hp
  | some q =>
    rw [h] at hq
    exact hq

/-- The text of pieces that start and end with a token has no blanks at its ends. -/
theorem Tight.isBlank_ends (h : Tight ps) : (∀ c ∈ (spell ps).head?, isBlank c = false) ∧
    ∀ c ∈ (spell ps).getLast?, isBlank c = false := by
  constructor
  · cases ps with
    | nil => simp
    | cons p ps =>
      cases p with
      | blank => simpa using h.1 _ rfl
      | token t ht =>
        rw [spell_cons, Piece.text_token, List.head?_append_of_ne_nil _ ht.ne_nil]
        exact ht.isBlank_head
  · rcases List.eq_nil_or_concat ps with rfl | ⟨qs, p, rfl⟩
    · simp
    · rw [List.concat_eq_append] at h ⊢
      cases p with
      | blank c hc => exact absurd (h.2 (.blank c hc) (by simp)) (by simp)
      | token t ht =>
        rw [spell_append, spell_cons, spell_nil, List.append_nil, Piece.text_token,
          List.getLast?_append_of_ne_nil _ ht.ne_nil]
        exact ht.isBlank_last

end Pieces

/-! ## Pieces as lexemes -/

/-- What comes after the pieces of a text: text that does not start with a piece, and the way in
    which it ends the lexemes. -/
structure Ending where
  text : Text
  lexemes : Lexemes
  ends : lexemes.size = 0

/-- The end of a text of `T` characters. -/
def Ending.plain (T : Nat) : Ending := ⟨[], .finish T, rfl⟩

/-- A token before pieces and an ending, in a text of `T` characters. -/
def lexemeAt (E : Ending) (T : Nat) (t : Token) (ps : List Piece) : Lexeme :=
  let after := spell ps ++ E.text
  ⟨t, T - (t.spelling ++ after).length, T - after.length, t.spelling ++ after⟩

/-- The lexemes of pieces that end a text of `T` characters. -/
def placed (E : Ending) (T : Nat) : List Piece → Lexemes
  | [] => E.lexemes
  | .blank .. :: ps => placed E T ps
  | .token t _ :: ps => .next (lexemeAt E T t ps) (placed E T ps)

theorem Blank.placed_append {E : Ending} {T : Nat} {bs : List Piece} (h : Blank bs)
    (ps : List Piece) : placed E T (bs ++ ps) = placed E T ps :=
  h.append_eq (fun _ _ _ => rfl) ps

theorem size_placed (E : Ending) (T : Nat) (ps : List Piece) : (placed E T ps).size = count ps := by
  induction ps with
  | nil => exact E.ends
  | cons p ps ih => cases p <;> simp [placed, Lexemes.size, ih]

/-- The lexemes of pieces are their tokens. -/
theorem toList_placed (E : Ending) (T : Nat) (ps : List Piece) :
    (placed E T ps).toList.map Lexeme.token = ps.filterMap Piece.token? := by
  induction ps with
  | nil =>
    have h := E.ends
    cases hE : E.lexemes <;> simp_all [placed, Lexemes.toList, Lexemes.size]
  | cons p ps ih =>
    cases p with
    | blank => exact ih
    | token t ht => exact congrArg (t :: ·) ih

/-- The text starts neither with a blank nor with a token. -/
def Halts (r : Text) : Prop :=
  ∀ c rest, r = c :: rest → isBlank c = false ∧ ∀ t r', front c rest ≠ .token t r'

/-- Every text is pieces up to where it halts. -/
theorem exists_fits (s : Text) : ∃ ps r, s = spell ps ++ r ∧ Fits ps r ∧ Halts r := by
  induction hn : s.length using Nat.strong_induction_on generalizing s with
  | _ n ih =>
    by_cases hs : Halts s
    · exact ⟨[], s, rfl, trivial, hs⟩
    · simp only [Halts, not_forall, not_and_or, Bool.not_eq_false] at hs
      obtain ⟨c, rest, rfl, hc | hf⟩ := hs
      · obtain ⟨ps, r, rfl, hfit, hr⟩ := ih rest.length (by simp [← hn]) rest rfl
        exact ⟨.blank c hc :: ps, r, rfl, hfit, hr⟩
      · obtain ⟨t, r', hf⟩ : ∃ t r', front c rest = .token t r' := by simpa using hf
        have hh := heads_of_front hf
        obtain ⟨cs, hsp, rfl⟩ := front_eq_token hf
        obtain ⟨ps, r, rfl, hfit, hr⟩ := ih r'.length (by simp [← hn]) r' rfl
        refine ⟨.token t hh.proper :: ps, r, ?_, ⟨((heads_iff _ _).1 hh).2, hfit⟩, hr⟩
        simp [hsp]

namespace Scanner

theorem lexemesUpTo_skipBlanks (n : Nat) (s : Scanner) :
    s.skipBlanks.lexemesUpTo (n + 1) = s.lexemesUpTo (n + 1) := by
  obtain ⟨h1, h2⟩ := span_append (u := []) (by simp) (stops_dropWhile isBlank s.rest)
  rw [List.nil_append] at h1 h2
  have h : s.skipBlanks.skipBlanks = s.skipBlanks := by
    simp only [skipBlanks, h1, h2, List.length_nil, Nat.add_zero]
  simp only [lexemesUpTo, next, h]

theorem lexemesUpTo_blank {c : Char} (hc : isBlank c) (n : Nat) (text rest : Text) (k i : Nat) :
    lexemesUpTo (n + 1) ⟨text, c :: rest, k, i⟩ = lexemesUpTo (n + 1) ⟨text, rest, k + 1, i⟩ := by
  have h : skipBlanks ⟨text, c :: rest, k, i⟩ = skipBlanks ⟨text, rest, k + 1, i⟩ := by
    simp [skipBlanks, hc]
    omega
  rw [← lexemesUpTo_skipBlanks, h, lexemesUpTo_skipBlanks]

theorem lexemesUpTo_token {t : Token} {rest : Text} (h : t.Heads rest) (n : Nat) (text : Text)
    (k i : Nat) : lexemesUpTo (n + 1) ⟨text, t.spelling ++ rest, k, i⟩ =
      .next ⟨t, k, k + t.spelling.length, t.spelling ++ rest⟩
        (lexemesUpTo n ⟨text, rest, k + t.spelling.length, k⟩) := by
  have hf : t ≠ .finish := by rintro rfl; exact not_proper_finish h.proper
  have hb := h.proper.isBlank_head
  obtain ⟨c, cs, hs, hfront⟩ := h
  have hc : isBlank c = false := hb c (by simp [hs])
  have hskip : skipBlanks ⟨text, t.spelling ++ rest, k, i⟩ = ⟨text, t.spelling ++ rest, k, k⟩ := by
    simp [skipBlanks, hs, hc]
  simp only [lexemesUpTo, next, hskip]
  simp only [hs, List.cons_append, hfront]

/-- Where a text halts, so does the scanner. -/
theorem lexemesUpTo_halts {r : Text} (h : Halts r) (n : Nat) (text : Text) (k i : Nat) :
    lexemesUpTo (n + 1) ⟨text, r, k, i⟩ = lexemesUpTo 1 ⟨r, r, k, k⟩ ∧
      (lexemesUpTo 1 ⟨r, r, k, k⟩).size = 0 := by
  cases r with
  | nil => simp [lexemesUpTo, next, skipBlanks, Lexemes.size]
  | cons c rest =>
    obtain ⟨hc, hf⟩ := h c rest rfl
    have h1 (t : Text) (i : Nat) : skipBlanks ⟨t, c :: rest, k, i⟩ = ⟨t, c :: rest, k, k⟩ := by
      simp [skipBlanks, hc]
    simp only [lexemesUpTo, next, h1]
    cases hfr : front c rest with
    | token t r' => exact absurd hfr (hf t r')
    | _ => simp [Lexemes.size]

/-- Where a text halts before its end, the scanner fails. -/
theorem eq_nil_of_halts {r : Text} (h : Halts r) {k : Nat}
    (hok : (lexemesUpTo 1 ⟨r, r, k, k⟩).ending.isOk = true) : r = [] := by
  cases r with
  | nil => rfl
  | cons c rest =>
    obtain ⟨hc, hf⟩ := h c rest rfl
    have hskip : skipBlanks ⟨c :: rest, c :: rest, k, k⟩ = ⟨c :: rest, c :: rest, k, k⟩ := by
      simp [skipBlanks, hc]
    simp only [lexemesUpTo, next, hskip] at hok
    cases hfr : front c rest with
    | token t r' => exact absurd hfr (hf t r')
    | _ => simp [hfr, Lexemes.ending, Except.isOk, Except.toBool] at hok

/-- **The scanner finds the pieces that fit.** -/
theorem lexemesUpTo_pieces {ps : List Piece} {E : Ending} {T : Nat} (hfit : Fits ps E.text)
    {text : Text} (hE : ∀ n i, lexemesUpTo (n + 1) ⟨text, E.text, T - E.text.length, i⟩ = E.lexemes)
    {n k i : Nat} (hn : (spell ps).length ≤ n) (hk : k + (spell ps ++ E.text).length = T) :
    lexemesUpTo (n + 1) ⟨text, spell ps ++ E.text, k, i⟩ = placed E T ps := by
  induction ps generalizing n k i with
  | nil =>
    rw [spell_nil, List.nil_append] at hk ⊢
    rw [show k = T - E.text.length by omega]
    exact hE n i
  | cons p ps ih =>
    cases p with
    | blank c hc =>
      simp only [spell_cons, Piece.text_blank, List.cons_append, List.nil_append,
        List.length_cons] at hn hk ⊢
      rw [lexemesUpTo_blank hc]
      exact ih hfit (by omega) (by omega)
    | token t ht =>
      have hlen : 0 < t.spelling.length := List.length_pos_of_ne_nil ht.ne_nil
      simp only [spell_cons, Piece.text_token, List.append_assoc, List.length_append] at hn hk ⊢
      rw [lexemesUpTo_token (ht.heads hfit.1)]
      obtain ⟨m, rfl⟩ : ∃ m, n = m + 1 := ⟨n - 1, by omega⟩
      rw [ih hfit.2 (by omega) (by simp only [List.length_append]; omega), placed]
      simp only [lexemeAt, Lexemes.next.injEq, Lexeme.mk.injEq, true_and, and_true,
        List.length_append]
      omega

end Scanner

/-- **Every text is pieces and an ending, and these are its lexemes.**  Without an error the text
    ends with the pieces. -/
theorem exists_pieces (s : Text) : ∃ ps E, s = spell ps ++ E.text ∧ Fits ps E.text ∧
    Lexemes.ofText s = placed E s.length ps ∧ (E.lexemes.ending.isOk = true → E.text = []) := by
  obtain ⟨ps, r, hs, hfit, hr⟩ := exists_fits s
  have hE := fun n i => Scanner.lexemesUpTo_halts hr n s (s.length - r.length) i
  refine ⟨ps, ⟨r, _, (hE 0 0).2⟩, hs, hfit, ?_, Scanner.eq_nil_of_halts hr⟩
  have := Scanner.lexemesUpTo_pieces (E := ⟨r, _, (hE 0 0).2⟩) (n := s.length) (k := 0) (i := 0)
    hfit (fun n i => (hE n i).1) (by simp [hs]) (by simp [hs])
  rw [← this]
  simp only [Lexemes.ofText, Scanner.lexemes, Scanner.ofText, ← hs]

theorem ending_placed (E : Ending) (T : Nat) (ps : List Piece) :
    (placed E T ps).ending = E.lexemes.ending := by
  induction ps with
  | nil => rfl
  | cons p ps ih => cases p <;> exact ih

/-- A text without a scan error is pieces. -/
theorem exists_spell {s : Text} (h : (Lexemes.ofText s).ending.isOk = true) :
    ∃ ps, s = spell ps ∧ Fits ps [] := by
  obtain ⟨ps, E, hs, hfit, hlex, hE⟩ := exists_pieces s
  rw [hlex, ending_placed] at h
  rw [hE h] at hs hfit
  exact ⟨ps, by rwa [List.append_nil] at hs, hfit⟩

/-- **The lexemes of the text of pieces that fit are these pieces.** -/
theorem ofText_spell {ps : List Piece} (hfit : Fits ps []) :
    Lexemes.ofText (spell ps) = placed (.plain (spell ps).length) (spell ps).length ps := by
  have hE := fun n i => Scanner.lexemesUpTo_halts (r := []) (by simp [Halts]) n (spell ps)
    (spell ps).length i
  have := Scanner.lexemesUpTo_pieces (E := .plain (spell ps).length) (T := (spell ps).length)
    (n := (spell ps).length) (k := 0) (i := 0) hfit
    (fun n i => (hE n i).1) (by simp) (by simp [Ending.plain])
  rw [← this]
  simp [Lexemes.ofText, Scanner.lexemes, Scanner.ofText, Ending.plain]

/-- The string literals of a text, in order. -/
def Text.literals (t : Text) : List Text :=
  (Lexemes.ofText t).toList.filterMap fun lexeme => lexeme.token.literal?

theorem literals_placed (E : Ending) (T : Nat) (ps : List Piece) :
    (placed E T ps).toList.filterMap (fun lexeme => lexeme.token.literal?) = literals ps := by
  change (placed E T ps).toList.filterMap (Token.literal? ∘ Lexeme.token) = literals ps
  rw [← List.filterMap_map, toList_placed, List.filterMap_filterMap]
  exact List.filterMap_congr fun p _ => by cases p <;> rfl

theorem literals_spell {ps : List Piece} (h : Fits ps []) :
    Text.literals (spell ps) = literals ps := by
  rw [Text.literals, ofText_spell h, literals_placed]

end Soql
