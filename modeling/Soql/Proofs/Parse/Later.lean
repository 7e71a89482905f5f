/-
  Parsing from a later place of a text.

  A parser can be put on a scanner that has taken some tokens already.  It
  parses what is left of the text then: as a text of its own this yields the
  same query, or the same error with its place counted from there.

  * `Scanner.query`: the query that stands where a scanner has come to.
  * `ScanError.shift`, `ParseError.shift`: errors that many characters later.
  * `Scanner.Later p s s'`: `s'` has as much to read as `s`, so much later.
  * `Lockstep.shifted`: two runs over the same lexemes, one of them later.
  * `Scanner.query_afterCalls`: parsing after any number of calls.
-/
import Mathlib
import Soql.Proofs.Token.Tiles
import Soql.Proofs.Parse.Lockstep

namespace Soql

/-! ## Later places -/

/-- The error, `p` characters later. -/
def ScanError.shift (p : Nat) : ScanError → ScanError
  | unexpectedCharacter c position => unexpectedCharacter c (position + p)
  | unterminatedString position => unterminatedString (position + p)
  | incompleteOperator position => incompleteOperator (position + p)

/-- The error, `p` characters later.  An error about the end of the text has no place. -/
def ParseError.shift (p : Nat) : ParseError → ParseError
  | scan error => scan (error.shift p)
  | unexpectedToken expected found position => unexpectedToken expected found (position + p)
  | unexpectedEnd expected => unexpectedEnd expected
  | invalidNumber text position => invalidNumber text (position + p)
  | invalidValue text position => invalidValue text (position + p)
  | unsupported form position => unsupported form (position + p)

/-- The lexeme, `p` characters later. -/
def Lexeme.shift (p : Nat) (l : Lexeme) : Lexeme :=
  { l with start := l.start + p, stop := l.stop + p }

/-- The lexemes, `p` characters later. -/
def Lexemes.shift (p : Nat) : Lexemes → Lexemes
  | next lexeme rest => next (lexeme.shift p) (rest.shift p)
  | finish length => finish (length + p)
  | stuck error => stuck (error.shift p)
  | broken error length => broken (error.shift p) (length + p)

/-- The cursor, `p` characters later. -/
def Cursor.shift (p : Nat) (c : Cursor) : Cursor := ⟨c.current.shift p, c.ahead.shift p⟩

variable {p : Nat}

/-- The text of a call does not depend on where it stands. -/
theorem Lexeme.textUpTo_shift (l m : Lexeme) : (l.shift p).textUpTo (m.shift p) = l.textUpTo m := by
  simp only [textUpTo, shift, Nat.add_sub_add_right]

theorem Lexemes.size_shift (ls : Lexemes) : (ls.shift p).size = ls.size := by
  induction ls with
  | next l ls ih => rw [shift, size, size, ih]
  | _ => rfl

theorem Lexemes.pull_shift (ls : Lexemes) : (ls.shift p).pull =
    (ls.pull.1.map (Lexeme.shift p) |>.mapError (ScanError.shift p), ls.pull.2.shift p) := by
  cases ls <;> rfl

theorem Cursor.ofLexemes_shift (ls : Lexemes) : ofLexemes (ls.shift p) =
    ((ofLexemes ls).map (Cursor.shift p)).mapError (ScanError.shift p) := by
  cases ls <;> rfl

theorem Token.Complaint.shift {t : Token} {e : Nat → ParseError} (h : t.Complaint e) (i : Nat) :
    (e i).shift p = e (i + p) := by
  cases h <;> rfl

/-! ## Scanning -/

namespace Scanner

/-- The scanner `s'` has the same to read as `s`, `p` characters later. -/
structure Later (p : Nat) (s s' : Scanner) : Prop where
  rest : s'.rest = s.rest
  position : s'.position = s.position + p

variable {s s' : Scanner}

theorem Later.skipBlanks (h : Later p s s') : Later p s.skipBlanks s'.skipBlanks where
  rest := congrArg (List.dropWhile _) h.rest
  position := by
    simp only [Scanner.skipBlanks, h.rest, h.position]
    exact Nat.add_right_comm ..

/-- One call answers the same of both, and leaves them as far apart. -/
theorem Later.next (h : Later p s s') : s'.next.1 = s.next.1.mapError (ScanError.shift p) ∧
    Later p s.next.2 s'.next.2 ∧ s'.next.2.tokenStart = s.next.2.tokenStart + p := by
  have hskip := h.skipBlanks
  have hstart : s'.skipBlanks.tokenStart = s.skipBlanks.tokenStart + p := hskip.position
  rw [Scanner.next, Scanner.next, hskip.rest]
  cases s.skipBlanks.rest with
  | nil => exact ⟨rfl, hskip, hstart⟩
  | cons c rest =>
    have hmove (u r : Text) : Later p
        { s.skipBlanks with rest := r, position := s.skipBlanks.position + u.length }
        { s'.skipBlanks with rest := r, position := s'.skipBlanks.position + u.length } :=
      ⟨rfl, by rw [hskip.position]; exact Nat.add_right_comm ..⟩
    dsimp only
    cases front c rest with
    | token t r => exact ⟨rfl, hmove t.spelling r, hstart⟩
    | unterminated => exact ⟨by rw [hskip.position]; rfl, hmove (c :: rest) [], hstart⟩
    | unexpected | incomplete => exact ⟨by rw [hskip.position]; rfl, hskip, hstart⟩

/-- They find the same lexemes, those of `s'` so much later. -/
theorem Later.lexemesUpTo (h : Later p s s') (n : Nat) :
    s'.lexemesUpTo n = (s.lexemesUpTo n).shift p := by
  induction n generalizing s s' with
  | zero => exact congrArg Lexemes.finish h.position
  | succ n ih =>
    obtain ⟨hanswer, hlater, hstart⟩ := h.next
    rw [Scanner.lexemesUpTo, Scanner.lexemesUpTo, h.skipBlanks.rest]
    generalize s.next = x at hanswer hlater hstart ⊢
    generalize s'.next = x' at hanswer hlater hstart ⊢
    obtain ⟨answer, text, rest, position, start⟩ := x
    obtain ⟨answer', text', rest', position', start'⟩ := x'
    obtain ⟨rfl, rfl⟩ : rest' = rest ∧ position' = position + p := ⟨hlater.rest, hlater.position⟩
    obtain rfl : start' = start + p := hstart
    obtain rfl : answer' = _ := hanswer
    cases answer with
    | error e => cases rest' <;> rfl
    | ok t =>
      cases t with
      | finish => rfl
      | _ => exact congrArg _ (ih hlater)

theorem Later.lexemes (h : Later p s s') : s'.lexemes = s.lexemes.shift p := by
  rw [Scanner.lexemes, Scanner.lexemes, h.rest]
  exact h.lexemesUpTo _

/-- A scanner in place has the same to read as one at the start of what is left of the text. -/
theorem InPlace.later (h : s.InPlace) : Later s.position (ofText (s.text.drop s.position)) s :=
  ⟨h.rest, (Nat.zero_add _).symm⟩

end Scanner

/-! ## Parsing -/

/-- Two runs over the same lexemes, the second one `p` characters later. -/
def Lockstep.shifted (p : Nat) : Lockstep where
  cursors c d := d = c.shift p
  lexemes l m := m = l.shift p
  errors e _ e' _ := e' = e.shift p
  size := by
    rintro c _ rfl
    exact congrArg Nat.succ c.ahead.size_shift.symm
  current := by
    rintro c _ rfl
    rfl
  token := by
    rintro l _ rfl
    rfl
  textUpTo := by
    rintro l _ l' _ rfl rfl
    exact (Lexeme.textUpTo_shift l l').symm
  pull := by
    rintro c _ rfl
    have hpull := c.ahead.pull_shift (p := p)
    obtain ⟨answer, ls, hahead⟩ : ∃ answer ls, c.ahead.pull = (answer, ls) := ⟨_, _, rfl⟩
    rw [hahead] at hpull
    cases answer with
    | ok l => exact Or.inl ⟨l, _, ls, _, hahead, hpull, rfl⟩
    | error e => exact Or.inr ⟨e, _, ls, _, hahead, hpull, fun _ _ => rfl⟩
  ended _ _ := rfl
  complain := by
    rintro c _ l _ e rfl rfl he
    exact (he.shift l.start).symm

namespace Scanner

/-- The query that stands in a text from where a scanner has come to. -/
def query (s : Scanner) : Except ParseError Query :=
  match Cursor.ofLexemes s.lexemes with
  | .error error => .error (.scan error)
  | .ok cursor =>
    match Parser.query cursor with
    | .ok query _ => .ok query
    | .error error _ => .error error

theorem query_ofText (text : Text) : (ofText text).query = Query.parse text := rfl

theorem Later.query {s s' : Scanner} (h : Later p s s') :
    s'.query = s.query.mapError (ParseError.shift p) := by
  rw [Scanner.query, Scanner.query, h.lexemes, Cursor.ofLexemes_shift]
  cases Cursor.ofLexemes s.lexemes with
  | error e => rfl
  | ok c =>
    have hstep : Parser.InStep (.shifted p) Eq Parser.query Parser.query := Parser.steady_query
    rcases hstep (c := c) (d := c.shift p) rfl with
      ⟨q, _, c', d', hc, hd, rfl, -⟩ | ⟨e, _, c', d', hc, hd, rfl⟩
    · simp only [Except.map, Except.mapError, hc, hd]
    · simp only [Except.map, Except.mapError, hc, hd]

/-- **Parsing from a later token is parsing the rest of the text.**  Whatever the calls of a scanner
    have answered so far, a parser that goes on from there yields the query of what is left of the
    text, or its error with the place where the scanner has come to added to that of the error. -/
theorem query_afterCalls (text : Text) (k : Nat) :
    (afterCalls text k).query = (Query.parse (text.drop (afterCalls text k).position)).mapError
      (ParseError.shift (afterCalls text k).position) := by
  have hlater := (inPlace_afterCalls text k).later
  rw [text_afterCalls] at hlater
  exact hlater.query

end Scanner

end Soql
