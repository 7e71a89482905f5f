/-
  What the outcome of parsing tells of the text.

  A parser over one sequence of lexemes keeps its cursor within the sequence,
  also where it fails, and each of its errors is about a lexeme of it or about
  its end.  This is parsing in step with itself.

  * `Cursor.Within X`: the cursor is at a lexeme of `X` or at the end.
  * `ParseError.Tells X e c`: the error `e` is about `X`, and `c` is where the
    parser stops.
  * `Parser.Steady.stays`, `Parser.Steady.tells`: a parser stops within `X`,
    also with an error, and that is about `X`.
  * `Parser.finish_of_query`: a query is read up to the end of `X`.
  * `Query.parse_tells`: the outcome for a text is about its tokens.
-/
import Mathlib
import Soql.Proofs.Token.Scans
import Soql.Proofs.Parse.Lockstep

namespace Soql

/-- The cursor is at a lexeme of `X` with all later ones ahead of it, or at the end of `X`. -/
inductive Cursor.Within (X : Lexemes) : Cursor → Prop
  | lexeme {c : Cursor} (before : List Lexeme)
    (hlist : X.toList = before ++ c.current :: c.ahead.toList)
    (hending : X.ending = c.ahead.ending) : Within X c
  | finish {n : Nat} (hending : X.ending = .ok n) : Within X ⟨.finish n, .finish n⟩

/-- The error is about `X`, and the parser that gives it stops at the cursor. -/
inductive ParseError.Tells (X : Lexemes) : ParseError → Cursor → Prop
  | scan {e : ScanError} {c : Cursor} (hending : X.ending = .error e)
      (hahead : c.ahead.toList = []) :
    Tells X (.scan e) c
  | complaint {c : Cursor} {l : Lexeme} {e : Nat → ParseError} (hc : c.Within X)
    (hl : l ∈ X.toList) (he : l.token.Complaint e) : Tells X (e l.start) c
  | ended {n : Nat} (expected : Expectation) (hending : X.ending = .ok n) :
    Tells X (.unexpectedEnd expected) ⟨.finish n, .finish n⟩

/-- No complaint is about the end of a text. -/
theorem Token.Complaint.ne_finish {t : Token} {e : Nat → ParseError} (h : t.Complaint e) :
    t ≠ .finish := by
  cases h with
  | unexpected _ h | unsupported _ h => exact h
  | _ => nofun

/-- No complaint about a token is a scan error. -/
theorem Token.Complaint.ne_scan {t : Token} {e : Nat → ParseError} (h : t.Complaint e) (i : Nat)
    (e' : ScanError) : e i ≠ .scan e' := by
  cases h <;> nofun

namespace Cursor

variable {X : Lexemes} {c : Cursor}

/-- The next lexeme is within the same lexemes; in its place can only be the error that they end
    with. -/
theorem Within.pull (h : c.Within X) :
    (∃ l ls, c.ahead.pull = (.ok l, ls) ∧ Within X ⟨l, ls⟩) ∨
      ∃ e ls, c.ahead.pull = (.error e, ls) ∧ X.ending = .error e ∧ ls.toList = [] := by
  cases h with
  | finish hending => exact Or.inl ⟨_, _, rfl, .finish hending⟩
  | lexeme before hlist hending =>
    obtain ⟨current, ahead⟩ := c
    cases ahead with
    | next l ls =>
      have hlist : X.toList = (before ++ [current]) ++ l :: ls.toList := by
        rw [hlist, List.append_assoc]
        rfl
      exact Or.inl ⟨l, ls, rfl, .lexeme _ hlist hending⟩
    | finish n => exact Or.inl ⟨_, _, rfl, .finish hending⟩
    | stuck e => exact Or.inr ⟨e, _, rfl, hending, rfl⟩
    | broken e n => exact Or.inr ⟨e, _, rfl, hending, rfl⟩

/-- A token in view is one of the lexemes. -/
theorem Within.current_mem (h : c.Within X) (ht : c.current.token ≠ .finish) :
    c.current ∈ X.toList := by
  cases h with
  | finish => exact absurd rfl ht
  | lexeme _ hlist => simp [hlist]

/-- Where no token is in view, all lexemes have been read. -/
theorem Within.eq_finish (h : c.Within X) (hX : ∀ l ∈ X.toList, l.token ≠ .finish)
    (ht : c.current.token = .finish) : ∃ n, X.ending = .ok n ∧ c = ⟨.finish n, .finish n⟩ := by
  cases h with
  | finish hending => exact ⟨_, hending, rfl⟩
  | lexeme _ hlist => exact absurd ht (hX _ (by simp [hlist]))

/-- The cursor at the first lexeme is within the lexemes. -/
theorem within_of_ofLexemes (h : ofLexemes X = .ok c) : c.Within X := by
  cases X with
  | next l ls =>
    cases h
    exact .lexeme [] rfl rfl
  | finish n =>
    cases h
    exact .finish rfl
  | _ => cases h

theorem ending_of_ofLexemes {e : ScanError} (h : ofLexemes X = .error e) : X.ending = .error e := by
  cases X with
  | stuck | broken =>
    cases h
    rfl
  | _ => cases h

end Cursor

/-- Parsing in step with itself, within lexemes none of which is the end of a text. -/
def Lockstep.within (X : Lexemes) (hX : ∀ l ∈ X.toList, l.token ≠ .finish) : Lockstep where
  cursors c d := c = d ∧ c.Within X
  lexemes l m := l = m ∧ (l.token ≠ .finish → l ∈ X.toList)
  errors e c e' d := e = e' ∧ e.Tells X c
  size h := by rw [h.1]
  current h := ⟨by rw [h.1], h.2.current_mem⟩
  token h := by rw [h.1]
  textUpTo h h' := by rw [h.1, h'.1]
  pull := by
    rintro c _ ⟨rfl, h⟩
    rcases h.pull with ⟨l, ls, hpull, h⟩ | ⟨e, ls, hpull, hending, hahead⟩
    · exact Or.inl ⟨l, l, ls, ls, hpull, hpull, rfl, h⟩
    · exact Or.inr ⟨e, e, ls, ls, hpull, hpull, fun _ _ => ⟨rfl, .scan hending hahead⟩⟩
  ended := by
    rintro c _ expected ⟨rfl, h⟩ ht
    obtain ⟨n, hending, rfl⟩ := h.eq_finish hX ht
    exact ⟨rfl, .ended expected hending⟩
  complain := by
    rintro c _ l _ e ⟨rfl, h⟩ ⟨rfl, hl⟩ he
    exact ⟨rfl, .complaint h (hl he.ne_finish) he⟩

namespace Parser

variable {α : Type} {X : Lexemes} {c : Cursor}

/-- A parser in step with itself stays within the lexemes. -/
theorem Steady.stays {f : Parser α} {a : α} {c' : Cursor} (hX : ∀ l ∈ X.toList, l.token ≠ .finish)
    (hf : Steady (.within X hX) f) (hc : c.Within X) (h : f c = .ok a c') : c'.Within X := by
  rcases hf ⟨rfl, hc⟩ with ⟨_, _, _, _, h₁, -, -, -, hc'⟩ | ⟨_, _, _, _, h₁, -, -⟩
  · cases h₁.symm.trans h
    exact hc'
  · cases h₁.symm.trans h

/-- A parser in step with itself fails with errors about the lexemes. -/
theorem Steady.tells {f : Parser α} {e : ParseError} {c' : Cursor}
    (hX : ∀ l ∈ X.toList, l.token ≠ .finish) (hf : Steady (.within X hX) f) (hc : c.Within X)
    (h : f c = .error e c') : e.Tells X c' := by
  rcases hf ⟨rfl, hc⟩ with ⟨_, _, _, _, h₁, -, -, -⟩ | ⟨_, _, _, _, h₁, -, -, he⟩
  · cases h₁.symm.trans h
  · cases h₁.symm.trans h
    exact he

/-- A query ends where its lexemes end. -/
theorem finish_of_query {q : Query} {c' : Cursor} (hX : ∀ l ∈ X.toList, l.token ≠ .finish)
    (hc : c.Within X) (h : query c = .ok q c') :
    ∃ n, X.ending = .ok n ∧ c' = ⟨.finish n, .finish n⟩ := by
  obtain ⟨q, c₁, hq, h⟩ := bind_eq_ok.1 h
  obtain ⟨l, c₂, hl, h⟩ := bind_eq_ok.1 h
  obtain ⟨-, rfl⟩ := pure_eq_ok.1 h
  obtain ⟨b, _, hb, hl⟩ := bind_eq_ok.1 hl
  rw [atToken_eq] at hb
  cases hb
  split at hl
  next ht =>
    obtain ⟨n, hending, rfl⟩ := (steady_select.stays hX hc hq).eq_finish hX (beq_iff_eq.1 ht)
    cases hl
    exact ⟨n, hending, rfl⟩
  next => exact absurd hl fail_ne_ok

end Parser

namespace Query

/-- Reading the text stops at the cursor, with a query or with an error. -/
def StopsAt (s : Text) (c : Cursor) : Prop :=
  ∃ first, Cursor.ofLexemes (Lexemes.ofText s) = .ok first ∧
    ((∃ q, Parser.query first = .ok q c) ∨ ∃ e, Parser.query first = .error e c)

/-- What the outcome of reading a text tells of its tokens `ts`, each at its start, and of where
    they end.  Where the text is said to be over, the end is in view and nothing is ahead. -/
def Tells (s : Text) (ts : List (Token × Nat)) (r : Except ScanError Nat) :
    Except ParseError Query → Prop
  | .error (.scan e) => r = .error e
  | .error (.unexpectedToken _ found position) => (found, position) ∈ ts
  | .error (.invalidNumber text position) => (.number text, position) ∈ ts
  | .error (.invalidValue text position) =>
    (.word text, position) ∈ ts ∨ (.dateTime text, position) ∈ ts
  | .error (.unsupported _ position) => ∃ t, (t, position) ∈ ts
  | .error (.unexpectedEnd _) | .ok _ => ∃ n, r = .ok n ∧ StopsAt s ⟨.finish n, .finish n⟩

/-- An error about the lexemes of a text tells of their tokens. -/
theorem tells_of_error {s : Text} {e : ParseError} {first c : Cursor}
    (hfirst : Cursor.ofLexemes (Lexemes.ofText s) = .ok first)
    (h : Parser.query first = .error e c) (he : e.Tells (Lexemes.ofText s) c) :
    Tells s (Lexemes.ofText s).tokens (Lexemes.ofText s).ending (.error e) := by
  cases he with
  | scan hending => exact hending
  | ended _ hending => exact ⟨_, hending, first, hfirst, Or.inr ⟨_, h⟩⟩
  | @complaint _ l _ _ hl he =>
    have hmem : (l.token, l.start) ∈ (Lexemes.ofText s).tokens := List.mem_map_of_mem hl
    revert hmem he
    generalize l.token = t
    intro he hmem
    cases he with
    | unexpected | number => exact hmem
    | word => exact Or.inl hmem
    | dateTime => exact Or.inr hmem
    | unsupported => exact ⟨t, hmem⟩

/-- A text that is read has no scan error. -/
theorem ending_of_parse {s : Text} {q : Query} (h : Query.parse s = .ok q) :
    (Lexemes.ofText s).ending.isOk = true := by
  rw [Query.parse] at h
  cases hfirst : Cursor.ofLexemes (Lexemes.ofText s) with
  | error e => simp [hfirst] at h
  | ok first =>
    simp only [hfirst] at h
    split at h
    · rename_i hquery
      obtain ⟨n, hending, -⟩ := Parser.finish_of_query (X := Lexemes.ofText s)
        Scanner.token_of_mem_lexemes (Cursor.within_of_ofLexemes hfirst) hquery
      rw [hending]
      rfl
    · cases h

/-- **The outcome of reading a text is about its tokens.**  A scan error is the first one that
    scanning comes to; any other error is about a token at its start, or that the text is over;
    and a text is over, for an error as for a query, only when all of it has been scanned and
    read. -/
theorem parse_tells (s : Text) :
    ∃ ts r, (Scanner.ofText s).Scans ts r ∧ Tells s ts r (Query.parse s) := by
  refine ⟨(Lexemes.ofText s).tokens, (Lexemes.ofText s).ending, Scanner.scans_iff.2 ⟨rfl, rfl⟩, ?_⟩
  have htokens : ∀ l ∈ (Lexemes.ofText s).toList, l.token ≠ .finish :=
    Scanner.token_of_mem_lexemes
  cases hfirst : Cursor.ofLexemes (Lexemes.ofText s) with
  | error e =>
    rw [show Query.parse s = .error (.scan e) by simp only [Query.parse, hfirst]]
    exact Cursor.ending_of_ofLexemes hfirst
  | ok first =>
    have hwithin := Cursor.within_of_ofLexemes hfirst
    cases h : Parser.query first with
    | ok q c =>
      rw [show Query.parse s = .ok q by simp only [Query.parse, hfirst, h]]
      obtain ⟨n, hending, rfl⟩ := Parser.finish_of_query htokens hwithin h
      exact ⟨n, hending, first, hfirst, Or.inl ⟨q, h⟩⟩
    | error e c =>
      rw [show Query.parse s = .error e by simp only [Query.parse, hfirst, h]]
      exact tells_of_error hfirst h (Parser.steady_query.tells htokens hwithin h)

end Query

end Soql
