/-
  String literals, written and scanned.

  A string is written between quotes unless it starts with one, whatever else
  stands in it.  The scanner goes by the backslashes, so only some strings are
  one literal again; the others end early, or never.

  * `Text.isClosed`: no quote stands in the text but behind a backslash, and
    no backslash at its end.
  * `readString_iff`: what is inside a literal is closed, and what is closed
    is a literal with a quote behind it.
  * `LiteralKind.scans_render_string_iff`: which strings are written as one
    literal, and of which text.
-/
import Mathlib
import Soql.Literal.Basic
import Soql.Proofs.Token.Scans
import Soql.Proofs.Token.Tiles

namespace Soql

open Unicode

/-! ## Closed text -/

/-- Whether no quote stands in the text but behind a backslash, and no backslash at its end.  A
    backslash takes the next character along, so the second of two takes none. -/
def Text.isClosed : Text → Bool
  | [] => true
  | '\'' :: _ => false
  | ['\\'] => false
  | '\\' :: _ :: t => isClosed t
  | _ :: t => isClosed t

theorem Text.isClosed_cons {c : Char} (t : Text) (hquote : c ≠ '\'') (hbackslash : c ≠ '\\') :
    Text.isClosed (c :: t) = Text.isClosed t := by
  cases t <;> simp [Text.isClosed, hbackslash]

theorem readString_cons {c : Char} (t : Text) (hquote : c ≠ '\'') (hbackslash : c ≠ '\\') :
    readString (c :: t) = (readString t).map fun (inside, after) => (c :: inside, after) := by
  cases t <;> simp [readString, hbackslash]

theorem isClosed_of_readString {t s rest : Text} (h : readString t = some (s, rest)) :
    s.isClosed = true := by
  fun_induction readString t generalizing s rest with
  | case1 => cases h
  | case2 => cases h; rfl
  | case3 => cases h
  | case4 c t ih =>
    obtain ⟨⟨s', r⟩, hs, heq⟩ := Option.map_eq_some_iff.1 h
    obtain ⟨rfl, rfl⟩ := Prod.mk.inj heq
    rw [Text.isClosed]
    exact ih hs
  | case5 c t hquote hend hbackslash ih =>
    obtain ⟨⟨s', r⟩, hs, heq⟩ := Option.map_eq_some_iff.1 h
    obtain ⟨rfl, rfl⟩ := Prod.mk.inj heq
    have hc : c ≠ '\\' := by
      rintro rfl
      cases t with
      | nil => exact hend rfl rfl
      | cons d t => exact hbackslash d t rfl rfl
    rw [Text.isClosed_cons _ hquote hc]
    exact ih hs

theorem readString_of_isClosed {s : Text} (h : s.isClosed = true) (rest : Text) :
    readString (s ++ '\'' :: rest) = some (s, rest) := by
  fun_induction Text.isClosed s with
  | case1 => rfl
  | case2 => cases h
  | case3 => cases h
  | case4 c t ih => simp [readString, ih h]
  | case5 c t hquote hend hbackslash ih =>
    have hc : c ≠ '\\' := by
      rintro rfl
      cases t with
      | nil => exact hend rfl rfl
      | cons d t => exact hbackslash d t rfl rfl
    rw [List.cons_append, readString_cons _ hquote hc, ih h]
    rfl

/-- **A literal is closed text with a quote behind it**: up to there it is read, whatever the text
    goes on with. -/
theorem readString_iff {t s rest : Text} :
    readString t = some (s, rest) ↔ s.isClosed = true ∧ t = s ++ '\'' :: rest := by
  constructor
  · exact fun h => ⟨isClosed_of_readString h, (readString_eq h).1⟩
  · rintro ⟨h, rfl⟩
    exact readString_of_isClosed h rest

/-! ## Texts of one literal -/

theorem isBlank_quote : isBlank '\'' = false := by decide

namespace Scanner

/-- The scanner finds the end where only blanks are left. -/
theorem next_eq_finish_iff (s : Scanner) :
    s.next.1 = .ok .finish ↔ ∀ c ∈ s.rest, isBlank c = true := by
  rw [← s.skipBlanks_rest_eq_nil]
  have hmoves := s.next_moves
  generalize s.next.1 = answer, s.next.2 = after at hmoves
  cases hmoves with
  | finish h => simp [h]
  | token ht h =>
    have hfinish : _ ≠ Token.finish := fun hf => ht (congrArg Token.spelling hf)
    simp [h, ht, hfinish]
  | unexpected h | incomplete h | unterminated h => simp [h]

/-- A text that starts with a quote is read by the reader of literals. -/
theorem next_quote (t : Text) :
    (ofText ('\'' :: t)).next = match readString t with
      | some (inside, rest) =>
        (.ok (.string inside), ⟨'\'' :: t, rest, (Token.string inside).spelling.length, 0⟩)
      | none => (.error (.unterminatedString 0), ⟨'\'' :: t, [], t.length + 1, 0⟩) := by
  have hskip : (ofText ('\'' :: t)).skipBlanks = ofText ('\'' :: t) := by
    simp [ofText, skipBlanks, isBlank_quote]
  rw [next, hskip]
  cases h : readString t <;> simp [ofText, front, h]

/-- A text that starts with a quote is one literal iff its text is closed and only blanks stand
    behind the quote that closes it. -/
theorem scans_quote_iff (t w : Text) :
    (∃ start stop, (ofText ('\'' :: t)).Scans [(.string w, start)] (.ok stop)) ↔
      ∃ blanks, w.isClosed = true ∧ t = w ++ '\'' :: blanks ∧ ∀ c ∈ blanks, isBlank c = true := by
  have hnext := next_quote t
  constructor
  · rintro ⟨start, stop, h⟩
    cases h with
    | token h ht hs =>
      cases hr : readString t with
      | none => rw [hnext, hr] at h; cases h
      | some read =>
        obtain ⟨inside, rest⟩ := read
        rw [hnext, hr] at h
        cases h
        obtain ⟨hclosed, ht⟩ := readString_iff.1 hr
        cases hs with
        | finish h => exact ⟨rest, hclosed, ht, (next_eq_finish_iff _).1 (congrArg Prod.fst h)⟩
  · rintro ⟨blanks, hclosed, ht, hblanks⟩
    rw [readString_iff.2 ⟨hclosed, ht⟩] at hnext
    exact ⟨_, _, .token hnext (by simp)
      (.finish (Prod.ext ((next_eq_finish_iff _).2 hblanks) rfl))⟩

end Scanner

/-- **Which strings are written as one literal**: those that are closed, of their own text, and
    those that already are a literal of closed text with at most blanks behind it, of that text.
    All other strings are written as no token, or as more than one. -/
theorem LiteralKind.scans_render_string_iff (v w : Text) :
    (∃ start stop, (Scanner.ofText (LiteralKind.string.render v)).Scans
        [(.string w, start)] (.ok stop)) ↔
      (v.head? ≠ some '\'' ∧ v.isClosed = true ∧ w = v) ∨
        ∃ blanks, v = '\'' :: w ++ '\'' :: blanks ∧ w.isClosed = true ∧
          ∀ c ∈ blanks, isBlank c = true := by
  by_cases hv : v.head? = some '\''
  · obtain ⟨t, rfl⟩ : ∃ t, v = '\'' :: t := by
      cases v with
      | nil => cases hv
      | cons c t => cases hv; exact ⟨t, rfl⟩
    have hrender : LiteralKind.string.render ('\'' :: t) = '\'' :: t := rfl
    rw [hrender, Scanner.scans_quote_iff]
    simp [and_left_comm]
  · have hrender : LiteralKind.string.render v = '\'' :: (v ++ ['\'']) := by
      cases v with
      | nil => rfl
      | cons c t =>
        have : c ≠ '\'' := fun h => hv (by rw [h]; rfl)
        simp [LiteralKind.render, this]
    rw [hrender, Scanner.scans_quote_iff]
    constructor
    · rintro ⟨blanks, hclosed, ht, hblanks⟩
      left
      -- The quote at the end is no blank, so it is the one that closes the literal.
      cases blanks using List.reverseRecOn with
      | nil =>
        obtain rfl : v = w := List.append_cancel_right ht
        exact ⟨hv, hclosed, rfl⟩
      | append_singleton blanks c =>
        have hc : '\'' = c := by
          have hends := congrArg List.getLast? ht
          rw [← List.cons_append, ← List.append_assoc, List.getLast?_concat,
            List.getLast?_concat] at hends
          exact Option.some.inj hends
        have := hblanks c (by simp)
        rw [← hc, isBlank_quote] at this
        cases this
    · rintro (⟨-, hclosed, rfl⟩ | ⟨blanks, rfl, -, -⟩)
      · exact ⟨[], hclosed, rfl, by simp⟩
      · exact absurd rfl hv

end Soql
