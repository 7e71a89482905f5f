/-
  What a scanner comes to.

  Scanning step by step, without a bound, finds the same tokens at the same
  places and ends in the same way as the sequence of lexemes does.

  * `Scanner.Scans s ts r`: from `s` on, the tokens `ts` come, and then `r`.
  * `Scanner.front_of_next`: a token is at the front of what is left after blanks.
  * `Scanner.length_next`: a token takes characters.
  * `Scanner.scans_iff`: the lexemes are what scanning step by step finds.
-/
import Mathlib
import Soql.Token.Lexemes
import Soql.Proofs.Token.Heads

namespace Soql

/-- The tokens of lexemes, each at its start. -/
def Lexemes.tokens (ls : Lexemes) : List (Token × Nat) :=
  ls.toList.map fun lexeme => (lexeme.token, lexeme.start)

namespace Scanner

/-- From `s` on the scanner reads the tokens `ts`, each at its start, and comes to `r`: the end of
    the text after that many characters, or the first error. -/
inductive Scans : Scanner → List (Token × Nat) → Except ScanError Nat → Prop
  | finish {s s' : Scanner} (h : s.next = (.ok .finish, s')) : Scans s [] (.ok s'.position)
  | error {s s' : Scanner} {e : ScanError} (h : s.next = (.error e, s')) : Scans s [] (.error e)
  | token {s s' : Scanner} {t : Token} {ts : List (Token × Nat)} {r : Except ScanError Nat}
    (h : s.next = (.ok t, s')) (ht : t ≠ .finish) (hs : Scans s' ts r) :
    Scans s ((t, s'.tokenStart) :: ts) r

theorem front_of_next {s s' : Scanner} {t : Token} (h : s.next = (.ok t, s')) (ht : t ≠ .finish) :
    ∃ c rest, s.skipBlanks.rest = c :: rest ∧ front c rest = .token t s'.rest := by
  unfold next at h
  cases hrest : s.skipBlanks.rest with
  | nil =>
    simp only [hrest, Prod.mk.injEq, Except.ok.injEq] at h
    exact absurd h.1.symm ht
  | cons c rest =>
    simp only [hrest] at h
    cases hf : front c rest with
    | token t' r =>
      simp only [hf, Prod.mk.injEq, Except.ok.injEq] at h
      obtain ⟨rfl, rfl⟩ := h
      exact ⟨c, rest, rfl, hf⟩
    | _ => simp [hf] at h

/-- A token takes at least one character. -/
theorem length_next {s s' : Scanner} {t : Token} (h : s.next = (.ok t, s')) (ht : t ≠ .finish) :
    s'.rest.length < s.rest.length := by
  have hblanks : s.skipBlanks.rest.length ≤ s.rest.length := by
    rw [skipBlanks]
    exact (List.dropWhile_sublist _).length_le
  obtain ⟨c, rest, hrest, hf⟩ := front_of_next h ht
  obtain ⟨cs, -, rfl⟩ := front_eq_token hf
  rw [hrest, List.length_cons, List.length_append] at hblanks
  omega

theorem lexemesUpTo_error {s s' : Scanner} {e : ScanError} (h : s.next = (.error e, s')) (n : Nat) :
    s.lexemesUpTo (n + 1) = .broken e s'.position ∨ s.lexemesUpTo (n + 1) = .stuck e := by
  obtain ⟨text, rest, position, start⟩ := s'
  cases rest with
  | nil => exact Or.inl (by simp only [lexemesUpTo, h])
  | cons c rest => exact Or.inr (by simp only [lexemesUpTo, h])

theorem scans_lexemesUpTo {s : Scanner} {n : Nat} (hn : s.rest.length < n) :
    s.Scans (s.lexemesUpTo n).tokens (s.lexemesUpTo n).ending := by
  induction n generalizing s with
  | zero => cases hn
  | succ n ih =>
    cases h : s.next with
    | mk r s' =>
      cases r with
      | error e =>
        rcases lexemesUpTo_error h n with he | he <;> rw [he] <;> exact .error h
      | ok t =>
        by_cases ht : t = .finish
        · subst ht
          have hs : s.lexemesUpTo (n + 1) = .finish s'.position := by simp only [lexemesUpTo, h]
          rw [hs]
          exact .finish h
        · have hs : s.lexemesUpTo (n + 1) =
              .next ⟨t, s'.tokenStart, s'.position, s.skipBlanks.rest⟩ (s'.lexemesUpTo n) := by
            simp only [lexemesUpTo, h]
          rw [hs]
          exact .token h ht (ih (by have := length_next h ht; omega))

theorem Scans.unique {s : Scanner} {ts ts' : List (Token × Nat)} {r r' : Except ScanError Nat}
    (h : s.Scans ts r) (h' : s.Scans ts' r') : ts = ts' ∧ r = r' := by
  induction h generalizing ts' with
  | finish h =>
    cases h' with
    | finish h' =>
      cases h.symm.trans h'
      exact ⟨rfl, rfl⟩
    | error h' => cases h.symm.trans h'
    | token h' ht =>
      cases h.symm.trans h'
      exact absurd rfl ht
  | error h =>
    cases h' with
    | error h' =>
      cases h.symm.trans h'
      exact ⟨rfl, rfl⟩
    | finish h' | token h' => cases h.symm.trans h'
  | token h ht _ ih =>
    cases h' with
    | token h' _ hs' =>
      cases h.symm.trans h'
      obtain ⟨rfl, rfl⟩ := ih hs'
      exact ⟨rfl, rfl⟩
    | finish h' =>
      cases h.symm.trans h'
      exact absurd rfl ht
    | error h' => cases h.symm.trans h'

/-- **The lexemes are what scanning step by step finds.** -/
theorem scans_iff {s : Scanner} {ts : List (Token × Nat)} {r : Except ScanError Nat} :
    s.Scans ts r ↔ ts = s.lexemes.tokens ∧ r = s.lexemes.ending := by
  have hs : s.Scans s.lexemes.tokens s.lexemes.ending := scans_lexemesUpTo (Nat.lt_succ_self _)
  constructor
  · exact fun h => h.unique hs
  · rintro ⟨rfl, rfl⟩
    exact hs

/-- No lexeme before the end is the end of the text. -/
theorem token_of_mem_lexemes {s : Scanner} : ∀ l ∈ s.lexemes.toList, l.token ≠ .finish := by
  have htokens {ts : List (Token × Nat)} {r : Except ScanError Nat} (h : s.Scans ts r) :
      ∀ x ∈ ts, x.1 ≠ .finish := by
    induction h with
    | finish | error => simp
    | token _ ht _ ih => exact List.forall_mem_cons.2 ⟨ht, ih⟩
  exact fun l hl => htokens (scans_iff.2 ⟨rfl, rfl⟩) _ (List.mem_map_of_mem hl)

end Scanner

end Soql
