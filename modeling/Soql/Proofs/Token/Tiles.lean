/-
  Scanning tiles a text.

  Whatever a text is, and whether its tokens can be read or not, the calls of
  a scanner cover it from the front: each starts where the one before stopped,
  passes over blanks and takes the spelling of its token, nothing else.

  * `Scanner.afterCalls text n`: the scanner of a text after `n` calls.
  * `Scanner.InPlace`: what is left to read is the text from the position on.
  * `Scanner.Moves`: all that one call can do.
  * `Scanner.Tiles`: what a call answers for the part of the text it took.
  * `Scanner.afterCalls_tiles`: every call tiles, also after errors, and the
    answers that take nothing come again for good.
-/
import Mathlib
import Soql.Token.Scan
import Soql.Proofs.Token.Heads

namespace Soql

open Unicode

/-- Where the scanner was when it found the error. -/
def ScanError.position : ScanError → Nat
  | unexpectedCharacter _ position => position
  | unterminatedString position => position
  | incompleteOperator position => position

namespace Scanner

/-- The scanner of a text after `n` calls, whatever they answered. -/
def afterCalls (text : Text) (n : Nat) : Scanner := (fun s => s.next.2)^[n] (ofText text)

theorem afterCalls_succ (text : Text) (n : Nat) :
    afterCalls text (n + 1) = (afterCalls text n).next.2 :=
  Function.iterate_succ_apply' ..

/-! ## The place of a scanner in its text -/

/-- The scanner has read the text up to its position, and the last token starts before that. -/
structure InPlace (s : Scanner) : Prop where
  rest : s.rest = s.text.drop s.position
  start : s.tokenStart ≤ s.position
  position : s.position ≤ s.text.length

theorem inPlace_ofText (text : Text) : (ofText text).InPlace := ⟨rfl, le_rfl, Nat.zero_le _⟩

theorem InPlace.length {s : Scanner} (h : s.InPlace) :
    s.position + s.rest.length = s.text.length := by
  rw [h.rest, List.length_drop]
  exact Nat.add_sub_cancel' h.position

/-- Reading the front `u` of the rest moves the position by its length. -/
theorem InPlace.move {s : Scanner} {u r : Text} (h : s.InPlace) (hu : s.rest = u ++ r) :
    InPlace { s with rest := r, position := s.position + u.length } where
  rest := by rw [← List.drop_drop, ← h.rest, hu, List.drop_left]
  start := Nat.le_trans h.start (Nat.le_add_right ..)
  position := by
    have := h.length
    rw [hu, List.length_append] at this
    change s.position + u.length ≤ s.text.length
    omega

/-- The text between the position and the end of the front `u` of the rest is `u`. -/
theorem InPlace.slice_move {s : Scanner} {u r : Text} (h : s.InPlace) (hu : s.rest = u ++ r) :
    s.slice s.position (s.position + u.length) = u := by
  rw [slice, List.drop_take, ← h.rest, hu, Nat.add_sub_cancel_left, List.take_left]

/-! ## Blanks -/

section skipBlanks

variable (s : Scanner)

@[simp] theorem text_skipBlanks : s.skipBlanks.text = s.text := rfl

@[simp] theorem tokenStart_skipBlanks : s.skipBlanks.tokenStart = s.skipBlanks.position := rfl

theorem rest_eq_blanks : s.rest = s.rest.takeWhile isBlank ++ s.skipBlanks.rest :=
  List.takeWhile_append_dropWhile.symm

/-- Behind the blanks there are none to skip. -/
@[simp] theorem skipBlanks_skipBlanks : s.skipBlanks.skipBlanks = s.skipBlanks := by
  have hstop : s.skipBlanks.rest.takeWhile isBlank = [] := by
    have := stops_dropWhile isBlank s.rest
    rw [skipBlanks]
    cases hr : s.rest.dropWhile isBlank with
    | nil => rfl
    | cons c r =>
      rw [hr, stops_cons] at this
      simp [this]
  have hrest : s.skipBlanks.rest.dropWhile isBlank = s.skipBlanks.rest := by
    conv_rhs => rw [← List.takeWhile_append_dropWhile (p := isBlank) (l := s.skipBlanks.rest)]
    rw [hstop, List.nil_append]
  rw [skipBlanks, hstop, hrest]
  rfl

theorem next_skipBlanks : s.skipBlanks.next = s.next := by
  rw [next, skipBlanks_skipBlanks, next]

/-- All of the rest is blank iff nothing stands behind the blanks. -/
theorem skipBlanks_rest_eq_nil : s.skipBlanks.rest = [] ↔ ∀ c ∈ s.rest, isBlank c = true :=
  List.dropWhile_eq_nil_iff

end skipBlanks

theorem InPlace.skipBlanks {s : Scanner} (h : s.InPlace) : s.skipBlanks.InPlace where
  rest := (h.move s.rest_eq_blanks).rest
  start := le_rfl
  position := (h.move s.rest_eq_blanks).position

/-! ## One call -/

/-- All that a call of the scanner `s` can do: what it answers, and the scanner after it. -/
inductive Moves (s : Scanner) : Except ScanError Token → Scanner → Prop
  | finish (h : s.skipBlanks.rest = []) : Moves s (.ok .finish) s.skipBlanks
  | token {t : Token} {r : Text} (ht : t.spelling ≠ []) (h : s.skipBlanks.rest = t.spelling ++ r) :
    Moves s (.ok t)
      { s.skipBlanks with rest := r, position := s.skipBlanks.position + t.spelling.length }
  | unexpected {c : Char} {r : Text} (h : s.skipBlanks.rest = c :: r) :
    Moves s (.error (.unexpectedCharacter c s.skipBlanks.position)) s.skipBlanks
  | incomplete {c : Char} {r : Text} (h : s.skipBlanks.rest = c :: r) :
    Moves s (.error (.incompleteOperator s.skipBlanks.position)) s.skipBlanks
  | unterminated {c : Char} {r : Text} (h : s.skipBlanks.rest = c :: r) :
    Moves s (.error (.unterminatedString s.skipBlanks.position))
      { s.skipBlanks with rest := [], position := s.skipBlanks.position + s.skipBlanks.rest.length }

theorem next_moves (s : Scanner) : s.Moves s.next.1 s.next.2 := by
  rw [next]
  cases hr : s.skipBlanks.rest with
  | nil => exact .finish hr
  | cons c r =>
    simp only
    cases hf : front c r with
    | token t r' =>
      obtain ⟨cs, hs, rfl⟩ := front_eq_token hf
      exact .token (by simp [hs]) (by rw [hr, hs, List.cons_append])
    | unexpected => exact .unexpected hr
    | incomplete => exact .incomplete hr
    | unterminated => rw [← hr]; exact .unterminated hr

theorem Moves.inPlace {s s' : Scanner} {r : Except ScanError Token} (h : s.Moves r s')
    (hs : s.InPlace) : s'.InPlace := by
  cases h with
  | finish | unexpected | incomplete => exact hs.skipBlanks
  | token _ h => exact hs.skipBlanks.move h
  | unterminated h => exact hs.skipBlanks.move (List.append_nil _).symm

/-- Whether a call with this answer leaves the scanner where it looked for the token. -/
def Stays : Except ScanError Token → Prop
  | .ok t => t = .finish
  | .error (.unterminatedString _) => False
  | .error _ => True

theorem Moves.stays {s s' : Scanner} {r : Except ScanError Token} (h : s.Moves r s')
    (hr : Stays r) : s' = s.skipBlanks := by
  cases h with
  | finish | unexpected | incomplete => rfl
  | token ht => exact absurd (congrArg Token.spelling hr) ht
  | unterminated => exact hr.elim

/-- Where one call stays, all later ones give the same answer. -/
theorem next_iterate {s : Scanner} (h : Stays s.next.1) (k : Nat) :
    ((fun s => s.next.2)^[k] s).next.1 = s.next.1 := by
  induction k with
  | zero => rfl
  | succ k ih =>
    have hstay := (next_moves ((fun s => s.next.2)^[k] s)).stays (by rwa [ih])
    rw [Function.iterate_succ_apply', hstay, next_skipBlanks, ih]

/-- What a call answers for the part of the text that it took: the scanner was `s` before, and is
    `s'` now. -/
structure Tiles (s : Scanner) (r : Except ScanError Token) (s' : Scanner) : Prop where
  text : s'.text = s.text
  /-- Only blanks stand between two tokens. -/
  gap : s.position ≤ s'.tokenStart
  blank : ∀ c ∈ s'.slice s.position s'.tokenStart, isBlank c = true
  start : s'.tokenStart ≤ s'.position
  position : s'.position ≤ s'.text.length
  /-- A token is its spelling, which has at least one character. -/
  token : ∀ t, r = .ok t → t ≠ .finish →
    s'.tokenStart < s'.position ∧ s'.slice s'.tokenStart s'.position = t.spelling
  /-- The end comes where only blanks are left. -/
  finish : r = .ok .finish ↔ ∀ c ∈ s.text.drop s.position, isBlank c = true
  error : ∀ e, r = .error e → e.position = s'.tokenStart
  /-- Most errors take no characters; a string literal that is not closed takes the whole rest. -/
  unexpected : ∀ c i, r = .error (.unexpectedCharacter c i) → s'.position = s'.tokenStart
  incomplete : ∀ i, r = .error (.incompleteOperator i) → s'.position = s'.tokenStart
  unterminated : ∀ i, r = .error (.unterminatedString i) → s'.position = s'.text.length

theorem Moves.tiles {s s' : Scanner} {r : Except ScanError Token} (h : s.Moves r s')
    (hs : s.InPlace) : s.Tiles r s' := by
  have hplace := h.inPlace hs
  have hblank : ∀ c ∈ s.skipBlanks.slice s.position s.skipBlanks.position, isBlank c = true := by
    have : s.slice s.position s.skipBlanks.position = s.rest.takeWhile isBlank :=
      hs.slice_move s.rest_eq_blanks
    intro c hc
    exact List.mem_takeWhile_imp (this ▸ hc)
  have hgap : s.position ≤ s.skipBlanks.position := Nat.le_add_right ..
  have hnil := s.skipBlanks_rest_eq_nil
  rw [hs.rest] at hnil
  cases h with
  | finish h =>
    exact ⟨rfl, hgap, hblank, hplace.start, hplace.position, by simp, by simp [← hnil, h],
      by simp, by simp, by simp, by simp⟩
  | @token t r ht h =>
    have hlength : 0 < t.spelling.length := List.length_pos_of_ne_nil ht
    have hfinish : t ≠ .finish := fun hf => ht (congrArg Token.spelling hf)
    refine ⟨rfl, hgap, hblank, hplace.start, hplace.position, ?_, ?_, by simp, by simp, by simp,
      by simp⟩
    · rintro _ ⟨⟩ -
      exact ⟨Nat.lt_add_of_pos_right hlength, hs.skipBlanks.slice_move h⟩
    · simp [← hnil, h, ht, hfinish]
  | unexpected h | incomplete h =>
    exact ⟨rfl, hgap, hblank, hplace.start, hplace.position, by simp, by simp [← hnil, h],
      by rintro _ ⟨⟩; rfl, by simp, by simp, by simp⟩
  | unterminated h =>
    exact ⟨rfl, hgap, hblank, hplace.start, hplace.position, by simp, by simp [← hnil, h],
      by rintro _ ⟨⟩; rfl, by simp, by simp, fun _ _ => hs.skipBlanks.length⟩

/-! ## All calls -/

theorem inPlace_afterCalls (text : Text) (n : Nat) : (afterCalls text n).InPlace := by
  induction n with
  | zero => exact inPlace_ofText text
  | succ n ih =>
    rw [afterCalls_succ]
    exact (next_moves _).inPlace ih

theorem text_afterCalls (text : Text) (n : Nat) : (afterCalls text n).text = text := by
  induction n with
  | zero => rfl
  | succ n ih =>
    rw [afterCalls_succ, ((next_moves _).tiles (inPlace_afterCalls text n)).text, ih]

/-- **Scanning tiles the text**: of any text, and after any number of calls, the next call starts
    where the last one stopped, passes over blanks, and answers with the token whose spelling it
    takes, with the end when only blanks are left, or with an error at the place it has come to.
    At the end, and at a character that starts no token, all later calls answer the same. -/
theorem afterCalls_tiles (text : Text) (n : Nat) :
    (afterCalls text n).text = text ∧
      (afterCalls text n).Tiles (afterCalls text n).next.1 (afterCalls text (n + 1)) ∧
      (Stays (afterCalls text n).next.1 →
        ∀ m, n ≤ m → (afterCalls text m).next.1 = (afterCalls text n).next.1) := by
  refine ⟨text_afterCalls text n, ?_, fun h m hm => ?_⟩
  · rw [afterCalls_succ]
    exact (next_moves _).tiles (inPlace_afterCalls text n)
  · obtain ⟨k, rfl⟩ := Nat.exists_eq_add_of_le hm
    rw [← next_iterate h k, afterCalls, afterCalls, Nat.add_comm, Function.iterate_add_apply]

/-- A lone exclamation mark behind a word is met by every call but the first. -/
theorem afterCalls_tiles_stuck :
    ∀ m, 1 ≤ m → (afterCalls "Id ! 'x'" m).next.1 = .error (.incompleteOperator 3) := by
  have h : (afterCalls "Id ! 'x'" 1).next.1 = .error (.incompleteOperator 3) := by decide_cbv
  intro m hm
  rw [(afterCalls_tiles "Id ! 'x'" 1).2.2 (by rw [h]; trivial) m hm, h]

end Scanner

end Soql
