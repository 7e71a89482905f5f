/-
  Tokens at the front of a text.

  A token stands at the front of its own spelling, and still does when text
  follows that does not make it longer.  So tokens are read back from any text
  that keeps them apart.

  * `Token.Heads t rest`: the spelling of `t`, followed by `rest`, is read as
    `t` and leaves `rest`.
  * `Token.goesOn t rest`: whether `rest` makes the token longer.
  * `Token.heads_iff`: a token heads what follows it iff it heads nothing at
    all and is not made longer.
  * `front_eq_token`: the scanner cuts the text into a spelling and the rest.
-/
import Mathlib
import Soql.Token.Lexemes

namespace Soql

open Unicode

/-- The spelling of the token is read as the token where `rest` follows it. -/
def Token.Heads (t : Token) (rest : Text) : Prop :=
  ∃ c cs, t.spelling = c :: cs ∧ front c (cs ++ rest) = .token t rest

/-- Whether a text starts with a decimal point and a digit. -/
def opensFraction : Text → Bool
  | '.' :: d :: _ => d.isDigit
  | _ => false

/-- Whether the text after a token makes it longer. -/
def Token.goesOn : Token → Text → Bool
  | .word w, c :: rest =>
    if w.contains '.' then c.isDigit
    else isWordPart c || (isCurrencyWord w && opensFraction (c :: rest))
  | .number n, c :: rest =>
    c.isDigit || (!n.contains '.' && opensFraction (c :: rest))
      || (n.length == 4 && n.all Char.isDigit && goesOnAsDate (c :: rest))
  | .dateTime _, c :: _ => isDatePart c
  | .less, c :: _ => c == '=' || c == '>'
  | .greater, c :: _ => c == '='
  | _, _ => false

/-! ## Characters -/

set_option maxRecDepth 20000 in
theorem isWordPart_of_isBlank {c : Char} (h : isBlank c) : isWordPart c = false := by
  have all : blanks.all (fun c => !isWordPart c) = true := by decide +kernel
  have := List.all_eq_true.1 all c (List.contains_iff_mem.1 h)
  rwa [Bool.not_eq_true'] at this

set_option maxRecDepth 20000 in
theorem isDatePart_of_isBlank {c : Char} (h : isBlank c) : isDatePart c = false := by
  have all : blanks.all (fun c => !isDatePart c) = true := by decide +kernel
  have := List.all_eq_true.1 all c (List.contains_iff_mem.1 h)
  rwa [Bool.not_eq_true'] at this

theorem isDatePart_of_isDigit {c : Char} (h : c.isDigit) : isDatePart c = true := by
  simp [isDatePart, h]

theorem toNat_of_isDigit {c : Char} (h : c.isDigit) : 48 ≤ c.toNat ∧ c.toNat ≤ 57 := by
  simp only [Char.isDigit, Bool.and_eq_true, decide_eq_true_eq, UInt32.le_iff_toNat_le,
    ge_iff_le] at h
  exact h

theorem isAscii_of_isDigit {c : Char} (h : c.isDigit) : isAscii c = true := by
  have := toNat_of_isDigit h
  simp only [isAscii, decide_eq_true_eq]
  omega

theorem isWordPart_of_isDigit {c : Char} (h : c.isDigit) : isWordPart c = true := by
  simp [isWordPart, isNumeric, isAscii_of_isDigit h, h]

theorem toNat_of_isAlpha {c : Char} (h : c.isAlpha) :
    (65 ≤ c.toNat ∧ c.toNat ≤ 90) ∨ (97 ≤ c.toNat ∧ c.toNat ≤ 122) := by
  simp only [Char.isAlpha, Char.isUpper, Char.isLower, Bool.and_eq_true, Bool.or_eq_true,
    decide_eq_true_eq, UInt32.le_iff_toNat_le, ge_iff_le] at h
  exact h

theorem isDigit_of_isAlpha {c : Char} (h : c.isAlpha) : c.isDigit = false := by
  by_contra hd
  have hn := toNat_of_isDigit (by simpa using hd)
  have := toNat_of_isAlpha h
  omega

theorem isDigit_of_isWordStart {c : Char} (h : isWordStart c) : c.isDigit = false := by
  by_contra hd
  rw [Bool.not_eq_false] at hd
  simp only [isWordStart, isAlphabetic, isAscii_of_isDigit hd, if_true, Bool.or_eq_true,
    beq_iff_eq] at h
  rcases h with h | rfl
  · rw [isDigit_of_isAlpha h] at hd
    exact Bool.noConfusion hd
  · exact absurd hd (by decide)

theorem isWordPart_of_isWordStart {c : Char} (h : isWordStart c) : isWordPart c = true := by
  simp only [isWordStart, isWordPart, Bool.or_eq_true] at h ⊢
  tauto

/-! ## Runs of characters -/

/-- The text does not start with a character of the class. -/
def Stops (p : Char → Bool) (t : Text) : Prop := ∀ c ∈ t.head?, p c = false

@[simp] theorem stops_nil (p : Char → Bool) : Stops p [] := by simp [Stops]

@[simp] theorem stops_cons (p : Char → Bool) (c : Char) (t : Text) :
    Stops p (c :: t) ↔ p c = false := by simp [Stops]

theorem span_append {p : Char → Bool} {u r : Text} (hu : ∀ c ∈ u, p c) (hr : Stops p r) :
    (u ++ r).takeWhile p = u ∧ (u ++ r).dropWhile p = r := by
  rw [List.takeWhile_append_of_pos hu, List.dropWhile_append_of_pos hu]
  cases r with
  | nil => simp
  | cons c r =>
    rw [stops_cons] at hr
    simp [hr]

theorem stops_dropWhile (p : Char → Bool) (t : Text) : Stops p (t.dropWhile p) := by
  intro c hc
  have := List.head?_dropWhile_not p t
  rw [Option.mem_def.1 hc] at this
  simpa using this

/-- A decimal point with at least one digit after it. -/
def IsFraction (f : Text) : Prop := ∃ d ds, f = '.' :: d :: ds ∧ d.isDigit ∧ ∀ c ∈ ds, c.isDigit

theorem readFraction_of_isFraction {f r : Text} (hf : IsFraction f) (hr : Stops Char.isDigit r) :
    readFraction (f ++ r) = (f, r) := by
  obtain ⟨d, ds, rfl, hd, hds⟩ := hf
  obtain ⟨h1, h2⟩ := span_append hds hr
  simp [readFraction, hd, h1, h2]

theorem readFraction_of_not_opens {r : Text} (hr : opensFraction r = false) :
    readFraction r = ([], r) := by
  unfold readFraction
  split
  · simp_all [opensFraction]
  · rfl

theorem readFraction_cases (t : Text) :
    (opensFraction t = false ∧ readFraction t = ([], t)) ∨
      ∃ f r, t = f ++ r ∧ IsFraction f ∧ Stops Char.isDigit r ∧ readFraction t = (f, r) := by
  by_cases h : opensFraction t = true
  · unfold opensFraction at h
    split at h
    · rename_i d rest
      right
      refine ⟨'.' :: d :: rest.takeWhile Char.isDigit, rest.dropWhile Char.isDigit, ?_, ?_,
        stops_dropWhile _ _, ?_⟩
      · simp [List.takeWhile_append_dropWhile]
      · exact ⟨d, _, rfl, h, fun c hc => List.mem_takeWhile_imp hc⟩
      · simp [readFraction, h]
    · simp at h
  · exact Or.inl ⟨by simpa using h, readFraction_of_not_opens (by simpa using h)⟩

/-! ## Words -/

theorem isWordPart_dot : isWordPart '.' = false := by decide

/-- A word stops after `u` and its fraction `f`, where `rest` follows. -/
def WordStops (u f rest : Text) : Prop :=
  (f = [] ∧ Stops isWordPart rest ∧ (isCurrencyWord u → opensFraction rest = false)) ∨
    (isCurrencyWord u ∧ IsFraction f ∧ Stops Char.isDigit rest)

theorem WordStops.stops {u f rest : Text} (h : WordStops u f rest) :
    Stops isWordPart (f ++ rest) := by
  rcases h with ⟨rfl, h, -⟩ | ⟨-, ⟨d, ds, rfl, -⟩, -⟩
  · exact h
  · simp [isWordPart_dot]

theorem readWord_append {u f rest : Text} (hu : ∀ c ∈ u, isWordPart c)
    (h : WordStops u f rest) : readWord (u ++ f ++ rest) = (u ++ f, rest) := by
  obtain ⟨h1, h2⟩ := span_append hu h.stops
  unfold readWord
  rw [List.append_assoc, h1, h2]
  rcases h with ⟨rfl, -, h⟩ | ⟨hc, hf, hr⟩
  · by_cases hc : isCurrencyWord u = true
    · simp [hc, readFraction_of_not_opens (h hc)]
    · simp [hc]
  · simp [hc, readFraction_of_isFraction hf hr]

theorem readWord_cases (t : Text) :
    ∃ u f rest, t = u ++ f ++ rest ∧ (∀ c ∈ u, isWordPart c) ∧ WordStops u f rest ∧
      readWord t = (u ++ f, rest) := by
  have hu : ∀ c ∈ t.takeWhile isWordPart, isWordPart c := fun c hc => List.mem_takeWhile_imp hc
  have ht : t = t.takeWhile isWordPart ++ t.dropWhile isWordPart :=
    List.takeWhile_append_dropWhile.symm
  have hs := stops_dropWhile isWordPart t
  rcases readFraction_cases (t.dropWhile isWordPart) with ⟨ho, -⟩ | ⟨f, r, hr, hf, hd, -⟩
  · have h : WordStops (t.takeWhile isWordPart) [] (t.dropWhile isWordPart) :=
      Or.inl ⟨rfl, hs, fun _ => ho⟩
    refine ⟨_, [], _, by simp, hu, h, ?_⟩
    rw [← readWord_append hu h, List.append_nil, ← ht]
  · by_cases hc : isCurrencyWord (t.takeWhile isWordPart) = true
    · have h : WordStops (t.takeWhile isWordPart) f r := Or.inr ⟨hc, hf, hd⟩
      have ht' : t = t.takeWhile isWordPart ++ f ++ r := by rw [List.append_assoc, ← hr]; exact ht
      refine ⟨_, f, r, ht', hu, h, ?_⟩
      rw [← readWord_append hu h, ← ht']
    · have h : WordStops (t.takeWhile isWordPart) [] (t.dropWhile isWordPart) :=
        Or.inl ⟨rfl, hs, fun h => absurd h hc⟩
      refine ⟨_, [], _, by simp, hu, h, ?_⟩
      rw [← readWord_append hu h, List.append_nil, ← ht]

/-! ## Numbers and dates -/

/-- A number stops after its sign, its digits `u` and its fraction `f`, where `rest` follows. -/
def NumberStops (f rest : Text) : Prop :=
  (f = [] ∧ Stops Char.isDigit rest ∧ opensFraction rest = false) ∨
    (IsFraction f ∧ Stops Char.isDigit rest)

theorem NumberStops.stops {f rest : Text} (h : NumberStops f rest) :
    Stops Char.isDigit (f ++ rest) := by
  rcases h with ⟨rfl, h, -⟩ | ⟨⟨d, ds, rfl, -⟩, -⟩
  · exact h
  · simp [show Char.isDigit '.' = false from rfl]

theorem NumberStops.readFraction {f rest : Text} (h : NumberStops f rest) :
    readFraction (f ++ rest) = (f, rest) := by
  rcases h with ⟨rfl, -, h⟩ | ⟨hf, hr⟩
  · exact readFraction_of_not_opens h
  · exact readFraction_of_isFraction hf hr

theorem readFraction_stops {t : Text} (ht : Stops Char.isDigit t) :
    ∃ f rest, t = f ++ rest ∧ NumberStops f rest ∧ readFraction t = (f, rest) := by
  rcases readFraction_cases t with ⟨ho, h⟩ | ⟨f, r, rfl, hf, hr, h⟩
  · exact ⟨[], t, rfl, Or.inl ⟨rfl, ht, ho⟩, h⟩
  · exact ⟨f, r, rfl, Or.inr ⟨hf, hr⟩, h⟩

theorem readNegative_append {u f rest : Text} (hu : ∀ c ∈ u, c.isDigit) (h : NumberStops f rest) :
    readNegative (u ++ f ++ rest) = (.number ('-' :: (u ++ f)), rest) := by
  obtain ⟨h1, h2⟩ := span_append hu h.stops
  simp [readNegative, List.append_assoc, h1, h2, h.readFraction]

theorem readNegative_cases (t : Text) :
    ∃ u f rest, t = u ++ f ++ rest ∧ (∀ c ∈ u, c.isDigit) ∧ NumberStops f rest ∧
      readNegative t = (.number ('-' :: (u ++ f)), rest) := by
  have hu : ∀ c ∈ t.takeWhile Char.isDigit, c.isDigit := fun c hc => List.mem_takeWhile_imp hc
  obtain ⟨f, rest, hf, hs, -⟩ := readFraction_stops (stops_dropWhile Char.isDigit t)
  have ht : t = t.takeWhile Char.isDigit ++ f ++ rest := by
    rw [List.append_assoc, ← hf, List.takeWhile_append_dropWhile]
  refine ⟨_, f, rest, ht, hu, hs, ?_⟩
  rw [← readNegative_append hu hs, ← ht]

theorem readNumber_append {u f rest : Text} (hu : ∀ c ∈ u, c.isDigit) (h : NumberStops f rest)
    (hd : u.length = 4 → goesOnAsDate (f ++ rest) = false) :
    readNumber (u ++ f ++ rest) = (.number (u ++ f), rest) := by
  obtain ⟨h1, h2⟩ := span_append hu h.stops
  unfold readNumber
  rw [List.append_assoc, h1, h2]
  by_cases hl : u.length = 4
  · simp [hl, hd hl, h.readFraction]
  · simp [hl, h.readFraction]

theorem goesOnAsDate_eq {t : Text} (h : goesOnAsDate t) :
    ∃ d q, t = '-' :: d :: q ∧ d.isDigit := by
  unfold goesOnAsDate at h
  split at h
  · exact ⟨_, _, rfl, h⟩
  · simp at h

theorem readNumber_date {u p rest : Text} (hu : ∀ c ∈ u, c.isDigit) (hl : u.length = 4)
    (hg : goesOnAsDate p) (hp : ∀ c ∈ p, isDatePart c) (hr : Stops isDatePart rest) :
    readNumber (u ++ p ++ rest) = (.dateTime (u ++ p), rest) := by
  obtain ⟨h3, h4⟩ := span_append hp hr
  obtain ⟨d, q, rfl, hd⟩ := goesOnAsDate_eq hg
  obtain ⟨h1, h2⟩ := span_append (r := '-' :: d :: q ++ rest) hu
    (by simp [show Char.isDigit '-' = false from rfl])
  have hg' : goesOnAsDate ('-' :: d :: q ++ rest) = true := hg
  unfold readNumber
  rw [List.append_assoc, h1, h2]
  dsimp only
  rw [if_pos ⟨hl, hg'⟩, h3, h4]

theorem readNumber_cases (t : Text) :
    (∃ u f rest, t = u ++ f ++ rest ∧ (∀ c ∈ u, c.isDigit) ∧ NumberStops f rest ∧
      (u.length = 4 → goesOnAsDate (f ++ rest) = false) ∧
      readNumber t = (.number (u ++ f), rest)) ∨
    ∃ u p rest, t = u ++ p ++ rest ∧ (∀ c ∈ u, c.isDigit) ∧ u.length = 4 ∧ goesOnAsDate p ∧
      (∀ c ∈ p, isDatePart c) ∧ Stops isDatePart rest ∧
      readNumber t = (.dateTime (u ++ p), rest) := by
  have hu : ∀ c ∈ t.takeWhile Char.isDigit, c.isDigit := fun c hc => List.mem_takeWhile_imp hc
  have ht : t = t.takeWhile Char.isDigit ++ t.dropWhile Char.isDigit :=
    List.takeWhile_append_dropWhile.symm
  by_cases hd : (t.takeWhile Char.isDigit).length = 4 ∧ goesOnAsDate (t.dropWhile Char.isDigit)
  · right
    generalize t.dropWhile Char.isDigit = r at ht hd
    have hp : ∀ c ∈ r.takeWhile isDatePart, isDatePart c := fun c hc => List.mem_takeWhile_imp hc
    have ht' :
        t = t.takeWhile Char.isDigit ++ r.takeWhile isDatePart ++ r.dropWhile isDatePart := by
      rw [List.append_assoc, List.takeWhile_append_dropWhile]; exact ht
    have hg : goesOnAsDate (r.takeWhile isDatePart) := by
      obtain ⟨d, q, rfl, h⟩ := goesOnAsDate_eq hd.2
      have h1 : isDatePart '-' = true := by decide
      simp [h1, isDatePart_of_isDigit h, goesOnAsDate, h]
    refine ⟨_, _, _, ht', hu, hd.1, hg, hp, stops_dropWhile _ _, ?_⟩
    rw [← readNumber_date hu hd.1 hg hp (stops_dropWhile _ _), ← ht']
  · left
    obtain ⟨f, rest, hf, hs, -⟩ := readFraction_stops (stops_dropWhile Char.isDigit t)
    have ht' : t = t.takeWhile Char.isDigit ++ f ++ rest := by
      rw [List.append_assoc, ← hf]; exact ht
    have hg : (t.takeWhile Char.isDigit).length = 4 → goesOnAsDate (f ++ rest) = false := by
      intro hl
      rw [← hf]
      simpa using fun h => hd ⟨hl, h⟩
    refine ⟨_, f, rest, ht', hu, hs, hg, ?_⟩
    rw [← readNumber_append hu hs hg, ← ht']

/-! ## String literals -/

theorem readString_eq {t s rest : Text} (h : readString t = some (s, rest)) :
    t = s ++ '\'' :: rest ∧ ∀ r, readString (s ++ '\'' :: r) = some (s, r) := by
  fun_induction readString t generalizing s rest with
  | case1 => simp at h
  | case2 t =>
    simp only [Option.some.injEq, Prod.mk.injEq] at h
    obtain ⟨rfl, rfl⟩ := h
    exact ⟨rfl, fun r => by simp [readString]⟩
  | case3 => simp at h
  | case4 c t ih =>
    obtain ⟨⟨s', r'⟩, hs, heq⟩ := Option.map_eq_some_iff.1 h
    obtain ⟨rfl, rfl⟩ := Prod.mk.inj heq
    obtain ⟨h1, h2⟩ := ih hs
    exact ⟨by rw [h1]; rfl, fun r => by simp [readString, h2 r]⟩
  | case5 c t hq hb hbs ih =>
    obtain ⟨⟨s', r'⟩, hs, heq⟩ := Option.map_eq_some_iff.1 h
    obtain ⟨rfl, rfl⟩ := Prod.mk.inj heq
    obtain ⟨rfl, h2⟩ := ih hs
    have hc : c ≠ '\\' := by
      intro hc
      cases s' with
      | nil => exact hbs _ _ hc rfl
      | cons => exact hbs _ _ hc rfl
    refine ⟨rfl, fun r => ?_⟩
    rw [List.cons_append, readString, h2 r]
    · rfl
    all_goals simp_all

/-! ## What the scanner finds -/

/-- The ways in which a token stands at the front of a text: as a sign, as a string literal, as a
    number with or without a minus sign, or as a word. -/
inductive FrontCase (c : Char) (rest : Text) : Token → Text → Prop
  | sign {t : Token} {r : Text} (hn : t.text? = none)
      (h : ∃ cs, t.spelling = c :: cs ∧ rest = cs ++ r) : FrontCase c rest t r
  | string {s r : Text} (hc : c = '\'') (h : readString rest = some (s, r)) :
      FrontCase c rest (.string s) r
  | negative {d : Char} {t r : Text} (hc : c = '-') (hd : d.isDigit) (hr : rest = d :: t)
      {n : Token} (h : readNegative rest = (n, r)) : FrontCase c rest n r
  | number (hc : c.isDigit) {n : Token} {r : Text} (h : readNumber (c :: rest) = (n, r)) :
      FrontCase c rest n r
  | word (hc : isWordStart c) {w r : Text} (h : readWord (c :: rest) = (w, r)) :
      FrontCase c rest (.word w) r

theorem front_cases {c : Char} {rest : Text} {t : Token} {r : Text}
    (h : front c rest = .token t r) : FrontCase c rest t r := by
  unfold front at h
  split at h
  case h_14 =>
    split at h
    · rename_i hs
      cases h
      exact .string rfl hs
    · cases h
  case h_15 d t _ =>
    split at h
    · rename_i hd
      cases h
      exact .negative rfl hd rfl rfl
    · cases h
  case h_16 =>
    split at h
    · rename_i hd
      cases h
      exact .number hd rfl
    · split at h
      · rename_i hw
        cases h
        exact .word hw rfl
      · cases h
  all_goals
    cases h
    try exact .sign rfl ⟨_, rfl, rfl⟩

/-- A text that is not empty starts with the first character of all that it is in front of. -/
theorem exists_cons_of_append {c : Char} {s rest r : Text} (h : c :: rest = s ++ r) (hs : s ≠ []) :
    ∃ cs, s = c :: cs ∧ rest = cs ++ r :=
  (List.cons_eq_append_iff.1 h).resolve_left fun hnil => hs hnil.1

/-- A run of characters does not stop before a character that belongs to it. -/
theorem append_ne_nil_of_stops {c : Char} {rest u f r : Text} {p : Char → Bool}
    (ht : c :: rest = u ++ f ++ r) (hc : p c = true) (hs : Stops p (f ++ r)) : u ++ f ≠ [] := by
  intro hnil
  obtain ⟨rfl, rfl⟩ := List.append_eq_nil_iff.1 hnil
  rw [List.nil_append] at hs
  rw [List.append_nil, List.nil_append] at ht
  rw [← ht] at hs
  simp [hc] at hs

/-- **The scanner cuts the text into the spelling of a token and the rest.** -/
theorem front_eq_token {c : Char} {rest : Text} {t : Token} {r : Text}
    (h : front c rest = .token t r) : ∃ cs, t.spelling = c :: cs ∧ rest = cs ++ r := by
  cases front_cases h with
  | sign _ h => exact h
  | @string s _ hc h =>
    obtain ⟨rfl, -⟩ := readString_eq h
    exact ⟨s ++ ['\''], by simp [Token.spelling, hc], by simp⟩
  | negative hc hd hr h =>
    obtain ⟨u, f, r', ht, hu, hs, heq⟩ := readNegative_cases rest
    rw [heq] at h
    obtain ⟨rfl, rfl⟩ := Prod.mk.inj h
    exact ⟨u ++ f, by simp [Token.spelling, hc], ht⟩
  | number hc h =>
    rcases readNumber_cases (c :: rest) with
      ⟨u, f, r', ht, hu, hs, -, heq⟩ | ⟨u, f, r', ht, hu, hl, -, -, hs, heq⟩
    · rw [heq] at h
      obtain ⟨rfl, rfl⟩ := Prod.mk.inj h
      exact exists_cons_of_append ht (append_ne_nil_of_stops ht hc hs.stops)
    · rw [heq] at h
      obtain ⟨rfl, rfl⟩ := Prod.mk.inj h
      refine exists_cons_of_append ht fun hnil => ?_
      simp [(List.append_eq_nil_iff.1 hnil).1] at hl
  | word hc h =>
    obtain ⟨u, f, r', ht, hu, hs, heq⟩ := readWord_cases (c :: rest)
    rw [heq] at h
    obtain ⟨rfl, rfl⟩ := Prod.mk.inj h
    exact exists_cons_of_append ht
      (append_ne_nil_of_stops ht (isWordPart_of_isWordStart hc) hs.stops)

theorem Token.heads_of_front {c : Char} {rest : Text} {t : Token} {r : Text}
    (h : front c rest = .token t r) : t.Heads r := by
  obtain ⟨cs, hs, rfl⟩ := front_eq_token h
  exact ⟨c, cs, hs, h⟩

theorem front_of_isWordStart {c : Char} (h : isWordStart c) (rest : Text) :
    front c rest = .token (.word (readWord (c :: rest)).1) (readWord (c :: rest)).2 := by
  have hd := isDigit_of_isWordStart h
  unfold front
  split <;> try exact absurd h (by decide)
  rw [if_neg (by simp [hd]), if_pos h]

theorem front_of_isDigit {c : Char} (h : c.isDigit) (rest : Text) :
    front c rest = .token (readNumber (c :: rest)).1 (readNumber (c :: rest)).2 := by
  unfold front
  split <;> try exact absurd h (by decide)
  rw [if_pos h]

namespace Token

theorem heads_word_iff {w rest : Text} : (word w).Heads rest ↔
    ∃ c u f, w = c :: u ++ f ∧ isWordStart c ∧ (∀ d ∈ u, isWordPart d) ∧
      WordStops (c :: u) f rest := by
  constructor
  · rintro ⟨c, cs, hw, h⟩
    simp only [spelling] at hw
    subst hw
    cases front_cases h with
    | sign hn _ => simp [text?] at hn
    | negative _ _ _ h =>
      obtain ⟨u, f, r, -, -, -, heq⟩ := readNegative_cases (cs ++ rest)
      simp [heq] at h
    | number _ h =>
      rcases readNumber_cases (c :: (cs ++ rest)) with
        ⟨u, f, r, -, -, -, -, heq⟩ | ⟨u, f, r, -, -, -, -, -, -, heq⟩ <;> simp [heq] at h
    | word hc h =>
      obtain ⟨u, f, r, ht, hu, hs, heq⟩ := readWord_cases (c :: (cs ++ rest))
      rw [heq] at h
      obtain ⟨hw, rfl⟩ := Prod.mk.inj h
      cases u with
      | nil =>
        have := hs.stops
        rw [← List.nil_append f, ← ht] at this
        simp [isWordPart_of_isWordStart hc] at this
      | cons d u =>
        obtain ⟨rfl, -⟩ := List.cons.inj hw
        exact ⟨d, u, f, hw.symm, hc, fun d hd => hu d (by simp [hd]), hs⟩
  · rintro ⟨c, u, f, rfl, hc, hu, hs⟩
    refine ⟨c, u ++ f, rfl, ?_⟩
    have hu' : ∀ d ∈ c :: u, isWordPart d := by
      intro d hd
      rcases List.mem_cons.1 hd with rfl | hd
      · exact isWordPart_of_isWordStart hc
      · exact hu d hd
    have := readWord_append hu' hs
    rw [front_of_isWordStart hc, ← List.cons_append, ← List.cons_append, this]

theorem heads_string_iff {s rest : Text} :
    (string s).Heads rest ↔ readString (s ++ '\'' :: rest) = some (s, rest) := by
  constructor
  · rintro ⟨c, cs, hs, h⟩
    obtain ⟨rfl, rfl⟩ := List.cons.inj hs
    cases front_cases h with
    | sign hn _ => simp [text?] at hn
    | string _ h => simpa using h
    | negative hc => simp at hc
    | number hc => exact absurd hc (by decide)
  · intro h
    refine ⟨'\'', s ++ ['\''], rfl, ?_⟩
    simp [front, h]

theorem heads_number_iff {n rest : Text} : (number n).Heads rest ↔
    ∃ u f, u ≠ [] ∧ (∀ c ∈ u, c.isDigit) ∧ NumberStops f rest ∧
      (n = '-' :: (u ++ f) ∨ n = u ++ f ∧ (u.length = 4 → goesOnAsDate (f ++ rest) = false)) := by
  constructor
  · rintro ⟨c, cs, hn, h⟩
    simp only [spelling] at hn
    subst hn
    cases front_cases h with
    | sign hn _ => simp [text?] at hn
    | @negative d t _ hc hd hr _ h =>
      obtain ⟨u, f, r, ht, hu, hs, heq⟩ := readNegative_cases (cs ++ rest)
      rw [heq] at h
      simp only [Prod.mk.injEq, number.injEq] at h
      obtain ⟨hn, rfl⟩ := h
      refine ⟨u, f, ?_, hu, hs, Or.inl hn.symm⟩
      rintro rfl
      have := hs.stops
      rw [← List.nil_append f, ← ht, hr] at this
      simp [hd] at this
    | number hc h =>
      rcases readNumber_cases (c :: (cs ++ rest)) with
        ⟨u, f, r, ht, hu, hs, hd, heq⟩ | ⟨u, f, r, -, -, -, -, -, -, heq⟩
      · rw [heq] at h
        simp only [Prod.mk.injEq, number.injEq] at h
        obtain ⟨hn, rfl⟩ := h
        refine ⟨u, f, ?_, hu, hs, Or.inr ⟨hn.symm, hd⟩⟩
        rintro rfl
        have := hs.stops
        rw [← List.nil_append f, ← ht] at this
        simp [hc] at this
      · simp [heq] at h
  · rintro ⟨u, f, hne, hu, hs, rfl | ⟨rfl, hd⟩⟩
    · obtain ⟨d, u, rfl⟩ := List.exists_cons_of_ne_nil hne
      have := readNegative_append hu hs
      simp only [List.append_assoc, List.cons_append] at this
      refine ⟨'-', d :: u ++ f, rfl, ?_⟩
      simp [front, hu d, this]
    · have := readNumber_append hu hs hd
      obtain ⟨d, u, rfl⟩ := List.exists_cons_of_ne_nil hne
      refine ⟨d, u ++ f, rfl, ?_⟩
      rw [front_of_isDigit (hu d (by simp)), ← List.cons_append, ← List.cons_append, this]

theorem heads_dateTime_iff {n rest : Text} : (dateTime n).Heads rest ↔
    ∃ u p, n = u ++ p ∧ (∀ c ∈ u, c.isDigit) ∧ u.length = 4 ∧ goesOnAsDate p ∧
      (∀ c ∈ p, isDatePart c) ∧ Stops isDatePart rest := by
  constructor
  · rintro ⟨c, cs, hn, h⟩
    simp only [spelling] at hn
    subst hn
    cases front_cases h with
    | sign hn _ => simp [text?] at hn
    | negative _ _ _ h =>
      obtain ⟨u, f, r, -, -, -, heq⟩ := readNegative_cases (cs ++ rest)
      simp [heq] at h
    | number hc h =>
      rcases readNumber_cases (c :: (cs ++ rest)) with
        ⟨u, f, r, -, -, -, -, heq⟩ | ⟨u, p, r, -, hu, hl, hg, hp, hr, heq⟩
      · simp [heq] at h
      · rw [heq] at h
        simp only [Prod.mk.injEq, dateTime.injEq] at h
        obtain ⟨hn, rfl⟩ := h
        exact ⟨u, p, hn.symm, hu, hl, hg, hp, hr⟩
  · rintro ⟨u, p, rfl, hu, hl, hg, hp, hr⟩
    have := readNumber_date hu hl hg hp hr
    cases u with
    | nil => simp at hl
    | cons d u =>
      refine ⟨d, u ++ p, rfl, ?_⟩
      rw [front_of_isDigit (hu d (by simp)), ← List.cons_append, ← List.cons_append, this]

/-! ## Tokens and what follows them -/

theorem not_contains_dot {p : Char → Bool} (hp : p '.' = false) {u : Text} (hu : ∀ c ∈ u, p c) :
    u.contains '.' = false := by
  rw [Bool.eq_false_iff]
  intro h
  rw [List.contains_iff_mem] at h
  exact absurd (hu _ h) (by simp [hp])

theorem contains_dot_of_isFraction {u f : Text} (hf : IsFraction f) :
    (u ++ f).contains '.' = true := by
  obtain ⟨d, ds, rfl, -⟩ := hf
  simp

theorem wordStops_iff {u f rest : Text} (hu : ∀ c ∈ u, isWordPart c) :
    WordStops u f rest ↔ WordStops u f [] ∧ (word (u ++ f)).goesOn rest = false := by
  cases rest with
  | nil => simp [goesOn]
  | cons c r =>
    constructor
    · rintro (⟨rfl, hs, ho⟩ | ⟨hc, hf, hs⟩)
      · rw [stops_cons] at hs
        refine ⟨Or.inl ⟨rfl, by simp, fun _ => rfl⟩, ?_⟩
        simp only [goesOn, List.append_nil, not_contains_dot isWordPart_dot hu, hs,
          Bool.false_or, Bool.false_eq_true, if_false, Bool.and_eq_false_iff]
        by_cases hc : isCurrencyWord u = true
        · exact Or.inr (ho hc)
        · exact Or.inl (by simpa using hc)
      · rw [stops_cons] at hs
        exact ⟨Or.inr ⟨hc, hf, by simp⟩,
          by simp only [goesOn, contains_dot_of_isFraction hf, hs, if_true]⟩
    · rintro ⟨⟨rfl, -, -⟩ | ⟨hc, hf, -⟩, hg⟩
      · simp only [goesOn, List.append_nil, not_contains_dot isWordPart_dot hu,
          Bool.false_eq_true, if_false, Bool.or_eq_false_iff, Bool.and_eq_false_iff] at hg
        refine Or.inl ⟨rfl, by simp [hg.1], fun hc => ?_⟩
        rcases hg.2 with h | h
        · simp [hc] at h
        · exact h
      · simp only [goesOn, contains_dot_of_isFraction hf, if_true] at hg
        exact Or.inr ⟨hc, hf, by simp [hg]⟩

theorem numberStops_iff {u f rest : Text} (hu : u.contains '.' = false) :
    NumberStops f rest ↔ NumberStops f [] ∧
      (∀ c r, rest = c :: r → c.isDigit = false ∧
        ((u ++ f).contains '.' = false → opensFraction rest = false)) := by
  constructor
  · rintro (⟨rfl, hs, ho⟩ | ⟨hf, hs⟩)
    · refine ⟨Or.inl ⟨rfl, by simp, rfl⟩, ?_⟩
      rintro c r rfl
      exact ⟨by simpa using hs, fun _ => ho⟩
    · refine ⟨Or.inr ⟨hf, by simp⟩, ?_⟩
      rintro c r rfl
      refine ⟨by simpa using hs, fun h => ?_⟩
      rw [contains_dot_of_isFraction hf] at h
      exact Bool.noConfusion h
  · rintro ⟨⟨rfl, -, -⟩ | ⟨hf, -⟩, h⟩
    · cases rest with
      | nil => exact Or.inl ⟨rfl, by simp, rfl⟩
      | cons c r =>
        obtain ⟨h1, h2⟩ := h c r rfl
        exact Or.inl ⟨rfl, by simp [h1], h2 (by simpa using hu)⟩
    · cases rest with
      | nil => exact Or.inr ⟨hf, by simp⟩
      | cons c r => exact Or.inr ⟨hf, by simp [(h c r rfl).1]⟩

theorem goesOn_number_iff {n rest : Text} : (number n).goesOn rest = false ↔
    (∀ c r, rest = c :: r →
      c.isDigit = false ∧ (n.contains '.' = false → opensFraction rest = false)) ∧
      (n.length = 4 → n.all Char.isDigit → goesOnAsDate rest = false) := by
  cases rest with
  | nil => simp [goesOn, goesOnAsDate]
  | cons c r =>
    simp only [goesOn, Bool.or_eq_false_iff, Bool.and_eq_false_iff, Bool.not_eq_false',
      beq_eq_false_iff_ne, ne_eq, List.cons.injEq, and_imp]
    constructor
    · rintro ⟨⟨h1, h2⟩, h3⟩
      refine ⟨?_, fun hl ha => ?_⟩
      · rintro _ _ rfl rfl
        exact ⟨h1, fun hn => h2.resolve_left fun h => Bool.noConfusion (hn.symm.trans h)⟩
      · rcases h3 with (h3 | h3) | h3
        · exact absurd hl h3
        · simp [ha] at h3
        · exact h3
    · rintro ⟨h12, h3⟩
      obtain ⟨h1, h2⟩ := h12 c r rfl rfl
      refine ⟨⟨h1, ?_⟩, ?_⟩
      · by_cases hn : n.contains '.' = true
        · exact Or.inl hn
        · exact Or.inr (h2 (by simpa using hn))
      · by_cases hl : n.length = 4
        · by_cases ha : n.all Char.isDigit = true
          · exact Or.inr (h3 hl ha)
          · exact Or.inl (Or.inr (by simpa using ha))
        · exact Or.inl (Or.inl hl)

theorem goesOnAsDate_fraction {f : Text} (hf : IsFraction f) (rest : Text) :
    goesOnAsDate (f ++ rest) = false := by
  obtain ⟨d, ds, rfl, -⟩ := hf
  rfl

theorem all_isDigit_iff {u f rest : Text} (hu : ∀ c ∈ u, c.isDigit) (hs : NumberStops f rest) :
    (u ++ f).all Char.isDigit = true ↔ f = [] := by
  rcases hs with ⟨rfl, -⟩ | ⟨⟨d, ds, rfl, -⟩, -⟩
  · simpa using hu
  · simp [show Char.isDigit '.' = false from rfl]

/-- The condition on four digits, which may start a date, is part of `goesOn`. -/
theorem dateStops_iff {u f rest : Text} (hu : ∀ c ∈ u, c.isDigit) (hs : NumberStops f []) :
    (u.length = 4 → goesOnAsDate (f ++ rest) = false) ↔
      ((u ++ f).length = 4 → (u ++ f).all Char.isDigit → goesOnAsDate rest = false) := by
  rcases hs with ⟨rfl, -⟩ | ⟨hf, hr⟩
  · have : u.all Char.isDigit = true := List.all_eq_true.2 hu
    simp only [List.append_nil, List.nil_append, this, forall_const]
  · have : (u ++ f).all Char.isDigit ≠ true := by
      rw [Ne, all_isDigit_iff hu (Or.inr ⟨hf, hr⟩)]
      rintro rfl
      obtain ⟨_, _, h, -⟩ := hf
      simp at h
    simp only [goesOnAsDate_fraction hf, implies_true, true_iff]
    exact fun _ h => absurd h this

theorem front_less (rest : Text) :
    front '<' rest = .token .less rest ↔ ∀ c ∈ rest.head?, c ≠ '=' ∧ c ≠ '>' := by
  cases rest with
  | nil => simp [front]
  | cons c r =>
    by_cases h1 : c = '='
    · simp [front, h1]
    · by_cases h2 : c = '>' <;> simp [front, h1, h2]

theorem front_greater (rest : Text) :
    front '>' rest = .token .greater rest ↔ ∀ c ∈ rest.head?, c ≠ '=' := by
  cases rest with
  | nil => simp [front]
  | cons c r => by_cases h : c = '=' <;> simp [front, h]

theorem heads_word_goesOn (w rest : Text) :
    (word w).Heads rest ↔ (word w).Heads [] ∧ (word w).goesOn rest = false := by
  simp only [heads_word_iff]
  constructor
  · rintro ⟨c, u, f, rfl, hc, hu, hs⟩
    have hcu : ∀ d ∈ c :: u, isWordPart d := by
      simpa [isWordPart_of_isWordStart hc] using hu
    obtain ⟨h1, h2⟩ := (wordStops_iff hcu).1 hs
    exact ⟨⟨c, u, f, rfl, hc, hu, h1⟩, h2⟩
  · rintro ⟨⟨c, u, f, rfl, hc, hu, hs⟩, hg⟩
    have hcu : ∀ d ∈ c :: u, isWordPart d := by
      simpa [isWordPart_of_isWordStart hc] using hu
    exact ⟨c, u, f, rfl, hc, hu, (wordStops_iff hcu).2 ⟨hs, hg⟩⟩

theorem heads_number_goesOn (n rest : Text) :
    (number n).Heads rest ↔ (number n).Heads [] ∧ (number n).goesOn rest = false := by
  simp only [heads_number_iff, goesOn_number_iff]
  constructor
  · rintro ⟨u, f, hne, hu, hs, hn⟩
    have hdot : u.contains '.' = false := not_contains_dot rfl hu
    rcases hn with rfl | ⟨rfl, hd⟩
    · obtain ⟨h1, h2⟩ := (numberStops_iff (u := '-' :: u) (by simpa using hdot)).1 hs
      exact ⟨⟨u, f, hne, hu, h1, Or.inl rfl⟩, h2,
        fun _ ha => by simp [show Char.isDigit '-' = false from rfl] at ha⟩
    · obtain ⟨h1, h2⟩ := (numberStops_iff hdot).1 hs
      refine ⟨⟨u, f, hne, hu, h1, Or.inr ⟨rfl, ?_⟩⟩, h2, (dateStops_iff hu h1).1 hd⟩
      exact (dateStops_iff hu h1).2 fun _ _ => rfl
  · rintro ⟨⟨u, f, hne, hu, hs, hn⟩, hg1, hg2⟩
    have hdot : u.contains '.' = false := not_contains_dot rfl hu
    rcases hn with rfl | ⟨rfl, -⟩
    · have := (numberStops_iff (u := '-' :: u) (by simpa using hdot)).2 ⟨hs, hg1⟩
      exact ⟨u, f, hne, hu, this, Or.inl rfl⟩
    · have := (numberStops_iff hdot).2 ⟨hs, hg1⟩
      exact ⟨u, f, hne, hu, this, Or.inr ⟨rfl, (dateStops_iff hu hs).2 hg2⟩⟩

theorem heads_dateTime_goesOn (d rest : Text) :
    (dateTime d).Heads rest ↔ (dateTime d).Heads [] ∧ (dateTime d).goesOn rest = false := by
  simp only [heads_dateTime_iff]
  constructor
  · rintro ⟨u, p, rfl, hu, hl, hg, hp, hr⟩
    refine ⟨⟨u, p, rfl, hu, hl, hg, hp, by simp⟩, ?_⟩
    cases rest with
    | nil => rfl
    | cons c r => simpa [goesOn] using hr
  · rintro ⟨⟨u, p, rfl, hu, hl, hg, hp, -⟩, hr⟩
    refine ⟨u, p, rfl, hu, hl, hg, hp, ?_⟩
    cases rest with
    | nil => simp
    | cons c r => simpa [goesOn] using hr

/-- **A token heads what follows it iff it is a token on its own and is not made longer.** -/
theorem heads_iff (t : Token) (rest : Text) :
    t.Heads rest ↔ t.Heads [] ∧ t.goesOn rest = false := by
  cases t with
  | word w => exact heads_word_goesOn w rest
  | string s =>
    simp only [heads_string_iff, goesOn, and_true]
    exact ⟨fun h => (readString_eq h).2 [], fun h => (readString_eq h).2 rest⟩
  | number n => exact heads_number_goesOn n rest
  | dateTime d => exact heads_dateTime_goesOn d rest
  | less => cases rest <;> simp [Heads, spelling, goesOn, front_less]
  | greater => cases rest <;> simp [Heads, spelling, goesOn, front_greater]
  | finish => simp [Heads, spelling]
  | _ => simp [Heads, spelling, goesOn, front]

/-! ## Tokens on their own -/

/-- The token is read back from its spelling. -/
def Proper (t : Token) : Prop := t.Heads []

theorem Heads.proper {t : Token} {rest : Text} (h : t.Heads rest) : t.Proper :=
  ((heads_iff t rest).1 h).1

theorem Proper.heads {t : Token} (h : t.Proper) {rest : Text} (hr : t.goesOn rest = false) :
    t.Heads rest := (heads_iff t rest).2 ⟨h, hr⟩

theorem not_proper_finish : ¬ finish.Proper := by simp [Proper, Heads, spelling]

/-- What a string literal holds. -/
def literal? : Token → Option Text
  | string s => some s
  | _ => none

/-- Whether the token is always written in the same way: an operator, a parenthesis or a point. -/
def isMark : Token → Bool
  | word _ | string _ | number _ | dateTime _ | finish => false
  | _ => true

theorem proper_mark (t : Token) (h : t.isMark = true) : t.Proper := by
  cases t with
  | word | string | number | dateTime | finish => cases h
  | _ => exact ⟨_, _, rfl, rfl⟩

theorem isDigit_isBlank {c : Char} (h : c.isDigit) : isBlank c = false := by
  by_contra hb
  have := isWordPart_of_isBlank (by simpa using hb)
  rw [isWordPart_of_isDigit h] at this
  exact Bool.noConfusion this

theorem isWordPart_isBlank {c : Char} (h : isWordPart c) : isBlank c = false := by
  by_contra hb
  rw [isWordPart_of_isBlank (by simpa using hb)] at h
  exact Bool.noConfusion h

theorem isDatePart_isBlank {c : Char} (h : isDatePart c) : isBlank c = false := by
  by_contra hb
  rw [isDatePart_of_isBlank (by simpa using hb)] at h
  exact Bool.noConfusion h

theorem isFraction_isBlank {f : Text} (hf : IsFraction f) : ∀ c ∈ f, isBlank c = false := by
  obtain ⟨d, ds, rfl, hd, hds⟩ := hf
  intro c hc
  rcases List.mem_cons.1 hc with rfl | hc
  · decide
  · rcases List.mem_cons.1 hc with rfl | hc
    · exact isDigit_isBlank hd
    · exact isDigit_isBlank (hds c hc)

theorem numberStops_isBlank {f rest : Text} (h : NumberStops f rest) :
    ∀ c ∈ f, isBlank c = false := by
  rcases h with ⟨rfl, -⟩ | ⟨hf, -⟩
  · simp
  · exact isFraction_isBlank hf

/-- Blanks stand inside of string literals only. -/
theorem Proper.isBlank_of_mem {t : Token} (h : t.Proper) (hl : t.literal? = none) :
    ∀ c ∈ t.spelling, isBlank c = false := by
  cases t with
  | word w =>
    obtain ⟨c, u, f, rfl, hc, hu, hs⟩ := heads_word_iff.1 h
    intro d hd
    rcases List.mem_append.1 hd with hd | hd
    · rcases List.mem_cons.1 hd with rfl | hd
      · exact isWordPart_isBlank (isWordPart_of_isWordStart hc)
      · exact isWordPart_isBlank (hu d hd)
    · rcases hs with ⟨rfl, -⟩ | ⟨-, hf, -⟩
      · simp at hd
      · exact isFraction_isBlank hf d hd
  | string s => simp [literal?] at hl
  | number n =>
    obtain ⟨u, f, -, hu, hs, rfl | ⟨rfl, -⟩⟩ := heads_number_iff.1 h
    · intro d hd
      rcases List.mem_cons.1 hd with rfl | hd
      · decide
      · rcases List.mem_append.1 hd with hd | hd
        · exact isDigit_isBlank (hu d hd)
        · exact numberStops_isBlank hs d hd
    · intro d hd
      rcases List.mem_append.1 hd with hd | hd
      · exact isDigit_isBlank (hu d hd)
      · exact numberStops_isBlank hs d hd
  | dateTime n =>
    obtain ⟨u, p, rfl, hu, -, -, hp, -⟩ := heads_dateTime_iff.1 h
    intro d hd
    rcases List.mem_append.1 hd with hd | hd
    · exact isDigit_isBlank (hu d hd)
    · exact isDatePart_isBlank (hp d hd)
  | finish => simp [spelling]
  | _ => simp [spelling]; decide

theorem Proper.ne_nil {t : Token} (h : t.Proper) : t.spelling ≠ [] := by
  obtain ⟨c, cs, hs, -⟩ := h
  simp [hs]

theorem Proper.isBlank_head {t : Token} (h : t.Proper) :
    ∀ c ∈ t.spelling.head?, isBlank c = false := by
  intro c hc
  cases hl : t.literal? with
  | none => exact h.isBlank_of_mem hl c (List.mem_of_mem_head? hc)
  | some s =>
    cases t <;> simp only [literal?, reduceCtorEq] at hl
    simp only [spelling, List.cons_append, List.head?_cons, Option.mem_def,
      Option.some.injEq] at hc
    subst hc
    decide

theorem Proper.isBlank_last {t : Token} (h : t.Proper) :
    ∀ c ∈ t.spelling.getLast?, isBlank c = false := by
  intro c hc
  cases hl : t.literal? with
  | none => exact h.isBlank_of_mem hl c (List.mem_of_mem_getLast? hc)
  | some s =>
    cases t <;> simp only [literal?, reduceCtorEq] at hl
    simp only [spelling, List.getLast?_append, List.getLast?_singleton, Option.some_or,
      Option.mem_def, Option.some.injEq] at hc
    subst hc
    decide

/-- A character that makes no token longer. -/
def isBreak (c : Char) : Bool := !isWordPart c && !isDatePart c && c != '=' && c != '>'

theorem isBreak_of_isBlank {c : Char} (h : isBlank c) : isBreak c = true := by
  have h1 : c ≠ '=' := by rintro rfl; exact absurd h (by decide)
  have h2 : c ≠ '>' := by rintro rfl; exact absurd h (by decide)
  simp [isBreak, isWordPart_of_isBlank h, isDatePart_of_isBlank h, h1, h2]

/-- The text starts with no character that makes a token longer. -/
def Clean (r : Text) : Prop := ∀ c ∈ r.head?, isBreak c = true

theorem goesOn_of_clean (t : Token) {r : Text} (h : Clean r) : t.goesOn r = false := by
  cases r with
  | nil => cases t <;> rfl
  | cons c r =>
    have hb : isBreak c = true := h c (by simp)
    simp only [isBreak, Bool.and_eq_true, Bool.not_eq_true', bne_iff_ne] at hb
    obtain ⟨⟨⟨hw, hd⟩, h1⟩, h2⟩ := hb
    have hn : c.isDigit = false := by
      by_contra hn
      rw [isDatePart_of_isDigit (by simpa using hn)] at hd
      exact Bool.noConfusion hd
    have hf : opensFraction (c :: r) = false := by
      unfold opensFraction
      split
      · rename_i heq
        obtain ⟨rfl, -⟩ := List.cons.inj heq
        exact absurd hd (by decide)
      · rfl
    have hg : goesOnAsDate (c :: r) = false := by
      unfold goesOnAsDate
      split
      · rename_i heq
        obtain ⟨rfl, -⟩ := List.cons.inj heq
        exact absurd hd (by decide)
      · rfl
    cases t <;> simp [goesOn, hw, hd, h1, h2, hn, hf, hg]

/-- A colon does not make a word longer. -/
theorem goesOn_word_colon (w r : Text) : (word w).goesOn (':' :: r) = false := by
  have h1 : isWordPart ':' = false := by decide
  have h2 : Char.isDigit ':' = false := by decide
  simp [goesOn, opensFraction, h1, h2]

/-- Neither does a point before another word. -/
theorem goesOn_word_dot (w : Text) {v r : Text} (hv : (word v).Proper) :
    (word w).goesOn ('.' :: (v ++ r)) = false := by
  obtain ⟨c, u, f, rfl, hc, -, -⟩ := heads_word_iff.1 hv
  have h2 : Char.isDigit '.' = false := by decide
  simp [goesOn, opensFraction, isWordPart_dot, h2, isDigit_of_isWordStart hc]

theorem proper_decimal (n : Nat) : (number (Text.decimal n)).Proper := by
  refine heads_number_iff.2 ⟨Text.decimal n, [], Nat.toDigits_ne_nil, ?_,
    Or.inl ⟨rfl, by simp, rfl⟩, Or.inr ⟨by simp, fun _ => rfl⟩⟩
  intro c hc
  exact Nat.isDigit_of_mem_toDigits (by decide) (by decide) hc

end Token

end Soql
