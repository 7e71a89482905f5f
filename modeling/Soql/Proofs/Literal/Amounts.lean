/-
  Amounts with a currency, as the scanner and the parser know them.

  The scanner keeps the decimals of an amount in its word, and the parser tells
  amounts from other words.  The scanner goes by ASCII digits and the parser by
  decimal digits of any script, so the two differ on whole amounts that are
  written with other digits.

  * `isForeignAmount`: the whole amounts that only the parser knows.
  * `LiteralKind.ofWord?_of_isAmount`: an amount is no other value.
  * `LiteralKind.ofWord?_currencyInteger_iff`, `ofWord?_currencyDecimal_iff`:
    the words that are amounts, and of which kind.
  * `Parser.value_amount_iff`: the values that are read as amounts.
-/
import Mathlib
import Soql.Proofs.Parse.Runs
import Soql.Proofs.Query.Folded
import Soql.Proofs.Token.Scans

namespace Soql

open Unicode

/-! ## Words of a text -/

namespace Scanner

theorem heads_of_next {s s' : Scanner} {t : Token} (h : s.next = (.ok t, s'))
    (ht : t ≠ .finish) : t.Heads s'.rest := by
  obtain ⟨c, rest, -, hf⟩ := front_of_next h ht
  exact Token.heads_of_front hf

/-- Each token is read back from its own spelling. -/
theorem proper_of_mem_lexemes {s : Scanner} : ∀ l ∈ s.lexemes.toList, l.token.Proper := by
  have htokens {ts : List (Token × Nat)} {r : Except ScanError Nat} {s : Scanner}
      (h : s.Scans ts r) : ∀ x ∈ ts, x.1.Proper := by
    induction h with
    | finish | error => simp
    | token h ht _ ih => exact List.forall_mem_cons.2 ⟨(heads_of_next h ht).proper, ih⟩
  exact fun l hl => htokens (scans_iff.2 ⟨rfl, rfl⟩) _ (List.mem_map_of_mem hl)

end Scanner

/-! ## Amounts -/

/-- Whether a word is a whole amount that the scanner does not know: three ASCII letters and
    decimal digits, not all of them from ASCII. -/
def isForeignAmount : Text → Bool
  | a :: b :: c :: amount =>
    a.isAlpha && b.isAlpha && c.isAlpha && isDigits amount && !amount.all Char.isDigit
  | _ => false

theorem isDecimalDigit_of_isDigit {c : Char} (h : c.isDigit) : isDecimalDigit c = true := by
  simp [isDecimalDigit, isAscii_of_isDigit h, h]

theorem isDecimalDigit_dot : isDecimalDigit '.' = false := by decide

theorem ne_dot_of_isAlpha {c : Char} (h : c.isAlpha) : c ≠ '.' := by
  rintro rfl
  exact absurd h (by decide)

/-- Digits without a point behind them are all that there is. -/
theorem isDigits_whole_iff (amount : Text) :
    isDigits amount = true ↔ isDigits (amount.takeWhile isDecimalDigit) = true ∧
      (match amount.dropWhile isDecimalDigit with
        | [] => true
        | '.' :: decimals => isDigits decimals
        | _ => false) = true ∧ amount.contains '.' = false := by
  constructor
  · intro h
    have hall : ∀ c ∈ amount, isDecimalDigit c = true := by
      rw [isDigits, Bool.and_eq_true] at h
      exact List.all_eq_true.1 h.2
    rw [List.takeWhile_eq_self_iff.2 hall, List.dropWhile_eq_nil_iff.2 hall]
    exact ⟨h, rfl, Token.not_contains_dot isDecimalDigit_dot hall⟩
  · rintro ⟨hdigits, hrest, hdot⟩
    have hcut := List.takeWhile_append_dropWhile (p := isDecimalDigit) (l := amount)
    generalize amount.takeWhile isDecimalDigit = digits, amount.dropWhile isDecimalDigit = rest
      at hdigits hrest hcut
    subst hcut
    split at hrest
    · rwa [List.append_nil]
    · simp at hdot
    · cases hrest

/-- Without decimals the parser knows the amounts that the scanner knows, and foreign ones. -/
theorem isAmount_whole_iff (w : Text) : isAmount w = true ∧ w.contains '.' = false ↔
    isCurrencyWord w = true ∨ isForeignAmount w = true := by
  match w with
  | [] | [_] | [_, _] => simp [isAmount, isCurrencyWord, isForeignAmount]
  | a :: b :: c :: amount =>
    by_cases hletters : (a.isAlpha && b.isAlpha && c.isAlpha) = true
    · have hwhole := isDigits_whole_iff amount
      have hascii : amount.all Char.isDigit = true → amount.all isDecimalDigit = true := fun h =>
        List.all_eq_true.2 fun c hc => isDecimalDigit_of_isDigit (List.all_eq_true.1 h c hc)
      have hdot : (a :: b :: c :: amount).contains '.' = amount.contains '.' := by
        simp only [Bool.and_eq_true] at hletters
        obtain ⟨⟨ha, hb⟩, hc⟩ := hletters
        simp [(ne_dot_of_isAlpha ha).symm, (ne_dot_of_isAlpha hb).symm,
          (ne_dot_of_isAlpha hc).symm]
      have hdigits : isDigits amount = true ↔ (!amount.isEmpty) = true ∧
          amount.all isDecimalDigit = true := by rw [isDigits, Bool.and_eq_true]
      rw [hdot]
      simp only [isAmount, isCurrencyWord, isForeignAmount, hletters, Bool.true_and,
        Bool.and_eq_true, Bool.not_eq_true']
      rw [Bool.not_eq_true'] at hdigits
      refine Iff.trans (and_assoc.trans hwhole.symm) ?_
      cases hall : amount.all Char.isDigit with
      | true => simp [hdigits, hascii hall]
      | false => simp
    · simp [isAmount, isCurrencyWord, isForeignAmount, hletters]

theorem isCurrencyWord_of_isForeignAmount {w : Text} (h : isForeignAmount w = true) :
    isCurrencyWord w = false := by
  match w with
  | [] | [_] | [_, _] => cases h
  | a :: b :: c :: amount =>
    simp only [isForeignAmount, Bool.and_eq_true, Bool.not_eq_true'] at h
    simp [isCurrencyWord, h.2]

/-- What the scanner reads with decimals the parser knows. -/
theorem isAmount_decimals {u f : Text} (hu : isCurrencyWord u = true) (hf : IsFraction f) :
    isAmount (u ++ f) = true := by
  obtain ⟨d, ds, rfl, hd, hds⟩ := hf
  match u with
  | [] | [_] | [_, _] => cases hu
  | a :: b :: c :: amount =>
    simp only [isCurrencyWord, Bool.and_eq_true] at hu
    obtain ⟨⟨⟨⟨ha, hb⟩, hc⟩, hne⟩, hall⟩ := hu
    have hdigits : ∀ c ∈ amount, isDecimalDigit c = true := fun c hc =>
      isDecimalDigit_of_isDigit (List.all_eq_true.1 hall c hc)
    have hdecimals : isDigits (d :: ds) = true := by
      have : ∀ c ∈ d :: ds, isDecimalDigit c = true := fun c hc =>
        isDecimalDigit_of_isDigit
          (List.forall_mem_cons (p := fun c => c.isDigit = true) |>.2 ⟨hd, hds⟩ c hc)
      simpa [isDigits] using this
    obtain ⟨htake, hdrop⟩ := span_append (r := '.' :: d :: ds) hdigits
      (by simp [isDecimalDigit_dot])
    have hwhole : isDigits amount = true := by
      rw [isDigits, hne, List.all_eq_true.2 hdigits]
      rfl
    simp [isAmount, ha, hb, hc, htake, hdrop, hwhole, hdecimals]

/-- Behind the three letters of an amount stands a decimal digit. -/
theorem isAmount_eq {w : Text} (h : isAmount w = true) :
    ∃ a b c d t, w = a :: b :: c :: d :: t ∧ isDecimalDigit d = true := by
  match w with
  | [] | [_] | [_, _] => cases h
  | [a, b, c] => simp [isAmount, isDigits] at h
  | a :: b :: c :: d :: t =>
    refine ⟨a, b, c, d, t, rfl, ?_⟩
    by_contra hd
    simp [isAmount, isDigits, hd] at h

/-! ## Kinds of words -/

theorem isDecimalDigit_of_isAlpha {c : Char} (h : c.isAlpha) : isDecimalDigit c = false := by
  have hascii : isAscii c = true := by
    have := toNat_of_isAlpha h
    simp only [isAscii, decide_eq_true_eq]
    omega
  simp [isDecimalDigit, hascii, isDigit_of_isAlpha h]

theorem dateLetter_of_isDecimalDigit {c : Char} (h : isDecimalDigit c = true) :
    dateLetter c = c := by
  have hlower : ¬ c.isLower := fun hc => by
    rw [isDecimalDigit_of_isAlpha (by rw [Char.isAlpha, hc, Bool.or_true])] at h
    cases h
  have hs : c ≠ '\u017f' := by
    rintro rfl
    exact absurd h (by decide)
  have hk : c ≠ '\u212a' := by
    rintro rfl
    exact absurd h (by decide +kernel)
  rw [dateLetter, if_neg hs, if_neg hk, Char.toUpper_eq_of_not_isLower hlower]

/-- The relative dates have a letter in the fourth place. -/
theorem isRelativeDate_of_fourth {a b c d : Char} {t : Text} (hd : isDecimalDigit d = true) :
    isRelativeDate (a :: b :: c :: d :: t) = false := by
  have hnames : relativeDates.all (fun name => name[3]?.all Char.isAlpha) = true := by rfl
  rw [Bool.eq_false_iff]
  intro h
  have hletter : (dateLetter d).isAlpha = true :=
    List.all_eq_true.1 hnames _ (List.contains_iff_mem.1 h)
  rw [dateLetter_of_isDecimalDigit hd] at hletter
  rw [isDecimalDigit_of_isAlpha hletter] at hd
  cases hd

theorem sameWord_of_fourth {a b c d : Char} {t keyword : Text} (hd : isDecimalDigit d = true)
    (hkeyword : keyword.fold[3]?.all Char.isAlpha = true) :
    Text.sameWord (a :: b :: c :: d :: t) keyword = false := by
  rw [Text.sameWord, beq_eq_false_iff_ne]
  intro h
  have hletter : d.toLower.isAlpha = true := by
    rw [← h] at hkeyword
    exact hkeyword
  rw [← isDecimalDigit_toLower, isDecimalDigit_of_isAlpha hletter] at hd
  cases hd

namespace LiteralKind

/-- An amount is no other value. -/
theorem ofWord?_of_isAmount {w : Text} (h : isAmount w = true) :
    ofWord? w = some (if w.contains '.' then currencyDecimal else currencyInteger) := by
  obtain ⟨a, b, c, d, t, rfl, hd⟩ := isAmount_eq h
  rw [ofWord?, sameWord_of_fourth hd rfl, sameWord_of_fourth hd rfl, sameWord_of_fourth hd rfl,
    isRelativeDate_of_fourth hd, h]
  rfl

theorem ofWord?_amount_iff (w : Text) (kind : LiteralKind)
    (hkind : kind = .currencyInteger ∨ kind = .currencyDecimal) :
    ofWord? w = some kind ↔ isAmount w = true ∧
      kind = if w.contains '.' then currencyDecimal else currencyInteger := by
  cases h : isAmount w with
  | true => rw [ofWord?_of_isAmount h, Option.some.injEq, eq_comm, and_iff_right rfl]
  | false =>
    rw [ofWord?, h]
    rcases hkind with rfl | rfl <;> split_ifs <;> simp_all

theorem ofWord?_currencyInteger_iff (w : Text) : ofWord? w = some .currencyInteger ↔
    isCurrencyWord w = true ∨ isForeignAmount w = true := by
  rw [ofWord?_amount_iff w _ (.inl rfl), ← isAmount_whole_iff]
  by_cases h : w.contains '.' = true <;> simp

theorem ofWord?_currencyDecimal_iff {w : Text} (hw : (Token.word w).Proper) :
    ofWord? w = some .currencyDecimal ↔
      ∃ u f, w = u ++ f ∧ isCurrencyWord u = true ∧ IsFraction f := by
  rw [ofWord?_amount_iff w _ (.inr rfl)]
  constructor
  · rintro ⟨-, hdot⟩
    obtain ⟨c, u, f, rfl, hc, hu, ⟨rfl, -, -⟩ | ⟨hcurrency, hf, -⟩⟩ := Token.heads_word_iff.1 hw
    · have hcu : ∀ d ∈ c :: u, isWordPart d :=
        List.forall_mem_cons.2 ⟨isWordPart_of_isWordStart hc, hu⟩
      rw [List.append_nil, Token.not_contains_dot isWordPart_dot hcu] at hdot
      cases hdot
    · exact ⟨c :: u, f, rfl, hcurrency, hf⟩
  · rintro ⟨u, f, rfl, hu, hf⟩
    exact ⟨isAmount_decimals hu hf, by rw [Token.contains_dot_of_isFraction hf]; rfl⟩

end LiteralKind

/-! ## Values -/

namespace Parser

section Word

variable {c : Cursor} {w : Text}

/-- A word is a value that the next lexeme decides on. -/
theorem value_word_eq (hword : c.current.token = .word w) :
    value c = (take >>= fun _ => atToken .colon >>= fun counted =>
      if counted then advance >>= fun _ => current >>= fun lexeme =>
        match lexeme.token with
        | .number count => take >>= fun _ => pure (w ++ ":" ++ count, .countedDate)
        | _ => fail .dateCount
      else match LiteralKind.ofWord? w with
        | some kind => pure (w, kind)
        | none => throw (.invalidValue w c.current.start)) c := by
  obtain ⟨⟨token, start, stop, source⟩, ahead⟩ := c
  obtain rfl : token = .word w := hword
  rfl

/-- A word behind which no lexeme can be read is no value. -/
theorem value_word_error (hword : c.current.token = .word w) {e : ScanError} {ls : Lexemes}
    (h : c.ahead.pull = (.error e, ls)) : ∃ c', value c = .error (.scan e) c' := by
  have htake : take c = .error (.scan e) ⟨{ c.current with token := .finish }, ls⟩ := by
    change EStateM.bind advance _ { c with current.token := .finish } = _
    simp only [EStateM.bind, advance, h]
  exact ⟨_, (value_word_eq hword).trans (bind_of_error htake)⟩

/-- A word that no colon follows is the value that it is classified as. -/
theorem value_word (hword : c.current.token = .word w) {next : Lexeme} {ls : Lexemes}
    (h : c.ahead.pull = (.ok next, ls)) (hcolon : next.token ≠ .colon) :
    value c = match LiteralKind.ofWord? w with
      | some kind => .ok (w, kind) ⟨next, ls⟩
      | none => .error (.invalidValue w c.current.start) ⟨next, ls⟩ := by
  have htake : take c = .ok c.current ⟨next, ls⟩ := by
    rw [take_eq]
    simp only [advance, h]
  rw [value_word_eq hword, bind_of_ok htake, bind_of_ok (atToken_eq ..),
    beq_eq_false_iff_ne.2 hcolon]
  cases LiteralKind.ofWord? w <;> rfl

end Word

/-- **Which words are values that are amounts.**  A word of any text is one with decimals iff it
    is a word that the scanner takes for an amount, with the decimals that the scanner attached.
    It is a whole amount iff the scanner takes it for one, unless it is a foreign amount.  Both
    ask that no colon follows the word, and where no lexeme at all can be read behind it, the
    word is no value. -/
theorem value_amount_iff {text w : Text} {c : Cursor}
    (hmem : c.current ∈ (Lexemes.ofText text).toList) (hword : c.current.token = .word w) :
    (∀ e ls, c.ahead.pull = (.error e, ls) → ∃ c', value c = .error (.scan e) c') ∧
      ∀ next ls, c.ahead.pull = (.ok next, ls) → next.token ≠ .colon →
        (((∃ c', value c = .ok (w, .currencyInteger) c') ↔ isCurrencyWord w = true) ↔
          isForeignAmount w = false) ∧
        ((∃ c', value c = .ok (w, .currencyDecimal) c') ↔
          ∃ u f, w = u ++ f ∧ isCurrencyWord u = true ∧ IsFraction f) := by
  refine ⟨fun e ls h => value_word_error hword h, fun next ls h hcolon => ?_⟩
  have hproper : (Token.word w).Proper := hword ▸ Scanner.proper_of_mem_lexemes _ hmem
  have htyped (kind : LiteralKind) :
      (∃ c', value c = .ok (w, kind) c') ↔ LiteralKind.ofWord? w = some kind := by
    rw [value_word hword h hcolon]
    cases LiteralKind.ofWord? w <;> simp
  refine ⟨?_, by rw [htyped, LiteralKind.ofWord?_currencyDecimal_iff hproper]⟩
  rw [htyped, LiteralKind.ofWord?_currencyInteger_iff]
  cases hforeign : isForeignAmount w with
  | true => simp [isCurrencyWord_of_isForeignAmount hforeign]
  | false => simp

/-- An amount with decimals, at the end of its text. -/
theorem value_amount_iff_decimals :
    (∃ c, value ⟨⟨.word "EUR7.50", 0, 7, "EUR7.50"⟩, .finish 7⟩ =
        .ok ("EUR7.50", .currencyDecimal) c) ∧
      ¬ ∃ c, value ⟨⟨.word "EUR7.50", 0, 7, "EUR7.50"⟩, .finish 7⟩ =
        .ok ("EUR7.50", .currencyInteger) c := by
  have hmem : (⟨.word "EUR7.50", 0, 7, "EUR7.50"⟩ : Lexeme) ∈
      (Lexemes.ofText "EUR7.50").toList := List.mem_of_getElem? (i := 0) (by decide_cbv)
  obtain ⟨-, h⟩ := value_amount_iff (c := ⟨_, .finish 7⟩) hmem rfl
  obtain ⟨hwhole, hdecimals⟩ := h _ _ rfl (by decide)
  have hfraction : IsFraction ".50" := ⟨'5', ['0'], rfl, rfl, List.forall_mem_singleton.2 rfl⟩
  exact ⟨hdecimals.2 ⟨"EUR7", ".50", rfl, rfl, hfraction⟩,
    fun hread => absurd ((hwhole.2 rfl).1 hread) (by decide_cbv)⟩

/-- An amount with an Arabic digit is read as a whole amount, and the scanner takes it for none. -/
theorem value_foreign_amount :
    ∃ c, c.current ∈ (Lexemes.ofText "SELECT Id FROM X WHERE A = USD\u0665").toList ∧
      c.current.token = .word "USD\u0665" ∧ c.ahead = .finish 31 ∧
      (∃ c', value c = .ok ("USD\u0665", .currencyInteger) c') ∧
      isCurrencyWord "USD\u0665" = false := by
  have hmem : (⟨.word "USD\u0665", 27, 31, "USD\u0665"⟩ : Lexeme) ∈
      (Lexemes.ofText "SELECT Id FROM X WHERE A = USD\u0665").toList :=
    List.mem_of_getElem? (i := 7) (by decide_cbv)
  have hkind : LiteralKind.ofWord? "USD\u0665" = some .currencyInteger :=
    (LiteralKind.ofWord?_currencyInteger_iff _).2 (.inr rfl)
  have hvalue : value ⟨⟨.word "USD\u0665", 27, 31, "USD\u0665"⟩, .finish 31⟩ =
      .ok ("USD\u0665", .currencyInteger) ⟨.finish 31, .finish 31⟩ := by
    rw [value_word rfl rfl (by decide), hkind]
  exact ⟨⟨_, .finish 31⟩, hmem, rfl, rfl, ⟨_, hvalue⟩, rfl⟩

end Parser

end Soql
