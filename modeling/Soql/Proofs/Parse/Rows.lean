/-
  Lists with commas, and dotted paths.

  A list is read in the same way wherever blanks stand after its commas, so a
  layout is free to put line breaks there.

  * `Piece.mark`: a token that is a sign of its own, as a piece.
  * `Row vss us`: the pieces of the entries `vss` with commas between them.
  * `run_commaSeparated`, `run_untilClose`: the entries are read back.
  * `pathPieces`: names with points between them, read by `reads_dottedPath`.
-/
import Mathlib
import Soql.Proofs.Parse.Runs

namespace Soql

open Unicode Token Soql.Parser

/-! ## Pieces by name -/

/-- A blank. -/
def Piece.space : Piece := .blank ' ' (by decide)

/-- A token that is always written in the same way. -/
abbrev Piece.mark (t : Token) (h : t.isMark = true) : Piece := .token t (proper_mark t h)

/-- An opening parenthesis. -/
abbrev Piece.openParen : Piece := .mark .openParen rfl

/-- A closing parenthesis. -/
abbrev Piece.closeParen : Piece := .mark .closeParen rfl

theorem Single.mark (t : Token) (h : t.isMark = true) : Single t [.mark t h] :=
  Single.token (proper_mark t h)

theorem closed_mark (t : Token) (h : t.isMark = true) : Closed [Piece.mark t h] :=
  closed_token t _

theorem tight_mark (t : Token) (h : t.isMark = true) : Tight [Piece.mark t h] := tight_token t _

/-- Whether a word is made of ASCII letters and underscores. -/
def isPlainWord (w : Text) : Bool := !w.isEmpty && w.all fun c => c.isAlpha || c == '_'

theorem isWordStart_of_letter {c : Char} (h : (c.isAlpha || c == '_') = true) :
    isWordStart c = true := by
  rw [Bool.or_eq_true] at h
  rcases h with h | h
  · have hn : isAscii c = true := by
      have := toNat_of_isAlpha h
      simp only [isAscii, decide_eq_true_eq]
      omega
    simp [isWordStart, isAlphabetic, hn, h]
  · simp [isWordStart, h]

theorem isCurrencyWord_of_isPlainWord {w : Text} (h : isPlainWord w = true) :
    isCurrencyWord w = false := by
  rw [isPlainWord, Bool.and_eq_true, List.all_eq_true] at h
  unfold isCurrencyWord
  split
  · rename_i a b c amount
    cases amount with
    | nil => simp
    | cons d amount =>
      have hd := isDigit_of_isWordStart (isWordStart_of_letter (h.2 d (by simp)))
      simp [hd]
  · rfl

theorem proper_of_isPlainWord {w : Text} (h : isPlainWord w = true) : (word w).Proper := by
  have hc := isCurrencyWord_of_isPlainWord h
  rw [isPlainWord, Bool.and_eq_true, List.all_eq_true] at h
  obtain ⟨hne, hall⟩ := h
  cases w with
  | nil => simp at hne
  | cons c u =>
    refine heads_word_iff.2 ⟨c, u, [], by simp, isWordStart_of_letter (hall c (by simp)), ?_,
      Or.inl ⟨rfl, by simp, fun h => ?_⟩⟩
    · intro d hd
      exact isWordPart_of_isWordStart (isWordStart_of_letter (hall d (by simp [hd])))
    · rfl

/-- A keyword in capital letters. -/
def Piece.keyword (w : Text) (h : isPlainWord w = true) : Piece :=
  .token (.word w) (proper_of_isPlainWord h)

@[simp] theorem Piece.text_space : Piece.space.text = [' '] := rfl

@[simp] theorem Piece.text_keyword (w : Text) (h : isPlainWord w = true) :
    (Piece.keyword w h).text = w := rfl

@[simp] theorem literals_space (ps : List Piece) : literals (.space :: ps) = literals ps := rfl

@[simp] theorem literals_keyword (w : Text) (h : isPlainWord w = true) (ps : List Piece) :
    literals (.keyword w h :: ps) = literals ps := rfl

@[simp] theorem inView_space (ps : List Piece) : inView (.space :: ps) = inView ps := rfl

@[simp] theorem inView_keyword (w : Text) (h : isPlainWord w = true) (ps : List Piece) :
    inView (.keyword w h :: ps) = .word w := rfl

@[simp] theorem count_space (ps : List Piece) : count (.space :: ps) = count ps := count_blank ..

@[simp] theorem count_keyword (w : Text) (h : isPlainWord w = true) (ps : List Piece) :
    count (.keyword w h :: ps) = count ps + 1 := count_token ..

theorem blank_space : Blank [Piece.space] := blank_nil.cons _ _

theorem closed_space {ps : List Piece} (h : Closed ps) : Closed (.space :: ps) := h

theorem closed_keyword {ps : List Piece} (h : Closed ps) (w : Text) (hw : isPlainWord w = true) :
    Closed (.keyword w hw :: .space :: ps) := h.token_blank _ _

theorem sameWord_self (w : Text) : Text.sameWord w w = true := by simp [Text.sameWord]

theorem isKeyword_keyword (w : Text) (h : isPlainWord w = true) :
    IsKeyword w [Piece.keyword w h] :=
  ⟨w, Single.token _, sameWord_self w⟩

/-! ## Rows -/

/-- Entries with a comma after each but the last, and blanks after the commas. -/
inductive Row : List (List Piece) → List Piece → Prop
  | one (vs : List Piece) : Row [vs] vs
  | cons (vs : List Piece) {bs : List Piece} (hb : Blank bs) {vss : List (List Piece)}
      {us : List Piece} (h : Row vss us) :
      Row (vs :: vss) (vs ++ .mark .comma rfl :: (bs ++ us))

/-- The text of entries with commas between them and blanks after the commas. -/
inductive TextRow : List Text → Text → Prop
  | one (t : Text) : TextRow [t] t
  | cons (t : Text) {b : Text} (hb : ∀ c ∈ b, isBlank c) {ts : List Text} {s : Text}
      (h : TextRow ts s) : TextRow (t :: ts) (t ++ ',' :: (b ++ s))

theorem joinWith_cons (sep t : Text) (ts : List Text) :
    Text.joinWith sep (t :: ts) = t ++ ts.flatMap (sep ++ ·) := by
  induction ts generalizing t with
  | nil => simp [Text.joinWith]
  | cons u ts ih =>
    rw [Text.joinWith, ih, List.flatMap_cons, List.append_assoc, List.append_assoc]
    simp

theorem textRow_joinWith {b : Text} (hb : ∀ c ∈ b, isBlank c) (t : Text) (ts : List Text) :
    TextRow (t :: ts) (Text.joinWith (',' :: b) (t :: ts)) := by
  induction ts generalizing t with
  | nil => exact .one t
  | cons u ts ih =>
    have := TextRow.cons t hb (ih u)
    rwa [show Text.joinWith (',' :: b) (t :: u :: ts) =
        t ++ ',' :: (b ++ Text.joinWith (',' :: b) (u :: ts)) by simp [Text.joinWith]]

theorem TextRow.exists_row {ts : List Text} {s : Text} (h : TextRow ts s)
    {vss : List (List Piece)} (hv : vss.map spell = ts) : ∃ us, Row vss us ∧ spell us = s := by
  induction h generalizing vss with
  | one t =>
    obtain ⟨vs, rfl, rfl⟩ := List.map_eq_singleton_iff.1 hv
    exact ⟨vs, .one vs, rfl⟩
  | cons t hb h ih =>
    obtain ⟨vs, vss', rfl, rfl, hv'⟩ := List.map_eq_cons_iff.1 hv
    obtain ⟨us, hrow, hus⟩ := ih hv'
    obtain ⟨bs, hbs, rfl⟩ := exists_blank hb
    refine ⟨_, .cons vs hbs hrow, ?_⟩
    simp [hus, spelling]

theorem forall₂_mem_left {α β : Type} {R : α → β → Prop} {as : List α} {bs : List β}
    (h : List.Forall₂ R as bs) {a : α} (ha : a ∈ as) : ∃ b ∈ bs, R a b := by
  induction h with
  | nil => simp at ha
  | cons hab _ ih =>
    rcases List.mem_cons.1 ha with rfl | ha
    · exact ⟨_, by simp, hab⟩
    · obtain ⟨b, hb, h⟩ := ih ha
      exact ⟨b, by simp [hb], h⟩

namespace Row

variable {vss : List (List Piece)} {us : List Piece}

theorem literals (h : Row vss us) : literals us = (vss.map literals).flatten := by
  induction h with
  | one vs => simp
  | cons vs hb h ih =>
    rw [literals_append, literals_token, literals_append, hb.literals, ih]
    simp [literal?]

theorem closed (h : Row vss us) (hc : ∀ vs ∈ vss, Closed vs) : Closed us := by
  induction h with
  | one vs => exact hc vs (by simp)
  | cons vs hb h ih =>
    have hus := ih fun vs hvs => hc vs (by simp [hvs])
    refine (hc vs (by simp)).append ?_ (clean_cons (by decide) _)
    intro r hr
    exact ⟨rfl, (hb.append_closed hus) r hr⟩

theorem indent (h : Row vss us) (n : Nat) : Row (vss.map (indentAll n)) (indentAll n us) := by
  induction h with
  | one vs => exact .one _
  | cons vs hb h ih =>
    have := Row.cons (indentAll n vs) (hb.indentAll n) ih
    simpa [indentAll_cons, Piece.indent, Token.indent] using this

theorem inView (h : Row vss us) {vs : List Piece} (hv : vss.head? = some vs)
    (hf : inView vs ≠ .finish) : inView us = inView vs := by
  cases h with
  | one => simp_all
  | cons vs' =>
    obtain rfl : vs' = vs := by simpa using hv
    exact inView_append hf _

theorem tight (h : Row vss us) (ht : ∀ vs ∈ vss, Tight vs ∧ vs ≠ []) : Tight us ∧ us ≠ [] := by
  induction h with
  | one vs => exact ht vs (by simp)
  | cons vs hb h ih =>
    obtain ⟨hv, hne⟩ := ht vs (by simp)
    obtain ⟨hu, hne'⟩ := ih fun vs hvs => ht vs (by simp [hvs])
    exact ⟨hv.append hu hne hne' (_ :: _), by simp⟩

theorem count_le (h : Row vss us) : ∀ vs ∈ vss, count vs ≤ count us := by
  induction h with
  | one vs => simp
  | cons vs hb h ih =>
    intro vs' hv
    rw [count_append, count_token, count_append]
    rcases List.mem_cons.1 hv with rfl | hv
    · omega
    · have := ih vs' hv
      omega

theorem length_le (h : Row vss us) (hv : ∀ vs ∈ vss, Soql.inView vs ≠ .finish) :
    vss.length ≤ count us := by
  induction h with
  | one vs => exact count_pos (hv vs (by simp))
  | cons vs hb h ih =>
    have := ih fun vs hvs => hv vs (by simp [hvs])
    rw [count_append, count_token, count_append, List.length_cons]
    omega

/-- The parts of a row after its first entry, each with its comma. -/
theorem exists_parts {vs : List Piece} (h : Row (vs :: vss) us) :
    ∃ uss, us = vs ++ List.flatten uss ∧ List.Forall₂ (fun us' ws =>
      ∃ cs bs, Single .comma cs ∧ Blank bs ∧ us' = cs ++ (bs ++ ws)) uss vss := by
  generalize hv : vs :: vss = all at h
  induction h generalizing vs vss with
  | one =>
    cases hv
    exact ⟨[], by simp, .nil⟩
  | @cons _ bs hb vss' us' h ih =>
    cases hv
    obtain ⟨ws, wss, rfl⟩ : ∃ ws wss, vss' = ws :: wss := by cases h <;> exact ⟨_, _, rfl⟩
    obtain ⟨uss, rfl, hus⟩ := ih rfl
    exact ⟨(.mark .comma rfl :: (bs ++ ws)) :: uss, by simp,
      .cons ⟨_, bs, Single.mark .comma rfl, hb, rfl⟩ hus⟩

end Row

/-! ## Comma-separated lists -/

namespace Parser

variable {α β : Type} {item : Parser α} {Q : List Piece → α → Prop} {F : Token → Prop}

theorem Reads.commaSeparated (hi : Reads item fun us a _ => Q us a) :
    Reads (commaSeparated item) fun us r _ => ∃ vs uss rest, us = vs ++ rest ∧ Q vs r.1 ∧
      List.Forall₂ Q uss r.2 ∧ literals rest = (uss.map literals).flatten := by
  have hs : Reads (Parser.after .comma item) fun us o _ => (o = none ∧ us = []) ∨
      ∃ a, o = some a ∧ ∃ ws, literals us = literals ws ∧ Q ws a := by
    refine (hi.after (by simp)).mono ?_
    rintro us o ds (⟨ho, hu, -⟩ | ⟨a, vs, ws, ho, rfl, hv, hQ⟩)
    · exact Or.inl ⟨ho, hu⟩
    · exact Or.inr ⟨a, ho, ws, by simp [hv.literals, literal?], hQ⟩
  refine (hi.bind fun a => hs.many.bind fun as => Reads.pure (a, as)).mono ?_
  rintro us r ds ⟨vs, a, _, rfl, hQ, _, as, _, rfl, ⟨uss, rfl, hus⟩, rfl, rfl⟩
  suffices h : ∃ wss, List.Forall₂ Q wss as ∧
      literals uss.flatten = (wss.map literals).flatten by
    obtain ⟨wss, h1, h2⟩ := h
    exact ⟨vs, wss, uss.flatten, by simp, hQ, h1, h2⟩
  induction hus with
  | nil => exact ⟨[], .nil, rfl⟩
  | cons h _ ih =>
    obtain ⟨ws, hl, hw⟩ := h
    obtain ⟨wss, h1, h2⟩ := ih
    exact ⟨ws :: wss, .cons hw h1, by simp [hl, h2]⟩

theorem run_commaSeparated {vss : List (List Piece)} {us : List Piece} (hrow : Row vss us)
    {a : α} {as : List α} (h : List.Forall₂ (fun vs a => ∀ ds, F (inView ds) → Run item vs a ds)
      vss (a :: as)) (hF : F .comma) {ds : List Piece} (hds : F (inView ds))
    (hne : inView ds ≠ .comma) : Run (commaSeparated item) us (a, as) ds := by
  obtain ⟨vs, vss, rfl⟩ : ∃ vs vss', vss = vs :: vss' := by cases hrow <;> exact ⟨_, _, rfl⟩
  obtain ⟨uss, rfl, hparts⟩ := hrow.exists_parts
  obtain ⟨hvs, hvss⟩ := List.forall₂_cons.1 h
  have hmany : Run (many (Parser.after .comma item)) uss.flatten as ds := by
    refine run_many (F := F) ?_ hds (run_after_none hne)
    clear h hvs hrow
    induction hparts generalizing as with
    | nil =>
      cases hvss
      exact .nil
    | cons hp _ ih =>
      obtain ⟨cs, bs, hc, hb, rfl⟩ := hp
      cases hvss with
      | cons hv hvss =>
        refine .cons ⟨?_, ?_, fun ds hds => run_after hc ((hv ds hds).blank_append hb)⟩ (ih hvss)
        · rw [hc.inView_append]
          exact hF
        · rw [hc.inView_append]
          simp
  refine Run.bind (hvs _ ?_) (hmany.bind_pure fun as => (a, as))
  cases hparts with
  | nil => exact hds
  | cons hp _ =>
    obtain ⟨cs, bs, hc, hb, rfl⟩ := hp
    rw [List.flatten_cons, List.append_assoc, List.append_assoc, hc.inView_append]
    exact hF

/-! ## Lists between parentheses -/

/-- Takes the comma before another entry, unless the list ends. -/
def separator (e : Expectation) : Parser Unit := do
  unless ← atToken .closeParen do
    let _ ← expect .comma e

theorem separator_bind (e : Expectation) (k : Parser β) :
    (atToken .closeParen >>= fun b => if b then k else expect .comma e >>= fun _ => k) =
      separator e >>= fun _ => k := by
  unfold separator
  rw [bind_assoc]
  congr 1
  funext b
  cases b <;> simp

theorem reads_separator (e : Expectation) : Reads (separator e) fun us _ ds =>
    Single .comma us ∨ (us = [] ∧ inView ds = .closeParen) := by
  refine Reads.atToken ((Reads.pure ()).mono ?_) (((reads_expect (by simp) e).bind fun _ =>
    Reads.pure ()).mono ?_)
  · rintro _ _ ds ⟨rfl, -⟩ hview
    exact Or.inr ⟨rfl, hview⟩
  · rintro _ _ ds ⟨us, _, _, rfl, hs, rfl, -⟩ -
    exact Or.inl (by simpa using hs)

theorem run_separator {us : List Piece} (h : Single .comma us) (e : Expectation)
    (ds : List Piece) : Run (separator e) us () ds := by
  refine Run.answer (run_atToken _ _) ?_
  rw [h.inView_append, ← List.append_nil us]
  exact (skips_expect h e _).bind fun _ => Run.pure () ds

theorem run_separator_none {ds : List Piece} (h : inView ds = .closeParen) (e : Expectation) :
    Run (separator e) [] () ds := by
  refine Run.answer (run_atToken _ _) ?_
  rw [List.nil_append, h]
  exact Run.pure () ds

/-- An entry of a list between parentheses, with the comma after it. -/
def entry (item : Parser α) (e : Expectation) : Parser (Option α) := do
  if ← atToken .closeParen then return none
  let a ← item
  separator e
  return some a

theorem untilClose_eq (item : Parser α) (e : Expectation) :
    untilClose item e = many (entry item e) := by
  unfold untilClose entry
  congr 2
  funext b
  congr 2
  funext a
  exact separator_bind e (pure (some a))

theorem Reads.entry (hi : Reads item fun us a _ => Q us a) (e : Expectation) :
    Reads (entry item e) fun us o _ => (o = none ∧ us = []) ∨ ∃ a, o = some a ∧
      ∃ vs rest, us = vs ++ rest ∧ literals rest = [] ∧ Q vs a := by
  refine Reads.atToken ((Reads.pure none).mono fun us o ds h _ => Or.inl ⟨h.2, h.1⟩) ?_
  refine (hi.bind fun a => (reads_separator e).bind fun _ => Reads.pure (some a)).mono ?_
  rintro us o ds ⟨vs, a, _, rfl, hQ, rest, _, _, rfl, hr, rfl, rfl⟩ -
  refine Or.inr ⟨a, rfl, vs, rest, by simp, ?_, hQ⟩
  rcases hr with hr | ⟨rfl, -⟩
  · exact hr.literals
  · rfl

theorem Reads.untilClose (hi : Reads item fun us a _ => Q us a) (e : Expectation) :
    Reads (untilClose item e) fun us as _ => ∃ uss, List.Forall₂ Q uss as ∧
      literals us = (uss.map literals).flatten ∧ (uss = [] → us = []) ∧
      ∀ vs, uss.head? = some vs → ∃ rest, us = vs ++ rest := by
  rw [untilClose_eq]
  refine (hi.entry e).many.mono ?_
  rintro us as ds ⟨uss, rfl, hus⟩
  induction hus with
  | nil => exact ⟨[], .nil, rfl, fun _ => rfl, by simp⟩
  | @cons _ _ uss _ h _ ih =>
    obtain ⟨vs, rest, rfl, hr, hQ⟩ := h
    obtain ⟨wss, h1, h2, -⟩ := ih
    refine ⟨vs :: wss, .cons hQ h1, by simp [hr, h2], by simp, ?_⟩
    rintro _ ⟨⟩
    exact ⟨rest ++ uss.flatten, by simp⟩

theorem run_entry_none (item : Parser α) (e : Expectation) {ds : List Piece}
    (h : inView ds = .closeParen) : Run (entry item e) [] none ds := by
  refine Run.answer (run_atToken _ _) ?_
  rw [List.nil_append, h]
  exact Run.pure none ds

theorem run_untilClose_nil (item : Parser α) (e : Expectation) {ds : List Piece}
    (h : inView ds = .closeParen) : Run (untilClose item e) [] [] ds := by
  rw [untilClose_eq]
  exact run_many (F := fun _ => True) List.Forall₂.nil trivial (run_entry_none item e h)

theorem run_entry {vs cs ds : List Piece} {a : α} (hv : inView vs ≠ .finish)
    (hne : inView vs ≠ .closeParen) (hi : Run item vs a (cs ++ ds)) {e : Expectation}
    (hs : Run (separator e) cs () ds) : Run (entry item e) (vs ++ cs) (some a) ds := by
  refine Run.answer (run_atToken _ _) ?_
  rw [List.append_assoc, inView_append hv, beq_eq_false_iff_ne.2 hne]
  exact hi.bind (hs.bind_pure fun _ => some a)

/-- The entries of a row are read one after another, and the last one has no comma after it. -/
theorem run_entries {vss : List (List Piece)} {us : List Piece} (hrow : Row vss us)
    {as : List α} (h : List.Forall₂ (fun vs a => inView vs ≠ .finish ∧ inView vs ≠ .closeParen ∧
      ∀ ds, F (inView ds) → Run item vs a ds) vss as) (hF : F .comma) (hF' : F .closeParen)
    (e : Expectation) {ds : List Piece} (hds : inView ds = .closeParen) {n : Nat}
    (hn : as.length ≤ n) : Run (manyUpTo (entry item e) n) us as ds := by
  induction hrow generalizing as n with
  | one vs =>
    obtain ⟨a, as, hv, hnil, rfl⟩ := List.forall₂_cons_left_iff.1 h
    obtain rfl := List.forall₂_nil_left_iff.1 hnil
    obtain ⟨m, rfl⟩ : ∃ m, n = m + 1 := Nat.exists_eq_add_of_le' (by simpa using hn)
    have hi := hv.2.2 ds (by rwa [hds])
    have hentry : Run (entry item e) (vs ++ []) (some a) ds :=
      run_entry hv.1 hv.2.1 hi (run_separator_none hds e)
    rw [List.append_nil] at hentry
    have hnone : Run (manyUpTo (entry item e) m) [] [] ds :=
      run_manyUpTo (F := fun _ => True) .nil trivial (run_entry_none item e hds) (Nat.zero_le m)
    exact hentry.bind_nil (hnone.bind_pure (a :: ·))
  | @cons vs bs hb vss us hrow ih =>
    obtain ⟨a, as, hv, hvs, rfl⟩ := List.forall₂_cons_left_iff.1 h
    rw [List.length_cons] at hn
    obtain ⟨m, rfl⟩ : ∃ m, n = m + 1 := Nat.exists_eq_add_of_le' (by omega)
    have hi := hv.2.2 ([Piece.mark .comma rfl] ++ (bs ++ us ++ ds)) hF
    have hentry := run_entry hv.1 hv.2.1 hi (run_separator (Single.mark .comma rfl) e _)
    have hrest := (ih hvs (Nat.le_of_succ_le_succ hn)).blank_append hb
    rw [List.append_cons]
    exact Run.bind hentry (hrest.bind_pure (a :: ·))

theorem run_untilClose {vss : List (List Piece)} {us : List Piece} (hrow : Row vss us)
    {as : List α} (h : List.Forall₂ (fun vs a => inView vs ≠ .finish ∧ inView vs ≠ .closeParen ∧
      ∀ ds, F (inView ds) → Run item vs a ds) vss as) (hF : F .comma) (hF' : F .closeParen)
    (e : Expectation) {ds : List Piece} (hds : inView ds = .closeParen) :
    Run (untilClose item e) us as ds := by
  have hlen : as.length ≤ count us := by
    rw [← h.length_eq]
    refine hrow.length_le fun vs hvs => ?_
    obtain ⟨a, -, ha⟩ := forall₂_mem_left h hvs
    exact ha.1
  rw [untilClose_eq]
  refine Run.get fun c hc => run_entries hrow h hF hF' e hds ?_
  rw [count_append] at hc
  omega

/-! ## Dotted paths -/

/-- The texts of names, each after a point. -/
def dotted (ws : List Text) : Text := ws.flatMap ('.' :: ·)

theorem joinWith_dot (w : Text) (ws : List Text) :
    Text.joinWith "." (w :: ws) = w ++ dotted ws := by
  rw [joinWith_cons]
  rfl

/-- A point and a name after it. -/
def DottedName (us : List Piece) (w : Text) : Prop :=
  ∃ vs ws, us = vs ++ ws ∧ Single .dot vs ∧ Single (.word w) ws

theorem reads_dottedName : Reads (after .dot (identifier .fieldNameAfterDot)) fun us o _ =>
    (o = none ∧ us = []) ∨ ∃ w, o = some w ∧ DottedName us w := by
  refine ((reads_identifier _).after (by simp)).mono ?_
  rintro us o ds (⟨ho, hu, -⟩ | ⟨w, vs, ws, ho, rfl, hv, hw⟩)
  · exact Or.inl ⟨ho, hu⟩
  · exact Or.inr ⟨w, ho, vs, ws, rfl, hv, hw⟩

theorem DottedName.literals {us : List Piece} {w : Text} (h : DottedName us w) :
    Soql.literals us = [] := by
  obtain ⟨vs, ws, rfl, hv, hw⟩ := h
  simp [hv.literals, hw.literals, literal?]

theorem DottedName.proper {us : List Piece} {w : Text} (h : DottedName us w) : (word w).Proper := by
  obtain ⟨vs, ws, rfl, hv, hw⟩ := h
  exact hw.proper

/-- The names of a path after the first are read up to something else than a point. -/
theorem run_pathRest {uss : List (List Piece)} {ws : List Text}
    (h : List.Forall₂ DottedName uss ws) {ds : List Piece} (hds : inView ds ≠ .dot) :
    Run pathRest uss.flatten ws ds := by
  refine run_many (F := fun _ => True) (h.imp ?_) trivial (run_after_none hds)
  rintro us w ⟨vs, ws, rfl, hv, hw⟩
  refine ⟨trivial, ?_, fun ds _ => run_after hv (run_identifier hw _ ds)⟩
  rw [hv.inView_append]
  simp

theorem reads_pathRest : Reads pathRest fun us ws _ =>
    literals us = [] ∧ (∀ w ∈ ws, (word w).Proper) ∧
      ∀ ds, inView ds ≠ .dot → Run pathRest us ws ds := by
  refine reads_dottedName.many.mono ?_
  rintro us ws ds ⟨uss, rfl, h⟩
  refine ⟨?_, ?_, fun ds hds => run_pathRest h hds⟩
  · induction h with
    | nil => rfl
    | cons hu _ ih => rw [List.flatten_cons, literals_append, hu.literals, ih, List.nil_append]
  · induction h with
    | nil => simp
    | cons hu _ ih => exact List.forall_mem_cons.2 ⟨hu.proper, ih⟩

/-- The pieces of names, each after a point. -/
def dottedPieces : (ws : List Text) → (∀ w ∈ ws, (word w).Proper) → List Piece
  | [], _ => []
  | w :: ws, h => .mark .dot rfl :: .token (.word w) (h w List.mem_cons_self) ::
    dottedPieces ws fun v hv => h v (List.mem_cons_of_mem w hv)

/-- The pieces of a path. -/
def pathPieces {w : Text} {ws : List Text} (hw : (word w).Proper) (h : ∀ v ∈ ws, (word v).Proper) :
    List Piece := .token (.word w) hw :: dottedPieces ws h

section Paths

variable {w : Text} {ws : List Text} (hw : (word w).Proper) (h : ∀ v ∈ ws, (word v).Proper)

theorem spell_dottedPieces : spell (dottedPieces ws h) = dotted ws := by
  induction ws with
  | nil => rfl
  | cons w ws ih => simp [dottedPieces, ih, dotted, spelling]

theorem spell_pathPieces : spell (pathPieces hw h) = Text.joinWith "." (w :: ws) := by
  rw [joinWith_dot, ← spell_dottedPieces h]
  rfl

@[simp] theorem literals_pathPieces : literals (pathPieces hw h) = [] := by
  have hd : literals (dottedPieces ws h) = [] := by
    induction ws with
    | nil => rfl
    | cons w ws ih => simpa [dottedPieces, literals_token, literal?] using ih _
  simpa [pathPieces, literals_token, literal?] using hd

/-- After a path's first name there is a point, or what follows the path. -/
theorem inView_dottedPieces_ne {t : Token} (ht : t ≠ .dot) {ds : List Piece} (hds : inView ds ≠ t) :
    inView (dottedPieces ws h ++ ds) ≠ t := by
  cases ws with
  | nil => exact hds
  | cons w ws => exact ht.symm

/-- Points and names do not run into each other, nor into what follows the path. -/
theorem fits_dottedPieces (v : Text) {r : Text} (hr : Clean r) :
    Fits (dottedPieces ws h) r ∧ (word v).goesOn (spell (dottedPieces ws h) ++ r) = false := by
  induction ws generalizing v with
  | nil => exact ⟨trivial, goesOn_of_clean _ hr⟩
  | cons w ws ih =>
    obtain ⟨hfit, hend⟩ := ih (fun v hv => h v (by simp [hv])) w
    have hname := goesOn_word_dot v (r := spell (dottedPieces ws fun v hv =>
      h v (List.mem_cons_of_mem w hv)) ++ r) (h w List.mem_cons_self)
    exact ⟨⟨rfl, hend, hfit⟩, by simpa [dottedPieces, spelling] using hname⟩

theorem closed_pathPieces : Closed (pathPieces hw h) := fun _ hr =>
  ⟨(fits_dottedPieces h w hr).2, (fits_dottedPieces h w hr).1⟩

theorem not_mem_pathPieces : '\n' ∉ spell (pathPieces hw h) := by
  have hname {v : Text} (hv : (word v).Proper) : '\n' ∉ v := fun hm =>
    absurd (hv.isBlank_of_mem rfl _ hm) (by decide)
  have hd : '\n' ∉ spell (dottedPieces ws h) := by
    rw [spell_dottedPieces, dotted, List.mem_flatMap]
    rintro ⟨v, hv, hm⟩
    rcases List.mem_cons.1 hm with hm | hm
    · exact absurd hm (by decide)
    · exact hname (h v hv) hm
  simpa [pathPieces, spelling] using ⟨hname hw, hd⟩

theorem tight_pathPieces : Tight (pathPieces hw h) := by
  induction ws generalizing w with
  | nil => exact tight_token _ hw
  | cons v ws ih =>
    have htail := ih (h v (by simp)) fun v hv => h v (by simp [hv])
    exact (tight_token _ hw).append htail (by simp) (by simp [pathPieces])
      [Piece.mark .dot rfl]

theorem run_dottedPieces {ds : List Piece} (hds : inView ds ≠ .dot) :
    Run pathRest (dottedPieces ws h) ws ds := by
  have huss : ∃ uss, uss.flatten = dottedPieces ws h ∧ List.Forall₂ DottedName uss ws := by
    clear hds
    induction ws with
    | nil => exact ⟨[], rfl, .nil⟩
    | cons w ws ih =>
      obtain ⟨uss, hu, hus⟩ := ih fun v hv => h v (by simp [hv])
      exact ⟨[.mark .dot rfl, .token (.word w) (h w (by simp))] :: uss,
        by simp [hu, dottedPieces],
        .cons ⟨[_], [_], rfl, Single.token _, Single.token (h w (by simp))⟩ hus⟩
  obtain ⟨uss, hu, hus⟩ := huss
  rw [← hu]
  exact run_pathRest hus hds

end Paths

/-! ## Phrases -/

/-- The pieces `us` were read as `a`, and so are the pieces `vs` wherever `F` holds of the token
    after them.  Line feeds of `vs` stand in string literals or in the texts `rs`. -/
structure Phrase (f : Parser α) (F : Token → Prop) (rs : List Text) (us : List Piece) (a : α)
    (vs : List Piece) : Prop where
  closed : Closed vs
  literals : literals vs = literals us
  inView : inView vs = inView us
  starts : Soql.inView us ≠ .finish
  tight : Tight vs
  feeds : '\n' ∈ spell vs → ∃ u ∈ Soql.literals us ++ rs, '\n' ∈ u
  run : ∀ ds, F (Soql.inView ds) → Run f vs a ds

/-- Non-literal tokens hold no line feed. -/
theorem not_mem_spelling {t : Token} (h : t.Proper) (hl : t.literal? = none) :
    '\n' ∉ t.spelling :=
  fun hm => absurd (h.isBlank_of_mem hl _ hm) (by decide)

theorem not_mem_word {w : Text} (h : (word w).Proper) : '\n' ∉ w := not_mem_spelling h rfl

/-- A phrase after an opening parenthesis, as a parser reads it that takes both. -/
theorem Phrase.opened {f : Parser α} {g : Parser β} {G : Token → Prop} {rs : List Text}
    {us os vs : List Piece} {a : α} {b : β} (h : Phrase f F rs us a vs)
    (ho : Single .openParen os)
    (hrun : ∀ ds, G (Soql.inView ds) →
      Run g ([Piece.openParen] ++ vs) b ds) :
    Phrase g G rs (os ++ us) b ([Piece.openParen] ++ vs) where
  closed r hr := ⟨rfl, h.closed r hr⟩
  literals := by simp [literals_token, literal?, ho.literals, h.literals]
  inView := by simp [ho.inView_append]
  starts := by simp [ho.inView_append]
  tight := (tight_mark .openParen rfl).append h.tight (by simp)
    (ne_nil_of_inView (h.inView ▸ h.starts)) []
  feeds hm := by
    have hm : '\n' ∈ spell vs := by simpa [spelling] using hm
    simpa [ho.literals, literal?] using h.feeds hm
  run := hrun

/-- Phrases one after another: the pieces they are written with. -/
theorem exists_phrases {rs : α → List Text} {print : α → Text} {uss : List (List Piece)}
    {as : List α} (h : List.Forall₂ (fun us a => ∃ vs, Phrase item F (rs a) us a vs ∧
      spell vs = print a) uss as) :
    ∃ vss, vss.map spell = as.map print ∧ vss.map literals = uss.map literals ∧
      vss.map inView = uss.map inView ∧ (∀ vs ∈ vss, Closed vs ∧ Tight vs ∧ inView vs ≠ .finish ∧
        ('\n' ∈ spell vs → ∃ u ∈ (uss.map literals).flatten ++ as.flatMap rs, '\n' ∈ u)) ∧
      List.Forall₂ (fun vs a => ∀ ds, F (inView ds) → Run item vs a ds) vss as := by
  induction h with
  | nil => exact ⟨[], rfl, rfl, rfl, by simp, .nil⟩
  | @cons us a uss as hu _ ih =>
    obtain ⟨vs, hv, hsp⟩ := hu
    obtain ⟨vss, h1, h2, h3, h4, h5⟩ := ih
    refine ⟨vs :: vss, by simp [hsp, h1], by simp [hv.literals, h2], by simp [hv.inView, h3], ?_,
      .cons hv.run h5⟩
    intro ws hws
    rcases List.mem_cons.1 hws with rfl | hws
    · refine ⟨hv.closed, hv.tight, hv.inView ▸ hv.starts, fun hm => ?_⟩
      obtain ⟨u, hu, hn⟩ := hv.feeds hm
      refine ⟨u, ?_, hn⟩
      simp only [List.map_cons, List.flatten_cons, List.flatMap_cons, List.mem_append] at hu ⊢
      tauto
    · obtain ⟨hc, ht, hf, hnl⟩ := h4 ws hws
      refine ⟨hc, ht, hf, fun hm => ?_⟩
      obtain ⟨u, hu, hn⟩ := hnl hm
      refine ⟨u, ?_, hn⟩
      simp only [List.map_cons, List.flatten_cons, List.flatMap_cons, List.mem_append] at hu ⊢
      tauto

theorem mem_joinWith {c : Char} {sep : Text} (hs : c ∉ sep) {ts : List Text}
    (h : c ∈ Text.joinWith sep ts) : ∃ t ∈ ts, c ∈ t := by
  induction ts with
  | nil => simp [Text.joinWith] at h
  | cons t ts ih =>
    rw [joinWith_cons, List.mem_append, List.mem_flatMap] at h
    rcases h with h | ⟨u, hu, h⟩
    · exact ⟨t, by simp, h⟩
    · rcases List.mem_append.1 h with h | h
      · exact absurd h hs
      · exact ⟨u, by simp [hu], h⟩

/-- Phrases with commas between them. -/
theorem exists_phraseRow {rs : α → List Text} {print : α → Text} {us : List Piece}
    {uss : List (List Piece)} {a : α} {as : List α}
    (h : List.Forall₂ (fun us a => ∃ vs, Phrase item F (rs a) us a vs ∧ spell vs = print a)
      (us :: uss) (a :: as)) :
    ∃ vss vs, Row vss vs ∧ spell vs = Text.joinWith ", " ((a :: as).map print) ∧
      Closed vs ∧ Tight vs ∧ literals vs = ((us :: uss).map literals).flatten ∧
      inView vs = inView us ∧
      inView us ≠ .finish ∧
      ('\n' ∈ spell vs →
        ∃ u ∈ ((us :: uss).map literals).flatten ++ (a :: as).flatMap rs, '\n' ∈ u) ∧
      (∀ vs ∈ vss, inView vs ∈ (us :: uss).map inView ∧ inView vs ≠ .finish) ∧
      List.Forall₂ (fun vs a => ∀ ds, F (inView ds) → Run item vs a ds) vss (a :: as) := by
  obtain ⟨vss, h1, h2, h3, h4, h5⟩ := exists_phrases h
  have hrow := textRow_joinWith (b := [' ']) (by simp; decide) (print a) (as.map print)
  obtain ⟨vs, hvs, hsp⟩ := hrow.exists_row h1
  obtain ⟨ws, wss, rfl⟩ : ∃ ws wss, vss = ws :: wss := by cases hvs <;> exact ⟨_, _, rfl⟩
  have hws := h4 ws (by simp)
  have hview : inView ws = inView us := (List.cons.inj h3).1
  have hne : ∀ vs ∈ ws :: wss, Tight vs ∧ vs ≠ [] :=
    fun vs hv => ⟨(h4 vs hv).2.1, ne_nil_of_inView (h4 vs hv).2.2.1⟩
  refine ⟨_, vs, hvs, hsp, hvs.closed fun ws hw => (h4 ws hw).1, (hvs.tight hne).1,
    by rw [hvs.literals, h2], (hvs.inView rfl hws.2.2.1).trans hview, hview ▸ hws.2.2.1,
    fun hm => ?_, fun vs hv => ?_, h5⟩
  · rw [hsp] at hm
    obtain ⟨t, ht, hm⟩ := mem_joinWith (by decide) hm
    rw [← List.map_cons, ← h1] at ht
    obtain ⟨vs', hv', rfl⟩ := List.mem_map.1 ht
    exact (h4 vs' hv').2.2.2 hm
  · rw [← h3]
    exact ⟨List.mem_map_of_mem hv, (h4 vs hv).2.2.1⟩

theorem reads_dottedPath : Reads dottedPath fun us t _ => literals us = [] ∧
    ∃ vs, Phrase dottedPath (· ≠ .dot) [] us t vs ∧ spell vs = t := by
  refine (((reads_identifier _).bind fun w => reads_pathRest.bind fun ws =>
    Reads.pure (w, ws)).bind fun p => Reads.pure (Text.joinWith "." (p.1 :: p.2))).mono ?_
  rintro us t ds ⟨_, _, _, rfl, ⟨us, w, _, rfl, hw, vs, ws, _, rfl, hws, rfl, rfl⟩, rfl, rfl⟩
  refine ⟨by simp [hw.literals, hws.1, literal?], pathPieces hw.proper hws.2.1,
    ⟨closed_pathPieces _ _, ?_, ?_, ?_, tight_pathPieces _ _, ?_, fun ds hds => ?_⟩,
    spell_pathPieces _ _⟩
  · simp [hw.literals, hws.1, literal?]
  · rw [List.append_nil, List.append_nil, hw.inView_append]
    rfl
  · simp [hw.inView_append]
  · exact fun hm => absurd hm (not_mem_pathPieces _ _)
  · have hpath : Run path (pathPieces hw.proper hws.2.1) (w, ws) ds :=
      (run_identifier (Single.token hw.proper) .fieldName _).bind
        ((run_dottedPieces hws.2.1 hds).bind_pure fun ws => (w, ws))
    exact hpath.bind_pure fun p => Text.joinWith "." (p.1 :: p.2)

end Parser

end Soql
