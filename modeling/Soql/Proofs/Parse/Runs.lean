/-
  Runs of parsers over pieces.

  A parser that succeeds takes some of the pieces before its cursor, and
  parsers put after one another take pieces one after another.  The two sides
  of this are stated for all parsers alike.

  * `At E T ps c`: the cursor `c` stands before the pieces `ps`.
  * `Reads f P`: whenever `f` succeeds, the pieces it took, its result and the
    pieces it left satisfy `P`.
  * `Run f us a ds`: `f` takes the pieces `us` and yields `a`, where `ds`
    follows.
  * `Reads.byToken`, `Reads.answer`, `Reads.taken`: what a parser does with the
    token in view.
  * the small parsers and repetition on both sides.
-/
import Mathlib
import Soql.Parse.Basic
import Soql.Proofs.Token.Indented

namespace Soql

open Unicode Token

/-! ## Cursors -/

/-- The cursor stands before the pieces, which end a text of `T` characters up to `E`. -/
structure At (E : Ending) (T : Nat) (ps : List Piece) (c : Cursor) : Prop where
  fits : Fits ps E.text
  long : (spell ps ++ E.text).length ≤ T
  cursor : Cursor.ofLexemes (placed E T ps) = .ok c

/-- The cursor before pieces that are the rest of a text of `T` characters. -/
def cursor (T : Nat) : List Piece → Cursor
  | [] => ⟨.finish T, .finish T⟩
  | .blank .. :: ps => cursor T ps
  | .token t _ :: ps => ⟨lexemeAt (.plain T) T t ps, placed (.plain T) T ps⟩

theorem pull_placed (T : Nat) (ps : List Piece) : (placed (.plain T) T ps).pull =
    (.ok (cursor T ps).current, (cursor T ps).ahead) := by
  induction ps with
  | nil => rfl
  | cons p ps ih =>
    cases p with
    | blank => exact ih
    | token => rfl

theorem ofLexemes_placed (T : Nat) (ps : List Piece) :
    Cursor.ofLexemes (placed (.plain T) T ps) = .ok (cursor T ps) := by
  rw [Cursor.ofLexemes, pull_placed]

@[simp] theorem token_cursor (T : Nat) (ps : List Piece) :
    (cursor T ps).current.token = inView ps := by
  induction ps with
  | nil => rfl
  | cons p ps ih =>
    cases p with
    | blank => exact ih
    | token => rfl

theorem count_le_size (T : Nat) (ps : List Piece) : count ps ≤ (cursor T ps).size := by
  induction ps with
  | nil => simp
  | cons p ps ih =>
    cases p with
    | blank => exact (count_blank ..).trans_le ih
    | token => simp [cursor, Cursor.size, size_placed]

theorem Blank.cursor_append {T : Nat} {bs : List Piece} (h : Blank bs) (ps : List Piece) :
    cursor T (bs ++ ps) = cursor T ps :=
  h.append_eq (fun _ _ _ => rfl) ps

/-- Blanks, and a token after them. -/
def Single (t : Token) (us : List Piece) : Prop := ∃ bs hp, Blank bs ∧ us = bs ++ [.token t hp]

namespace Single

variable {t : Token} {us : List Piece}

theorem literals (h : Single t us) : literals us = t.literal?.toList := by
  obtain ⟨bs, hp, hb, rfl⟩ := h
  rw [literals_append, hb.literals, literals_token, literals_nil, List.nil_append,
    List.append_nil]

theorem inView_append (h : Single t us) (ds : List Piece) : inView (us ++ ds) = t := by
  obtain ⟨bs, hp, hb, rfl⟩ := h
  rw [List.append_assoc, hb.inView_append]
  rfl

theorem inView (h : Single t us) : inView us = t := by simpa using h.inView_append []

theorem count (h : Single t us) : count us = 1 := by
  obtain ⟨bs, hp, hb, rfl⟩ := h
  simp [hb.count]

theorem proper (h : Single t us) : t.Proper := by
  obtain ⟨bs, hp, -⟩ := h
  exact hp

theorem token (hp : t.Proper) : Single t [Piece.token t hp] := ⟨[], hp, blank_nil, rfl⟩

theorem blank_append {bs : List Piece} (hb : Blank bs) (h : Single t us) : Single t (bs ++ us) := by
  obtain ⟨bs', hp, hb', rfl⟩ := h
  exact ⟨bs ++ bs', hp, Soql.blank_append.2 ⟨hb, hb'⟩, (List.append_assoc ..).symm⟩

end Single

namespace At

variable {E : Ending} {T : Nat} {ps us : List Piece} {c c' : Cursor} {lexeme : Lexeme}

theorem drop (h : At E T (us ++ ps) c) (hc : Cursor.ofLexemes (placed E T ps) = .ok c') :
    At E T ps c' := by
  have hl := h.long
  rw [spell_append] at hl
  simp only [List.length_append] at hl
  exact ⟨((fits_append us ps E.text).1 h.fits).2, by rw [List.length_append]; omega, hc⟩

theorem ofLexemes_token (t : Token) (hp : t.Proper) (ps : List Piece) :
    Cursor.ofLexemes (placed E T (.token t hp :: ps)) = .ok ⟨lexemeAt E T t ps, placed E T ps⟩ :=
  rfl

/-- At the end of the pieces only the end of the text can be in view. -/
theorem eq_finish (h : At E T ps c) (hf : inView ps = .finish) :
    ∃ n, c = ⟨.finish n, .finish n⟩ ∧ E.lexemes = .finish n := by
  have hb := blank_of_inView hf
  have hc := h.cursor
  rw [← List.append_nil ps, hb.placed_append, placed] at hc
  have hs := E.ends
  cases hE : E.lexemes with
  | next _ rest => simp [hE, Lexemes.size] at hs
  | finish n =>
    rw [hE] at hc
    exact ⟨n, (Except.ok.inj hc).symm, rfl⟩
  | stuck => simp [hE, Cursor.ofLexemes, Lexemes.pull] at hc
  | broken => simp [hE, Cursor.ofLexemes, Lexemes.pull] at hc

theorem token (h : At E T ps c) : c.current.token = inView ps := by
  by_cases hf : inView ps = .finish
  · obtain ⟨n, rfl, -⟩ := h.eq_finish hf
    exact hf.symm
  · obtain ⟨bs, t, hp, qs, hb, rfl⟩ := exists_inView hf
    have hc := h.cursor
    rw [hb.placed_append, ofLexemes_token] at hc
    rw [← Except.ok.inj hc, hb.inView_append]
    rfl

/-- Moving on takes the token in view, if there is one. -/
theorem advance (h : At E T ps c) (ha : Parser.advance c = .ok lexeme c') :
    (∃ us t ds, ps = us ++ ds ∧ Single t us ∧ lexeme = lexemeAt E T t ds ∧ At E T ds c') ∨
      (inView ps = .finish ∧ At E T ps c') := by
  have ha' : Cursor.ofLexemes c.ahead = .ok c' ∧ lexeme = c.current := by
    unfold Parser.advance at ha
    split at ha
    · rename_i heq
      cases ha
      exact ⟨by rw [Cursor.ofLexemes, heq], rfl⟩
    · cases ha
  by_cases hf : inView ps = .finish
  · right
    refine ⟨hf, h.fits, h.long, ?_⟩
    obtain ⟨n, rfl, hE⟩ := h.eq_finish hf
    rw [← List.append_nil ps, (blank_of_inView hf).placed_append, placed, hE]
    exact ha'.1
  · left
    obtain ⟨bs, t, hp, qs, hb, rfl⟩ := exists_inView hf
    have hc := h.cursor
    rw [hb.placed_append, ofLexemes_token] at hc
    obtain rfl := Except.ok.inj hc
    refine ⟨bs ++ [Piece.token _ hp], _, qs, by simp, ⟨bs, hp, hb, rfl⟩, ha'.2, ?_⟩
    rw [List.append_cons] at h
    exact h.drop ha'.1

end At

/-- Whether the token is the keyword, up to ASCII case. -/
def Token.isKeyword (keyword : Text) : Token → Bool
  | .word w => Text.sameWord w keyword
  | _ => false

namespace Parser

variable {α β κ : Type} {f : Parser α} {g : α → Parser β}

theorem bind_eq_ok {b : β} {c c'' : Cursor} :
    (f >>= g) c = .ok b c'' ↔ ∃ a c', f c = .ok a c' ∧ g a c' = .ok b c'' := by
  change EStateM.bind f g c = _ ↔ _
  unfold EStateM.bind
  cases f c <;> simp

theorem bind_of_ok {a : α} {c c' : Cursor} (h : f c = .ok a c') : (f >>= g) c = g a c' := by
  change EStateM.bind f g c = _
  rw [EStateM.bind, h]

theorem bind_of_error {e : ParseError} {c c' : Cursor} (h : f c = .error e c') :
    (f >>= g) c = .error e c' := by
  change EStateM.bind f g c = _
  rw [EStateM.bind, h]

theorem pure_eq_ok {a b : α} {c c' : Cursor} :
    (pure a : Parser α) c = .ok b c' ↔ a = b ∧ c = c' := by
  change EStateM.Result.ok a c = _ ↔ _
  simp

theorem current_eq (c : Cursor) : current c = .ok c.current c := rfl

theorem fail_ne_ok {e : Expectation} {a : α} {c c' : Cursor} : fail e c ≠ .ok a c' := by
  intro h
  obtain ⟨lexeme, c₁, -, h⟩ := bind_eq_ok.1 h
  split at h <;> cases h

/-! ## What a parser takes -/

/-- Whenever the parser succeeds, the pieces it took, its result and the pieces it left satisfy
    `P`. -/
def Reads (f : Parser α) (P : List Piece → α → List Piece → Prop) : Prop :=
  ∀ ⦃E T ps c a c'⦄, At E T ps c → f c = .ok a c' →
    ∃ us ds, ps = us ++ ds ∧ At E T ds c' ∧ P us a ds

section Reads

variable {P Q : List Piece → α → List Piece → Prop} {R : α → List Piece → β → List Piece → Prop}

theorem Reads.mono (h : Reads f P) (hPQ : ∀ us a ds, P us a ds → Q us a ds) : Reads f Q := by
  intro E T ps c a c' hc hf
  obtain ⟨us, ds, hs, hd, hP⟩ := h hc hf
  exact ⟨us, ds, hs, hd, hPQ us a ds hP⟩

theorem Reads.bind (hf : Reads f P) (hg : ∀ a, Reads (g a) (R a)) :
    Reads (f >>= g) fun us b ds => ∃ vs a ws, us = vs ++ ws ∧ P vs a (ws ++ ds) ∧ R a ws b ds := by
  intro E T ps c b c'' hc h
  obtain ⟨a, c', h1, h2⟩ := bind_eq_ok.1 h
  obtain ⟨vs, ds, rfl, hc', hP⟩ := hf hc h1
  obtain ⟨ws, ds', rfl, hc'', hR⟩ := hg a hc' h2
  exact ⟨vs ++ ws, ds', (List.append_assoc ..).symm, hc'', vs, a, ws, rfl, hP, hR⟩

theorem Reads.pure (a : α) : Reads (pure a) fun us b _ => us = [] ∧ b = a := by
  intro E T ps c b c' hc h
  obtain ⟨rfl, rfl⟩ := pure_eq_ok.1 h
  exact ⟨[], ps, rfl, hc, rfl, rfl⟩

theorem Reads.fail (e : Expectation) : Reads (Parser.fail e) P := by
  intro E T ps c a c' hc h
  exact absurd h fail_ne_ok

theorem Reads.throw (e : ParseError) : Reads (throw e : Parser α) P := by
  intro E T ps c a c' hc h
  cases h

theorem Reads.ite {b : Prop} [Decidable b] {f' : Parser α} (ht : b → Reads f P)
    (he : ¬ b → Reads f' P) : Reads (if b then f else f') P := by
  split
  · exact ht ‹_›
  · exact he ‹_›

theorem Reads.current : Reads current fun us lexeme ds => us = [] ∧ lexeme.token = inView ds := by
  intro E T ps c a c' hc h
  cases h
  exact ⟨[], ps, rfl, hc, rfl, hc.token⟩

end Reads

/-! ## How a parser runs -/

/-- The parser takes the pieces `us` and yields `a`, where `ds` follows. -/
def Run (f : Parser α) (us : List Piece) (a : α) (ds : List Piece) : Prop :=
  ∀ T, (spell (us ++ ds)).length ≤ T → f (cursor T (us ++ ds)) = .ok a (cursor T ds)

section Run

variable {us vs bs ds : List Piece} {a : α} {b : β}

theorem Run.bind (hf : Run f us a (vs ++ ds)) (hg : Run (g a) vs b ds) :
    Run (f >>= g) (us ++ vs) b ds := by
  intro T hT
  rw [List.append_assoc] at hT ⊢
  exact bind_eq_ok.2 ⟨a, _, hf T hT, hg T (length_le_of_append hT)⟩

/-- A question about what is in view, answered. -/
theorem Run.answer (hf : Run f [] a (us ++ ds)) (hg : Run (g a) us b ds) :
    Run (f >>= g) us b ds := by
  have h : Run (f >>= g) ([] ++ us) b ds := hf.bind hg
  exact h

/-- A result that nothing more is taken for. -/
theorem Run.bind_nil (hf : Run f us a ds) (hg : Run (g a) [] b ds) : Run (f >>= g) us b ds := by
  have h : Run (f >>= g) (us ++ []) b ds := Run.bind hf hg
  rwa [List.append_nil] at h

theorem Run.pure (a : α) (ds : List Piece) : Run (pure a) [] a ds := fun _ _ => rfl

theorem Run.bind_pure (hf : Run f us a ds) (h : α → β) :
    Run (f >>= fun x => Pure.pure (h x)) us (h a) ds := hf.bind_nil (Run.pure (h a) ds)

theorem Run.blank_append (hb : Blank bs) (h : Run f us a ds) : Run f (bs ++ us) a ds := by
  intro T hT
  rw [List.append_assoc] at hT ⊢
  rw [hb.cursor_append]
  exact h T (length_le_of_append hT)

theorem Run.append_blank (hb : Blank bs) (h : Run f us a (bs ++ ds)) : Run f (us ++ bs) a ds := by
  intro T hT
  rw [List.append_assoc] at hT ⊢
  rw [h T hT, hb.cursor_append]

theorem Run.current {g : Lexeme → Parser β}
    (h : ∀ lexeme, lexeme.token = inView (us ++ ds) → Run (g lexeme) us b ds) :
    Run (current >>= g) us b ds := by
  intro T hT
  exact bind_eq_ok.2 ⟨_, _, current_eq _, h _ (token_cursor T _) T hT⟩

theorem Run.get {g : Cursor → Parser β}
    (h : ∀ c : Cursor, count (us ++ ds) ≤ c.size → Run (g c) us b ds) :
    Run (get >>= g) us b ds := by
  intro T hT
  exact bind_eq_ok.2 ⟨_, _, rfl, h _ (count_le_size T _) T hT⟩

end Run

/-- The parser takes the pieces, where `ds` follows; its result is left open. -/
def Skips (f : Parser α) (us ds : List Piece) : Prop :=
  ∀ T, (spell (us ++ ds)).length ≤ T → ∃ a, f (cursor T (us ++ ds)) = .ok a (cursor T ds)

theorem Skips.bind {us vs ds : List Piece} {b : β} (hf : Skips f us (vs ++ ds))
    (hg : ∀ a, Run (g a) vs b ds) : Run (f >>= g) (us ++ vs) b ds := by
  intro T hT
  rw [List.append_assoc] at hT ⊢
  obtain ⟨a, h⟩ := hf T hT
  exact bind_eq_ok.2 ⟨a, _, h, hg a T (length_le_of_append hT)⟩

theorem Skips.pure {us ds : List Piece} (hf : Skips f us ds) (b : β) :
    Run (f >>= fun _ => Pure.pure b) us b ds := by
  rw [← List.append_nil us]
  exact Skips.bind hf fun _ => Run.pure b ds

/-! ## Single tokens -/

theorem atToken_eq (t : Token) (c : Cursor) : atToken t c = .ok (c.current.token == t) c := rfl

theorem atKeyword_eq (k : Text) (c : Cursor) :
    atKeyword k c = .ok (c.current.token.isKeyword k) c := by
  change (match c.current.token with
    | .word w => (pure (Text.sameWord w k) : Parser Bool)
    | _ => pure false) c = _
  cases c.current.token <;> rfl

theorem take_eq (c : Cursor) (lexeme : Lexeme) (c' : Cursor) :
    take c = .ok lexeme c' ↔ advance c = .ok lexeme c' := by
  change (advance >>= fun _ => pure c.current) { c with current.token := .finish } = _ ↔ _
  rw [bind_eq_ok]
  constructor
  · rintro ⟨a, c₁, h1, h2⟩
    obtain ⟨rfl, rfl⟩ := pure_eq_ok.1 h2
    unfold advance at h1 ⊢
    revert h1
    cases c.ahead.pull with | mk r ahead => cases r <;> simp
  · intro h
    refine ⟨⟨.finish, c.current.start, c.current.stop, c.current.source⟩, c', ?_, ?_⟩
    · unfold advance at h ⊢
      revert h
      cases c.ahead.pull with | mk r ahead => cases r <;> simp
    · have : lexeme = c.current := by
        unfold advance at h
        split at h <;> cases h
        rfl
      rw [this]
      exact pure_eq_ok.2 ⟨rfl, rfl⟩

theorem reads_atToken (t : Token) :
    Reads (atToken t) fun us b ds => us = [] ∧ b = (inView ds == t) := by
  intro E T ps c b c' hc h
  rw [atToken_eq, hc.token] at h
  cases h
  exact ⟨[], ps, rfl, hc, rfl, rfl⟩

theorem reads_atKeyword (k : Text) :
    Reads (atKeyword k) fun us b ds => us = [] ∧ b = (inView ds).isKeyword k := by
  intro E T ps c b c' hc h
  rw [atKeyword_eq, hc.token] at h
  cases h
  exact ⟨[], ps, rfl, hc, rfl, rfl⟩

/-- What moving on takes: the token in view, or nothing at the end. -/
def Taken (us ds : List Piece) : Prop :=
  Single (inView (us ++ ds)) us ∨ (us = [] ∧ inView ds = .finish)

theorem Taken.single {us ds : List Piece} (h : Taken us ds) (hf : inView (us ++ ds) ≠ .finish) :
    Single (inView (us ++ ds)) us := by
  rcases h with h | ⟨rfl, h⟩
  · exact h
  · exact absurd h hf

theorem reads_advance : Reads advance fun us _ ds => Taken us ds := by
  intro E T ps c lexeme c' hc h
  rcases hc.advance h with ⟨us, t, ds, rfl, hs, -, hd⟩ | ⟨hf, hd⟩
  · exact ⟨us, ds, rfl, hd, Or.inl (by rwa [hs.inView_append])⟩
  · exact ⟨[], ps, rfl, hd, Or.inr ⟨rfl, hf⟩⟩

theorem reads_take : Reads take fun us _ ds => Taken us ds := by
  intro E T ps c lexeme c' hc h
  exact reads_advance hc ((take_eq ..).1 h)

section InView

variable {P Q : List Piece → β → List Piece → Prop} {t : Token}

/-- What a parser does with each token that can be in view. -/
theorem Reads.byToken {g : Lexeme → Parser β}
    (h : ∀ lexeme, Reads (g lexeme) fun us b ds =>
      inView (us ++ ds) = lexeme.token → P us b ds) : Reads (Parser.current >>= g) P := by
  intro E T ps c b c' hc hok
  obtain ⟨us, ds, rfl, hd, hP⟩ := h c.current hc hok
  exact ⟨us, ds, rfl, hd, hP hc.token.symm⟩

/-- What a parser does for each answer to a question about the token in view. -/
theorem Reads.answer {q : Parser Bool} {p : Token → Bool} {g : Bool → Parser β}
    (hq : ∀ c, q c = .ok (p c.current.token) c)
    (h : ∀ r, Reads (g r) fun us b ds => p (inView (us ++ ds)) = r → P us b ds) :
    Reads (q >>= g) P := by
  intro E T ps c b c' hc hok
  rw [bind_of_ok (hq c), hc.token] at hok
  obtain ⟨us, ds, rfl, hd, hP⟩ := h _ hc hok
  exact ⟨us, ds, rfl, hd, hP rfl⟩

/-- What a parser does where the token is in view, and where it is not. -/
theorem Reads.atToken {g : Bool → Parser β}
    (h : Reads (g true) fun us b ds => inView (us ++ ds) = t → P us b ds)
    (h' : Reads (g false) fun us b ds => inView (us ++ ds) ≠ t → P us b ds) :
    Reads (Parser.atToken t >>= g) P := by
  refine Reads.answer (p := (· == t)) (atToken_eq t) fun r => ?_
  cases r with
  | true => exact h.mono fun us b ds hP hview => hP (beq_iff_eq.1 hview)
  | false => exact h'.mono fun us b ds hP hview => hP (beq_eq_false_iff_ne.1 hview)

/-- The token that is in view is taken, and the rest is read after it. -/
theorem Reads.taken {f : Parser Lexeme} {g : Lexeme → Parser β}
    (hf : Reads f fun us _ ds => Taken us ds) (ht : t ≠ .finish) (hg : ∀ l, Reads (g l) P)
    (hQ : ∀ us vs b ds, Single t us → P vs b ds → Q (us ++ vs) b ds) :
    Reads (f >>= g) fun us b ds => inView (us ++ ds) = t → Q us b ds := by
  refine (hf.bind hg).mono ?_
  rintro _ b ds ⟨us, _, vs, rfl, hs, hP⟩ hview
  rw [List.append_assoc] at hview
  have hsingle := hs.single (by rwa [hview])
  rw [hview] at hsingle
  exact hQ us vs b ds hsingle hP

/-- The token that is in view is taken, and that is all. -/
theorem Reads.taken_pure {f : Parser Lexeme} (hf : Reads f fun us _ ds => Taken us ds)
    (ht : t ≠ .finish) {b : β} (hQ : ∀ us ds, Single t us → Q us b ds) :
    Reads (do let _ ← f; return b) fun us b ds => inView (us ++ ds) = t → Q us b ds := by
  refine hf.taken ht (fun _ => Reads.pure b) ?_
  rintro us _ _ ds hs ⟨rfl, rfl⟩
  rw [List.append_nil]
  exact hQ us ds hs

end InView

theorem advance_cursor {t : Token} {us : List Piece} (h : Single t us) (T : Nat)
    (ds : List Piece) :
    advance (cursor T (us ++ ds)) = .ok (lexemeAt (.plain T) T t ds) (cursor T ds) := by
  obtain ⟨bs, hp, hb, rfl⟩ := h
  rw [List.append_assoc, hb.cursor_append, advance]
  simp only [List.singleton_append, cursor, pull_placed]

theorem skips_advance {t : Token} {us : List Piece} (h : Single t us) (ds : List Piece) :
    Skips advance us ds := fun T _ => ⟨_, advance_cursor h T ds⟩

theorem skips_take {t : Token} {us : List Piece} (h : Single t us) (ds : List Piece) :
    Skips take us ds := fun T _ => ⟨_, (take_eq ..).2 (advance_cursor h T ds)⟩

theorem run_atToken (t : Token) (ds : List Piece) : Run (atToken t) [] (inView ds == t) ds := by
  intro T _
  rw [List.nil_append, atToken_eq, token_cursor]

theorem run_atKeyword (k : Text) (ds : List Piece) :
    Run (atKeyword k) [] ((inView ds).isKeyword k) ds := by
  intro T _
  rw [List.nil_append, atKeyword_eq, token_cursor]

theorem reads_expect {t : Token} (ht : t ≠ .finish) (e : Expectation) :
    Reads (expect t e) fun us _ _ => Single t us := by
  refine Reads.atToken (reads_advance.mono fun us _ ds h hview => ?_) (Reads.fail e)
  have hs := h.single (by rwa [hview])
  rwa [hview] at hs

theorem skips_expect {t : Token} {us : List Piece} (h : Single t us) (e : Expectation)
    (ds : List Piece) : Skips (expect t e) us ds := by
  intro T _
  refine ⟨lexemeAt (.plain T) T t ds, bind_eq_ok.2 ⟨true, _, ?_, advance_cursor h T ds⟩⟩
  rw [atToken_eq, token_cursor, h.inView_append, beq_self_eq_true]

section Sign

variable {t : Token} {f' : Parser α} {a : α} {us cs ds : List Piece}

/-- A sign taken where it is in view, and something else where it is not. -/
def ifToken (t : Token) (f f' : Parser α) : Parser α := do
  if ← atToken t then
    let _ ← advance
    f
  else f'

theorem Reads.ifToken {P P' : List Piece → α → List Piece → Prop} (ht : t ≠ .finish)
    (h : Reads f P) (h' : Reads f' P') : Reads (ifToken t f f') fun us a ds =>
      (∃ vs ws, us = vs ++ ws ∧ Single t vs ∧ P ws a ds) ∨ inView (us ++ ds) ≠ t ∧ P' us a ds := by
  refine Reads.atToken (reads_advance.taken ht (fun _ => h) ?_) (h'.mono ?_)
  · exact fun vs ws a ds hs hP => Or.inl ⟨vs, ws, rfl, hs, hP⟩
  · exact fun us a ds hP hview => Or.inr ⟨hview, hP⟩

theorem run_ifToken (hs : Single t cs) (h : Run f us a ds) :
    Run (ifToken t f f') (cs ++ us) a ds := by
  refine Run.answer (run_atToken t _) ?_
  rw [List.append_assoc, hs.inView_append, beq_self_eq_true]
  exact (skips_advance hs _).bind fun _ => h

theorem run_ifToken_not (hv : inView (us ++ ds) ≠ t) (h : Run f' us a ds) :
    Run (ifToken t f f') us a ds := by
  refine Run.answer (run_atToken t _) ?_
  rw [beq_eq_false_iff_ne.2 hv]
  exact h

/-- What is read before a sign is read together with it. -/
theorem Run.upTo (h : Run f us a (cs ++ ds)) (hs : Single t cs) (e : Expectation) (k : α → β) :
    Run (f >>= fun a => expect t e >>= fun _ => Pure.pure (k a)) (us ++ cs) (k a) ds := by
  have hsign : Run (expect t e >>= fun _ => Pure.pure (k a)) (cs ++ []) (k a) ds :=
    (skips_expect hs e ds).bind fun _ => Run.pure (k a) ds
  rw [List.append_nil] at hsign
  exact h.bind hsign

end Sign

/-! ## Words -/

/-- The keyword and the blanks before it. -/
def IsKeyword (k : Text) (us : List Piece) : Prop := ∃ w, Single (.word w) us ∧ Text.sameWord w k

theorem IsKeyword.literals {k : Text} {us : List Piece} (h : IsKeyword k us) :
    literals us = [] := by
  obtain ⟨w, hs, -⟩ := h
  rw [hs.literals]
  rfl

theorem isKeyword_eq_true {t : Token} {k : Text} (h : t.isKeyword k = true) :
    ∃ w, t = .word w ∧ Text.sameWord w k := by
  cases t with
  | word w => exact ⟨w, rfl, h⟩
  | _ => exact absurd h (by simp [Token.isKeyword])

theorem reads_eatKeyword (k : Text) : Reads (eatKeyword k) fun us b ds =>
    (b = true ∧ IsKeyword k us) ∨ (b = false ∧ us = [] ∧ (inView ds).isKeyword k = false) := by
  refine Reads.answer (p := Token.isKeyword k) (atKeyword_eq k) fun r => ?_
  cases r with
  | true =>
    refine (reads_advance.bind fun _ => Reads.pure true).mono ?_
    rintro _ _ ds ⟨us, _, _, rfl, h, rfl, rfl⟩ hview
    rw [List.append_nil] at hview ⊢
    obtain ⟨w, hw, hk⟩ := isKeyword_eq_true hview
    have hs := Taken.single h (by simp [hw])
    rw [List.nil_append, hw] at hs
    exact Or.inl ⟨rfl, w, hs, hk⟩
  | false =>
    refine (Reads.pure false).mono ?_
    rintro _ _ ds ⟨rfl, rfl⟩ hview
    exact Or.inr ⟨rfl, rfl, hview⟩

/-- A keyword taken where it is in view, and something else where it is not. -/
theorem Reads.ifKeyword {k : Text} {g : Bool → Parser β} {P Q : List Piece → β → List Piece → Prop}
    (h : Reads (g true) P) (h' : Reads (g false) Q) :
    Reads (eatKeyword k >>= g) fun us b ds =>
      (∃ vs ws, us = vs ++ ws ∧ IsKeyword k vs ∧ P ws b ds) ∨
        (inView (us ++ ds)).isKeyword k = false ∧ Q us b ds := by
  refine ((reads_eatKeyword k).bind (R := fun r => bif r then P else Q) fun r => ?_).mono ?_
  · cases r with
    | true => exact h
    | false => exact h'
  · rintro _ b ds ⟨vs, _, ws, rfl, ⟨rfl, hk⟩ | ⟨rfl, rfl, hview⟩, hR⟩
    · exact Or.inl ⟨vs, ws, rfl, hk, hR⟩
    · exact Or.inr ⟨hview, hR⟩

theorem reads_expectKeyword (k : Text) : Reads (expectKeyword k) fun us _ _ => IsKeyword k us := by
  refine ((reads_eatKeyword k).bind (R := fun b us _ _ => b = true ∧ us = []) ?_).mono ?_
  · intro b
    cases b
    · exact Reads.fail _
    · exact (Reads.pure ()).mono fun us _ _ h => ⟨rfl, h.1⟩
  · rintro us a ds ⟨vs, b, ws, rfl, h, rfl, rfl⟩
    rcases h with ⟨-, h⟩ | ⟨h, -⟩
    · simpa using h
    · cases h

theorem reads_identifier (e : Expectation) :
    Reads (identifier e) fun us w _ => Single (.word w) us := by
  refine Reads.byToken fun lexeme => ?_
  cases lexeme.token with
  | word w =>
    exact reads_take.taken_pure (by simp) fun us ds hs => hs
  | _ => exact Reads.fail e

theorem reads_keywordInView_eq (κ : Type) [Keyword κ] :
    Reads (keywordInView? κ) fun us o ds => us = [] ∧
      o = match inView ds with | .word w => Keyword.ofWord? w | _ => none := by
  refine (Reads.current.bind (R := fun lexeme us o _ => us = [] ∧
    o = match lexeme.token with | .word w => Keyword.ofWord? w | _ => none) ?_).mono ?_
  · intro lexeme
    cases lexeme.token <;> exact Reads.pure _
  · rintro us o ds ⟨_, lexeme, ws, rfl, ⟨rfl, hv⟩, rfl, h⟩
    rw [hv] at h
    exact ⟨rfl, h⟩

theorem reads_keywordInView (κ : Type) [Keyword κ] :
    Reads (keywordInView? κ) fun us k ds =>
      us = [] ∧ ∀ a, k = some a → ∃ w, inView ds = .word w := by
  refine (reads_keywordInView_eq κ).mono ?_
  rintro us o ds ⟨rfl, rfl⟩
  refine ⟨rfl, fun a ha => ?_⟩
  cases hv : inView ds with
  | word w => exact ⟨w, rfl⟩
  | _ => simp [hv] at ha

theorem reads_expectKeywordOf [Keyword κ] (e : Expectation) :
    Reads (expectKeywordOf e : Parser κ) fun us _ _ => ∃ w, Single (.word w) us := by
  refine ((reads_keywordInView κ).bind
    (R := fun k us _ ds => (∃ a, k = some a) ∧ Taken us ds) ?_).mono ?_
  · intro k
    cases k with
    | none => exact Reads.fail e
    | some a =>
      refine (reads_advance.bind fun _ => Reads.pure a).mono ?_
      rintro us b ds ⟨vs, _, _, rfl, h, rfl, rfl⟩
      exact ⟨⟨_, rfl⟩, by simpa using h⟩
  · rintro us b ds ⟨_, k, ws, rfl, ⟨rfl, hk⟩, ⟨a, ha⟩, h⟩
    obtain ⟨w, hw⟩ := hk a ha
    have := h.single (by rw [hw]; simp)
    rw [hw] at this
    exact ⟨w, this⟩

theorem reads_aliasName : Reads aliasName? fun us o _ =>
    (o = none ∧ us = []) ∨ ∃ w, o = some w ∧ Single (.word w) us ∧ isReserved w = false := by
  refine Reads.byToken fun lexeme => ?_
  cases lexeme.token with
  | word w =>
    refine Reads.ite (fun _ => ?_) fun hr => ?_
    · exact (Reads.pure none).mono fun us o ds h _ => Or.inl ⟨h.2, h.1⟩
    · exact reads_advance.taken_pure (by simp) fun us ds hs =>
        Or.inr ⟨w, rfl, hs, by simpa using hr⟩
  | _ => exact (Reads.pure none).mono fun us o ds h _ => Or.inl ⟨h.2, h.1⟩

section Words

variable {k w : Text} {us ds : List Piece}

theorem run_eatKeyword (h : IsKeyword k us) (ds : List Piece) : Run (eatKeyword k) us true ds := by
  obtain ⟨w, hs, hk⟩ := h
  have hv : (inView (us ++ ds)).isKeyword k = true := by rw [hs.inView_append]; exact hk
  refine Run.answer (run_atKeyword k _) ?_
  rw [hv, if_pos rfl]
  exact (skips_advance hs ds).pure true

theorem run_eatKeyword_false (h : (inView ds).isKeyword k = false) :
    Run (eatKeyword k) [] false ds := by
  refine Run.answer (run_atKeyword k _) ?_
  rw [List.nil_append, h]
  exact Run.pure false ds

theorem run_expectKeyword (h : IsKeyword k us) (ds : List Piece) :
    Run (expectKeyword k) us () ds := by
  rw [← List.append_nil us]
  exact (run_eatKeyword h ([] ++ ds)).bind (Run.pure () ds)

theorem run_identifier (h : Single (.word w) us) (e : Expectation) (ds : List Piece) :
    Run (identifier e) us w ds := by
  refine Run.current fun lexeme hl => ?_
  rw [hl, h.inView_append]
  exact (skips_take h ds).pure w

theorem run_keywordInView [Keyword κ] {o : Option κ}
    (h : o = match inView ds with | .word w => Keyword.ofWord? w | _ => none) :
    Run (keywordInView? κ) [] o ds := by
  refine Run.current fun lexeme hl => ?_
  rw [List.nil_append] at hl
  subst h
  cases hd : inView ds <;> rw [hl, hd] <;> exact Run.pure _ ds

theorem run_expectKeywordOf [Keyword κ] {a : κ} (h : Single (.word w) us)
    (hk : Keyword.ofWord? w = some a) (e : Expectation) (ds : List Piece) :
    Run (expectKeywordOf e) us a ds := by
  refine Run.answer (a := some a) (run_keywordInView ?_) ?_
  · rw [h.inView_append]
    exact hk.symm
  · exact (skips_advance h ds).pure a

theorem run_aliasName (h : Single (.word w) us) (hr : isReserved w = false) (ds : List Piece) :
    Run aliasName? us (some w) ds := by
  refine Run.current fun lexeme hl => ?_
  rw [h.inView_append] at hl
  simp only [hl, hr, Bool.false_eq_true, if_false]
  exact (skips_advance h ds).pure _

theorem run_aliasName_none (h : ∀ w, inView ds = .word w → isReserved w = true) :
    Run aliasName? [] none ds := by
  refine Run.current fun lexeme hl => ?_
  rw [List.nil_append] at hl
  rw [hl]
  cases hd : inView ds with
  | word w =>
    simp only [h w hd, if_true]
    exact Run.pure none ds
  | _ => exact Run.pure none ds

end Words

/-! ## Repetition -/

section Repetition

variable {P : List Piece → α → List Piece → Prop} {item : Parser α} {t : Token} {k : Text}

theorem Reads.after (ht : t ≠ .finish) (hi : Reads item P) : Reads (after t item) fun us o ds =>
    (o = none ∧ us = [] ∧ inView ds ≠ t) ∨
      ∃ a vs ws, o = some a ∧ us = vs ++ ws ∧ Single t vs ∧ P ws a ds := by
  refine (Reads.ifToken ht (hi.bind fun a => Reads.pure (some a)) (Reads.pure none)).mono ?_
  rintro us o ds (⟨vs, _, rfl, hs, ws, a, _, rfl, hP, rfl, rfl⟩ | ⟨hview, rfl, rfl⟩)
  · exact Or.inr ⟨a, vs, ws, rfl, by simp, hs, by simpa using hP⟩
  · exact Or.inl ⟨rfl, rfl, hview⟩

theorem Reads.afterKeyword (hi : Reads item P) : Reads (afterKeyword k item) fun us o ds =>
    (o = none ∧ us = [] ∧ (inView ds).isKeyword k = false) ∨
      ∃ a vs ws, o = some a ∧ us = vs ++ ws ∧ IsKeyword k vs ∧ P ws a ds := by
  refine (Reads.ifKeyword (hi.bind fun a => Reads.pure (some a)) (Reads.pure none)).mono ?_
  rintro _ _ ds (⟨vs, _, rfl, hk, ws, a, _, rfl, hP, rfl, rfl⟩ | ⟨hview, rfl, rfl⟩)
  · exact Or.inr ⟨a, vs, ws, rfl, by simp, hk, by simpa using hP⟩
  · exact Or.inl ⟨rfl, rfl, hview⟩

theorem run_after {us vs ds : List Piece} {a : α} (hs : Single t us) (hi : Run item vs a ds) :
    Run (after t item) (us ++ vs) (some a) ds :=
  run_ifToken hs (hi.bind_pure some)

theorem run_after_none {ds : List Piece} (h : inView ds ≠ t) : Run (after t item) [] none ds :=
  run_ifToken_not h (Run.pure none ds)

theorem run_afterKeyword {us vs ds : List Piece} {a : α} (hs : IsKeyword k us)
    (hi : Run item vs a ds) : Run (afterKeyword k item) (us ++ vs) (some a) ds :=
  (run_eatKeyword hs _).bind (hi.bind_pure some)

theorem run_afterKeyword_none {ds : List Piece} (h : (inView ds).isKeyword k = false) :
    Run (afterKeyword k item) [] none ds :=
  Run.answer (run_eatKeyword_false h) (Run.pure none ds)

/-- Repetition takes the pieces of one result after another. -/
theorem Reads.manyUpTo {step : Parser (Option α)} {Q : List Piece → α → Prop}
    (h : Reads step fun us o _ => (o = none ∧ us = []) ∨ ∃ a, o = some a ∧ Q us a) (n : Nat) :
    Reads (manyUpTo step n) fun us as _ =>
      ∃ uss, us = List.flatten uss ∧ List.Forall₂ Q uss as := by
  induction n with
  | zero => exact (Reads.pure []).mono fun us as _ h => ⟨[], h.1, h.2 ▸ .nil⟩
  | succ n ih =>
    refine (h.bind (R := fun o us as _ => (o = none ∧ us = [] ∧ as = []) ∨ ∃ a as' uss, o = some a ∧
      as = a :: as' ∧ us = List.flatten uss ∧ List.Forall₂ Q uss as') ?_).mono ?_
    · intro o
      cases o with
      | none => exact (Reads.pure []).mono fun us as _ h => Or.inl ⟨rfl, h⟩
      | some a =>
        refine (ih.bind fun as => Reads.pure (a :: as)).mono ?_
        rintro us as ds ⟨_, as', _, rfl, ⟨uss, rfl, hQ⟩, rfl, rfl⟩
        exact Or.inr ⟨a, as', uss, rfl, rfl, by simp, hQ⟩
    · rintro us as ds ⟨vs, o, ws, rfl, ⟨rfl, rfl⟩ | ⟨a, rfl, hQ⟩, hR⟩
      · rcases hR with ⟨-, rfl, rfl⟩ | ⟨a, _, _, h, -⟩
        · exact ⟨[], rfl, .nil⟩
        · cases h
      · rcases hR with ⟨h, -⟩ | ⟨b, as', uss, hb, rfl, rfl, hQs⟩
        · cases h
        · cases hb
          exact ⟨vs :: uss, rfl, .cons hQ hQs⟩

theorem Reads.many {step : Parser (Option α)} {Q : List Piece → α → Prop}
    (h : Reads step fun us o _ => (o = none ∧ us = []) ∨ ∃ a, o = some a ∧ Q us a) :
    Reads (many step) fun us as _ => ∃ uss, us = List.flatten uss ∧ List.Forall₂ Q uss as := by
  intro E T ps c as c' hc hf
  exact Reads.manyUpTo h _ hc hf

/-- The runs of one step after another, where each of the pieces is what may follow a step. -/
theorem run_manyUpTo {step : Parser (Option α)} {F : Token → Prop} {uss : List (List Piece)}
    {as : List α} (h : List.Forall₂ (fun us a => F (inView us) ∧ inView us ≠ .finish ∧
      ∀ ds, F (inView ds) → Run step us (some a) ds) uss as) {ds : List Piece}
    (hF : F (inView ds)) (he : Run step [] none ds) {n : Nat} (hn : as.length ≤ n) :
    Run (manyUpTo step n) (List.flatten uss) as ds := by
  induction h generalizing n with
  | nil =>
    cases n with
    | zero => exact Run.pure [] ds
    | succ n => exact Run.answer he (Run.pure [] ds)
  | @cons us a uss as hus h ih =>
    rw [List.length_cons] at hn
    obtain ⟨m, rfl⟩ : ∃ m, n = m + 1 := ⟨n - 1, by omega⟩
    refine (hus.2.2 _ ?_).bind ((ih (by omega)).bind_pure (a :: ·))
    -- The pieces of the next step follow, or else those after the last one.
    cases h with
    | nil => exact hF
    | @cons vs b vss bs hvs _ =>
      rw [List.flatten_cons, List.append_assoc, inView_append hvs.2.1]
      exact hvs.1

theorem run_many {step : Parser (Option α)} {F : Token → Prop} {uss : List (List Piece)}
    {as : List α} (h : List.Forall₂ (fun us a => F (inView us) ∧ inView us ≠ .finish ∧
      ∀ ds, F (inView ds) → Run step us (some a) ds) uss as) {ds : List Piece}
    (hF : F (inView ds)) (he : Run step [] none ds) :
    Run (many step) (List.flatten uss) as ds := by
  have hlen : as.length ≤ count (List.flatten uss) := by
    clear hF he
    induction h with
    | nil => exact Nat.zero_le _
    | cons hus _ ih =>
      have := count_pos hus.2.1
      rw [List.flatten_cons, count_append, List.length_cons]
      omega
  refine Run.get fun c hc => run_manyUpTo h hF he ?_
  rw [count_append] at hc
  omega

end Repetition

end Parser

end Soql
