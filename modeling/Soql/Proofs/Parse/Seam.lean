/-
  A text that ends, and the same text where others go on.

  A parser that comes to the end of a text stops there, with a result or for
  want of more.  Where more text follows, it has seen nothing of that before
  the end.  So it is refused again what it was refused, and what it has read it
  reads again, unless it would take the next word as well.

  * `Seam`: where a text ends, and the pieces that follow it elsewhere.
  * `Seam.Ends`: how the outcomes of the two runs belong together.
  * `Cut S p b f g`: what `f` makes of a text, `g` makes of it with the pieces
    of `S` behind it; `p` allows for results that come before the end.
  * `CutAt.bind`, `Cut.ifToken`, …: the ways to put parsers together.
-/
import Mathlib
import Soql.Proofs.Parse.Again

namespace Soql

open Unicode Token Soql.Parser

/-- The token is neither a word nor the end of the text. -/
def Token.IsSign : Token → Prop
  | .word _ | .finish => False
  | _ => True

theorem Token.IsSign.ne_finish {t : Token} (h : t.IsSign) : t ≠ .finish := by
  rintro rfl
  exact h

theorem Token.IsSign.ne_word {t : Token} (h : t.IsSign) (w : Text) : t ≠ .word w := by
  rintro rfl
  exact h

/-- The pieces start with one of the keywords, if there is a token among them. -/
def StartsWith (words : List Text) (us : List Piece) : Prop :=
  inView us = .finish ∨ ∃ w ∈ words, (inView us).isKeyword w = true

namespace StartsWith

variable {words words' : List Text} {us ds : List Piece}

theorem mono (h : StartsWith words us) (hw : words ⊆ words') : StartsWith words' us :=
  h.imp_right fun ⟨w, hmem, hk⟩ => ⟨w, hw hmem, hk⟩

theorem append (h : StartsWith words us) (h' : StartsWith words ds) :
    StartsWith words (us ++ ds) := by
  rcases h with h | ⟨w, hw, hk⟩
  · rwa [StartsWith, (blank_of_inView h).inView_append]
  · refine Or.inr ⟨w, hw, ?_⟩
    rwa [inView_append]
    intro hf
    rw [hf] at hk
    cases hk

/-- The first token is the end or a word that is spelled like one of the keywords. -/
theorem cases (h : StartsWith words us) :
    inView us = .finish ∨ ∃ u, inView us = .word u ∧ ∃ w ∈ words, u.fold = w.fold := by
  refine h.imp_right ?_
  rintro ⟨w, hw, hk⟩
  obtain ⟨u, hu, huw⟩ := isKeyword_eq_true hk
  exact ⟨u, hu, w, hw, by simpa [Text.sameWord] using huw⟩

theorem isKeyword (h : StartsWith words us) {w : Text}
    (hw : ∀ v ∈ words, Text.sameWord v w = false) : (inView us).isKeyword w = false := by
  rcases h.cases with hf | ⟨u, hu, v, hv, huv⟩
  · rw [hf]
    rfl
  · have hvw := hw v hv
    rw [hu]
    rwa [Text.sameWord, ← huv] at hvw

theorem ne (h : StartsWith words us) {t : Token} (ht : t.IsSign) : inView us ≠ t := by
  rintro rfl
  rcases h.cases with hf | ⟨u, hu, -⟩
  · exact ht.ne_finish hf
  · exact ht.ne_word u hu

end StartsWith

/-! ## Texts that end, and that go on -/

/-- The end of a text, and the pieces that follow it in another. -/
structure Seam where
  /-- Number of characters of the text that ends. -/
  part : Nat
  /-- Number of characters of the text that goes on. -/
  whole : Nat
  /-- The pieces that follow. -/
  rest : List Piece
  /-- They start with the keyword of a clause, if there are any. -/
  next : StartsWith clauseWords rest

namespace Seam

variable {S : Seam} {p : Prop} {b n : Nat} {us qs rs : List Piece} {α : Type} {w : Text}

/-- What follows does not start with the keyword. -/
def Spares (S : Seam) (w : Text) : Prop := (inView S.rest).isKeyword w = false

theorem spares (S : Seam) (hw : ∀ v ∈ clauseWords, Text.sameWord v w = false) : S.Spares w :=
  S.next.isKeyword hw

/-- The pieces are the rest of the text that ends; there are at most `b` tokens among them. -/
structure Place (S : Seam) (b : Nat) (qs : List Piece) : Prop where
  fits : Fits qs []
  part : (spell qs).length ≤ S.part
  whole : (spell (qs ++ S.rest)).length ≤ S.whole
  count : count qs ≤ b

namespace Place

theorem mono (h : S.Place b qs) (hb : b ≤ n) : S.Place n qs :=
  ⟨h.fits, h.part, h.whole, h.count.trans hb⟩

theorem drop (h : S.Place b (us ++ rs)) : S.Place (b - Soql.count us) rs where
  fits := ((fits_append ..).1 h.fits).2
  part := length_le_of_append h.part
  whole := length_le_of_append (by simpa using h.whole)
  count := by
    have := h.count
    rw [count_append] at this
    omega

theorem rest (h : S.Place b (us ++ rs)) : S.Place b rs := h.drop.mono (Nat.sub_le ..)

theorem cursor (h : S.Place b qs) : At (.plain S.part) S.part qs (cursor S.part qs) :=
  ⟨h.fits, by simpa [Ending.plain] using h.part, ofLexemes_placed S.part qs⟩

end Place

/-- A lexeme of the text that ends, and the same one of the text that goes on. -/
def Lexemes (S : Seam) (l m : Lexeme) : Prop := ∃ t qs,
  l = lexemeAt (.plain S.part) S.part t qs ∧
    m = lexemeAt (.plain S.whole) S.whole t (qs ++ S.rest) ∧
    (t.spelling ++ spell qs).length ≤ S.part ∧
    (t.spelling ++ spell (qs ++ S.rest)).length ≤ S.whole

/-- The text between two lexemes does not depend on what follows. -/
theorem Lexemes.textUpTo {l m l' m' : Lexeme} (h : S.Lexemes l m) (h' : S.Lexemes l' m') :
    l.textUpTo l' = m.textUpTo m' := by
  obtain ⟨t, qs, rfl, rfl, hpart, hwhole⟩ := h
  obtain ⟨t', qs', rfl, rfl, hpart', hwhole'⟩ := h'
  simp only [spell_append, List.length_append] at hpart hwhole hpart' hwhole'
  have hcut {n : Nat} (hn : n ≤ (t.spelling ++ spell qs).length) :
      ((t.spelling ++ spell qs) ++ spell S.rest).take n = (t.spelling ++ spell qs).take n :=
    List.take_append_of_le_length hn
  simp only [Lexeme.textUpTo, lexemeAt, Ending.plain, List.append_nil, spell_append]
  rw [← List.append_assoc, hcut (by simp only [List.length_append]; omega)]
  congr 1
  simp only [List.length_append]
  omega

/-- How the outcomes of two runs belong together, of one on the rest of the text that ends and of
    one where more follows. -/
inductive Ends (S : Seam) (p : Prop) (qs : List Piece) :
    EStateM.Result ParseError Cursor α → EStateM.Result ParseError Cursor α → Prop
  /-- Both runs take the same pieces, with the same result. -/
  | both {us rs : List Piece} {a : α} (h : qs = us ++ rs) :
    Ends S p qs (.ok a (cursor S.part rs)) (.ok a (cursor S.whole (rs ++ S.rest)))
  /-- The first run comes to the end, where the second may go on. -/
  | lost {a : α} {r : EStateM.Result ParseError Cursor α} (h : p) :
    Ends S p qs (.ok a (cursor S.part [])) r
  /-- The first run asks for more. -/
  | short {x : Expectation} {c : Cursor} {r : EStateM.Result ParseError Cursor α} :
    Ends S p qs (.error (.unexpectedEnd x) c) r
  /-- Both runs fail. -/
  | failed {e e' : ParseError} {c c' : Cursor} : Ends S p qs (.error e c) (.error e' c')

/-- Nothing is taken. -/
theorem Ends.stay (a : α) :
    S.Ends p qs (.ok a (cursor S.part qs)) (.ok a (cursor S.whole (qs ++ S.rest))) :=
  .both (List.nil_append _).symm

theorem Ends.append {r r' : EStateM.Result ParseError Cursor α} (h : S.Ends p rs r r')
    (us : List Piece) : S.Ends p (us ++ rs) r r' := by
  cases h with
  | both h => exact .both (by rw [h, List.append_assoc])
  | lost h => exact .lost h
  | short => exact .short
  | failed => exact .failed

theorem Ends.loosen {r r' : EStateM.Result ParseError Cursor α} (h : S.Ends False qs r r') :
    S.Ends p qs r r' := by
  cases h with
  | both h => exact .both h
  | lost h => exact h.elim
  | short => exact .short
  | failed => exact .failed

end Seam

namespace Parser

variable {S : Seam} {F : Token → Prop} {p q : Prop} {b : Nat} {α β κ : Type}
  {f g f' g' : Parser α} {h k : α → Parser β} {t : Token} {w : Text}

/-! ## Two runs -/

/-- Where a token with the property `F` is in view, `g` makes of the text that goes on what `f`
    makes of the text that ends. -/
def CutAt (S : Seam) (F : Token → Prop) (p : Prop) (b : Nat) (f g : Parser α) : Prop :=
  ∀ ⦃qs⦄, S.Place b qs → F (inView qs) →
    S.Ends p qs (f (cursor S.part qs)) (g (cursor S.whole (qs ++ S.rest)))

/-- The same whatever is in view. -/
abbrev Cut (S : Seam) (p : Prop) (b : Nat) (f g : Parser α) : Prop :=
  CutAt S (fun _ => True) p b f g

/-- At the end of a text the parser succeeds. -/
def Quiet (f : Parser α) : Prop := ∀ T, ∃ a, f (cursor T []) = .ok a (cursor T [])

theorem CutAt.at (hf : Cut S p b f g) : CutAt S F p b f g := fun _ hqs _ => hf hqs trivial

theorem CutAt.mono {n : Nat} (hf : CutAt S F p b f g) (hn : n ≤ b) : CutAt S F p n f g :=
  fun _ hqs ht => hf (hqs.mono hn) ht

theorem CutAt.loosen (hf : CutAt S F False b f g) : CutAt S F p b f g :=
  fun _ hqs ht => (hf hqs ht).loosen

/-- At the end of the text there are only blanks to take. -/
theorem CutAt.ended (hf : S.Place b [] →
      S.Ends p [] (f (cursor S.part [])) (g (cursor S.whole S.rest))) :
    CutAt S (· = .finish) p b f g := by
  intro qs hqs ht
  have hb := blank_of_inView ht
  rw [← List.append_nil qs] at hqs
  have := (hf hqs.rest).append qs
  rwa [List.append_nil, ← hb.cursor_append, ← hb.cursor_append S.rest, List.append_nil] at this

theorem Cut.cases (ht : CutAt S (· ≠ .finish) p b f g) (hf : S.Place b [] →
      S.Ends p [] (f (cursor S.part [])) (g (cursor S.whole S.rest))) : Cut S p b f g := by
  intro qs hqs _
  by_cases hend : inView qs = .finish
  · exact CutAt.ended hf hqs hend
  · exact ht hqs hend

/-! ## Parsers after one another -/

/-- Where the first parser may be lost at the end, the second one must be quiet there. -/
theorem CutAt.bindQuiet (hf : CutAt S F p b f g) (hh : ∀ a, Cut S q b (h a) (k a))
    (hq : p → q ∧ ∀ a, Quiet (h a)) : CutAt S F q b (f >>= h) (g >>= k) := by
  intro qs hqs ht
  have hends := hf hqs ht
  generalize hr : f (cursor S.part qs) = r, hr' : g (cursor S.whole (qs ++ S.rest)) = r' at hends
  cases hends with
  | @both us rs a heq =>
    subst heq
    rw [bind_of_ok hr, bind_of_ok hr']
    exact (hh a hqs.rest trivial).append us
  | @lost a _ hp =>
    obtain ⟨s, hs⟩ := (hq hp).2 a S.part
    rw [bind_of_ok hr, hs]
    exact .lost (hq hp).1
  | short =>
    rw [bind_of_error hr]
    exact .short
  | failed =>
    rw [bind_of_error hr, bind_of_error hr']
    exact .failed

theorem CutAt.bind (hf : CutAt S F False b f g) (hh : ∀ a, Cut S p b (h a) (k a)) :
    CutAt S F p b (f >>= h) (g >>= k) :=
  hf.bindQuiet hh False.elim

theorem cut_pure (a : α) : Cut S p b (pure a) (pure a) :=
  fun _ _ _ => .stay a

theorem CutAt.map (hf : CutAt S F p b f g) (m : α → β) :
    CutAt S F p b (f >>= fun a => pure (m a)) (g >>= fun a => pure (m a)) :=
  hf.bindQuiet (fun a => cut_pure (m a)) fun hp => ⟨hp, fun a _ => ⟨m a, rfl⟩⟩

/-- What is known of the number of tokens that the first parser takes lowers the bound of the
    second. -/
theorem CutAt.bindReads {Q : Nat → α → Prop} (hf : CutAt S F False b f g)
    (hr : Reads f fun us a _ => Q (count us) a)
    (hh : ∀ a n, Q n a → n ≤ b → Cut S p (b - n) (h a) (k a)) :
    CutAt S F p b (f >>= h) (g >>= k) := by
  intro qs hqs ht
  have hends := hf hqs ht
  generalize hrun : f (cursor S.part qs) = r, hrun' : g (cursor S.whole (qs ++ S.rest)) = r'
    at hends
  cases hends with
  | @both us rs a heq =>
    subst heq
    rw [bind_of_ok hrun, bind_of_ok hrun']
    obtain ⟨vs, ds, heq, hds, hQ⟩ := hr hqs.cursor hrun
    have hcount := congrArg count heq
    rw [count_append, count_append, hqs.rest.cursor.count_eq, hds.count_eq,
      Nat.add_right_cancel_iff] at hcount
    have hle := hqs.count
    rw [count_append] at hle
    exact (hh a _ (hcount ▸ hQ) (by omega) hqs.drop trivial).append us
  | lost hp => exact hp.elim
  | short =>
    rw [bind_of_error hrun]
    exact .short
  | failed =>
    rw [bind_of_error hrun, bind_of_error hrun']
    exact .failed

theorem cut_throw (e e' : ParseError) : Cut S p b (throw e : Parser α) (throw e') :=
  fun _ _ _ => .failed

theorem CutAt.ite {r : Bool} (ht : CutAt S F p b f g) (he : CutAt S F p b f' g') :
    CutAt S F p b (if r then f else f') (if r then g else g') := by
  cases r with
  | false => exact he
  | true => exact ht

/-- A parser that is bounded by the size of its cursor. -/
theorem Cut.bounded {f g : Nat → Parser α}
    (hf : ∀ d n n', d ≤ b → d < n → d < n' → Cut S p d (f n) (g n')) :
    Cut S p b (do f ((← get).size + 1)) (do g ((← get).size + 1)) := by
  intro qs hqs _
  have hpart := count_le_size S.part qs
  have hwhole := count_le_size S.whole (qs ++ S.rest)
  rw [count_append] at hwhole
  exact hf (count qs) _ _ hqs.count (by omega) (by omega) ⟨hqs.fits, hqs.part, hqs.whole, le_rfl⟩
    trivial

/-! ## Single tokens -/

theorem fail_eq (e : Expectation) (c : Cursor) : (fail e : Parser α) c =
    .error (if c.current.token = .finish then .unexpectedEnd e
      else .unexpectedToken e c.current.token c.current.start) c := by
  change (if c.current.token = .finish then throw (.unexpectedEnd e)
    else throw (.unexpectedToken e c.current.token c.current.start) : Parser α) c = _
  split <;> rfl

theorem cut_fail (e : Expectation) : Cut S p b (fail e : Parser α) (fail e) := by
  refine .cases (fun qs _ _ => ?_) fun _ => .short
  rw [fail_eq, fail_eq]
  exact .failed

/-- The lexemes in view are the same, and the one that is moved on to is the same. -/
theorem exists_lexemes {qs : List Piece} (hqs : S.Place b qs) (ht : inView qs ≠ .finish) :
    ∃ us rs l m, qs = us ++ rs ∧ Single (inView qs) us ∧ S.Lexemes l m ∧
      (cursor S.part qs).current = l ∧ (cursor S.whole (qs ++ S.rest)).current = m ∧
      advance (cursor S.part qs) = .ok l (cursor S.part rs) ∧
      advance (cursor S.whole (qs ++ S.rest)) = .ok m (cursor S.whole (rs ++ S.rest)) := by
  obtain ⟨bs, t, hp, rs, hb, rfl⟩ := exists_inView ht
  have hplace := hqs.rest
  have hs : Single t (bs ++ [Piece.token t hp]) := ⟨bs, hp, hb, rfl⟩
  have hpart := advance_cursor hs S.part rs
  have hwhole := advance_cursor hs S.whole (rs ++ S.rest)
  rw [hb.inView_append, inView_token]
  rw [List.append_assoc, List.singleton_append] at hpart hwhole
  rw [List.append_assoc]
  refine ⟨bs ++ [Piece.token t hp], rs, _, _, by simp, hs, ⟨t, rs, rfl, rfl, ?_, ?_⟩, ?_, ?_, hpart,
    hwhole⟩
  · simpa using hplace.part
  · simpa using hplace.whole
  · rw [hb.cursor_append]
    rfl
  · rw [hb.cursor_append]
    rfl

theorem CutAt.advance {h k : Lexeme → Parser β}
    (hh : ∀ l m d, S.Lexemes l m → b = d + 1 → Cut S p d (h l) (k m)) :
    CutAt S (· ≠ .finish) p b (advance >>= h) (advance >>= k) := by
  intro qs hqs ht
  obtain ⟨us, rs, l, m, rfl, hs, hlm, -, -, hpart, hwhole⟩ := exists_lexemes hqs ht
  rw [bind_of_ok hpart, bind_of_ok hwhole]
  have hb := hqs.count
  rw [count_append, hs.count] at hb
  have hdrop := hqs.drop
  rw [hs.count] at hdrop
  exact (hh l m (b - 1) hlm (by omega) hdrop trivial).append us

theorem CutAt.take (hf : Cut S p b f g) :
    CutAt S (· ≠ .finish) p b (take >>= fun _ => f) (take >>= fun _ => g) := by
  intro qs hqs ht
  obtain ⟨us, rs, l, m, rfl, -, -, -, -, hpart, hwhole⟩ := exists_lexemes hqs ht
  rw [bind_of_ok ((take_eq ..).2 hpart), bind_of_ok ((take_eq ..).2 hwhole)]
  exact (hf hqs.rest trivial).append us

/-- A parser that goes by the token in view, which is the same in both texts up to the end. -/
theorem CutAt.current {h k : Lexeme → Parser β} (hh : ∀ l m t, t ≠ .finish → S.Lexemes l m →
      l.token = t → m.token = t → CutAt S (· ≠ .finish) p b (h l) (k m)) :
    CutAt S (· ≠ .finish) p b (current >>= h) (current >>= k) := by
  intro qs hqs ht
  obtain ⟨-, -, l, m, -, -, hlm, hl, hm, -⟩ := exists_lexemes hqs ht
  have htoken := token_cursor S.part qs
  have htoken' := token_cursor S.whole (qs ++ S.rest)
  rw [inView_append ht] at htoken'
  have := hh l m _ ht hlm (hl ▸ htoken) (hm ▸ htoken') hqs ht
  subst hl hm
  exact this

/-- A parser that keeps a place for its errors. -/
theorem Cut.position {h k : Lexeme → Parser β} (hh : ∀ l m, Cut S p b (h l) (k m)) :
    Cut S p b (Parser.current >>= h) (Parser.current >>= k) :=
  fun _ hqs ht => hh _ _ hqs ht

theorem cut_atToken (hs : t.IsSign) : Cut S p b (atToken t) (atToken t) := by
  refine .cases (fun qs hqs hne => ?_) fun _ => ?_
  · rw [atToken_eq, atToken_eq, token_cursor, token_cursor, inView_append hne]
    exact .stay _
  · rw [atToken_eq, atToken_eq, token_cursor, token_cursor, inView_nil,
      beq_eq_false_iff_ne.2 hs.ne_finish.symm, beq_eq_false_iff_ne.2 (S.next.ne hs)]
    exact .stay _

/-- Two ways to go on, by whether a sign is in view. -/
theorem Cut.byToken (hs : t.IsSign) (ht : CutAt S (· ≠ .finish) p b f g) (hf : Cut S p b f' g') :
    Cut S p b (do if ← atToken t then f else f') (do if ← atToken t then g else g') := by
  have heq (f f' : Parser α) (c : Cursor) : (do if ← atToken t then f else f' : Parser α) c =
      if c.current.token = t then f c else f' c := by
    rw [bind_of_ok (atToken_eq t c)]
    by_cases h : c.current.token = t <;> simp [h]
  refine .cases (fun qs hqs hne => ?_) fun hnil => ?_
  · rw [heq, heq, token_cursor, token_cursor, inView_append hne]
    split
    · exact ht hqs hne
    · exact hf hqs trivial
  · rw [heq, heq, token_cursor, token_cursor, inView_nil, if_neg hs.ne_finish.symm,
      if_neg (S.next.ne hs)]
    exact hf hnil trivial

theorem Cut.ifToken (hs : t.IsSign) (hf : ∀ d, b = d + 1 → Cut S p d f g)
    (hf' : Cut S p b f' g') : Cut S p b (ifToken t f f') (ifToken t g g') :=
  .byToken hs (.advance fun _ _ d _ hb => hf d hb) hf'

/-- What comes after two ways to go on is read in both of them. -/
theorem if_bind (q : Parser Bool) (f f' : Parser α) (h : α → Parser β) :
    ((do if ← q then f else f') >>= h) = (do if ← q then f >>= h else f' >>= h) := by
  rw [bind_assoc]
  refine congrArg (q >>= ·) (funext fun r => ?_)
  cases r <;> rfl

theorem fail_bind (e : Expectation) (h : α → Parser β) : (fail e >>= h) = fail e := by
  funext c
  rw [bind_of_error (fail_eq e c), fail_eq]

theorem expect_bind (t : Token) (e : Expectation) (h : Lexeme → Parser β) :
    (expect t e >>= h) = (do if ← atToken t then advance >>= h else fail e) := by
  rw [expect, if_bind, fail_bind]

theorem Cut.expect {h k : Lexeme → Parser β} (hs : t.IsSign) (e : Expectation)
    (hh : ∀ l m, S.Lexemes l m → Cut S p b (h l) (k m)) :
    Cut S p b (expect t e >>= h) (expect t e >>= k) := by
  rw [expect_bind, expect_bind]
  exact .byToken hs (.advance fun l m d hlm hb => (hh l m hlm).mono (by omega)) (cut_fail e)

/-- What is read up to a sign that must be there is the same: where the text ends the sign is not
    there. -/
theorem CutAt.upTo (hf : Cut S True b f g) (hs : t.IsSign) (e : Expectation) (m : α → β) :
    Cut S p b (f >>= fun a => Parser.expect t e >>= fun _ => pure (m a))
      (g >>= fun a => Parser.expect t e >>= fun _ => pure (m a)) := by
  intro qs hqs _
  have hends := hf hqs trivial
  generalize hr : f (cursor S.part qs) = r, hr' : g (cursor S.whole (qs ++ S.rest)) = r' at hends
  cases hends with
  | @both us rs a heq =>
    subst heq
    rw [bind_of_ok hr, bind_of_ok hr']
    exact (Cut.expect hs e (fun _ _ _ => cut_pure (m a)) hqs.rest trivial).append us
  | lost =>
    rw [bind_of_ok hr, expect_bind, bind_of_ok (atToken_eq ..), token_cursor, inView_nil,
      beq_eq_false_iff_ne.2 hs.ne_finish.symm]
    exact .short
  | short =>
    rw [bind_of_error hr]
    exact .short
  | failed =>
    rw [bind_of_error hr, bind_of_error hr']
    exact .failed

/-! ## Words -/

theorem ifKeyword_eq (w : Text) (f f' : Parser α) (c : Cursor) :
    (do if ← eatKeyword w then f else f' : Parser α) c =
      if c.current.token.isKeyword w then (advance >>= fun _ => f) c else f' c := by
  unfold eatKeyword
  rw [bind_assoc, bind_of_ok (atKeyword_eq w c)]
  by_cases h : c.current.token.isKeyword w = true
  · simp only [if_pos h, bind_assoc, pure_bind, if_true]
  · simp only [if_neg h, pure_bind, Bool.false_eq_true, if_false]

theorem CutAt.ifKeyword (w : Text) (hf : ∀ d, b = d + 1 → Cut S p d f g)
    (hf' : CutAt S (· ≠ .finish) p b f' g') : CutAt S (· ≠ .finish) p b
      (do if ← eatKeyword w then f else f') (do if ← eatKeyword w then g else g') := by
  intro qs hqs hne
  rw [ifKeyword_eq, ifKeyword_eq, token_cursor, token_cursor, inView_append hne]
  split
  · exact CutAt.advance (fun _ _ d _ hb => hf d hb) hqs hne
  · exact hf' hqs hne

theorem Cut.ifKeyword (hw : S.Spares w) (hf : ∀ d, b = d + 1 → Cut S p d f g)
    (hf' : Cut S p b f' g') :
    Cut S p b (do if ← eatKeyword w then f else f') (do if ← eatKeyword w then g else g') := by
  refine .cases (.ifKeyword w hf hf'.at) fun hnil => ?_
  rw [ifKeyword_eq, ifKeyword_eq, token_cursor, token_cursor, hw]
  exact hf' hnil trivial

theorem cut_eatKeyword (hw : S.Spares w) : Cut S p b (eatKeyword w) (eatKeyword w) := by
  have := Cut.ifKeyword (b := b) (p := p) hw (fun _ _ => cut_pure true) (cut_pure false)
  have heq : eatKeyword w = (do if ← eatKeyword w then pure true else pure false) := by
    conv_lhs => rw [← bind_pure (eatKeyword w)]
    congr 1
    funext r
    cases r <;> rfl
  rwa [← heq] at this

theorem expectKeyword_bind (w : Text) (h : Parser β) : (expectKeyword w >>= fun _ => h) =
    (do if ← eatKeyword w then h else fail (.keyword w)) := by
  rw [expectKeyword, if_bind, fail_bind, pure_bind]

theorem Cut.expectKeyword (w : Text) (hf : ∀ d, b = d + 1 → Cut S p d f g) :
    Cut S p b (expectKeyword w >>= fun _ => f) (expectKeyword w >>= fun _ => g) := by
  rw [expectKeyword_bind, expectKeyword_bind]
  refine .cases (.ifKeyword w hf (cut_fail _).at) fun _ => ?_
  rw [ifKeyword_eq]
  exact .short

theorem cut_atKeyword (hw : S.Spares w) : Cut S p b (atKeyword w) (atKeyword w) := by
  refine .cases (fun qs hqs hne => ?_) fun _ => ?_
  · rw [atKeyword_eq, atKeyword_eq, token_cursor, token_cursor, inView_append hne]
    exact .stay _
  · rw [atKeyword_eq, atKeyword_eq, token_cursor, token_cursor, hw]
    exact .stay _

theorem cut_identifier (e : Expectation) : Cut S p b (identifier e) (identifier e) := by
  refine .cases (.current fun l m t _ _ hl hm => ?_) fun _ => .short
  rw [hl, hm]
  cases t with
  | word w => exact .take (cut_pure w)
  | _ => exact (cut_fail e).at

theorem keywordInView_eq (κ : Type) [Keyword κ] (c : Cursor) : keywordInView? κ c =
    .ok (match c.current.token with | .word w => Keyword.ofWord? w | _ => none) c := by
  change (match c.current.token with
    | .word w => (pure (Keyword.ofWord? w) : Parser (Option κ))
    | _ => pure none) c = _
  cases c.current.token <;> rfl

theorem CutAt.keywordInView [Keyword κ] {h k : Option κ → Parser β}
    (hh : ∀ o, CutAt S (· ≠ .finish) p b (h o) (k o)) :
    CutAt S (· ≠ .finish) p b (keywordInView? κ >>= h) (keywordInView? κ >>= k) := by
  intro qs hqs hne
  rw [bind_of_ok (keywordInView_eq ..), bind_of_ok (keywordInView_eq ..), token_cursor,
    token_cursor, inView_append hne]
  exact hh _ hqs hne

theorem cut_expectKeywordOf [Keyword κ] (e : Expectation) :
    Cut S p b (expectKeywordOf e : Parser κ) (expectKeywordOf e) := by
  refine .cases (.keywordInView fun o => ?_) fun _ => .short
  cases o with
  | none => exact (cut_fail e).at
  | some a => exact .advance fun _ _ _ _ _ => cut_pure a

/-- The keyword of a clause is no alias. -/
theorem aliasName_next (S : Seam) :
    aliasName? (cursor S.whole S.rest) = .ok none (cursor S.whole S.rest) := by
  change (match (cursor S.whole S.rest).current.token with
    | .word w => (if isReserved w then pure none
        else Parser.advance >>= fun _ => pure (some w) : Parser (Option Text))
    | _ => pure none) (cursor S.whole S.rest) = _
  rw [token_cursor]
  rcases S.next.cases with hf | ⟨u, hu, v, hv, huv⟩
  · rw [hf]
    rfl
  · have hreserved : ∀ v ∈ clauseWords, isReserved v = true := by decide
    have hfold : isReserved u = isReserved v := by
      simp only [isReserved, Text.sameWord, huv]
    rw [hu]
    dsimp only
    rw [hfold, hreserved v hv]
    rfl

theorem cut_aliasName : Cut S p b aliasName? aliasName? := by
  refine .cases (.current fun l m t _ _ hl hm => ?_) fun _ => ?_
  · rw [hl, hm]
    cases t with
    | word w => exact .ite (cut_pure none).at (.advance fun _ _ _ _ _ => cut_pure (some w))
    | _ => exact (cut_pure none).at
  · rw [aliasName_next]
    exact .stay none

/-! ## Repetition -/

/-- Each result of the step takes a token. -/
def Steps (S : Seam) (p : Prop) (b : Nat) (f g : Parser (Option α)) : Prop :=
  ∀ ⦃β⦄ ⦃h k : Option α → Parser β⦄ ⦃d⦄, d ≤ b →
    (∀ a e, d = e + 1 → Cut S p e (h (some a)) (k (some a))) → Cut S p d (h none) (k none) →
      Quiet (h none) → Cut S p d (f >>= h) (g >>= k)

section Repetition

theorem Steps.manyUpTo {f g : Parser (Option α)} (hf : Steps S p b f g) {d n n' : Nat} (hd : d ≤ b)
    (hn : d < n) (hn' : d < n') : Cut S p d (manyUpTo f n) (manyUpTo g n') := by
  induction n generalizing d n' with
  | zero => omega
  | succ n ih =>
    obtain ⟨n', rfl⟩ : ∃ m, n' = m + 1 := ⟨n' - 1, by omega⟩
    refine hf hd (fun a e he => ?_) (cut_pure []) fun _ => ⟨[], rfl⟩
    exact (ih (by omega) (by omega) (by omega)).map (a :: ·)

theorem Steps.many {f g : Parser (Option α)} (hf : Steps S p b f g) : Cut S p b (many f) (many g) :=
  .bounded fun _ _ _ hd hn hn' => hf.manyUpTo hd hn hn'

theorem Steps.cut {f g : Parser (Option α)} (hf : Steps S p b f g) : Cut S p b f g := by
  have := hf (h := pure) (k := pure) le_rfl (fun a _ _ => cut_pure (some a)) (cut_pure none)
    fun _ => ⟨none, rfl⟩
  rwa [bind_pure, bind_pure] at this

/-- The same bound in both runs may also be met. -/
theorem Cut.manyUpTo {f g : Parser (Option α)} (hf : Cut S False b f g) (n : Nat) :
    Cut S False b (manyUpTo f n) (manyUpTo g n) := by
  induction n with
  | zero => exact cut_pure []
  | succ n ih =>
    refine hf.bind fun o => ?_
    cases o with
    | none => exact cut_pure []
    | some a => exact ih.map (a :: ·)

theorem after_bind (t : Token) (f : Parser α) (h : Option α → Parser β) :
    (after t f >>= h) = ifToken t (f >>= fun a => h (some a)) (h none) := by
  rw [after, if_bind]
  simp only [ifToken, bind_assoc, pure_bind]

theorem Cut.after (hs : t.IsSign) (hf : Cut S False b f g) :
    Steps S p b (after t f) (after t g) := by
  intro β h k d hd hsome hnone _
  rw [after_bind, after_bind]
  refine .ifToken hs (fun e he => ?_) hnone
  exact (hf.mono (by omega)).bind fun a => hsome a e he

theorem afterKeyword_bind (w : Text) (f : Parser α) (h : Option α → Parser β) :
    (afterKeyword w f >>= h) =
      (do if ← eatKeyword w then f >>= fun a => h (some a) else h none) := by
  rw [afterKeyword, if_bind]
  simp only [bind_assoc, pure_bind]

/-- Where the keyword itself may follow, the first run is lost. -/
theorem Cut.afterKeyword (hw : p ∨ S.Spares w) (hf : Cut S False b f g) :
    Steps S p b (afterKeyword w f) (afterKeyword w g) := by
  intro β h k d hd hsome hnone hquiet
  have hitem (e : Nat) (he : d = e + 1) :
      Cut S p e (f >>= fun a => h (some a)) (g >>= fun a => k (some a)) :=
    (hf.mono (by omega)).bind fun a => hsome a e he
  rw [afterKeyword_bind, afterKeyword_bind]
  rcases hw with hp | hw
  · refine .cases (.ifKeyword w hitem hnone.at) fun _ => ?_
    obtain ⟨r, hr⟩ := hquiet S.part
    rw [ifKeyword_eq, token_cursor, inView_nil]
    exact hr ▸ .lost hp
  · exact .ifKeyword hw hitem hnone

theorem Cut.commaSeparated (hf : Cut S False b f g) :
    Cut S p b (commaSeparated f) (commaSeparated g) :=
  hf.bind fun a => (hf.after (t := .comma) trivial).many.map (a, ·)

theorem cut_separator (e : Expectation) : Cut S p b (separator e) (separator e) :=
  .byToken trivial (cut_pure ()).at (.expect (t := .comma) trivial e fun _ _ _ => cut_pure ())

theorem Cut.entry (hf : Cut S False b f g) (hr : Reads f fun us _ _ => 0 < count us)
    (e : Expectation) : Steps S p b (entry f e) (entry g e) := by
  intro β h k d hd hsome hnone _
  have heq (f : Parser α) (h : Option α → Parser β) : (Parser.entry f e >>= h) =
      (do if ← atToken .closeParen then h none
          else f >>= fun a => separator e >>= fun _ => h (some a)) := by
    rw [Parser.entry, if_bind]
    simp only [bind_assoc, pure_bind]
  rw [heq, heq]
  refine .byToken trivial hnone.at ?_
  refine (hf.mono hd).bindReads (Q := fun n _ => 0 < n) hr fun a n hn hle => ?_
  exact (cut_separator e).bind fun _ => (hsome a (d - 1) (by omega)).mono (by omega)

/-- Items that take a token each, up to a closing parenthesis. -/
theorem Cut.untilClose (hf : Cut S False b f g) (hr : Reads f fun us _ _ => 0 < count us)
    (e : Expectation) : Cut S p b (untilClose f e) (untilClose g e) := by
  rw [untilClose_eq, untilClose_eq]
  exact (hf.entry hr e).many

theorem Cut.both {f' g' : Parser β} (hf : Cut S p b f g) (hf' : Cut S p b f' g')
    (hq : p → Quiet f') : Cut S p b (both f f') (both g g') := by
  refine hf.bindQuiet (fun a => hf'.map (a, ·)) fun hp => ⟨hp, fun a T => ?_⟩
  obtain ⟨r, hr⟩ := hq hp T
  exact ⟨(a, r), bind_of_ok hr⟩

end Repetition

end Parser

end Soql
