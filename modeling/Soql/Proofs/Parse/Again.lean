/-
  What is read is read again.

  A parser sees no more of a text than what it takes and the token after
  that.  So what it takes once it takes again, with the same result, wherever
  the same token follows.  Where a text ends, a closing parenthesis may follow
  as well, unless the parser would take that too.

  * `Token.Instead p t u`: the token `u` may follow in place of `t`.
  * `Again p b f g`: what `f` takes is taken again by every `g i` whose bound
    `b i` allows for it; `AgainIf p P b f g`: for results with the property `P`.
  * `Again.bind`, `Again.many`, …: the ways to put parsers together.
  * `again_selectUpTo`: queries are read again, with any bound on their nesting,
    and as nested ones.
-/
import Mathlib
import Soql.Proofs.Parse.Select
import Soql.Proofs.Query.Shape

namespace Soql

open Unicode Token

/-- What may be in view after what is read, in place of a token: the same one and, if `p` holds, a
    closing parenthesis in place of the end of the text. -/
def Token.Instead (p : Prop) (t u : Token) : Prop := u = t ∨ p ∧ t = .finish ∧ u = .closeParen

namespace Token.Instead

variable {p : Prop} {t u v : Token}

theorem of_false (h : Instead False t u) : u = t := h.resolve_right fun h => h.1

/-- Other tokens are in view in both places or in none. -/
theorem eq_iff (h : Instead p t u) (hv : v ≠ .finish) (hp : p → v ≠ .closeParen) :
    u = v ↔ t = v := by
  rcases h with rfl | ⟨h, rfl, rfl⟩
  · rfl
  · exact ⟨fun heq => absurd heq.symm (hp h), fun heq => absurd heq.symm hv⟩

theorem ne (h : Instead p t u) (hv : v ≠ .finish) (hp : p → v ≠ .closeParen) (ht : t ≠ v) :
    u ≠ v := fun hu => ht ((h.eq_iff hv hp).1 hu)

theorem isKeyword (h : Instead p t u) (w : Text) : u.isKeyword w = t.isKeyword w := by
  rcases h with rfl | ⟨-, rfl, rfl⟩ <;> rfl

theorem append {ds ds' : List Piece} (h : Instead p (inView ds) (inView ds')) (us : List Piece) :
    Instead p (inView (us ++ ds)) (inView (us ++ ds')) := by
  by_cases hf : inView us = .finish
  · have hb := blank_of_inView hf
    rwa [hb.inView_append, hb.inView_append]
  · rw [inView_append hf, inView_append hf]
    exact Or.inl rfl

end Token.Instead

/-- The number of tokens before a cursor does not depend on the blanks. -/
theorem At.count_eq {E : Ending} {T : Nat} {ps : List Piece} {c : Cursor} (h : At E T ps c) :
    count ps = if c.current.token = .finish then 0 else c.ahead.size + 1 := by
  rw [h.token]
  by_cases hf : inView ps = .finish
  · rw [if_pos hf, (blank_of_inView hf).count]
  · obtain ⟨bs, t, hp, qs, hb, rfl⟩ := exists_inView hf
    have hc := h.cursor
    rw [hb.placed_append, At.ofLexemes_token] at hc
    rw [if_neg hf, ← Except.ok.inj hc, count_append, hb.count, count_token, size_placed, zero_add]

/-- There are no more tokens before a cursor than its size allows for. -/
theorem At.count_le {E : Ending} {T : Nat} {ps : List Piece} {c : Cursor} (h : At E T ps c) :
    count ps ≤ c.size := by
  rw [h.count_eq, Cursor.size]
  split <;> omega

namespace Parser

variable {ι α β κ : Type} {p : Prop} {b : ι → Nat} {f f' : Parser α} {g g' : ι → Parser α}
  {t : Token} {F : Token → Prop} {P : α → Prop} {Q : β → Prop}

/-! ## Reading again -/

/-- What `f` takes is taken by every `g i` whose bound allows for it, with the same result,
    wherever the same token follows or one that may stand in its place. -/
def Again (p : Prop) (b : ι → Nat) (f : Parser α) (g : ι → Parser α) : Prop :=
  Reads f fun us a ds =>
    ∀ i ds', count us ≤ b i → Instead p (inView ds) (inView ds') → Run (g i) us a ds'

/-- The same for results with the property `P`. -/
def AgainIf (p : Prop) (P : α → Prop) (b : ι → Nat) (f : Parser α) (g : ι → Parser α) : Prop :=
  Reads f fun us a ds => P a →
    ∀ i ds', count us ≤ b i → Instead p (inView ds) (inView ds') → Run (g i) us a ds'

/-- The same where a token with the property `F` is in view. -/
def AgainAt (p : Prop) (F : Token → Prop) (b : ι → Nat) (f : Parser α) (g : ι → Parser α) :
    Prop :=
  Reads f fun us a ds => F (inView (us ++ ds)) →
    ∀ i ds', count us ≤ b i → Instead p (inView ds) (inView ds') → Run (g i) us a ds'

theorem Again.at (h : Again p b f g) (F : Token → Prop) : AgainAt p F b f g :=
  h.mono fun _ _ _ h _ => h

theorem Again.if (h : Again p b f g) (P : α → Prop) : AgainIf p P b f g :=
  h.mono fun _ _ _ hrun _ => hrun

/-- What every result has need not be asked for. -/
theorem AgainIf.always (h : AgainIf p P b f g) (hP : ∀ a, P a) : Again p b f g :=
  h.mono fun _ a _ hrun => hrun (hP a)

/-- What is asked for of the last result makes for what is asked for of the first. -/
theorem AgainIf.bind {h : α → Parser β} {k : α → ι → Parser β} (hf : AgainIf p P b f g)
    (hh : ∀ a, AgainIf p Q b (h a) (k a)) (hP : ∀ a c r c', h a c = .ok r c' → Q r → P a) :
    AgainIf p Q b (f >>= h) fun i => g i >>= fun a => k a i := by
  intro E T ps c r c'' hc hok
  obtain ⟨a, c', ha, hr⟩ := bind_eq_ok.1 hok
  obtain ⟨vs, ds, rfl, hd, hv⟩ := hf hc ha
  obtain ⟨ws, ds, rfl, hd', hw⟩ := hh a hd hr
  refine ⟨vs ++ ws, ds, (List.append_assoc ..).symm, hd', fun hQ i ds' hb hds => ?_⟩
  rw [count_append] at hb
  exact (hv (hP a c' r c'' hr hQ) i _ (by omega) (hds.append ws)).bind
    (hw hQ i ds' (by omega) hds)

theorem Again.bind {h : α → Parser β} {k : α → ι → Parser β} (hf : Again p b f g)
    (hh : ∀ a, Again p b (h a) (k a)) : Again p b (f >>= h) fun i => g i >>= fun a => k a i :=
  ((hf.if fun _ => True).bind (fun a => (hh a).if fun _ => True) fun _ _ _ _ _ _ => trivial).always
    fun _ => trivial

theorem Again.pure (a : α) : Again p b (pure a) fun _ => pure a := by
  refine (Reads.pure a).mono ?_
  rintro us r ds ⟨rfl, rfl⟩ i ds' - -
  exact Run.pure r ds'

theorem Again.map (hf : Again p b f g) (h : α → β) :
    Again p b (f >>= fun a => Pure.pure (h a)) fun i => g i >>= fun a => Pure.pure (h a) :=
  hf.bind fun a => Again.pure (h a)

theorem Again.fail (e : Expectation) : Again p b (Parser.fail e : Parser α) g := Reads.fail e

theorem Again.throw (e : ParseError) : Again p b (throw e : Parser α) g := Reads.throw e

theorem Again.ite {q : Prop} [Decidable q] (ht : q → Again p b f g) (he : ¬ q → Again p b f' g') :
    Again p b (if q then f else f') fun i => if q then g i else g' i := by
  by_cases hq : q
  · simp only [if_pos hq]
    exact ht hq
  · simp only [if_neg hq]
    exact he hq

/-- A parser that looks at the token in view, and does the same at a closing parenthesis as at the
    end. -/
theorem Again.current {h : Lexeme → Parser β} {k : ι → Lexeme → Parser β}
    (hk : ∀ l, AgainAt p (· = l.token) (fun j : ι × {l' : Lexeme // l'.token = l.token} => b j.1)
      (h l) fun j => k j.1 j.2)
    (hend : ∀ l l' : Lexeme, l.token = .finish → l'.token = .closeParen → ∀ i, k i l' = k i l) :
    Again p b (current >>= h) fun i => current >>= k i := by
  intro E T ps c a c' hc hok
  obtain ⟨us, ds, rfl, hd, hrun⟩ := hk c.current hc hok
  have hview := hc.token
  refine ⟨us, ds, rfl, hd, fun i ds' hb hds => Run.current fun l hl => ?_⟩
  rcases hds.append us with heq | ⟨-, hfinish, hclose⟩
  · exact hrun hview.symm (i, ⟨l, by rw [hl, hview, heq]⟩) ds' hb hds
  · rw [hend c.current l (hview.trans hfinish) (hl.trans hclose)]
    exact hrun hview.symm (i, ⟨c.current, rfl⟩) ds' hb hds

/-- A parser that keeps a place for its errors. -/
theorem AgainIf.position {h : Lexeme → Parser β} {k : ι → Lexeme → Parser β}
    (hk : ∀ l, AgainIf p Q (fun j : ι × Lexeme => b j.1) (h l) fun j => k j.1 j.2) :
    AgainIf p Q b (Parser.current >>= h) fun i => Parser.current >>= k i := by
  intro E T ps c a c' hc hok
  obtain ⟨us, ds, rfl, hd, hrun⟩ := hk c.current hc hok
  exact ⟨us, ds, rfl, hd, fun hQ i ds' hb hds =>
    Run.current fun l _ => hrun hQ (i, l) ds' hb hds⟩

theorem Again.position {h : Lexeme → Parser β} {k : ι → Lexeme → Parser β}
    (hk : ∀ l, Again p (fun j : ι × Lexeme => b j.1) (h l) fun j => k j.1 j.2) :
    Again p b (Parser.current >>= h) fun i => Parser.current >>= k i :=
  (AgainIf.position fun l => (hk l).if fun _ => True).always fun _ => trivial

theorem AgainAt.advance (hF : ¬ F .finish) (hf : Again p b f g) :
    AgainAt p F b (advance >>= fun _ => f) fun i => advance >>= fun _ => g i := by
  refine (reads_advance.bind fun _ => hf).mono ?_
  rintro us a ds ⟨vs, l, ws, rfl, hv, hw⟩ hview i ds' hb hds
  rw [List.append_assoc] at hview
  have hs := hv.single fun h => hF (h ▸ hview)
  rw [count_append] at hb
  exact (skips_advance hs _).bind fun _ => hw i ds' (by omega) hds

/-! ## Single tokens -/

theorem again_atToken (ht : t ≠ .finish) (hp : p → t ≠ .closeParen) :
    Again p b (atToken t) fun _ => atToken t := by
  refine (reads_atToken t).mono ?_
  rintro us r ds ⟨rfl, rfl⟩ i ds' - hds
  have hview : (inView ds == t) = (inView ds' == t) := by
    rw [Bool.eq_iff_iff, beq_iff_eq, beq_iff_eq, hds.eq_iff ht hp]
  rw [hview]
  exact run_atToken t ds'

theorem Again.ifToken (ht : t ≠ .finish) (hp : t ≠ .closeParen) (hf : Again p b f g)
    (hf' : Again p b f' g') :
    Again p b (ifToken t f f') fun i => ifToken t (g i) (g' i) := by
  refine (Reads.ifToken ht hf hf').mono ?_
  rintro us a ds (⟨vs, ws, rfl, hs, hrun⟩ | ⟨hview, hrun⟩) i ds' hb hds
  · rw [count_append] at hb
    exact run_ifToken hs (hrun i ds' (by omega) hds)
  · exact run_ifToken_not ((hds.append us).ne ht (fun _ => hp) hview) (hrun i ds' hb hds)

theorem Again.expect (ht : t ≠ .finish) (e : Expectation) (hf : Again p b f g) :
    Again p b (Parser.expect t e >>= fun _ => f) fun i => Parser.expect t e >>= fun _ => g i := by
  refine (Reads.bind (reads_expect ht e) fun _ => hf).mono ?_
  rintro us a ds ⟨vs, _, ws, rfl, hs, hw⟩ i ds' hb hds
  rw [count_append] at hb
  exact (skips_expect hs e _).bind fun _ => hw i ds' (by omega) hds

theorem again_eatKeyword (w : Text) : Again p b (eatKeyword w) fun _ => eatKeyword w := by
  refine (reads_eatKeyword w).mono ?_
  rintro us r ds (⟨rfl, hw⟩ | ⟨rfl, rfl, hw⟩) i ds' - hds
  · exact run_eatKeyword hw ds'
  · exact run_eatKeyword_false (by rwa [hds.isKeyword])

theorem again_expectKeyword (w : Text) : Again p b (expectKeyword w) fun _ => expectKeyword w :=
  (reads_expectKeyword w).mono fun _ _ _ hw _ ds' _ _ => run_expectKeyword hw ds'

theorem again_identifier (e : Expectation) : Again p b (identifier e) fun _ => identifier e :=
  (reads_identifier e).mono fun _ _ _ hw _ ds' _ _ => run_identifier hw e ds'

/-- A question which member of a set of keywords is in view. -/
theorem Again.keywordInView [Keyword κ] {h : Option κ → Parser β} {k : Option κ → ι → Parser β}
    (hn : Again p b (h none) (k none))
    (hs : ∀ a, AgainAt p (· ≠ .finish) b (h (some a)) (k (some a))) :
    Again p b (keywordInView? κ >>= h) fun i => keywordInView? κ >>= fun o => k o i := by
  refine ((reads_keywordInView_eq κ).bind (R := fun o us r ds =>
    (o ≠ none → inView (us ++ ds) ≠ .finish) → ∀ i ds', count us ≤ b i →
      Instead p (inView ds) (inView ds') → Run (k o i) us r ds') fun o => ?_).mono ?_
  · cases o with
    | none => exact hn.mono fun _ _ _ h _ => h
    | some a => exact (hs a).mono fun _ _ _ h hv => h (hv (by simp))
  · rintro us r ds ⟨_, o, ws, rfl, ⟨rfl, rfl⟩, hw⟩ i ds' hb hds
    refine Run.answer (run_keywordInView rfl) ?_
    rw [List.nil_append]
    rcases hds.append ws with heq | ⟨-, hfinish, hclose⟩
    · rw [heq]
      refine hw (fun ho hf => ?_) i ds' hb hds
      simp [hf] at ho
    · simp only [hfinish] at hw
      rw [hclose]
      exact hw (fun ho => absurd rfl ho) i ds' hb hds

theorem again_expectKeywordOf [Keyword κ] (e : Expectation) :
    Again p b (expectKeywordOf e : Parser κ) fun _ => expectKeywordOf e :=
  Again.keywordInView (Again.fail e) fun a => AgainAt.advance (by simp) (Again.pure a)

theorem again_aliasName : Again p b aliasName? fun _ => aliasName? := by
  refine Again.current (fun l => ?_) fun l l' hl hl' _ => by rw [hl, hl']
  have htoken (j : ι × {l' : Lexeme // l'.token = l.token}) : j.2.1.token = l.token := j.2.2
  simp only [htoken]
  cases l.token with
  | word w =>
    dsimp only
    split
    · exact (Again.pure none).at _
    · exact AgainAt.advance (by simp) (Again.pure (some w))
  | _ => exact (Again.pure none).at _

/-! ## Repetition -/

/-- What is known of the number of tokens that are taken is known of those that are taken
    again. -/
theorem Reads.and_count {P : List Piece → α → List Piece → Prop} {Q : Nat → α → Prop}
    (h : Reads f P) (h' : Reads f fun us a _ => Q (count us) a) :
    Reads f fun us a ds => P us a ds ∧ Q (count us) a := by
  intro E T ps c a c' hc hok
  obtain ⟨us, ds, rfl, hd, hP⟩ := h hc hok
  obtain ⟨vs, ws, heq, hw, hQ⟩ := h' hc hok
  have hcount := congrArg count heq
  rw [count_append, count_append, hd.count_eq, hw.count_eq] at hcount
  have huv : count us = count vs := by omega
  exact ⟨us, ds, rfl, hd, hP, by rwa [huv]⟩

/-- Each result of the parser takes a token. -/
def Takes (step : Parser (Option α)) : Prop :=
  Reads step fun us o _ => o ≠ none → 0 < count us

theorem again_manyUpTo {step : Parser (Option α)} {g : ι → Parser (Option α)}
    (h : Reads step fun us o ds => (∀ i ds', count us ≤ b i → Instead p (inView ds) (inView ds') →
      Run (g i) us o ds') ∧ (o ≠ none → 0 < count us))
    {n : Nat} {E : Ending} {T : Nat} {ps : List Piece} {c c' : Cursor} {as : List α}
    (hc : At E T ps c) (hn : count ps < n) (hok : manyUpTo step n c = .ok as c') :
    ∃ us ds, ps = us ++ ds ∧ At E T ds c' ∧ ∀ i ds' n', count us ≤ b i → count us < n' →
      Instead p (inView ds) (inView ds') → Run (manyUpTo (g i) n') us as ds' := by
  induction n generalizing ps c as with
  | zero => omega
  | succ n ih =>
    obtain ⟨o, c₁, hstep, hok⟩ := bind_eq_ok.1 hok
    obtain ⟨us, ds, rfl, hd, hrun, htake⟩ := h hc hstep
    rw [count_append] at hn
    cases o with
    | none =>
      obtain ⟨rfl, rfl⟩ := pure_eq_ok.1 hok
      refine ⟨us, ds, rfl, hd, fun i ds' n' hb hn' hds => ?_⟩
      obtain ⟨n', rfl⟩ : ∃ k, n' = k + 1 := ⟨n' - 1, by omega⟩
      exact (hrun i ds' hb hds).bind_nil (Run.pure [] ds')
    | some a =>
      have hpos := htake (by simp)
      obtain ⟨as, c₂, hrest, hok⟩ := bind_eq_ok.1 hok
      obtain ⟨rfl, rfl⟩ := pure_eq_ok.1 hok
      obtain ⟨vs, ws, rfl, hw, hrun'⟩ := ih hd (by omega) hrest
      refine ⟨us ++ vs, ws, (List.append_assoc ..).symm, hw, fun i ds' n' hb hn' hds => ?_⟩
      rw [count_append] at hb hn'
      obtain ⟨n', rfl⟩ : ∃ k, n' = k + 1 := ⟨n' - 1, by omega⟩
      exact (hrun i (vs ++ ds') (by omega) (hds.append vs)).bind
        ((hrun' i ds' n' (by omega) (by omega) hds).bind_pure (a :: ·))

theorem Again.many {step : Parser (Option α)} {g : ι → Parser (Option α)} (h : Again p b step g)
    (ht : Takes step) : Again p b (many step) fun i => many (g i) := by
  intro E T ps c as c' hc hok
  have hsize := hc.count_le
  have hstep := h.and_count (Q := fun n o => o ≠ none → 0 < n) ht
  obtain ⟨us, ds, rfl, hd, hrun⟩ := again_manyUpTo hstep hc (by omega) hok
  refine ⟨us, ds, rfl, hd, fun i ds' hb hds => Run.get fun c' hc' => ?_⟩
  rw [count_append] at hc'
  exact hrun i ds' _ hb (by omega) hds

theorem Again.after (ht : t ≠ .finish) (hp : t ≠ .closeParen) (hf : Again p b f g) :
    Again p b (after t f) fun i => after t (g i) :=
  Again.ifToken ht hp (hf.map some) (Again.pure none)

theorem Again.afterKeyword (w : Text) (hf : Again p b f g) :
    Again p b (afterKeyword w f) fun i => afterKeyword w (g i) := by
  refine (again_eatKeyword w).bind fun r => ?_
  cases r with
  | true => exact hf.map some
  | false => exact Again.pure none

/-! ## Lists and paths -/

theorem Again.manyAfter (ht : t ≠ .finish) (hp : t ≠ .closeParen) (hf : Again p b f g) :
    Again p b (Parser.many (Parser.after t f)) fun i => Parser.many (Parser.after t (g i)) := by
  refine (hf.after ht hp).many ((Reads.after ht hf).mono ?_)
  rintro us o ds (⟨rfl, -, -⟩ | ⟨a, vs, ws, rfl, rfl, hs, -⟩) ho
  · exact absurd rfl ho
  · simp [hs.count]

theorem Again.manyAfterKeyword (w : Text) (hf : Again p b f g) :
    Again p b (Parser.many (Parser.afterKeyword w f))
      fun i => Parser.many (Parser.afterKeyword w (g i)) := by
  refine (hf.afterKeyword w).many ((Reads.afterKeyword hf).mono ?_)
  rintro us o ds (⟨rfl, -, -⟩ | ⟨a, vs, ws, rfl, rfl, ⟨v, hs, -⟩, -⟩) ho
  · exact absurd rfl ho
  · simp [hs.count]

theorem Again.commaSeparated (hf : Again p b f g) :
    Again p b (Parser.commaSeparated f) fun i => Parser.commaSeparated (g i) :=
  hf.bind fun a => (hf.manyAfter (by simp) (by simp)).map (a, ·)

theorem again_pathRest : Again p b pathRest fun _ => pathRest :=
  (again_identifier _).manyAfter (by simp) (by simp)

theorem again_path : Again p b path fun _ => path :=
  (again_identifier _).bind fun w => again_pathRest.map (w, ·)

theorem again_dottedPath : Again p b dottedPath fun _ => dottedPath :=
  again_path.map fun r => Text.joinWith "." (r.1 :: r.2)

theorem Again.both {f' : Parser β} {g' : ι → Parser β} (hf : Again p b f g)
    (hf' : Again p b f' g') : Again p b (Parser.both f f') fun i => Parser.both (g i) (g' i) :=
  hf.bind fun a => hf'.map (a, ·)

/-! ## Calls, subjects and values -/

/-- A name, and a call or something else after it. -/
theorem Again.named {e : Expectation} {h : Call → Parser β} {h' : Text → Parser β}
    {k : Call → ι → Parser β} {k' : Text → ι → Parser β} (hk : ∀ c, Again p b (h c) (k c))
    (hk' : ∀ w, Again p b (h' w) (k' w)) :
    Again p b (do
      let first ← Parser.current
      let name ← identifier e
      if ← atToken .openParen then h (← call first name) else h' name) fun i => (do
      let first ← Parser.current
      let name ← identifier e
      if ← atToken .openParen then k (← call first name) i else k' name i) := by
  refine (Reads.named hk hk').mono ?_
  rintro _ r ds (⟨_, _, vs, rfl, ⟨hs, ho, hcl, ha, -⟩, hrun⟩ |
    ⟨us, name, vs, rfl, hs, hview, hrun⟩) i ds' hb hds
  · rw [count_append] at hb
    exact run_call hs ho hcl ha.again (k := fun x => k x i) (hrun i ds' (by omega) hds)
  · rw [count_append] at hb
    exact run_path hs ((hds.append vs).ne (by simp) (by simp) hview) (hrun i ds' (by omega) hds)

theorem again_subject : Again p b subject fun _ => subject :=
  Again.named (h := fun c => pure (Subject.call c.flatten))
    (k := fun c _ => pure (Subject.call c.flatten))
    (fun c => Again.pure (Subject.call c.flatten))
    fun w => again_pathRest.map fun ws => Subject.field (Text.joinWith "." (w :: ws))

theorem again_value : Again p b value fun _ => value :=
  valuePieces_value.mono fun _ _ _ h _ _ _ hds => h.run fun hcolon =>
    (hds.eq_iff (by simp) (by simp)).1 hcolon

/-- Items that take a token each, up to a closing parenthesis. -/
theorem Again.untilClose (hf : Again False b f g) (ht : Reads f fun us _ _ => 0 < count us)
    (e : Expectation) :
    Again False b (Parser.untilClose f e) fun i => Parser.untilClose (g i) e := by
  have hsep : Again False b (separator e) fun _ => separator e := by
    refine (reads_separator e).mono ?_
    rintro us r ds (hs | ⟨rfl, hds⟩) i ds' - hv
    · exact run_separator hs e ds'
    · exact run_separator_none (hv.of_false.trans hds) e
  have hentry : Again False b (entry f e) fun i => entry (g i) e := by
    refine (again_atToken (t := .closeParen) (by simp) nofun).bind fun r => ?_
    cases r with
    | true => exact Again.pure none
    | false => exact hf.bind fun a => hsep.map fun _ => some a
  have htakes : Takes (entry f e) := by
    refine (ht.entry e).mono ?_
    rintro us o ds (⟨rfl, -⟩ | ⟨a, rfl, vs, rest, rfl, -, hpos⟩) ho
    · exact absurd rfl ho
    · rw [count_append]
      omega
  simp only [untilClose_eq]
  exact hentry.many htakes

theorem ValuePieces.count_pos {us : List Piece} {v : Text × LiteralKind}
    (h : ValuePieces t us v) : 0 < count us := by
  cases h with
  | string h | number h | date h | word h => simp [h.count]
  | bindVariable h | counted h => simp [h.count]

/-- What is taken up to a sign and with it is taken again whatever follows. -/
theorem Again.upTo (ht : t ≠ .finish) (e : Expectation) (hf : Again False b f g) (h : α → β) :
    Reads (f >>= fun a => Parser.expect t e >>= fun _ => Pure.pure (h a)) fun us r _ =>
      0 < count us ∧ ∀ i ds', count us ≤ b i →
        Run (g i >>= fun a => Parser.expect t e >>= fun _ => Pure.pure (h a)) us r ds' := by
  refine (Reads.bind hf fun a => (reads_expect ht e).bind fun _ => Reads.pure (h a)).mono ?_
  rintro us r ds ⟨vs, a, ws, rfl, hv, cs, _, _, rfl, hs, rfl, rfl⟩
  refine ⟨by simp [hs.count], fun i ds' hb => ?_⟩
  rw [count_append] at hb
  have hview : inView ((cs ++ []) ++ ds') = inView ((cs ++ []) ++ ds) := by
    rw [List.append_nil, hs.inView_append, hs.inView_append]
  exact (hv i _ (by omega) (Or.inl hview)).bind
    ((skips_expect hs e _).bind fun _ => Run.pure _ ds')

theorem Again.closed (e : Expectation) (hf : Again False b f g) (h : α → β) :
    Again p b (f >>= fun a => Parser.expect .closeParen e >>= fun _ => Pure.pure (h a))
      fun i => g i >>= fun a => Parser.expect .closeParen e >>= fun _ => Pure.pure (h a) :=
  (hf.upTo (by simp) e h).mono fun _ _ _ hrun i ds' hb _ => hrun.2 i ds' hb

/-- A literal takes a token. -/
theorem reads_literalText_pos : Reads literalText fun us _ _ => 0 < count us := by
  refine (valuePieces_value.bind fun v => Reads.pure (v.2.render v.1)).mono ?_
  rintro us r ds ⟨vs, v, ws, rfl, hv, -⟩
  have := hv.count_pos
  rw [count_append]
  omega

theorem again_groupValue : Again p b groupValue fun _ => groupValue := by
  have hlit {p : Prop} : Again p b literalText fun _ => literalText :=
    again_value.map fun v => v.2.render v.1
  exact Again.ifToken (by simp) (by simp) ((hlit.untilClose reads_literalText_pos _).closed _ _)
    hlit

/-! ## Conditions -/

theorem again_comparison : Again p b comparison fun _ => comparison := by
  refine (again_eatKeyword "NOT").bind fun r => ?_
  cases r with
  | true => exact (again_expectKeyword "IN").map fun _ => Comparison.notIn
  | false =>
    refine Again.current (fun l => ?_) fun l l' hl hl' _ => by
      rw [hl, hl']
      rfl
    have htoken (j : ι × {l' : Lexeme // l'.token = l.token}) : j.2.1.token = l.token := j.2.2
    simp only [htoken]
    cases hk : comparisonOf? l.token with
    | none => exact (Again.fail _).at _
    | some k =>
      refine AgainAt.advance (fun h => ?_) (Again.pure k)
      rw [← h] at hk
      cases hk

theorem Again.comparing (hf : Again p b f g) :
    Again p b (Parser.comparing f) fun i => Parser.comparing (g i) :=
  again_subject.bind fun s => again_comparison.bind fun k => hf.map fun r => (s, k, r)

theorem inView_ne_finish {us : List Piece} (h : 0 < count us) : inView us ≠ .finish := by
  intro hf
  rw [(blank_of_inView hf).count] at h
  exact lt_irrefl 0 h

section Nested

variable {nested : Parser Query} {h : ι → Parser Query} (hn : Again False b nested h)

include hn

theorem again_enclosed : Reads (enclosed nested) fun us r _ => ∀ i ds', count us ≤ b i →
    Run (enclosed (h i)) us r ds' := by
  have hvalues := again_value.untilClose (b := b)
    (valuePieces_value.mono fun _ _ _ h => h.count_pos) .valueSeparator
  refine Reads.answer (atKeyword_eq _) fun isQuery => ?_
  cases isQuery with
  | true =>
    refine (hn.upTo (by simp) _ _).mono ?_
    rintro us r ds ⟨hpos, hrun⟩ hselect i ds' hb
    have hne := inView_ne_finish hpos
    rw [inView_append hne] at hselect
    refine Run.answer (run_atKeyword _ _) ?_
    rw [inView_append hne, if_pos hselect]
    exact hrun i ds' hb
  | false =>
    refine ((hvalues.upTo (by simp) .valuesClose id).bind fun values =>
      Reads.pure (listComparand values)).mono ?_
    rintro _ _ ds ⟨us, values, _, rfl, ⟨hpos, hrun⟩, rfl, rfl⟩ hselect i ds' hb
    rw [List.append_nil] at hselect hb ⊢
    have hne := inView_ne_finish hpos
    rw [inView_append hne] at hselect
    refine Run.answer (run_atKeyword _ _) ?_
    rw [inView_append hne, hselect]
    exact Run.bind_pure (f := valueList) (hrun i ds' hb) listComparand

/-- What a condition compares with is read again, with a colon after it only if there was one
    before. -/
theorem again_comparand : Reads (comparand nested) fun us r ds => 0 < count us ∧
    ∀ i ds', count us ≤ b i → (inView ds' = .colon → inView ds = .colon) →
      Run (comparand (h i)) us r ds' := by
  have hsingle := valuePieces_value.bind fun v => Reads.pure (singleComparand v)
  refine (Reads.ifToken (by simp) (again_enclosed hn) hsingle).mono ?_
  rintro us r ds (⟨os, ws, rfl, hs, hrun⟩ | ⟨hview, us, v, _, rfl, hv, rfl, rfl⟩)
  · refine ⟨by simp [hs.count], fun i ds' hb _ => ?_⟩
    rw [count_append] at hb
    exact run_ifToken hs (hrun i ds' (by omega))
  · have hne := inView_ne_finish hv.count_pos
    rw [List.append_nil] at hview ⊢
    rw [inView_append hne] at hview
    refine ⟨hv.count_pos, fun i ds' _ hds => run_ifToken_not (by rwa [inView_append hne]) ?_⟩
    exact (hv.run hds).bind_pure singleComparand

/-- **A condition is read again**, with a colon after it only if there was one before. -/
theorem again_condition : Reads (condition nested) fun us c ds => 0 < count us ∧
    ∀ i ds', count us ≤ b i → (inView ds' = .colon → inView ds = .colon) →
      Run (condition (h i)) us c ds' := by
  simp only [condition_eq]
  refine ((Reads.bind (again_subject (p := False) (b := b)) fun s =>
    Reads.bind (again_comparison (p := False) (b := b)) fun k =>
      (again_comparand hn).bind fun r => Reads.pure (s, k, r)).bind
        fun r => Reads.pure (conditionOf r)).mono ?_
  rintro us c ds ⟨_, r, _, rfl, ⟨us, s, _, rfl, hs, vs, k, _, rfl, hk, ws, x, _, rfl,
    ⟨hpos, hx⟩, rfl, rfl⟩, rfl, rfl⟩
  simp only [List.append_nil, List.nil_append] at *
  simp only [count_append]
  refine ⟨by omega, fun i ds' hb hds => ?_⟩
  have hne := inView_ne_finish hpos
  have hview : Instead False (inView (ws ++ ds)) (inView (ws ++ ds')) := by
    rw [inView_append hne, inView_append hne]
    exact Or.inl rfl
  refine Run.bind_pure (f := comparing (comparand (h i))) ?_ conditionOf
  refine (hs i _ (by omega) ?_).bind ((hk i _ (by omega) hview).bind
    ((hx i ds' (by omega) hds).bind_pure fun r => (s, k, r)))
  rw [List.append_assoc, List.append_assoc]
  exact hview.append vs

end Nested

/-! ## Filters -/

theorem AgainIf.map (h : α → β) (hf : AgainIf p (fun a => Q (h a)) b f g) :
    AgainIf p Q b (f >>= fun a => Pure.pure (h a)) fun i => g i >>= fun a => Pure.pure (h a) :=
  hf.bind (fun _ => (Again.pure _).if Q) fun _ _ _ _ hr hQ => (pure_eq_ok.1 hr).1 ▸ hQ

theorem AgainIf.both {f' : Parser β} {g' : ι → Parser β} (hf : AgainIf p P b f g)
    (hf' : AgainIf p Q b f' g') : AgainIf p (fun x => P x.1 ∧ Q x.2) b (Parser.both f f')
      fun i => Parser.both (g i) (g' i) := by
  refine hf.bind (fun a => AgainIf.map (a, ·) (hf'.mono fun _ _ _ hrun hx => hrun hx.2)) ?_
  intro a c r c' hr hx
  obtain ⟨x, _, -, hr⟩ := bind_eq_ok.1 hr
  obtain ⟨rfl, -⟩ := pure_eq_ok.1 hr
  exact hx.1

theorem AgainIf.afterKeyword (w : Text) (hf : AgainIf p P b f g) :
    AgainIf p (fun o => ∀ a ∈ o, P a) b (Parser.afterKeyword w f)
      fun i => Parser.afterKeyword w (g i) := by
  refine ((again_eatKeyword w).if fun _ => True).bind (fun r => ?_) fun _ _ _ _ _ _ => trivial
  cases r with
  | true => exact AgainIf.map some (hf.mono fun _ _ _ hrun ha => hrun (ha _ rfl))
  | false => exact (Again.pure none).if _

/-- A parser that is bounded by the number of tokens before it. -/
theorem AgainIf.bounded {h : Nat → Parser α} {k : ι → Nat → Parser α}
    (hk : ∀ n, Reads (h n) fun us a ds => P a → ∀ i m ds', count us ≤ b i → count us ≤ m →
      Instead p (inView ds) (inView ds') → Run (k i m) us a ds') :
    AgainIf p P b (do h ((← get).size + 1)) fun i => (do k i ((← get).size + 1)) := by
  intro E T ps c a c' hc hok
  obtain ⟨us, ds, rfl, hd, hrun⟩ := hk _ hc hok
  refine ⟨us, ds, rfl, hd, fun hP i ds' hb hds => Run.get fun c' hc' => ?_⟩
  rw [count_append] at hc'
  exact hrun hP i _ ds' hb (by omega) hds

/-- What closes a link is read again.  Where the filter ends, a closing parenthesis may follow only
    if none of the filter is left open. -/
theorem again_closing (depth : Nat) : AgainIf p (fun r => r.2 = none → p → depth - r.1 = 0) b
    (closing depth) fun _ => closing depth := by
  refine ((reads_closeParens depth).bind fun closes => reads_connective.bind fun o =>
    Reads.pure (closes, o)).mono ?_
  rintro us r ds ⟨us, closes, _, rfl, ⟨hle, hus, hclose⟩, vs, o, _, rfl, ho, rfl, rfl⟩ hr i ds' -
    hds
  simp only [List.append_nil] at hclose ⊢
  rcases ho with ⟨op, hop, rfl, hvs⟩ | ⟨rfl, rfl, hand, hor⟩
  · obtain ⟨w, hw, -⟩ := id hvs
    refine (run_closeParens hus hle fun _ => ?_).bind ((run_connective hop hvs ds').bind_pure _)
    rw [hw.inView_append]
    nofun
  · have hnone := run_connective_none ((hds.isKeyword _).trans hand) ((hds.isKeyword _).trans hor)
    rw [List.append_nil]
    refine Run.bind_nil (g := fun n => connective? >>= fun o => pure (n, o))
      (run_closeParens hus hle fun hlt => ?_) (hnone.bind_pure (closes, ·))
    rcases hds with hds | ⟨hp, -, -⟩
    · exact hds ▸ hclose hlt
    · exact absurd (hr rfl hp) (by dsimp only; omega)

theorem again_openParens : Again p b openParens fun _ => openParens :=
  ((Again.pure ()).manyAfter (by simp) (by simp)).map List.length

theorem again_front : Again p b front fun _ => front := by
  refine again_openParens.bind fun opens => Again.position fun first => ?_
  refine (again_eatKeyword "NOT").bind fun negated => ?_
  refine (again_atToken (t := .openParen) (by simp) (by simp)).bind fun r => ?_
  refine Again.ite (fun _ => Again.ite (fun _ => Again.pure none) fun _ => Again.throw _)
    fun _ => Again.pure (some (opens, negated))

theorem again_groupFront : Again p b groupFront fun _ => groupFront :=
  again_openParens.map fun opens => some (opens, false)

/-- Whether a link is not the last one, or is followed by what may follow the same filter at the
    end of a text. -/
def LinkCloses (p : Prop) (x : Link α × Nat) : Prop := x.1.connective = none → p → x.2 = 0

theorem Again.linkOf {first : Parser (Option (Nat × Bool))}
    (hfirst : Again p b first fun _ => first) (hf : Again p b f g)
    (surround : α → Nat → Bool → Nat → α) (depth : Nat) :
    AgainIf p (LinkCloses p) b (linkOf first f surround depth)
      fun i => Parser.linkOf first (g i) surround depth := by
  refine (hfirst.if fun _ => True).bind (fun r => ?_) fun _ _ _ _ _ _ => trivial
  cases r with
  | none => exact (Again.pure _).if _
  | some r =>
    refine (hf.if fun _ => True).bind (fun c => ?_) fun _ _ _ _ _ _ => trivial
    exact AgainIf.map _ ((again_closing _).mono fun _ _ _ hrun hx => hrun hx)

/-- The parentheses that are open after a link are those that its condition counts. -/
theorem linkOf_after [Parenthesized κ] {first : Parser (Option (Nat × Bool))} {bare : Parser κ}
    {surround : κ → Nat → Bool → Nat → κ}
    (hs : ∀ c o n k, Parenthesized.opens (surround c o n k) = o ∧
      Parenthesized.closes (surround c o n k) = k) {depth : Nat} {c c' : Cursor} {x : Link κ × Nat}
    (h : linkOf first bare surround depth c = .ok x c') : x.2 = Link.after depth x.1 := by
  obtain ⟨r, c₁, -, h⟩ := bind_eq_ok.1 h
  cases r with
  | none =>
    obtain ⟨rfl, -⟩ := pure_eq_ok.1 h
    rfl
  | some r =>
    obtain ⟨d, c₂, -, h⟩ := bind_eq_ok.1 h
    obtain ⟨y, c₃, -, h⟩ := bind_eq_ok.1 h
    obtain ⟨rfl, -⟩ := pure_eq_ok.1 h
    obtain ⟨hopens, hcloses⟩ := hs d r.1 r.2 y.1
    simp only [Link.after, Option.elim_some, hopens, hcloses]

theorem again_chainUpTo [Parenthesized κ] {link : Nat → Parser (Link κ × Nat)}
    {k : ι → Nat → Parser (Link κ × Nat)}
    (h : ∀ depth, AgainIf p (LinkCloses p) b (link depth) fun i => k i depth)
    (hpos : ∀ depth, Reads (link depth) fun us _ _ => 0 < count us)
    (hafter : ∀ {depth c x c'}, link depth c = .ok x c' → x.2 = Link.after depth x.1)
    (n depth : Nat) : Reads (chainUpTo link n depth) fun us chain ds =>
      (p → chain.links.foldl Link.after depth = 0) → ∀ i m ds', count us ≤ b i → count us ≤ m →
        Instead p (inView ds) (inView ds') → Run (chainUpTo (k i) m depth) us chain ds' := by
  have hlink (depth : Nat) : Reads (link depth) fun us x ds => x.2 = Link.after depth x.1 ∧
      0 < count us ∧ (LinkCloses p x → ∀ i ds', count us ≤ b i →
        Instead p (inView ds) (inView ds') → Run (k i depth) us x ds') := by
    intro E T ps c x c' hc hok
    obtain ⟨us, ds, hs, hd, hrun, hus⟩ :=
      (h depth).and_count (Q := fun n _ => 0 < n) (hpos depth) hc hok
    exact ⟨us, ds, hs, hd, hafter hok, hus, hrun⟩
  induction n generalizing depth with
  | zero => exact Reads.fail _
  | succ n ih =>
    refine (Reads.chainUpTo hlink ih depth).mono ?_
    rintro us _ ds (⟨x, after, hx, rfl, heq, hpos, hrun⟩ |
      ⟨x, mid, op, us, vs, rest, hx, rfl, rfl, ⟨heq, hpos, hrun⟩, hrest⟩) hcl i m ds' hb hm hds
    · obtain rfl : after = Link.after depth x := heq
      obtain ⟨m, rfl⟩ : ∃ l, m = l + 1 := ⟨m - 1, by omega⟩
      exact run_chainUpTo_last (hrun (fun _ => hcl) i ds' hb hds) hx
    · obtain rfl : mid = Link.after depth x := heq
      rw [count_append] at hb hm
      obtain ⟨m, rfl⟩ : ∃ l, m = l + 1 := ⟨m - 1, by omega⟩
      have hlast : LinkCloses p (x, Link.after depth x) := fun hnone => by simp [hx] at hnone
      exact run_chainUpTo_cons (hrun hlast i _ (by omega) (hds.append vs)) hx
        (hrest hcl i m ds' (by omega) (by omega) hds)

/-- A link takes a token if its condition does. -/
theorem reads_linkOf_pos {first : Parser (Option (Nat × Bool))}
    (hfirst : Reads first fun us r _ => r = none → 0 < count us)
    (hf : Reads f fun us _ _ => 0 < count us) (surround : α → Nat → Bool → Nat → α) (depth : Nat) :
    Reads (linkOf first f surround depth) fun us _ _ => 0 < count us := by
  refine (hfirst.bind (R := fun r us _ _ => r ≠ none → 0 < count us) fun r => ?_).mono ?_
  · cases r with
    | none => exact (Reads.pure _).mono fun _ _ _ _ h => absurd rfl h
    | some r =>
      refine (hf.bind fun c => (reads_closing _).bind fun x => Reads.pure _).mono ?_
      rintro us x ds ⟨us, c, _, rfl, hpos, -⟩ -
      rw [count_append]
      omega
  · rintro us x ds ⟨vs, r, ws, rfl, hnone, hsome⟩
    rw [count_append]
    by_cases hr : r = none
    · have := hnone hr
      omega
    · have := hsome hr
      omega

/-- The negation of a group takes a token. -/
theorem reads_front_pos : Reads front fun us r _ => r = none → 0 < count us := by
  refine reads_front.mono fun us r ds h hr => ?_
  rcases (h fun hne => absurd hr hne).starts with ⟨-, hnil⟩ | ⟨hview, -⟩
  · simp [hr, frontPieces] at hnil
  · exact count_pos hview

/-- A link of `WHERE` takes a token. -/
theorem reads_link_pos {nested : Parser Query} {h : ι → Parser Query}
    (hn : Again False b nested h) (depth : Nat) :
    Reads (linkOf front (condition nested) Condition.surround depth) fun us _ _ => 0 < count us :=
  reads_linkOf_pos reads_front_pos ((again_condition hn).mono fun _ _ _ h => h.1) _ depth

/-- A link of `HAVING` takes a token. -/
theorem reads_groupLink_pos (depth : Nat) :
    Reads (linkOf groupFront groupCondition GroupCondition.surround depth)
      fun us _ _ => 0 < count us := by
  have hfront : Reads groupFront fun us r _ => r = none → 0 < count us := by
    refine (reads_openParens.bind fun opens => Reads.pure (some (opens, false))).mono ?_
    rintro us r ds ⟨_, opens, _, rfl, -, -, rfl⟩ hr
    cases hr
  have hcondition : Reads groupCondition fun us _ _ => 0 < count us :=
    reads_groupCondition.mono fun us c ds h => by
      obtain ⟨w, hw⟩ := h.starts
      exact count_pos (by simp [hw])
  exact reads_linkOf_pos hfront hcondition _ depth

/-- A filter is read again.  Where it ends, a closing parenthesis may follow only if none of its
    own is left open. -/
theorem again_filter {nested : Parser Query} {h : ι → Parser Query} (hn : Again False b nested h) :
    AgainIf p (fun chain => p → chain.Closes) b (filter nested) fun i => filter (h i) := by
  refine AgainIf.bounded (h := fun n => filterUpTo nested n 0)
    (k := fun i n => filterUpTo (h i) n 0) fun n => ?_
  simp only [filterUpTo_eq]
  refine again_chainUpTo (fun depth => again_front.linkOf ?_ _ depth) (reads_link_pos hn)
    (linkOf_after fun _ _ _ _ => ⟨rfl, rfl⟩) n 0
  exact (again_condition hn).mono fun us c ds h i ds' hb hds =>
    h.2 i ds' hb (hds.eq_iff (by simp) (by simp)).1

theorem again_groupFilter : AgainIf p (fun chain => p → chain.Closes) b groupFilter
    fun _ => groupFilter := by
  have hcondition : Again p b groupCondition fun _ => groupCondition :=
    (again_groupValue.comparing).map groupConditionOf
  refine AgainIf.bounded (h := fun n => groupFilterUpTo n 0) (k := fun _ n => groupFilterUpTo n 0)
    fun n => ?_
  simp only [groupFilterUpTo_eq]
  exact again_chainUpTo (fun depth => again_groupFront.linkOf hcondition _ depth)
    reads_groupLink_pos (linkOf_after fun _ _ _ _ => ⟨rfl, rfl⟩) n 0

/-! ## Clauses -/

/-- The place of the keys matters for errors only. -/
theorem groupingOf_position {p p' : Nat} {s : Subject} {ss : List Subject} {g : Grouping}
    (h : groupingOf p s ss = .ok g) : groupingOf p' s ss = .ok g := by
  rcases groupingOf_eq_ok h with ⟨c, rfl, rfl, rfl⟩ | ⟨n, ns, rfl, rfl, rfl⟩
  · rfl
  · exact groupingOf_field p' n ns

theorem again_grouping : Again p b grouping fun _ => grouping := by
  refine Again.position fun l => again_subject.commaSeparated.bind fun r => ?_
  cases hg : groupingOf l.start r.1 r.2 with
  | error e =>
    simp only [hg]
    exact Again.throw e
  | ok g =>
    have hall (j : ι × Lexeme) : groupingOf j.2.start r.1 r.2 = .ok g := groupingOf_position hg
    simp only [hall, hg]
    exact Again.pure g

/-- Taken link by link, the filter of the grouping leaves no parenthesis open. -/
def HavingCloses (g : Option Grouping) : Prop := ∀ chain ∈ g.bind Grouping.having, chain.Closes

theorem again_groupingClause : AgainIf p (fun g => p → HavingCloses g) b groupingClause
    fun _ => groupingClause := by
  have hkeys : Again p b grouping? fun _ => grouping? :=
    ((again_expectKeyword "BY").bind fun _ => again_grouping).afterKeyword "GROUP"
  refine (hkeys.if fun _ => True).bind (fun g => ?_) fun _ _ _ _ _ _ => trivial
  refine AgainIf.position fun l => ?_
  refine (again_groupFilter.afterKeyword "HAVING").bind (fun having => ?_) ?_
  · cases having with
    | none => exact (Again.pure g).if _
    | some having =>
      cases g with
      | none => exact (Again.throw _).if _
      | some g => exact (Again.pure _).if _
  · intro having c r c' hr hcl chain hchain hp
    obtain rfl := hchain
    cases g with
    | none => cases hr
    | some g =>
      obtain ⟨rfl, -⟩ := pure_eq_ok.1 hr
      exact hcl hp _ rfl

/-- Taken link by link, the filters of the clauses leave no parenthesis open. -/
def TailCloses (t : Tail) : Prop :=
  (∀ chain ∈ t.1, chain.Closes) ∧ HavingCloses t.2.1.1.1

theorem again_sorting : Again p b sorting fun _ => sorting := by
  have horder : Again p b order? fun _ => order? :=
    Again.keywordInView (Again.pure none) fun o => AgainAt.advance (by simp) (Again.pure (some o))
  have hkey : Again p b sortKey fun _ => sortKey :=
    again_subject.bind fun s => horder.bind fun o =>
      ((again_expectKeywordOf .nullsPlace).afterKeyword "NULLS").map fun n => _
  rw [sorting_eq]
  exact hkey.commaSeparated.map sortKeysOf

theorem again_rowCount (w : Text) : Again p b (rowCount w) fun _ => rowCount w := by
  refine Again.current (fun l => ?_) fun l l' hl hl' _ => by rw [hl, hl']
  have htoken (j : ι × {l' : Lexeme // l'.token = l.token}) : j.2.1.token = l.token := j.2.2
  simp only [htoken]
  cases l.token with
  | number n =>
    dsimp only
    cases n.number? with
    | none => exact (Again.throw _).at _
    | some k =>
      dsimp only
      split
      · exact AgainAt.advance (by simp) (Again.pure _)
      · exact (Again.throw _).at _
  | _ => exact (Again.fail _).at _

theorem again_withClauses : Again p b withClauses fun _ => withClauses := by
  have hnames : Again p b categories fun _ => categories := by
    refine Again.ifToken (by simp) (by simp) ?_ ((again_identifier _).map fun w => [w])
    exact (again_identifier _).commaSeparated.bind fun r =>
      Again.expect (by simp) _ (Again.pure (r.1 :: r.2))
  have hcondition : Again p b categoryCondition fun _ => categoryCondition :=
    (again_identifier _).bind fun group => (again_expectKeywordOf _).bind fun selector =>
      hnames.map fun names => _
  refine Again.manyAfterKeyword "WITH" ?_
  refine (again_eatKeyword "SECURITY_ENFORCED").bind fun r => ?_
  cases r with
  | true => exact Again.pure _
  | false =>
    refine (again_eatKeyword "DATA").bind fun r => ?_
    cases r with
    | true =>
      exact (again_expectKeyword "CATEGORY").bind fun _ => hcondition.bind fun first =>
        (hcondition.manyAfterKeyword "AND").map fun others => _
    | false => exact Again.fail _

theorem again_typeOf : Again p b typeOf fun _ => typeOf := by
  have hfields : Again p b branchFields fun _ => branchFields :=
    again_dottedPath.commaSeparated.map fun r => r.1 :: r.2
  have hwhen : Again p b whenBranch fun _ => whenBranch :=
    (again_identifier _).bind fun object => (again_expectKeyword "THEN").bind fun _ =>
      hfields.map fun fields => _
  have helse : Again p b elseBranch fun _ => elseBranch := hfields.map fun fields => _
  exact again_dottedPath.bind fun path => (hwhen.manyAfterKeyword "WHEN").bind fun branches =>
    (helse.afterKeyword "ELSE").bind fun last => (again_expectKeyword "END").map fun _ => _

/-! ## Queries -/

section Nested

variable {nested : Bool → Parser Query} {h : ι → Bool → Parser Query}
  (hn : ∀ isField, Again False b (nested isField) fun i => h i isField)

include hn

theorem again_field : Again p b (field (nested true)) fun i => field (h i true) := by
  simp only [field_eq]
  refine Again.ifToken (by simp) (by simp) ((hn true).closed _ _) ?_
  refine (again_eatKeyword "TYPEOF").bind fun r => ?_
  cases r with
  | true => exact again_typeOf.map Field.typeOf
  | false =>
    exact Again.named (fun c => again_aliasName.map fun a => Field.call (withAlias a c))
      fun w => again_pathRest.bind fun ws => again_aliasName.map fun a => fieldOf w ws a

/-- The clauses after the source are read again.  Where they end, a closing parenthesis may follow
    only if none of the filters is left open. -/
theorem again_tail : AgainIf p (fun t => p → TailCloses t) b (tail (nested false))
    fun i => tail (h i false) := by
  have hsorting : Again p b sorting? fun _ => sorting? :=
    ((again_expectKeyword "BY").bind fun _ => again_sorting).afterKeyword "ORDER"
  have hcounts := hsorting.both
    (((again_rowCount (p := p) (b := b) "LIMIT").afterKeyword "LIMIT").both
      ((again_rowCount "OFFSET").afterKeyword "OFFSET"))
  have hmiddle : AgainIf p (fun x => p → HavingCloses x.1) b middle fun _ => middle :=
    (again_groupingClause.both (hcounts.if fun _ => True)).mono fun _ _ _ hrun hx =>
      hrun ⟨hx, trivial⟩
  have hbody : AgainIf p (fun x => p → HavingCloses x.1.1) b body fun _ => body := by
    refine (again_withClauses.if fun _ => True).bind (fun early => ?_) fun _ _ _ _ _ _ => trivial
    refine hmiddle.bind (fun x => (again_withClauses.map fun late => (x, early ++ late)).if _) ?_
    intro x c r c' hr hx
    obtain ⟨late, _, -, hr⟩ := bind_eq_ok.1 hr
    obtain ⟨rfl, -⟩ := pure_eq_ok.1 hr
    exact hx
  have hlast : Again p b (both (afterKeyword "FOR" (expectKeywordOf .forTarget))
      (afterKeyword "UPDATE" (expectKeywordOf .updateTarget) : Parser (Option UpdateTarget)))
      fun _ => both (afterKeyword "FOR" (expectKeywordOf .forTarget : Parser ForTarget))
        (afterKeyword "UPDATE" (expectKeywordOf .updateTarget)) :=
    ((again_expectKeywordOf _).afterKeyword "FOR").both
      ((again_expectKeywordOf _).afterKeyword "UPDATE")
  refine (((again_filter (hn false)).afterKeyword "WHERE").both
    (hbody.both (hlast.if fun _ => True))).mono fun us t ds hrun ht => hrun ⟨?_, ?_, trivial⟩
  · exact fun chain hchain hp => (ht hp).1 chain hchain
  · exact fun hp => (ht hp).2

end Nested

/-- The source as it is written, and its alias. -/
def pathClause : Parser ((Text × List Text) × Option Text) :=
  expectKeyword "FROM" >>= fun _ => both path aliasName?

/-- What stands after `SELECT`, with the source as it is written. -/
abbrev Written : Type := (Field × List Field) × ((Text × List Text) × Option Text) × Tail

/-- What stands after `SELECT`, wherever the query is. -/
def written (nested : Bool → Parser Query) : Parser Written :=
  both (commaSeparated (field (nested true))) (both pathClause (tail (nested false)))

/-- The query that is written, as a field or on its own. -/
def Written.query (isNested : Bool) (x : Written) : Query :=
  Selection.query (x.1, (sourceOf isNested x.2.1.1, x.2.1.2), x.2.2)

theorem selectWith_eq_written (nested : Bool → Parser Query) (isNested : Bool) :
    selectWith nested isNested =
      expectKeyword "SELECT" >>= fun _ => written nested >>= fun x => pure (x.query isNested) := by
  simp only [selectWith_eq, selection, fromClause, aliasedSource, source_eq, written, pathClause,
    both, bind_assoc, pure_bind, Written.query]

theorem again_written {nested : Bool → Parser Query} {h : ι → Bool → Parser Query}
    (hn : ∀ isField, Again False b (nested isField) fun i => h i isField) :
    AgainIf p (fun x => p → TailCloses x.2.2) b (written nested) fun i => written (h i) := by
  have hpath : Again p b pathClause fun _ => pathClause :=
    (again_expectKeyword "FROM").bind fun _ => again_path.both again_aliasName
  refine (((again_field hn).commaSeparated.if fun _ => True).both
    ((hpath.if fun _ => True).both (again_tail hn))).mono fun us x ds hrun hx => hrun ?_
  exact ⟨trivial, trivial, hx⟩

/-- **A query is read again** with any bound on its nesting that allows for its tokens, on its own
    or as a field.  Where it ends, a closing parenthesis may follow only if none of its own filters
    is left open: those of the queries inside of it are followed by what they were followed by. -/
theorem again_selectUpTo (n : Nat) (isNested : Bool) : Reads (selectUpTo n isNested) fun us q ds =>
    (inView us).isKeyword "SELECT" = true ∧ ∃ x : Written, q = x.query isNested ∧
      ((p → TailCloses x.2.2) → ∀ isNested' m ds', count us ≤ m →
        Instead p (inView ds) (inView ds') →
          Run (selectUpTo m isNested') us (x.query isNested') ds') := by
  induction n generalizing p isNested with
  | zero => exact Reads.fail _
  | succ n ih =>
    have hinner (isField : Bool) : Again False (fun m => m) (selectUpTo n isField)
        fun m => selectUpTo m isField := by
      refine (ih (p := False) isField).mono ?_
      rintro us q ds ⟨-, x, rfl, hrun⟩ m ds' hm hds
      exact hrun nofun isField m ds' hm hds
    change Reads (selectWith (selectUpTo n) isNested) _
    rw [selectWith_eq_written]
    refine ((reads_expectKeyword "SELECT").bind fun _ =>
      Reads.bind (again_written (p := p) hinner) fun x => Reads.pure (x.query isNested)).mono ?_
    rintro us q ds ⟨ks, _, _, rfl, hk, us, x, _, rfl, hrun, rfl, rfl⟩
    obtain ⟨w, hw, hselect⟩ := id hk
    rw [List.append_nil, hw.inView_append]
    refine ⟨hselect, x, rfl, fun hcl isNested' m ds' hm hds => ?_⟩
    rw [count_append, hw.count] at hm
    obtain ⟨m, rfl⟩ : ∃ l, m = l + 1 := ⟨m - 1, by omega⟩
    change Run (selectWith (selectUpTo m) isNested') _ _ _
    rw [selectWith_eq_written]
    exact (run_expectKeyword hk _).bind ((hrun hcl m ds' (show _ ≤ m by omega) hds).bind_pure _)

/-- A query is read again wherever the same token follows. -/
theorem again_select (n : Nat) (isNested : Bool) :
    Again False (fun m => m) (selectUpTo n isNested) fun m => selectUpTo m isNested := by
  refine (again_selectUpTo (p := False) n isNested).mono ?_
  rintro us q ds ⟨-, x, rfl, hrun⟩ m ds' hm hds
  exact hrun nofun isNested m ds' hm hds

end Parser

end Soql
