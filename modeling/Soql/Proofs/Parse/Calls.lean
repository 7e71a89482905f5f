/-
  Function calls and subjects, read and read back.

  A call is composed in three ways: as it was written, from its parts with
  its arguments as texts, and from its parts with nested calls composed in
  turn.  All three are read as the same call, up to source texts.

  * `ArgumentsRun vs as`: the pieces `vs` are read as the arguments `as`.
  * `Rewrites us vs`: `vs` may stand in the place of `us`.
  * `ArgumentAt`: a literal, or a name with a call or a path after it.
  * `reads_argumentsUpTo`: what the arguments of a call are read from, and the
    three ways to write them.
  * `Reads.named`: a name, and a call or something else after it.
  * `reads_subject`: field paths and calls in conditions and keys.
-/
import Mathlib
import Soql.Parse.Call
import Soql.Proofs.Parse.Rows
import Soql.Proofs.Query.Sources

namespace Soql

open Unicode Token Soql.Parser

/-- The call that was written as `source`. -/
def Call.written (name : Text) (as : List Argument) (source : Text) : Call :=
  { Call.ofParts name as none with source := some source }

/-! ## Source texts -/

theorem textUpTo_lexemeAt {E : Ending} {T : Nat} {t : Token} {mid ds : List Piece} {last : Lexeme}
    (hlast : last.stop = T - (spell ds ++ E.text).length)
    (hT : (t.spelling ++ (spell (mid ++ ds) ++ E.text)).length ≤ T) :
    (lexemeAt E T t (mid ++ ds)).textUpTo last = t.spelling ++ spell mid := by
  simp only [spell_append, List.append_assoc, List.length_append] at hT
  have hn : last.stop - (lexemeAt E T t (mid ++ ds)).start = (t.spelling ++ spell mid).length := by
    rw [hlast]
    simp only [lexemeAt, spell_append, List.length_append]
    omega
  rw [Lexeme.textUpTo, hn]
  simp only [lexemeAt, spell_append]
  rw [List.append_assoc (spell mid), ← List.append_assoc t.spelling]
  exact List.take_left' rfl

namespace Parser

theorem advance_at {E : Ending} {T : Nat} {ps : List Piece} {c c' : Cursor} {lexeme : Lexeme}
    {t : Token} (ht : t ≠ .finish) (hc : At E T ps c) (hv : c.current.token = t)
    (h : advance c = .ok lexeme c') : ∃ us ds, ps = us ++ ds ∧ Single t us ∧
      lexeme = lexemeAt E T t ds ∧ At E T ds c' := by
  rw [hc.token] at hv
  rcases hc.advance h with ⟨us, t', ds, rfl, hs, hl, hd⟩ | ⟨hf, -⟩
  · rw [hs.inView_append] at hv
    subst hv
    exact ⟨us, ds, rfl, hs, hl, hd⟩
  · exact absurd (hv.symm.trans hf) ht

theorem expect_at {E : Ending} {T : Nat} {ps : List Piece} {c c' : Cursor} {t : Token}
    {e : Expectation} {lexeme : Lexeme} (ht : t ≠ .finish) (hc : At E T ps c)
    (h : expect t e c = .ok lexeme c') : ∃ us ds, ps = us ++ ds ∧ Single t us ∧
      lexeme = lexemeAt E T t ds ∧ At E T ds c' := by
  obtain ⟨b, c₁, h1, h2⟩ := bind_eq_ok.1 h
  rw [atToken_eq] at h1
  cases h1
  split at h2
  · rename_i hb
    exact advance_at ht hc (beq_iff_eq.1 hb) h2
  · exact absurd h2 fail_ne_ok

theorem current_at {E : Ending} {T : Nat} {us ds : List Piece} {c : Cursor} {t : Token}
    (hc : At E T (us ++ ds) c) (hs : Single t us) : c.current = lexemeAt E T t ds := by
  obtain ⟨bs, hp, hb, rfl⟩ := hs
  have h := hc.cursor
  rw [List.append_assoc, hb.placed_append, List.singleton_append, At.ofLexemes_token] at h
  rw [← Except.ok.inj h]

theorem long_at {E : Ending} {T : Nat} {us ds : List Piece} {c : Cursor} {w : Text}
    (hc : At E T (us ++ ds) c) (hs : Single (.word w) us) :
    (w ++ (spell ds ++ E.text)).length ≤ T := by
  have h := hc.long
  obtain ⟨bs, hp, hb, rfl⟩ := hs
  simp only [spell_append, spell_cons, spell_nil, List.length_append, Piece.text_token,
    spelling, List.length_nil] at h ⊢
  omega

theorem fits_at {E : Ending} {T : Nat} {us os as cs ds : List Piece} {c : Cursor}
    (hc : At E T (us ++ (os ++ (as ++ (cs ++ ds)))) c) :
    Fits (us ++ (os ++ (as ++ cs))) (spell ds ++ E.text) := by
  have h := hc.fits
  rw [show us ++ (os ++ (as ++ (cs ++ ds))) = us ++ (os ++ (as ++ cs)) ++ ds by simp,
    fits_append] at h
  exact h.1

/-- The rest of a call after its name is read from an opening parenthesis, arguments and a closing
    one, and its source text is all of it. -/
theorem callAfterName_at {E : Ending} {T : Nat} {ps : List Piece} {c c' : Cursor}
    {args : Parser (List Argument)} {P : List Piece → List Argument → List Piece → Prop}
    (hargs : Reads args P) {name : Text} {r : Call} (hc : At E T ps c)
    (hT : (name ++ (spell ps ++ E.text)).length ≤ T)
    (h : callAfterName args (lexemeAt E T (.word name) ps) name c = .ok r c') :
    ∃ os us cs ds as, ps = os ++ (us ++ (cs ++ ds)) ∧ Single .openParen os ∧
      Single .closeParen cs ∧ P us as (cs ++ ds) ∧ At E T ds c' ∧
      r = .written name as (name ++ spell (os ++ (us ++ cs))) := by
  obtain ⟨l₁, c₁, h1, h⟩ := bind_eq_ok.1 h
  obtain ⟨as, c₂, h2, h⟩ := bind_eq_ok.1 h
  obtain ⟨l₂, c₃, h3, h⟩ := bind_eq_ok.1 h
  obtain ⟨rfl, rfl⟩ := pure_eq_ok.1 h
  obtain ⟨os, ds₁, rfl, ho, -, hd₁⟩ := expect_at (by simp) hc h1
  obtain ⟨us, ds₂, rfl, hd₂, hP⟩ := hargs hd₁ h2
  obtain ⟨cs, ds, rfl, hcl, rfl, hd⟩ := expect_at (by simp) hd₂ h3
  refine ⟨os, us, cs, ds, as, rfl, ho, hcl, hP, hd, ?_⟩
  have htext : (lexemeAt E T (.word name) (os ++ (us ++ cs) ++ ds)).textUpTo
      (lexemeAt E T .closeParen ds) = name ++ spell (os ++ (us ++ cs)) :=
    textUpTo_lexemeAt rfl (by simpa [spelling] using hT)
  rw [show os ++ (us ++ (cs ++ ds)) = os ++ (us ++ cs) ++ ds by simp, htext]
  rfl

theorem callAfterName_cursor {args : Parser (List Argument)} {os us cs ds : List Piece}
    {as : List Argument} (ho : Single .openParen os) (hcl : Single .closeParen cs)
    (hargs : Run args us as (cs ++ ds)) (name : Text) {T : Nat}
    (hT : (name ++ spell (os ++ (us ++ (cs ++ ds)))).length ≤ T) :
    callAfterName args (lexemeAt (.plain T) T (.word name) (os ++ (us ++ (cs ++ ds)))) name
        (cursor T (os ++ (us ++ (cs ++ ds)))) =
      .ok (.written name as (name ++ spell (os ++ (us ++ cs)))) (cursor T ds) := by
  have hlen : (spell (os ++ (us ++ (cs ++ ds)))).length ≤ T := by
    rw [List.length_append] at hT
    omega
  obtain ⟨l₁, h1⟩ := skips_expect ho .callOpen (us ++ (cs ++ ds)) T hlen
  have h2 := hargs T (length_le_of_append hlen)
  have h3 : expect .closeParen .callClose (cursor T (cs ++ ds)) =
      .ok (lexemeAt (.plain T) T .closeParen ds) (cursor T ds) := by
    refine bind_eq_ok.2 ⟨true, _, ?_, advance_cursor hcl T ds⟩
    rw [atToken_eq, token_cursor, hcl.inView_append, beq_self_eq_true]
  refine bind_eq_ok.2 ⟨l₁, _, h1, bind_eq_ok.2 ⟨as, _, h2, bind_eq_ok.2 ⟨_, _, h3, ?_⟩⟩⟩
  have htext : (lexemeAt (.plain T) T (.word name) (os ++ (us ++ cs) ++ ds)).textUpTo
      (lexemeAt (.plain T) T .closeParen ds) = name ++ spell (os ++ (us ++ cs)) :=
    textUpTo_lexemeAt rfl (by simpa [Ending.plain, spelling] using hT)
  rw [show os ++ (us ++ (cs ++ ds)) = os ++ (us ++ cs) ++ ds by simp, htext]
  rfl

/-! ## Arguments -/

/-- The token does not make a path or a call of the name before it. -/
def EndsName (t : Token) : Prop := t ≠ .dot ∧ t ≠ .openParen

/-- The pieces are read as the argument, with any bound that allows for their number. -/
def ArgumentRun (vs : List Piece) (a : Argument) : Prop :=
  ∀ m, count vs ≤ m + 1 → ∀ ds, EndsName (inView ds) → Run (argument (argumentsUpTo m)) vs a ds

/-- The pieces are read as the arguments, with any bound that allows for their number. -/
def ArgumentsRun (vs : List Piece) (as : List Argument) : Prop :=
  ∀ m, count vs ≤ m → ∀ ds, inView ds = .closeParen → Run (argumentsUpTo m) vs as ds

/-- The pieces `vs` may stand in the place of `us`. -/
structure Rewrites (us vs : List Piece) : Prop where
  closed : Closed vs
  literals : literals vs = literals us
  feeds : '\n' ∈ spell vs → '\n' ∈ spell us

theorem ArgumentsRun.nil : ArgumentsRun [] [] := by
  intro m _ ds hds
  cases m with
  | zero => exact Run.pure [] ds
  | succ m =>
    refine Run.answer (run_atToken _ _) ?_
    rw [List.nil_append, hds]
    exact Run.pure [] ds

theorem argumentsUpTo_succ (n : Nat) : argumentsUpTo (n + 1) = do
    if ← atToken .closeParen then return []
    let a ← argument (argumentsUpTo n)
    separator .argumentSeparator
    return a :: (← argumentsUpTo n) := by
  rw [argumentsUpTo]
  congr 1
  funext b
  congr 2
  funext a
  exact separator_bind .argumentSeparator (do return a :: (← argumentsUpTo n))

theorem ArgumentsRun.cons {vs ss ws : List Piece} {a : Argument} {as : List Argument}
    (hf : inView vs ≠ .finish) (hne : inView vs ≠ .closeParen) (ha : ArgumentRun vs a)
    (hs : ∀ ds, inView ds = .closeParen → EndsName (inView (ss ++ (ws ++ ds))) ∧
      Run (separator .argumentSeparator) ss () (ws ++ ds))
    (hr : ArgumentsRun ws as) : ArgumentsRun (vs ++ (ss ++ ws)) (a :: as) := by
  rintro (_ | m) hm ds hds
  · have := count_pos hf
    rw [count_append] at hm
    omega
  · have hpos := count_pos hf
    simp only [count_append] at hm
    rw [argumentsUpTo_succ]
    refine Run.answer (run_atToken _ _) ?_
    rw [List.append_assoc, inView_append hf, beq_eq_false_iff_ne.2 hne]
    refine (ha m (by omega) _ ?_).bind (Run.bind (hs ds hds).2
      ((hr m (by omega) ds hds).bind_pure (a :: ·)))
    rw [List.append_assoc]
    exact (hs ds hds).1

/-- An argument that was read from the pieces `us` can be read again from them, from the pieces of
    its own text, and from the pieces that it is composed of. -/
structure ArgumentPhrase (us : List Piece) (a : Argument) : Prop where
  starts : inView us ≠ .finish
  notClose : inView us ≠ .closeParen
  again : ArgumentRun us a
  flat : ∃ vs, spell vs = a.flatText ∧ Rewrites us vs ∧ inView vs = inView us ∧ ArgumentRun vs a
  composed : ∃ vs a', (∀ layout, spell vs = (Compose.argument layout a).value) ∧ Rewrites us vs ∧
    inView vs = inView us ∧ a'.forgetSources = a.forgetSources ∧ ArgumentRun vs a'

/-- The same for the arguments of a call. -/
structure ArgumentsPhrase (us : List Piece) (as : List Argument) : Prop where
  again : ArgumentsRun us as
  flat : ∃ vs, spell vs = Text.joinWith ", " (as.map Argument.flatText) ∧ Rewrites us vs ∧
    (as = [] → vs = []) ∧ ArgumentsRun vs as
  composed : ∃ vs as',
    (∀ layout, spell vs = Text.joinWith "," (Compose.arguments layout as).value) ∧
    Rewrites us vs ∧ (as = [] → vs = []) ∧ Argument.forgetAll as' = Argument.forgetAll as ∧
    ArgumentsRun vs as'

theorem Rewrites.refl_nil {us : List Piece} (h : Soql.literals us = []) : Rewrites us [] :=
  ⟨blank_nil.closed, h.symm, by simp⟩

theorem ArgumentsPhrase.nil : ArgumentsPhrase [] [] :=
  ⟨.nil, ⟨[], rfl, .refl_nil rfl, fun _ => rfl, .nil⟩,
    [], [], fun _ => rfl, .refl_nil rfl, fun _ => rfl, rfl, .nil⟩

/-- Arguments are put together with a comma and blanks before the others. -/
theorem ArgumentsRun.join {vs ws bs : List Piece} {a : Argument} {as : List Argument}
    (hf : inView vs ≠ .finish) (hne : inView vs ≠ .closeParen) (ha : ArgumentRun vs a)
    (hb : Blank bs) (hr : ArgumentsRun ws as) :
    ArgumentsRun (vs ++ ([Piece.mark .comma rfl] ++ (bs ++ ws))) (a :: as) := by
  refine ArgumentsRun.cons hf hne ha (fun ds hds => ⟨?_, ?_⟩) ?_
  · simp [EndsName]
  · exact run_separator (Single.mark .comma rfl) _ _
  · intro m hm ds hds
    rw [count_append, hb.count] at hm
    exact (hr m (by omega) ds hds).blank_append hb

theorem ArgumentsRun.single {vs : List Piece} {a : Argument} (hf : inView vs ≠ .finish)
    (hne : inView vs ≠ .closeParen) (ha : ArgumentRun vs a) : ArgumentsRun vs [a] := by
  have hcons : ArgumentsRun (vs ++ ([] ++ [])) [a] := by
    refine ArgumentsRun.cons hf hne ha (fun ds hds => ⟨?_, ?_⟩) .nil
    · simp [EndsName, hds]
    · exact run_separator_none (by simpa using hds) _
  simpa using hcons

theorem Rewrites.join {us us' vs vs' ss bs : List Piece} (h : Rewrites us vs)
    (h' : Rewrites us' vs') (hs : Soql.literals ss = []) (hb : Blank bs) (hnl : '\n' ∉ spell bs) :
    Rewrites (us ++ (ss ++ us')) (vs ++ ([Piece.mark .comma rfl] ++ (bs ++ vs'))) := by
  refine ⟨h.closed.append ?_ (clean_cons (by decide) _), ?_, ?_⟩
  · intro r hr
    exact ⟨rfl, hb.append_closed h'.closed r hr⟩
  · simp [h.literals, h'.literals, hs, hb.literals, literals_token, literal?]
  · have := h.feeds
    have := h'.feeds
    simp only [spell_append, spell_cons, spell_nil, List.mem_append, Piece.text_token, spelling]
    rintro (hm | hm | hm | hm)
    · exact Or.inl (h.feeds hm)
    · simp at hm
    · exact absurd hm hnl
    · exact Or.inr (Or.inr (h'.feeds hm))

theorem Rewrites.append_silent {us vs ss : List Piece} (h : Rewrites us vs)
    (hs : Soql.literals ss = []) : Rewrites (us ++ ss) vs :=
  ⟨h.closed, by rw [h.literals, literals_append, hs, List.append_nil],
    fun hm => by rw [spell_append, List.mem_append]; exact Or.inl (h.feeds hm)⟩

/-- One argument and those after it, written with a comma and blanks between them. -/
theorem exists_joined {us us' vs ws ss bs : List Piece} {a : Argument} {as : List Argument}
    (hr : Rewrites us vs) (hr' : Rewrites us' ws) (hs : Soql.literals ss = []) (hb : Blank bs)
    (hnl : '\n' ∉ spell bs) (hf : inView vs ≠ .finish) (hne : inView vs ≠ .closeParen)
    (ha : ArgumentRun vs a) (has : ArgumentsRun ws as) (hnil : as = [] → ws = []) :
    ∃ xs, Rewrites (us ++ (ss ++ us')) xs ∧ ArgumentsRun xs (a :: as) ∧
      ∀ ts, (ts = [] ↔ as = []) → spell ws = Text.joinWith (',' :: spell bs) ts →
        spell xs = Text.joinWith (',' :: spell bs) (spell vs :: ts) := by
  cases as with
  | nil =>
    obtain rfl := hnil rfl
    have hlit : Soql.literals (ss ++ us') = [] := by
      rw [literals_append, hs, ← hr'.literals]
      rfl
    refine ⟨vs, hr.append_silent hlit, .single hf hne ha, fun ts hts _ => ?_⟩
    rw [hts.2 rfl]
    rfl
  | cons b as =>
    refine ⟨_, hr.join hr' hs hb hnl, .join hf hne ha hb has, fun ts hts hws => ?_⟩
    obtain ⟨t, ts, rfl⟩ := List.exists_cons_of_ne_nil fun h => List.cons_ne_nil _ _ (hts.1 h)
    simp [Text.joinWith, hws, spelling]

theorem forgetAll_eq_nil {as : List Argument} : Argument.forgetAll as = [] ↔ as = [] := by
  cases as <;> simp [Argument.forgetAll]

theorem arguments_eq_nil {l : Layout} {as : List Argument} :
    (Compose.arguments l as).value = [] ↔ as = [] := by
  cases as <;> simp [Compose.arguments]

/-- One argument, what separates it from the others, and the others. -/
theorem ArgumentsPhrase.cons {us ss us' : List Piece} {a : Argument} {as : List Argument}
    (h : ArgumentPhrase us a) (hs : Single .comma ss ∨ (ss = [] ∧ us' = [] ∧ as = []))
    (h' : ArgumentsPhrase us' as) : ArgumentsPhrase (us ++ (ss ++ us')) (a :: as) := by
  have hlit : literals ss = [] := by
    rcases hs with hs | ⟨rfl, -⟩
    · exact hs.literals
    · rfl
  refine ⟨?_, ?_, ?_⟩
  · rcases hs with hs | ⟨rfl, rfl, rfl⟩
    · refine ArgumentsRun.cons h.starts h.notClose h.again (fun ds hds => ⟨?_, ?_⟩) h'.again
      · rw [hs.inView_append]
        simp [EndsName]
      · exact run_separator hs _ _
    · simpa using ArgumentsRun.single h.starts h.notClose h.again
  · obtain ⟨vs, hvs, hr, hv, hrun⟩ := h.flat
    obtain ⟨ws, hws, hr', hnil, hrun'⟩ := h'.flat
    obtain ⟨xs, hxs, hruns, hspell⟩ := exists_joined hr hr' hlit blank_space (by simp)
      (hv ▸ h.starts) (hv ▸ h.notClose) hrun hrun' hnil
    refine ⟨xs, ?_, hxs, by simp, hruns⟩
    rw [hspell _ List.map_eq_nil_iff hws, hvs]
    rfl
  · obtain ⟨vs, a', hvs, hr, hv, hfo, hrun⟩ := h.composed
    obtain ⟨ws, as', hws, hr', hnil, hfo', hrun'⟩ := h'.composed
    have hempty : as = [] ↔ as' = [] := by rw [← forgetAll_eq_nil, ← hfo', forgetAll_eq_nil]
    obtain ⟨xs, hxs, hruns, hspell⟩ := exists_joined hr hr' hlit blank_nil (by simp)
      (hv ▸ h.starts) (hv ▸ h.notClose) hrun hrun' (hnil ∘ hempty.2)
    refine ⟨xs, a' :: as', fun l => ?_, hxs, by simp,
      by simp only [Argument.forgetAll, hfo, hfo'], hruns⟩
    rw [hspell _ (arguments_eq_nil.trans hempty) (hws l), hvs l]
    rfl

/-- Whether the token is a string, a number or a date. -/
def isLiteral : Token → Bool
  | .string _ | .number _ | .dateTime _ => true
  | _ => false

theorem argument_eq {c : Cursor} (h : isLiteral c.current.token) (args : Parser (List Argument)) :
    argument args c = (advance >>= fun _ => pure (.text c.current.token.spelling)) c := by
  have hcurrent {f : Lexeme → Parser Argument} : (current >>= f) c = f c.current c := rfl
  unfold argument
  rw [hcurrent]
  cases ht : c.current.token <;> first | rfl | simp [ht, isLiteral] at h

theorem run_argument_literal {t : Token} {us : List Piece} (hl : isLiteral t) (h : Single t us)
    (args : Parser (List Argument)) (ds : List Piece) :
    Run (argument args) us (.text t.spelling) ds := by
  intro T _
  have hv : (cursor T (us ++ ds)).current.token = t := by rw [token_cursor, h.inView_append]
  rw [argument_eq (by rwa [hv]), hv]
  exact bind_eq_ok.2 ⟨_, _, advance_cursor h T ds, pure_eq_ok.2 ⟨rfl, rfl⟩⟩

/-- A literal is an argument as it stands. -/
theorem ArgumentPhrase.literal {t : Token} {us : List Piece} (hl : isLiteral t) (h : Single t us) :
    ArgumentPhrase us (.text t.spelling) := by
  have hv : inView us = t := h.inView
  have hr : Rewrites us [Piece.token t h.proper] := by
    refine ⟨closed_token t _, by simp [literals_token, h.literals], ?_⟩
    obtain ⟨bs, hp, hb, rfl⟩ := h
    simpa using Or.inr
  have hone : ArgumentRun [Piece.token t h.proper] (.text t.spelling) :=
    fun m _ ds _ => run_argument_literal hl (Single.token h.proper) _ ds
  refine ⟨?_, ?_, fun m _ ds _ => run_argument_literal hl h _ ds,
    ⟨_, by simp [Argument.flatText], hr, hv.symm, hone⟩,
    _, _, fun l => by simp [Compose.argument], hr, hv.symm, rfl, hone⟩
  · rintro hf
    rw [hv] at hf
    simp [hf, isLiteral] at hl
  · rintro hf
    rw [hv] at hf
    simp [hf, isLiteral] at hl

theorem run_argument_path {w : Text} {us rs ds : List Piece} {ws : List Text}
    (h : Single (.word w) us) (hv : inView (rs ++ ds) ≠ .openParen) (hrs : Run pathRest rs ws ds)
    (args : Parser (List Argument)) :
    Run (argument args) (us ++ rs) (.text (Text.joinWith "." (w :: ws))) ds := by
  refine Run.current fun lexeme hl => ?_
  rw [List.append_assoc, h.inView_append] at hl
  rw [hl]
  refine (skips_advance h _).bind fun first => Run.answer (run_atToken _ _) ?_
  rw [beq_eq_false_iff_ne.2 hv]
  exact hrs.bind_pure fun ws => Argument.text (Text.joinWith "." (w :: ws))

/-- A dotted path is an argument as it stands. -/
theorem ArgumentPhrase.path {w : Text} {us rs ds : List Piece} {ws : List Text}
    (h : Single (.word w) us) (hrs : literals rs = [] ∧ (∀ w ∈ ws, (word w).Proper) ∧
      ∀ ds, inView ds ≠ .dot → Run pathRest rs ws ds) (hv : inView (rs ++ ds) ≠ .openParen) :
    ArgumentPhrase (us ++ rs) (.text (Text.joinWith "." (w :: ws))) := by
  have hview : inView (us ++ rs) = .word w := h.inView_append rs
  have hview' : inView (pathPieces h.proper hrs.2.1) = .word w := rfl
  have hr : Rewrites (us ++ rs) (pathPieces h.proper hrs.2.1) :=
    ⟨closed_pathPieces _ _, by simp [h.literals, hrs.1, literal?],
      fun hm => absurd hm (not_mem_pathPieces _ _)⟩
  have hone : ArgumentRun (pathPieces h.proper hrs.2.1) (.text (Text.joinWith "." (w :: ws))) :=
    fun m _ ds hds => run_argument_path (Single.token h.proper)
      (inView_dottedPieces_ne _ (by simp) hds.2) (run_dottedPieces _ hds.1) _
  refine ⟨by simp [hview], by simp [hview], ?_,
    ⟨_, spell_pathPieces _ _, hr, hview'.trans hview.symm, hone⟩,
    _, _, fun l => ?_, hr, hview'.trans hview.symm, rfl, hone⟩
  · intro m _ ds' hds
    refine run_argument_path h ?_ (hrs.2.2 ds' hds.1) _
    by_cases hf : inView rs = .finish
    · rw [(blank_of_inView hf).inView_append]
      exact hds.2
    · rw [inView_append hf] at hv ⊢
      exact hv
  · rw [Compose.argument, Journaled.value_pure, spell_pathPieces]

theorem run_argument_call {name : Text} {us os as cs : List Piece} {args : List Argument} {m : Nat}
    (h : Single (.word name) us) (ho : Single .openParen os) (hc : Single .closeParen cs)
    (ha : ArgumentsRun as args) (hm : count as ≤ m) (ds : List Piece) :
    Run (argument (argumentsUpTo m)) (us ++ (os ++ (as ++ cs)))
      (.field (.call (.written name args (name ++ spell (os ++ (as ++ cs)))))) ds := by
  intro T hT
  have hrun := ha m hm (cs ++ ds) (hc.inView_append ds)
  have heq : us ++ (os ++ (as ++ cs)) ++ ds = us ++ (os ++ (as ++ (cs ++ ds))) := by simp
  rw [heq] at hT ⊢
  have hT' : (name ++ spell (os ++ (as ++ (cs ++ ds)))).length ≤ T := by
    obtain ⟨bs, hp, hb, rfl⟩ := h
    simp only [spell_append, spell_cons, spell_nil, List.length_append, Piece.text_token,
      spelling, List.length_nil] at hT ⊢
    omega
  have hcall := callAfterName_cursor ho hc hrun name hT'
  refine bind_eq_ok.2 ⟨_, _, current_eq _, ?_⟩
  rw [token_cursor, h.inView_append]
  refine bind_eq_ok.2 ⟨_, _, advance_cursor h T _, ?_⟩
  refine bind_eq_ok.2 ⟨true, cursor T (os ++ (as ++ (cs ++ ds))), ?_, ?_⟩
  · rw [atToken_eq, token_cursor, ho.inView_append, beq_self_eq_true]
  · exact bind_eq_ok.2 ⟨_, _, hcall, pure_eq_ok.2 ⟨rfl, rfl⟩⟩

/-- The pieces of a call after its name. -/
def callPieces (vs : List Piece) : List Piece :=
  [.openParen] ++ (vs ++ [.closeParen])

@[simp] theorem spell_callPieces (vs : List Piece) :
    spell (callPieces vs) = "(" ++ spell vs ++ ")" := by
  simp [callPieces, spelling]

theorem Rewrites.call {name : Text} {us vs os as cs : List Piece} (h : Single (.word name) us)
    (ho : Single .openParen os) (hc : Single .closeParen cs) (hr : Rewrites as vs) :
    Rewrites (us ++ (os ++ (as ++ cs))) ([Piece.token (.word name) h.proper] ++ callPieces vs) := by
  have hcl : Closed (callPieces vs) := by
    intro r hr'
    refine ⟨rfl, hr.closed.append (closed_mark .closeParen rfl) ?_ r hr'⟩
    exact clean_cons (c := ')') (by decide) []
  refine ⟨(closed_token _ _).append hcl (clean_cons (by decide) _), ?_, ?_⟩
  · simp [callPieces, literals_token, h.literals, ho.literals, hc.literals, hr.literals, literal?]
  · have := not_mem_word h.proper
    have := hr.feeds
    simp_all [spelling]

/-- The pieces of a call as it was written, from its name on. -/
theorem Rewrites.again {name : Text} {us os as cs : List Piece} (h : Single (.word name) us)
    (hc : Single .closeParen cs) {r : Text} (hfit : Fits (us ++ (os ++ (as ++ cs))) r) :
    Rewrites (us ++ (os ++ (as ++ cs)))
      ([Piece.token (.word name) h.proper] ++ (os ++ (as ++ cs))) := by
  obtain ⟨bs, hp, hb, rfl⟩ := h
  refine ⟨?_, by simp [hb.literals], ?_⟩
  · obtain ⟨bs', hp', hb', rfl⟩ := hc
    have heq : [Piece.token (.word name) hp] ++
        (os ++ (as ++ (bs' ++ [Piece.token .closeParen hp']))) =
          [Piece.token (.word name) hp] ++ (os ++ (as ++ bs')) ++
            [Piece.token .closeParen hp'] := by
      simp
    rw [List.append_assoc, fits_append, heq, fits_append] at hfit
    rw [heq]
    exact closed_of_fits (c := ')') (by decide) rfl (closed_token _ _) hfit.2.1
  · intro hm
    rw [List.append_assoc, spell_append]
    exact List.mem_append_right _ hm

/-- A call is an argument by its source text, or by its name and its arguments. -/
theorem ArgumentPhrase.call {name : Text} {us os as cs : List Piece} {args : List Argument}
    (h : Single (.word name) us) (ho : Single .openParen os) (hc : Single .closeParen cs)
    (ha : ArgumentsPhrase as args) {r : Text} (hfit : Fits (us ++ (os ++ (as ++ cs))) r) :
    ArgumentPhrase (us ++ (os ++ (as ++ cs)))
      (.field (.call (.written name args (name ++ spell (os ++ (as ++ cs)))))) := by
  have hview : inView (us ++ (os ++ (as ++ cs))) = .word name := h.inView_append _
  have hcount : ∀ m, count (us ++ (os ++ (as ++ cs))) ≤ m + 1 → count as ≤ m := by
    intro m hm
    simp only [count_append, h.count, ho.count, hc.count] at hm
    omega
  refine ⟨by simp [hview], by simp [hview], fun m hm ds _ =>
    run_argument_call h ho hc ha.again (hcount m hm) ds, ?_, ?_⟩
  · refine ⟨_, ?_, .again h hc hfit, by simp [hview], fun m hm ds _ => ?_⟩
    · simp [Argument.flatText, Call.written, spelling]
    · refine run_argument_call (Single.token h.proper) ho hc ha.again ?_ ds
      simp only [count_append, count_token, count_nil, ho.count, hc.count] at hm
      omega
  · obtain ⟨vs, args', hvs, hr, -, hfo, hrun⟩ := ha.composed
    refine ⟨_, .field (.call (.written name args' (name ++ spell (callPieces vs)))), fun l => ?_,
      .call h ho hc hr, by simp [hview], ?_, fun m hm ds _ => ?_⟩
    · simp [hvs l, Compose.argument, Compose.field, Compose.call, Call.written, Call.ofParts,
        aliased, spelling]
    · simp [Argument.forgetSources, Field.forgetSources, Call.forgetSources, Call.written,
        Call.ofParts, hfo]
    · refine run_argument_call (Single.token h.proper) (Single.mark .openParen rfl)
        (Single.mark .closeParen rfl) hrun ?_ ds
      simp only [callPieces, count_append, count_token, count_nil] at hm
      omega

/-- How an argument is read: a literal, or a name with a call or a path after it. -/
inductive ArgumentAt (E : Ending) (T : Nat) (args : Parser (List Argument)) (c' : Cursor) :
    List Piece → Argument → Prop
  | literal {t : Token} {us ds : List Piece} (hl : isLiteral t) (hs : Single t us)
      (hd : At E T ds c') : ArgumentAt E T args c' (us ++ ds) (.text t.spelling)
  | call {name : Text} {us ds : List Piece} {c : Cursor} {r : Call} (hs : Single (.word name) us)
      (hd : At E T ds c)
      (h : callAfterName args (lexemeAt E T (.word name) ds) name c = .ok r c') :
      ArgumentAt E T args c' (us ++ ds) (.field (.call r))
  | path {name : Text} {us ds : List Piece} {c : Cursor} {ws : List Text}
      (hs : Single (.word name) us) (hd : At E T ds c) (hv : inView ds ≠ .openParen)
      (h : pathRest c = .ok ws c') :
      ArgumentAt E T args c' (us ++ ds) (.text (Text.joinWith "." (name :: ws)))

theorem argument_at {E : Ending} {T : Nat} {ps : List Piece} {c c' : Cursor}
    {args : Parser (List Argument)} {a : Argument} (hc : At E T ps c)
    (h : argument args c = .ok a c') : ArgumentAt E T args c' ps a := by
  by_cases hl : isLiteral c.current.token
  · rw [argument_eq hl] at h
    obtain ⟨_, c₁, h1, h⟩ := bind_eq_ok.1 h
    obtain ⟨rfl, rfl⟩ := pure_eq_ok.1 h
    have hf : c.current.token ≠ .finish := by
      intro hf
      simp [hf, isLiteral] at hl
    obtain ⟨us, ds, rfl, hs, -, hd⟩ := advance_at hf hc rfl h1
    exact .literal hl hs hd
  obtain ⟨_, _, h1, h⟩ := bind_eq_ok.1 h
  cases h1
  cases ht : c.current.token with
  | word name =>
    rw [ht] at h
    obtain ⟨first, c₁, h1, h⟩ := bind_eq_ok.1 h
    obtain ⟨us, ds, rfl, hs, rfl, hd⟩ := advance_at (by simp) hc ht h1
    obtain ⟨b, _, h2, h⟩ := bind_eq_ok.1 h
    rw [atToken_eq, hd.token] at h2
    cases h2
    split at h
    · obtain ⟨r, c₂, h3, h⟩ := bind_eq_ok.1 h
      obtain ⟨rfl, rfl⟩ := pure_eq_ok.1 h
      exact .call hs hd h3
    · rename_i hne
      obtain ⟨ws, c₂, h3, h⟩ := bind_eq_ok.1 h
      obtain ⟨rfl, rfl⟩ := pure_eq_ok.1 h
      exact .path hs hd (by simpa using hne) h3
  | string | number | dateTime => simp [ht, isLiteral] at hl
  | _ =>
    rw [ht] at h
    exact absurd h fail_ne_ok

theorem reads_argument {n : Nat} {P : List Piece → List Argument → List Piece → Prop}
    (hargs : Reads (argumentsUpTo n) P) (hP : ∀ us as ds, P us as ds → ArgumentsPhrase us as) :
    Reads (argument (argumentsUpTo n)) fun us a _ => ArgumentPhrase us a := by
  intro E T ps c a c' hc h
  cases argument_at hc h with
  | @literal t us ds hl hs hd => exact ⟨us, ds, rfl, hd, .literal hl hs⟩
  | @call name us ds _ r hs hd hcall =>
    obtain ⟨os, as, cs, ds, args, rfl, ho, hcl, hargs, hd, rfl⟩ :=
      callAfterName_at hargs hd (long_at hc hs) hcall
    exact ⟨us ++ (os ++ (as ++ cs)), ds, by simp, hd,
      .call hs ho hcl (hP _ _ _ hargs) (fits_at hc)⟩
  | @path name us ds _ ws hs hd hv hpath =>
    obtain ⟨rs, ds, rfl, hd, hrs⟩ := reads_pathRest hd hpath
    exact ⟨us ++ rs, ds, by simp, hd, .path hs hrs hv⟩

/-- **The arguments of a call, and the three ways to write them.** -/
theorem reads_argumentsUpTo (n : Nat) : Reads (argumentsUpTo n) fun us as ds =>
    ArgumentsPhrase us as ∧ (inView (us ++ ds) = .closeParen → us = [] ∧ as = []) := by
  induction n with
  | zero =>
    refine (Reads.pure []).mono ?_
    rintro us as ds ⟨rfl, rfl⟩
    exact ⟨.nil, fun _ => ⟨rfl, rfl⟩⟩
  | succ n ih =>
    rw [argumentsUpTo_succ]
    refine ((reads_atToken .closeParen).bind (R := fun b us as ds =>
      (b = true ∧ us = [] ∧ as = []) ∨ (b = false ∧ ArgumentsPhrase us as)) ?_).mono ?_
    · intro b
      cases b with
      | true => exact (Reads.pure []).mono fun us as ds h => Or.inl ⟨rfl, h⟩
      | false =>
        refine ((reads_argument ih fun us as ds h => h.1).bind fun a =>
          (reads_separator .argumentSeparator).bind fun _ => ih.bind fun as =>
            Reads.pure (a :: as)).mono ?_
        rintro us as ds ⟨us, a, _, rfl, ha, ss, _, _, rfl, hs, us', as', _, rfl, ⟨has, hnil⟩,
          rfl, rfl⟩
        refine Or.inr ⟨rfl, ?_⟩
        rw [List.append_nil]
        refine .cons ha ?_ has
        rcases hs with hs | ⟨rfl, hs⟩
        · exact Or.inl hs
        · exact Or.inr ⟨rfl, hnil (by simpa using hs)⟩
    · rintro us as ds ⟨_, b, us, rfl, ⟨rfl, hb⟩, ⟨rfl, rfl, rfl⟩ | ⟨rfl, h⟩⟩
      · exact ⟨.nil, fun _ => ⟨rfl, rfl⟩⟩
      · exact ⟨h, fun hv => absurd hv (by simpa using hb)⟩

/-! ## Calls by name -/

/-- The pieces that a call was read from: its name, and arguments between parentheses. -/
inductive CallPhrase : List Piece → Call → Prop
  | mk {name : Text} {us os as cs : List Piece} {args : List Argument} {rest : Text}
      (hs : Single (.word name) us) (ho : Single .openParen os) (hc : Single .closeParen cs)
      (ha : ArgumentsPhrase as args) (hfit : Fits (us ++ (os ++ (as ++ cs))) rest) :
      CallPhrase (us ++ (os ++ (as ++ cs)))
        (.written name args (name ++ spell (os ++ (as ++ cs))))

/-- A name, and a call or something else after it. -/
theorem Reads.named {β : Type} {e : Expectation} {k : Call → Parser β} {other : Text → Parser β}
    {P : Call → List Piece → β → List Piece → Prop} {Q : Text → List Piece → β → List Piece → Prop}
    (hk : ∀ r, Reads (k r) (P r)) (ho : ∀ name, Reads (other name) (Q name)) :
    Reads (do
      let first ← Parser.current
      let name ← identifier e
      if ← Parser.atToken .openParen then k (← call first name) else other name) fun us b ds =>
      (∃ vs r ws, us = vs ++ ws ∧ CallPhrase vs r ∧ P r ws b ds) ∨
        ∃ vs name ws, us = vs ++ ws ∧ Single (.word name) vs ∧ inView (ws ++ ds) ≠ .openParen ∧
          Q name ws b ds := by
  intro E T ps c₀ b c' hc₀ h
  obtain ⟨_, _, h1, h⟩ := bind_eq_ok.1 h
  cases h1
  obtain ⟨name, c, h1, h⟩ := bind_eq_ok.1 h
  obtain ⟨us, ps, rfl, hc, hs⟩ := reads_identifier _ hc₀ h1
  obtain ⟨_, _, h2, h⟩ := bind_eq_ok.1 h
  rw [atToken_eq, hc.token] at h2
  cases h2
  split at h
  · obtain ⟨r, c₁, h3, h⟩ := bind_eq_ok.1 h
    rw [current_at hc₀ hs] at h3
    obtain ⟨os, as, cs, ds, args, rfl, hopen, hclose, hargs, hd, rfl⟩ :=
      callAfterName_at (reads_argumentsUpTo (c.size + 1)) hc (long_at hc₀ hs) h3
    obtain ⟨ws, ds, rfl, hd, hP⟩ := hk _ hd h
    exact ⟨us ++ (os ++ (as ++ cs)) ++ ws, ds, by simp, hd,
      Or.inl ⟨_, _, ws, rfl, ⟨hs, hopen, hclose, hargs.1, fits_at hc₀⟩, hP⟩⟩
  · rename_i hview
    obtain ⟨ws, ds, rfl, hd, hQ⟩ := ho name hc h
    exact ⟨us ++ ws, ds, by simp, hd, Or.inr ⟨us, name, ws, rfl, hs, by simpa using hview, hQ⟩⟩

/-- The pieces of a name and a call, read by a parser that looks for both. -/
theorem run_call {β : Type} {name : Text} {us os as cs vs ds : List Piece} {args : List Argument}
    (h : Single (.word name) us) (ho : Single .openParen os) (hc : Single .closeParen cs)
    (ha : ArgumentsRun as args) {e : Expectation} {k : Call → Parser β}
    {other : Text → Parser β} {b : β}
    (hk : Run (k (.written name args (name ++ spell (os ++ (as ++ cs))))) vs b ds) :
    Run (do
      let first ← current
      let name ← identifier e
      if ← atToken .openParen then k (← call first name) else other name)
      (us ++ (os ++ (as ++ cs)) ++ vs) b ds := by
  intro T hT
  have heq : us ++ (os ++ (as ++ cs)) ++ vs ++ ds = us ++ (os ++ (as ++ (cs ++ (vs ++ ds)))) := by
    simp
  rw [heq] at hT ⊢
  have hT' : (name ++ spell (os ++ (as ++ (cs ++ (vs ++ ds))))).length ≤ T := by
    obtain ⟨bs, hp, hb, rfl⟩ := h
    simp only [spell_append, spell_cons, spell_nil, List.length_append, Piece.text_token,
      spelling, List.length_nil] at hT ⊢
    omega
  have hcur : (cursor T (us ++ (os ++ (as ++ (cs ++ (vs ++ ds)))))).current =
      lexemeAt (.plain T) T (.word name) (os ++ (as ++ (cs ++ (vs ++ ds)))) := by
    obtain ⟨bs, hp, hb, rfl⟩ := h
    rw [List.append_assoc, hb.cursor_append]
    rfl
  refine bind_eq_ok.2 ⟨_, _, current_eq _, ?_⟩
  refine bind_eq_ok.2 ⟨name, _, run_identifier h e _ T hT, ?_⟩
  refine bind_eq_ok.2 ⟨true, cursor T (os ++ (as ++ (cs ++ (vs ++ ds)))), ?_, ?_⟩
  · rw [atToken_eq, token_cursor, ho.inView_append, beq_self_eq_true]
  · rw [hcur]
    refine bind_eq_ok.2 ⟨_, _, ?_, hk T ?_⟩
    · have hsize := count_le_size T (os ++ (as ++ (cs ++ (vs ++ ds))))
      simp only [count_append] at hsize
      exact callAfterName_cursor ho hc
        (ha _ (by omega) (cs ++ (vs ++ ds)) (hc.inView_append _)) name hT'
    · simp only [spell_append, List.length_append] at hT' ⊢
      omega

/-- The pieces of a path, read by a parser that also looks for a call. -/
theorem run_path {β : Type} {w : Text} {us rs ds : List Piece} (h : Single (.word w) us)
    (hv : inView (rs ++ ds) ≠ .openParen) {e : Expectation} {k : Call → Parser β}
    {other : Text → Parser β} {b : β} (hk : Run (other w) rs b ds) :
    Run (do
      let first ← current
      let name ← identifier e
      if ← atToken .openParen then k (← call first name) else other name)
      (us ++ rs) b ds := by
  refine Run.current fun lexeme _ => (run_identifier h e _).bind (Run.answer (run_atToken _ _) ?_)
  rw [beq_eq_false_iff_ne.2 hv]
  exact hk

end Parser

/-! ## Subjects -/

namespace Subject

/-- The subject as it stands in a condition or a sort key. -/
def text (s : Subject) : Text := subjectText s.field? s.call?

/-- The text of the call, if the subject is one. -/
def callTexts : Subject → List Text
  | field _ => []
  | call c => c.source.toList

end Subject

namespace Parser

/-- A subject that was read from the pieces `us` can be read again from its text, and a call also
    from the text that it has as a group key. -/
structure SubjectPhrase (us : List Piece) (s : Subject) : Prop where
  starts : ∃ w, inView us = .word w
  written : ∃ vs, Phrase subject EndsName s.callTexts us s vs ∧ spell vs = s.text
  grouped : ∀ c, s = .call c → ∃ vs c', Phrase subject EndsName s.callTexts us (.call c') vs ∧
    spell vs = Grouping.text { call := some c } ∧ c'.forgetSource = c.forgetSource

theorem SubjectPhrase.path {w : Text} {us rs : List Piece} {ws : List Text}
    (h : Single (.word w) us) (hrs : literals rs = []) (hws : ∀ w ∈ ws, (word w).Proper) :
    SubjectPhrase (us ++ rs) (.field (Text.joinWith "." (w :: ws))) := by
  have hview : inView (us ++ rs) = .word w := h.inView_append rs
  refine ⟨⟨w, hview⟩, ⟨pathPieces h.proper hws, ⟨closed_pathPieces _ _, ?_, hview.symm, ?_,
    tight_pathPieces _ _, ?_, fun ds hds => ?_⟩, spell_pathPieces _ _⟩, fun c hc => by cases hc⟩
  · simp [h.literals, hrs, literal?]
  · simp [hview]
  · exact fun hm => absurd hm (not_mem_pathPieces _ _)
  · exact run_path (Single.token h.proper) (inView_dottedPieces_ne _ (by simp) hds.2)
      ((run_dottedPieces _ hds.1).bind_pure
        fun ws => Subject.field (Text.joinWith "." (w :: ws)))

theorem run_subject_call {name : Text} {us os as cs : List Piece} {args : List Argument}
    (h : Single (.word name) us) (ho : Single .openParen os) (hc : Single .closeParen cs)
    (ha : ArgumentsRun as args) (ds : List Piece) : Run subject (us ++ (os ++ (as ++ cs)))
      (.call (Call.written name args (name ++ spell (os ++ (as ++ cs)))).flatten) ds := by
  rw [← List.append_nil (us ++ (os ++ (as ++ cs)))]
  exact run_call h ho hc ha (k := fun r => (pure (.call r.flatten) : Parser Subject))
    (Run.pure _ ds)

theorem SubjectPhrase.call {name : Text} {us os as cs : List Piece} {args : List Argument}
    (h : Single (.word name) us) (ho : Single .openParen os) (hc : Single .closeParen cs)
    (ha : ArgumentsPhrase as args) {r : Text} (hfit : Fits (us ++ (os ++ (as ++ cs))) r) :
    SubjectPhrase (us ++ (os ++ (as ++ cs)))
      (.call (Call.written name args (name ++ spell (os ++ (as ++ cs)))).flatten) := by
  have hview : inView (us ++ (os ++ (as ++ cs))) = .word name := h.inView_append _
  refine ⟨⟨name, hview⟩, ?_, ?_⟩
  · have hr := Rewrites.again h hc hfit
    refine ⟨_, ⟨hr.closed, hr.literals, by simp [hview], by simp [hview], ?_, fun hm => ?_,
      fun ds _ => run_subject_call (Single.token h.proper) ho hc ha.again ds⟩, ?_⟩
    · obtain ⟨bs, hp, hb, rfl⟩ := hc
      have := (tight_token _ h.proper).append (tight_token _ hp) (by simp) (by simp)
        (os ++ (as ++ bs))
      simpa using this
    · refine ⟨name ++ spell (os ++ (as ++ cs)),
        List.mem_append_right _ (List.mem_singleton.2 rfl), ?_⟩
      simpa [spelling] using hm
    · simp [Subject.text, subjectText, Subject.call?, FlatCall.text, Call.flatten, Call.written,
        spelling]
  · rintro _ ⟨⟩
    obtain ⟨vs, hvs, hr, -, hrun⟩ := ha.flat
    have hr' := Rewrites.call h ho hc hr
    refine ⟨_, (Call.written name args (name ++ spell (callPieces vs))).flatten,
      ⟨hr'.closed, hr'.literals, by simp [hview], by simp [hview], ?_, fun hm => ?_, fun ds _ =>
        run_subject_call (Single.token h.proper) (Single.mark .openParen rfl)
          (Single.mark .closeParen rfl) hrun ds⟩, ?_, rfl⟩
    · have := (tight_token _ h.proper).append (tight_mark .closeParen rfl) (by simp) (by simp)
        ([Piece.openParen] ++ vs)
      simpa [callPieces] using this
    · refine ⟨name ++ spell (os ++ (as ++ cs)),
        List.mem_append_right _ (List.mem_singleton.2 rfl), ?_⟩
      have := not_mem_word h.proper
      have := hr.feeds
      simp_all [spelling]
    · simp [Grouping.text, Call.flatten, Call.written, Call.ofParts, callText, hvs, spelling]

theorem reads_subject : Reads subject fun us s _ => SubjectPhrase us s := by
  refine (Reads.named (fun r => Reads.pure (Subject.call r.flatten)) fun name =>
    reads_pathRest.bind fun ws =>
      Reads.pure (Subject.field (Text.joinWith "." (name :: ws)))).mono ?_
  rintro _ _ ds (⟨_, _, _, rfl, ⟨hs, ho, hc, ha, hfit⟩, rfl, rfl⟩ |
    ⟨us, name, _, rfl, hs, -, rs, ws, _, rfl, hrs, rfl, rfl⟩)
  · rw [List.append_nil]
    exact .call hs ho hc ha hfit
  · rw [List.append_nil]
    exact .path hs hrs.1 hrs.2.1

end Parser

end Soql
