/-
  `WITH` clauses stand in either place.

  A query is read from five texts with blanks between them: its fields, source
  and filter; `WITH` clauses; the clauses from the grouping to the offset; more
  `WITH` clauses; what it is for.  Each of them is read as if it stood alone.
  So it does not matter on which side of the middle ones the first `WITH`
  clauses stand.

  * `IsPart f t`: the text `t` is all of what `f` goes through.
  * `Does f us o ds`: `f` takes the pieces `us` where `ds` follows, or fails.
  * `Resumes`: the outcomes of a repetition, on a part of a text and on all of
    it.
  * `IsPart.does`: what is made of a part alone is made of it in a query.
  * `Query.parse_moved`: the two orders of the parts are one query.
-/
import Mathlib
import Soql.Proofs.Parse.Apart

namespace Soql

open Unicode Token Soql.Parser

namespace Parser

variable {α β : Type} {f : Parser α} {g : α → Parser β} {us vs ds : List Piece} {w : Text}
  {words : List Text}

/-! ## What parsers make of pieces -/

/-- The parser takes the pieces `us` and yields what `o` has, where `ds` follows; it fails if `o`
    has nothing. -/
def Does (f : Parser α) (us : List Piece) (o : Option α) (ds : List Piece) : Prop :=
  ∀ T, (spell (us ++ ds)).length ≤ T → match o with
    | some a => f (cursor T (us ++ ds)) = .ok a (cursor T ds)
    | none => ∃ e c, f (cursor T (us ++ ds)) = .error e c

namespace Does

variable {o : Option α}

theorem bind {o' : α → Option β} (hf : Does f us o (vs ++ ds))
    (hg : ∀ a, Does (g a) vs (o' a) ds) : Does (f >>= g) (us ++ vs) (o.bind o') ds := by
  intro T hT
  rw [List.append_assoc] at hT ⊢
  have hf := hf T hT
  cases o with
  | none =>
    obtain ⟨e, c, hf⟩ := hf
    exact ⟨e, c, bind_of_error hf⟩
  | some a =>
    rw [bind_of_ok hf]
    exact hg a T (length_le_of_append hT)

/-- The second parser comes to the end of the text. -/
theorem bindLast {o' : α → Option β} (hf : Does f us o vs)
    (hg : ∀ a, Does (g a) vs (o' a) []) : Does (f >>= g) (us ++ vs) (o.bind o') [] := by
  rw [← List.append_nil vs] at hf
  exact hf.bind hg

/-- The second parser takes nothing. -/
theorem bindNil {o' : α → Option β} (hf : Does f us o ds) (hg : ∀ a, Does (g a) [] (o' a) ds) :
    Does (f >>= g) us (o.bind o') ds := by
  rw [← List.append_nil us]
  exact bind hf hg

theorem map (hf : Does f us o ds) (h : α → β) :
    Does (f >>= fun a => pure (h a)) us (o.map h) ds := by
  rw [Option.map_eq_bind]
  exact hf.bindNil fun a _ _ => rfl

theorem blank_append {bs : List Piece} (hb : Blank bs) (hf : Does f us o ds) :
    Does f (bs ++ us) o ds := by
  intro T hT
  rw [List.append_assoc] at hT ⊢
  rw [hb.cursor_append]
  exact hf T (length_le_of_append hT)

end Does

/-! ## Whole texts -/

theorem readAll_of_error {e : ParseError} {c : Cursor} (hfit : Fits us [])
    (hf : f (cursor (spell us).length us) = .error e c) : readAll f (spell us) = .error e := by
  rw [readAll, ofText_spell hfit, ofLexemes_placed]
  simp only [bind_of_error hf]

theorem readAll_of_ok {a : α} (hfit : Fits us [])
    (hf : f (cursor (spell us).length us) = .ok a (cursor (spell us).length ds)) :
    readAll f (spell us) = if inView ds = .finish then .ok a else .error
      (.unexpectedToken .endOfQuery (inView ds) (cursor (spell us).length ds).current.start) := by
  rw [readAll, ofText_spell hfit, ofLexemes_placed]
  have htoken := token_cursor (spell us).length ds
  simp only [bind_of_ok hf, expect_bind, bind_of_ok (atToken_eq ..), htoken]
  by_cases hds : inView ds = .finish
  · have hcursor := (blank_of_inView hds).cursor_append (T := (spell us).length) []
    rw [List.append_nil] at hcursor
    rw [hds, hcursor]
    rfl
  · simp only [beq_eq_false_iff_ne.2 hds, Bool.false_eq_true, if_false, fail_eq, htoken, if_neg hds]

theorem Does.readAll {o : Option α} (hfit : Fits us []) (hf : Does f us o []) :
    (readAll f (spell us)).toOption = o := by
  have hf := hf (spell us).length (by simp)
  rw [List.append_nil] at hf
  cases o with
  | none =>
    obtain ⟨e, c, hf⟩ := hf
    rw [readAll_of_error hfit hf]
    rfl
  | some a =>
    rw [readAll_of_ok hfit hf]
    rfl

/-! ## Parts of a query -/

/-- The text is all of what the parser goes through: it is made of tokens, none of them is left
    behind what the parser reads, and the parser asks for no more.  It may find fault with it. -/
structure IsPart (f : Parser α) (t : Text) : Prop where
  scanned : (Lexemes.ofText t).ending.isOk = true
  whole : ∀ e, readAll f t = .error e →
    (∀ x, e ≠ .unexpectedEnd x) ∧ ∀ u i, e ≠ .unexpectedToken .endOfQuery u i

namespace IsPart

theorem of_isOk {t : Text} (hs : (Lexemes.ofText t).ending.isOk = true)
    (h : (readAll f t).isOk = true) : IsPart f t := by
  refine ⟨hs, fun e he => ?_⟩
  rw [he] at h
  cases h

/-- What is made of a part alone is made of it with clauses behind it. -/
theorem does (h : IsPart f (spell us)) (hfit : Fits us []) (hds : StartsWith clauseWords ds)
    (hcut : ∀ S : Seam, S.rest = ds → Cut S False (count us) f f) :
    Does f us (readAll f (spell us)).toOption ds := by
  intro T hT
  have hplace : (Seam.mk (spell us).length T ds hds).Place (count us) us :=
    ⟨hfit, le_rfl, hT, le_rfl⟩
  have hends := hcut ⟨_, T, ds, hds⟩ rfl hplace trivial
  dsimp only at hends
  generalize hr : f (cursor (spell us).length us) = r, hr' : f (cursor T (us ++ ds)) = r' at hends
  cases hends with
  | @both vs rs a heq =>
    have hread := readAll_of_ok hfit hr
    split at hread
    next hrs =>
      rw [hread]
      exact congrArg _ ((blank_of_inView hrs).cursor_append ds)
    next => exact absurd rfl ((h.whole _ hread).2 _ _)
  | lost h => exact h.elim
  | short => exact absurd rfl ((h.whole _ (readAll_of_error hfit hr)).1 _)
  | failed =>
    rw [readAll_of_error hfit hr]
    exact ⟨_, _, rfl⟩

/-- A part of which nothing can be taken without one of the keywords starts with one of them. -/
theorem starts (h : IsPart f (spell us)) (hfit : Fits us [])
    (hrun : (∀ w ∈ words, (inView us).isKeyword w = false) → ∃ a, Run f [] a us) :
    StartsWith words us := by
  by_contra hno
  rw [StartsWith, not_or] at hno
  obtain ⟨a, hrun⟩ := hrun fun w hw => by
    simpa using fun hk => hno.2 ⟨w, hw, hk⟩
  have hread := readAll_of_ok hfit (hrun _ (by simp))
  rw [if_neg hno.1] at hread
  exact absurd rfl ((h.whole _ hread).2 _ _)

end IsPart

/-! ## `WITH` clauses after others -/

section Many

variable {step : Parser (Option α)} {E : Ending} {T : Nat} {c : Cursor}

theorem bind_of_eq {f' : Parser α} {c' : Cursor} (h : f c = f' c') (g : α → Parser β) :
    (f >>= g) c = (f' >>= g) c' := by
  change EStateM.bind f g c = EStateM.bind f' g c'
  rw [EStateM.bind, EStateM.bind, h]

/-- What comes after a step is the same if it is the same after the pieces that the step takes. -/
theorem Takes.bind_eq (ht : Takes step) (hc : At E T us c) {g g' : Option α → Parser β}
    (hnone : g none = g' none) (hsome : ∀ a vs rs c', us = vs ++ rs → 0 < count vs →
      At E T rs c' → g (some a) c' = g' (some a) c') : (step >>= g) c = (step >>= g') c := by
  cases hstep : step c with
  | error e c' => rw [bind_of_error hstep, bind_of_error hstep]
  | ok o c' =>
    rw [bind_of_ok hstep, bind_of_ok hstep]
    obtain ⟨vs, rs, rfl, hrs, hpos⟩ := ht hc hstep
    cases o with
    | none => rw [hnone]
    | some a => exact hsome a vs rs c' rfl (hpos (by simp)) hrs

/-- The bound of a repetition is never met. -/
theorem manyUpTo_bound (ht : Takes step) {n n' : Nat} (hc : At E T us c) (hn : count us < n)
    (hn' : count us < n') : manyUpTo step n c = manyUpTo step n' c := by
  induction n generalizing us c n' with
  | zero => omega
  | succ n ih =>
    obtain ⟨n', rfl⟩ : ∃ m, n' = m + 1 := ⟨n' - 1, by omega⟩
    rw [manyUpTo, manyUpTo]
    refine ht.bind_eq hc rfl ?_
    rintro a vs rs c' rfl hpos hrs
    rw [count_append] at hn hn'
    exact bind_of_eq (ih hrs (by omega) (by omega)) _

/-- One step of a repetition, and the others. -/
theorem many_eq (ht : Takes step) (hc : At E T us c) : many step c = (step >>= fun o => match o with
    | none => pure []
    | some a => many step >>= fun as => pure (a :: as)) c := by
  change manyUpTo step (c.size + 1) c = _
  rw [manyUpTo]
  refine ht.bind_eq hc rfl ?_
  rintro a vs rs c' rfl hpos hrs
  have hsize := hc.count_le
  have hsize' := hrs.count_le
  rw [count_append] at hsize
  have hrest : manyUpTo step c.size c' = many step c' :=
    manyUpTo_bound ht hrs (by omega) (by omega)
  exact bind_of_eq hrest _

end Many

/-- What a keyword starts, again and again. -/
theorem manyAfterKeyword_eq {item : Parser α} (hr : Reads item fun _ _ _ => True) {E : Ending}
    {T : Nat} {c : Cursor} (hc : At E T us c) : many (afterKeyword w item) c =
      if c.current.token.isKeyword w then (advance >>= fun _ => item >>= fun a =>
        many (afterKeyword w item) >>= fun as => pure (a :: as)) c
      else .ok [] c := by
  have htakes : Takes (afterKeyword w item) := by
    refine (Reads.afterKeyword hr).mono ?_
    rintro us o ds (⟨rfl, -, -⟩ | ⟨a, vs, ws, rfl, rfl, ⟨v, hs, -⟩, -⟩) ho
    · exact absurd rfl ho
    · simp [hs.count]
  rw [many_eq htakes hc, afterKeyword_bind, ifKeyword_eq]
  rfl

/-- How the outcomes of a repetition belong together, of one on the first part of a text and of one
    on the whole of it. -/
inductive Resumes (S : Seam) (m : Parser (List α)) :
    EStateM.Result ParseError Cursor (List α) → EStateM.Result ParseError Cursor (List α) → Prop
  /-- If the first run comes to the end, the second goes on with what follows. -/
  | both {as : List α} {rs : List Piece} {r : EStateM.Result ParseError Cursor (List α)}
      (h : inView rs = .finish → r = (m >>= fun bs => pure (as ++ bs)) (cursor S.whole S.rest)) :
      Resumes S m (.ok as (cursor S.part rs)) r
  /-- The first run asks for more. -/
  | short {x : Expectation} {c : Cursor} {r : EStateM.Result ParseError Cursor (List α)} :
      Resumes S m (.error (.unexpectedEnd x) c) r
  /-- Both runs fail. -/
  | failed {e e' : ParseError} {c c' : Cursor} : Resumes S m (.error e c) (.error e' c')

namespace Resumes

variable {S : Seam} {m : Parser (List α)} {item : Parser α} {rs : List Piece} {c c' : Cursor}

/-- A value in front of the others. -/
theorem cons (h : Resumes S m (m c) (m c')) (a : α) :
    Resumes S m ((m >>= fun as => pure (a :: as)) c) ((m >>= fun as => pure (a :: as)) c') := by
  generalize hm : m c = r, hm' : m c' = r' at h
  cases h with
  | @both as rs _ hgo =>
    rw [bind_of_ok hm]
    refine both fun hrs => ?_
    rw [bind_of_eq (hm'.trans (hgo hrs)), bind_assoc]
    simp only [pure_bind, List.cons_append]
  | short =>
    rw [bind_of_error hm]
    exact short
  | failed =>
    rw [bind_of_error hm, bind_of_error hm']
    exact failed

/-- One value, and the others after the pieces that it takes. -/
theorem step (h : S.Ends False rs (item c) (item c'))
    (hm : ∀ us ts, rs = us ++ ts →
      Resumes S m (m (cursor S.part ts)) (m (cursor S.whole (ts ++ S.rest)))) :
    Resumes S m ((item >>= fun a => m >>= fun as => pure (a :: as)) c)
      ((item >>= fun a => m >>= fun as => pure (a :: as)) c') := by
  generalize hi : item c = r, hi' : item c' = r' at h
  cases h with
  | @both us ts a heq =>
    rw [bind_of_ok hi, bind_of_ok hi']
    exact (hm us ts heq).cons a
  | lost h => exact h.elim
  | short =>
    rw [bind_of_error hi]
    exact short
  | failed =>
    rw [bind_of_error hi, bind_of_error hi']
    exact failed

end Resumes

/-- Where the text ends, a repetition goes on with what follows. -/
theorem resumes_many {S : Seam} {item : Parser α} (hcut : ∀ b, Cut S False b item item)
    (hr : Reads item fun _ _ _ => True) {b : Nat} {qs : List Piece} (hqs : S.Place b qs)
    (hfit : Fits (qs ++ S.rest) []) :
    Resumes S (many (afterKeyword w item)) (many (afterKeyword w item) (cursor S.part qs))
      (many (afterKeyword w item) (cursor S.whole (qs ++ S.rest))) := by
  induction hn : count qs using Nat.strong_induction_on generalizing b qs with
  | _ n ih =>
    have hwhole : At (.plain S.whole) S.whole (qs ++ S.rest) (cursor S.whole (qs ++ S.rest)) :=
      ⟨hfit, by simpa [Ending.plain] using hqs.whole, ofLexemes_placed ..⟩
    rw [manyAfterKeyword_eq hr hqs.cursor, token_cursor]
    by_cases hf : inView qs = .finish
    · rw [hf]
      refine .both fun _ => ?_
      rw [(blank_of_inView hf).cursor_append]
      exact (congrFun (bind_pure (many (afterKeyword w item))) _).symm
    rw [manyAfterKeyword_eq hr hwhole, token_cursor, inView_append hf]
    split
    next =>
      obtain ⟨us, rs, l, m, rfl, hs, -, -, -, hpart, hwhole⟩ := exists_lexemes hqs hf
      rw [bind_of_ok hpart, bind_of_ok hwhole]
      refine .step (hcut b hqs.rest trivial) ?_
      rintro vs ts rfl
      -- The pieces of the keyword and of the value are fewer to read.
      have hlt : count ts < n := by
        rw [← hn, count_append, count_append, hs.count]
        omega
      refine ih _ hlt hqs.rest.rest ?_ rfl
      rw [List.append_assoc, List.append_assoc] at hfit
      exact ((fits_append ..).1 ((fits_append ..).1 hfit).2).2
    next => exact .both fun h => absurd h hf

/-- The `WITH` clauses of the pieces `us` are read before those that `ds` starts with; if `o` has
    nothing, they are not read. -/
def Precedes (us : List Piece) (o : Option (List WithClause)) (ds : List Piece) : Prop :=
  ∀ T, (spell (us ++ ds)).length ≤ T → match o with
    | some ws => withClauses (cursor T (us ++ ds)) =
        (withClauses >>= fun xs => pure (ws ++ xs)) (cursor T ds)
    | none => ∃ e c, withClauses (cursor T (us ++ ds)) = .error e c

namespace Precedes

variable {o o' : Option (List WithClause)}

theorem nil (ds : List Piece) : Precedes [] (some []) ds :=
  fun _ _ => (congrFun (bind_pure withClauses) _).symm

theorem blank_append {bs : List Piece} (hb : Blank bs) (h : Precedes us o ds) :
    Precedes (bs ++ us) o ds := by
  intro T hT
  rw [List.append_assoc] at hT ⊢
  rw [hb.cursor_append]
  exact h T (length_le_of_append hT)

theorem append (h : Precedes us o (vs ++ ds)) (h' : Precedes vs o' ds) :
    Precedes (us ++ vs) (o.bind fun ws => o'.map (ws ++ ·)) ds := by
  intro T hT
  rw [List.append_assoc] at hT ⊢
  have h := h T hT
  have h' := h' T (length_le_of_append hT)
  cases o with
  | none => exact h
  | some ws =>
    cases o' with
    | none =>
      obtain ⟨e, c, h'⟩ := h'
      exact ⟨e, c, h.trans (bind_of_error h')⟩
    | some xs =>
      refine h.trans ?_
      rw [bind_of_eq h', bind_assoc]
      simp only [pure_bind, List.append_assoc]

theorem does (h : Precedes us o ds) (hds : (inView ds).isKeyword "WITH" = false) :
    Does withClauses us o ds := by
  intro T hT
  have h := h T hT
  cases o with
  | none => exact h
  | some ws =>
    have hnil : withClauses (cursor T ds) = .ok [] (cursor T ds) :=
      run_withClauses_nil hds T (length_le_of_append hT)
    refine h.trans ?_
    rw [bind_of_ok hnil, List.append_nil]
    rfl

end Precedes

/-- What is made of `WITH` clauses alone is made of them before others. -/
theorem IsPart.precedes (h : IsPart withClauses (spell us)) (hfit : Fits (us ++ ds) [])
    (hus : Fits us []) (hds : StartsWith clauseWords ds) :
    Precedes us (readAll withClauses (spell us)).toOption ds := by
  intro T hT
  have hplace : (Seam.mk (spell us).length T ds hds).Place (count us) us :=
    ⟨hus, le_rfl, hT, le_rfl⟩
  have hitem : Reads withClause fun _ _ _ => True := reads_withClause.mono fun _ _ _ _ => trivial
  have hresumes := resumes_many (w := "WITH") (fun _ => cut_withClause) hitem hplace hfit
  dsimp only at hresumes
  generalize hr : many _ (cursor (spell us).length us) = r,
    hr' : many _ (cursor T (us ++ ds)) = r' at hresumes
  cases hresumes with
  | both hgo =>
    have hall := readAll_of_ok (f := withClauses) hus hr
    split at hall
    next hrs =>
      rw [hall]
      exact hr'.trans (hgo hrs)
    next => exact absurd rfl ((h.whole _ hall).2 _ _)
  | short => exact absurd rfl ((h.whole _ (readAll_of_error hus hr)).1 _)
  | failed =>
    rw [readAll_of_error (f := withClauses) hus hr]
    exact ⟨_, _, hr'⟩

/-! ## The clauses together -/

theorem run_last_nil (hfor : (inView ds).isKeyword "FOR" = false)
    (hupdate : (inView ds).isKeyword "UPDATE" = false) : Run last [] (none, none) ds :=
  Run.both_nil (run_afterKeyword_none hfor) (run_afterKeyword_none hupdate)

/-- **The clauses between the filter and the end**: the `WITH` clauses on both sides of the others
    come to one list. -/
theorem does_body {ms : List Piece} {a b : Option (List WithClause)} {m : Option Middle}
    (ha : Precedes us a (ms ++ (vs ++ ds))) (hms : StartsWith middleWords ms)
    (hm : Does middle ms m (vs ++ ds)) (hnil : Blank ms → Does middle [] m ds)
    (hb : Precedes vs b ds) (hds : (inView ds).isKeyword "WITH" = false) :
    Does body (us ++ (ms ++ vs)) (a.bind fun ws => m.bind fun x => b.map fun zs => (x, ws ++ zs))
      ds := by
  by_cases hf : inView ms = .finish
  · -- Without other clauses all `WITH` clauses are read at once.
    have hblank := blank_of_inView hf
    rw [← List.append_assoc] at ha
    have hearly := (ha.append (hb.blank_append hblank)).does hds
    have hlate := (Precedes.nil ds).does hds
    have hbody := hearly.bindNil fun ws => (hnil hblank).bindNil fun x =>
      hlate.map fun zs => (x, ws ++ zs)
    have hlists : (a.bind fun ws => m.bind fun x => b.map fun zs => (x, ws ++ zs)) =
        (a.bind fun ws => b.map (ws ++ ·)).bind fun ws =>
          m.bind fun x => (some []).map fun zs => (x, ws ++ zs) := by
      cases a <;> cases m <;> cases b <;> simp
    rw [hlists]
    exact hbody
  · have hne : (inView (ms ++ (vs ++ ds))).isKeyword "WITH" = false := by
      rw [inView_append hf]
      exact hms.isKeyword (by decide)
    have hearly := ha.does hne
    rw [← List.append_assoc] at hearly
    exact hearly.bind fun ws => hm.bind fun x => (hb.does hds).map fun zs => (x, ws ++ zs)

end Parser

/-- The query of the parts of a text, if all of them are read. -/
def Query.ofParts (x : Option Head) (ws : Option (List WithClause)) (y : Option Middle)
    (zs : Option (List WithClause)) (z : Option (Option ForTarget × Option UpdateTarget)) :
    Option Query := do
  let x ← x
  let ws ← ws
  let y ← y
  let zs ← zs
  let z ← z
  return x.query (y, ws ++ zs) z

namespace Parser

/-- Pieces fit together with a blank between them. -/
theorem fits_space (hus : Fits us []) (hvs : Fits vs []) : Fits (us ++ Piece.space :: vs) [] :=
  (fits_append ..).2 ⟨hus.append_break (by decide) _, hvs⟩

/-- The keywords of the clauses after the filter. -/
def laterWords : List Text :=
  ["WITH", "GROUP", "HAVING", "ORDER", "LIMIT", "OFFSET", "FOR", "UPDATE"]

namespace IsPart

theorem startsWith_with (h : IsPart withClauses (spell us)) (hus : Fits us []) :
    StartsWith ["WITH"] us :=
  h.starts hus fun hno => ⟨_, run_withClauses_nil (hno _ (by decide))⟩

theorem startsWith_middle (h : IsPart middle (spell us)) (hus : Fits us []) :
    StartsWith middleWords us :=
  h.starts hus fun hno => ⟨_, run_middle_nil hno⟩

theorem startsWith_last (h : IsPart last (spell us)) (hus : Fits us []) :
    StartsWith ["FOR", "UPDATE"] us :=
  h.starts hus fun hno => ⟨_, run_last_nil (hno _ (by decide)) (hno _ (by decide))⟩

theorem does_head (h : IsPart head (spell us)) (hus : Fits us [])
    (hds : StartsWith laterWords ds) : Does head us (readAll head (spell us)).toOption ds :=
  h.does hus (hds.mono (by decide)) fun S hS => cut_head (by
    rw [Seam.Spares, hS]
    exact hds.isKeyword (by decide))

theorem does_middle (h : IsPart middle (spell us)) (hus : Fits us [])
    (hds : StartsWith ["WITH", "FOR", "UPDATE"] ds) :
    Does middle us (readAll middle (spell us)).toOption ds := by
  have hother : ∀ w ∈ middleWords, ∀ v ∈ (["WITH", "FOR", "UPDATE"] : List Text),
      Text.sameWord v w = false := by decide
  refine h.does hus (hds.mono (by decide)) fun S hS => cut_middle fun w hw => Or.inr ?_
  rw [Seam.Spares, hS]
  exact hds.isKeyword (hother w hw)

theorem does_last (h : IsPart last (spell us)) (hus : Fits us []) :
    Does last us (readAll last (spell us)).toOption [] := by
  refine h.does hus (Or.inl rfl) fun S hS => cut_last (Or.inr ?_) (Or.inr ?_)
  · rw [Seam.Spares, hS]
    rfl
  · rw [Seam.Spares, hS]
    rfl

end IsPart

/-- `WITH` clauses after a blank, and other clauses after another. -/
theorem IsPart.precedes_space (h : IsPart withClauses (spell us)) (hus : Fits us [])
    (hfit : Fits ds []) (hds : StartsWith laterWords (Piece.space :: ds)) :
    Precedes (Piece.space :: us) (readAll withClauses (spell us)).toOption (Piece.space :: ds) :=
  (h.precedes (fits_space hus hfit) hus (hds.mono (by decide))).blank_append blank_space

/-- Where there are no clauses in the middle, none are read. -/
theorem does_middle_nil (hus : Blank us)
    (hds : ∀ w ∈ middleWords, (inView ds).isKeyword w = false) :
    Does middle [] (readAll middle (spell us)).toOption ds := by
  have hview : inView us = .finish := by
    rw [← List.append_nil us, hus.inView_append]
    rfl
  have hrun : Run middle [] (none, none, none, none) us := run_middle_nil fun w _ => by
    rw [hview]
    rfl
  rw [readAll_of_ok (hus.fits []) (hrun _ (by simp)), if_pos hview]
  exact run_middle_nil hds

/-- **A query is read from its parts**: it has what is read of each of them. -/
theorem parse_parts {ps us ms vs fs : List Piece} {a b : Option (List WithClause)}
    (hp : IsPart head (spell ps)) (hm : IsPart middle (spell ms)) (hl : IsPart last (spell fs))
    (hps : Fits ps []) (hms : Fits ms []) (hfs : Fits fs [])
    (hus : StartsWith ["WITH"] us) (hvs : StartsWith ["WITH"] vs)
    (ha : Precedes us a (Piece.space :: ms ++ (vs ++ Piece.space :: fs)))
    (hb : Precedes vs b (Piece.space :: fs))
    (hfit : Fits (ps ++ (us ++ (Piece.space :: ms ++ vs) ++ Piece.space :: fs)) []) :
    (Query.parse (spell (ps ++ (us ++ (Piece.space :: ms ++ vs) ++ Piece.space :: fs)))).toOption =
      Query.ofParts (readAll head (spell ps)).toOption a (readAll middle (spell ms)).toOption b
        (readAll last (spell fs)).toOption := by
  have hmw : StartsWith middleWords (Piece.space :: ms) := hm.startsWith_middle hms
  have hlw : StartsWith ["FOR", "UPDATE"] (Piece.space :: fs) := hl.startsWith_last hfs
  have hlater : StartsWith ["WITH", "FOR", "UPDATE"] (vs ++ Piece.space :: fs) :=
    (hvs.mono (by decide)).append (hlw.mono (by decide))
  have hclauses : StartsWith laterWords (us ++ (Piece.space :: ms ++ vs) ++ Piece.space :: fs) :=
    ((hus.mono (by decide)).append ((hmw.mono (by decide)).append (hvs.mono (by decide)))).append
      (hlw.mono (by decide))
  have hmiddle : Does middle (Piece.space :: ms) (readAll middle (spell ms)).toOption
      (vs ++ Piece.space :: fs) := (hm.does_middle hms hlater).blank_append blank_space
  have hlast : Does last (Piece.space :: fs) (readAll last (spell fs)).toOption [] :=
    (hl.does_last hfs).blank_append blank_space
  have hnil (hblank : Blank (Piece.space :: ms)) :
      Does middle [] (readAll middle (spell ms)).toOption (Piece.space :: fs) := by
    have hother : ∀ w ∈ middleWords, ∀ v ∈ (["FOR", "UPDATE"] : List Text),
        Text.sameWord v w = false := by decide
    exact does_middle_nil ((blank_cons ..).1 hblank).2 fun w hw => hlw.isKeyword (hother w hw)
  have hbody := does_body ha hmw hmiddle hnil hb (hlw.isKeyword (by decide))
  have hselect := (hp.does_head hps hclauses).bindLast fun x => hbody.bindLast fun y =>
    hlast.map (x.query y)
  rw [parse_eq, select_eq, hselect.readAll hfit]
  generalize (readAll head (spell ps)).toOption = x, (readAll middle (spell ms)).toOption = y,
    (readAll last (spell fs)).toOption = z
  cases x <;> cases a <;> cases y <;> cases b <;> cases z <;> rfl

end Parser

namespace Query

/-- **`WITH` clauses may stand in either place.**  Of five texts, each of which is all of what the
    parser of that part goes through, the second may change its place with the third: the one
    order is a query exactly when the other is, and then it is the same one.  It is a query if all
    of them are read, and has what is read of each. -/
theorem parse_moved {p w₁ m w₂ f : Text} (hp : IsPart head p) (h₁ : IsPart withClauses w₁)
    (hm : IsPart middle m) (h₂ : IsPart withClauses w₂) (hf : IsPart last f) :
    (Query.parse (Text.joinWith " " [p, w₁, m, w₂, f])).toOption =
      (Query.parse (Text.joinWith " " [p, m, w₁, w₂, f])).toOption ∧
    (Query.parse (Text.joinWith " " [p, w₁, m, w₂, f])).toOption =
      ofParts (readAll head p).toOption (readAll withClauses w₁).toOption
        (readAll middle m).toOption (readAll withClauses w₂).toOption
        (readAll last f).toOption := by
  obtain ⟨ps, rfl, hps⟩ := exists_spell hp.scanned
  obtain ⟨us, rfl, hus⟩ := exists_spell h₁.scanned
  obtain ⟨ms, rfl, hms⟩ := exists_spell hm.scanned
  obtain ⟨vs, rfl, hvs⟩ := exists_spell h₂.scanned
  obtain ⟨fs, rfl, hfs⟩ := exists_spell hf.scanned
  have hstart₂ : StartsWith laterWords (Piece.space :: vs ++ Piece.space :: fs) :=
    StartsWith.append ((h₂.startsWith_with hvs).mono (by decide))
      ((hf.startsWith_last hfs).mono (by decide))
  have hstart₁ : StartsWith laterWords
      (Piece.space :: ms ++ (Piece.space :: vs ++ Piece.space :: fs)) :=
    StartsWith.append ((hm.startsWith_middle hms).mono (by decide)) hstart₂
  have hfit₂ := fits_space hvs hfs
  have hlate := h₂.precedes_space hvs hfs ((hf.startsWith_last hfs).mono (by decide))
  have hfirst := h₁.precedes_space hus (fits_space hms hfit₂) hstart₁
  have hboth := (h₁.precedes_space hus hfit₂ hstart₂).append hlate
  have htext₁ : Text.joinWith " " [spell ps, spell us, spell ms, spell vs, spell fs] = spell (ps ++
      (Piece.space :: us ++ (Piece.space :: ms ++ Piece.space :: vs) ++ Piece.space :: fs)) := by
    simp [Text.joinWith]
  have htext₂ : Text.joinWith " " [spell ps, spell ms, spell us, spell vs, spell fs] = spell (ps ++
      ([] ++ (Piece.space :: ms ++ (Piece.space :: us ++ Piece.space :: vs)) ++
        Piece.space :: fs)) := by
    simp [Text.joinWith]
  have hwith₁ : StartsWith ["WITH"] (Piece.space :: us) := h₁.startsWith_with hus
  have hwith₂ : StartsWith ["WITH"] (Piece.space :: vs) := h₂.startsWith_with hvs
  have hparse₁ := parse_parts hp hm hf hps hms hfs hwith₁ hwith₂ hfirst hlate (by
    simpa using fits_space hps (fits_space hus (fits_space hms hfit₂)))
  have hparse₂ := parse_parts hp hm hf hps hms hfs (Or.inl rfl) (hwith₁.append hwith₂)
    (Precedes.nil _) hboth (by
      simpa using fits_space hps (fits_space hms (fits_space hus hfit₂)))
  rw [htext₁, htext₂, hparse₁, hparse₂]
  refine ⟨?_, rfl⟩
  generalize (readAll head (spell ps)).toOption = x, (readAll withClauses (spell us)).toOption = ws,
    (readAll middle (spell ms)).toOption = y, (readAll withClauses (spell vs)).toOption = zs,
    (readAll last (spell fs)).toOption = z
  cases x <;> cases ws <;> cases y <;> cases zs <;> cases z <;> rfl

/-- Of two clauses with data categories the later one counts, wherever the earlier one stands. -/
theorem parse_moved_categories :
    (Query.parse (Text.joinWith " " ["SELECT A FROM B", "WITH DATA CATEGORY G AT C", "LIMIT 1",
        "WITH DATA CATEGORY G AT D", "FOR VIEW"])).toOption =
      (Query.parse (Text.joinWith " " ["SELECT A FROM B", "LIMIT 1", "WITH DATA CATEGORY G AT C",
        "WITH DATA CATEGORY G AT D", "FOR VIEW"])).toOption ∧
    (Query.parse (Text.joinWith " " ["SELECT A FROM B", "LIMIT 1", "WITH DATA CATEGORY G AT C",
        "WITH DATA CATEGORY G AT D", "FOR VIEW"])).toOption.bind Query.categories =
      some [{ group := "G", selector := .exactly, categories := ["D"] }] := by
  refine ⟨(parse_moved ?_ ?_ ?_ ?_ ?_).1, ?_⟩
  · exact .of_isOk (by decide_cbv) (by decide_cbv)
  · exact .of_isOk (by decide_cbv) (by decide_cbv)
  · exact .of_isOk (by decide_cbv) (by decide_cbv)
  · exact .of_isOk (by decide_cbv) (by decide_cbv)
  · exact .of_isOk (by decide_cbv) (by decide_cbv)
  · decide_cbv

end Query

end Soql
