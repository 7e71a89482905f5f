/-
  Parsing again and again from where the last query stopped.

  After an error a parser may stand anywhere among its lexemes, and another
  query may begin there.  After a query, and after a scan error, nothing is
  left to read.

  * `Parser.outcomes`: what so many queries in a row yield.
  * `Parser.query_over`, `ahead_of_query`: no query is read at the end of the
    text, nor at the last lexeme.
  * `Parser.over_of_query`, `ahead_of_error`: where a query stops, and where an
    error does.
  * `Parser.outcomes_of_scanned`: at most one of them is a query, and what
    comes after it or after a scan error.
-/
import Mathlib
import Soql.Proofs.Parse.Diagnoses

namespace Soql

namespace Parser

variable {c c' : Cursor} {q : Query} {e : ParseError}

/-! ## The end of the text in view -/

theorem eatKeyword_over (h : c.current.token = .finish) (w : Text) :
    eatKeyword w c = .ok false c := by
  have hat : atKeyword w c = .ok false c := by
    rw [atKeyword_eq, h]
    rfl
  exact bind_of_ok hat

theorem fail_over {α : Type} (h : c.current.token = .finish) (expected : Expectation) :
    (fail expected : Parser α) c = .error (.unexpectedEnd expected) c := by
  refine (bind_of_ok (current_eq c)).trans ?_
  rw [if_pos h]
  rfl

/-- A query fails there, and nothing moves. -/
theorem query_over (h : c.current.token = .finish) :
    query c = .error (.unexpectedEnd (.keyword "SELECT")) c := by
  have hkeyword : expectKeyword "SELECT" c = .error (.unexpectedEnd (.keyword "SELECT")) c :=
    (bind_of_ok (eatKeyword_over h _)).trans (fail_over h _)
  have hselect : select c = .error (.unexpectedEnd (.keyword "SELECT")) c := by
    change selectWith (selectUpTo c.size) false c = _
    rw [selectWith_eq]
    exact bind_of_error hkeyword
  exact bind_of_error hselect

/-- No field starts there. -/
theorem field_over {nested : Parser Query} {f : Field} (h : c.current.token = .finish) :
    field nested c ≠ .ok f c' := by
  intro hf
  rw [field_eq] at hf
  obtain ⟨isOpen, _, hopen, hf⟩ := bind_eq_ok.1 hf
  rw [atToken_eq, h] at hopen
  cases hopen
  obtain ⟨isTypeOf, _, htypeOf, hf⟩ := bind_eq_ok.1 hf
  rw [eatKeyword_over h] at htypeOf
  cases htypeOf
  obtain ⟨_, _, hcurrent, hf⟩ := bind_eq_ok.1 hf
  cases hcurrent
  obtain ⟨name, _, hname, -⟩ := bind_eq_ok.1 hf
  obtain ⟨_, _, hcurrent, hname⟩ := bind_eq_ok.1 hname
  cases hcurrent
  rw [h] at hname
  exact fail_ne_ok hname

/-! ## One query -/

/-- After the last lexeme comes the end of the text. -/
theorem over_of_advance {l : Lexeme} (h : advance c = .ok l c') (hc : c.ahead.toList = []) :
    c'.current.token = .finish := by
  obtain ⟨current, ahead⟩ := c
  cases ahead with
  | next => cases hc
  | finish n =>
    cases h
    rfl
  | stuck | broken => cases h

theorem advance_of_expectKeyword {w : Text} (h : expectKeyword w c = .ok () c') :
    ∃ l, advance c = .ok l c' := by
  obtain ⟨isTaken, c₁, htaken, h⟩ := bind_eq_ok.1 h
  cases isTaken with
  | false => exact absurd h fail_ne_ok
  | true =>
    cases h
    obtain ⟨b, _, hb, htaken⟩ := bind_eq_ok.1 htaken
    rw [atKeyword_eq] at hb
    cases hb
    split at htaken
    · obtain ⟨l, _, hl, htaken⟩ := bind_eq_ok.1 htaken
      cases htaken
      exact ⟨l, hl⟩
    · cases htaken

/-- A query takes more than one lexeme. -/
theorem ahead_of_query (h : query c = .ok q c') : c.ahead.toList ≠ [] := by
  intro hahead
  obtain ⟨q, _, hselect, -⟩ := bind_eq_ok.1 h
  change selectWith (selectUpTo c.size) false c = _ at hselect
  rw [selectWith_eq] at hselect
  obtain ⟨_, c₁, hkeyword, hselect⟩ := bind_eq_ok.1 hselect
  obtain ⟨l, hl⟩ := advance_of_expectKeyword hkeyword
  obtain ⟨x, _, hx, -⟩ := bind_eq_ok.1 hselect
  obtain ⟨fs, _, hfs, -⟩ := bind_eq_ok.1 hx
  obtain ⟨f, _, hf, -⟩ := bind_eq_ok.1 hfs
  exact field_over (over_of_advance hl hahead) hf

/-- No lexeme ahead is the end of the text.  The one in view may be, also where a parser has put it
    there. -/
def Clean (c : Cursor) : Prop := ∀ l ∈ c.ahead.toList, l.token ≠ .finish

/-- The lexemes from the one in view on. -/
def fromHere (c : Cursor) : Lexemes := .next c.current c.ahead

theorem token_of_mem_fromHere (hc : Clean c) (ht : c.current.token ≠ .finish) :
    ∀ l ∈ (fromHere c).toList, l.token ≠ .finish := List.forall_mem_cons.2 ⟨ht, hc⟩

theorem within_fromHere : c.Within (fromHere c) := .lexeme [] rfl rfl

/-- Within the lexemes of another cursor fewer are ahead. -/
theorem suffix_of_within (h : c'.Within (fromHere c)) : c'.ahead.toList <:+ c.ahead.toList := by
  cases h with
  | finish => exact List.nil_suffix
  | lexeme before hlist =>
    cases before with
    | nil =>
      obtain ⟨-, hahead⟩ := List.cons.inj hlist
      rw [hahead]
    | cons l before =>
      obtain ⟨-, hahead⟩ := List.cons.inj hlist
      exact ⟨before ++ [c'.current], by rw [hahead, List.append_assoc]; rfl⟩

/-- After a query the end of the text is in view. -/
theorem over_of_query (hc : Clean c) (h : query c = .ok q c') : c'.current.token = .finish := by
  by_cases ht : c.current.token = .finish
  · rw [query_over ht] at h
    cases h
  · obtain ⟨n, -, rfl⟩ := finish_of_query (token_of_mem_fromHere hc ht) within_fromHere h
    rfl

/-- An error leaves no more lexemes ahead than there were, and a scan error leaves none. -/
theorem ahead_of_error (hc : Clean c) (h : query c = .error e c') :
    c'.ahead.toList <:+ c.ahead.toList ∧ ∀ e', e = .scan e' → c'.ahead.toList = [] := by
  by_cases ht : c.current.token = .finish
  · rw [query_over ht] at h
    cases h
    exact ⟨List.suffix_rfl, nofun⟩
  · have htells := steady_query.tells (token_of_mem_fromHere hc ht) within_fromHere h
    cases htells with
    | scan _ hahead => exact ⟨hahead ▸ List.nil_suffix, fun _ _ => hahead⟩
    | ended => exact ⟨List.nil_suffix, fun _ _ => rfl⟩
    | complaint hwithin _ he =>
      exact ⟨suffix_of_within hwithin, fun e' hscan => absurd hscan (he.ne_scan _ e')⟩

theorem Clean.after_error (hc : Clean c) (h : query c = .error e c') : Clean c' :=
  fun l hl => hc l ((ahead_of_error hc h).1.subset hl)

/-! ## Queries in a row -/

/-- What `n` queries in a row yield, each from where the one before stopped, with a query or with
    an error. -/
def outcomes : Nat → Cursor → List (Except ParseError Query)
  | 0, _ => []
  | n + 1, c =>
    match query c with
    | .ok q c' => .ok q :: outcomes n c'
    | .error e c' => .error e :: outcomes n c'

/-- At the end of the text all of them fail alike. -/
theorem outcomes_over (h : c.current.token = .finish) (n : Nat) :
    outcomes n c = List.replicate n (.error (.unexpectedEnd (.keyword "SELECT"))) := by
  induction n with
  | zero => rfl
  | succ n ih =>
    rw [outcomes, query_over h]
    exact congrArg _ ih

/-- Where no lexeme is ahead none of them is a query. -/
theorem outcomes_spent (hc : c.ahead.toList = []) (n : Nat) :
    ∀ r ∈ outcomes n c, r.isOk = false := by
  induction n generalizing c with
  | zero => simp [outcomes]
  | succ n ih =>
    have hclean : Clean c := by
      rw [Clean, hc]
      simp
    rw [outcomes]
    cases h : query c with
    | ok q c' => exact absurd hc (ahead_of_query h)
    | error e c' =>
      refine List.forall_mem_cons.2 ⟨rfl, ih ?_⟩
      have hsuffix := (ahead_of_error hclean h).1
      rw [hc] at hsuffix
      exact List.suffix_nil.1 hsuffix

/-- What may come later than an outcome: after a query the end of the text, after a scan error
    anything but a query. -/
def Leaves (r r' : Except ParseError Query) : Prop :=
  (r.isOk = true → r' = .error (.unexpectedEnd (.keyword "SELECT"))) ∧
    ∀ e, r = .error (.scan e) → r'.isOk = false

theorem outcomes_pairwise (hc : Clean c) (n : Nat) : (outcomes n c).Pairwise Leaves := by
  induction n generalizing c with
  | zero => exact .nil
  | succ n ih =>
    rw [outcomes]
    cases h : query c with
    | ok q c' =>
      have hover := over_of_query hc h
      refine .cons (fun r hr => ⟨fun _ => ?_, nofun⟩) ?_
      · rw [outcomes_over hover] at hr
        exact List.eq_of_mem_replicate hr
      · rw [outcomes_over hover]
        exact List.pairwise_replicate.2 (Or.inr ⟨nofun, nofun⟩)
    | error e c' =>
      refine .cons (fun r hr => ⟨nofun, fun e' he' => ?_⟩) (ih (hc.after_error h))
      cases he'
      exact outcomes_spent ((ahead_of_error hc h).2 _ rfl) n r hr

/-- At most one of outcomes that leave one another is a query. -/
theorem countP_isOk_le {rs : List (Except ParseError Query)} (h : rs.Pairwise Leaves) :
    rs.countP Except.isOk ≤ 1 := by
  induction h with
  | nil => simp
  | @cons r rs hr _ ih =>
    cases r with
    | error e => simpa [Except.isOk, Except.toBool] using ih
    | ok q =>
      have hrest : rs.countP Except.isOk = 0 := by
        refine List.countP_eq_zero.2 fun r' hr' => ?_
        rw [(hr r' hr').1 rfl]
        exact Bool.false_ne_true
      simp [List.countP_cons, hrest, Except.isOk, Except.toBool]

/-- The first lexeme that a scanner finds has none ahead of it that is the end of the text. -/
theorem clean_of_ofLexemes {s : Scanner} (h : Cursor.ofLexemes s.lexemes = .ok c) : Clean c := by
  have hs := s.token_of_mem_lexemes
  cases hlex : s.lexemes with
  | next l ls =>
    rw [hlex] at h hs
    cases h
    exact fun m hm => hs m (List.mem_cons_of_mem _ hm)
  | finish n =>
    rw [hlex] at h
    cases h
    exact nofun
  | stuck | broken =>
    rw [hlex] at h
    cases h

/-- **At most one of the queries in a row is one.**  The text may have been scanned for any number
    of tokens before the first of them.  After a query each of them tells that the text is over,
    and after a scan error none is a query. -/
theorem outcomes_of_scanned {text : Text} {k : Nat} {c : Cursor}
    (h : Cursor.ofLexemes ((fun s => s.next.2)^[k] (Scanner.ofText text)).lexemes = .ok c)
    (n : Nat) :
    (outcomes n c).countP Except.isOk ≤ 1 ∧ (outcomes n c).Pairwise Leaves := by
  have hpairwise := outcomes_pairwise (clean_of_ofLexemes h) n
  exact ⟨countP_isOk_le hpairwise, hpairwise⟩

/-- After a token that is no query, an error within a first query, a second one where that stopped,
    and the end of the text. -/
theorem outcomes_of_scanned_limit : ∃ c,
    Cursor.ofLexemes ((fun s => s.next.2)^[1]
      (Scanner.ofText ", SELECT Id FROM A LIMIT SELECT Id FROM B")).lexemes = .ok c ∧
    (outcomes 3 c).map Except.isOk = [false, true, false] ∧
    (outcomes 3 c).countP Except.isOk ≤ 1 ∧ (outcomes 3 c).Pairwise Leaves := by
  have hrun : ((Cursor.ofLexemes ((fun s => s.next.2)^[1]
      (Scanner.ofText ", SELECT Id FROM A LIMIT SELECT Id FROM B")).lexemes).map
        fun c => (outcomes 3 c).map Except.isOk) = .ok [false, true, false] := by
    decide_cbv
  cases h : Cursor.ofLexemes ((fun s => s.next.2)^[1]
      (Scanner.ofText ", SELECT Id FROM A LIMIT SELECT Id FROM B")).lexemes with
  | error e =>
    rw [h] at hrun
    cases hrun
  | ok c =>
    rw [h] at hrun
    exact ⟨c, rfl, Except.ok.inj hrun, outcomes_of_scanned h 3⟩

end Parser

end Soql
