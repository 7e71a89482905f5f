/-
  The links of filters.

  A link is read in three steps: what stands in front of its condition, the
  condition, and what closes it.  Only the condition depends on the kind of
  filter.

  * `front`, `groupFront`, `closing`: what stands around a condition.
  * `linkOf`: a link.
  * `ClosesLink`: what may stand behind a condition.
  * `LinkKind.Surrounds.reads`: links are read back if the conditions in them
    are.
-/
import Mathlib
import Soql.Proofs.Parse.Chains

namespace Soql

open Unicode Token Soql.Parser

/-! ## Runs of parentheses -/

section Parens

variable {t : Token} (hp : t.Proper) (n : Nat)

theorem literals_replicate (ht : t.literal? = none) :
    literals (List.replicate n (.token t hp)) = [] := by
  induction n with
  | zero => rfl
  | succ n ih => rw [List.replicate_succ, literals_token, ht, ih]; rfl

theorem indentAll_replicate (ht : '\n' ∉ t.spelling) (i : Nat) :
    indentAll i (List.replicate n (.token t hp)) = List.replicate n (.token t hp) := by
  refine indentAll_of_not_mem (fun hm => ?_) i
  obtain ⟨p, hp, hm⟩ := List.mem_flatMap.1 hm
  rw [List.eq_of_mem_replicate hp] at hm
  exact ht hm

theorem spell_replicate {c : Char} (ht : t.spelling = [c]) :
    spell (List.replicate n (.token t hp)) = List.replicate n c := by
  induction n with
  | zero => rfl
  | succ n ih => rw [List.replicate_succ, spell_cons, ih, Piece.text_token, ht]; rfl

/-- A sign that nothing can be added to, any number of times. -/
theorem closed_replicate_append (ht : ∀ r, t.goesOn r = false) {qs : List Piece} (hq : Closed qs) :
    Closed (List.replicate n (.token t hp) ++ qs) := by
  induction n with
  | zero => exact hq
  | succ n ih => exact fun r hr => ⟨ht _, ih r hr⟩

end Parens

namespace Parser

/-- The same sign several times, with blanks before each. -/
inductive Repeated (t : Token) : Nat → List Piece → Prop
  | nil : Repeated t 0 []
  | cons {n : Nat} {us vs : List Piece} (hu : Single t us) (hv : Repeated t n vs) :
      Repeated t (n + 1) (us ++ vs)

namespace Repeated

variable {t : Token} {n : Nat} {us vs : List Piece}

theorem replicate (hp : t.Proper) (n : Nat) : Repeated t n (List.replicate n (.token t hp)) := by
  induction n with
  | zero => exact nil
  | succ n ih => exact cons (Single.token hp) ih

theorem snoc (h : Repeated t n us) (hv : Single t vs) : Repeated t (n + 1) (us ++ vs) := by
  induction h with
  | nil => simpa using cons hv nil
  | cons hu _ ih =>
    rw [List.append_assoc]
    exact cons hu ih

theorem count (h : Repeated t n us) : count us = n := by
  induction h with
  | nil => rfl
  | cons hu _ ih => rw [count_append, hu.count, ih, add_comm]

theorem literals (h : Repeated t n us) (ht : t.literal? = none) : literals us = [] := by
  induction h with
  | nil => rfl
  | cons hu _ ih =>
    rw [literals_append, hu.literals, ih, ht]
    rfl

theorem inView_append (h : Repeated t n us) (hn : 0 < n) (ds : List Piece) :
    inView (us ++ ds) = t := by
  cases h with
  | nil => cases hn
  | cons hu hv => rw [List.append_assoc, hu.inView_append]

theorem eq_nil (h : Repeated t 0 us) : us = [] := by
  cases h
  rfl

theorem run_manyUpTo (h : Repeated t n us) {m : Nat} (hn : n ≤ m) {ds : List Piece}
    (hds : n < m → inView ds ≠ t) :
    Run (manyUpTo (after t (pure ())) m) us (List.replicate n ()) ds := by
  induction h generalizing m with
  | nil =>
    cases m with
    | zero => exact Run.pure [] ds
    | succ m => exact Run.answer (run_after_none (hds (by omega))) (Run.pure [] ds)
  | @cons n us vs hu _ ih =>
    obtain ⟨m, rfl⟩ : ∃ m', m = m' + 1 := ⟨m - 1, by omega⟩
    have h1 := run_after hu (Run.pure () (vs ++ ds))
    rw [List.append_nil] at h1
    exact h1.bind ((ih (by omega) fun h => hds (by omega)).bind_pure (() :: ·))

end Repeated

theorem run_openParens {n : Nat} {us ds : List Piece} (h : Repeated .openParen n us)
    (hds : inView ds ≠ .openParen) : Run openParens us n ds := by
  have hrun : Run (many (after .openParen (pure ()))) us (List.replicate n ()) ds := by
    refine Run.get fun c hc => ?_
    rw [count_append, h.count] at hc
    exact h.run_manyUpTo (by omega) fun _ => hds
  have := hrun.bind_pure List.length
  rwa [List.length_replicate] at this

theorem run_closeParens {n depth : Nat} {us ds : List Piece} (h : Repeated .closeParen n us)
    (hn : n ≤ depth) (hds : n < depth → inView ds ≠ .closeParen) :
    Run (closeParens depth) us n ds := by
  have := (h.run_manyUpTo hn hds).bind_pure List.length
  rwa [List.length_replicate] at this

/-- A sign taken again and again, at most `m` times. -/
theorem reads_manyUpTo_after {t : Token} (ht : t ≠ .finish) (m : Nat) :
    Reads (manyUpTo (after t (pure ())) m) fun us as ds => as.length ≤ m ∧
      Repeated t as.length us ∧ (as.length < m → inView ds ≠ t) := by
  induction m with
  | zero =>
    refine (Reads.pure []).mono ?_
    rintro us as ds ⟨rfl, rfl⟩
    exact ⟨le_rfl, .nil, nofun⟩
  | succ m ih =>
    intro E T ps c as c' hc h
    obtain ⟨o, c₁, hstep, h⟩ := bind_eq_ok.1 h
    obtain ⟨us, ds, rfl, hd, hus⟩ := (Reads.pure ()).after ht hc hstep
    rcases hus with ⟨rfl, rfl, hv⟩ | ⟨_, vs, _, rfl, rfl, hv, rfl, -⟩
    · obtain ⟨rfl, rfl⟩ := pure_eq_ok.1 h
      exact ⟨[], ds, rfl, hd, Nat.zero_le _, .nil, fun _ => hv⟩
    · obtain ⟨as, c₂, hrest, h⟩ := bind_eq_ok.1 h
      obtain ⟨rfl, rfl⟩ := pure_eq_ok.1 h
      obtain ⟨ws, ds, rfl, hd, hle, hrep, hends⟩ := ih hd hrest
      exact ⟨vs ++ ws, ds, by simp, hd, Nat.succ_le_succ hle, .cons hv hrep,
        fun h => hends (Nat.succ_lt_succ_iff.1 h)⟩

theorem reads_closeParens (depth : Nat) : Reads (closeParens depth) fun us n ds => n ≤ depth ∧
    Repeated .closeParen n us ∧ (n < depth → inView ds ≠ .closeParen) := by
  refine ((reads_manyUpTo_after (by simp) depth).bind fun as => Reads.pure as.length).mono ?_
  rintro us n ds ⟨us, as, _, rfl, ⟨h1, h2, h3⟩, rfl, rfl⟩
  rw [List.append_nil]
  exact ⟨h1, h2, h3⟩

theorem reads_openParens : Reads openParens fun us n _ => literals us = [] ∧ (n = 0 → us = []) ∧
    (0 < n → inView us = .openParen) := by
  have h : Reads (many (after .openParen (pure ()))) fun us as _ =>
      Repeated .openParen as.length us := by
    intro E T ps c as c' hc hf
    obtain ⟨us, ds, hs, hd, -, h, -⟩ := reads_manyUpTo_after (by simp) _ hc hf
    exact ⟨us, ds, hs, hd, h⟩
  refine (h.bind fun as => Reads.pure as.length).mono ?_
  rintro us n ds ⟨us, as, _, rfl, h, rfl, rfl⟩
  rw [List.append_nil]
  refine ⟨h.literals rfl, fun hn => (hn ▸ h).eq_nil, fun hn => ?_⟩
  rw [← List.append_nil us]
  exact h.inView_append hn []

/-! ## What closes a link -/

/-- The operator of a link: a keyword, or none if none of the two follows. -/
theorem reads_connective : Reads connective? fun us o ds =>
    (∃ op, op ≠ .not ∧ o = some op ∧ IsKeyword (Keyword.spelling op) us) ∨
      (o = none ∧ us = [] ∧ (inView ds).isKeyword "AND" = false ∧
        (inView ds).isKeyword "OR" = false) := by
  refine ((reads_eatKeyword "AND").bind (R := fun b us o ds => (b = true ∧ us = [] ∧
    o = some Connective.and) ∨ (b = false ∧ ((o = some .or ∧ IsKeyword "OR" us) ∨
      (o = none ∧ us = [] ∧ (inView ds).isKeyword "OR" = false)))) ?_).mono ?_
  · intro b
    cases b with
    | true => exact (Reads.pure _).mono fun us o ds h => Or.inl ⟨rfl, h⟩
    | false =>
      refine ((reads_eatKeyword "OR").bind (R := fun b us o _ => us = [] ∧
        o = if b then some Connective.or else none) ?_).mono ?_
      · intro b
        cases b <;> exact Reads.pure _
      · rintro us o ds ⟨us, b, _, rfl, ⟨rfl, h⟩ | ⟨rfl, rfl, h⟩, rfl, rfl⟩
        · exact Or.inr ⟨rfl, Or.inl ⟨rfl, by simpa using h⟩⟩
        · exact Or.inr ⟨rfl, Or.inr ⟨rfl, rfl, h⟩⟩
  · rintro us o ds ⟨us, b, ws, rfl, ⟨rfl, h⟩ | ⟨rfl, rfl, h⟩, hR⟩
    · rcases hR with ⟨-, rfl, rfl⟩ | ⟨hb, -⟩
      · rw [List.append_nil]
        exact Or.inl ⟨.and, nofun, rfl, h⟩
      · cases hb
    · rcases hR with ⟨hb, -⟩ | ⟨-, ⟨rfl, hw⟩ | ⟨rfl, rfl, hw⟩⟩
      · cases hb
      · exact Or.inl ⟨.or, nofun, rfl, hw⟩
      · exact Or.inr ⟨rfl, rfl, h, hw⟩

/-- The parentheses after a condition, and the operator that joins it to another one. -/
def closing (depth : Nat) : Parser (Nat × Option Connective) := do
  let closes ← closeParens depth
  let connective ← connective?
  return (closes, connective)

theorem reads_closing (depth : Nat) : Reads (closing depth) fun us r ds => r.1 ≤ depth ∧
    literals us = [] ∧ r.2 ≠ some .not ∧ (r.2 = none → (inView ds).isKeyword "AND" = false ∧
      (inView ds).isKeyword "OR" = false ∧ (0 < depth - r.1 → inView ds ≠ .closeParen)) := by
  refine ((reads_closeParens depth).bind fun closes => reads_connective.bind fun connective =>
    Reads.pure (closes, connective)).mono ?_
  rintro us r ds ⟨us, closes, _, rfl, ⟨h1, h2, h3⟩, vs, connective, _, rfl, ho, rfl, rfl⟩
  rw [List.append_nil, literals_append, h2.literals rfl]
  rcases ho with ⟨op, hop, rfl, hw⟩ | ⟨rfl, rfl, hand, hor⟩
  · exact ⟨h1, hw.literals, fun h => hop (Option.some.inj h), nofun⟩
  · exact ⟨h1, rfl, nofun, fun _ => ⟨hand, hor, fun hlt => h3 (Nat.lt_of_sub_pos hlt)⟩⟩

theorem isPlainWord_connective (op : Connective) : isPlainWord (Keyword.spelling op) = true := by
  cases op <;> decide

theorem run_connective {op : Connective} (h : op ≠ .not) {us : List Piece}
    (hs : IsKeyword (Keyword.spelling op) us) (ds : List Piece) :
    Run connective? us (some op) ds := by
  cases op with
  | and =>
    rw [← List.append_nil us]
    exact (run_eatKeyword hs ([] ++ ds)).bind (Run.pure _ ds)
  | or =>
    obtain ⟨w, hw, hk⟩ := hs
    have hfold : w.fold = Text.fold (Keyword.spelling Connective.or) := by
      simpa [Text.sameWord] using hk
    have hand : (inView (us ++ ds)).isKeyword "AND" = false := by
      rw [hw.inView_append, Token.isKeyword, Text.sameWord, hfold]
      decide
    refine Run.answer (run_eatKeyword_false hand) ?_
    rw [← List.append_nil us]
    exact (run_eatKeyword ⟨w, hw, hk⟩ ([] ++ ds)).bind (Run.pure _ ds)
  | not => exact absurd rfl h

theorem run_connective_none {ds : List Piece} (hand : (inView ds).isKeyword "AND" = false)
    (hor : (inView ds).isKeyword "OR" = false) : Run connective? [] none ds := by
  refine Run.answer (run_eatKeyword_false hand) ?_
  exact Run.answer (run_eatKeyword_false hor) (Run.pure none ds)

/-- The operator of a link, up to the blanks after it. -/
theorem exists_operator {l : Layout} {k : Nat} (hl : l.Spaced k) {o : Option Connective}
    (ho : o ≠ some .not) : ∃ vs b, BlankText b ∧ operatorText l o = spell vs ++ b ∧ Closed vs ∧
      Clean (spell vs) ∧ literals vs = [] ∧ (∀ p ∈ vs.getLast?, p.isToken = true) ∧
      ∀ i depth ds, Follows o depth (inView ds) → (o = none → inView ds ≠ .colon) →
        inView (indentAll i vs ++ ds) ≠ .colon ∧
        (0 < depth → inView (indentAll i vs ++ ds) ≠ .closeParen) ∧
        Run connective? (indentAll i vs) o ds := by
  cases o with
  | none =>
    refine ⟨[], [], blankText_nil, rfl, blank_nil.closed, by simp [Clean], rfl, by simp,
      fun i depth ds hf hc => ⟨hc rfl, hf.2.2, run_connective_none hf.1 hf.2.1⟩⟩
  | some op =>
    obtain ⟨c, b, hc, hb, hop⟩ := hl.connective
    obtain ⟨bs, hbs, rfl⟩ := exists_blank hb
    have hw := isPlainWord_connective op
    have hblank : Blank (.blank c hc :: bs) := by simp [hbs]
    refine ⟨(.blank c hc :: bs) ++ [Piece.keyword _ hw], [' '], blankText_space, ?_, ?_, ?_, ?_, ?_,
      fun i depth ds _ _ => ?_⟩
    · simp [operatorText, hop]
    · exact hblank.append_closed (closed_token _ _)
    · exact clean_cons (isBreak_of_isBlank hc) _
    · simp [hbs.literals]
    · intro p hp
      rw [List.getLast?_concat] at hp
      cases hp
      rfl
    · have hs : Single (.word (Keyword.spelling op))
          (indentAll i ((.blank c hc :: bs) ++ [Piece.keyword _ hw])) := by
        rw [indentAll_append]
        exact Single.blank_append (hblank.indentAll i) (Single.token _)
      rw [hs.inView_append]
      exact ⟨by simp, by simp,
        run_connective (fun h => ho (by rw [h])) ⟨_, hs, sameWord_self _⟩ ds⟩

/-- The pieces close a link with `closes` parentheses and the operator `o`, and what is before them
    is not followed by a colon. -/
def ClosesLink (closes : Nat) (o : Option Connective) (vs : List Piece) : Prop :=
  ∀ i depth ds, closes ≤ depth → Follows o (depth - closes) (inView ds) →
    (o = none → inView ds ≠ .colon) → inView (indentAll i vs ++ ds) ≠ .colon ∧
      Run (closing depth) (indentAll i vs) (closes, o) ds

/-- The text that closes a link, up to the blanks after it. -/
theorem exists_closing {l : Layout} {k : Nat} (hl : l.Spaced k) (closes : Nat)
    {o : Option Connective} (ho : o ≠ some .not) : ∃ vs b, BlankText b ∧
      List.replicate closes ')' ++ operatorText l o = spell vs ++ b ∧ Closed vs ∧
      Clean (spell vs) ∧ literals vs = [] ∧ (∀ p ∈ vs.getLast?, p.isToken = true) ∧
      ClosesLink closes o vs := by
  obtain ⟨vs, b, hb, htext, hcl, hclean, hlit, hlast, hrun⟩ := exists_operator hl ho
  have hclose : ∀ i, indentAll i (List.replicate closes .closeParen) =
      List.replicate closes .closeParen :=
    indentAll_replicate (proper_mark .closeParen rfl) closes (by simp [spelling])
  refine ⟨List.replicate closes .closeParen ++ vs, b, hb, ?_,
    closed_replicate_append (proper_mark .closeParen rfl) closes (fun _ => rfl) hcl, ?_, ?_, ?_,
    fun i depth ds hd hf hc => ?_⟩
  · rw [htext, spell_append, spell_replicate (c := ')') _ _ rfl, List.append_assoc]
  · cases closes with
    | zero => exact hclean
    | succ n => exact clean_cons (c := ')') (by decide) _
  · rw [literals_append, literals_replicate _ _ rfl, hlit]
    rfl
  · refine isToken_last_append (fun p hp => ?_) hlast
    rw [List.eq_of_mem_replicate (List.mem_of_getLast? hp)]
    rfl
  · obtain ⟨h1, h2, h3⟩ := hrun i _ ds hf hc
    rw [indentAll_append, hclose, List.append_assoc]
    refine ⟨?_, (run_closeParens (.replicate _ _) hd fun h => h2 (by omega)).bind
      (h3.bind_pure fun o => (closes, o))⟩
    cases closes with
    | zero => exact h1
    | succ n => simp [List.replicate_succ]

/-! ## What stands in front of a condition -/

/-- The parentheses and the negation in front of a condition; nothing if a group is negated. -/
def front : Parser (Option (Nat × Bool)) := do
  let opens ← openParens
  let first ← current
  let negated ← eatKeyword "NOT"
  if negated && (← atToken .openParen) then
    if opens = 0 then return none
    else throw (.unsupported .negatedGroupInParentheses first.start)
  else return some (opens, negated)

/-- The parentheses in front of a condition of `HAVING`. -/
def groupFront : Parser (Option (Nat × Bool)) := do
  let opens ← openParens
  return some (opens, false)

/-- The negation of a condition or a group. -/
def notPiece : Piece := .keyword "NOT" (by decide)

/-- The pieces in front of a condition. -/
def frontPieces : Option (Nat × Bool) → List Piece
  | none => [notPiece]
  | some (opens, negated) => List.replicate opens .openParen ++
      if negated then [notPiece, .space] else []

/-- What stands in front of a condition that was read from `us`, before the token `t`, is read
    back; `ok` tells whether a condition may be negated. -/
structure FrontPhrase (f : Parser (Option (Nat × Bool))) (ok : Bool → Prop) (us : List Piece)
    (r : Option (Nat × Bool)) (t : Token) : Prop where
  literals : literals us = []
  allowed : ∀ opens negated, r = some (opens, negated) → ok negated
  starts : us = [] ∧ frontPieces r = [] ∨ inView us ≠ .finish ∧
    (inView us = .openParen → inView (frontPieces r) = .openParen)
  group : r = none → t = .openParen
  run : ∀ i ds, inView ds = t.indent i → Run f (frontPieces r) r ds

theorem isKeyword_not : IsKeyword "NOT" [notPiece] := isKeyword_keyword _ _

theorem inView_frontPieces {opens : Nat} (h : 0 < opens) (negated : Bool) :
    inView (frontPieces (some (opens, negated))) = .openParen := by
  obtain ⟨n, rfl⟩ : ∃ n, opens = n + 1 := ⟨opens - 1, by omega⟩
  simp [frontPieces, List.replicate_succ]

theorem indent_ne_openParen {t : Token} (h : t ≠ .openParen) {i : Nat} {ds : List Piece}
    (hds : inView ds = t.indent i) : inView ds ≠ .openParen := by
  rw [hds]
  cases t <;> simp_all [Token.indent]

theorem reads_groupFront : Reads groupFront fun us r ds => (r ≠ none → inView ds ≠ .openParen) →
    FrontPhrase groupFront (· = false) us r (inView ds) := by
  refine (reads_openParens.bind fun opens => Reads.pure (some (opens, false))).mono ?_
  rintro us r ds ⟨us, opens, _, rfl, ⟨h1, h2, h3⟩, rfl, rfl⟩ hne
  rw [List.append_nil]
  refine ⟨h1, by simp, ?_, by simp, fun i ds hds => ?_⟩
  · rcases Nat.eq_zero_or_pos opens with rfl | hpos
    · exact Or.inl ⟨h2 rfl, rfl⟩
    · exact Or.inr ⟨by simp [h3 hpos], fun _ => inView_frontPieces hpos false⟩
  · have := (run_openParens (.replicate (proper_mark .openParen rfl) opens)
      (indent_ne_openParen (hne (by simp)) hds)).bind_pure
      fun n => some (n, false)
    rw [← List.append_nil (List.replicate opens _)] at this
    exact this

theorem isKeyword_indent (t : Token) (k : Text) (i : Nat) :
    t.isKeyword k = (t.indent i).isKeyword k := by
  cases t <;> rfl

/-- The word `NOT`, or nothing. -/
def Negates (negated : Bool) (ns : List Piece) : Prop :=
  if negated then IsKeyword "NOT" ns else ns = []

theorem run_front_group {ns ds : List Piece} (hn : IsKeyword "NOT" ns)
    (h : inView ds = .openParen) : Run front ns none ds := by
  obtain ⟨w, hw, hk⟩ := hn
  have hopen : Run openParens [] 0 (ns ++ ds) :=
    run_openParens .nil (by simp [hw.inView_append])
  refine Run.answer hopen (Run.current fun _ _ => ?_)
  rw [← List.append_nil ns]
  refine (run_eatKeyword ⟨w, hw, hk⟩ _).bind (Run.answer (run_atToken _ _) ?_)
  rw [List.nil_append, h]
  exact Run.pure none ds

/-- The parentheses and the negation in front of a condition. -/
theorem run_front {opens : Nat} {negated : Bool} {us ns ds : List Piece}
    (hu : Repeated .openParen opens us) (hn : Negates negated ns) (h : inView ds ≠ .openParen)
    (hnot : negated = false → (inView ds).isKeyword "NOT" = false) :
    Run front (us ++ ns) (some (opens, negated)) ds := by
  cases negated with
  | true =>
    obtain ⟨w, hw, hk⟩ : IsKeyword "NOT" ns := hn
    refine (run_openParens hu (by simp [hw.inView_append])).bind (Run.current fun _ _ => ?_)
    rw [← List.append_nil ns]
    refine (run_eatKeyword ⟨w, hw, hk⟩ _).bind (Run.answer (run_atToken _ _) ?_)
    rw [List.nil_append, beq_eq_false_iff_ne.2 h]
    exact Run.pure _ ds
  | false =>
    obtain rfl : ns = [] := hn
    refine (run_openParens hu (by simpa using h)).bind (Run.current fun _ _ => ?_)
    refine Run.answer (run_eatKeyword_false (hnot rfl)) (Run.answer (run_atToken _ _) ?_)
    exact Run.pure _ ds

theorem run_frontPieces {opens : Nat} {negated : Bool} {ds : List Piece}
    (h : inView ds ≠ .openParen) (hnot : negated = false → (inView ds).isKeyword "NOT" = false) :
    Run front (frontPieces (some (opens, negated))) (some (opens, negated)) ds := by
  cases negated with
  | true =>
    have hrun : Run front (List.replicate opens .openParen ++ [notPiece])
        (some (opens, true)) ([Piece.space] ++ ds) :=
      run_front (.replicate (proper_mark .openParen rfl) opens) isKeyword_not
        (by simpa using h) (by simp)
    have := hrun.append_blank blank_space
    rwa [List.append_assoc] at this
  | false => exact run_front (.replicate (proper_mark .openParen rfl) opens) rfl h hnot

/-- The negation of a group. -/
theorem FrontPhrase.negation {ns : List Piece} (hn : IsKeyword "NOT" ns) :
    FrontPhrase front (fun _ => True) ns none .openParen := by
  obtain ⟨w, hw, hk⟩ := id hn
  refine ⟨hn.literals, by simp, Or.inr ⟨by simp [hw.inView], by simp [hw.inView]⟩, fun _ => rfl,
    fun i ds hds => run_front_group isKeyword_not ?_⟩
  rw [hds]
  rfl

/-- Parentheses, and a negation after them or none. -/
theorem FrontPhrase.opened {opens : Nat} {negated : Bool} {os ns : List Piece} {t : Token}
    (hl : Soql.literals os = []) (hzero : opens = 0 → os = [])
    (hpos : 0 < opens → inView os = .openParen) (ht : t ≠ .openParen)
    (hn : negated = true ∧ IsKeyword "NOT" ns ∨
      negated = false ∧ ns = [] ∧ t.isKeyword "NOT" = false) :
    FrontPhrase front (fun _ => True) (os ++ ns) (some (opens, negated)) t := by
  refine ⟨?_, by simp, ?_, by simp, fun i ds hds => ?_⟩
  · rcases hn with ⟨-, hn⟩ | ⟨-, rfl, -⟩
    · simp [hl, hn.literals]
    · simpa using hl
  · rcases Nat.eq_zero_or_pos opens with rfl | ho
    · obtain rfl := hzero rfl
      rcases hn with ⟨rfl, w, hw, -⟩ | ⟨rfl, rfl, -⟩
      · exact Or.inr ⟨by simp [hw.inView], by simp [hw.inView]⟩
      · exact Or.inl ⟨rfl, rfl⟩
    · have hos : inView (os ++ ns) = .openParen := by
        rw [inView_append (by simp [hpos ho]), hpos ho]
      exact Or.inr ⟨by simp [hos], fun _ => inView_frontPieces ho negated⟩
  · refine run_frontPieces (indent_ne_openParen ht hds) fun hneg => ?_
    rcases hn with ⟨h, -⟩ | ⟨-, -, hn⟩
    · rw [h] at hneg
      cases hneg
    · rwa [hds, ← isKeyword_indent]

theorem reads_front : Reads front fun us r ds => (r ≠ none → inView ds ≠ .openParen) →
    FrontPhrase front (fun _ => True) us r (inView ds) := by
  refine (reads_openParens.bind fun opens => Reads.current.bind fun _ =>
    (reads_eatKeyword "NOT").bind fun negated => (reads_atToken .openParen).bind
      (R := fun b us r _ => us = [] ∧ ((negated = true ∧ b = true ∧ opens = 0 ∧ r = none) ∨
        ((negated && b) = false ∧ r = some (opens, negated)))) ?_).mono ?_
  · intro b
    refine Reads.ite (fun hb => Reads.ite (fun h0 => ?_) fun _ => Reads.throw _) fun hb => ?_
    · rw [Bool.and_eq_true] at hb
      exact (Reads.pure _).mono fun us r ds h => ⟨h.1, Or.inl ⟨hb.1, hb.2, h0, h.2⟩⟩
    · exact (Reads.pure _).mono fun us r ds h => ⟨h.1, Or.inr ⟨by simpa using hb, h.2⟩⟩
  · rintro us r ds ⟨os, opens, _, rfl, ⟨h1, h2, h3⟩, _, _, _, rfl, ⟨rfl, -⟩, ns, negated, _, rfl,
      hn, _, b, _, rfl, ⟨rfl, hb⟩, rfl, ⟨rfl, rfl, rfl, rfl⟩ | ⟨hb', rfl⟩⟩ hne
    · have hds : inView ds = .openParen := by simpa using hb.symm
      obtain rfl := h2 rfl
      simp only [List.append_nil, List.nil_append, hds]
      exact .negation (by simpa using hn)
    · simp only [List.append_nil, List.nil_append] at hn ⊢
      exact .opened h1 h2 h3 (hne (by simp)) hn

/-! ## Links -/

section LinkOf

variable {κ : Type}

/-- A link: what stands in front of a condition, the condition and what closes it. -/
def linkOf (front : Parser (Option (Nat × Bool))) (bare : Parser κ)
    (surround : κ → Nat → Bool → Nat → κ) (depth : Nat) : Parser (Link κ × Nat) := do
  match ← front with
  | none => return (⟨none, some .not⟩, depth)
  | some (opens, negated) =>
    let c ← bare
    let (closes, connective) ← closing (depth + opens)
    return (⟨some (surround c opens negated closes), connective⟩, depth + opens - closes)

theorem run_linkOf {front : Parser (Option (Nat × Bool))} {bare : Parser κ}
    {surround : κ → Nat → Bool → Nat → κ} {depth opens closes : Nat} {negated : Bool} {c : κ}
    {o : Option Connective} {us ws vs ds : List Piece}
    (hfront : Run front us (some (opens, negated)) ((ws ++ vs) ++ ds))
    (hbare : Run bare ws c (vs ++ ds)) (hclose : Run (closing (depth + opens)) vs (closes, o) ds) :
    Run (linkOf front bare surround depth) (us ++ (ws ++ vs))
      (⟨some (surround c opens negated closes), o⟩, depth + opens - closes) ds :=
  hfront.bind (hbare.bind (hclose.bind_pure fun r =>
    ((⟨some (surround c opens negated r.1), r.2⟩ : Link κ), depth + opens - r.1)))

theorem run_linkOf_group {front : Parser (Option (Nat × Bool))} {us ds : List Piece}
    (h : Run front us none ds) (bare : Parser κ) (surround : κ → Nat → Bool → Nat → κ)
    (depth : Nat) : Run (linkOf front bare surround depth) us (⟨none, some .not⟩, depth) ds :=
  h.bind_nil (Run.pure _ ds)

/-- The links of a kind are made of a front, a condition and what closes it. -/
structure LinkKind.Surrounds (K : LinkKind κ) (front : Parser (Option (Nat × Bool)))
    (ok : Bool → Prop) (bare : Nat → Parser κ) (surround : κ → Nat → Bool → Nat → κ)
    (bareText : Layout → κ → Text) : Prop where
  link : ∀ m, K.link m = linkOf front (bare m) surround
  front : Reads front fun us r ds => (r ≠ none → inView ds ≠ .openParen) →
    FrontPhrase front ok us r (inView ds)
  forget : ∀ c o n k, K.forget (surround c o n k) = surround (K.forget c) o n k
  parts : ∀ c o n k, K.parts (surround c o n k) = K.parts c
  text : ∀ l c o n k, ok n → K.text l (surround c o n k) =
    spell (frontPieces (some (o, n))) ++ bareText l c ++ List.replicate k ')'

/-- A condition that was read from `us`, without what stands around it. -/
structure LinkKind.BarePhrase (K : LinkKind κ) (bare : Nat → Parser κ)
    (bareText : Layout → κ → Text) (us : List Piece) (c : κ) : Prop where
  literals : literals us = stringsAt 0 (K.parts c)
  feeds : Feeds (K.parts c)
  starts : ∃ w, inView us = .word w
  laid : Laid (fun m _ => bare m) (· ≠ .colon) (fun c' => K.forget c' = K.forget c) (K.parts c)
    (Starts us) fun l => bareText l c

variable {K : LinkKind κ} {front : Parser (Option (Nat × Bool))} {ok : Bool → Prop}
  {bare : Nat → Parser κ} {surround : κ → Nat → Bool → Nat → κ} {bareText : Layout → κ → Text}

/-- The negation of a group of links. -/
theorem LinkKind.Surrounds.group (hK : K.Surrounds front ok bare surround bareText) {depth : Nat}
    {us : List Piece} {t : Token} (h : FrontPhrase front ok us none t) :
    K.LinkPhrase depth us ⟨none, some .not⟩ depth := by
  have hstart := h.starts.resolve_left (by simp [frontPieces])
  refine ⟨by simpa [LinkKind.linkParts] using h.literals, feeds_nil, hstart.1, fun l k hl => ?_⟩
  obtain ⟨c, b, hc, hb, hop⟩ := hl.connective
  have htight : Tight [notPiece] := tight_token _ _
  have hblank : BlankText (c :: b) := by
    intro d hd
    rcases List.mem_cons.1 hd with rfl | hd
    · exact hc
    · exact hb d hd
  refine ⟨[notPiece], ?_, closed_token _ _, rfl, ⟨htight, by simp [notPiece], hstart.2⟩,
    fun i _ => ⟨(⟨none, some .not⟩, depth), ⟨rfl, rfl⟩, fun m n _ _ ds hds => ?_⟩⟩
  · have := htight.trim (by simp) hblank blankText_space
    simpa [Link.text, Link.map, operatorText, hop, notPiece, Keyword.spelling] using this.symm
  · have hrun := h.run i ds (by rw [h.group rfl]; exact hds.1)
    simp only [hK.link]
    exact run_linkOf_group hrun _ _ depth

theorem closed_frontPieces_append (r : Option (Nat × Bool)) (hr : r ≠ none) {qs : List Piece}
    (hq : Closed qs) : Closed (frontPieces r ++ qs) := by
  obtain ⟨⟨opens, negated⟩, rfl⟩ := Option.ne_none_iff_exists'.1 hr
  rw [frontPieces, List.append_assoc]
  refine closed_replicate_append _ _ (fun _ => rfl) ?_
  cases negated with
  | true => exact closed_keyword hq _ _
  | false => exact hq

theorem literals_frontPieces (r : Option (Nat × Bool)) : literals (frontPieces r) = [] := by
  rcases r with _ | ⟨opens, negated⟩
  · rfl
  · rw [frontPieces, literals_append, literals_replicate _ _ rfl]
    cases negated <;> rfl

theorem indentAll_frontPieces (r : Option (Nat × Bool)) (i : Nat) :
    indentAll i (frontPieces r) = frontPieces r := by
  rcases r with _ | ⟨opens, negated⟩
  · rfl
  · rw [frontPieces, indentAll_append, indentAll_replicate _ _ (by simp [spelling])]
    cases negated <;> rfl

theorem isToken_frontPieces (r : Option (Nat × Bool)) :
    ∀ p ∈ (frontPieces r).head?, p.isToken = true := by
  rcases r with _ | ⟨opens, negated⟩
  · simp [frontPieces, notPiece, Piece.keyword]
  · refine isToken_head_append (fun p hp => ?_) ?_
    · rw [List.eq_of_mem_replicate (List.mem_of_head? hp)]
      rfl
    · cases negated <;> simp [notPiece, Piece.keyword]

theorem inView_frontPieces_append {us vs ws : List Piece} {r : Option (Nat × Bool)}
    (h : us = [] ∧ frontPieces r = [] ∨ inView us ≠ .finish ∧
      (inView us = .openParen → inView (frontPieces r) = .openParen))
    (hv : inView (us ++ vs) = .openParen) (hw : inView vs ≠ .openParen) :
    inView (frontPieces r ++ ws) = .openParen := by
  rcases h with ⟨rfl, -⟩ | ⟨hu, hf⟩
  · exact absurd hv hw
  · rw [inView_append hu] at hv
    have := hf hv
    rw [inView_append (by rw [this]; simp), this]

theorem tight_frontPieces_append (r : Option (Nat × Bool)) {vs zs : List Piece} (hv : Tight vs)
    (hne : vs ≠ []) (hz : ∀ p ∈ zs.getLast?, p.isToken = true) :
    Tight (frontPieces r ++ (vs ++ zs)) := by
  refine ⟨isToken_head_append (isToken_frontPieces r) (fun p hp => ?_), ?_⟩
  · rw [List.head?_append_of_ne_nil _ hne] at hp
    exact hv.1 p hp
  · rw [List.getLast?_append_of_ne_nil _ (by simp [hne])]
    exact isToken_last_append hv.2 hz

section Condition

variable {depth opens closes : Nat} {negated : Bool} {us ws xs : List Piece} {c : κ}
  {o : Option Connective} (hu : FrontPhrase front ok us (some (opens, negated)) (inView ws))

include hu

theorem FrontPhrase.inView_append_ne_finish (hw : inView ws ≠ .finish) :
    inView (us ++ (ws ++ xs)) ≠ .finish := by
  rcases hu.starts with ⟨rfl, -⟩ | ⟨hne, -⟩
  · rw [List.nil_append, inView_append hw]
    exact hw
  · rw [inView_append hne]
    exact hne

/-- The pieces of a link are read back if those of its condition are. -/
theorem LinkKind.Surrounds.readBack (hK : K.Surrounds front ok bare surround bareText)
    {vs zs : List Piece} {k : Nat} {ps : List (Nat × Part)} (hle : closes ≤ depth + opens)
    (hv : Starts ws vs) (hne : inView ws ≠ .finish) (hz : ClosesLink closes o zs)
    (h : ReadBack (fun m _ => bare m) (· ≠ .colon) (fun c' => K.forget c' = K.forget c) k ps vs) :
    ReadBack (fun m _ => K.link m depth)
      (fun t => Follows o (depth + opens - closes) t ∧ (o = none → t ≠ .colon))
      (fun y => y.1.map K.forget = Link.map K.forget ⟨some (surround c opens negated closes), o⟩ ∧
        y.2 = depth + opens - closes) k ps (frontPieces (some (opens, negated)) ++ (vs ++ zs)) := by
  intro i hi
  obtain ⟨c', hc', hrun⟩ := h i hi
  refine ⟨(⟨some (surround c' opens negated closes), o⟩, depth + opens - closes),
    ⟨by simp [Link.map, hK.forget, hc'], rfl⟩, fun m n hm _ ds hds => ?_⟩
  obtain ⟨hcolon, hclose⟩ := hz i (depth + opens) ds hle hds.1 hds.2
  have hview : inView ((indentAll i vs ++ indentAll i zs) ++ ds) = (inView ws).indent i := by
    rw [List.append_assoc, inView_indentAll_append (hv.ne_finish hne), hv.1]
  simp only [count_append] at hm
  simp only [hK.link, indentAll_append, indentAll_frontPieces]
  exact run_linkOf (hu.run i _ hview) (hrun m m (by omega) (by omega) _ hcolon) hclose

/-- A condition with what stands around it. -/
theorem LinkKind.Surrounds.condition (hK : K.Surrounds front ok bare surround bareText)
    (hw : K.BarePhrase bare bareText ws c) (hx : literals xs = []) (ho : o ≠ some .not)
    (hle : closes ≤ depth + opens) :
    K.LinkPhrase depth (us ++ (ws ++ xs)) ⟨some (surround c opens negated closes), o⟩
      (depth + opens - closes) := by
  obtain ⟨w, hword⟩ := hw.starts
  have hparts : K.linkParts ⟨some (surround c opens negated closes), o⟩ = K.parts c := by
    simp [LinkKind.linkParts, hK.parts]
  have hstart : inView ws ≠ .finish := by simp [hword]
  refine ⟨?_, by rw [hparts]; exact hw.feeds, hu.inView_append_ne_finish hstart, fun l k hl => ?_⟩
  · rw [hparts, literals_append, literals_append, hu.literals, hw.literals, hx]
    simp
  · obtain ⟨vs, hsp, hcl, hlit, hs, hread⟩ := hw.laid l k hl
    obtain ⟨zs, b, hb, htext, hcl', hclean, hlit', hlast, hclose⟩ := exists_closing hl closes ho
    have hne := ne_nil_of_inView (hs.ne_finish hstart)
    have htight := tight_frontPieces_append (some (opens, negated)) hs.2 hne hlast
    refine ⟨frontPieces (some (opens, negated)) ++ (vs ++ zs), ?_, ?_, ?_,
      ⟨htight, htight.inView_ne_finish (by simp [hne]), ?_⟩, ?_⟩
    · have := htight.trim (by simp [hne]) blankText_nil hb
      simp only [Link.text, Link.map, Option.map_some, Option.getD_some,
        hK.text l c _ _ _ (hu.allowed _ _ rfl), List.append_assoc, htext]
      simpa [hsp] using this.symm
    · exact closed_frontPieces_append _ (by simp) (hcl.append hcl' hclean)
    · rw [literals_append, literals_append, literals_frontPieces, hlit, hlit', hparts]
      simp
    · refine fun hopen => inView_frontPieces_append hu.starts hopen ?_
      rw [inView_append hstart, hword]
      simp
    · rw [hparts]
      exact hK.readBack hu hle hs hstart hclose hread

end Condition

/-- **Links are read back if the conditions in them are.** -/
theorem LinkKind.Surrounds.reads (hK : K.Surrounds front ok bare surround bareText)
    {f : Parser κ} (hf : Reads f fun us c _ => K.BarePhrase bare bareText us c) (depth : Nat) :
    Reads (linkOf front f surround depth) fun us r ds =>
      Follows r.1.connective r.2 (inView ds) ∧ K.LinkPhrase depth us r.1 r.2 := by
  refine (hK.front.bind (R := fun r us x ds => (r = none ∧ us = [] ∧
    x = (⟨none, some .not⟩, depth)) ∨ ∃ opens negated ws c zs closes o, r = some (opens, negated) ∧
      us = ws ++ zs ∧ K.BarePhrase bare bareText ws c ∧ closes ≤ depth + opens ∧ literals zs = [] ∧
      o ≠ some .not ∧ Follows o (depth + opens - closes) (inView ds) ∧
      x = (⟨some (surround c opens negated closes), o⟩, depth + opens - closes)) ?_).mono ?_
  · rintro (_ | ⟨opens, negated⟩)
    · exact (Reads.pure _).mono fun us x ds h => Or.inl ⟨rfl, h⟩
    · refine (hf.bind fun c => (reads_closing (depth + opens)).bind fun r =>
        Reads.pure ((⟨some (surround c opens negated r.1), r.2⟩ : Link κ),
          depth + opens - r.1)).mono ?_
      rintro us x ds ⟨ws, c, _, rfl, hc, zs, ⟨closes, o⟩, _, rfl, ⟨h1, h2, h3, h4⟩, rfl, rfl⟩
      refine Or.inr ⟨opens, negated, ws, c, zs, closes, o, rfl, by simp, hc, h1, h2, h3, ?_, rfl⟩
      rcases o with _ | _ | _ | _
      · exact h4 rfl
      · trivial
      · trivial
      · exact absurd rfl h3
  · rintro us x ds ⟨us, r, _, rfl, hfront, ⟨rfl, rfl, rfl⟩ | ⟨opens, negated, ws, c, zs, closes, o,
      rfl, rfl, hc, h1, h2, h3, h4, rfl⟩⟩
    · have := hfront (by simp)
      rw [List.append_nil]
      exact ⟨this.group rfl, hK.group this⟩
    · obtain ⟨w, hw⟩ := hc.starts
      have hview : inView (ws ++ zs ++ ds) = inView ws := by
        rw [List.append_assoc, inView_append (by simp [hw])]
      rw [hview] at hfront
      exact ⟨h4, hK.condition (hfront (by simp [hw])) hc h2 h3 h1⟩

end LinkOf

end Parser

end Soql
