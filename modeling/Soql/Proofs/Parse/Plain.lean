/-
  Clauses without string literals, read and read back.

  * `Plain f S F a t`: the value `a` is read back from the text `t`, which
    holds no string literal and no line feed.
  * `Plain.bind`: one such text after another.
  * `reads_typeOf`, `reads_withClause`: `TYPEOF` expressions and data
    categories.
-/
import Mathlib
import Soql.Parse.Clauses
import Soql.Proofs.Parse.Laid

namespace Soql

open Unicode Token Soql.Parser

/-- Pieces of a text without string literals and line feeds, that start and end with a token. -/
structure PlainPieces (t : Text) (vs : List Piece) : Prop where
  spell : spell vs = t
  closed : Closed vs
  literals : literals vs = []
  feeds : '\n' ∉ t
  tight : Tight vs
  ne_nil : vs ≠ []

namespace PlainPieces

variable {t u : Text} {vs ws : List Piece}

theorem join (h : PlainPieces t vs) (h' : PlainPieces u ws) :
    PlainPieces (t ++ " " ++ u) (vs ++ ([Piece.space] ++ ws)) where
  spell := by simp [h.spell, h'.spell]
  closed := h.closed.append (closed_space h'.closed) (clean_cons (c := ' ') (by decide) _)
  literals := by simp [h.literals, h'.literals]
  feeds := by simp [h.feeds, h'.feeds]
  tight := h.tight.append h'.tight h.ne_nil h'.ne_nil _
  ne_nil := by simp

theorem token {t : Token} (hp : t.Proper) (hl : t.literal? = none) :
    PlainPieces t.spelling [Piece.token t hp] where
  spell := by simp
  closed := closed_token t hp
  literals := by simp [literals_token, hl]
  feeds := not_mem_spelling hp hl
  tight := tight_token t hp
  ne_nil := by simp

theorem indentAll_eq (h : PlainPieces t vs) (i : Nat) : indentAll i vs = vs :=
  indentAll_of_not_mem (h.spell ▸ h.feeds) i

theorem inView_ne_finish (h : PlainPieces t vs) : inView vs ≠ .finish :=
  h.tight.inView_ne_finish h.ne_nil

end PlainPieces

namespace Parser

variable {α β : Type}

/-- The value is read back from the text, the first token of which satisfies `S`, wherever `F`
    holds of the token after it. -/
def Plain (f : Parser α) (S F : Token → Prop) (a : α) (t : Text) : Prop :=
  ∃ vs, PlainPieces t vs ∧ S (inView vs) ∧ ∀ ds, F (inView ds) → Run f vs a ds

section Plain

variable {f : Parser α} {g : α → Parser β} {S S' F F' : Token → Prop} {a : α} {b : β} {t u : Text}

theorem Plain.bind (hf : Plain f S F a t) (hg : Plain (g a) S' F' b u) (hF : ∀ t, S' t → F t) :
    Plain (f >>= g) S F' b (t ++ " " ++ u) := by
  obtain ⟨vs, hvs, hS, hrun⟩ := hf
  obtain ⟨ws, hws, hS', hrun'⟩ := hg
  refine ⟨_, hvs.join hws, ?_, fun ds hds => ?_⟩
  · rwa [inView_append hvs.inView_ne_finish]
  · refine (hrun _ ?_).bind ((hrun' ds hds).blank_append blank_space)
    rw [List.append_assoc, List.singleton_append, inView_space,
      inView_append hws.inView_ne_finish]
    exact hF _ hS'

theorem Plain.map (hf : Plain f S F a t) (h : α → β) :
    Plain (f >>= fun a => pure (h a)) S F (h a) t := by
  obtain ⟨vs, hvs, hS, hrun⟩ := hf
  exact ⟨vs, hvs, hS, fun ds hds => (hrun ds hds).bind_pure h⟩

theorem Plain.mono (hf : Plain f S F a t) (hS : ∀ t, S t → S' t) (hF : ∀ t, F' t → F t) :
    Plain f S' F' a t := by
  obtain ⟨vs, hvs, h, hrun⟩ := hf
  exact ⟨vs, hvs, hS _ h, fun ds hds => hrun ds (hF _ hds)⟩

theorem PlainPieces.laid {f : Nat → Nat → Parser α} {vs : List Piece} (h : PlainPieces t vs)
    (hrun : ∀ m n ds, F (inView ds) → Run (f m n) vs a ds) :
    Laid f F (· = a) [] (· = vs) fun _ => t := by
  intro l k _
  refine ⟨vs, h.spell, h.closed, h.literals, rfl, fun i _ => ⟨a, rfl, fun m n _ _ ds hds => ?_⟩⟩
  rw [h.indentAll_eq]
  exact hrun m n ds hds

theorem Plain.laid (hf : Plain f S F a t) :
    Laid (fun _ _ => f) F (· = a) [] (fun vs => vs ≠ [] ∧ Tight vs ∧ S (inView vs)) fun _ => t := by
  obtain ⟨vs, hvs, hS, hrun⟩ := hf
  refine (PlainPieces.laid hvs fun _ _ => hrun).mono (fun _ => id) (fun _ => id) ?_
  rintro _ rfl
  exact ⟨hvs.ne_nil, hvs.tight, hS⟩

end Plain

/-! ## Words -/

theorem plain_identifier {w : Text} (hp : (word w).Proper) (e : Expectation) :
    Plain (identifier e) (· = .word w) (fun _ => True) w w :=
  ⟨_, PlainPieces.token hp rfl, rfl, fun ds _ => run_identifier (Single.token hp) e ds⟩

theorem plain_expectKeyword (w : Text) (h : isPlainWord w = true) :
    Plain (expectKeyword w) (· = .word w) (fun _ => True) () w :=
  ⟨_, PlainPieces.token (proper_of_isPlainWord h) rfl, rfl,
    fun ds _ => run_expectKeyword (isKeyword_keyword w h) ds⟩

theorem plain_keywordOf {κ : Type} [Keyword κ] {a : κ}
    (h : isPlainWord (Keyword.spelling a) = true)
    (ha : Keyword.ofWord? (Keyword.spelling a) = some a) (e : Expectation) :
    Plain (expectKeywordOf e) (· = .word (Keyword.spelling a)) (fun _ => True) a
      (Keyword.spelling a) :=
  ⟨_, PlainPieces.token (proper_of_isPlainWord h) rfl, rfl,
    fun ds _ => run_expectKeywordOf (Single.token _) ha e ds⟩

/-! ## Lists -/

/-- Values with commas between them. -/
theorem plain_commaSeparated {item : Parser α} {F : Token → Prop} {print : α → Text} {a : α}
    {as : List α} (h : ∀ x ∈ a :: as, Plain item (fun _ => True) F x (print x)) (hF : F .comma) :
    Plain (commaSeparated item) (fun _ => True) (fun t => F t ∧ t ≠ .comma) (a, as)
      (Text.joinWith ", " ((a :: as).map print)) := by
  obtain ⟨vss, hvss⟩ := exists_forall₂ h
  have hpieces : ∀ vs ∈ vss, ∃ x ∈ a :: as, PlainPieces (print x) vs := by
    intro vs hvs
    obtain ⟨x, hx, hp⟩ := forall₂_mem_left hvss hvs
    exact ⟨x, hx, hp.1⟩
  have hspell : vss.map spell = (a :: as).map print := by
    have : List.Forall₂ (· = ·) (vss.map spell) ((a :: as).map print) :=
      List.forall₂_map_left_iff.2 (List.forall₂_map_right_iff.2 (hvss.imp fun _ _ h => h.1.spell))
    rwa [List.forall₂_eq_eq_eq] at this
  have hrow := textRow_joinWith blankText_space (print a) (as.map print)
  obtain ⟨vs, hrow, hsp⟩ := hrow.exists_row hspell
  have htight := hrow.tight fun vs hvs => by
    obtain ⟨x, -, hp⟩ := hpieces vs hvs
    exact ⟨hp.tight, hp.ne_nil⟩
  refine ⟨vs, ⟨hsp, hrow.closed ?_, ?_, fun hm => ?_, htight.1, htight.2⟩, trivial,
    fun ds hds => run_commaSeparated hrow (hvss.imp fun _ _ h => h.2.2) hF hds.1 hds.2⟩
  · intro vs hvs
    obtain ⟨x, -, hp⟩ := hpieces vs hvs
    exact hp.closed
  · rw [hrow.literals, List.flatten_eq_nil_iff]
    intro ls hls
    obtain ⟨vs, hvs, rfl⟩ := List.mem_map.1 hls
    obtain ⟨x, -, hp⟩ := hpieces vs hvs
    exact hp.literals
  · obtain ⟨t, ht, hm⟩ := mem_joinWith (by decide) hm
    obtain ⟨x, hx, rfl⟩ := List.mem_map.1 ht
    obtain ⟨ws, hws, -⟩ := h x hx
    exact hws.feeds hm

theorem reads_plainList {item : Parser α} {Q : α → Prop}
    (hi : Reads item fun us a _ => literals us = [] ∧ Q a) :
    Reads (commaSeparated item) fun us r _ => literals us = [] ∧ ∀ a ∈ r.1 :: r.2, Q a := by
  refine (Reads.commaSeparated hi).mono ?_
  rintro us ⟨a, as⟩ ds ⟨vs, uss, rest, rfl, hv, hus, hlit⟩
  refine ⟨?_, ?_⟩
  · rw [literals_append, hv.1, hlit, List.nil_append, List.flatten_eq_nil_iff]
    intro ls hls
    obtain ⟨us, hu, rfl⟩ := List.mem_map.1 hls
    obtain ⟨a, -, ha⟩ := forall₂_mem_left hus hu
    exact ha.1
  · intro x hx
    rcases List.mem_cons.1 hx with rfl | hx
    · exact hv.2
    · obtain ⟨us, -, ha⟩ := forall₂_mem_left hus.flip hx
      exact ha.2

end Parser

/-- Pieces without string literals and line feeds that may stand after others. -/
structure TrailPieces (t : Text) (vs : List Piece) : Prop where
  spell : spell vs = t
  closed : Closed vs
  clean : Clean t
  literals : literals vs = []
  feeds : '\n' ∉ t
  last : ∀ p ∈ vs.getLast?, p.isToken = true

namespace TrailPieces

variable {t u : Text} {vs ws : List Piece}

theorem nil : TrailPieces [] [] :=
  ⟨rfl, blank_nil.closed, by simp [Clean], rfl, by simp, by simp⟩

theorem space (h : PlainPieces t vs) : TrailPieces (' ' :: t) (.space :: vs) where
  spell := by simp [h.spell]
  closed := closed_space h.closed
  clean := clean_cons (by decide) t
  literals := by simp [h.literals]
  feeds := by simp [h.feeds]
  last := by
    rw [List.getLast?_cons_of_ne_nil h.ne_nil]
    exact h.tight.2

theorem two_spaces (h : PlainPieces t vs) :
    TrailPieces (' ' :: ' ' :: t) (.space :: .space :: vs) where
  spell := by simp [h.spell]
  closed := closed_space (closed_space h.closed)
  clean := clean_cons (by decide) _
  literals := by simp [h.literals]
  feeds := by simp [h.feeds]
  last := by
    rw [List.getLast?_cons_of_ne_nil (by simp), List.getLast?_cons_of_ne_nil h.ne_nil]
    exact h.tight.2

theorem append (h : TrailPieces t vs) (h' : TrailPieces u ws) :
    TrailPieces (t ++ u) (vs ++ ws) where
  spell := by simp [h.spell, h'.spell]
  closed := h.closed.append h'.closed (h'.spell ▸ h'.clean)
  clean := by
    cases t with
    | nil => exact h'.clean
    | cons c t => exact clean_cons (h.clean c rfl) _
  literals := by simp [h.literals, h'.literals]
  feeds := by simp [h.feeds, h'.feeds]
  last := isToken_last_append h.last h'.last

theorem tight (h : TrailPieces t ws) (hvs : Tight vs) (hne : vs ≠ []) : Tight (vs ++ ws) := by
  refine ⟨fun p hp => hvs.1 p ?_, isToken_last_append hvs.2 h.last⟩
  rwa [List.head?_append_of_ne_nil _ hne] at hp

end TrailPieces

theorem PlainPieces.trail {t u : Text} {vs ws : List Piece} (h : PlainPieces t vs)
    (h' : TrailPieces u ws) : PlainPieces (t ++ u) (vs ++ ws) where
  spell := by simp [h.spell, h'.spell]
  closed := h.closed.append h'.closed (h'.spell ▸ h'.clean)
  literals := by simp [h.literals, h'.literals]
  feeds := by simp [h.feeds, h'.feeds]
  tight := h'.tight h.tight h.ne_nil
  ne_nil := by simp [h.ne_nil]

namespace Parser

/-- A phrase and what stands after it, as a parser reads it that takes both. -/
theorem Phrase.trail {α β : Type} {f : Parser α} {g : Parser β} {F G : Token → Prop}
    {rs : List Text} {us os vs zs : List Piece} {a : α} {b : β} {t : Text}
    (h : Phrase f F rs us a vs) (hz : TrailPieces t zs) (hos : Soql.literals os = [])
    (hrun : ∀ ds, G (Soql.inView ds) → Run g (vs ++ zs) b ds) :
    Phrase g G rs (us ++ os) b (vs ++ zs) where
  closed := h.closed.append hz.closed (hz.spell ▸ hz.clean)
  literals := by simp [h.literals, hz.literals, hos]
  inView := by rw [inView_append (h.inView ▸ h.starts), h.inView, inView_append h.starts]
  starts := by
    rw [inView_append h.starts]
    exact h.starts
  tight := hz.tight h.tight (ne_nil_of_inView (h.inView ▸ h.starts))
  feeds hm := by
    rw [spell_append, hz.spell, List.mem_append] at hm
    rw [literals_append, hos, List.append_nil]
    exact h.feeds (hm.resolve_right hz.feeds)
  run := hrun

variable {α : Type} {item : Parser α} {kw : Text} {F : Token → Prop} {print : α → Text}

/-- A keyword and a value after it. -/
theorem Plain.afterKeyword {a : α} {t : Text} {S : Token → Prop} (hkw : isPlainWord kw = true)
    (h : Plain item S F a t) :
    Plain (afterKeyword kw item) (· = .word kw) F (some a) (kw ++ " " ++ t) := by
  obtain ⟨vs, hvs, -, hrun⟩ := h
  refine ⟨_, (PlainPieces.token (proper_of_isPlainWord hkw) rfl).join hvs, rfl, fun ds hds => ?_⟩
  exact run_afterKeyword (isKeyword_keyword kw hkw) ((hrun ds hds).blank_append blank_space)

/-- Values each with a keyword in front of it. -/
theorem exists_trail (hkw : isPlainWord kw = true) {as : List α}
    (h : ∀ a ∈ as, Plain item (fun _ => True) F a (print a)) (hF : F (.word kw)) :
    ∃ ws, TrailPieces (as.flatMap fun a => ' ' :: (kw ++ " " ++ print a)) ws ∧
      (∀ ds, inView (ws ++ ds) = if as = [] then inView ds else .word kw) ∧
      ∀ ds, F (inView ds) → (inView ds).isKeyword kw = false →
        Run (many (afterKeyword kw item)) ws as ds := by
  have hparts : ∃ uss, TrailPieces (as.flatMap fun a => ' ' :: (kw ++ " " ++ print a))
      (List.flatten uss) ∧ List.Forall₂ (fun us a => inView us = .word kw ∧
        ∀ ds, F (inView ds) → Run (afterKeyword kw item) us (some a) ds) uss as := by
    induction as with
    | nil => exact ⟨[], .nil, .nil⟩
    | cons a as ih =>
      obtain ⟨uss, hpieces, huss⟩ := ih fun a ha => h a (by simp [ha])
      obtain ⟨vs, hvs, hS, hrun⟩ := (h a (by simp)).afterKeyword hkw
      refine ⟨(.space :: vs) :: uss, (TrailPieces.space hvs).append hpieces, .cons ⟨hS, ?_⟩ huss⟩
      exact fun ds hds => (hrun ds hds).blank_append blank_space
  obtain ⟨uss, hpieces, huss⟩ := hparts
  refine ⟨uss.flatten, hpieces, fun ds => ?_, fun ds hds hkw' => ?_⟩
  · cases huss with
    | nil => rfl
    | cons hus _ =>
      rw [List.flatten_cons, List.append_assoc, inView_append (by simp [hus.1]), hus.1]
      rfl
  · refine run_many (F := F) (huss.imp fun us a hus => ⟨?_, ?_, hus.2⟩) hds
      (run_afterKeyword_none hkw')
    · rw [hus.1]
      exact hF
    · simp [hus.1]

/-- Values without string literals, each with a keyword in front of it. -/
theorem reads_manyAfterKeyword {Q : α → Prop}
    (hi : Reads item fun us a _ => literals us = [] ∧ Q a) (kw : Text) :
    Reads (many (afterKeyword kw item)) fun us as _ => literals us = [] ∧ (as = [] → us = []) ∧
      ∀ a ∈ as, Q a := by
  have hs : Reads (afterKeyword kw item) fun us o _ => (o = none ∧ us = []) ∨
      ∃ a, o = some a ∧ literals us = [] ∧ Q a := by
    refine hi.afterKeyword.mono ?_
    rintro us o ds (⟨ho, hu, -⟩ | ⟨a, vs, ws, ho, rfl, hv, hw, hQ⟩)
    · exact Or.inl ⟨ho, hu⟩
    · exact Or.inr ⟨a, ho, by simp [hv.literals, hw], hQ⟩
  refine hs.many.mono ?_
  rintro us as ds ⟨uss, rfl, h⟩
  clear hs
  induction h with
  | nil => simp
  | cons hu _ ih =>
    refine ⟨by simp [hu.1, ih.1], by simp, ?_⟩
    simpa using ⟨hu.2, ih.2.2⟩

theorem Phrase.plain {f : Parser α} {us vs : List Piece} {a : α} {t : Text}
    (h : Phrase f F [] us a vs) (hl : Soql.literals us = []) (hv : spell vs = t) :
    Plain f (· = Soql.inView us) F a t := by
  refine ⟨vs, ⟨hv, h.closed, h.literals.trans hl, fun hm => ?_, h.tight,
    ne_nil_of_inView (h.inView ▸ h.starts)⟩, h.inView, h.run⟩
  obtain ⟨u, hu, -⟩ := h.feeds (hv ▸ hm)
  simp [hl] at hu

/-! ## `TYPEOF` -/

/-- What may follow the fields of a branch. -/
def EndsFields (t : Token) : Prop := t ≠ .dot ∧ t ≠ .comma

theorem reads_branchFields : Reads branchFields fun us fs _ => literals us = [] ∧
    Plain branchFields (fun _ => True) EndsFields fs (Text.joinWith ", " fs) := by
  have hpath : Reads dottedPath fun us t _ => literals us = [] ∧
      Plain dottedPath (fun _ => True) (· ≠ .dot) t t := by
    refine reads_dottedPath.mono ?_
    rintro us t ds ⟨hl, vs, hvs, hsp⟩
    exact ⟨hl, (hvs.plain hl hsp).mono (fun _ _ => trivial) fun _ => id⟩
  refine ((reads_plainList hpath).bind fun r => Reads.pure (r.1 :: r.2)).mono ?_
  rintro us fs ds ⟨us, ⟨f, fs⟩, _, rfl, ⟨hlit, hall⟩, rfl, rfl⟩
  refine ⟨by simpa using hlit, ?_⟩
  have hrow : Plain (commaSeparated dottedPath) (fun _ => True) (fun t => t ≠ .dot ∧ t ≠ .comma)
      (f, fs) (Text.joinWith ", " ((f :: fs).map id)) := plain_commaSeparated hall (by simp)
  rw [List.map_id] at hrow
  exact hrow.map fun r => r.1 :: r.2

theorem reads_whenBranch : Reads whenBranch fun us b _ => literals us = [] ∧
    ∃ t, b.text = "WHEN " ++ t ∧ Plain whenBranch (fun _ => True) EndsFields b t := by
  refine ((reads_identifier _).bind fun object => (reads_expectKeyword "THEN").bind fun _ =>
    reads_branchFields.bind fun fields => Reads.pure
      ({ kind := .when, object := some object, fields } : TypeBranch)).mono ?_
  rintro us b ds ⟨us, object, _, rfl, ho, ts, _, _, rfl, ht, fs, fields, _, rfl, ⟨hf, hplain⟩, rfl,
    rfl⟩
  refine ⟨by simp [ho.literals, ht.literals, hf, literal?],
    object ++ " " ++ ("THEN" ++ " " ++ Text.joinWith ", " fields), ?_, ?_⟩
  · simp [TypeBranch.text, Keyword.spelling]
  · have : Plain whenBranch (· = .word object) EndsFields
        { kind := .when, object := some object, fields } _ :=
      (plain_identifier ho.proper _).bind ((plain_expectKeyword "THEN" (by decide)).bind
        (hplain.map _) fun _ _ => trivial) fun _ _ => trivial
    exact this.mono (fun _ _ => trivial) fun _ => id

theorem reads_elseBranch : Reads elseBranch fun us b _ => literals us = [] ∧
    ∃ t, b.text = "ELSE " ++ t ∧ Plain elseBranch (fun _ => True) EndsFields b t := by
  refine (reads_branchFields.bind fun fields => Reads.pure
      ({ kind := .otherwise, object := none, fields } : TypeBranch)).mono ?_
  rintro us b ds ⟨us, fields, _, rfl, ⟨hf, hplain⟩, rfl, rfl⟩
  refine ⟨by simpa using hf, Text.joinWith ", " fields, ?_, hplain.map _⟩
  simp [TypeBranch.text, Keyword.spelling]

theorem flatMap_space (ts : List Text) (h : ts ≠ []) :
    ts.flatMap (' ' :: ·) = ' ' :: Text.joinWith " " ts := by
  obtain ⟨t, ts, rfl⟩ := List.exists_cons_of_ne_nil h
  rw [joinWith_cons]
  rfl

/-- The last branch of a `TYPEOF` expression, if it is an `ELSE`. -/
theorem exists_elseBranch {last : Option TypeBranch}
    (hl : ∀ b, last = some b → ∃ t, b.text = "ELSE " ++ t ∧
      Plain elseBranch (fun _ => True) EndsFields b t) :
    ∃ ws, TrailPieces (last.toList.flatMap fun b => ' ' :: b.text) ws ∧
      (∀ ds, inView ds = .word "END" → inView (ws ++ ds) = .word "END" ∨
        inView (ws ++ ds) = .word "ELSE") ∧
      ∀ ds, inView ds = .word "END" → Run (afterKeyword "ELSE" elseBranch) ws last ds := by
  cases last with
  | none =>
    refine ⟨[], .nil, fun ds hds => Or.inl hds, fun ds hds => run_afterKeyword_none ?_⟩
    rw [hds]
    decide
  | some b =>
    obtain ⟨t, ht, h⟩ := hl b rfl
    obtain ⟨ws, hws, hS, hrun⟩ := h.afterKeyword (by decide : isPlainWord "ELSE" = true)
    refine ⟨.space :: ws, ?_, fun ds _ => Or.inr ?_, fun ds hds => ?_⟩
    · simpa [ht] using TrailPieces.space hws
    · rw [List.cons_append, inView_space, inView_append hws.inView_ne_finish, hS]
    · exact (hrun ds (by simp [hds, EndsFields])).blank_append blank_space

/-- The branches of a `TYPEOF` expression: any number of `WHEN`, and possibly an `ELSE`. -/
theorem exists_branches {whens : List TypeBranch} {last : Option TypeBranch}
    (hw : ∀ b ∈ whens, ∃ t, b.text = "WHEN " ++ t ∧
      Plain whenBranch (fun _ => True) EndsFields b t)
    (hl : ∀ b, last = some b → ∃ t, b.text = "ELSE " ++ t ∧
      Plain elseBranch (fun _ => True) EndsFields b t) :
    ∃ vs ws, TrailPieces ((whens ++ last.toList).flatMap fun b => ' ' :: b.text) (vs ++ ws) ∧
      ∀ ds, inView ds = .word "END" → inView (vs ++ (ws ++ ds)) ≠ .dot ∧
        Run (many (afterKeyword "WHEN" whenBranch)) vs whens (ws ++ ds) ∧
        Run (afterKeyword "ELSE" elseBranch) ws last ds := by
  have hprint : ∀ b ∈ whens,
      Plain whenBranch (fun _ => True) EndsFields b (b.text.drop 5) ∧
        b.text = "WHEN" ++ " " ++ b.text.drop 5 := by
    intro b hb
    obtain ⟨t, ht, h⟩ := hw b hb
    rw [ht]
    exact ⟨h, rfl⟩
  obtain ⟨vs, hvs, hview, hrun⟩ := exists_trail (by decide : isPlainWord "WHEN" = true)
    (fun b hb => (hprint b hb).1) (by simp [EndsFields])
  have htext : (whens.flatMap fun b => ' ' :: ("WHEN" ++ " " ++ b.text.drop 5)) =
      whens.flatMap fun b => ' ' :: b.text := by
    simp only [List.flatMap_def]
    congr 1
    exact List.map_congr_left fun b hb => by rw [← (hprint b hb).2]
  rw [htext] at hvs
  obtain ⟨ws, hws, hword, hrun'⟩ := exists_elseBranch hl
  refine ⟨vs, ws, ?_, fun ds hds => ⟨?_, ?_, hrun' ds hds⟩⟩
  · rw [List.flatMap_append]
    exact hvs.append hws
  · rw [hview]
    split
    · rcases hword ds hds with h | h <;> simp [h]
    · simp
  · rcases hword ds hds with h | h
    · exact hrun _ (by simp [h, EndsFields]) (by rw [h]; decide)
    · exact hrun _ (by simp [h, EndsFields]) (by rw [h]; decide)

/-- The end of a `TYPEOF` expression; without branches two blanks stand in front of it. -/
theorem exists_end (bs : List TypeBranch) : ∃ zs u, TrailPieces u zs ∧
    (∀ ds, inView (zs ++ ds) = .word "END") ∧ (∀ ds, Run (expectKeyword "END") zs () ds) ∧
    (bs.flatMap fun b => ' ' :: b.text) ++ u =
      " " ++ Text.joinWith " " (bs.map TypeBranch.text) ++ " END" := by
  have hend := PlainPieces.token (proper_of_isPlainWord (w := "END") (by decide)) rfl
  have hrun := run_expectKeyword (isKeyword_keyword "END" (by decide))
  by_cases hbs : bs = []
  · subst hbs
    exact ⟨_, _, TrailPieces.two_spaces hend, fun _ => rfl,
      fun ds => ((hrun ds).blank_append blank_space).blank_append blank_space, rfl⟩
  · refine ⟨_, _, TrailPieces.space hend, fun _ => rfl,
      fun ds => (hrun ds).blank_append blank_space, ?_⟩
    have := flatMap_space (bs.map TypeBranch.text) (by simpa using hbs)
    rw [List.flatMap_map] at this
    rw [this]
    simp [spelling]

theorem text_typeOf (field : Text) {bs : List TypeBranch} {u : Text}
    (h : (bs.flatMap fun b => ' ' :: b.text) ++ u =
      " " ++ Text.joinWith " " (bs.map TypeBranch.text) ++ " END") :
    TypeOf.text { field, branches := bs } =
      "TYPEOF" ++ " " ++ (field ++ ((bs.flatMap fun b => ' ' :: b.text) ++ u)) := by
  rw [h]
  unfold TypeOf.text
  simp only [List.append_assoc]
  rfl

/-- **A `TYPEOF` expression is read back from its text.** -/
theorem reads_typeOf : Reads typeOf fun us e _ => literals us = [] ∧
    ∃ t, e.text = "TYPEOF" ++ " " ++ t ∧ Plain typeOf (fun _ => True) (fun _ => True) e t := by
  refine (reads_dottedPath.bind fun field =>
    (reads_manyAfterKeyword reads_whenBranch "WHEN").bind fun branches =>
      (reads_elseBranch.afterKeyword (k := "ELSE")).bind fun last =>
        (reads_expectKeyword "END").bind fun _ =>
          Reads.pure ({ field, branches := branches ++ last.toList } : TypeOf)).mono ?_
  rintro us e ds ⟨us, field, _, rfl, ⟨hlit, fs, hfs, hsp⟩, bs, whens, _, rfl, ⟨hlit', -, hwhen⟩, ls,
    last, _, rfl, hlast, es, _, _, rfl, hend, rfl, rfl⟩
  have hlast' : literals ls = [] ∧ ∀ b, last = some b → ∃ t, b.text = "ELSE " ++ t ∧
      Plain elseBranch (fun _ => True) EndsFields b t := by
    rcases hlast with ⟨rfl, rfl, -⟩ | ⟨b, vs, ws, rfl, rfl, hv, hw, hb⟩
    · simp
    · refine ⟨by simp [hv.literals, hw], ?_⟩
      rintro _ ⟨⟩
      exact hb
  obtain ⟨vs, ws, htrail, hrun⟩ := exists_branches hwhen hlast'.2
  obtain ⟨xs, hxs, hS, hpath⟩ := hfs.plain hlit hsp
  refine ⟨by simp [hlit, hlit', hlast'.1, hend.literals], ?_⟩
  obtain ⟨zs, u, hzs, hview, hrunEnd, htext⟩ := exists_end (whens ++ last.toList)
  have htext' := text_typeOf field htext
  refine ⟨_, htext', _, hxs.trail (htrail.append hzs), trivial, fun ds _ => ?_⟩
  · obtain ⟨hdot, hwhen, helse⟩ := hrun (zs ++ ds) (hview ds)
    have hend : Run (expectKeyword "END" >>= fun _ =>
        pure ({ field, branches := whens ++ last.toList } : TypeOf)) zs _ ds :=
      (hrunEnd ds).bind_pure fun _ => _
    rw [List.append_assoc]
    rw [← List.append_assoc] at hwhen
    exact (hpath _ (by simpa using hdot)).bind (hwhen.bind (helse.bind hend))

/-! ## Data categories -/

/-- The categories of a condition: several of them stand between parentheses. -/
def categoryTexts (cs : List Text) : Text :=
  if 1 < cs.length then "(" ++ Text.joinWith ", " cs ++ ")" else Text.joinWith ", " cs

theorem plain_categories {w : Text} {ws : List Text} (h : ∀ v ∈ w :: ws, (word v).Proper) :
    Plain categories (fun _ => True) (fun _ => True) (w :: ws) (categoryTexts (w :: ws)) := by
  cases ws with
  | nil =>
    have hp := h w (by simp)
    refine ⟨_, PlainPieces.token hp rfl, trivial, fun ds _ => ?_⟩
    refine Run.answer (run_atToken _ _) ?_
    exact (run_identifier (Single.token hp) .category ds).bind_pure fun w => [w]
  | cons v ws =>
    have hwords : Plain (commaSeparated (identifier .category)) (fun _ => True)
        (fun t => True ∧ t ≠ .comma) (w, v :: ws) (Text.joinWith ", " ((w :: v :: ws).map id)) :=
      plain_commaSeparated (fun x hx =>
        (plain_identifier (h x hx) .category).mono (fun _ _ => trivial) fun _ => id) trivial
    rw [List.map_id] at hwords
    obtain ⟨vs, hvs, -, hrun⟩ := hwords
    have hfeeds := hvs.feeds
    have ho := Single.mark .openParen rfl
    have hc := Single.mark .closeParen rfl
    refine ⟨[Piece.openParen] ++ (vs ++ [Piece.closeParen]),
      ⟨?_, ?_, ?_, ?_, ?_, by simp⟩, trivial, fun ds _ => ?_⟩
    · simp [categoryTexts, hvs.spell, spelling]
    · have hcl := hvs.closed.append (closed_mark .closeParen rfl)
        (clean_cons (c := ')') (by decide) [])
      exact fun r hr => ⟨rfl, hcl r hr⟩
    · simp [hvs.literals, literals_token, literal?]
    · simpa [categoryTexts] using hfeeds
    · exact (tight_mark .openParen rfl).append (tight_mark .closeParen rfl) (by simp)
        (by simp) vs
    · refine run_ifToken ho ?_
      exact (hrun _ ⟨trivial, by rw [hc.inView_append]; simp⟩).upTo hc _ fun r => r.1 :: r.2

theorem reads_categories : Reads categories fun us cs _ => literals us = [] ∧
    Plain categories (fun _ => True) (fun _ => True) cs (categoryTexts cs) := by
  have hword : Reads (identifier .category) fun us w _ => literals us = [] ∧ (word w).Proper :=
    (reads_identifier _).mono fun us w _ h => ⟨h.literals, h.proper⟩
  refine (Reads.ifToken (by simp) ((reads_plainList hword).bind fun r =>
    (reads_expect (by simp) .categoriesClose).bind fun _ => Reads.pure (r.1 :: r.2))
    ((reads_identifier _).bind fun w => Reads.pure [w])).mono ?_
  rintro _ _ ds (⟨os, _, rfl, ho, us, ⟨w, ws⟩, _, rfl, ⟨hlit, hws⟩, es, _, _, rfl, hes, rfl, rfl⟩ |
    ⟨-, us, w, _, rfl, hw, rfl, rfl⟩)
  · exact ⟨by simp [ho.literals, hes.literals, hlit, literal?], plain_categories hws⟩
  · exact ⟨by simp [hw.literals, literal?], plain_categories (by simpa using hw.proper)⟩

theorem reads_categoryCondition : Reads categoryCondition fun us c _ => literals us = [] ∧
    Plain categoryCondition (fun _ => True) (fun _ => True) c c.text := by
  refine ((reads_identifier _).bind fun group => (reads_expectKeywordOf _).bind fun selector =>
    reads_categories.bind fun categories => Reads.pure
      ({ group, selector, categories } : CategoryCondition)).mono ?_
  rintro us c ds ⟨us, group, _, rfl, hg, ss, selector, _, rfl, ⟨w, hs⟩, cs, categories, _, rfl,
    ⟨hlit, hplain⟩, rfl, rfl⟩
  refine ⟨by simp [hg.literals, hs.literals, hlit, literal?], ?_⟩
  have hkw : isPlainWord (Keyword.spelling selector) = true ∧
      Keyword.ofWord? (Keyword.spelling selector) = some selector := by
    cases selector <;> exact ⟨by decide, by decide⟩
  have hcond : Plain categoryCondition (· = .word group) (fun _ => True)
      { group, selector, categories } _ :=
    (plain_identifier hg.proper _).bind ((plain_keywordOf hkw.1 hkw.2 _).bind (hplain.map _)
      fun _ _ => trivial) fun _ _ => trivial
  have htext : CategoryCondition.text { group, selector, categories } = group ++ " " ++
      (Keyword.spelling selector ++ " " ++ categoryTexts categories) := by
    simp only [CategoryCondition.text, categoryTexts, List.append_assoc]
  rw [htext]
  exact hcond.mono (fun _ _ => trivial) fun _ => id

theorem plain_securityEnforced :
    Plain withClause (fun _ => True) (fun _ => True) .securityEnforced "SECURITY_ENFORCED" := by
  have hw : isPlainWord "SECURITY_ENFORCED" = true := by decide
  refine ⟨_, PlainPieces.token (proper_of_isPlainWord hw) rfl, trivial, fun ds _ => ?_⟩
  rw [← List.append_nil [Piece.token _ _]]
  exact (run_eatKeyword (isKeyword_keyword _ hw) ([] ++ ds)).bind (Run.pure _ ds)

/-- The conditions after `WITH DATA CATEGORY`. -/
theorem plain_dataCategory {c : CategoryCondition} {cs : List CategoryCondition}
    (h : ∀ d ∈ c :: cs, Plain categoryCondition (fun _ => True) (fun _ => True) d d.text) :
    Plain withClause (fun _ => True) (fun t => t.isKeyword "AND" = false) (.categories (c :: cs))
      ("DATA CATEGORY " ++ categoriesText (c :: cs)) := by
  obtain ⟨vs, hvs, -, hrun⟩ := h c (by simp)
  obtain ⟨ws, hws, -, hrun'⟩ := exists_trail (by decide : isPlainWord "AND" = true)
    (fun d (hd : d ∈ cs) => h d (by simp [hd])) trivial
  have hd : isPlainWord "DATA" = true := by decide
  have hc : isPlainWord "CATEGORY" = true := by decide
  have hwords := (PlainPieces.token (proper_of_isPlainWord hd) rfl).join
    (PlainPieces.token (proper_of_isPlainWord hc) rfl)
  have hpieces := hwords.join (hvs.trail hws)
  have htext : "DATA CATEGORY " ++ categoriesText (c :: cs) = "DATA" ++ " " ++ "CATEGORY" ++ " " ++
      (c.text ++ cs.flatMap fun d => ' ' :: ("AND" ++ " " ++ d.text)) := by
    rw [categoriesText, List.map_cons, joinWith_cons, List.flatMap_map]
    rfl
  rw [htext]
  refine ⟨_, hpieces, trivial, fun ds hds => ?_⟩
  have hsec : (inView ([Piece.keyword "DATA" hd] ++
      ([Piece.space] ++ [Piece.keyword "CATEGORY" hc]) ++
      ([Piece.space] ++ (vs ++ ws)) ++ ds)).isKeyword "SECURITY_ENFORCED" = false := by
    simp only [List.cons_append, inView_keyword]
    decide
  refine Run.answer (run_eatKeyword_false hsec) ?_
  rw [List.append_assoc]
  refine (run_eatKeyword (isKeyword_keyword "DATA" hd) _).bind ?_
  rw [List.append_assoc]
  refine Run.blank_append blank_space ((run_expectKeyword (isKeyword_keyword _ hc) _).bind ?_)
  refine Run.blank_append blank_space ((hrun _ trivial).bind ?_)
  exact (hrun' ds trivial hds).bind_pure fun cs => WithClause.categories (c :: cs)

/-- What is known of a clause that starts with `WITH`. -/
def PlainWith : WithClause → Prop
  | .securityEnforced => True
  | .categories cs => cs ≠ [] ∧
      ∀ c ∈ cs, Plain categoryCondition (fun _ => True) (fun _ => True) c c.text

theorem reads_withClause : Reads withClause fun us w _ => literals us = [] ∧ PlainWith w := by
  refine ((reads_eatKeyword "SECURITY_ENFORCED").bind (R := fun b us w _ => literals us = [] ∧
    PlainWith w) ?_).mono ?_
  · intro b
    cases b with
    | true =>
      refine (Reads.pure _).mono ?_
      rintro us w ds ⟨rfl, rfl⟩
      exact ⟨rfl, trivial⟩
    | false =>
      refine ((reads_eatKeyword "DATA").bind (R := fun b us w _ => literals us = [] ∧
        PlainWith w) ?_).mono ?_
      · intro b
        cases b with
        | false => exact Reads.fail _
        | true =>
          refine ((reads_expectKeyword "CATEGORY").bind fun _ =>
            reads_categoryCondition.bind fun c =>
            (reads_manyAfterKeyword reads_categoryCondition "AND").bind fun cs =>
              Reads.pure (WithClause.categories (c :: cs))).mono ?_
          rintro us w ds ⟨us, _, _, rfl, hk, vs, c, _, rfl, hc, ws, cs, _, rfl, ⟨hl, -, hcs⟩,
            rfl, rfl⟩
          refine ⟨by simp [hk.literals, hc.1, hl], by simp, ?_⟩
          simpa using ⟨hc.2, hcs⟩
      · rintro us w ds ⟨us, b, vs, rfl, hb, h⟩
        rcases hb with ⟨-, hb⟩ | ⟨-, rfl, -⟩
        · exact ⟨by simp [hb.literals, h.1], h.2⟩
        · simpa using h
  · rintro us w ds ⟨us, b, vs, rfl, hb, h⟩
    rcases hb with ⟨-, hb⟩ | ⟨-, rfl, -⟩
    · exact ⟨by simp [hb.literals, h.1], h.2⟩
    · simpa using h

end Parser

end Soql
