/-
  Clauses one after another, read and read back.

  A query that was read is written with its clauses in a fixed order.  What
  follows a clause is the keyword of a later one, or the end of the query.

  * `Next e t us later`: what may follow a clause.
  * `ReadsClause`: a clause that was read is read back.
  * `ReadsClause.seq`: and so are two clauses after one another.
  * `readsClause_afterKeyword`: a keyword and what stands after it.
  * `exists_laidRow`: lists under a layout.
-/
import Mathlib
import Soql.Proofs.Parse.Filters
import Soql.Proofs.Parse.Plain

namespace Soql

open Unicode Token Soql.Parser

/-- What may follow a query. -/
def IsEnd (t : Token) : Prop := t = .closeParen ∨ t = .finish

/-- What may follow a clause that was read from `us` before the token `t`, in a query before the
    token `e`: the end only if it did so, or if there is no clause at all. -/
def Next (e t : Token) (us : List Piece) (later : List Text) (u : Token) : Prop :=
  (u = e ∧ (us = [] ∨ t = e)) ∨ ∃ w ∈ later, u = .word w

theorem IsEnd.isKeyword {e : Token} (h : IsEnd e) (kw : Text) : e.isKeyword kw = false := by
  rcases h with rfl | rfl <;> rfl

theorem Next.isKeyword {e t u : Token} {us : List Piece} {later : List Text} (he : IsEnd e)
    (h : Next e t us later u) {kw : Text} (hkw : ∀ w ∈ later, Text.sameWord w kw = false) :
    u.isKeyword kw = false := by
  rcases h with ⟨rfl, -⟩ | ⟨w, hw, rfl⟩
  · exact he.isKeyword kw
  · exact hkw w hw

/-- The pieces of clauses that were read from `us`: none, or a keyword first. -/
def ClausePieces (K : List Text) (us vs : List Piece) : Prop :=
  Clean (spell vs) ∧ ((vs = [] ∧ us = []) ∨ ∃ w ∈ K, inView vs = .word w)

theorem ClausePieces.inView_append {K : List Text} {us vs : List Piece}
    (h : ClausePieces K us vs) (i : Nat) (ds : List Piece) :
    (vs = [] ∧ us = [] ∧ inView (indentAll i vs ++ ds) = inView ds) ∨
      ∃ w ∈ K, inView (indentAll i vs ++ ds) = .word w := by
  rcases h.2 with ⟨rfl, rfl⟩ | ⟨w, hw, hv⟩
  · exact Or.inl ⟨rfl, rfl, rfl⟩
  · refine Or.inr ⟨w, hw, ?_⟩
    rw [inView_indentAll_append (by simp [hv]), hv]
    rfl

theorem ClausePieces.inView_indentAll {K : List Text} {us vs : List Piece}
    (h : ClausePieces K us vs) (i : Nat) :
    (vs = [] ∧ us = []) ∨ ∃ w ∈ K, inView (indentAll i vs) = .word w := by
  rcases h.inView_append i [] with ⟨hv, hu, -⟩ | ⟨w, hw, hv⟩
  · exact Or.inl ⟨hv, hu⟩
  · exact Or.inr ⟨w, hw, by rwa [List.append_nil] at hv⟩

theorem ClausePieces.append {K K' : List Text} {us us' vs vs' : List Piece}
    (h : ClausePieces K us vs) (h' : ClausePieces K' us' vs') :
    ClausePieces (K ++ K') (us ++ us') (vs ++ vs') := by
  obtain ⟨hc, ⟨rfl, rfl⟩ | ⟨w, hw, hv⟩⟩ := h
  · refine ⟨h'.1, h'.2.imp_right fun ⟨w, hw, hv⟩ => ⟨w, by simp [hw], hv⟩⟩
  · refine ⟨?_, Or.inr ⟨w, by simp [hw], ?_⟩⟩
    · rw [spell_append]
      cases hs : spell vs with
      | nil => exact h'.1
      | cons c t => exact clean_cons (hc c (by simp [hs])) _
    · rw [Soql.inView_append (by simp [hv]), hv]

theorem Next.of_append {e t u : Token} {us ws : List Piece} {later : List Text}
    (h : Next e t (us ++ ws) later u) : Next e t ws later u :=
  h.imp_left fun ⟨hu, hor⟩ => ⟨hu, hor.imp_left fun h => (List.append_eq_nil_iff.1 h).2⟩

/-- What may follow where there is no clause. -/
theorem Next.of_nil {e t u : Token} {us : List Piece} {later later' : List Text}
    (h : Next e t us later u) (hl : ∀ w ∈ later, w ∈ later') (t' : Token) :
    Next e t' [] later' u := by
  rcases h with ⟨hu, -⟩ | ⟨w, hw, hu⟩
  · exact Or.inl ⟨hu, Or.inl rfl⟩
  · exact Or.inr ⟨w, hl w hw, hu⟩

/-- What follows a clause that another one follows. -/
theorem ClausePieces.next {e : Token} {K later : List Text} {us ws vs ds ds' : List Piece}
    (h : ClausePieces K ws vs) (i : Nat) (hds : Next e (inView ds) (us ++ ws) later (inView ds')) :
    Next e (inView (ws ++ ds)) us (K ++ later) (inView (indentAll i vs ++ ds')) := by
  rcases h.inView_append i ds' with ⟨rfl, rfl, heq⟩ | ⟨w, hw, heq⟩
  · rw [heq]
    rcases hds with ⟨hu, hor⟩ | ⟨w, hw, hu⟩
    · exact Or.inl ⟨hu, by simpa using hor⟩
    · exact Or.inr ⟨w, by simp [hw], hu⟩
  · exact Or.inr ⟨w, by simp [hw], heq⟩

namespace Parser

variable {α β : Type}

/-- A clause that was read from `us` before the token `t` is read back. -/
structure ClausePhrase (f : Nat → Nat → Parser α) (K later : List Text) (e : Token)
    (us : List Piece) (t : Token) (R : α → Prop) (ps : List (Nat × Part)) (text : Layout → Text) :
    Prop where
  literals : literals us = stringsAt 0 ps
  feeds : Feeds ps
  laid : Laid f (Next e t us later) R ps (ClausePieces K us) text

/-- Clauses with the keywords `K` are read back, where those that may follow have the keywords
    `later`. -/
def ReadsClause (f₀ : Parser α) (f : Nat → Nat → Parser α) (K later : List Text)
    (same : α → α → Prop) (parts : α → List (Nat × Part)) (text : α → Layout → Text) : Prop :=
  Reads f₀ fun us a ds => ∀ e, IsEnd e →
    ClausePhrase f K later e us (inView ds) (same · a) (parts a) (text a)

section Seq

variable {f : Nat → Nat → Parser α} {g : Nat → Nat → Parser β} {K J later : List Text} {e : Token}
  {us ws ds : List Piece} {R : α → Prop} {R' : β → Prop} {ps qs : List (Nat × Part)}
  {text text' : Layout → Text}

theorem ClausePhrase.seq
    (ha : ClausePhrase f K (J ++ later) e us (inView (ws ++ ds)) R ps text)
    (hb : ClausePhrase g J later e ws (inView ds) R' qs text') :
    ClausePhrase (fun m n => both (f m n) (g m n)) (K ++ J) later e (us ++ ws) (inView ds)
      (fun r => R r.1 ∧ R' r.2) (ps ++ qs) fun l => text l ++ text' l := by
  refine ⟨by simp [ha.literals, hb.literals], feeds_append.2 ⟨ha.feeds, hb.feeds⟩, ?_⟩
  have hb' := hb.laid.mono (G := Next e (inView ds) (us ++ ws) later) (fun _ => Next.of_append)
    (fun _ => id) fun _ => id
  refine (ha.laid.seq hb' (fun vs hv => hv.1) fun vs hv i ds' hds' => hv.next i hds').mono
    (fun _ => id) (fun _ => id) ?_
  rintro _ ⟨vs, vs', rfl, hv, hv'⟩
  exact hv.append hv'

variable {f₀ : Parser α} {g₀ : Parser β} {same : α → α → Prop} {same' : β → β → Prop}
  {parts : α → List (Nat × Part)} {parts' : β → List (Nat × Part)}
  {texts : α → Layout → Text} {texts' : β → Layout → Text}

/-- **Clauses one after another are read back.** -/
theorem ReadsClause.seq (hf : ReadsClause f₀ f K (J ++ later) same parts texts)
    (hg : ReadsClause g₀ g J later same' parts' texts') :
    ReadsClause (both f₀ g₀) (fun m n => both (f m n) (g m n)) (K ++ J) later
      (fun x y => same x.1 y.1 ∧ same' x.2 y.2)
      (fun x => parts x.1 ++ parts' x.2) fun x l => texts x.1 l ++ texts' x.2 l := by
  refine (hf.bind fun a => hg.bind fun b => Reads.pure (a, b)).mono ?_
  rintro us x ds ⟨us, a, _, rfl, ha, ws, b, _, rfl, hb, rfl, rfl⟩ e he
  simp only [List.append_nil] at *
  exact (ha e he).seq (hb e he)

/-- Clauses that are read by a parser with another form of the result. -/
theorem ReadsClause.imp (h : ReadsClause f₀ f K later same parts texts) (t : α → β) {P : α → Prop}
    (h₀ : ∀ c b c', g₀ c = .ok b c' → ∃ a, f₀ c = .ok a c' ∧ P a ∧ b = t a)
    (hsame : ∀ a a', P a → same a' a → same' (t a') (t a) ∧
      ∀ m n us ds, Run (f m n) us a' ds → Run (g m n) us (t a') ds)
    (heq : ∀ a a', P a → same a' a → parts' (t a) = parts a ∧
      ∀ l k, l.Spaced k → texts' (t a) l = texts a l) :
    ReadsClause g₀ g K later same' parts' texts' := by
  intro E T ps c b c' hc hb
  obtain ⟨a, ha, hP, rfl⟩ := h₀ c b c' hb
  obtain ⟨us, ds, rfl, hds, hclause⟩ := h hc ha
  refine ⟨us, ds, rfl, hds, fun e he => ?_⟩
  obtain ⟨hlit, hfeeds, hlaid⟩ := hclause e he
  obtain ⟨a', ha'⟩ := hlaid.exists
  obtain ⟨hparts, htext⟩ := heq a a' hP ha'
  rw [← hparts] at hlit hfeeds hlaid
  refine ⟨hlit, hfeeds, (hlaid.imp t (fun m n us x ds hx => ?_) fun x hx => ?_).congr
    fun l k hl => (htext l k hl).symm⟩
  · exact (hsame a x hP hx).2 m n us ds
  · exact (hsame a x hP hx).1

end Seq

/-! ## Keywords and what stands after them -/

/-- The text of a clause. -/
def clauseText (l : Layout) (keyword content : Text) : Text :=
  l.clause keyword ++ if content.isEmpty then [] else ' ' :: content

/-- The pieces of a clause: a blank, the keyword, another blank and what stands after it. -/
theorem Laid.clause {f : Nat → Nat → Parser α} {g : Nat → Nat → Parser β} {F : Token → Prop}
    {R : α → Prop} {ps : List (Nat × Part)} {text : Layout → Text} {kw : Text} {w : Text}
    {ks : List Piece} (hk : PlainPieces kw ks) (hw : inView ks = .word w) {t : α → β}
    (hrun : ∀ m n vs a ds, Run (f m n) vs a ds → Run (g m n) (ks ++ ([Piece.space] ++ vs)) (t a) ds)
    (h : Laid f F R ps (fun vs => vs ≠ [] ∧ Tight vs) text) :
    Laid g F (fun b => ∃ a, R a ∧ b = t a) ps
      (fun vs => Clean (spell vs) ∧ inView vs = .word w) fun l => clauseText l kw (text l) := by
  intro l k hl
  obtain ⟨vs, hsp, hcl, hlit, ⟨hne, htight⟩, hrun'⟩ := h l k hl
  obtain ⟨c, hc, hclause⟩ := hl.clause
  refine ⟨.blank c hc :: (ks ++ ([Piece.space] ++ vs)), ?_, ?_, ?_, ⟨?_, ?_⟩, fun i hi => ?_⟩
  · have hink := htight.endsInk hne
    rw [hsp] at hink
    have : (text l).isEmpty = false := by
      obtain ⟨u, d, hu, -⟩ := hink
      rw [hu]
      simp
    simp [clauseText, hclause, this, hk.spell, hsp]
  · exact hk.closed.append (closed_space hcl) (clean_cons (c := ' ') (by decide) _)
  · simp [hk.literals, hlit]
  · exact clean_cons (isBreak_of_isBlank hc) _
  · rw [inView_blank, inView_append hk.inView_ne_finish, hw]
  · obtain ⟨a, ha, hrun'⟩ := hrun' i hi
    refine ⟨t a, ⟨a, ha, rfl⟩, fun m n hm hn ds hds => ?_⟩
    simp only [count_blank, count_append, count_space, count_nil] at hm hn
    have hspace : indentAll i [Piece.space] = [Piece.space] := rfl
    rw [← List.singleton_append, indentAll_append, indentAll_append, indentAll_append,
      hk.indentAll_eq, hspace]
    have hblank : Blank [.blank c hc] := by simp [Blank]
    exact (hrun m n _ a ds (hrun' m n (by omega) (by omega) ds hds)).blank_append
      (hblank.indentAll i)

theorem Laid.none {f : Nat → Nat → Parser α} {F : Token → Prop} {R : α → Prop} {K : List Text}
    {a : α} (ha : R a) (hrun : ∀ m n ds, F (inView ds) → Run (f m n) [] a ds) :
    Laid f F R [] (ClausePieces K []) fun _ => [] := by
  intro l k _
  refine ⟨[], rfl, blank_nil.closed, rfl, ⟨by simp [Clean], Or.inl ⟨rfl, rfl⟩⟩,
    fun i _ => ⟨a, ha, fun m n _ _ ds hds => hrun m n ds hds⟩⟩

/-- What is known of what stands after the keyword of a clause. -/
structure ContentPhrase (f : Nat → Nat → Parser α) (later : List Text) (us : List Piece)
    (t : Token) (R : α → Prop) (ps : List (Nat × Part)) (text : Layout → Text) : Prop where
  literals : literals us = stringsAt 0 ps
  feeds : Feeds ps
  laid : ∀ e, IsEnd e → Laid f (fun u => (u = e ∧ t = e) ∨ ∃ w ∈ later, u = .word w) R ps
    (fun vs => vs ≠ [] ∧ Tight vs) text

theorem ContentPhrase.mono {f : Nat → Nat → Parser α} {later : List Text}
    {us : List Piece} {t : Token} {R R' : α → Prop} {ps : List (Nat × Part)} {text : Layout → Text}
    (h : ContentPhrase f later us t R ps text) (hR : ∀ a, R a → R' a) :
    ContentPhrase f later us t R' ps text :=
  ⟨h.literals, h.feeds, fun e he => (h.laid e he).mono (fun _ => id) hR fun _ => id⟩

theorem ContentPhrase.phrase {f : Parser α} {F : Token → Prop} {us vs : List Piece}
    {a : α} {p : Part} {later : List Text} {t : Token} (h : Phrase f F p.callTexts us a vs)
    (hv : spell vs = p.text)
    (hF : ∀ e, IsEnd e → ∀ u, (u = e ∧ t = e) ∨ (∃ w ∈ later, u = .word w) → F u) :
    ContentPhrase (fun _ _ => f) later us t (· = a) [(0, p)] fun _ => p.text := by
  refine ⟨?_, h.feeds_part hv, fun e he => ?_⟩
  · rw [h.literals_eq, hv, stringsAt_top]
  · exact (Phrase.laid (fun _ => h) hv).mono (hF e he) (fun _ => id) fun ws hws =>
      ⟨ne_nil_of_inView (hws.ne_finish h.starts), hws.2⟩

/-- **A clause is read back if what stands after its keyword is.** -/
theorem readsClause_afterKeyword {item₀ : Parser α} {item inner : Nat → Nat → Parser α}
    {kw w : Text} {ks : List Piece} {later : List Text} {same : α → α → Prop}
    {parts : α → List (Nat × Part)} {text : α → Layout → Text} (hk : PlainPieces kw ks)
    (hw : inView ks = .word w) (hlater : ∀ v ∈ later, Text.sameWord v w = false)
    (hrun : ∀ m n vs a ds, Run (inner m n) vs a ds →
      Run (afterKeyword w (item m n)) (ks ++ ([Piece.space] ++ vs)) (some a) ds)
    (h : Reads item₀ fun us a ds =>
      ContentPhrase inner later us (inView ds) (same · a) (parts a) (text a)) :
    ReadsClause (afterKeyword w item₀) (fun m n => afterKeyword w (item m n)) [w] later
      (Option.Rel same) (fun o => o.toList.flatMap parts)
      fun o l => o.elim [] fun a => clauseText l kw (text a l) := by
  refine h.afterKeyword.mono ?_
  rintro us o ds (⟨rfl, rfl, -⟩ | ⟨a, vs, ws, rfl, rfl, hv, hc⟩) e he
  · refine ⟨rfl, feeds_nil, Laid.none .none fun m n ds hds => ?_⟩
    exact run_afterKeyword_none (hds.isKeyword he hlater)
  · have hne : vs ++ ws ≠ [] := by
      obtain ⟨v, hs, -⟩ := hv
      exact ne_nil_of_inView (by simp [hs.inView_append])
    refine ⟨?_, by simpa using hc.feeds, ?_⟩
    · simp [hv.literals, hc.literals]
    · have := (hc.laid e he).clause (g := fun m n => afterKeyword w (item m n)) hk hw hrun
      simp only [Option.toList_some, List.flatMap_cons, List.flatMap_nil, List.append_nil]
      refine this.mono (fun u hu => hu.imp_left fun h => ⟨h.1, h.2.resolve_left hne⟩) ?_ ?_
      · rintro _ ⟨b, hb, rfl⟩
        exact .some hb
      · rintro zs ⟨hclean, hview⟩
        exact ⟨hclean, Or.inr ⟨w, by simp, hview⟩⟩

section Words

variable {item₀ : Parser α} {item : Nat → Nat → Parser α} {w v : Text} {L : List Text}
  {same : α → α → Prop} {parts : α → List (Nat × Part)} {text : α → Layout → Text}

/-- A clause with one keyword. -/
theorem readsClause_word (hw : isPlainWord w = true)
    (hlater : ∀ v ∈ L, Text.sameWord v w = false)
    (h : Reads item₀ fun us a ds =>
      ContentPhrase item L us (inView ds) (same · a) (parts a) (text a)) :
    ReadsClause (afterKeyword w item₀) (fun m n => afterKeyword w (item m n)) [w] L
      (Option.Rel same) (fun o => o.toList.flatMap parts)
      fun o l => o.elim [] fun a => clauseText l w (text a l) := by
  refine readsClause_afterKeyword (PlainPieces.token (proper_of_isPlainWord hw) rfl) rfl hlater
    (fun m n vs a ds hrun => ?_) h
  exact run_afterKeyword (isKeyword_keyword w hw) (hrun.blank_append blank_space)

/-- A clause with two keywords. -/
theorem readsClause_words (hw : isPlainWord w = true) (hv : isPlainWord v = true)
    (hlater : ∀ v ∈ L, Text.sameWord v w = false)
    (h : Reads item₀ fun us a ds =>
      ContentPhrase item L us (inView ds) (same · a) (parts a) (text a)) :
    ReadsClause (afterKeyword w (expectKeyword v >>= fun _ => item₀))
      (fun m n => afterKeyword w (expectKeyword v >>= fun _ => item m n)) [w] L
      (Option.Rel same) (fun o => o.toList.flatMap parts)
      fun o l => o.elim [] fun a => clauseText l (w ++ " " ++ v) (text a l) := by
  have hks := (PlainPieces.token (proper_of_isPlainWord hw) rfl).join
    (PlainPieces.token (proper_of_isPlainWord hv) rfl)
  have hrun : ∀ m n vs a ds, Run (item m n) vs a ds →
      Run (afterKeyword w (expectKeyword v >>= fun _ => item m n))
        (([Piece.token (.word w) (proper_of_isPlainWord hw)] ++ ([Piece.space] ++
          [Piece.token (.word v) (proper_of_isPlainWord hv)])) ++ ([Piece.space] ++ vs))
        (some a) ds := by
    intro m n vs a ds hrun
    rw [List.append_assoc]
    refine run_afterKeyword (isKeyword_keyword w hw) ?_
    rw [List.append_assoc]
    refine Run.blank_append blank_space ((run_expectKeyword (isKeyword_keyword v hv) _).bind ?_)
    exact hrun.blank_append blank_space
  refine readsClause_afterKeyword hks rfl hlater hrun
    (((reads_expectKeyword v).bind fun _ => h).mono ?_)
  rintro us a ds ⟨ks, _, ws, rfl, hk, hc⟩
  exact ⟨by rw [literals_append, hk.literals, hc.literals]; rfl, hc.feeds, hc.laid⟩

end Words

/-! ## Clauses without string literals -/

theorem ContentPhrase.plain {f : Parser α} {S F : Token → Prop} {a : α} {t : Text} {u : Token}
    {later : List Text} {us : List Piece} (hl : Soql.literals us = []) (h : Plain f S F a t)
    (hF : ∀ e, IsEnd e → ∀ v, (v = e ∧ u = e) ∨ (∃ w ∈ later, v = .word w) → F v) :
    ContentPhrase (fun _ _ => f) later us u (· = a) [] fun _ => t :=
  ⟨hl, feeds_nil, fun e he => h.laid.mono (hF e he) (fun _ => id) fun _ hv => ⟨hv.1, hv.2.1⟩⟩

theorem reads_rowCount_content (clause : Text) (later : List Text) :
    Reads (rowCount clause) fun us n ds => ContentPhrase (fun _ _ => rowCount clause) later us
      (inView ds) (· = n) [] fun _ => Compose.rowCount n := by
  refine (reads_rowCount clause).mono fun us n ds hl => ?_
  have hplain : Plain (rowCount clause) (fun _ => True) (fun _ => True) n (Compose.rowCount n) :=
    ⟨_, PlainPieces.token (proper_decimal n.toNat) rfl, trivial,
      fun ds _ => run_rowCount clause n ds⟩
  exact .plain hl hplain fun _ _ _ _ => trivial

theorem reads_keywordOf_content {κ : Type} [Keyword κ] (e : Expectation) (later : List Text)
    (h : ∀ a : κ, isPlainWord (Keyword.spelling a) = true ∧
      Keyword.ofWord? (Keyword.spelling a) = some a) :
    Reads (expectKeywordOf e : Parser κ) fun us a ds => ContentPhrase (fun _ _ => expectKeywordOf e)
      later us (inView ds) (· = a) [] fun _ => Keyword.spelling a := by
  refine (reads_expectKeywordOf e).mono ?_
  rintro us a ds ⟨w, hs⟩
  exact .plain hs.literals (plain_keywordOf (h a).1 (h a).2 e) fun _ _ _ _ => trivial

/-! ## Filters -/

theorem follows_next {e t u : Token} {later : List Text} {depth : Nat} (he : IsEnd e)
    (hlater : ∀ w ∈ later, Text.sameWord w "AND" = false ∧ Text.sameWord w "OR" = false)
    (ht : Follows none depth t) (h : (u = e ∧ t = e) ∨ ∃ w ∈ later, u = .word w) :
    Follows none depth u ∧ u ≠ .colon := by
  rcases h with ⟨rfl, rfl⟩ | ⟨w, hw, rfl⟩
  · refine ⟨ht, ?_⟩
    rcases he with rfl | rfl <;> simp
  · exact ⟨⟨(hlater w hw).1, (hlater w hw).2, by simp⟩, by simp⟩

section Filters

variable {later : List Text}
  (hlater : ∀ w ∈ later, Text.sameWord w "AND" = false ∧ Text.sameWord w "OR" = false)

include hlater

theorem reads_filter_content {nested : Parser Query} (hn : ReadsQuery nested false) :
    Reads (filter nested) fun us chain ds => ContentPhrase
      (fun m _ => filter (selectUpTo m false)) later us (inView ds)
      (fun c => Condition.forgetFilter (some c) = Condition.forgetFilter (some chain))
      (Condition.partsFilter (some chain)) fun l => (Compose.filter l chain).value := by
  refine (reads_filter hn).mono fun us chain ds h => ?_
  obtain ⟨depth, hf, hlaid⟩ := h.laid
  exact ⟨h.literals, h.feeds, fun e he =>
    hlaid.mono (fun u hu => follows_next he hlater hf hu) (fun _ => id) fun _ => id⟩

theorem reads_groupFilter_content :
    Reads groupFilter fun us chain ds => ContentPhrase (fun _ _ => groupFilter) later us
      (inView ds) (· = chain) (chain.links.flatMap havingKind.linkParts)
      fun l => (Compose.groupFilter l chain).value := by
  refine reads_groupFilter.mono fun us chain ds h => ?_
  obtain ⟨depth, hf, hlaid⟩ := h.laid
  exact ⟨h.literals, h.feeds, fun e he =>
    hlaid.mono (fun u hu => follows_next he hlater hf hu) (fun _ => id) fun _ => id⟩

end Filters

end Parser

end Soql
