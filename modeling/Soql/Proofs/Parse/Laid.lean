/-
  Texts laid out and read back.

  What is composed of a part of a query depends on the layout.  Whatever
  layout is used, the text is made of pieces that are read as that part again,
  also after it was indented as the inside of another query.

  * `MayIndent n k ps`: indentation by `n` tabs keeps parts that stand in a
    text with `k` tabs for each level.
  * `ReadBack f F R k ps vs`: the pieces `vs` are read back by `f`, indented or
    not.
  * `Laid f F R ps S text`: the texts `text` are read back by `f`.
  * `Phrase.laid`: phrases that hold no query.
  * `QueryPhrase`, `QueryPhrase.subquery`: queries, and queries between
    parentheses.
-/
import Mathlib
import Soql.Parse.Query
import Soql.Proofs.Layout.Spaced
import Soql.Proofs.Parse.Values
import Soql.Proofs.Query.Parts

namespace Soql

open Unicode Token Soql.Parser

/-- Indentation by `n` tabs leaves the parts as they are, in a text with `k` tabs for each level. -/
def MayIndent (n k : Nat) (ps : List (Nat × Part)) : Prop := (n = 0 ∧ k = 0) ∨ OneLine ps

namespace MayIndent

variable {n k : Nat} {ps qs : List (Nat × Part)}

theorem left (h : MayIndent n k (ps ++ qs)) : MayIndent n k ps :=
  h.imp_right fun h => (oneLine_append.1 h).1

theorem right (h : MayIndent n k (ps ++ qs)) : MayIndent n k qs :=
  h.imp_right fun h => (oneLine_append.1 h).2

theorem deeper {level : Nat} (h : MayIndent n k (deeper level ps)) :
    MayIndent (n + k * level) k ps := by
  rcases h with ⟨rfl, rfl⟩ | h
  · exact Or.inl ⟨by simp, rfl⟩
  · exact Or.inr (oneLine_deeper.1 h)

/-- A part on its own stays the same. -/
theorem indentAll_eq {p : Part} (h : MayIndent n k [(0, p)]) {vs : List Piece}
    (hv : spell vs = p.text) : indentAll n vs = vs := by
  rcases h with ⟨rfl, -⟩ | h
  · exact indentAll_zero vs
  · refine indentAll_of_not_mem ?_ n
    rw [hv]
    exact h (0, p) (by simp)

end MayIndent

namespace Parser

variable {α β γ : Type}

/-- The pieces are read by `f` as a value that `R` holds of, wherever `F` holds of the token after
    them, and also after an indentation that keeps the parts `ps`.  The bounds that `f` depends on,
    on nesting and on repetition, have to allow for the number of pieces. -/
def ReadBack (f : Nat → Nat → Parser α) (F : Token → Prop) (R : α → Prop) (k : Nat)
    (ps : List (Nat × Part)) (vs : List Piece) : Prop :=
  ∀ i, MayIndent i k ps → ∃ a, R a ∧ ∀ m n, count vs ≤ m → count vs ≤ n → ∀ ds,
    F (inView ds) → Run (f m n) (indentAll i vs) a ds

/-- Under every layout the text is made of pieces that `S` holds of and that are read back. -/
def Laid (f : Nat → Nat → Parser α) (F : Token → Prop) (R : α → Prop) (ps : List (Nat × Part))
    (S : List Piece → Prop) (text : Layout → Text) : Prop :=
  ∀ l k, l.Spaced k → ∃ vs, spell vs = text l ∧ Closed vs ∧ literals vs = stringsAt k ps ∧
    S vs ∧ ReadBack f F R k ps vs

section Laid

variable {f : Nat → Nat → Parser α} {g : Nat → Nat → Parser β} {F G : Token → Prop}
  {R : α → Prop} {R' : β → Prop} {ps qs : List (Nat × Part)} {S S' : List Piece → Prop}
  {text text' : Layout → Text}

theorem Laid.mono {P : α → Prop} (h : Laid f F R ps S text) (hF : ∀ t, G t → F t)
    (hR : ∀ a, R a → P a) (hS : ∀ vs, S vs → S' vs) : Laid f G P ps S' text := by
  intro l k hl
  obtain ⟨vs, hsp, hcl, hlit, hs, hrun⟩ := h l k hl
  refine ⟨vs, hsp, hcl, hlit, hS vs hs, fun i hi => ?_⟩
  obtain ⟨a, ha, hrun⟩ := hrun i hi
  exact ⟨a, hR a ha, fun m n hm hn ds hds => hrun m n hm hn ds (hF _ hds)⟩

theorem Laid.congr (h : Laid f F R ps S text) (ht : ∀ l k, l.Spaced k → text l = text' l) :
    Laid f F R ps S text' := by
  intro l k hl
  obtain ⟨vs, hsp, rest⟩ := h l k hl
  exact ⟨vs, hsp.trans (ht l k hl), rest⟩

/-- A parser that reads the same pieces, with a result that is made from the other one. -/
theorem Laid.imp (h : Laid f F R ps S text) (t : α → β)
    (hrun : ∀ m n vs a ds, R a → Run (f m n) vs a ds → Run (g m n) vs (t a) ds)
    (hR : ∀ a, R a → R' (t a)) : Laid g F R' ps S text := by
  intro l k hl
  obtain ⟨vs, hsp, hcl, hlit, hs, hrun'⟩ := h l k hl
  refine ⟨vs, hsp, hcl, hlit, hs, fun i hi => ?_⟩
  obtain ⟨a, ha, hrun'⟩ := hrun' i hi
  exact ⟨t a, hR a ha, fun m n hm hn ds hds => hrun m n _ a ds ha (hrun' m n hm hn ds hds)⟩

theorem Laid.map (h : Laid f F R ps S text) (t : α → β) (hR : ∀ a, R a → R' (t a)) :
    Laid (fun m n => f m n >>= fun a => pure (t a)) F R' ps S text :=
  h.imp t (fun _ _ _ _ _ _ hrun => hrun.bind_pure t) hR

/-- There is a value that is read back. -/
theorem Laid.exists (h : Laid f F R ps S text) : ∃ a, R a := by
  obtain ⟨vs, -, -, -, -, hrun⟩ := h .plain 0 spaced_plain
  obtain ⟨a, ha, -⟩ := hrun 0 (Or.inl ⟨rfl, rfl⟩)
  exact ⟨a, ha⟩

/-- One value after another. -/
def both (f : Parser α) (g : Parser β) : Parser (α × β) := do
  let a ← f
  let b ← g
  return (a, b)

theorem Run.both {f : Parser α} {g : Parser β} {us vs ds : List Piece} {a : α} {b : β}
    (hf : Run f us a (vs ++ ds)) (hg : Run g vs b ds) :
    Run (Parser.both f g) (us ++ vs) (a, b) ds :=
  hf.bind (hg.bind_pure fun b => (a, b))

theorem Run.nil_both {f : Parser α} {g : Parser β} {us ds : List Piece} {a : α} {b : β}
    (hf : Run f [] a (us ++ ds)) (hg : Run g us b ds) : Run (Parser.both f g) us (a, b) ds := by
  rw [← List.nil_append us]
  exact hf.both hg

theorem Run.both_nil {f : Parser α} {g : Parser β} {us ds : List Piece} {a : α} {b : β}
    (hf : Run f us a ds) (hg : Run g [] b ds) : Run (Parser.both f g) us (a, b) ds :=
  hf.bind_nil (hg.bind_pure fun b => (a, b))

/-- One text after another, where each starts with what may follow the one before. -/
theorem Laid.seq (h : Laid f F R ps S text) (h' : Laid g G R' qs S' text')
    (hclean : ∀ vs, S' vs → Clean (spell vs))
    (hF : ∀ vs, S' vs → ∀ i ds, G (inView ds) → F (inView (indentAll i vs ++ ds))) :
    Laid (fun m n => both (f m n) (g m n)) G (fun r => R r.1 ∧ R' r.2) (ps ++ qs)
      (fun us => ∃ vs ws, us = vs ++ ws ∧ S vs ∧ S' ws) fun l => text l ++ text' l := by
  intro l k hl
  obtain ⟨vs, hsp, hcl, hlit, hs, hrun⟩ := h l k hl
  obtain ⟨ws, hsp', hcl', hlit', hs', hrun'⟩ := h' l k hl
  refine ⟨vs ++ ws, by rw [spell_append, hsp, hsp'], hcl.append hcl' (hclean ws hs'),
    by rw [literals_append, hlit, hlit', stringsAt_append], ⟨vs, ws, rfl, hs, hs'⟩,
    fun i hi => ?_⟩
  obtain ⟨a, ha, hrun⟩ := hrun i hi.left
  obtain ⟨b, hb, hrun'⟩ := hrun' i hi.right
  refine ⟨(a, b), ⟨ha, hb⟩, fun m n hm hn ds hds => ?_⟩
  rw [count_append] at hm hn
  rw [indentAll_append]
  exact (hrun m n (by omega) (by omega) _ (hF ws hs' i ds hds)).both
    (hrun' m n (by omega) (by omega) ds hds)

/-- A bound that is taken from the lexemes left. -/
theorem Laid.sized (h : Laid f F R ps S text) :
    Laid (fun m _ => do f m ((← get).size + 1)) F R ps S text := by
  intro l k hl
  obtain ⟨vs, hsp, hcl, hlit, hs, hrun⟩ := h l k hl
  refine ⟨vs, hsp, hcl, hlit, hs, fun i hi => ?_⟩
  obtain ⟨a, ha, hrun⟩ := hrun i hi
  refine ⟨a, ha, fun m n hm _ ds hds => Run.get fun c hc => hrun m _ hm ?_ ds hds⟩
  rw [count_append, count_indentAll] at hc
  omega

end Laid

/-! ## Phrases -/

section Phrase

variable {f : Parser α} {F : Token → Prop} {rs : List Text} {us vs : List Piece} {a : α} {p : Part}

theorem Phrase.literals_eq (h : Phrase f F rs us a vs) :
    Soql.literals us = (spell vs).literals := by
  rw [literals_spell h.closed.fits, h.literals]

theorem Phrase.feeds_part (h : Phrase f F p.callTexts us a vs) (hv : spell vs = p.text) :
    Feeds [(0, p)] := by
  refine feeds_single (fun hm => ?_) 0
  rw [← hv] at hm ⊢
  rw [← h.literals_eq]
  exact h.feeds hm

/-- The pieces start as `us` do, and start and end with a token. -/
def Starts (us vs : List Piece) : Prop := inView vs = inView us ∧ Tight vs

theorem Starts.ne_finish (h : Starts us vs) (hu : Soql.inView us ≠ .finish) :
    Soql.inView vs ≠ .finish := h.1 ▸ hu

/-- A phrase that is a part of a query. -/
theorem Phrase.laid {f : Nat → Parser α} (h : ∀ m, Phrase (f m) F rs us a vs)
    (hv : spell vs = p.text) :
    Laid (fun m _ => f m) F (· = a) [(0, p)] (Starts us) fun _ => p.text := by
  intro l k _
  refine ⟨vs, hv, (h 0).closed, ?_, ⟨(h 0).inView, (h 0).tight⟩,
    fun i hi => ⟨a, rfl, fun m n _ _ ds hds => ?_⟩⟩
  · rw [stringsAt_top, ← hv, literals_spell (h 0).closed.fits]
  · rw [hi.indentAll_eq hv]
    exact (h m).run ds hds

/-- A phrase without string literals and calls. -/
theorem Phrase.indentAll_eq (h : Phrase f F [] us a vs) (hl : Soql.literals us = []) (i : Nat) :
    indentAll i vs = vs := by
  refine indentAll_of_not_mem (fun hm => ?_) i
  obtain ⟨u, hu, -⟩ := h.feeds hm
  simp [hl] at hu

end Phrase

/-! ## Lists -/

section Rows

variable {f : Nat → Nat → Parser α} {F : Token → Prop} {R : α → α → Prop}
  {parts : α → List (Nat × Part)} {as : List α} {vss : List (List Piece)} {k : Nat}

theorem map_spell {text : α → Text} (h : List.Forall₂ (fun vs a => spell vs = text a) vss as) :
    vss.map spell = as.map text := by
  have : List.Forall₂ (· = ·) (vss.map spell) (as.map text) :=
    List.forall₂_map_left_iff.2 (List.forall₂_map_right_iff.2 h)
  rwa [List.forall₂_eq_eq_eq] at this

theorem flatten_literals
    (h : List.Forall₂ (fun vs a => literals vs = stringsAt k (parts a)) vss as) :
    (vss.map literals).flatten = stringsAt k (as.flatMap parts) := by
  induction h with
  | nil => rfl
  | cons hv _ ih =>
    rw [List.map_cons, List.flatten_cons, hv, ih, List.flatMap_cons, stringsAt_append]

/-- Values that are each read back, with one bound for all of them. -/
theorem ReadBack.rows (h : List.Forall₂ (fun vs a => ReadBack f F (R · a) k (parts a) vs) vss as)
    {i N : Nat} (hi : MayIndent i k (as.flatMap parts)) (hN : ∀ vs ∈ vss, count vs ≤ N) :
    ∃ bs, List.Forall₂ R bs as ∧ ∀ m n, N ≤ m → N ≤ n → List.Forall₂
      (fun vs b => ∀ ds, F (inView ds) → Run (f m n) vs b ds) (vss.map (indentAll i)) bs := by
  induction h with
  | nil => exact ⟨[], .nil, fun _ _ _ _ => .nil⟩
  | cons hv _ ih =>
    rw [List.flatMap_cons] at hi
    obtain ⟨b, hb, hrun⟩ := hv i hi.left
    obtain ⟨bs, hbs, hruns⟩ := ih hi.right fun vs hvs => hN vs (List.mem_cons_of_mem _ hvs)
    have hcount := hN _ (List.mem_cons_self ..)
    exact ⟨b :: bs, .cons hb hbs, fun m n hm hn =>
      .cons (hrun m n (hcount.trans hm) (hcount.trans hn)) (hruns m n hm hn)⟩

/-- Texts with commas between them, as a layout puts them. -/
theorem exists_laidRow {text : α → Layout → Text}
    (h : ∀ a ∈ as, Laid f F (R · a) (parts a) (fun vs => vs ≠ [] ∧ Tight vs) (text a)) {l : Layout}
    (hl : l.Spaced k) {t : Text} (ht : TextRow (as.map (text · l)) t) :
    ∃ us, spell us = t ∧ Closed us ∧ literals us = stringsAt k (as.flatMap parts) ∧
      (us ≠ [] ∧ Tight us) ∧ ∀ i, MayIndent i k (as.flatMap parts) →
        ∃ vss bs, Row vss (indentAll i us) ∧ List.Forall₂ R bs as ∧
          ∀ m n, count us ≤ m → count us ≤ n →
            List.Forall₂ (fun vs b => ∀ ds, F (inView ds) → Run (f m n) vs b ds) vss bs := by
  obtain ⟨vss, hvss⟩ := exists_forall₂ fun a ha => h a ha l k hl
  obtain ⟨us, hrow, hsp⟩ := ht.exists_row (map_spell (hvss.imp fun _ _ h => h.1))
  have hmem : ∀ vs ∈ vss, Closed vs ∧ Tight vs ∧ vs ≠ [] := by
    intro vs hvs
    obtain ⟨a, -, ha⟩ := forall₂_mem_left hvss hvs
    exact ⟨ha.2.1, ha.2.2.2.1.2, ha.2.2.2.1.1⟩
  have hlits := flatten_literals (hvss.imp fun _ _ h => h.2.2.1)
  have htight := hrow.tight fun vs hvs => (hmem vs hvs).2
  refine ⟨us, hsp, hrow.closed fun vs hvs => (hmem vs hvs).1, hrow.literals.trans hlits,
    ⟨htight.2, htight.1⟩, fun i hi => ?_⟩
  obtain ⟨bs, hbs, hruns⟩ := ReadBack.rows (hvss.imp fun _ _ h => h.2.2.2.2) hi hrow.count_le
  exact ⟨vss.map (indentAll i), bs, hrow.indent i, hbs, hruns⟩

end Rows

/-! ## Queries between parentheses -/

/-- A query that was read from the pieces `us`, before the token `e`, is read back from its text
    under every layout, up to source texts. -/
structure QueryPhrase (isNested : Bool) (us : List Piece) (q : Query) (e : Token) : Prop where
  literals : literals us = stringsAt 0 q.parts
  feeds : Feeds q.parts
  laid : Laid (fun m _ => selectUpTo m isNested) (· = e)
    (fun p => p.forgetSources = q.forgetSources) q.parts (inView · = .word "SELECT")
    fun l => (Compose.query l q).value

/-- What is known of a query that a parser has read. -/
def ReadsQuery (f : Parser Query) (isNested : Bool) : Prop :=
  Reads f fun us q ds => inView ds = .closeParen ∨ inView ds = .finish →
    QueryPhrase isNested us q (inView ds)

/-- A query and the parenthesis after it. -/
theorem ReadsQuery.upToClose {β : Type} {f : Parser Query} {isNested : Bool}
    (h : ReadsQuery f isNested) (e : Expectation) (k : Query → β) :
    Reads (f >>= fun q => expect .closeParen e >>= fun _ => pure (k q)) fun us b _ =>
      ∃ ws cs q, us = ws ++ cs ∧ QueryPhrase isNested ws q .closeParen ∧ Single .closeParen cs ∧
        b = k q := by
  refine (Reads.bind h fun q => (reads_expect (by simp) e).bind fun _ => Reads.pure (k q)).mono ?_
  rintro _ _ ds ⟨ws, q, _, rfl, hq, cs, _, _, rfl, hcs, rfl, rfl⟩
  rw [List.append_nil, hcs.inView_append] at hq
  exact ⟨ws, cs, q, by simp, hq (Or.inl rfl), hcs, rfl⟩

/-- The text of a query between parentheses: the parentheses, and what is read between them. -/
theorem QueryPhrase.subquery {isNested : Bool} {us : List Piece} {q : Query}
    (h : QueryPhrase isNested us q .closeParen) (level : Nat) (inFilter : Bool) {l : Layout}
    {k : Nat} (hl : l.Spaced k) : ∃ vs,
      spell vs = l.subquery (Compose.query l q).value level inFilter ∧ Closed vs ∧
      Soql.literals vs = stringsAt k (deeper level q.parts) ∧ inView vs = .openParen ∧ Tight vs ∧
      ∀ i, MayIndent i k (deeper level q.parts) → ∃ p, p.forgetSources = q.forgetSources ∧
        ∃ ws cs, indentAll i vs = [Piece.openParen] ++ (ws ++ cs) ∧
          inView ws = .word "SELECT" ∧ Single .closeParen cs ∧
          ∀ m, count vs ≤ m + 1 → ∀ ds, Run (selectUpTo m isNested) ws p (cs ++ ds) := by
  obtain ⟨b, b', hb, hb', hsub⟩ := hl.subquery level inFilter
  obtain ⟨vs, hsp, hcl, hlit, hview, hrun⟩ := h.laid l k hl
  obtain ⟨bs, hbs, rfl⟩ := exists_blank hb
  obtain ⟨bs', hbs', rfl⟩ := exists_blank hb'
  have htight := (tight_mark .openParen rfl).append (tight_mark .closeParen rfl)
    (by simp) (by simp) (bs ++ (indentAll (k * level) vs ++ bs'))
  simp only [List.append_assoc] at htight
  refine ⟨_, ?_, ?_, ?_, rfl, htight, fun i hi => ?_⟩
  · simp [hsub, spell_indentAll, hsp, spelling]
  · have hclose : Closed (bs' ++ [Piece.closeParen]) :=
      hbs'.append_closed (closed_token _ _)
    have hclean : Clean (spell (bs' ++ [Piece.closeParen])) := by
      rw [spell_append]
      exact hbs'.clean (clean_cons (c := ')') (by decide) [])
    exact fun r hr => ⟨rfl, hbs.append_closed ((hcl.indentAll _).append hclose hclean) r hr⟩
  · simp [literals_token, literal?, hbs.literals, hbs'.literals, literals_indentAll, hlit,
      stringsAt_deeper]
  · obtain ⟨p, hp, hrun⟩ := hrun _ hi.deeper
    have hinView : inView (indentAll (i + k * level) vs) = .word "SELECT" := by
      rw [inView_indentAll, hview]
      rfl
    refine ⟨p, hp, indentAll i bs ++ indentAll (i + k * level) vs,
      indentAll i bs' ++ [Piece.closeParen], ?_, ?_, ?_, fun m hm ds => ?_⟩
    · simp [indentAll_cons, indentAll_indentAll, Piece.indent, Token.indent]
    · rw [(hbs.indentAll i).inView_append, hinView]
    · exact Single.blank_append (hbs'.indentAll i) (Single.mark .closeParen rfl)
    · simp only [count_append, count_token, count_nil, count_indentAll] at hm
      refine Run.blank_append (hbs.indentAll i) (hrun m (count vs) (by omega) (le_refl _) _ ?_)
      rw [List.append_assoc, (hbs'.indentAll i).inView_append]
      rfl

end Parser

end Soql
