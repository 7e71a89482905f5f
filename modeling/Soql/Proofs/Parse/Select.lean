/-
  Queries, read and read back.

  A query is read as its fields, its source and the clauses after that, and
  each of these is read back from its text under every layout.  By induction
  on the nesting of queries the same holds of whole queries.

  * `queryOf`, `selection`: a query from what stands after `SELECT`.
  * `value_query`: the text of a query, clause by clause.
  * `readsQuery_selectUpTo`: queries at any depth are read back.
  * `exists_queryPhrase`: so is every text that stands for a query.
-/
import Mathlib
import Soql.Proofs.Parse.Fields
import Soql.Proofs.Parse.Tail

namespace Soql

open Unicode Token Soql.Parser

namespace Parser

/-! ## Queries from their parts -/

/-- Fields of a source, with its alias taken out of their paths. -/
def qualifyAll (a : Option Text) (fs : List Field) : List Field :=
  match a with
  | some a => fs.map (Field.qualify a)
  | none => fs

theorem flatMap_qualifyAll {α : Type} {g : Field → List α} (hplain : ∀ f, g (.plain f) = [])
    (hpath : ∀ f, g (.path f) = []) (a : Option Text) (fs : List Field) :
    (qualifyAll a fs).flatMap g = fs.flatMap g := by
  cases a with
  | none => rfl
  | some a => simp only [qualifyAll, List.flatMap_map, Field.apply_qualify hplain hpath]

/-- The query of its fields, its source and the clauses after that. -/
def queryOf (fs : List Field) (s : Source × Option Text) (t : Tail) : Query :=
  { fields := qualifyAll s.2 fs
    source := s.1
    aliasName := s.2
    filter := t.1
    grouping := t.2.1.1.1
    sorting := t.2.1.1.2.1
    limit := t.2.1.1.2.2.1
    offset := t.2.1.1.2.2.2
    categories := lastCategories t.2.1.2
    securityEnforced := t.2.1.2.contains .securityEnforced
    forTarget := t.2.2.1
    update := t.2.2.2 }

/-- The fields from the first on, the source with its alias, and the clauses after it. -/
abbrev Selection : Type := (Field × List Field) × (Source × Option Text) × Tail

/-- The query of what stands after `SELECT`. -/
def Selection.query (x : Selection) : Query := queryOf (x.1.1 :: x.1.2) x.2.1 x.2.2

/-- The source after its keyword. -/
def fromClause (isNested : Bool) : Parser (Source × Option Text) :=
  expectKeyword "FROM" >>= fun _ => aliasedSource isNested

/-- What stands after `SELECT`. -/
def selection (nested : Bool → Parser Query) (isNested : Bool) : Parser Selection :=
  both (commaSeparated (field (nested true))) (both (fromClause isNested) (tail (nested false)))

theorem selectWith_eq (nested : Bool → Parser Query) (isNested : Bool) :
    selectWith nested isNested = (do
      expectKeyword "SELECT"
      let x ← selection nested isNested
      return x.query) := by
  simp only [selectWith, selection, fromClause, aliasedSource, tail, body, middle, groupingClause,
    both, bind_assoc, pure_bind]
  rfl

/-! ## The text of a query -/

theorem value_addClause (l : Layout) (keyword text content : Text) :
    (Compose.addClause l keyword text content).value = text ++ clauseText l keyword content := by
  simp [Compose.addClause, clauseText]

theorem value_addClause? {α : Type} (l : Layout) (keyword : Text) (content : α → Journaled Text)
    (a : Option α) (text : Text) : (Compose.addClause? l keyword content a text).value =
      text ++ a.elim [] fun a => clauseText l keyword (content a).value := by
  cases a <;> simp [Compose.addClause?, value_addClause]

theorem value_addGrouping (l : Layout) (g : Option Grouping) (text : Text) :
    (Compose.addGrouping l g text).value = text ++ groupingText g l := by
  cases g <;> simp [Compose.addGrouping, groupingText, value_addClause, value_addClause?]

theorem value_addFilter (l : Layout) (text : Text) (c : Option (Chain Condition)) :
    (Compose.addFilter l text c).value =
      text ++ c.elim [] fun chain => clauseText l "WHERE" (Compose.filter l chain).value := by
  cases c <;>
    simp [Compose.addFilter, Compose.filter, Compose.links, Chain.links, value_addClause]

theorem value_layFields (l : Layout) (texts : List Text) : (Compose.layFields l texts).value =
    FieldItem.renderAll (l.fields (texts.map FieldItem.ofText)) := by
  simp [Compose.layFields]

/-- The text of a field. -/
def fieldText (f : Field) (l : Layout) : Text := (Compose.field l f).value

/-- The text of fields as they stand after `SELECT`. -/
def fieldsText (fs : List Field) (l : Layout) : Text :=
  FieldItem.renderAll (l.fields ((fs.map (fieldText · l)).map FieldItem.ofText))

/-- The text of what stands after `SELECT`. -/
def Selection.text (x : Selection) (l : Layout) : Text :=
  fieldsText (x.1.1 :: x.1.2) l ++
    (clauseText l "FROM" (sourceText x.2.1.1 x.2.1.2) ++ tailText x.2.2 l)

/-- The text of a query, clause by clause. -/
theorem value_query (l : Layout) (fs : List Field) (s : Source × Option Text) (t : Tail) :
    (Compose.query l (queryOf fs s t)).value = "SELECT ".toList ++
      (fieldsText (qualifyAll s.2 fs) l ++
        (clauseText l "FROM" (sourceText s.1 s.2) ++ tailText t l)) := by
  obtain ⟨f, ⟨⟨g, k, n, m⟩, ws⟩, ft, u⟩ := t
  simp only [queryOf, Compose.query, tailText, bodyText, middleText, withText]
  cases ws.contains .securityEnforced <;>
    simp only [Journaled.value_bind, Journaled.value_pure, value_layFields, value_fields,
      value_addClause, value_addClause?, value_addGrouping, value_addFilter, fieldsText, fieldText,
      List.append_assoc, List.nil_append, if_true, Bool.false_eq_true, if_false]

/-! ## Field lists -/

/-- The same fields, up to source texts. -/
def SameFields (fs gs : List Field) : Prop :=
  fs.map Field.forgetSources = gs.map Field.forgetSources

/-- Fields are read back from their texts, as a layout puts them. -/
theorem laid_fields {f : Field} {fs : List Field} (h : ∀ g ∈ f :: fs, ∃ us, FieldPhrase us g) :
    Laid (fun m _ => commaSeparated (field (selectUpTo m true))) (· = .word "FROM")
      (fun r => SameFields (r.1 :: r.2) (f :: fs)) ((f :: fs).flatMap Field.parts)
      (fun _ => True) (fieldsText (f :: fs)) := by
  intro l k hl
  obtain ⟨b, s, hb, hrow, htext⟩ := hl.fields (fieldText f l) (fs.map (fieldText · l))
  obtain ⟨bs, hbs, rfl⟩ := exists_blank hb
  have hentries : ∀ g ∈ f :: fs, Laid (fun m _ => field (selectUpTo m true)) EndsField
      (fun f' => f'.forgetSources = g.forgetSources) g.parts (fun vs => vs ≠ [] ∧ Tight vs)
      (fieldText g) := by
    intro g hg
    obtain ⟨us, hus⟩ := h g hg
    exact hus.laid
  change TextRow ((f :: fs).map (fieldText · l)) s at hrow
  obtain ⟨us, hsp, hcl, hlit, -, hrun⟩ :=
    exists_laidRow (R := fun f' g : Field => f'.forgetSources = g.forgetSources) hentries hl hrow
  refine ⟨bs ++ us, ?_, hbs.append_closed hcl, ?_, trivial, fun i hi => ?_⟩
  · rw [spell_append, hsp, fieldsText, List.map_cons, htext]
  · rw [literals_append, hbs.literals, hlit, List.nil_append]
  · obtain ⟨vss, gs, hrows, hsame, hruns⟩ := hrun i hi
    obtain ⟨g, gs, rfl⟩ : ∃ g gs', gs = g :: gs' := by
      cases hsame with
      | cons _ _ => exact ⟨_, _, rfl⟩
    refine ⟨(g, gs), ?_, fun m n hm hn ds hds => ?_⟩
    · change List.map _ (g :: gs) = _
      rw [← List.forall₂_eq_eq_eq]
      exact List.forall₂_map_left_iff.2 (List.forall₂_map_right_iff.2 hsame)
    · rw [count_append, hbs.count] at hm hn
      rw [indentAll_append]
      exact (run_commaSeparated hrows (hruns m n (by omega) (by omega)) (Or.inl rfl) (Or.inr hds)
        (by simp [hds])).blank_append (hbs.indentAll i)

/-! ## The source and the clauses after it -/

theorem Clean.append {t u : Text} (ht : Clean t) (hu : Clean u) : Clean (t ++ u) := by
  cases t with
  | nil => exact hu
  | cons c t => exact clean_cons (ht c (by simp)) _

theorem laid_fromClause {isNested : Bool} {x : Source × Option Text}
    (h : Plain (aliasedSource isNested) (fun _ => True) EndsAlias x (sourceText x.1 x.2)) :
    Laid (fun _ _ => fromClause isNested) EndsAlias (· = x) []
      (fun vs => Clean (spell vs) ∧ inView vs = .word "FROM")
      fun l => clauseText l "FROM" (sourceText x.1 x.2) := by
  have hword : isPlainWord "FROM" = true := by decide
  refine (Laid.clause (t := id) (PlainPieces.token (proper_of_isPlainWord hword) rfl) rfl
    (fun m n vs a ds hrun => ?_)
    (h.laid.mono (fun _ => id) (fun _ => id) fun _ hvs => ⟨hvs.1, hvs.2.1⟩)).mono (fun _ => id) ?_
    fun _ => id
  · exact (run_expectKeyword (isKeyword_keyword _ hword) _).bind (hrun.blank_append blank_space)
  · rintro _ ⟨_, rfl, rfl⟩
    rfl

/-- What may follow the source: a clause, or the end of the query. -/
theorem ClausePieces.endsAlias {e : Token} (he : IsEnd e) {us vs : List Piece}
    (h : ClausePieces clauseWords us vs) (i : Nat) {ds : List Piece} (hds : inView ds = e) :
    EndsAlias (inView (indentAll i vs ++ ds)) := by
  have hreserved : ∀ w ∈ clauseWords, isReserved w = true := by decide
  rcases h.inView_append i ds with ⟨-, -, heq⟩ | ⟨w, hw, heq⟩
  · rw [heq, hds]
    exact he.endsAlias
  · rw [heq]
    exact endsAlias_word (hreserved w hw)

/-! ## What stands after `SELECT` -/

/-- The parts of what stands after `SELECT`. -/
def Selection.parts (x : Selection) : List (Nat × Part) :=
  (x.1.1 :: x.1.2).flatMap Field.parts ++ tailParts x.2.2

/-- Whether two selections are the same up to source texts. -/
def Selection.Same (x y : Selection) : Prop :=
  SameFields (x.1.1 :: x.1.2) (y.1.1 :: y.1.2) ∧ x.2.1 = y.2.1 ∧ SameTail x.2.2 y.2.2

/-- What stands after `SELECT`, read from `us` before the token `e`, is read back. -/
structure SelectionPhrase (isNested : Bool) (us : List Piece) (x : Selection) (e : Token) :
    Prop where
  literals : literals us = stringsAt 0 x.parts
  feeds : Feeds x.parts
  qualify : ∀ owner l, ∀ f ∈ x.1.1 :: x.1.2,
    (Compose.field l (f.qualify owner)).value = (Compose.field l f).value
  laid : Laid (fun m _ => selection (selectUpTo m) isNested) (· = e) (Selection.Same · x) x.parts
    (fun _ => True) x.text

theorem forall₂_literals {uss : List (List Piece)} {fs : List Field}
    (h : List.Forall₂ FieldPhrase uss fs) :
    (uss.map literals).flatten = stringsAt 0 (fs.flatMap Field.parts) ∧
      Feeds (fs.flatMap Field.parts) ∧ ∀ f ∈ fs, ∃ us, FieldPhrase us f := by
  induction h with
  | nil => exact ⟨rfl, feeds_nil, by simp⟩
  | cons hf _ ih =>
    refine ⟨?_, feeds_append.2 ⟨hf.feeds, ih.2.1⟩, List.forall_mem_cons.2 ⟨⟨_, hf⟩, ih.2.2⟩⟩
    rw [List.map_cons, List.flatten_cons, ih.1, hf.literals, List.flatMap_cons, stringsAt_append]

theorem reads_selection {nested : Bool → Parser Query}
    (hn : ∀ isNested, ReadsQuery (nested isNested) isNested) (isNested : Bool) :
    Reads (selection nested isNested) fun us x ds => IsEnd (inView ds) →
      SelectionPhrase isNested us x (inView ds) := by
  have hfields := Reads.commaSeparated (reads_field (hn true))
  have hfrom := (reads_expectKeyword "FROM").bind fun _ => reads_aliasedSource isNested
  refine (hfields.bind fun r => (hfrom.bind fun s => (reads_tail (hn false)).bind fun t =>
    Reads.pure (s, t)).bind fun y => Reads.pure (r, y)).mono ?_
  rintro us x ds ⟨fs, r, _, rfl, ⟨vs, uss, rest, rfl, hv, hus, hlit⟩, _, y, _, rfl,
    ⟨ss, s, _, rfl, ⟨ks, _, ws, rfl, hks, hlits, hplain⟩, ts, t, _, rfl, ht, rfl, rfl⟩, rfl, rfl⟩ he
  simp only [List.append_nil, List.nil_append] at ht ⊢
  obtain ⟨hflits, hffeeds, hphrases⟩ := forall₂_literals (List.Forall₂.cons hv hus)
  have htail := ht (inView ds) he
  have hlaid := (laid_fromClause hplain).seq (htail.laid.mono (G := (· = inView ds))
    (fun _ hu => Or.inl ⟨hu, Or.inr rfl⟩) (fun _ => id) (fun _ => id)) (fun _ h => h.1)
    fun vs hvs i ds' hds' => ClausePieces.endsAlias he hvs i hds'
  refine ⟨?_, ?_, fun owner l f hf => ?_, ?_⟩
  · simp only [literals_append, hlit, hks.literals, hlits, htail.literals, Selection.parts,
      stringsAt_append, ← hflits, List.nil_append, List.map_cons, List.flatten_cons]
  · exact feeds_append.2 ⟨hffeeds, htail.feeds⟩
  · obtain ⟨_, hf⟩ := hphrases f hf
    exact hf.qualify owner l
  · refine ((laid_fields hphrases).seq hlaid ?_ ?_).mono (fun _ => id) ?_ fun _ _ => trivial
    · rintro _ ⟨vs, ws, rfl, hvs, hws⟩
      rw [spell_append]
      exact Clean.append hvs.1 hws.1
    · rintro _ ⟨vs, ws, rfl, hvs, hws⟩ i ds' hds'
      rw [indentAll_append, List.append_assoc,
        inView_indentAll_append (by simp [hvs.2]) i, hvs.2]
      rfl
    · rintro ⟨r', s', t'⟩ ⟨hr, hs, ht⟩
      exact ⟨hr, hs, ht⟩

/-! ## Queries -/

theorem Selection.text_eq {x : Selection} (h : ∀ owner l, ∀ f ∈ x.1.1 :: x.1.2,
      (Compose.field l (f.qualify owner)).value = (Compose.field l f).value) (l : Layout) :
    (Compose.query l x.query).value = "SELECT ".toList ++ x.text l := by
  have hfields : fieldsText (qualifyAll x.2.1.2 (x.1.1 :: x.1.2)) l =
      fieldsText (x.1.1 :: x.1.2) l := by
    cases ha : x.2.1.2 with
    | none => rfl
    | some a =>
      have htexts : (x.1.1 :: x.1.2).map (fun f => fieldText (f.qualify a) l) =
          (x.1.1 :: x.1.2).map (fieldText · l) := List.map_congr_left fun f hf => h a l f hf
      rw [qualifyAll, fieldsText, fieldsText, ← htexts, List.map_map (l := x.1.1 :: x.1.2)]
      rfl
  rw [Selection.query, value_query, hfields, Selection.text]

theorem Selection.parts_query (x : Selection) : x.query.parts = x.parts := by
  have hfields (a : Option Text) (fs : List Field) :
      Field.partsAll (qualifyAll a fs) = fs.flatMap Field.parts := by
    rw [partsAll_eq, flatMap_qualifyAll (fun _ => rfl) fun _ => rfl]
  obtain ⟨⟨f, fs⟩, s, t⟩ := x
  simp only [Selection.query, queryOf, Query.parts, hfields, Selection.parts, tailParts,
    middleParts, List.append_assoc]

theorem Selection.Same.forget {x y : Selection} (h : x.Same y) :
    x.query.forgetSources = y.query.forgetSources := by
  have hfields : ∀ a fs, Field.forgetAll (qualifyAll a fs) =
      qualifyAll a (fs.map Field.forgetSources) := by
    intro a fs
    cases a with
    | none => exact forgetAll_eq fs
    | some a => simp [qualifyAll, forgetAll_eq, Field.forgetSources_qualify]
  obtain ⟨hf, hs, hfilter, ⟨⟨hg, hm⟩, hc, hsec⟩, ht⟩ := h
  rw [SameFields] at hf
  simp only [Selection.query, queryOf, Query.forgetSources, hfields, hs, hfilter, hg, hm, hc, hsec,
    ht, hf]

theorem SelectionPhrase.query {isNested : Bool} {ks us : List Piece} {x : Selection} {e : Token}
    (hk : IsKeyword "SELECT" ks) (h : SelectionPhrase isNested us x e) :
    QueryPhrase isNested (ks ++ us) x.query e := by
  refine ⟨?_, x.parts_query ▸ h.feeds, fun l k hl => ?_⟩
  · rw [literals_append, hk.literals, h.literals, x.parts_query, List.nil_append]
  · obtain ⟨vs, hsp, hcl, hlit, -, hrun⟩ := h.laid l k hl
    have hword : isPlainWord "SELECT" = true := by decide
    refine ⟨.keyword "SELECT" hword :: .space :: vs, ?_, closed_keyword hcl _ _, ?_, by simp,
      fun i hi => ?_⟩
    · refine Eq.trans ?_ (Selection.text_eq h.qualify l).symm
      rw [← hsp]
      rfl
    · rw [x.parts_query, ← hlit]
      rfl
    · rw [x.parts_query] at hi
      obtain ⟨y, hy, hrun⟩ := hrun i hi
      refine ⟨y.query, hy.forget, fun m n hm hn ds hds => ?_⟩
      simp only [count_keyword, count_space] at hm hn
      -- The keyword is one of the pieces that the bound allows for.
      obtain ⟨m, rfl⟩ : ∃ j, m = j + 1 := ⟨m - 1, by omega⟩
      have hspell : indentAll i (.keyword "SELECT" hword :: .space :: vs) =
          [Piece.keyword "SELECT" hword] ++ ([Piece.space] ++ indentAll i vs) := rfl
      rw [hspell]
      change Run (selectWith (selectUpTo m) isNested) _ _ _
      rw [selectWith_eq]
      exact (run_expectKeyword (isKeyword_keyword _ hword) _).bind
        (((hrun m n (by omega) (by omega) ds hds).bind_pure _).blank_append blank_space)

/-- **Queries with queries inside of them are read back.** -/
theorem readsQuery_selectUpTo (n : Nat) (isNested : Bool) :
    ReadsQuery (selectUpTo n isNested) isNested := by
  induction n generalizing isNested with
  | zero => exact Reads.fail _
  | succ n ih =>
    change ReadsQuery (selectWith (selectUpTo n) isNested) isNested
    rw [selectWith_eq, ReadsQuery]
    refine ((reads_expectKeyword "SELECT").bind fun _ =>
      (reads_selection ih isNested).bind fun x => Reads.pure x.query).mono ?_
    rintro us q ds ⟨ks, _, _, rfl, hks, vs, x, _, rfl, hx, rfl, rfl⟩ he
    rw [List.append_nil]
    exact (hx he).query hks

/-! ## Whole texts -/

/-- What the parser reads all of a text as. -/
def readAll {α : Type} (f : Parser α) (text : Text) : Except ParseError α :=
  match Cursor.ofLexemes (Lexemes.ofText text) with
  | .error error => .error (.scan error)
  | .ok cursor =>
    match (f >>= fun a => expect .finish .endOfQuery >>= fun _ => pure a) cursor with
    | .ok a _ => .ok a
    | .error error _ => .error error

theorem parse_eq (text : Text) : Query.parse text = readAll select text := by
  rw [Query.parse, readAll]
  cases Cursor.ofLexemes (Lexemes.ofText text) with
  | error e => rfl
  | ok c => cases h : Parser.query c <;> simp_all [Parser.query]

section ReadAll

variable {α : Type} {f : Parser α} {P : List Piece → α → List Piece → Prop} {a : α}

/-- A text that is read is read from its pieces, up to their end. -/
theorem readAll_run {s : Text} {ps : List Piece} {E : Ending} (hs : s = spell ps ++ E.text)
    (hfit : Fits ps E.text) (hlex : Lexemes.ofText s = placed E s.length ps)
    (h : readAll f s = .ok a) :
    ∃ c c', At E s.length ps c ∧ f c = .ok a c' ∧ c'.current.token = .finish := by
  rw [readAll, hlex] at h
  cases hcur : Cursor.ofLexemes (placed E s.length ps) with
  | error e => simp [hcur] at h
  | ok c =>
    simp only [hcur] at h
    split at h
    · rename_i a' c' hrun
      obtain rfl : a' = a := by simpa using h
      obtain ⟨r, c₁, hread, hend⟩ := bind_eq_ok.1 hrun
      obtain ⟨_, c₂, hexp, hend⟩ := bind_eq_ok.1 hend
      obtain ⟨rfl, -⟩ := pure_eq_ok.1 hend
      refine ⟨c, c₁, ⟨hfit, by rw [← hs], hcur⟩, hread, ?_⟩
      obtain ⟨b, _, hb, hexp⟩ := bind_eq_ok.1 hexp
      rw [atToken_eq] at hb
      cases hb
      split at hexp
      · rename_i htoken
        exact beq_iff_eq.1 htoken
      · exact absurd hexp fail_ne_ok
    · cases h

/-- The pieces of a text that is read are those that are taken, and blanks. -/
theorem readAll_at (hP : Reads f P) {s : Text} {ps : List Piece} {E : Ending}
    (hs : s = spell ps ++ E.text) (hfit : Fits ps E.text)
    (hlex : Lexemes.ofText s = placed E s.length ps) (h : readAll f s = .ok a) :
    ∃ us ds, ps = us ++ ds ∧ inView ds = .finish ∧ P us a ds := by
  obtain ⟨c, c', hat, hread, hfinish⟩ := readAll_run hs hfit hlex h
  obtain ⟨us, ds, rfl, hds, hq⟩ := hP hat hread
  exact ⟨us, ds, rfl, hds.token.symm.trans hfinish, hq⟩

theorem readAll_spell {vs : List Piece} (hfit : Fits vs []) (hrun : Run f vs a []) :
    readAll f (spell vs) = .ok a := by
  have hread := hrun (spell vs).length (by simp)
  rw [List.append_nil] at hread
  have hall : (f >>= fun a => expect .finish .endOfQuery >>= fun _ => pure a)
      (cursor (spell vs).length vs) = .ok a (cursor (spell vs).length []) :=
    bind_eq_ok.2 ⟨_, _, hread, rfl⟩
  rw [readAll, ofText_spell hfit, ofLexemes_placed]
  simp only [hall]

end ReadAll

/-- What holds of the queries that are read holds of the query of a text: its pieces are those of
    the query and nothing else. -/
theorem exists_reading {P : List Piece → Query → List Piece → Prop}
    (hP : ∀ n, Reads (selectUpTo n false) P) {s : Text} {q : Query} (h : Query.parse s = .ok q) :
    ∃ E us ds, Lexemes.ofText s = placed E s.length (us ++ ds) ∧ inView ds = .finish ∧
      P us q ds := by
  have hselect : Reads select P := fun _ _ _ _ _ _ hc hok => hP _ hc hok
  obtain ⟨ps, E, hs, hfit, hlex, -⟩ := exists_pieces s
  rw [parse_eq] at h
  obtain ⟨us, ds, rfl, hds, hq⟩ := readAll_at hselect hs hfit hlex h
  exact ⟨E, us, ds, hlex, hds, hq⟩

/-- The pieces of a text that stands for a query are read back. -/
theorem exists_queryPhrase {s : Text} {q : Query} (h : Query.parse s = .ok q) :
    ∃ us, QueryPhrase false us q .finish ∧ literals us = s.literals := by
  obtain ⟨E, us, ds, hlex, hfinish, hq⟩ :=
    exists_reading (fun n => readsQuery_selectUpTo n false) h
  refine ⟨us, hfinish ▸ hq (Or.inr hfinish), ?_⟩
  rw [Text.literals, hlex, literals_placed, literals_append, (blank_of_inView hfinish).literals,
    List.append_nil]

/-- What holds of every query of a text holds of the one that it is found to have. -/
theorem exists_parse {s : Text} {P : Query → Prop} (hok : (Query.parse s).isOk = true)
    (h : ∀ q, Query.parse s = .ok q → P q) : ∃ q, Query.parse s = .ok q ∧ P q := by
  cases hq : Query.parse s with
  | error e =>
    rw [hq] at hok
    cases hok
  | ok q => exact ⟨q, rfl, h q hq⟩

theorem parse_spell {vs : List Piece} (hfit : Fits vs []) {q : Query}
    (hrun : ∀ m, count vs ≤ m → Run (selectUpTo m false) vs q []) :
    Query.parse (spell vs) = .ok q := by
  rw [parse_eq]
  refine readAll_spell hfit (Run.get fun c hc => hrun _ ?_)
  rw [List.append_nil] at hc
  omega

section QueryPhrase

variable {us : List Piece} {q : Query} {l : Layout} {k : Nat}

/-- A query that was read is read back from its text, up to source texts. -/
theorem QueryPhrase.parse_compose (h : QueryPhrase false us q .finish) (hl : l.Spaced k)
    (hi : MayIndent 0 k q.parts) : ∃ p, Query.parse (Compose.query l q).value = .ok p ∧
      p.forgetSources = q.forgetSources := by
  obtain ⟨vs, hsp, hcl, -, -, hrun⟩ := h.laid l k hl
  obtain ⟨p, hp, hrun⟩ := hrun 0 hi
  rw [indentAll_zero] at hrun
  refine ⟨p, ?_, hp⟩
  dsimp only at hsp
  rw [← hsp]
  exact parse_spell hcl.fits fun m hm => hrun m m hm hm [] rfl

/-- The string literals of its text are its own, each indented with the query that it is in. -/
theorem QueryPhrase.literals_compose (h : QueryPhrase false us q .finish) (hl : l.Spaced k) :
    (Compose.query l q).value.literals = stringsAt k q.parts := by
  obtain ⟨vs, hsp, hcl, hlit, -⟩ := h.laid l k hl
  dsimp only at hsp
  rw [← hsp, literals_spell hcl.fits, hlit]

end QueryPhrase

end Parser

end Soql
