/-
  The keys of `GROUP BY` and `ORDER BY`, read and read back.

  * `EndsKey`: what may follow a key.
  * `reads_sorting`: sort keys under every layout.
  * `reads_grouping`: group keys; a call is put together from its parts.
-/
import Mathlib
import Soql.Proofs.Parse.Clauses

namespace Soql

open Unicode Token Soql.Parser

/-- The keywords that clauses start with, in the order in which they are written. -/
def clauseWords : List Text :=
  ["WHERE", "GROUP", "HAVING", "ORDER", "LIMIT", "OFFSET", "WITH", "FOR", "UPDATE"]

/-- What may follow a key. -/
def EndsKey (t : Token) : Prop := t = .comma ∨ IsEnd t ∨ ∃ w ∈ clauseWords, t = .word w

theorem EndsKey.endsName {t : Token} (h : EndsKey t) : EndsName t := by
  rcases h with rfl | (rfl | rfl) | ⟨w, -, rfl⟩ <;> simp [EndsName]

theorem EndsKey.isKeyword {t : Token} (h : EndsKey t) {kw : Text}
    (hkw : ∀ w ∈ clauseWords, Text.sameWord w kw = false) : t.isKeyword kw = false := by
  rcases h with rfl | (rfl | rfl) | ⟨w, hw, rfl⟩
  · rfl
  · rfl
  · rfl
  · exact hkw w hw

namespace Parser

/-! ## Sort keys -/

theorem reads_order : Reads order? fun us _ _ => literals us = [] := by
  refine ((reads_keywordInView SortOrder).bind (R := fun k us _ ds =>
    (k = none ∧ us = []) ∨ ((∃ a, k = some a) ∧ Taken us ds)) ?_).mono ?_
  · intro k
    cases k with
    | none => exact (Reads.pure none).mono fun us o ds h => Or.inl ⟨rfl, h.1⟩
    | some a =>
      refine (reads_advance.bind fun _ => Reads.pure (some a)).mono ?_
      rintro us o ds ⟨vs, _, _, rfl, h, rfl, rfl⟩
      exact Or.inr ⟨⟨_, rfl⟩, by simpa using h⟩
  · rintro us o ds ⟨_, k, us, rfl, ⟨rfl, hk⟩, ⟨-, rfl⟩ | ⟨⟨a, ha⟩, h⟩⟩
    · rfl
    · obtain ⟨w, hw⟩ := hk a ha
      rw [List.nil_append, (h.single (by rw [hw]; simp)).literals, hw]
      rfl

/-- What may follow the direction of a sort key. -/
def EndsOrder (t : Token) : Prop := t = .word "NULLS" ∨ EndsKey t

theorem EndsOrder.endsName {t : Token} (h : EndsOrder t) : EndsName t := by
  rcases h with rfl | h
  · simp [EndsName]
  · exact h.endsName

theorem run_order_none {ds : List Piece} (h : EndsOrder (inView ds)) : Run order? [] none ds := by
  refine Run.answer (a := none) (run_keywordInView ?_) (Run.pure none ds)
  have hwords : ∀ w ∈ "NULLS".toList :: clauseWords,
      (none : Option SortOrder) = Keyword.ofWord? w := by decide
  rw [List.nil_append]
  rcases h with h | h | (h | h) | ⟨w, hw, h⟩
  · rw [h]
    exact hwords _ (by simp)
  · rw [h]
  · rw [h]
  · rw [h]
  · rw [h]
    exact hwords _ (by simp [hw])

theorem exists_order (o : Option SortOrder) :
    ∃ ws, TrailPieces (o.elim [] fun k => ' ' :: Keyword.spelling k) ws ∧
      ∀ ds, EndsOrder (inView ds) → EndsName (inView (ws ++ ds)) ∧ Run order? ws o ds := by
  cases o with
  | none => exact ⟨[], .nil, fun ds hds => ⟨hds.endsName, run_order_none hds⟩⟩
  | some k =>
    have hw : isPlainWord (Keyword.spelling k) = true := by cases k <;> decide
    have hk : Keyword.ofWord? (Keyword.spelling k) = some k := by cases k <;> decide
    refine ⟨_, TrailPieces.space (PlainPieces.token (proper_of_isPlainWord hw) rfl), fun ds _ =>
      ⟨by simp [EndsName], Run.blank_append blank_space ?_⟩⟩
    have hs := Single.token (proper_of_isPlainWord hw)
    refine Run.answer (a := some k) (run_keywordInView ?_) ?_
    · rw [hs.inView_append]
      exact hk.symm
    · exact (skips_advance hs ds).pure _

theorem exists_nulls (o : Option NullsPlace) :
    ∃ ws, TrailPieces (o.elim [] fun k => ' ' :: ("NULLS" ++ " " ++ Keyword.spelling k)) ws ∧
      ∀ ds, EndsKey (inView ds) → EndsOrder (inView (ws ++ ds)) ∧
        Run (afterKeyword "NULLS" (expectKeywordOf .nullsPlace)) ws o ds := by
  cases o with
  | none =>
    exact ⟨[], .nil, fun ds hds => ⟨Or.inr hds, run_afterKeyword_none (hds.isKeyword (by decide))⟩⟩
  | some k =>
    have hk : isPlainWord (Keyword.spelling k) = true ∧
        Keyword.ofWord? (Keyword.spelling k) = some k := by cases k <;> exact ⟨by decide, by decide⟩
    obtain ⟨vs, hvs, hS, hrun⟩ := (plain_keywordOf hk.1 hk.2 .nullsPlace).afterKeyword
      (by decide : isPlainWord "NULLS" = true)
    refine ⟨_, TrailPieces.space hvs, fun ds _ => ⟨Or.inl ?_, ?_⟩⟩
    · rw [List.cons_append, inView_space, inView_append hvs.inView_ne_finish, hS]
    · exact (hrun ds trivial).blank_append blank_space

theorem text_sortKey {s : Subject} (hs : s.text ≠ []) (order : Option SortOrder)
    (nulls : Option NullsPlace) :
    SortKey.text { field := s.field?, call := s.call?, order, nulls } = s.text ++
      ((order.elim [] fun k => ' ' :: Keyword.spelling k) ++
        nulls.elim [] fun k => ' ' :: ("NULLS" ++ " " ++ Keyword.spelling k)) := by
  have hspell : ∀ k : SortOrder, (Keyword.spelling k).isEmpty = false := by
    intro k
    cases k <;> rfl
  have hempty : s.text.isEmpty = false := by simpa using hs
  cases s with
  | field path =>
    cases order <;> cases nulls <;>
      simp_all [SortKey.text, Subject.field?, Subject.call?, Subject.text, subjectText,
        Text.joinWith]
  | call c =>
    cases order <;> cases nulls <;>
      simp_all [SortKey.text, Subject.field?, Subject.call?, Subject.text, subjectText,
        Text.joinWith]

/-- A sort key is read back from its text. -/
theorem reads_sortKey : Reads sortKey fun us key _ => ∃ vs,
    Phrase sortKey EndsKey (Part.sortKey key).callTexts us key vs ∧ spell vs = key.text := by
  have hnulls : Reads (afterKeyword "NULLS" (expectKeywordOf .nullsPlace : Parser NullsPlace))
      fun us _ _ => literals us = [] := by
    refine (reads_expectKeywordOf _).afterKeyword.mono ?_
    rintro us o ds (⟨-, rfl, -⟩ | ⟨a, vs, ws, -, rfl, hv, w, hw⟩)
    · rfl
    · simp [hv.literals, hw.literals, literal?]
  refine (reads_subject.bind fun s => reads_order.bind fun order => hnulls.bind fun nulls =>
    Reads.pure ({ field := s.field?, call := s.call?, order, nulls } : SortKey)).mono ?_
  rintro us key ds ⟨us, s, _, rfl, hs, os, order, _, rfl, ho, ns, nulls, _, rfl, hn, rfl, rfl⟩
  obtain ⟨vs, hvs, hsp⟩ := hs.written
  obtain ⟨ws, hws, hrun⟩ := exists_order order
  obtain ⟨zs, hzs, hrun'⟩ := exists_nulls nulls
  have htrail := hws.append hzs
  have htext : s.text ≠ [] := by
    rw [← hsp]
    obtain ⟨u, c, hu, -⟩ := hvs.tight.endsInk (ne_nil_of_inView (hvs.inView ▸ hvs.starts))
    simp [hu]
  have hcalls : (Part.sortKey { field := s.field?, call := s.call?, order, nulls }).callTexts =
      s.callTexts := by cases s <;> rfl
  rw [hcalls]
  refine ⟨vs ++ (ws ++ zs), hvs.trail htrail (by simp [ho, hn]) fun ds hds => ?_, ?_⟩
  · obtain ⟨hends, hnulls⟩ := hrun' ds hds
    obtain ⟨hname, horder⟩ := hrun (zs ++ ds) hends
    exact (hvs.run _ (by simpa using hname)).bind (horder.bind (hnulls.bind_pure fun nulls =>
      ({ field := s.field?, call := s.call?, order, nulls } : SortKey)))
  · rw [spell_append, hsp, htrail.spell]
    exact (text_sortKey htext order nulls).symm

/-- The keys from the first on. -/
def sortKeysOf (r : SortKey × List SortKey) : SortKeys :=
  match r.2 with
  | [] => .one r.1
  | _ => .many (r.1 :: r.2)

theorem sorting_eq : sorting = commaSeparated sortKey >>= fun r => pure (sortKeysOf r) := by
  unfold sorting
  congr 1
  funext ⟨first, others⟩
  cases others <;> rfl

theorem toList_sortKeysOf (r : SortKey × List SortKey) : (sortKeysOf r).toList = r.1 :: r.2 := by
  obtain ⟨first, others⟩ := r
  cases others <;> rfl

theorem textRow_sortKeysOf {l : Layout} {k : Nat} (hl : l.Spaced k) (r : SortKey × List SortKey) :
    TextRow ((r.1 :: r.2).map SortKey.text) (Compose.sortKeys l (sortKeysOf r)).value := by
  obtain ⟨first, others⟩ := r
  cases others with
  | nil => exact .one _
  | cons key keys => exact hl.sortKeys _ _

theorem endsKey_next {e t u : Token} {later : List Text} (he : IsEnd e)
    (hlater : ∀ w ∈ later, w ∈ clauseWords) (h : (u = e ∧ t = e) ∨ ∃ w ∈ later, u = .word w) :
    EndsKey u ∧ u ≠ .comma := by
  rcases h with ⟨rfl, -⟩ | ⟨w, hw, rfl⟩
  · refine ⟨Or.inr (Or.inl he), ?_⟩
    rcases he with rfl | rfl <;> simp
  · exact ⟨Or.inr (Or.inr ⟨w, hlater w hw, rfl⟩), by simp⟩

/-- Phrases that were read one after another, as parts. -/
theorem literals_phrases {α : Type} {f : Parser α} {F : Token → Prop} {part : α → Part}
    {uss : List (List Piece)} {as : List α} (h : List.Forall₂ (fun us a => ∃ vs,
      Phrase f F (part a).callTexts us a vs ∧ spell vs = (part a).text) uss as) :
    (uss.map literals).flatten = stringsAt 0 (as.map fun a => (0, part a)) ∧
      Feeds (as.map fun a => (0, part a)) := by
  induction h with
  | nil => exact ⟨rfl, feeds_nil⟩
  | cons hu _ ih =>
    obtain ⟨vs, hvs, hsp⟩ := hu
    rw [List.map_cons, List.map_cons, List.flatten_cons, stringsAt_cons, feeds_cons]
    refine ⟨?_, hvs.feeds_part hsp, ih.2⟩
    rw [ih.1, hvs.literals_eq, hsp, stringsAt_top]

/-- **The keys of `ORDER BY` are read back.** -/
theorem reads_sorting {later : List Text} (hlater : ∀ w ∈ later, w ∈ clauseWords) :
    Reads sorting fun us keys ds => ContentPhrase (fun _ _ => sorting) later us (inView ds)
      (· = keys) keys.parts fun l => (Compose.sortKeys l keys).value := by
  simp only [sorting_eq]
  refine ((Reads.commaSeparated reads_sortKey).bind fun r => Reads.pure (sortKeysOf r)).mono ?_
  rintro us keys ds ⟨_, r, _, rfl, ⟨vs, uss, rest, rfl, hv, hus, hlit⟩, rfl, rfl⟩
  have hall := List.Forall₂.cons (R := fun us key => ∃ vs, Phrase sortKey EndsKey
    (Part.sortKey key).callTexts us key vs ∧ spell vs = (Part.sortKey key).text) hv hus
  have hparts : (sortKeysOf r).parts = (r.1 :: r.2).map fun key => (0, .sortKey key) := by
    rw [SortKeys.parts, toList_sortKeysOf]
  obtain ⟨hlits, hfeeds⟩ := literals_phrases hall
  refine ⟨?_, hparts ▸ hfeeds, fun e he l k hl => ?_⟩
  · rw [hparts, ← hlits, List.append_nil, literals_append, hlit]
    rfl
  · have hentries : ∀ key ∈ r.1 :: r.2, Laid (fun _ _ => sortKey) EndsKey (· = key)
        [(0, Part.sortKey key)] (fun vs => vs ≠ [] ∧ Tight vs) fun _ => key.text := by
      intro key hkey
      obtain ⟨us, -, vs, hvs, hsp⟩ := forall₂_mem_left hall.flip hkey
      exact (Phrase.laid (p := .sortKey key) (fun _ => hvs) hsp).mono (fun _ => id) (fun _ => id)
        fun ws hws => ⟨ne_nil_of_inView (hws.ne_finish hvs.starts), hws.2⟩
    have hflat : (sortKeysOf r).parts =
        (r.1 :: r.2).flatMap fun key => [((0 : Nat), Part.sortKey key)] := by
      rw [hparts, List.map_eq_flatMap]
    obtain ⟨zs, hsp, hcl, hlits, hne, hrun⟩ :=
      exists_laidRow hentries hl (textRow_sortKeysOf hl r)
    rw [hflat]
    refine ⟨zs, hsp, hcl, hlits, hne, fun i hi => ⟨sortKeysOf r, rfl, fun m n hm hn ds' hds' => ?_⟩⟩
    obtain ⟨vss, bs, hrow, hbs, hruns⟩ := hrun i hi
    obtain rfl : bs = r.1 :: r.2 := by rwa [List.forall₂_eq_eq_eq] at hbs
    have hends := endsKey_next he hlater hds'
    exact (run_commaSeparated hrow (hruns m n hm hn) (Or.inl rfl) hends.1 hends.2).bind_pure
      sortKeysOf

/-! ## Group keys -/

/-- The fields of a grouping from the first on. -/
def groupFieldsOf (n : Text) : List Text → GroupFields
  | [] => .one n
  | ns => .many (n :: ns)

theorem toList_groupFieldsOf (n : Text) (ns : List Text) :
    (groupFieldsOf n ns).toList = n :: ns := by
  cases ns <;> rfl

theorem mapM_field {ss : List Subject} {ns : List Text} (h : ss.mapM Subject.field? = some ns) :
    ss = ns.map Subject.field := by
  induction ss generalizing ns with
  | nil =>
    cases h
    rfl
  | cons s ss ih =>
    rw [List.mapM_cons] at h
    cases s with
    | call => cases h
    | field n =>
      cases hs : ss.mapM Subject.field? with
      | none => simp [hs, Subject.field?] at h
      | some ns' =>
        obtain rfl : n :: ns' = ns := by simpa [hs, Subject.field?] using h
        rw [ih hs, List.map_cons]

theorem groupingOf_field (position : Nat) (n : Text) (ns : List Text) :
    groupingOf position (.field n) (ns.map .field) =
      .ok { fields := some (groupFieldsOf n ns) } := by
  have hmap : ∀ ns : List Text, (ns.map Subject.field).mapM Subject.field? = some ns := by
    intro ns
    induction ns with
    | nil => rfl
    | cons n ns ih => simp [List.mapM_cons, ih, Subject.field?]
  cases ns with
  | nil => rfl
  | cons m ns =>
    have := hmap (n :: m :: ns)
    simp only [List.map_cons] at this
    simp only [groupingOf, List.map_cons, this, groupFieldsOf]

/-- A grouping is a single call, or it is by fields only. -/
theorem groupingOf_eq_ok {position : Nat} {first : Subject} {others : List Subject} {g : Grouping}
    (h : groupingOf position first others = .ok g) :
    (∃ c, first = .call c ∧ others = [] ∧ g = { call := some c }) ∨
      ∃ n ns, first = .field n ∧ others = ns.map .field ∧
        g = { fields := some (groupFieldsOf n ns) } := by
  unfold groupingOf at h
  split at h
  · cases h
    exact Or.inl ⟨_, rfl, rfl, rfl⟩
  · cases h
    exact Or.inr ⟨_, [], rfl, rfl, rfl⟩
  · rename_i hcall hfield
    split at h
    · rename_i names hnames
      have hall := mapM_field hnames
      cases names with
      | nil => simp at hall
      | cons n ns =>
        obtain ⟨rfl, rfl⟩ := List.cons.inj hall
        cases h
        refine Or.inr ⟨n, ns, rfl, rfl, ?_⟩
        cases ns with
        | nil => exact (hfield n rfl rfl).elim
        | cons m ns => rfl
    · cases h

theorem run_grouping {us ds : List Piece} {first : Subject} {others : List Subject} {g : Grouping}
    (h : Run (commaSeparated subject) us (first, others) ds)
    (hg : ∀ position, groupingOf position first others = .ok g) : Run grouping us g ds := by
  refine Run.current fun lexeme _ => ?_
  rw [← List.append_nil us]
  refine Run.bind (by simpa using h) ?_
  simp only [hg]
  exact Run.pure g ds

/-- What may follow the keys of a grouping. -/
def EndsGrouping (t : Token) : Prop := EndsName t ∧ t ≠ .comma

/-- The fields of a grouping are read back from their names. -/
theorem exists_groupFields {vs : List Piece} {uss : List (List Piece)} {n : Text} {ns : List Text}
    (h : List.Forall₂ SubjectPhrase (vs :: uss) ((n :: ns).map .field)) {rest : List Piece}
    (hrest : literals rest = (uss.map literals).flatten) :
    ∃ zs, Phrase grouping EndsGrouping [] (vs ++ rest)
        { fields := some (groupFieldsOf n ns) } zs ∧
      spell zs = (Part.grouping (some (groupFieldsOf n ns)) none).text := by
  have hall : List.Forall₂ (fun us s => ∃ vs, Phrase subject EndsName s.callTexts us s vs ∧
      spell vs = s.text) (vs :: uss) (.field n :: ns.map .field) := h.imp fun _ _ h => h.written
  obtain ⟨vss, zs, hrow, hsp, hcl, htight, hlit, hview, hstart, hfeeds, -, hruns⟩ :=
    exists_phraseRow hall
  have hsilent : (Subject.field n :: ns.map .field).flatMap Subject.callTexts = [] := by
    rw [List.flatMap_eq_nil_iff]
    simp [Subject.callTexts]
  have htexts : (Subject.field n :: ns.map .field).map Subject.text = n :: ns := by
    rw [← List.map_cons, List.map_map]
    exact List.map_id _
  refine ⟨zs, ⟨hcl, ?_, ?_, ?_, htight, ?_, fun ds hds => ?_⟩, ?_⟩
  · rw [hlit, literals_append, hrest, List.map_cons, List.flatten_cons]
  · rw [hview, inView_append hstart]
  · rwa [inView_append hstart]
  · rwa [literals_append, hrest, List.append_nil, ← List.flatten_cons, ← List.map_cons,
      ← List.append_nil (List.flatten _), ← hsilent]
  · exact run_grouping (run_commaSeparated hrow hruns (by simp [EndsName]) hds.1 hds.2)
      fun position => groupingOf_field position n ns
  · rw [hsp, htexts]
    show _ = Text.joinWith ", " (groupFieldsOf n ns).toList
    rw [toList_groupFieldsOf]

/-- A call to group by is read back from its parts. -/
theorem exists_groupCall {vs rest : List Piece} {c : FlatCall} (h : SubjectPhrase vs (.call c))
    (hrest : literals rest = []) :
    ∃ zs c', Phrase grouping EndsGrouping (Part.grouping none (some c)).callTexts (vs ++ rest)
        { call := some c' } zs ∧
      spell zs = (Part.grouping none (some c)).text ∧ c'.forgetSource = c.forgetSource := by
  obtain ⟨zs, c', hzs, hsp, hc⟩ := h.grouped c rfl
  refine ⟨zs, c', ⟨hzs.closed, ?_, ?_, ?_, hzs.tight, ?_, fun ds hds => ?_⟩, hsp, hc⟩
  · rw [hzs.literals, literals_append, hrest, List.append_nil]
  · rw [hzs.inView, inView_append hzs.starts]
  · rw [inView_append hzs.starts]
    exact hzs.starts
  · rw [literals_append, hrest, List.append_nil]
    exact hzs.feeds
  · have hrow : List.Forall₂ (fun vs s => ∀ ds, EndsName (inView ds) → Run subject vs s ds) [zs]
        [.call c'] := .cons hzs.run .nil
    exact run_grouping (run_commaSeparated (Row.one zs) hrow (by simp [EndsName]) hds.1 hds.2)
      fun _ => rfl

/-- Groupings without conditions that differ in source texts at most. -/
def SameKeys (g g' : Grouping) : Prop :=
  g.having = none ∧ g'.having = none ∧ g.forgetSource = g'.forgetSource

/-- **The keys of `GROUP BY` are read back.** -/
theorem reads_grouping {later : List Text} (hlater : ∀ w ∈ later, w ∈ clauseWords) :
    Reads grouping fun us g ds => ContentPhrase (fun _ _ => grouping) later us (inView ds)
      (SameKeys · g) [(0, .grouping g.fields g.call)] fun _ => g.text := by
  have hF : ∀ {t : Token} (e : Token), IsEnd e → ∀ u,
      (u = e ∧ t = e) ∨ (∃ w ∈ later, u = .word w) → EndsGrouping u := fun e he u hu =>
    ⟨(endsKey_next he hlater hu).1.endsName, (endsKey_next he hlater hu).2⟩
  refine (Reads.current.bind fun start => (Reads.commaSeparated reads_subject).bind
    (R := fun r us g _ => us = [] ∧ groupingOf start.start r.1 r.2 = .ok g) fun r => ?_).mono ?_
  · obtain ⟨first, others⟩ := r
    dsimp only
    cases hg : groupingOf start.start first others with
    | error e => exact Reads.throw e
    | ok g => exact (Reads.pure g).mono fun us b ds h => ⟨h.1, by rw [h.2]⟩
  · rintro us g ds ⟨_, start, _, rfl, ⟨rfl, -⟩, _, r, _, rfl,
      ⟨vs, uss, rest, rfl, hv, hus, hlit⟩, rfl, hg⟩
    obtain ⟨first, others⟩ := r
    rcases groupingOf_eq_ok hg with ⟨c, rfl, rfl, rfl⟩ | ⟨n, ns, rfl, rfl, rfl⟩
    · obtain rfl : uss = [] := by simpa using hus
      obtain ⟨zs, c', hzs, hsp, hc⟩ := exists_groupCall hv hlit
      rw [List.nil_append, List.append_nil]
      exact (ContentPhrase.phrase (p := .grouping none (some c)) hzs hsp hF).mono
        fun g hg => ⟨by rw [hg], rfl, by rw [hg]; simp [Grouping.forgetSource, hc]⟩
    · obtain ⟨zs, hzs, hsp⟩ := exists_groupFields (List.Forall₂.cons hv hus) hlit
      rw [List.nil_append, List.append_nil]
      exact (ContentPhrase.phrase (p := .grouping (some (groupFieldsOf n ns)) none) hzs hsp hF).mono
        fun g hg => ⟨by rw [hg], rfl, by rw [hg]⟩

end Parser

end Soql
