/-
  Ink — what is left of a text without its blanks.

  A layout decides on blanks and line breaks only.  So the ink of a composed
  text is the same under every layout, whatever query is composed.

  * `Text.ink`: the text without its blanks.
  * `Layout.KeepsInk l`: what the layout adds is commas, parentheses and
    blanks.
  * `Compose.ink_query`: two such layouts give texts with the same ink.
  * `Query.compose_same_ink`: so do any two configurations.
-/
import Mathlib
import Soql.Proofs.Parse.Chains

namespace Soql

open Unicode

/-! ## Texts without blanks -/

namespace Text

/-- The text without its blanks. -/
def ink (t : Text) : Text := t.filter fun c => !isBlank c

@[simp] theorem ink_nil : ink [] = [] := rfl

@[simp] theorem ink_append (t u : Text) : ink (t ++ u) = ink t ++ ink u := List.filter_append ..

theorem ink_eq_nil {b : Text} (h : BlankText b) : ink b = [] := by
  refine List.filter_eq_nil_iff.2 fun c hc => ?_
  simp [h c hc]

theorem ink_cons_blank {c : Char} (h : isBlank c = true) (t : Text) : ink (c :: t) = ink t := by
  simp [ink, h]

@[simp] theorem ink_space (t : Text) : ink (' ' :: t) = ink t := ink_cons_blank (by decide) t

/-- Blanks at the start are not among the ink. -/
theorem ink_trimLeft (t : Text) : ink t.trimLeft = ink t := by
  have hblank : BlankText (t.takeWhile isBlank) := fun c hc => List.mem_takeWhile_imp hc
  conv_rhs => rw [← List.takeWhile_append_dropWhile (p := isBlank) (l := t)]
  rw [ink_append, ink_eq_nil hblank, List.nil_append, trimLeft]

theorem ink_reverse (t : Text) : ink t.reverse = (ink t).reverse := List.filter_reverse ..

theorem ink_trimRight (t : Text) : ink t.trimRight = ink t := by
  have h := ink_trimLeft t.reverse
  rw [trimLeft, ink_reverse] at h
  rw [trimRight, ink_reverse, h, List.reverse_reverse]

@[simp] theorem ink_trim (t : Text) : ink t.trim = ink t := by
  rw [trim, ink_trimRight, ink_trimLeft]

theorem ink_joinWith (sep : Text) : ∀ ts : List Text,
    ink (joinWith sep ts) = joinWith (ink sep) (ts.map ink)
  | [] => rfl
  | [_] => rfl
  | t :: u :: ts => by
    have hcons : joinWith sep (t :: u :: ts) = t ++ sep ++ joinWith sep (u :: ts) := rfl
    rw [hcons, ink_append, ink_append, ink_joinWith sep (u :: ts)]
    rfl

theorem ink_indented (n : Nat) (t : Text) : ink (indented n t) = ink t := by
  induction t with
  | nil => rfl
  | cons c t ih =>
    have htabs : BlankText (List.replicate n '\t') := by
      intro c hc
      rw [List.eq_of_mem_replicate hc]
      decide
    rw [indented_cons, ink_append, ih]
    split
    · rename_i hc
      rw [hc, ink_cons_blank (by decide), ink_cons_blank (by decide), ink_eq_nil htabs]
      rfl
    · rw [← ink_append]
      rfl

end Text

open Text

theorem TextRow.ink {ts : List Text} {s : Text} (h : TextRow ts s) :
    Text.ink s = joinWith "," (ts.map Text.ink) := by
  induction h with
  | one t => rfl
  | @cons t b hb ts s h ih =>
    obtain ⟨u, us, rfl⟩ : ∃ u us, ts = u :: us := by cases h <;> exact ⟨_, _, rfl⟩
    have hcomma : Text.ink (',' :: (b ++ s)) = ',' :: Text.ink (b ++ s) := rfl
    rw [ink_append, hcomma, ink_append, ink_eq_nil hb, ih]
    simp [joinWith]

/-! ## Layouts -/

/-- The layout puts commas between entries, parentheses around queries, and blanks. -/
structure Layout.KeepsInk (l : Layout) : Prop where
  fields : ∀ ts : List Text,
    ink (FieldItem.renderAll (l.fields (ts.map FieldItem.ofText))) = joinWith "," (ts.map ink)
  clause : ∀ keyword, ink (l.clause keyword) = ink keyword
  subquery : ∀ t level inFilter, ink (l.subquery t level inFilter) = '(' :: ink t ++ [')']
  connective : ∀ operator right, ink (l.connective operator right) = ink operator ++ ink right
  sortKeys : ∀ ts : List Text, ink (l.sortKeys ts) = joinWith "," (ts.map ink)

/-- A layout that adds blanks only keeps the ink, if it adds nothing to empty lists. -/
theorem Layout.Spaced.keepsInk {l : Layout} {k : Nat} (h : l.Spaced k) (hfields : l.fields [] = [])
    (hkeys : l.sortKeys [] = []) : l.KeepsInk where
  fields ts := by
    cases ts with
    | nil => rw [List.map_nil, hfields]; rfl
    | cons t ts =>
      obtain ⟨b, s, hb, hs, hrender⟩ := h.fields t ts
      rw [hrender, ink_append, ink_eq_nil hb, hs.ink, List.nil_append]
  clause keyword := by
    obtain ⟨c, hc, hclause⟩ := h.clause
    rw [hclause, ink_cons_blank hc]
  subquery t level inFilter := by
    obtain ⟨b, b', hb, hb', hsubquery⟩ := h.subquery level inFilter
    rw [hsubquery]
    simp only [ink_append, ink_eq_nil hb, ink_eq_nil hb', ink_indented, List.append_nil]
    rfl
  connective operator right := by
    obtain ⟨c, b, hc, hb, hconnective⟩ := h.connective
    have hspace : ink " " = [] := by decide
    rw [hconnective, ink_append, ink_append, ink_append, ink_cons_blank hc, ink_eq_nil hb, hspace,
      List.nil_append, List.append_nil]
  sortKeys ts := by
    cases ts with
    | nil => rw [hkeys]; rfl
    | cons t ts => exact (h.sortKeys t ts).ink

theorem Layout.keepsInk_standard (isSpread : Bool) (o : LayoutOptions) :
    (Layout.standard isSpread o).KeepsInk := by
  cases isSpread with
  | false => exact spaced_plain.keepsInk rfl rfl
  | true =>
    refine o.spaced_spread.keepsInk rfl ?_
    change o.spreadSortKeys [] = []
    rw [LayoutOptions.spreadSortKeys]
    split <;> rfl

/-! ## Composing -/

namespace Compose

variable {l m : Layout}

/-- The ink of a filter whose conditions have the given ink. -/
def filterInk : List (Link Text) → Text
  | [] => []
  | [x] => x.condition.getD []
  | x :: xs =>
    x.condition.getD [] ++ ink ((x.connective.map Keyword.spelling).getD []) ++ filterInk xs

theorem ink_joinLinks (hl : l.KeepsInk) : ∀ xs : List (Link Text),
    ink (joinLinks l xs).value = filterInk (xs.map (Link.map ink))
  | [] => rfl
  | [⟨condition, _⟩] => by cases condition <;> simp [joinLinks, filterInk, Link.map]
  | ⟨condition, connective⟩ :: y :: xs => by
    rw [value_joinLinks_trim, ink_trim, ink_append, hl.connective, ink_joinLinks hl (y :: xs)]
    cases condition <;> simp [filterInk, Link.map]

theorem ink_addClause (hl : l.KeepsInk) (keyword text content : Text) :
    ink (addClause l keyword text content).value = ink text ++ (ink keyword ++ ink content) := by
  cases content with
  | nil => simp [addClause, hl.clause]
  | cons c content => simp [addClause, hl.clause]

theorem ink_addClause? {α : Type} (hl : l.KeepsInk) (keyword : Text) (content : α → Journaled Text)
    (a : Option α) (text : Text) : ink (addClause? l keyword content a text).value =
      ink text ++ a.elim [] fun a => ink keyword ++ ink (content a).value := by
  cases a with
  | none => simp [addClause?]
  | some a => simp [addClause?, ink_addClause hl]

theorem ink_addGrouping (hl : l.KeepsInk) (g : Option Grouping) (text : Text) :
    ink (addGrouping l g text).value = ink text ++ g.elim [] fun g =>
      ink "GROUP BY" ++ ink g.text ++ g.having.elim [] fun chain => ink "HAVING" ++
        filterInk ((chain.map GroupCondition.text).links.map (Link.map ink)) := by
  cases g with
  | none => simp [addGrouping]
  | some g =>
    simp [addGrouping, ink_addClause hl, ink_addClause? hl, groupFilter, ink_joinLinks hl]

theorem ink_sortKeys (hl : l.KeepsInk) (hm : m.KeepsInk) (keys : SortKeys) :
    ink (sortKeys l keys).value = ink (sortKeys m keys).value := by
  cases keys with
  | one key => rfl
  | many keys => simp [sortKeys, laySortKeys, hl.sortKeys, hm.sortKeys]

/-- The ink of a `WHERE` clause that may be absent. -/
def whereInk (l : Layout) (c : Option (Chain Condition)) : Text :=
  c.elim [] fun chain => ink "WHERE" ++ filterInk ((links l chain.links).value.map (Link.map ink))

theorem ink_addFilter (hl : l.KeepsInk) (text : Text) (c : Option (Chain Condition)) :
    ink (addFilter l text c).value = ink text ++ whereInk l c := by
  cases c with
  | none => simp [addFilter, whereInk]
  | some chain => simp [addFilter, whereInk, ink_addClause hl, ink_joinLinks hl, Chain.links, links]

theorem ink_layFields (hl : l.KeepsInk) (texts : List Text) :
    ink (layFields l texts).value = joinWith "," (texts.map ink) := by
  simp [layFields, hl.fields]

mutual

/-- **The ink of a query does not depend on the layout.** -/
theorem ink_query (hl : l.KeepsInk) (hm : m.KeepsInk) : ∀ q : Query,
    ink (query l q).value = ink (query m q).value
  | ⟨fs, source, aliasName, filter, grouping, sorting, limit, offset, categories,
      securityEnforced, forTarget, update⟩ => by
    cases securityEnforced <;>
      simp only [query, Journaled.value_bind, Journaled.value_pure, ink_append, ink_layFields hl,
        ink_layFields hm, ink_addClause hl, ink_addClause hm, ink_addClause? hl, ink_addClause? hm,
        ink_addGrouping hl, ink_addGrouping hm, ink_addFilter hl, ink_addFilter hm,
        ink_sortKeys hl hm, ink_fields hl hm fs, ink_filter hl hm filter, if_true,
        Bool.false_eq_true, if_false]

theorem ink_fields (hl : l.KeepsInk) (hm : m.KeepsInk) : ∀ fs : List Field,
    (fields l fs).value.map ink = (fields m fs).value.map ink
  | [] => rfl
  | f :: fs => by
    simp only [fields, Journaled.value_bind, Journaled.value_pure, List.map_cons,
      ink_field hl hm f, ink_fields hl hm fs]

theorem ink_field (hl : l.KeepsInk) (hm : m.KeepsInk) : ∀ f : Field,
    ink (field l f).value = ink (field m f).value
  | .plain _ => rfl
  | .call c => by simp only [field, ink_call hl hm c]
  | .path _ => rfl
  | .subquery q => by
    simp only [field, laySubquery, Journaled.value_bind, Journaled.value_pure, hl.subquery,
      hm.subquery, ink_query hl hm q]
  | .typeOf _ => rfl

theorem ink_call (hl : l.KeepsInk) (hm : m.KeepsInk) : ∀ c : Call,
    ink (call l c).value = ink (call m c).value
  | ⟨name, args, aliasName, _, _⟩ => by
    have hargs := ink_arguments hl hm args
    cases aliasName <;>
      simp only [call, aliased, Journaled.value_bind, Journaled.value_pure, ink_append,
        ink_joinWith, hargs]

theorem ink_arguments (hl : l.KeepsInk) (hm : m.KeepsInk) : ∀ as : List Argument,
    (arguments l as).value.map ink = (arguments m as).value.map ink
  | [] => rfl
  | a :: as => by
    simp only [arguments, Journaled.value_bind, Journaled.value_pure, List.map_cons,
      ink_argument hl hm a, ink_arguments hl hm as]

theorem ink_argument (hl : l.KeepsInk) (hm : m.KeepsInk) : ∀ a : Argument,
    ink (argument l a).value = ink (argument m a).value
  | .text _ => rfl
  | .field f => by simp only [argument, ink_field hl hm f]

theorem ink_filter (hl : l.KeepsInk) (hm : m.KeepsInk) : ∀ c : Option (Chain Condition),
    whereInk l c = whereInk m c
  | none => rfl
  | some ⟨x, xs⟩ => by
    simp only [whereInk, Option.elim_some, Chain.links, links, Journaled.value_bind,
      Journaled.value_pure, List.map_cons, ink_link hl hm x, ink_links hl hm xs]

theorem ink_links (hl : l.KeepsInk) (hm : m.KeepsInk) : ∀ xs : List (Link Condition),
    (links l xs).value.map (Link.map ink) = (links m xs).value.map (Link.map ink)
  | [] => rfl
  | x :: xs => by
    simp only [links, Journaled.value_bind, Journaled.value_pure, List.map_cons,
      ink_link hl hm x, ink_links hl hm xs]

theorem ink_link (hl : l.KeepsInk) (hm : m.KeepsInk) : ∀ x : Link Condition,
    (link l x).value.map ink = (link m x).value.map ink
  | ⟨none, _⟩ => rfl
  | ⟨some c, _⟩ => by
    simp only [link, Journaled.value_bind, Journaled.value_pure, Link.map, Option.map_some,
      ink_condition hl hm c]

theorem ink_condition (hl : l.KeepsInk) (hm : m.KeepsInk) : ∀ c : Condition,
    ink (condition l c).value = ink (condition m c).value
  | ⟨opens, closes, negated, field, call, comparison, value, kinds, query?⟩ => by
    simp only [condition, Journaled.value_bind, Journaled.value_pure, ink_append,
      ink_valueText hl hm value kinds query?]

theorem ink_valueText (hl : l.KeepsInk) (hm : m.KeepsInk) (value : Option FilterValue)
    (kinds : Option LiteralKinds) : ∀ q : Option Query,
    ink (valueText l value kinds q).value = ink (valueText m value kinds q).value
  | none => by cases value <;> rfl
  | some q => by
    simp only [valueText, laySubquery, Journaled.value_bind, Journaled.value_pure, hl.subquery,
      hm.subquery, ink_query hl hm q]

end

end Compose

/-! ## Configurations -/

namespace Query

/-- **Configurations change blanks only**: two texts of a query have the same ink, and where
    neither is spread over lines they are the same text. -/
theorem compose_same_ink (q : Query) (c d : Config) :
    ink (q.compose c) = ink (q.compose d) ∧
      (c.spread = false → d.spread = false → q.compose c = q.compose d) := by
  simp only [compose_eq]
  refine ⟨Compose.ink_query (Layout.keepsInk_standard ..) (Layout.keepsInk_standard ..) q,
    fun hc hd => ?_⟩
  simp only [Layout.ofConfig, Layout.standard, hc, hd, Bool.false_eq_true, if_false]

/-- A query in a filter, an empty list of sort keys and blanks at the end of a field. -/
theorem compose_same_ink_blanks :
    let inner : Query := ⟨[], .relationship "Ns" [], none, none, none, some (.many []), none, none,
      none, false, none, none⟩
    let q : Query := ⟨[.plain { name := "A " }, .subquery inner], .object "X", none,
      some (.cons ⟨0, 0, false, some " B", none, .isIn, none, none, some inner⟩ .or
        (.single ⟨1, 0, true, some "C", none, .equal, none, none, none⟩)),
      none, none, none, none, none, false, none, none⟩
    ink (q.compose {}) = ink (q.compose (.spreading {})) ∧
      q.compose {} ≠ q.compose (.spreading {}) ∧
      q.compose { autoCompose := false } = q.compose { logging := true, options.tabs := 3 } := by
  intro inner q
  exact ⟨(compose_same_ink q _ _).1, by decide +kernel, (compose_same_ink q _ _).2 rfl rfl⟩

end Query

end Soql
