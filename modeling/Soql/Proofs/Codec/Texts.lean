/-
  Queries through JSON texts.

  A query is written as a text, and the text is read, checked for unknown
  tags and decoded.  Only how deep a text may be sets a limit to this.

  * `Tags.unknownTag?_sorted`: no tag that encoding writes is unknown.
  * `Query.ofJsonText_toJsonText`: what comes back from the text of a query.
  * `Query.json_texts_read_back`: it is the query, unless that is too deep.
-/
import Mathlib
import Soql.Codec.Form
import Soql.Proofs.Codec.Query

namespace Soql

open Json

/-! ## Members of sorted objects -/

theorem lookup_map_sorted (key : Text) (ms : List (Text × Json)) :
    (ms.map fun m => (m.1, m.2.sorted)).lookup key = (ms.lookup key).map Json.sorted := by
  induction ms with
  | nil => rfl
  | cons m ms ih =>
    obtain ⟨k, v⟩ := m
    simp only [List.map_cons, List.lookup_cons, ih]
    cases key == k <;> rfl

theorem get?_sorted_obj {ms : List (Text × Json)} (h : (keys ms).Nodup) (key : Text) :
    (obj ms).sorted.get? key = ((obj ms).get? key).map Json.sorted := by
  have hk : (keys (sortedValues ms)).Nodup := by rw [keys_sortedValues]; exact h
  have hperm := sortMembers_perm hk
  rw [sorted_obj, get?, lookup_perm hperm ((keys_perm hperm).nodup_iff.2 hk), sortedValues_eq,
    lookup_map_sorted]
  rfl

theorem get?_sorted {v : Json} (h : v.Tidy) (key : Text) :
    v.sorted.get? key = (v.get? key).map Json.sorted := by
  cases v with
  | obj ms => exact get?_sorted_obj h.1 key
  | _ => rfl

/-- The member of a tidy value is tidy. -/
theorem tidy_of_get? {v w : Json} (h : v.Tidy) {key : Text} (hw : v.get? key = some w) :
    w.Tidy := by
  cases v with
  | obj ms => exact tidyMembers_iff.1 h.2 _ ((lookup_eq_some_iff_mem h.1).1 hw)
  | _ => cases hw

@[simp] theorem lookup_present (key k : Text) (o : Option Json) :
    (Encode.present k o).lookup key = if key = k then o else none := by
  cases o with
  | none => simp [Encode.present]
  | some v =>
    rw [Encode.present, List.lookup_cons]
    by_cases h : key = k
    · simp [h]
    · have hbeq : (key == k) = false := by simpa using h
      simp [h, hbeq]

/-! ## Tags -/

namespace Tags

theorem get?_fields (q : Query) :
    (Encode.query q).get? "fields" = some (.arr (q.fields.map Encode.field)) := by
  obtain ⟨fields, _, _, _, _, _, _, _, _, _, _, _⟩ := q
  simp [Encode.query, get?, List.lookup_append, Encode.fields_eq]

theorem get?_where (q : Query) : (Encode.query q).get? "where" =
    q.filter.map fun c => Encode.chain (c.map Encode.condition) := by
  obtain ⟨_, src, _, filter, _, _, _, _, _, _, _, _⟩ := q
  cases src <;>
    simp [Encode.query, get?, List.lookup_append, Encode.source, Encode.filter?_eq]

theorem get?_type (f : Field) :
    ∃ tag, (Encode.field f).get? "type" = some (.str (FieldTag.word tag)) := by
  cases f <;> simp [Encode.field, get?, List.lookup_append, Encode.tag]

theorem get?_subquery (f : Field) {v : Json} (h : (Encode.field f).get? "subquery" = some v) :
    ∃ q, f = .subquery q ∧ v = Encode.query q := by
  cases f with
  | call c =>
    obtain ⟨_, _, _, _, _⟩ := c
    simp [Encode.field, get?, List.lookup_append, Encode.tag, Encode.call] at h
  | subquery q =>
    have hv : Encode.query q = v := by
      simpa [Encode.field, get?, List.lookup_append, Encode.tag] using h
    exact ⟨q, rfl, hv.symm⟩
  | _ => simp [Encode.field, get?, List.lookup_append, Encode.tag] at h

theorem get?_parameters (f : Field) {v : Json} (h : (Encode.field f).get? "parameters" = some v) :
    ∃ as, v = .arr (List.map Encode.argument as) := by
  cases f with
  | call c =>
    obtain ⟨_, args, _, _, _⟩ := c
    have hv : Json.arr (args.map Encode.argument) = v := by
      simpa [Encode.field, get?, List.lookup_append, Encode.tag, Encode.call,
        Encode.arguments_eq] using h
    exact ⟨args, hv.symm⟩
  | _ => simp [Encode.field, get?, List.lookup_append, Encode.tag] at h

theorem get?_left (x : Link Condition) (xs : List (Link Condition)) :
    (Encode.chain (Chain.map Encode.condition ⟨x, xs⟩)).get? "left" =
      x.condition.map Encode.condition := by
  simp [Encode.chain_eq, get?, List.lookup_append]

theorem get?_right (x : Link Condition) (xs : List (Link Condition)) :
    (Encode.chain (Chain.map Encode.condition ⟨x, xs⟩)).get? "right" =
      (Encode.rest? xs).map fun c => Encode.chain (c.map Encode.condition) := by
  simp [Encode.chain_eq, get?, List.lookup_append]

theorem get?_valueQuery (c : Condition) :
    (Encode.condition c).get? "valueQuery" = c.query.map Encode.query := by
  obtain ⟨_, _, _, _, _, _, _, _, query⟩ := c
  simp [Encode.condition, get?, List.lookup_append, Encode.valueQuery_eq]

theorem inField_str (n : Nat) (t : Text) : inField n (.str t) = none := by
  cases n <;> rfl

section None

variable {v : Json} {key : Text} {f : Json → Option Text}

theorem bind_get?_eq_none (h : v.Tidy)
    (hf : ∀ w, v.get? key = some w → w.Tidy → f w.sorted = none) :
    (v.sorted.get? key).bind f = none := by
  rw [get?_sorted h]
  cases hw : v.get? key with
  | none => rfl
  | some w => exact hf w hw (tidy_of_get? h hw)

theorem findSome?_itemsOf_eq_none (h : v.Tidy)
    (hf : ∀ items, v.get? key = some (.arr items) → ∀ w ∈ items, w.Tidy → f w.sorted = none) :
    (itemsOf key v.sorted).findSome? f = none := by
  rw [itemsOf, get?_sorted h, List.findSome?_eq_none_iff]
  cases hw : v.get? key with
  | none => simp
  | some w =>
    have htidy := tidy_of_get? h hw
    cases w with
    | arr items =>
      rw [Option.map_some, sorted_arr]
      exact List.forall_mem_map.2 fun w hmem => hf items hw w hmem (tidyItems_iff.1 htidy w hmem)
    | _ => simp [Json.sorted, items?]

end None

section Step

variable {n : Nat} (hq : ∀ q, (Encode.query q).Tidy → inQuery n (Encode.query q).sorted = none)
  (hf : ∀ f, (Encode.field f).Tidy → inField n (Encode.field f).sorted = none)
  (hc : ∀ c, (Encode.chain (Chain.map Encode.condition c)).Tidy →
    inFilter n (Encode.chain (c.map Encode.condition)).sorted = none)

include hf hc in
theorem inQuery_sorted {q : Query} (h : (Encode.query q).Tidy) :
    inQuery (n + 1) (Encode.query q).sorted = none := by
  rw [inQuery, Option.or_eq_none_iff]
  constructor
  · refine findSome?_itemsOf_eq_none h fun items hitems w hw htidy => ?_
    rw [get?_fields] at hitems
    obtain rfl := Json.arr.inj (Option.some.inj hitems)
    obtain ⟨f, -, rfl⟩ := List.mem_map.1 hw
    exact hf f htidy
  · refine bind_get?_eq_none h fun w hw htidy => ?_
    rw [get?_where] at hw
    obtain ⟨c, -, rfl⟩ := Option.map_eq_some_iff.1 hw
    exact hc c htidy

include hq hf in
theorem inField_sorted {f : Field} (h : (Encode.field f).Tidy) :
    inField (n + 1) (Encode.field f).sorted = none := by
  obtain ⟨tag, htag⟩ := get?_type f
  have hword : tagOf (Encode.field f).sorted = some tag.word := by
    rw [tagOf, get?_sorted h, htag]
    rfl
  have hknown : (FieldTag.ofWord? tag.word).isNone = false := by cases tag <;> decide
  rw [inField, hword]
  simp only [hknown, Bool.false_eq_true, if_false, Option.or_eq_none_iff]
  constructor
  · refine bind_get?_eq_none h fun w hw htidy => ?_
    obtain ⟨q, -, rfl⟩ := get?_subquery f hw
    exact hq q htidy
  · refine findSome?_itemsOf_eq_none h fun items hitems w hw htidy => ?_
    obtain ⟨as, has⟩ := get?_parameters f hitems
    obtain rfl := Json.arr.inj has
    obtain ⟨a, -, rfl⟩ := List.mem_map.1 hw
    cases a with
    | text t => exact inField_str n t
    | field g => exact hf g htidy

include hq hc in
theorem inFilter_sorted {c : Chain Condition}
    (h : (Encode.chain (Chain.map Encode.condition c)).Tidy) :
    inFilter (n + 1) (Encode.chain (c.map Encode.condition)).sorted = none := by
  obtain ⟨x, xs⟩ := c
  rw [inFilter, Option.or_eq_none_iff]
  constructor
  · rw [Option.bind_assoc]
    refine bind_get?_eq_none h fun w hw htidy => ?_
    rw [get?_left] at hw
    obtain ⟨k, -, rfl⟩ := Option.map_eq_some_iff.1 hw
    refine bind_get?_eq_none htidy fun w hw htidy => ?_
    rw [get?_valueQuery] at hw
    obtain ⟨q, -, rfl⟩ := Option.map_eq_some_iff.1 hw
    exact hq q htidy
  · refine bind_get?_eq_none h fun w hw htidy => ?_
    rw [get?_right] at hw
    obtain ⟨c, -, rfl⟩ := Option.map_eq_some_iff.1 hw
    exact hc c htidy

end Step

/-- No tag that encoding writes is unknown. -/
theorem upTo_sorted (n : Nat) :
    (∀ q, (Encode.query q).Tidy → inQuery n (Encode.query q).sorted = none) ∧
    (∀ f, (Encode.field f).Tidy → inField n (Encode.field f).sorted = none) ∧
    (∀ c, (Encode.chain (Chain.map Encode.condition c)).Tidy →
      inFilter n (Encode.chain (c.map Encode.condition)).sorted = none) := by
  induction n with
  | zero => exact ⟨fun _ _ => rfl, fun _ _ => rfl, fun _ _ => rfl⟩
  | succ n ih =>
    obtain ⟨hq, hf, hc⟩ := ih
    exact ⟨fun _ => inQuery_sorted hf hc, fun _ => inField_sorted hq hf,
      fun _ => inFilter_sorted hq hc⟩

theorem unknownTag?_sorted {q : Query} (h : (Encode.query q).Tidy) :
    unknownTag? (Encode.query q).sorted = none :=
  (upTo_sorted _).1 q h

end Tags

/-! ## Texts -/

namespace Query

variable {q : Query}

/-- The query of the value that its JSON form is read as. -/
theorem ofJson_sorted (h : ∀ r ∈ q.all, r.Storable) : ofJson (Encode.query q).sorted = .ok q := by
  have hform := Form.query h
  rw [ofJson, Tags.unknownTag?_sorted hform.tidy]
  simp only [hform.decodes]

/-- A text that is read as the JSON form of a query, as far as that may be deep. -/
theorem ofJsonText_of_read {t : Text} (h : ∀ r ∈ q.all, r.Storable)
    (ht : Json.read t = within maxDepth (Encode.query q)) :
    ofJsonText t = if (Encode.query q).depth ≤ maxDepth then .ok q
      else .error (.json .malformed) := by
  rw [ofJsonText, ht, within]
  by_cases hd : (Encode.query q).depth ≤ maxDepth
  · simp only [if_pos hd, ofJson_sorted h]
  · simp only [if_neg hd]

theorem ofJsonText_toJsonText (h : ∀ r ∈ q.all, r.Storable) :
    ofJsonText q.toJsonText = if (Encode.query q).depth ≤ maxDepth then .ok q
      else .error (.json .malformed) :=
  ofJsonText_of_read h (read_render (Form.query h).tidy)

theorem ofJsonText_toJsonPretty (h : ∀ r ∈ q.all, r.Storable) :
    ofJsonText q.toJsonPretty = if (Encode.query q).depth ≤ maxDepth then .ok q
      else .error (.json .malformed) :=
  ofJsonText_of_read h (read_renderPretty (Form.query h).tidy)

/-- **Every query is read back from its JSON texts**, the compact one and the one over several
    lines, if no list of sort keys in it is empty and its form is not deeper than what is read.
    Counts of parentheses are numbers of 32 bits. -/
theorem json_texts_read_back (hcounts : ∀ r ∈ q.all, r.CountsFit)
    (hkeys : ∀ r ∈ q.all, r.sorting ≠ some (.many []))
    (hdepth : (Encode.query q).depth ≤ Json.maxDepth) :
    ofJsonText q.toJsonText = .ok q ∧ ofJsonText q.toJsonPretty = .ok q := by
  have hs : ∀ r ∈ q.all, r.Storable := fun r hr => ⟨hcounts r hr, hkeys r hr⟩
  rw [ofJsonText_toJsonText hs, ofJsonText_toJsonPretty hs, if_pos hdepth]
  exact ⟨rfl, rfl⟩

/-- A query that no text stands for: no fields, a field and a call compared at once, no value but
    kinds, and queries in an argument and in a condition. -/
theorem json_texts_read_back_unwritten :
    let inner : Query := ⟨[], .relationship "Ns" [], none, none, some {}, some (.many [{}]), none,
      some 0, some [], true, none, none⟩
    let q : Query := ⟨[.call ⟨"f", [.text "", .field (.subquery inner)], none, false, none⟩],
      .object [], none, some (.single ⟨1, 2, true, some "A", some {}, .notIn, none,
        some (.each []), some inner⟩), none, none, none, none, none, false, some .view, none⟩
    ofJsonText q.toJsonText = .ok q ∧ ofJsonText q.toJsonPretty = .ok q := by
  intro inner q
  have hall : q.all = [q, inner, inner] := rfl
  refine json_texts_read_back ?_ ?_ (by decide +kernel)
  · rw [hall]
    simp [Query.CountsFit, Chain.CountsFit, Chain.conditions, Link.conditions, Chain.links,
      Chain.single, Parenthesized.opens, Parenthesized.closes, UInt32.size, q, inner]
  · rw [hall]
    simp [q, inner]

end Query

end Soql
