/-
  Unknown tags in members that decoding passes over.

  Decoding reads the members of a field expression that its kind has, and
  passes over all others.  Unknown tags are looked for in the query and in the
  arguments of every expression, whatever its kind.  This is the only way in
  which a value that decodes can be refused.

  * `Tags.PassedOver v`: the field expression `v` has such a member with an
    unknown tag in it.
  * `Tags.Reads P role v`: a field expression with `P` lies where the value is
    decoded.
  * `Tags.foundPassedOver`: in a value that decodes, unknown tags are in members
    that are passed over.
  * `Query.ofJson_decoded_iff`: when a value that decodes is not refused.
-/
import Mathlib
import Soql.Proofs.Codec.Texts
import Soql.Query.Build

namespace Soql

open Json

variable {σ α : Type}

/-! ## Parts of a value -/

theorem mem_of_lookup {key : Text} {v : Json} {ms : List (Text × Json)}
    (h : ms.lookup key = some v) : (key, v) ∈ ms := by
  induction ms with
  | nil => cases h
  | cons m ms ih =>
    obtain ⟨k, w⟩ := m
    rw [List.lookup_cons] at h
    split at h
    · rename_i hk
      obtain rfl := Option.some.inj h
      exact List.mem_cons.2 (Or.inl (by rw [beq_iff_eq.1 hk]))
    · exact List.mem_cons_of_mem _ (ih h)

theorem depth_lt_of_get? {v w : Json} {key : Text} (h : v.get? key = some w) :
    w.depth < v.depth := by
  cases v with
  | obj ms => exact depth_lt_obj key (mem_of_lookup h)
  | _ => cases h

namespace Tags

theorem mem_itemsOf {v w : Json} {key : Text} :
    w ∈ itemsOf key v ↔ ∃ items, v.get? key = some (.arr items) ∧ w ∈ items := by
  rw [itemsOf]
  cases h : v.get? key with
  | none => simp
  | some u => cases u <;> simp [items?]

theorem depth_lt_of_mem_itemsOf {v w : Json} {key : Text} (h : w ∈ itemsOf key v) :
    w.depth < v.depth := by
  obtain ⟨items, hv, hw⟩ := mem_itemsOf.1 h
  exact (depth_lt_arr hw).trans (depth_lt_of_get? hv)

theorem findSome?_congr {f g : Json → Option Text} {items : List Json}
    (h : ∀ w ∈ items, f w = g w) : items.findSome? f = items.findSome? g := by
  induction items with
  | nil => rfl
  | cons w items ih =>
    obtain ⟨hw, hitems⟩ := List.forall_mem_cons.1 h
    rw [List.findSome?_cons, List.findSome?_cons, hw, ih hitems]

/-- As far as a value is deep, the number of steps down does not matter. -/
theorem upTo_eq (n : Nat) : ∀ m,
    (∀ v : Json, v.depth < n → v.depth < m → inQuery n v = inQuery m v) ∧
    (∀ v : Json, v.depth < n → v.depth < m → inField n v = inField m v) ∧
    (∀ v : Json, v.depth < n → v.depth < m → inFilter n v = inFilter m v) := by
  induction n with
  | zero => exact fun m => ⟨fun v h => by omega, fun v h => by omega, fun v h => by omega⟩
  | succ n ih =>
    intro m
    cases m with
    | zero => exact ⟨fun v _ h => by omega, fun v _ h => by omega, fun v _ h => by omega⟩
    | succ m =>
      obtain ⟨ihq, ihf, ihc⟩ := ih m
      have hitems (v : Json) (key : Text) (hn : v.depth < n + 1) (hm : v.depth < m + 1) :
          (itemsOf key v).findSome? (inField n) = (itemsOf key v).findSome? (inField m) := by
        refine findSome?_congr fun w hw => ?_
        have := depth_lt_of_mem_itemsOf hw
        exact ihf w (by omega) (by omega)
      have hget {f g : Json → Option Text} (v : Json) (key : Text) (hn : v.depth < n + 1)
          (hm : v.depth < m + 1) (h : ∀ w : Json, w.depth < n → w.depth < m → f w = g w) :
          (v.get? key).bind f = (v.get? key).bind g := by
        refine Option.bind_congr fun w hw => ?_
        have := depth_lt_of_get? hw
        exact h w (by omega) (by omega)
      refine ⟨fun v hn hm => ?_, fun v hn hm => ?_, fun v hn hm => ?_⟩
      · rw [inQuery, inQuery, hitems v _ hn hm, hget v _ hn hm ihc]
      · rw [inField, inField, hitems v _ hn hm, hget v _ hn hm ihq]
      · rw [inFilter, inFilter, hget v _ hn hm ihc, Option.bind_assoc, Option.bind_assoc,
          hget v "left" hn hm fun w hwn hwm => hget w _ (by omega) (by omega) ihq]

/-! ## What is read and what is passed over -/

/-- What a value is where tags are looked for. -/
inductive Role where
  | query | field | filter

/-- A field expression with `P` lies where the value is decoded as what it is. -/
inductive Reads (P : Json → Prop) : Role → Json → Prop
  /-- The value is the expression. -/
  | here {v : Json} (h : P v) : Reads P .field v
  /-- It lies in a field of a query. -/
  | field {v w : Json} (hw : w ∈ itemsOf "fields" v) (h : Reads P .field w) : Reads P .query v
  /-- It lies in the filter of a query. -/
  | filter {v w : Json} (hw : v.get? "where" = some w) (h : Reads P .filter w) : Reads P .query v
  /-- It lies in the query that the first condition of a filter compares with. -/
  | left {v c w : Json} (hc : v.get? "left" = some c) (hw : c.get? "valueQuery" = some w)
      (h : Reads P .query w) : Reads P .filter v
  /-- It lies in the links after the first one. -/
  | right {v w : Json} (hw : v.get? "right" = some w) (h : Reads P .filter w) : Reads P .filter v
  /-- It lies in the query of an expression that is one. -/
  | subquery {v w : Json} (hv : tagOf v = some FieldTag.subquery.word)
      (hw : v.get? "subquery" = some w) (h : Reads P .query w) : Reads P .field v
  /-- It lies in an argument of a call. -/
  | argument {v w : Json} (hv : tagOf v = some FieldTag.call.word) (hw : w ∈ itemsOf "parameters" v)
      (h : Reads P .field w) : Reads P .field v

/-- An expression has a query or arguments although its kind has none, and an unknown tag lies in
    these. -/
def PassedOver (v : Json) : Prop :=
  ∃ tag : FieldTag, tagOf v = some tag.word ∧
    ((tag ≠ .subquery ∧ ∃ w, v.get? "subquery" = some w ∧ (unknownTag? w).isSome) ∨
      (tag ≠ .call ∧ ∃ w ∈ itemsOf "parameters" v, (inField (w.depth + 1) w).isSome))

section Reads

variable {P : Json → Prop} {v : Json}

theorem reads_query_iff : Reads P .query v ↔
    (∃ w ∈ itemsOf "fields" v, Reads P .field w) ∨
      ∃ w, v.get? "where" = some w ∧ Reads P .filter w := by
  constructor
  · rintro (_ | ⟨hw, h⟩ | ⟨hw, h⟩)
    · exact Or.inl ⟨_, hw, h⟩
    · exact Or.inr ⟨_, hw, h⟩
  · rintro (⟨w, hw, h⟩ | ⟨w, hw, h⟩)
    · exact .field hw h
    · exact .filter hw h

theorem reads_filter_iff : Reads P .filter v ↔
    (∃ c w, v.get? "left" = some c ∧ c.get? "valueQuery" = some w ∧ Reads P .query w) ∨
      ∃ w, v.get? "right" = some w ∧ Reads P .filter w := by
  constructor
  · intro h
    cases h with
    | left hc hw h => exact Or.inl ⟨_, _, hc, hw, h⟩
    | right hw h => exact Or.inr ⟨_, hw, h⟩
  · rintro (⟨c, w, hc, hw, h⟩ | ⟨w, hw, h⟩)
    · exact .left hc hw h
    · exact .right hw h

theorem reads_field_iff : Reads P .field v ↔ P v ∨
    (tagOf v = some FieldTag.subquery.word ∧
      ∃ w, v.get? "subquery" = some w ∧ Reads P .query w) ∨
    (tagOf v = some FieldTag.call.word ∧ ∃ w ∈ itemsOf "parameters" v, Reads P .field w) := by
  constructor
  · intro h
    cases h with
    | here h => exact Or.inl h
    | subquery hv hw h => exact Or.inr (Or.inl ⟨hv, _, hw, h⟩)
    | argument hv hw h => exact Or.inr (Or.inr ⟨hv, _, hw, h⟩)
  · rintro (h | ⟨hv, w, hw, h⟩ | ⟨hv, w, hw, h⟩)
    · exact .here h
    · exact .subquery hv hw h
    · exact .argument hv hw h

end Reads

/-! ## Components that are decoded -/

end Tags

namespace FieldTag

theorem ofWord?_word (tag : FieldTag) : ofWord? tag.word = some tag := by
  cases tag <;> decide

theorem word_of_ofWord? {word : Text} {tag : FieldTag} (h : ofWord? word = some tag) :
    word = tag.word := by
  have hbeq := List.find?_some h
  exact (beq_iff_eq.1 hbeq).symm

theorem word_inj {s t : FieldTag} : s.word = t.word ↔ s = t := by
  constructor
  · intro h
    have hword := ofWord?_word s
    rw [h, ofWord?_word] at hword
    exact (Option.some.inj hword).symm
  · rintro rfl
    rfl

end FieldTag

namespace Decode

variable {r : Record σ} {origin : Origin} {v w : Json} {key : Text} {d : Decoder α}

theorem map_eq_ok {s : σ} {f : α → σ} {x : Except Fault α} (h : f <$> x = .ok s) :
    ∃ a, x = .ok a := by
  cases x with
  | error fault => cases h
  | ok a => exact ⟨a, rfl⟩

/-- Every member that is a component is decoded as one. -/
theorem putMembers_mem {slots : List (Slot σ)} {ms : List (Text × Json)} {s s' : σ}
    (h : putMembers slots s ms = .ok s') (hw : (key, w) ∈ ms) {slot : Slot σ}
    (hslot : slots.find? (·.key == key) = some slot) : ∃ t t', slot.put t w = .ok t' := by
  induction ms generalizing s with
  | nil => cases hw
  | cons m ms ih =>
    rw [putMembers_cons, bind_eq_ok_iff] at h
    obtain ⟨t, hput, h⟩ := h
    rcases List.mem_cons.1 hw with rfl | hw
    · rw [putMember_of_find hslot] at hput
      exact ⟨s, t, hput⟩
    · exact ih h hw

theorem recordOfMembers_get? {ms : List (Text × Json)} {s : σ} (h : recordOfMembers r ms = .ok s)
    (hw : (Json.obj ms).get? key = some w) {slot : Slot σ}
    (hslot : r.slots.find? (·.key == key) = some slot) : ∃ t t', slot.put t w = .ok t' := by
  obtain ⟨s', hput, -⟩ := bind_eq_ok_iff.1 h
  exact putMembers_mem hput (mem_of_lookup hw) hslot

/-- A member of an object that is a component is decoded as one. -/
theorem record_get? {s : σ} (h : record r origin v = .ok s) (hw : v.get? key = some w)
    {slot : Slot σ} (hslot : r.slots.find? (·.key == key) = some slot) :
    ∃ t t', slot.put t w = .ok t' := by
  cases v with
  | obj ms => exact recordOfMembers_get? h hw hslot
  | _ => cases hw

theorem optional_eq_ok {o : Option α} (h : optional d v = .ok o) :
    v = .null ∨ ∃ a, d v = .ok a := by
  cases v with
  | null => exact Or.inl rfl
  | _ => exact Or.inr (map_eq_ok h)

theorem list_eq_ok {as : List α} (h : list d v = .ok as) :
    ∃ items, v = .arr items ∧ ∀ w ∈ items, ∃ a, d w = .ok a := by
  cases v with
  | arr items =>
    refine ⟨items, rfl, fun w hw => ?_⟩
    change items.mapM d = .ok as at h
    induction items generalizing as with
    | nil => cases hw
    | cons u items ih =>
      rw [List.mapM_cons] at h
      obtain ⟨a, ha, h⟩ := bind_eq_ok_iff.1 h
      obtain ⟨as, has, -⟩ := bind_eq_ok_iff.1 h
      rcases List.mem_cons.1 hw with rfl | hw
      · exact ⟨a, ha⟩
      · exact ih hw has
  | _ => cases h

/-- The parts of a query that decodes. -/
theorem queryWith_eq_ok {field : Decoder Field} {query : Decoder Query} {q : Query}
    (h : queryWith field query origin v = .ok q) :
    (∀ w ∈ Tags.itemsOf "fields" v, ∃ f, field w = .ok f) ∧
      ∀ w, v.get? "where" = some w → w = .null ∨ ∃ c, filter query origin w = .ok c := by
  cases v with
  | obj ms =>
    obtain ⟨q', hq', -⟩ := bind_eq_ok_iff.1 h
    refine ⟨fun w hw => ?_, fun w hw => ?_⟩
    · obtain ⟨items, hitems, hw⟩ := Tags.mem_itemsOf.1 hw
      obtain ⟨_, _, hput⟩ := recordOfMembers_get? hq' hitems rfl
      obtain ⟨fs, hfs⟩ := map_eq_ok hput
      obtain ⟨_, heq, hall⟩ := list_eq_ok hfs
      cases heq
      exact hall w hw
    · obtain ⟨_, _, hput⟩ := recordOfMembers_get? hq' hw rfl
      obtain ⟨o, ho⟩ := map_eq_ok hput
      exact optional_eq_ok ho
  | _ => cases h

/-- The parts of a filter that decodes. -/
theorem chainUpTo_eq_ok {κ : Type} {name : Text} {condition : Decoder κ} {n : Nat} {c : Chain κ}
    (h : chainUpTo name condition origin (n + 1) v = .ok c) :
    (∀ w, v.get? "left" = some w → w = .null ∨ ∃ k, condition w = .ok k) ∧
      ∀ w, v.get? "right" = some w →
        w = .null ∨ ∃ c, chainUpTo name condition origin n w = .ok c := by
  obtain ⟨node, hnode⟩ := map_eq_ok h
  refine ⟨fun w hw => ?_, fun w hw => ?_⟩
  all_goals
    obtain ⟨_, _, hput⟩ := record_get? hnode hw rfl
    obtain ⟨o, ho⟩ := map_eq_ok hput
    exact optional_eq_ok ho

/-- The query that a condition which decodes compares with. -/
theorem condition_eq_ok {query : Decoder Query} {c : Condition}
    (h : condition query origin v = .ok c) (hw : v.get? "valueQuery" = some w) :
    w = .null ∨ ∃ q, query w = .ok q := by
  obtain ⟨_, _, hput⟩ := record_get? h hw rfl
  obtain ⟨o, ho⟩ := map_eq_ok hput
  exact optional_eq_ok ho

/-- The arguments of a call that decodes. -/
theorem call_eq_ok {field : Decoder Field} {c : Call} (h : call field origin v = .ok c)
    (hw : w ∈ Tags.itemsOf "parameters" v) : (∃ t, w = .str t) ∨ ∃ f, field w = .ok f := by
  obtain ⟨items, hitems, hw⟩ := Tags.mem_itemsOf.1 hw
  obtain ⟨_, _, hput⟩ := record_get? h hitems rfl
  obtain ⟨as, has⟩ := map_eq_ok hput
  obtain ⟨_, heq, hall⟩ := list_eq_ok has
  cases heq
  obtain ⟨a, ha⟩ := hall w hw
  simp only [argument, either] at ha
  split at ha
  · rename_i htext
    obtain ⟨t, ht⟩ := map_eq_ok htext
    cases w with
    | str t => exact Or.inl ⟨t, rfl⟩
    | _ => cases ht
  · split at ha
    · rename_i hfield
      exact Or.inr (map_eq_ok hfield)
    · cases ha

/-- The query of an expression that decodes. -/
theorem subquery_eq_ok {query : Decoder Query} {o : Option Query}
    (h : subquery query origin v = .ok o) (hw : v.get? "subquery" = some w) :
    ∃ q, query w = .ok q := by
  obtain ⟨_, _, hput⟩ := record_get? h hw rfl
  exact map_eq_ok hput

theorem lookup_filter_ne {key other : Text} (h : key ≠ other) (ms : List (Text × Json)) :
    (ms.filter (·.1 != other)).lookup key = ms.lookup key := by
  induction ms with
  | nil => rfl
  | cons m ms ih =>
    obtain ⟨k, u⟩ := m
    by_cases hk : k = other
    · have hne : (key == k) = false := beq_eq_false_iff_ne.2 (hk ▸ h)
      have hbne : (k != other) = false := by simpa using hk
      rw [List.filter_cons_of_neg (by simp [hbne]), List.lookup_cons, hne, ih]
    · have hbne : (k != other) = true := bne_iff_ne.2 hk
      rw [List.filter_cons_of_pos (by simp [hbne]), List.lookup_cons, List.lookup_cons, ih]

/-- A field expression with a word for its tag that decodes: the word is known, and what is left
    decodes as that kind says. -/
theorem fieldWith_eq_ok {field : Decoder Field} {query : Decoder Query} {f : Field} {word : Text}
    (h : fieldWith field query origin v = .ok f) (hword : Tags.tagOf v = some word) :
    ∃ tag : FieldTag, word = tag.word ∧
      (tag = .call → ∀ w ∈ Tags.itemsOf "parameters" v, (∃ t, w = .str t) ∨ ∃ f, field w = .ok f) ∧
      (tag = .subquery → ∀ w, v.get? "subquery" = some w → ∃ q, query w = .ok q) := by
  cases v with
  | obj ms =>
    have hmember : ms.lookup ("type" : Text) = some (.str word) := by
      rw [Tags.tagOf, get?] at hword
      cases hlookup : ms.lookup ("type" : Text) with
      | none =>
        rw [hlookup] at hword
        cases hword
      | some u =>
        rw [hlookup] at hword
        cases u <;> cases hword
        rfl
    obtain ⟨⟨tag, content⟩, hsplit, hcontent⟩ := bind_eq_ok_iff.1 h
    simp only [splitTag, hmember] at hsplit
    obtain ⟨tag', htag, hpair⟩ := bind_eq_ok_iff.1 hsplit
    cases hpair
    have hknown : FieldTag.ofWord? word = some tag := by
      simp only [fieldTag] at htag
      split at htag
      · rename_i hw
        cases htag
        exact hw
      · cases htag
    have hget {key : Text} (hne : key ≠ ("type" : Text)) :
        (Json.obj (ms.filter (·.1 != ("type" : Text)))).get? key = (Json.obj ms).get? key :=
      lookup_filter_ne hne ms
    refine ⟨tag, FieldTag.word_of_ofWord? hknown, ?_, ?_⟩
    · rintro rfl w hw
      obtain ⟨c, hc⟩ := map_eq_ok hcontent
      rw [Tags.itemsOf, ← hget (by decide)] at hw
      exact call_eq_ok hc hw
    · rintro rfl w hw
      obtain ⟨o, ho, -⟩ := bind_eq_ok_iff.1 hcontent
      rw [← hget (by decide)] at hw
      exact subquery_eq_ok ho hw
  | _ => cases hword

end Decode

namespace Tags

/-! ## Where unknown tags are found -/

theorem isSome_or_iff {a b : Option Text} : (a.or b).isSome ↔ a.isSome ∨ b.isSome := by
  cases a <;> simp

theorem isSome_bind_get?_iff {v : Json} {key : Text} {f : Json → Option Text} :
    ((v.get? key).bind f).isSome ↔ ∃ w, v.get? key = some w ∧ (f w).isSome := by
  cases v.get? key <;> simp

/-- A filter that is absent. -/
theorem inFilter_null (n : Nat) : (inFilter n .null).isSome ↔ Reads PassedOver .filter .null := by
  rw [reads_filter_iff]
  cases n <;> simp [inFilter, get?]

/-- A query that is absent. -/
theorem inQuery_null (n : Nat) : (inQuery n .null).isSome ↔ Reads PassedOver .query .null := by
  rw [reads_query_iff]
  cases n <;> simp [inQuery, get?, itemsOf]

/-- Where an expression has a known tag, unknown ones are looked for in its query and arguments. -/
theorem inField_of_tag (n : Nat) {v : Json} {tag : FieldTag} (h : tagOf v = some tag.word) :
    inField (n + 1) v = ((v.get? "subquery").bind (inQuery n)).or
      ((itemsOf "parameters" v).findSome? (inField n)) := by
  rw [inField, h]
  simp only [FieldTag.ofWord?_word, Option.isNone_some, Bool.false_eq_true, if_false]

/-- What is passed over, as far as the value is deep. -/
theorem passedOver_iff {n : Nat} {v : Json} {tag : FieldTag} (hv : v.depth < n + 1)
    (h : tagOf v = some tag.word) : PassedOver v ↔
      (tag ≠ .subquery ∧ ∃ w, v.get? "subquery" = some w ∧ (inQuery n w).isSome) ∨
        (tag ≠ .call ∧ ∃ w ∈ itemsOf "parameters" v, (inField n w).isSome) := by
  have hquery (w : Json) (hw : v.get? "subquery" = some w) : unknownTag? w = inQuery n w := by
    have := depth_lt_of_get? hw
    exact (upTo_eq _ n).1 w (by omega) (by omega)
  have hfield (w : Json) (hw : w ∈ itemsOf "parameters" v) :
      inField (w.depth + 1) w = inField n w := by
    have := depth_lt_of_mem_itemsOf hw
    exact (upTo_eq _ n).2.1 w (by omega) (by omega)
  constructor
  · rintro ⟨t, ht, hpassed⟩
    obtain rfl : tag = t := FieldTag.word_inj.1 (Option.some.inj (h.symm.trans ht))
    rcases hpassed with ⟨hne, w, hw, hsome⟩ | ⟨hne, w, hw, hsome⟩
    · exact Or.inl ⟨hne, w, hw, hquery w hw ▸ hsome⟩
    · exact Or.inr ⟨hne, w, hw, hfield w hw ▸ hsome⟩
  · intro hpassed
    refine ⟨tag, h, ?_⟩
    rcases hpassed with ⟨hne, w, hw, hsome⟩ | ⟨hne, w, hw, hsome⟩
    · exact Or.inl ⟨hne, w, hw, (hquery w hw).symm ▸ hsome⟩
    · exact Or.inr ⟨hne, w, hw, (hfield w hw).symm ▸ hsome⟩

/-- Nothing is looked at in an expression without a word for its tag. -/
theorem inField_of_none (n : Nat) {v : Json} (h : tagOf v = none) :
    (inField n v).isSome ↔ Reads PassedOver .field v := by
  have hread : ¬ Reads PassedOver .field v := by
    rw [reads_field_iff, h]
    rintro (⟨tag, htag, -⟩ | ⟨htag, -⟩ | ⟨htag, -⟩)
    · rw [h] at htag
      cases htag
    · cases htag
    · cases htag
  have hfield : inField n v = none := by
    cases n with
    | zero => rfl
    | succ n => rw [inField, h]
  rw [hfield]
  exact ⟨fun h => (by cases h), fun h => absurd h hread⟩

/-- What lies in an expression of a kind is either read or passed over. -/
theorem passed_or_read_iff {A B A' B' : Prop} {tag : FieldTag} (hs : tag = .subquery → (A ↔ A'))
    (hc : tag = .call → (B ↔ B')) : A ∨ B ↔ ((tag ≠ .subquery ∧ A) ∨ (tag ≠ .call ∧ B)) ∨
      (tag = .subquery ∧ A') ∨ (tag = .call ∧ B') := by
  by_cases hsub : tag = .subquery
  · subst hsub
    simp only [hs rfl, ne_eq, not_true_eq_false, false_and, false_or, true_and, reduceCtorEq,
      not_false_eq_true, or_false]
    exact or_comm
  · by_cases hcall : tag = .call
    · subst hcall
      simp [hc rfl]
    · simp [hsub, hcall]

/-- At most `n` steps down, in values that decode, unknown tags are found in members that are
    passed over. -/
structure FoundPassedOver (n : Nat) : Prop where
  query : ∀ {v : Json} {k : Nat} {origin : Decode.Origin} {q : Query}, v.depth < n →
    Decode.queryUpTo k origin v = .ok q → ((inQuery n v).isSome ↔ Reads PassedOver .query v)
  field : ∀ {v : Json} {k : Nat} {origin : Decode.Origin} {f : Field}, v.depth < n →
    Decode.fieldUpTo k origin v = .ok f → ((inField n v).isSome ↔ Reads PassedOver .field v)
  filter : ∀ {v : Json} {k m : Nat} {origin : Decode.Origin} {c : Chain Condition}, v.depth < n →
    Decode.chainUpTo "WhereClause" (Decode.condition (Decode.queryUpTo k origin) origin) origin
      m v = .ok c → ((inFilter n v).isSome ↔ Reads PassedOver .filter v)

namespace FoundPassedOver

variable {n k m : Nat} {v : Json} {origin : Decode.Origin}

theorem query_succ (ih : FoundPassedOver n) {q : Query} (hv : v.depth < n + 1)
    (h : Decode.queryUpTo k origin v = .ok q) :
    (inQuery (n + 1) v).isSome ↔ Reads PassedOver .query v := by
  cases k with
  | zero => cases h
  | succ k =>
    obtain ⟨hfields, hfilter⟩ := Decode.queryWith_eq_ok h
    rw [inQuery, isSome_or_iff, List.findSome?_isSome_iff, isSome_bind_get?_iff, reads_query_iff]
    refine or_congr (exists_congr fun w => and_congr_right fun hw => ?_)
      (exists_congr fun w => and_congr_right fun hw => ?_)
    · obtain ⟨f, hf⟩ := hfields w hw
      have hdepth := depth_lt_of_mem_itemsOf hw
      exact ih.field (by omega) hf
    · have hdepth := depth_lt_of_get? hw
      rcases hfilter w hw with rfl | ⟨c, hc⟩
      · exact inFilter_null n
      · exact ih.filter (by omega) hc

theorem filter_succ (ih : FoundPassedOver n) {c : Chain Condition} (hv : v.depth < n + 1)
    (h : Decode.chainUpTo "WhereClause" (Decode.condition (Decode.queryUpTo k origin) origin) origin
      m v = .ok c) : (inFilter (n + 1) v).isSome ↔ Reads PassedOver .filter v := by
  cases m with
  | zero => cases h
  | succ m =>
    obtain ⟨hleft, hright⟩ := Decode.chainUpTo_eq_ok h
    rw [inFilter, isSome_or_iff, Option.bind_assoc, isSome_bind_get?_iff, isSome_bind_get?_iff,
      reads_filter_iff]
    refine or_congr ?_ (exists_congr fun w => and_congr_right fun hw => ?_)
    · simp only [isSome_bind_get?_iff, ← exists_and_left]
      refine exists_congr fun c => exists_congr fun w => and_congr_right fun hc =>
        and_congr_right fun hw => ?_
      have hdepth := (depth_lt_of_get? hw).trans (depth_lt_of_get? hc)
      rcases hleft c hc with rfl | ⟨k', hk'⟩
      · cases hw
      · rcases Decode.condition_eq_ok hk' hw with rfl | ⟨q, hq⟩
        · exact inQuery_null n
        · exact ih.query (by omega) hq
    · have hdepth := depth_lt_of_get? hw
      rcases hright w hw with rfl | ⟨c, hc⟩
      · exact inFilter_null n
      · exact ih.filter (by omega) hc

theorem field_succ (ih : FoundPassedOver n) {f : Field} (hv : v.depth < n + 1)
    (h : Decode.fieldUpTo k origin v = .ok f) :
    (inField (n + 1) v).isSome ↔ Reads PassedOver .field v := by
  cases k with
  | zero => cases h
  | succ k =>
    cases hword : tagOf v with
    | none => exact inField_of_none _ hword
    | some word =>
      obtain ⟨tag, rfl, hcall, hquery⟩ := Decode.fieldWith_eq_ok h hword
      have htag (t : FieldTag) : tagOf v = some t.word ↔ tag = t := by
        rw [hword, Option.some.injEq, FieldTag.word_inj]
      rw [inField_of_tag n hword, isSome_or_iff, isSome_bind_get?_iff, List.findSome?_isSome_iff,
        reads_field_iff, passedOver_iff hv hword, htag, htag]
      refine passed_or_read_iff (fun hs => ?_) fun hc => ?_
      · refine exists_congr fun w => and_congr_right fun hw => ?_
        obtain ⟨q, hq⟩ := hquery hs w hw
        have hdepth := depth_lt_of_get? hw
        exact ih.query (by omega) hq
      · refine exists_congr fun w => and_congr_right fun hw => ?_
        have hdepth := depth_lt_of_mem_itemsOf hw
        rcases hcall hc w hw with ⟨t, rfl⟩ | ⟨f, hf⟩
        · exact inField_of_none n rfl
        · exact ih.field (by omega) hf

end FoundPassedOver

/-- **In a value that decodes, unknown tags are in members that are passed over.** -/
theorem foundPassedOver (n : Nat) : FoundPassedOver n := by
  induction n with
  | zero => exact ⟨fun h => by omega, fun h => by omega, fun h => by omega⟩
  | succ n ih => exact ⟨ih.query_succ, ih.field_succ, ih.filter_succ⟩

end Tags

namespace Query

/-- **When a value that decodes is not refused**: if no unknown tag lies in a query or in arguments
    that decoding passes over.  Otherwise it is refused for such a tag. -/
theorem ofJson_decoded_iff {v : Json} {q : Query} (h : Decode.query v = .ok q) :
    (ofJson v = .ok q ↔ ¬ Tags.Reads Tags.PassedOver .query v) ∧
      (Tags.Reads Tags.PassedOver .query v → ∃ tag, Tags.unknownTag? v = some tag ∧
        ofJson v = .error (.unsupportedField tag)) := by
  have hsome := (Tags.foundPassedOver (v.depth + 1)).query (Nat.lt_succ_self _) h
  change (Tags.unknownTag? v).isSome ↔ _ at hsome
  rw [← hsome, ofJson, h]
  cases htag : Tags.unknownTag? v with
  | none => exact ⟨⟨fun _ h => (by cases h), fun _ => rfl⟩, fun h => (by cases h)⟩
  | some tag => exact ⟨⟨fun h => (by cases h), fun h => absurd rfl h⟩, fun _ => ⟨tag, rfl, rfl⟩⟩

/-- A field as an array, and a field with arguments, which have known tags. -/
theorem ofJson_decoded_iff_known :
    let v : Json := .obj [("fields", .arr [.arr [.str "Field", .str "A"],
      .obj [("field", .str "B"), ("parameters", .arr [.obj [("type", .str "Field")]]),
        ("type", .str "Field")]]), ("sObject", .str "X")]
    let q : Query := .ofObject "X" [.ofName "A", .ofName "B"]
    Decode.query v = .ok q ∧ ofJson v = .ok q ∧ ¬ Tags.Reads Tags.PassedOver .query v := by
  intro v q
  have hdecode : Decode.query v = .ok q := rfl
  have hread : ofJson v = .ok q := rfl
  exact ⟨hdecode, hread, (ofJson_decoded_iff hdecode).1.1 hread⟩

/-- A field with arguments, which decoding passes over, is refused for a tag in them. -/
theorem ofJson_refuses_decoded :
    let v : Json := .obj [("fields", .arr [.obj [("field", .str "Id"),
      ("parameters", .arr [.obj [("type", .str "Mystery")]]), ("type", .str "Field")]]),
      ("sObject", .str "X")]
    Decode.query v = .ok (.ofObject "X" [.ofName "Id"]) ∧
      ofJson v = .error (.unsupportedField "Mystery") :=
  ⟨rfl, rfl⟩

end Query

end Soql
