/-
  Field expressions under other tags.

  Wherever a field expression lies in the JSON form of a query, an unknown tag
  put in the place of its own is found, and of several such tags the first.

  * `Json.retag ρ v`: the value with the tags that `ρ` gives for places in it.
  * `Query.places q`: where the field expressions of a query lie in its JSON
    form.  The fields of a query come in order, each before its own query or
    arguments; then come the queries along the filter.
  * `Tags.upTo_retag`: what is found in a value with other tags.
  * `Query.ofJson_retag`: the query is refused with the first of these tags.
-/
import Mathlib
import Soql.Proofs.Codec.PassedOver

namespace Soql

open Json

/-! ## Other tags -/

/-- A step into a JSON value. -/
inductive Json.Step where
  /-- To the member with that key. -/
  | key (key : Text)
  /-- To the item with that number. -/
  | item (index : Nat)
deriving DecidableEq

/-- Where a value lies in another one: the steps that lead to it. -/
abbrev Json.Place := List Step

namespace Json

mutual

/-- The value with the tag `ρ p` in the place of that of the object at `p`, for every place `p`
    that `ρ` has one for. -/
def retag (ρ : Place → Option Text) : Json → Json
  | arr items => arr (retagItems ρ 0 items)
  | obj members => obj (retagMembers ρ members)
  | v => v

/-- Every item with other tags; `i` is the number of the first one. -/
def retagItems (ρ : Place → Option Text) (i : Nat) : List Json → List Json
  | [] => []
  | v :: items => v.retag (fun p => ρ (.item i :: p)) :: retagItems ρ (i + 1) items

/-- Every member with other tags, and the member `type` with that of the object. -/
def retagMembers (ρ : Place → Option Text) : List (Text × Json) → List (Text × Json)
  | [] => []
  | (key, v) :: members =>
    (key, if key = ("type" : Text) then ((ρ []).map str).getD v
      else v.retag fun p => ρ (.key key :: p)) :: retagMembers ρ members

end

variable (ρ : Place → Option Text)

theorem lookup_retagMembers_type (ms : List (Text × Json)) :
    (retagMembers ρ ms).lookup ("type" : Text) =
      (ms.lookup ("type" : Text)).map ((ρ []).map str).getD := by
  induction ms with
  | nil => rfl
  | cons m ms ih =>
    obtain ⟨k, v⟩ := m
    rw [retagMembers, List.lookup_cons, List.lookup_cons, ih]
    by_cases hk : k = ("type" : Text)
    · simp only [hk, beq_self_eq_true, if_true, Option.map_some]
    · simp only [beq_eq_false_iff_ne.2 (Ne.symm hk)]

theorem lookup_retagMembers {key : Text} (hkey : key ≠ ("type" : Text)) (ms : List (Text × Json)) :
    (retagMembers ρ ms).lookup key =
      (ms.lookup key).map (retag fun p => ρ (.key key :: p)) := by
  induction ms with
  | nil => rfl
  | cons m ms ih =>
    obtain ⟨k, v⟩ := m
    rw [retagMembers, List.lookup_cons, List.lookup_cons, ih]
    by_cases hk : key = k
    · obtain rfl := hk
      simp only [beq_self_eq_true, if_neg hkey, Option.map_some]
    · simp only [beq_eq_false_iff_ne.2 hk]

theorem get?_retag {key : Text} (hkey : key ≠ ("type" : Text)) (v : Json) :
    (v.retag ρ).get? key = (v.get? key).map (retag fun p => ρ (.key key :: p)) := by
  cases v with
  | obj ms =>
    rw [retag]
    exact lookup_retagMembers ρ hkey ms
  | _ => simp [retag, get?]

end Json

/-! ## Places of field expressions -/

/-- Places in the items of an array, from those in each; `i` is the number of the first item. -/
def Json.Place.inItems (i : Nat) : List (List Place) → List Place
  | [] => []
  | ps :: pss => ps.map (.item i :: ·) ++ inItems (i + 1) pss

/-- Places in the member with that key, from those in its value. -/
def Json.Place.inMember (key : Text) (ps : List Place) : List Place := ps.map (.key key :: ·)

mutual

/-- Where the field expressions of a query lie in its JSON form. -/
def Query.places : Query → List Place
  | ⟨fs, _, _, filter, _, _, _, _, _, _, _, _⟩ =>
    Place.inMember "fields" (Place.inItems 0 (Field.placesOfEach fs)) ++
      Place.inMember "where" (Condition.filterPlaces filter)

/-- Where field expressions lie in each of several. -/
def Field.placesOfEach : List Field → List (List Place)
  | [] => []
  | f :: fs => f.places :: Field.placesOfEach fs

/-- Where field expressions lie in one: itself, and then those in its query or arguments. -/
def Field.places : Field → List Place
  | .call c => [] :: c.places
  | .subquery q => [] :: Place.inMember "subquery" q.places
  | .plain _ | .path _ | .typeOf _ => [[]]

/-- Where field expressions lie in a call. -/
def Call.places : Call → List Place
  | ⟨_, args, _, _, _⟩ => Place.inMember "parameters" (Place.inItems 0 (Argument.placesOfEach args))

/-- Where field expressions lie in each of several arguments. -/
def Argument.placesOfEach : List Argument → List (List Place)
  | [] => []
  | a :: as => a.places :: Argument.placesOfEach as

/-- Where field expressions lie in an argument. -/
def Argument.places : Argument → List Place
  | .text _ => []
  | .field f => f.places

/-- Where field expressions lie in a filter that may be absent. -/
def Condition.filterPlaces : Option (Chain Condition) → List Place
  | none => []
  | some ⟨head, tail⟩ => Condition.linkPlaces head ++
      Place.inMember "right" (Condition.linksPlaces tail)

/-- Where field expressions lie in the filter of the links, if there are any. -/
def Condition.linksPlaces : List (Link Condition) → List Place
  | [] => []
  | link :: links => Condition.linkPlaces link ++
      Place.inMember "right" (Condition.linksPlaces links)

/-- Where field expressions lie in the first link of a filter. -/
def Condition.linkPlaces : Link Condition → List Place
  | ⟨none, _⟩ => []
  | ⟨some c, _⟩ => Place.inMember "left" c.places

/-- Where field expressions lie in a condition. -/
def Condition.places : Condition → List Place
  | ⟨_, _, _, _, _, _, _, _, query⟩ => Place.inMember "valueQuery" (Query.placesOption query)

/-- Where field expressions lie in a query that may be absent. -/
def Query.placesOption : Option Query → List Place
  | none => []
  | some q => q.places

end

theorem Field.placesOfEach_eq (fs : List Field) : Field.placesOfEach fs = fs.map Field.places := by
  induction fs with
  | nil => rfl
  | cons f fs ih => rw [Field.placesOfEach, ih, List.map_cons]

theorem Argument.placesOfEach_eq (as : List Argument) :
    Argument.placesOfEach as = as.map Argument.places := by
  induction as with
  | nil => rfl
  | cons a as ih => rw [Argument.placesOfEach, ih, List.map_cons]

theorem Condition.linkPlaces_eq (x : Link Condition) : Condition.linkPlaces x =
    Place.inMember "left" ((x.condition.map Condition.places).getD []) := by
  rcases x with ⟨_ | c, connective⟩ <;> rfl

/-- Where field expressions lie in a filter. -/
def Chain.places (c : Chain Condition) : List Place := Condition.linksPlaces c.links

theorem Condition.linksPlaces_eq (xs : List (Link Condition)) :
    Condition.linksPlaces xs = ((Encode.rest? xs).map Chain.places).getD [] := by
  cases xs <;> rfl

theorem Chain.places_eq (x : Link Condition) (xs : List (Link Condition)) :
    Chain.places ⟨x, xs⟩ =
      Place.inMember "left" ((x.condition.map Condition.places).getD []) ++
        Place.inMember "right" (((Encode.rest? xs).map Chain.places).getD []) := by
  rw [← Condition.linksPlaces_eq, ← Condition.linkPlaces_eq]
  rfl

theorem Condition.filterPlaces_eq (o : Option (Chain Condition)) :
    Condition.filterPlaces o = (o.map Chain.places).getD [] := by
  rcases o with _ | ⟨x, xs⟩ <;> rfl

/-- The query that a field is. -/
def Field.query? : Field → Option Query
  | .subquery q => some q
  | _ => none

/-- The arguments of a field that is a call. -/
def Field.arguments : Field → List Argument
  | .call c => c.arguments
  | _ => []

theorem Field.places_eq (f : Field) : f.places =
    [] :: (Place.inMember "subquery" ((f.query?.map Query.places).getD []) ++
      Place.inMember "parameters" (Place.inItems 0 (f.arguments.map Argument.places))) := by
  cases f with
  | call c =>
    obtain ⟨name, args, aliasName, aggregate, source⟩ := c
    rw [Field.places, Call.places, Argument.placesOfEach_eq]
    rfl
  | subquery q => simp [Field.places, Field.query?, Field.arguments, Place.inMember, Place.inItems]
  | _ => rfl

theorem Query.places_eq (q : Query) : q.places =
    Place.inMember "fields" (Place.inItems 0 (q.fields.map Field.places)) ++
      Place.inMember "where" ((q.filter.map Chain.places).getD []) := by
  obtain ⟨fs, src, aliasName, filter, grouping, sorting, limit, offset, categories, enforced,
    forTarget, update⟩ := q
  rw [Query.places, Field.placesOfEach_eq, Condition.filterPlaces_eq]

theorem Condition.places_eq (c : Condition) : c.places =
    Place.inMember "valueQuery" ((c.query.map Query.places).getD []) := by
  obtain ⟨opens, closes, negated, field, call, comparison, value, kinds, query⟩ := c
  rw [Condition.places]
  cases query <;> rfl

/-! ## Members of the JSON form -/

theorem keys_gather_sublist (es : List (Text × Option Json)) :
    (keys (gather es)).Sublist (es.map Prod.fst) := by
  induction es with
  | nil => exact .slnil
  | cons e es ih =>
    obtain ⟨key, _ | v⟩ := e
    · exact ih.cons _
    · exact ih.cons_cons _

theorem get?_sorted_gather {v : Json} (es : List (Text × Option Json)) (hv : v = .obj (gather es))
    (hkeys : (es.map Prod.fst).Nodup) (key : Text) :
    v.sorted.get? key = (v.get? key).map Json.sorted := by
  rw [hv]
  exact get?_sorted_obj ((keys_gather_sublist es).nodup hkeys) key

namespace Encode

theorem get?_sorted_query (q : Query) (key : Text) :
    (query q).sorted.get? key = ((query q).get? key).map Json.sorted := by
  obtain ⟨fs, src, aliasName, filter, grouping?, sorting, limit, offset, categories?, enforced,
    forTarget, update⟩ := q
  have hkeys (others : List (Text × Option Json))
      (h : ((("fields" : Text) :: Form.sourceKeys) ++ others.map Prod.fst).Nodup) :
      (keys (always "fields" (.arr (fields fs)) ++ source src ++ gather others)).Nodup := by
    rw [keys_append]
    exact (((Form.keys_source src).cons_cons _).append (keys_gather_sublist others)).nodup h
  refine get?_sorted_obj ?_ key
  simpa using hkeys [("sObjectAlias", aliasName.map .str), ("where", filter? filter),
    ("groupBy", grouping?.map grouping), ("orderBy", sorting.map sortKeys),
    ("limit", limit.map rowCount), ("offset", offset.map rowCount),
    ("withDataCategory", categories?.map categories),
    ("withSecurityEnforced", if enforced = false then none else some (.bool enforced)),
    ("for", forTarget.map keyword), ("update", update.map keyword)] (by simp [Form.sourceKeys])

theorem get?_sorted_field (f : Field) (key : Text) :
    (field f).sorted.get? key = ((field f).get? key).map Json.sorted := by
  have htagged {t : FieldTag} {ms : Members} (hf : field f = .obj (tag t ++ ms))
      (es : List (Text × Option Json)) (hms : ms = gather es)
      (hkeys : (("type" : Text) :: es.map Prod.fst).Nodup) :
      (field f).sorted.get? key = ((field f).get? key).map Json.sorted :=
    get?_sorted_gather (("type", some (.str t.word)) :: es) (by rw [hf, hms]; rfl) hkeys key
  cases f with
  | plain f =>
    exact htagged (by simp only [field, List.append_assoc]; rfl)
      [("field", some (.str f.name)), ("objectPrefix", f.owner.map .str),
        ("alias", f.aliasName.map .str)] (by simp) (by simp)
  | call c =>
    obtain ⟨name, args, aliasName, aggregate, source⟩ := c
    exact htagged (by rw [field])
      [("functionName", some (.str name)), ("parameters", some (.arr (arguments args))),
        ("alias", aliasName.map .str),
        ("isAggregateFn", if aggregate = false then none else some (.bool aggregate)),
        ("rawValue", source.map .str)] (by simp [call]) (by simp)
  | path f =>
    exact htagged (by simp only [field, List.append_assoc]; rfl)
      [("field", some (.str f.name)), ("relationships", some (texts f.path)),
        ("objectPrefix", f.owner.map .str), ("alias", f.aliasName.map .str)] (by simp) (by simp)
  | subquery q =>
    exact htagged (by rw [field]) [("subquery", some (query q))] (by simp) (by simp)
  | typeOf e =>
    exact htagged (by simp only [field, List.append_assoc]; rfl)
      [("field", some (.str e.field)), ("conditions", some (.arr (e.branches.map typeBranch)))]
      (by simp) (by simp)

theorem get?_sorted_chain (c : Chain Condition) (key : Text) :
    (chain (c.map condition)).sorted.get? key =
      ((chain (c.map condition)).get? key).map Json.sorted :=
  get?_sorted_gather _ (chain_eq condition c.head c.tail) (by simp) key

theorem get?_sorted_condition (c : Condition) (key : Text) :
    (condition c).sorted.get? key = ((condition c).get? key).map Json.sorted := by
  obtain ⟨opens, closes, negated, field, call, comparison, value, kinds, query?⟩ := c
  exact get?_sorted_gather
    [("openParen", if opens = 0 then none else some (.int opens)),
      ("closeParen", if closes = 0 then none else some (.int closes)),
      ("logicalPrefix", if negated then some (keyword Negation.not) else none),
      ("field", field.map .str), ("fn", call.map flatCall),
      ("operator", some (keyword comparison)), ("value", value.map filterValue),
      ("literalType", kinds.map literalKinds), ("valueQuery", valueQuery query?)]
    (by simp [condition]) (by simp) key

end Encode

/-! ## What is found -/

namespace Tags

variable {ρ : Place → Option Text}

/-- Only unknown tags are put in. -/
def Unknown (ρ : Place → Option Text) : Prop := ∀ p t, ρ p = some t → FieldTag.ofWord? t = none

theorem Unknown.step (h : Unknown ρ) (s : Step) : Unknown fun p => ρ (s :: p) :=
  fun p => h (s :: p)

theorem findSome?_inMember (key : Text) (ps : List Place) :
    (Place.inMember key ps).findSome? ρ = ps.findSome? fun p => ρ (.key key :: p) := by
  rw [Place.inMember, List.findSome?_map]
  rfl

/-- In a member, if what is found in its value is known. -/
theorem bind_get?_retag {α : Type} {v : Json} {key : Text} (hkey : key ≠ ("type" : Text))
    (enc : α → Json) {places : α → List Place} {o : Option α} {g : Json → Option Text}
    (hv : v.get? key = o.map enc)
    (h : ∀ a ∈ o, (v.retag ρ).get? key = some ((enc a).retag fun p => ρ (.key key :: p)) →
      g ((enc a).retag fun p => ρ (.key key :: p)) =
        (places a).findSome? fun p => ρ (.key key :: p)) :
    ((v.retag ρ).get? key).bind g =
      (Place.inMember key ((o.map places).getD [])).findSome? ρ := by
  have hget : (v.retag ρ).get? key = o.map fun a => (enc a).retag fun p => ρ (.key key :: p) := by
    rw [get?_retag ρ hkey, hv, Option.map_map]
    rfl
  rw [findSome?_inMember]
  cases o with
  | none => rw [hget]; rfl
  | some a => rw [hget]; exact h a rfl hget

/-- In the items of an array, if what is found in each of them is known. -/
theorem findSome?_retagItems {α : Type} {enc : α → Json} {places : α → List Place}
    {g : Json → Option Text} {n : Nat} (as : List α) {ρ : Place → Option Text} (i : Nat)
    (hn : ∀ w ∈ retagItems ρ i (as.map enc), w.depth < n)
    (h : ∀ a ∈ as, ∀ i, ((enc a).retag fun p => ρ (.item i :: p)).depth < n →
      g ((enc a).retag fun p => ρ (.item i :: p)) =
        (places a).findSome? fun p => ρ (.item i :: p)) :
    (retagItems ρ i (as.map enc)).findSome? g =
      (Place.inItems i (as.map places)).findSome? ρ := by
  induction as generalizing i with
  | nil => rfl
  | cons a as ih =>
    rw [List.map_cons, retagItems] at hn ⊢
    obtain ⟨ha, has⟩ := List.forall_mem_cons.1 hn
    obtain ⟨hga, hgas⟩ := List.forall_mem_cons.1 h
    rw [List.map_cons, Place.inItems, List.findSome?_append, List.findSome?_map,
      ← ih (i + 1) has hgas, List.findSome?_cons, hga i ha]
    change _ = Option.or ((places a).findSome? fun p => ρ (.item i :: p)) _
    cases (places a).findSome? fun p => ρ (.item i :: p) <;> rfl

theorem itemsOf_retag {key : Text} (hkey : key ≠ ("type" : Text)) (v : Json) :
    itemsOf key (v.retag ρ) = retagItems (fun p => ρ (.key key :: p)) 0 (itemsOf key v) := by
  rw [itemsOf, itemsOf, get?_retag ρ hkey]
  cases v.get? key with
  | none => rfl
  | some w => cases w <;> simp [retag, retagItems, items?]

/-- In the items of a member, if what is found in each of them is known. -/
theorem findSome?_itemsOf_retag {α : Type} {enc : α → Json} {places : α → List Place}
    {g : Json → Option Text} {n : Nat} {v : Json} {key : Text} (hkey : key ≠ ("type" : Text))
    {as : List α} (hv : itemsOf key v = as.map enc) (hn : (v.retag ρ).depth < n + 1)
    (h : ∀ a ∈ as, ∀ i, ((enc a).retag fun p => ρ (.key key :: .item i :: p)).depth < n →
      g ((enc a).retag fun p => ρ (.key key :: .item i :: p)) =
        (places a).findSome? fun p => ρ (.key key :: .item i :: p)) :
    (itemsOf key (v.retag ρ)).findSome? g =
      (Place.inMember key (Place.inItems 0 (as.map places))).findSome? ρ := by
  have hitems := itemsOf_retag (ρ := ρ) hkey v
  rw [hv] at hitems
  rw [findSome?_inMember, hitems]
  refine findSome?_retagItems (n := n) as 0 (fun w hw => ?_) h
  have := depth_lt_of_mem_itemsOf (hitems ▸ hw)
  omega

/-- The tag of an object is the one that is put in, if there is one. -/
theorem tagOf_retag {v : Json} {word : Text} (h : tagOf v = some word) :
    tagOf (v.retag ρ) = some ((ρ []).getD word) := by
  cases v with
  | obj ms =>
    obtain ⟨w, hw, htext⟩ := Option.bind_eq_some_iff.1 h
    rw [tagOf, retag, get?, lookup_retagMembers_type]
    rw [get?] at hw
    rw [hw]
    cases ρ [] with
    | none => exact htext
    | some t => rfl
  | _ => cases h

/-! ### The JSON form of a query -/

theorem itemsOf_sorted {v : Json} {key : Text}
    (h : v.sorted.get? key = (v.get? key).map Json.sorted) :
    itemsOf key v.sorted = (itemsOf key v).map Json.sorted := by
  rw [itemsOf, itemsOf, h]
  cases v.get? key with
  | none => rfl
  | some w => cases w <;> simp [Json.sorted, items?, sortedItems_eq]

theorem itemsOf_fields (q : Query) : itemsOf "fields" (Encode.query q).sorted =
    q.fields.map fun f => (Encode.field f).sorted := by
  rw [itemsOf_sorted (Encode.get?_sorted_query q _), itemsOf, get?_fields]
  exact List.map_map

theorem get?_subquery_eq (f : Field) :
    (Encode.field f).get? "subquery" = f.query?.map Encode.query := by
  cases f with
  | call c =>
    obtain ⟨_, _, _, _, _⟩ := c
    simp [Encode.field, get?, List.lookup_append, Encode.tag, Encode.call, Field.query?]
  | _ => simp [Encode.field, get?, List.lookup_append, Encode.tag, Field.query?]

theorem itemsOf_parameters (f : Field) : itemsOf "parameters" (Encode.field f).sorted =
    f.arguments.map fun a => (Encode.argument a).sorted := by
  rw [itemsOf_sorted (Encode.get?_sorted_field f _), itemsOf]
  cases f with
  | call c =>
    obtain ⟨_, args, _, _, _⟩ := c
    simp [Encode.field, get?, List.lookup_append, Encode.tag, Encode.call, Field.arguments,
      Encode.arguments_eq, items?]
  | _ => simp [Encode.field, get?, List.lookup_append, Encode.tag, Field.arguments]

theorem tagOf_sorted (f : Field) :
    ∃ tag : FieldTag, tagOf (Encode.field f).sorted = some tag.word := by
  obtain ⟨tag, htag⟩ := get?_type f
  refine ⟨tag, ?_⟩
  rw [tagOf, Encode.get?_sorted_field, htag]
  rfl

/-- The value of a filter. -/
def filterForm (c : Chain Condition) : Json := (Encode.chain (c.map Encode.condition)).sorted

section Step

variable {n : Nat}
  (hq : ∀ q ρ, Unknown ρ → ((Encode.query q).sorted.retag ρ).depth < n →
    inQuery n ((Encode.query q).sorted.retag ρ) = q.places.findSome? ρ)
  (hf : ∀ f ρ, Unknown ρ → ((Encode.field f).sorted.retag ρ).depth < n →
    inField n ((Encode.field f).sorted.retag ρ) = f.places.findSome? ρ)
  (hc : ∀ c ρ, Unknown ρ → ((filterForm c).retag ρ).depth < n →
    inFilter n ((filterForm c).retag ρ) = c.places.findSome? ρ)

theorem depth_lt_of_get?_succ {v w : Json} {key : Text} (hn : v.depth < n + 1)
    (h : v.get? key = some w) : w.depth < n := by
  have := depth_lt_of_get? h
  omega

include hf hc in
theorem inQuery_retag {q : Query} (hρ : Unknown ρ)
    (hn : ((Encode.query q).sorted.retag ρ).depth < n + 1) :
    inQuery (n + 1) ((Encode.query q).sorted.retag ρ) = q.places.findSome? ρ := by
  rw [inQuery, Query.places_eq, List.findSome?_append]
  congr 1
  · exact findSome?_itemsOf_retag (by decide) (itemsOf_fields q) hn
      fun f _ i hdepth => hf f _ ((hρ.step _).step _) hdepth
  · refine bind_get?_retag (by decide) filterForm ?_ fun c _ hget => ?_
    · rw [Encode.get?_sorted_query, get?_where, Option.map_map]
      rfl
    · exact hc c _ (hρ.step _) (depth_lt_of_get?_succ hn hget)

include hq hf in
theorem inField_retag {f : Field} (hρ : Unknown ρ)
    (hn : ((Encode.field f).sorted.retag ρ).depth < n + 1) :
    inField (n + 1) ((Encode.field f).sorted.retag ρ) = f.places.findSome? ρ := by
  obtain ⟨tag, htag⟩ := tagOf_sorted f
  rw [inField, tagOf_retag htag, Field.places_eq, List.findSome?_cons, List.findSome?_append]
  cases ht : ρ [] with
  | some t => simp only [Option.getD_some, hρ [] t ht, Option.isNone_none, if_true]
  | none =>
    simp only [Option.getD_none, FieldTag.ofWord?_word, Option.isNone_some, Bool.false_eq_true,
      if_false]
    congr 1
    · refine bind_get?_retag (by decide) (fun q => (Encode.query q).sorted) ?_
        fun q _ hget => hq q _ (hρ.step _) (depth_lt_of_get?_succ hn hget)
      rw [Encode.get?_sorted_field, get?_subquery_eq, Option.map_map]
      rfl
    · refine findSome?_itemsOf_retag (by decide) (itemsOf_parameters f) hn fun a _ i ha => ?_
      cases a with
      | text t => exact inField_str n t
      | field g => exact hf g _ ((hρ.step _).step _) ha

include hq hc in
theorem inFilter_retag {c : Chain Condition} (hρ : Unknown ρ)
    (hn : ((filterForm c).retag ρ).depth < n + 1) :
    inFilter (n + 1) ((filterForm c).retag ρ) = c.places.findSome? ρ := by
  obtain ⟨x, xs⟩ := c
  rw [inFilter, Option.bind_assoc, Chain.places_eq, List.findSome?_append]
  congr 1
  · refine bind_get?_retag (by decide) (fun c => (Encode.condition c).sorted) ?_ fun c _ hget => ?_
    · rw [filterForm, Encode.get?_sorted_chain, get?_left, Option.map_map]
      rfl
    · rw [Condition.places_eq]
      refine bind_get?_retag (by decide) (fun q => (Encode.query q).sorted) ?_
        fun q _ hget' => hq q _ ((hρ.step _).step _)
          ((depth_lt_of_get? hget').trans (depth_lt_of_get?_succ hn hget))
      rw [Encode.get?_sorted_condition, get?_valueQuery, Option.map_map]
      rfl
  · refine bind_get?_retag (by decide) filterForm ?_
      fun c _ hget => hc c _ (hρ.step _) (depth_lt_of_get?_succ hn hget)
    rw [filterForm, Encode.get?_sorted_chain, get?_right, Option.map_map]
    rfl

end Step

/-- What is found is the first tag put in. -/
theorem upTo_retag (n : Nat) :
    (∀ q ρ, Unknown ρ → ((Encode.query q).sorted.retag ρ).depth < n →
      inQuery n ((Encode.query q).sorted.retag ρ) = q.places.findSome? ρ) ∧
    (∀ f ρ, Unknown ρ → ((Encode.field f).sorted.retag ρ).depth < n →
      inField n ((Encode.field f).sorted.retag ρ) = f.places.findSome? ρ) ∧
    (∀ c ρ, Unknown ρ → ((filterForm c).retag ρ).depth < n →
      inFilter n ((filterForm c).retag ρ) = c.places.findSome? ρ) := by
  induction n with
  | zero => exact ⟨fun q ρ _ h => by omega, fun f ρ _ h => by omega, fun c ρ _ h => by omega⟩
  | succ n ih =>
    obtain ⟨hq, hf, hc⟩ := ih
    exact ⟨fun _ _ => inQuery_retag hf hc, fun _ _ => inField_retag hq hf,
      fun _ _ => inFilter_retag hq hc⟩

end Tags

namespace Query

/-- **No unknown tag is skipped.**  With unknown tags in the place of those of some field
    expressions, wherever these lie in its JSON form, a query is refused, and the tag told is that
    of the first of these expressions. -/
theorem ofJson_retag (q : Query) (ρ : Place → Option Text) (hsome : ∃ p, (ρ p).isSome)
    (h : ∀ p t, ρ p = some t → p ∈ q.places ∧ FieldTag.ofWord? t = none) :
    ∃ before p after t, q.places = before ++ p :: after ∧ (∀ r ∈ before, ρ r = none) ∧
      ρ p = some t ∧ ofJson ((Encode.query q).sorted.retag ρ) = .error (.unsupportedField t) := by
  have hfound : Tags.unknownTag? ((Encode.query q).sorted.retag ρ) = q.places.findSome? ρ :=
    (Tags.upTo_retag _).1 q ρ (fun p t hp => (h p t hp).2) (Nat.lt_succ_self _)
  obtain ⟨p, hp⟩ := hsome
  obtain ⟨t, ht⟩ := Option.isSome_iff_exists.1 hp
  have hchanged : (q.places.findSome? ρ).isSome :=
    List.findSome?_isSome_iff.2 ⟨p, (h p t ht).1, hp⟩
  obtain ⟨u, hu⟩ := Option.isSome_iff_exists.1 hchanged
  obtain ⟨before, r, after, hplaces, hr, hbefore⟩ := List.findSome?_eq_some_iff.1 hu
  exact ⟨before, r, after, u, hplaces, hbefore, hr, by rw [ofJson, hfound, hu]⟩

/-- Two fields of a query in a filter, in a query that is an argument: the tag told is that of the
    first one, which is unknown for the case of a letter. -/
theorem ofJson_retag_nested :
    let named (name : Text) : Field := .plain { name }
    let query (fields : List Field) (filter : Option (Chain Condition)) : Query :=
      ⟨fields, .object "X", none, filter, none, none, none, none, none, false, none, none⟩
    let compared : Condition :=
      ⟨0, 0, false, some "A", none, .isIn, none, none, some (query [named "B", named "C"] none)⟩
    let inner : Query :=
      query [named "Id"] (some ⟨⟨none, some .not⟩, [⟨some compared, none⟩]⟩)
    let q : Query :=
      query [.call ⟨"f", [.text "D", .field (.subquery inner)], none, false, none⟩] none
    let place (i : Nat) : Place :=
      [.key "fields", .item 0, .key "parameters", .item 1, .key "subquery", .key "where",
        .key "right", .key "left", .key "valueQuery", .key "fields", .item i]
    let ρ (p : Place) : Option Text :=
      if p = place 1 then some "Mystery" else if p = place 0 then some "field" else none
    ofJson ((Encode.query q).sorted.retag ρ) = .error (.unsupportedField "field") := by
  intro named query compared inner q place ρ
  have hplaces : place 0 ∈ q.places ∧ place 1 ∈ q.places := by decide +kernel
  have h (p : Place) (t : Text) (hp : ρ p = some t) :
      p ∈ q.places ∧ FieldTag.ofWord? t = none := by
    simp only [ρ] at hp
    split at hp
    · rename_i hplace
      obtain rfl := Option.some.inj hp
      exact ⟨hplace ▸ hplaces.2, by decide⟩
    · split at hp
      · rename_i hplace
        obtain rfl := Option.some.inj hp
        exact ⟨hplace ▸ hplaces.1, by decide⟩
      · cases hp
  obtain ⟨before, p, after, t, hsplit, hbefore, hp, hrefused⟩ :=
    ofJson_retag q ρ ⟨place 0, by decide +kernel⟩ h
  have ht := List.findSome?_eq_some_iff.2 ⟨before, p, after, hsplit, hp, hbefore⟩
  have hfirst : q.places.findSome? ρ = some "field" := by decide +kernel
  obtain rfl := Option.some.inj (ht.symm.trans hfirst)
  exact hrefused

end Query

end Soql
