/-
  The values of conditions, in JSON and decoded.

  Conditions may stand anywhere in a value: along the filter of the query, of
  the queries in its field list and of those that it compares with.  Each of
  them is decoded at its place, and its value is kept unless that is `null`,
  which is taken for an absent one.

  * `Json.part`: a component of a structure, by key or by position.
  * `Json.queries`, `Json.conditions`: the queries and the conditions in a
    value, in order.
  * `Decode.Holds i key d get slots`: `get` is what `d` reads as component
    number `i`.
  * `Decode.reads_queries`, `Decode.reads_conditions`: the queries and the
    conditions in a value are decoded one by one.
  * `Query.ofJson_values_iff`: what becomes of the values of conditions.
-/
import Mathlib
import Soql.Proofs.Codec.Decoded

namespace Soql

open Json

/-! ## Parts of a value -/

namespace Json

/-- A component of a structure: the member of an object with that key, the last one if there are
    several, or the item of an array at that index. -/
def part (key : Text) (index : Nat) : Json → Option Json
  | obj members => members.reverse.lookup key
  | arr items => items[index]?
  | _ => none

/-- The value, unless it is `null`, which stands for an absent one. -/
def given? : Json → Option Json
  | null => none
  | v => some v

/-- A component of a structure that is not absent. -/
def partGiven (key : Text) (index : Nat) (v : Json) : Option Json := (v.part key index).bind given?

/-- The items of a component of a structure; none if it is no array. -/
def partItems (key : Text) (index : Nat) (v : Json) : List Json :=
  ((v.part key index).bind items?).getD []

/-- The conditions along a filter of at most `n` links. -/
def conditionsUpTo : Nat → Json → List Json
  | 0, _ => []
  | n + 1, v => (v.partGiven "left" 0).toList ++
      (v.partGiven "right" 2).toList.flatMap (conditionsUpTo n)

/-- The conditions along the filter of a query. -/
def ownConditions (v : Json) : List Json :=
  (v.partGiven "where" 2).toList.flatMap fun w => conditionsUpTo (w.depth + 1) w

mutual

/-- A query and those inside of it, at most `n` steps down: first those in its fields, then those
    that its conditions compare with. -/
def queriesUpTo : Nat → Json → List Json
  | 0, _ => []
  | n + 1, v => v :: ((v.partItems "fields" 0).flatMap (queriesInField n) ++
      v.ownConditions.flatMap fun c => (c.partGiven "valueQuery" 8).toList.flatMap (queriesUpTo n))

/-- The queries inside of a field expression, at most `n` steps down. -/
def queriesInField : Nat → Json → List Json
  | 0, _ => []
  | n + 1, v =>
    match Decode.splitTag .heldBack v with
    | .ok (.subquery, content) => (content.part "subquery" 0).toList.flatMap (queriesUpTo n)
    | .ok (.call, content) => (content.partItems "parameters" 1).flatMap (queriesInField n)
    | _ => []

end

/-- A query and those inside of it.  Every step goes into an array or an object. -/
def queries (v : Json) : List Json := queriesUpTo (v.depth + 1) v

/-- The conditions of a query and of those inside of it. -/
def conditions (v : Json) : List Json := v.queries.flatMap ownConditions

end Json

/-- The conditions of the filter of a query. -/
def Query.ownConditions (q : Query) : List Condition := q.filter.toList.flatMap Chain.conditions

/-- The conditions of a query and of those inside of it. -/
def Query.conditions (q : Query) : List Condition := q.all.flatMap Query.ownConditions

/-- Inside of a condition lie the query that it compares with and those inside of that. -/
theorem Condition.map_inner (c : Condition) :
    c.inner.map Prod.snd = c.query.toList.flatMap Query.all := by
  obtain ⟨_, _, _, _, _, _, _, _, query⟩ := c
  cases query with
  | none => rfl
  | some q => simp [Condition.inner, Query.innerOption, Query.all]

namespace Decode

variable {α β σ κ : Type}

/-! ## Components of structures -/

/-- What a component is after reading: what is read from its value, or what it was if there is
    none. -/
def Taken (d : Decoder α) (before : α) : Option Json → α → Prop
  | none, a => a = before
  | some v, a => d v = .ok a

/-- The component has another key than `key` and does not change what `get` yields. -/
structure Slot.Apart (key : Text) (get : σ → α) (slot : Slot σ) : Prop where
  key : slot.key ≠ key
  put : ∀ ⦃s v s'⦄, slot.put s v = .ok s' → get s' = get s

/-- All of the components are others than the one with the key. -/
def Others (key : Text) (get : σ → α) (slots : List (Slot σ)) : Prop :=
  ∀ slot ∈ slots, slot.Apart key get

/-- Among the components, `get` yields what `d` reads as the one with the key, which has that
    index. -/
inductive Holds (key : Text) (d : Decoder α) (get : σ → α) : Nat → List (Slot σ) → Prop
  | here {q : Bool} {slots : List (Slot σ)} {put : σ → Json → Except Fault σ}
    (hput : ∀ ⦃s v s'⦄, put s v = .ok s' → d v = .ok (get s')) (hslots : Others key get slots) :
    Holds key d get 0 (⟨key, q, put⟩ :: slots)
  | there {i : Nat} {slot : Slot σ} {slots : List (Slot σ)} (hslot : slot.Apart key get)
    (h : Holds key d get i slots) : Holds key d get (i + 1) (slot :: slots)

section Holds

variable {key : Text} {d : Decoder α} {get : σ → α} {i : Nat} {slots : List (Slot σ)}

/-- A component that is put in elsewhere. -/
theorem Slot.apart {k : Text} {q : Bool} {e : Decoder β} {set : σ → β → σ} (hkey : k ≠ key)
    (hset : ∀ s b, get (set s b) = get s) :
    Slot.Apart key get ⟨k, q, fun s v => set s <$> e v⟩ := by
  refine ⟨hkey, fun s v s' h => ?_⟩
  obtain ⟨b, -, rfl⟩ := map_eq_ok_iff.1 h
  exact hset s b

theorem Others.nil : Others key get [] := List.forall_mem_nil _

theorem Others.other {k : Text} {q : Bool} {e : Decoder β} {set : σ → β → σ}
    (rest : Others key get slots) (hkey : k ≠ key := by decide)
    (hset : ∀ s b, get (set s b) = get s := by exact fun _ _ => rfl) :
    Others key get (⟨k, q, fun s v => set s <$> e v⟩ :: slots) :=
  List.forall_mem_cons.2 ⟨Slot.apart hkey hset, rest⟩

theorem Holds.other {k : Text} {q : Bool} {e : Decoder β} {set : σ → β → σ}
    (rest : Holds key d get i slots) (hkey : k ≠ key := by decide)
    (hset : ∀ s b, get (set s b) = get s := by exact fun _ _ => rfl) :
    Holds key d get (i + 1) (⟨k, q, fun s v => set s <$> e v⟩ :: slots) :=
  .there (Slot.apart hkey hset) rest

/-- A component that is put in by itself. -/
theorem Holds.set {q : Bool} {set : σ → α → σ} (rest : Others key get slots)
    (hset : ∀ s a, get (set s a) = a := by exact fun _ _ => rfl) :
    Holds key d get 0 (⟨key, q, fun s v => set s <$> d v⟩ :: slots) := by
  refine .here (fun s v s' hput => ?_) rest
  obtain ⟨a, ha, rfl⟩ := map_eq_ok_iff.1 hput
  rw [hset, ha]

theorem Holds.find (h : Holds key d get i slots) :
    ∃ slot, slots.find? (·.key == key) = some slot ∧
      ∀ ⦃s v s'⦄, slot.put s v = .ok s' → d v = .ok (get s') := by
  induction h with
  | here hput => exact ⟨_, List.find?_cons_of_pos (by simp), hput⟩
  | there hslot _ ih =>
    rw [List.find?_cons_of_neg (by simpa using hslot.key)]
    exact ih

theorem Holds.apart (h : Holds key d get i slots) {slot : Slot σ} (hs : slot ∈ slots)
    (hkey : slot.key ≠ key) : slot.Apart key get := by
  induction h with
  | here _ hslots =>
    rcases List.mem_cons.1 hs with rfl | hs
    · exact absurd rfl hkey
    · exact hslots slot hs
  | there hslot _ ih =>
    rcases List.mem_cons.1 hs with rfl | hs
    · exact hslot
    · exact ih hs

/-- A member is read as the component, or does not change it. -/
theorem Holds.putMember (h : Holds key d get i slots) {s s' : σ} {m : Text × Json}
    (hput : Soql.putMember slots s m = .ok s') : Taken d (get s) ([m].lookup key) (get s') := by
  obtain ⟨k, v⟩ := m
  by_cases hk : key = k
  · obtain rfl := hk
    obtain ⟨slot, hfind, hd⟩ := h.find
    rw [putMember_of_find hfind] at hput
    rw [List.lookup_cons_self]
    exact hd hput
  · have hsame : get s' = get s := by
      unfold Soql.putMember at hput
      split at hput
      next slot hfind =>
        have hslot : slot.key = k := by simpa using List.find?_some hfind
        exact (h.apart (List.mem_of_find?_eq_some hfind) (by rw [hslot]; exact Ne.symm hk)).put hput
      next => rw [Except.ok.inj hput]
    rw [List.lookup_cons, beq_eq_false_iff_ne.2 hk]
    exact hsame

/-- Of the members with its key the last one is the component. -/
theorem Holds.putMembers (h : Holds key d get i slots) {s s' : σ} {ms : List (Text × Json)}
    (hput : Decode.putMembers slots s ms = .ok s') :
    Taken d (get s) (ms.reverse.lookup key) (get s') := by
  induction ms generalizing s with
  | nil =>
    cases hput
    rfl
  | cons m ms ih =>
    rw [putMembers_cons] at hput
    obtain ⟨t, ht, hput⟩ := bind_eq_ok_iff.1 hput
    have hrest := ih hput
    rw [List.reverse_cons, List.lookup_append]
    cases hlookup : ms.reverse.lookup key with
    | none =>
      obtain hsame : get s' = get t := by rwa [hlookup] at hrest
      rw [hsame]
      exact h.putMember ht
    | some v => rwa [hlookup] at hrest

/-- What is put in for components that stand apart does not change the one with the key. -/
theorem Others.kept (h : Others key get slots) (a : α) : Kept (fun s => get s = a) slots :=
  fun slot hslot _ _ _ hs hput => ((h slot hslot).put hput).trans hs

/-- The item at its index is the component. -/
theorem Holds.putItems (h : Holds key d get i slots) {wanted : Text} {surplus : Fault} {j : Nat}
    {s s' : σ} {items : List Json}
    (hput : Decode.putItems wanted surplus j slots s items = .ok s') :
    Taken d (get s) items[i]? (get s') := by
  induction h generalizing j s items with
  | here hd hslots =>
    cases items with
    | nil =>
      rw [Decode.putItems] at hput
      split at hput
      · cases hput
      · exact (hslots.kept _).putItems rfl hput
    | cons item items =>
      obtain ⟨t, ht, hput⟩ := bind_eq_ok_iff.1 hput
      rw [(hslots.kept _).putItems rfl hput]
      exact hd ht
  | there hslot _ ih =>
    cases items with
    | nil =>
      rw [Decode.putItems] at hput
      split at hput
      · cases hput
      · exact ih hput
    | cons item items =>
      obtain ⟨t, ht, hput⟩ := bind_eq_ok_iff.1 hput
      rw [← hslot.put ht]
      exact ih hput

end Holds

section Records

variable {key : Text} {d : Decoder α} {get : σ → α} {i : Nat} {r : Record σ} {s : σ}

theorem Holds.recordOfMembers (h : Holds key d get i r.slots) {ms : List (Text × Json)}
    (hok : Decode.recordOfMembers r ms = .ok s) :
    Taken d (get r.blank) (ms.reverse.lookup key) (get s) := by
  obtain ⟨t, ht, hok⟩ := bind_eq_ok_iff.1 hok
  obtain ⟨_, -, hok⟩ := bind_eq_ok_iff.1 hok
  cases hok
  exact h.putMembers ht

/-- **A component of a structure is what is read from its part of the value**, of an object as of an
    array. -/
theorem record_part (get : σ → α) {origin : Origin} {v : Json}
    (hok : Decode.record r origin v = .ok s) (h : Holds key d get i r.slots) :
    Taken d (get r.blank) (v.part key i) (get s) := by
  cases v with
  | obj ms => exact h.recordOfMembers hok
  | arr items => exact h.putItems hok
  | _ => cases hok

end Records

/-! ## Conditions along a filter -/

theorem forall₂_mapM {d : Decoder α} {vs : List Json} {as : List α} (h : vs.mapM d = .ok as) :
    List.Forall₂ (fun v a => d v = .ok a) vs as := by
  induction vs generalizing as with
  | nil =>
    cases h
    exact .nil
  | cons v vs ih =>
    rw [List.mapM_cons] at h
    obtain ⟨a, ha, h⟩ := bind_eq_ok_iff.1 h
    obtain ⟨as', has, h⟩ := bind_eq_ok_iff.1 h
    cases h
    exact .cons ha (ih has)

theorem Taken.given {d : Decoder α} {p : Option Json} {o : Option α}
    (h : Taken (optional d) none p o) :
    List.Forall₂ (fun v a => d v = .ok a) (p.bind given?).toList o.toList := by
  cases p with
  | none =>
    obtain rfl : o = none := h
    exact .nil
  | some v =>
    have hsome (hv : some <$> d v = .ok o) :
        List.Forall₂ (fun v a => d v = .ok a) [v] o.toList := by
      obtain ⟨a, ha, rfl⟩ := map_eq_ok_iff.1 hv
      exact .cons ha .nil
    cases v with
    | null =>
      obtain rfl : none = o := Except.ok.inj h
      exact .nil
    | _ => exact hsome h

theorem Taken.items {d : Decoder α} {p : Option Json} {as : List α} (h : Taken (list d) [] p as) :
    List.Forall₂ (fun v a => d v = .ok a) ((p.bind items?).getD []) as := by
  cases p with
  | none =>
    obtain rfl : as = [] := h
    exact .nil
  | some v =>
    cases v with
    | arr items => exact forall₂_mapM h
    | _ => cases h

theorem reads_chainUpTo {name : Text} {condition : Decoder κ} {origin : Origin} (n : Nat) {v : Json}
    {chain : Chain κ} (h : chainUpTo name condition origin n v = .ok chain) :
    List.Forall₂ (fun w c => condition w = .ok c) (conditionsUpTo n v) chain.conditions := by
  induction n generalizing v chain with
  | zero => cases h
  | succ n ih =>
    obtain ⟨node, hnode, rfl⟩ := map_eq_ok_iff.1 h
    have hleft : Taken (optional condition) none (v.part "left" 0) node.condition :=
      record_part Node.condition hnode <| .set <| .other <| .other .nil
    have hright : Taken (optional (chainUpTo name condition origin n)) none (v.part "right" 2)
        node.right := record_part Node.right hnode <| .other <| .other <| .set .nil
    have hlinks : node.toChain.conditions =
        node.condition.toList ++ node.right.toList.flatMap Chain.conditions := by
      rw [Node.toChain, Chain.conditions, Chain.links, Link.conditions_cons]
      cases node.right with
      | none => rfl
      | some chain => simp [Chain.conditions]
    rw [hlinks, conditionsUpTo]
    exact List.rel_append hleft.given (List.rel_flatMap hright.given fun w c hc => ih hc)

/-! ## Queries and field expressions -/

section Queries

variable {fd : Decoder Field} {qd : Decoder Query} {origin : Origin} {v : Json}

/-- A component of a query other than its source is what is read from its part of the value. -/
theorem queryWith_part (get : Query → α) {key : Text} {d : Decoder α} {i : Nat} {q : Query}
    (hok : queryWith fd qd origin v = .ok q)
    (h : Holds key d get i (queryRecord fd qd origin).slots)
    (hsource : ∀ q source, get { q with source := source } = get q := by exact fun _ _ => rfl) :
    Taken d (get (queryRecord fd qd origin).blank) (v.part key i) (get q) := by
  cases v with
  | obj ms =>
    obtain ⟨q, hrecord, hok⟩ := bind_eq_ok_iff.1 hok
    obtain ⟨src, -, hok⟩ := bind_eq_ok_iff.1 hok
    cases hok
    rw [hsource]
    exact h.recordOfMembers hrecord
  | _ => cases hok

theorem reads_fields {q : Query} (h : queryWith fd qd origin v = .ok q) :
    List.Forall₂ (fun w f => fd w = .ok f) (v.partItems "fields" 0) q.fields := by
  have hfields : Taken (list fd) [] (v.part "fields" 0) q.fields :=
    queryWith_part Query.fields h <| .set <|
      .other <| .other <| .other <| .other <| .other <| .other <| .other <| .other <| .other <|
      .other .nil
  exact hfields.items

theorem reads_ownConditions {q : Query} (h : queryWith fd qd origin v = .ok q) :
    List.Forall₂ (fun w c => condition qd origin w = .ok c) v.ownConditions q.ownConditions := by
  have hfilter : Taken (optional (filter qd origin)) none (v.part "where" 2) q.filter :=
    queryWith_part Query.filter h <| .other <| .other <| .set <|
      .other <| .other <| .other <| .other <| .other <| .other <| .other <| .other .nil
  exact List.rel_flatMap hfilter.given fun w chain hchain => reads_chainUpTo _ hchain

theorem reads_valueQuery {c : Condition} (h : condition qd origin v = .ok c) :
    List.Forall₂ (fun w q => qd w = .ok q) (v.partGiven "valueQuery" 8).toList c.query.toList := by
  have hquery : Taken (optional qd) none (v.part "valueQuery" 8) c.query :=
    record_part Condition.query h <| .other <| .other <| .other <| .other <| .other <| .other <|
      .other <| .other <| .set .nil
  exact hquery.given

theorem reads_subquery {q : Query} (h : subquery qd origin v = .ok (some q)) :
    List.Forall₂ (fun w q => qd w = .ok q) (v.part "subquery" 0).toList [q] := by
  have hquery : Taken (fun w => some <$> qd w) none (v.part "subquery" 0) (some q) :=
    record_part id h <| .here (fun _ _ _ hput => hput) .nil
  cases hpart : v.part "subquery" 0 with
  | none =>
    rw [hpart] at hquery
    cases hquery
  | some w =>
    rw [hpart] at hquery
    obtain ⟨r, hr, hrq⟩ := map_eq_ok_iff.1 hquery
    cases hrq
    exact .cons hr .nil

theorem reads_arguments {c : Call} (h : call fd origin v = .ok c) :
    List.Forall₂ (fun w a => argument fd w = .ok a) (v.partItems "parameters" 1) c.arguments := by
  have hargs : Taken (list (argument fd)) [] (v.part "parameters" 1) c.arguments :=
    record_part Call.arguments h <| .other <| .set <| .other <| .other <| .other .nil
  exact hargs.items

end Queries

/-- Held back, a tag that is known otherwise is known just the same. -/
theorem splitTag_heldBack {origin : Origin} {v : Json} {x : FieldTag × Json}
    (h : splitTag origin v = .ok x) : splitTag .heldBack v = .ok x := by
  have htag {w : Json} {tag : FieldTag} (h : fieldTag origin w = .ok tag) :
      fieldTag .heldBack w = .ok tag := by
    cases w with
    | int i =>
      cases origin with
      | heldBack => exact h
      | direct => cases h
    | _ => exact h
  cases v with
  | obj ms =>
    rw [splitTag] at h ⊢
    cases hlookup : ms.lookup ("type" : Text) with
    | none =>
      rw [hlookup] at h
      cases h
    | some w =>
      rw [hlookup] at h
      obtain ⟨tag, hw, hx⟩ := bind_eq_ok_iff.1 h
      exact bind_eq_ok_iff.2 ⟨tag, htag hw, hx⟩
  | arr items =>
    cases items with
    | nil => cases h
    | cons w items =>
      obtain ⟨tag, hw, hx⟩ := bind_eq_ok_iff.1 h
      exact bind_eq_ok_iff.2 ⟨tag, htag hw, hx⟩
  | _ => cases h

/-- The value stands for the query, wherever it lies. -/
def ReadsQuery (v : Json) (q : Query) : Prop := ∃ n origin, queryUpTo n origin v = .ok q

/-- In a text nothing lies; a nested expression is read as it stands. -/
theorem reads_argument {fd : Decoder Field} {n : Nat} {v : Json} {a : Argument}
    (hfd : ∀ ⦃f⦄, fd v = .ok f →
      List.Forall₂ ReadsQuery (queriesInField n v) (f.inner.map Prod.snd))
    (h : argument fd v = .ok a) :
    List.Forall₂ ReadsQuery (queriesInField n v) (a.inner.map Prod.snd) := by
  rw [argument, either] at h
  split at h
  next htext =>
    cases h
    obtain ⟨t, ht, rfl⟩ := map_eq_ok_iff.1 htext
    cases v with
    | str =>
      cases n with
      | zero => exact .nil
      | succ n => exact .nil
    | _ => cases ht
  next =>
    split at h
    next hfield =>
      cases h
      obtain ⟨f, hf, rfl⟩ := map_eq_ok_iff.1 hfield
      exact hfd hf
    next => cases h

theorem reads_upTo (n : Nat) :
    (∀ ⦃origin v q⦄, queryUpTo n origin v = .ok q →
      List.Forall₂ ReadsQuery (queriesUpTo n v) q.all) ∧
    ∀ ⦃origin v f⦄, fieldUpTo n origin v = .ok f →
      List.Forall₂ ReadsQuery (queriesInField n v) (f.inner.map Prod.snd) := by
  induction n with
  | zero => exact ⟨fun _ v q h => (by cases h), fun _ v f h => (by cases h)⟩
  | succ n ih =>
    obtain ⟨ihq, ihf⟩ := ih
    refine ⟨fun origin v q h => ?_, fun origin v f h => ?_⟩
    · have hfields := List.rel_flatMap (reads_fields h) fun w f hf => ihf hf
      have hfilter := List.rel_flatMap (reads_ownConditions h) fun w c hc =>
        List.rel_flatMap (reads_valueQuery hc) fun u r hr => ihq hr
      rw [queriesUpTo, Query.all, Query.inner_eq, List.map_append, List.map_flatMap,
        List.map_flatMap]
      refine .cons ⟨n + 1, origin, h⟩ (List.rel_append hfields ?_)
      simp only [Condition.map_inner]
      exact hfilter
    · obtain ⟨⟨tag, content⟩, htag, h⟩ := bind_eq_ok_iff.1 h
      rw [queriesInField, splitTag_heldBack htag]
      cases tag with
      | call =>
        obtain ⟨c, hc, rfl⟩ := map_eq_ok_iff.1 h
        rw [Field.inner, Call.inner_eq, List.map_flatMap]
        exact List.rel_flatMap (reads_arguments hc) fun w a ha =>
          reads_argument (fun f hf => ihf hf) ha
      | subquery =>
        obtain ⟨o, ho, h⟩ := bind_eq_ok_iff.1 h
        cases o with
        | none => cases h
        | some q =>
          cases h
          have hquery : List.Forall₂ ReadsQuery
              ((content.part "subquery" 0).toList.flatMap (queriesUpTo n))
              ([q].flatMap Query.all) :=
            List.rel_flatMap (reads_subquery ho) fun w r hr => ihq hr
          rwa [List.flatMap_cons, List.flatMap_nil, List.append_nil] at hquery
      | plain | path | typeOf =>
        obtain ⟨_, -, rfl⟩ := map_eq_ok_iff.1 h
        exact .nil

/-- **The queries in a value are decoded one by one.** -/
theorem reads_queries {v : Json} {q : Query} (h : query v = .ok q) :
    List.Forall₂ ReadsQuery v.queries q.all :=
  (reads_upTo (v.depth + 1)).1 h

/-- The conditions in a value are decoded one by one. -/
theorem reads_conditions {v : Json} {q : Query} (h : query v = .ok q) :
    List.Forall₂ (fun w c => ∃ n origin, condition (queryUpTo n origin) origin w = .ok c)
      v.conditions q.conditions := by
  refine List.rel_flatMap (reads_queries h) ?_
  rintro w r ⟨n, origin, hr⟩
  cases n with
  | zero => cases hr
  | succ n => exact (reads_ownConditions hr).imp fun _ _ hc => ⟨n, origin, hc⟩

/-! ## Values of conditions -/

/-- The text is what the value becomes as an item of a list, whatever items are around it, and as
    the value of a condition of `HAVING`. -/
structure TextOf (x : Json) (t : Text) : Prop where
  item : ∀ xs ys value, filterValue (.arr (xs ++ x :: ys)) = .ok value ↔
    ∃ ts us, filterValue (.arr xs) = .ok (.list ts) ∧ filterValue (.arr ys) = .ok (.list us) ∧
      value = .list (ts ++ t :: us)
  group : ∀ origin w c, groupCondition origin w = .ok c → w.part "value" 5 = some x → c.value = t

theorem filterValue_of_scalarText {x : Json} {t : Text} (h : scalarText x = .ok t) :
    filterValue x = .ok (.single t) := by
  cases x with
  | arr => cases h
  | _ => exact map_eq_ok_iff.2 ⟨t, h, rfl⟩

theorem filterValue_arr {xs : List Json} {value : FilterValue} :
    filterValue (.arr xs) = .ok value ↔ ∃ ts, xs.mapM scalarText = .ok ts ∧ .list ts = value :=
  map_eq_ok_iff

theorem textOf_of_scalarText {x : Json} {t : Text} (h : scalarText x = .ok t) : TextOf x t := by
  refine ⟨fun xs ys value => ?_, fun origin w c hc hx => ?_⟩
  · have hitems : (xs ++ x :: ys).mapM scalarText = do
        let ts ← xs.mapM scalarText
        let us ← ys.mapM scalarText
        return ts ++ t :: us := by
      simp only [List.mapM_append, List.mapM_cons, h]
      cases xs.mapM scalarText with
      | error => rfl
      | ok ts => cases ys.mapM scalarText <;> rfl
    simp only [filterValue_arr, hitems]
    cases xs.mapM scalarText with
    | error => simp [bind, Except.bind]
    | ok ts =>
      cases ys.mapM scalarText with
      | error => simp [bind, Except.bind]
      | ok us => simp [bind, Except.bind, pure, Except.pure, eq_comm]
  · have hvalue : Taken scalarText [] (w.part "value" 5) c.value :=
      record_part GroupCondition.value hc <| .other <| .other <| .other <| .other <| .other <|
        .set .nil
    rw [hx] at hvalue
    exact Except.ok.inj (hvalue.symm.trans h)

theorem exists_scalarText {x : Json} (hx : x.depth = 0) : ∃ t, scalarText x = .ok t := by
  cases x with
  | bool b => cases b <;> exact ⟨_, rfl⟩
  | arr | obj => cases hx
  | _ => exact ⟨_, rfl⟩

theorem optional_of_ne_null {d : Decoder α} {x : Json} (hx : x ≠ .null) :
    optional d x = some <$> d x := by
  cases x with
  | null => exact absurd rfl hx
  | _ => rfl

/-- The condition keeps its value in JSON, if it has one there, unless that is `null`; a value that
    is no array and no object is kept as a single text, the one that it becomes elsewhere. -/
def KeepsValue (w : Json) (c : Condition) : Prop :=
  ∀ x, w.part "value" 6 = some x → (c.value.isSome ↔ x ≠ .null) ∧
    (x.depth = 0 → ∃ t, TextOf x t ∧ (c.value = some (.single t) ↔ x ≠ .null))

theorem keepsValue {query : Decoder Query} {origin : Origin} {w : Json} {c : Condition}
    (h : condition query origin w = .ok c) : KeepsValue w c := by
  intro x hx
  have hvalue : Taken (optional filterValue) none (w.part "value" 6) c.value :=
    record_part Condition.value h <| .other <| .other <| .other <| .other <| .other <| .other <|
      .set <| .other <| .other .nil
  rw [hx] at hvalue
  by_cases hnull : x = .null
  · obtain rfl := hnull
    obtain hnone : none = c.value := Except.ok.inj hvalue
    rw [← hnone]
    exact ⟨by simp, fun _ => ⟨"NULL", textOf_of_scalarText rfl, by simp⟩⟩
  · obtain hvalue : optional filterValue x = .ok c.value := hvalue
    rw [optional_of_ne_null hnull] at hvalue
    obtain ⟨value, hvalue, hsome⟩ := map_eq_ok_iff.1 hvalue
    rw [← hsome]
    refine ⟨by simp [hnull], fun hscalar => ?_⟩
    obtain ⟨t, ht⟩ := exists_scalarText hscalar
    obtain rfl : .single t = value :=
      Except.ok.inj ((filterValue_of_scalarText ht).symm.trans hvalue)
    exact ⟨t, textOf_of_scalarText ht, by simp [hnull]⟩

end Decode

namespace Query

/-- **Which values of conditions are kept**: all but `null`, wherever the condition stands. -/
theorem ofJson_values_iff {v : Json} {q : Query} (h : ofJson v = .ok q) :
    List.Forall₂ Decode.KeepsValue v.conditions q.conditions := by
  refine (Decode.reads_conditions (Decode.query_of_ofJson h)).imp ?_
  rintro w c ⟨n, origin, hc⟩
  exact Decode.keepsValue hc

/-- A truth value, and a number in a semi-join of a query that is an argument of a call. -/
theorem ofJson_values_iff_nested :
    let a : Json := .obj [("field", .str "A"), ("operator", .str "="), ("value", .bool true)]
    let b : Json := .arr [.int 0, .int 0, .null, .str "B", .null, .str "=", .int 5]
    let semi : Json := .obj [("fields", .arr [.arr [.str "Field", .str "Id"]]),
      ("sObject", .str "Y"), ("where", .arr [b])]
    let c : Json := .obj [("field", .str "C"), ("operator", .str "in"), ("valueQuery", semi)]
    let child : Json := .obj [("fields", .arr [.arr [.str "Field", .str "Id"]]),
      ("relationshipName", .str "N"), ("where", .obj [("left", c)])]
    let v : Json := .obj [("fields", .arr [.obj [("functionName", .str "F"),
      ("parameters", .arr [.str "Id", .arr [.str "FieldSubquery", child]]),
      ("type", .str "FieldFunctionExpression")]]), ("sObject", .str "X"), ("where", .arr [a])]
    let semiQuery : Query := { Query.ofObject "Y" [.ofName "Id"] with
      filter := some (.single (.ofValue "B" .equal (.single "5"))) }
    let childQuery : Query := { Query.ofRelationship "N" [.ofName "Id"] with
      filter := some (.single (.ofQuery "C" .isIn semiQuery)) }
    let call : Call := ⟨"F", [.text "Id", .field (.subquery childQuery)], none, false, none⟩
    let q : Query := { Query.ofObject "X" [.call call] with
      filter := some (.single (.ofValue "A" .equal (.single "true"))) }
    ofJson v = .ok q ∧
      v.conditions.filterMap (fun w => (w.part "field" 3).bind text?) =
        (["A", "C", "B"] : List Text) ∧
      List.Forall₂ Decode.KeepsValue v.conditions q.conditions := by
  intro a b semi c child v semiQuery childQuery call q
  have h : ofJson v = .ok q := rfl
  exact ⟨h, by decide +kernel, ofJson_values_iff h⟩

/-- A condition that compares with `null` has no value, although the `null` is a text in a list and
    in a condition of `HAVING`. -/
theorem ofJson_loses_null :
    let w : Json := .obj [("field", .str "A"), ("operator", .str "="), ("value", .null)]
    let v : Json := .obj [("fields", .arr [.obj [("field", .str "Id"), ("type", .str "Field")]]),
      ("sObject", .str "X"), ("where", .obj [("left", w)])]
    let c : Condition := { Condition.ofValue "A" .equal (.single "NULL") with value := none }
    w.part "value" 6 = some .null ∧
      ofJson v = .ok { Query.ofObject "X" [.ofName "Id"] with filter := some (.single c) } ∧
      Decode.filterValue (.arr [.null]) = .ok (.list ["NULL"]) ∧
      Decode.groupCondition .direct w = .ok
        { field := some "A", call := none, comparison := .equal, value := "NULL" } :=
  ⟨rfl, rfl, rfl, rfl⟩

end Query

end Soql
