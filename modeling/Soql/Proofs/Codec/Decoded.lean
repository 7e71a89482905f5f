/-
  What decoding yields.

  Many values stand for the same query: structures may be arrays, scalars of
  any type are texts, keywords are in any case.  Whatever the value, the query
  is one that can be told from its own JSON form.

  * `Gives d P`: whatever the decoder `d` yields satisfies `P`.
  * `Kept I slots`: no component that is put in breaks the invariant `I` of a
    structure.
  * `gives_query`: every decoded query is storable, and so are those in it.
  * `Query.ofJson_normalises`: so decoding its JSON form yields the query
    again.
-/
import Mathlib
import Soql.Proofs.Codec.Texts
import Soql.Query.Build

namespace Soql

open Json

variable {α β σ κ : Type}

namespace Decode

/-! ## Results of decoders -/

theorem map_eq_ok_iff {f : α → β} {x : Except Fault α} {b : β} :
    f <$> x = .ok b ↔ ∃ a, x = .ok a ∧ f a = b := by
  cases x <;> simp [Functor.map, Except.map]

/-- Whatever the decoder yields satisfies `P`. -/
def Gives (d : Decoder α) (P : α → Prop) : Prop := ∀ ⦃v a⦄, d v = .ok a → P a

namespace Gives

variable {d e : Decoder α} {P : α → Prop} {Q : β → Prop}

theorem mono (h : Gives d P) {P' : α → Prop} (hP : ∀ a, P a → P' a) : Gives d P' :=
  fun _ a ha => hP a (h ha)

theorem map {f : α → β} (h : Gives d P) (hf : ∀ a, P a → Q (f a)) :
    Gives (fun v => f <$> d v) Q := by
  intro v b hb
  obtain ⟨a, ha, rfl⟩ := map_eq_ok_iff.1 hb
  exact hf a (h ha)

theorem optional (h : Gives d P) : Gives (Decode.optional d) fun o => ∀ a ∈ o, P a := by
  have hsome : Gives (fun v => some <$> d v) fun o => ∀ a ∈ o, P a := by
    refine h.map fun a ha => ?_
    rintro _ ⟨⟩
    exact ha
  intro v o ho
  cases v with
  | null =>
    cases ho
    simp
  | _ => exact hsome ho

theorem list (h : Gives d P) : Gives (Decode.list d) fun as => ∀ a ∈ as, P a := by
  intro v as has
  cases v with
  | arr items =>
    change items.mapM d = .ok as at has
    induction items generalizing as with
    | nil =>
      cases has
      simp
    | cons v items ih =>
      rw [List.mapM_cons] at has
      obtain ⟨a, ha, has⟩ := bind_eq_ok_iff.1 has
      obtain ⟨as', has', hcons⟩ := bind_eq_ok_iff.1 has
      cases hcons
      exact List.forall_mem_cons.2 ⟨h ha, ih has'⟩
  | _ => cases has

theorem either (hd : Gives d P) (he : Gives e P) (type : Text) :
    Gives (Decode.either type d e) P := by
  intro v a h
  rw [Decode.either] at h
  split at h
  · rename_i hv
    cases h
    exact hd hv
  · split at h
    · rename_i hv
      cases h
      exact he hv
    · cases h

end Gives

theorem list_eq_nil {d : Decoder α} {v : Json} (h : list d v = .ok []) : v = .arr [] := by
  cases v with
  | arr items =>
    cases items with
    | nil => rfl
    | cons v items =>
      change (v :: items).mapM d = .ok [] at h
      rw [List.mapM_cons] at h
      obtain ⟨a, -, h⟩ := bind_eq_ok_iff.1 h
      obtain ⟨as, -, h⟩ := bind_eq_ok_iff.1 h
      cases h
  | _ => cases h

theorem gives_natBelow (bound : Nat) (wanted : Text) :
    Gives (natBelow bound wanted) (· < bound) := by
  intro v n h
  cases v with
  | int i =>
    rw [natBelow] at h
    split at h
    · cases h
      omega
    · cases h
  | _ => cases h

/-! ## Invariants of structures -/

/-- No component that is put in breaks the invariant. -/
def Kept (I : σ → Prop) (slots : List (Slot σ)) : Prop :=
  ∀ slot ∈ slots, ∀ ⦃s v s'⦄, I s → slot.put s v = .ok s' → I s'

namespace Kept

variable {I : σ → Prop} {slots : List (Slot σ)} {key : Text} {q : Bool} {d : Decoder α}
  {set : σ → α → σ} {P : α → Prop}

theorem nil : Kept I [] := List.forall_mem_nil _

/-- A component of which something is known. -/
theorem put (hd : Gives d P) (hset : ∀ s a, I s → P a → I (set s a)) (rest : Kept I slots) :
    Kept I (⟨key, q, fun s v => set s <$> d v⟩ :: slots) := by
  refine List.forall_mem_cons.2 ⟨fun s v s' hs h => ?_, rest⟩
  exact hd.map (fun a ha => hset s a hs ha) h

/-- A component that the invariant does not depend on. -/
theorem other (rest : Kept I slots)
    (hset : ∀ s a, I s → I (set s a) := by exact fun _ _ hs => hs) :
    Kept I (⟨key, q, fun s v => set s <$> d v⟩ :: slots) :=
  put (P := fun _ => True) (fun _ _ _ => trivial) (fun s a hs _ => hset s a hs) rest

theorem putMembers (h : Kept I slots) {s s' : σ} {ms : List (Text × Json)} (hs : I s)
    (hput : Decode.putMembers slots s ms = .ok s') : I s' := by
  induction ms generalizing s with
  | nil =>
    cases hput
    exact hs
  | cons m ms ih =>
    rw [putMembers_cons] at hput
    obtain ⟨t, ht, hput⟩ := bind_eq_ok_iff.1 hput
    refine ih ?_ hput
    unfold putMember at ht
    split at ht
    · rename_i slot hslot
      exact h slot (List.mem_of_find?_eq_some hslot) hs ht
    · cases ht
      exact hs

theorem putItems (h : Kept I slots) {wanted : Text} {surplus : Fault} {i : Nat} {s s' : σ}
    {items : List Json} (hs : I s)
    (hput : Decode.putItems wanted surplus i slots s items = .ok s') : I s' := by
  induction slots generalizing i s items with
  | nil =>
    cases items with
    | nil =>
      cases hput
      exact hs
    | cons => cases hput
  | cons slot slots ih =>
    obtain ⟨hslot, hslots⟩ := List.forall_mem_cons.1 h
    cases items with
    | nil =>
      rw [Decode.putItems] at hput
      split at hput
      · cases hput
      · exact ih hslots hs hput
    | cons item items =>
      obtain ⟨t, ht, hput⟩ := bind_eq_ok_iff.1 hput
      exact ih hslots (hslot hs ht) hput

/-- The structure of the members of an object has the invariant. -/
theorem recordOfMembers {r : Record σ} (h : Kept I r.slots) (hblank : I r.blank)
    {ms : List (Text × Json)} {s : σ} (hok : Decode.recordOfMembers r ms = .ok s) : I s := by
  obtain ⟨t, ht, hok⟩ := bind_eq_ok_iff.1 hok
  obtain ⟨_, -, hok⟩ := bind_eq_ok_iff.1 hok
  cases hok
  exact h.putMembers hblank ht

/-- **A structure has every invariant that its components keep**, from an object as from an
    array. -/
theorem record {r : Record σ} (h : Kept I r.slots) (hblank : I r.blank) (origin : Origin) :
    Gives (Decode.record r origin) I := by
  intro v s hok
  cases v with
  | obj ms => exact h.recordOfMembers hblank hok
  | arr items => exact h.putItems hblank hok
  | _ => cases hok

end Kept

/-! ## Filters -/

theorem gives_chainUpTo {d : Decoder κ} {P : κ → Prop} (hd : Gives d P) (name : Text)
    (origin : Origin) (n : Nat) :
    Gives (chainUpTo name d origin n) fun chain => ∀ c ∈ chain.conditions, P c := by
  induction n with
  | zero => intro v c h; cases h
  | succ n ih =>
    refine Gives.map (P := fun node : Node κ => (∀ c ∈ node.condition, P c) ∧
      ∀ chain ∈ node.right, ∀ c ∈ chain.conditions, P c) (Kept.record ?_ ⟨by simp, by simp⟩ _) ?_
    · exact .put hd.optional (fun _ _ hs ha => ⟨ha, hs.2⟩) <| .other <|
        .put ih.optional (fun _ _ hs ha => ⟨hs.1, ha⟩) .nil
    · rintro ⟨condition, connective, right⟩ ⟨hleft, hright⟩
      rw [Node.toChain, Chain.conditions, Chain.links, Link.conditions_cons]
      refine List.forall_mem_append.2 ⟨by simpa using hleft, ?_⟩
      cases right with
      | none => simp [Link.conditions]
      | some chain => exact hright chain rfl

theorem gives_chain {d : Decoder κ} {P : κ → Prop} (hd : Gives d P) (name : Text)
    (origin : Origin) : Gives (chain name d origin) fun chain => ∀ c ∈ chain.conditions, P c :=
  fun _ _ h => gives_chainUpTo hd name origin _ h

theorem gives_parenCount : Gives parenCount (· < UInt32.size) := gives_natBelow _ _

theorem gives_groupCondition (origin : Origin) : Gives (groupCondition origin) fun c =>
    c.opens < UInt32.size ∧ c.closes < UInt32.size := by
  have hzero : 0 < UInt32.size := by decide
  refine Kept.record ?_ ⟨hzero, hzero⟩ _
  exact .put gives_parenCount (fun _ _ hs ha => ⟨ha, hs.2⟩) <|
    .put gives_parenCount (fun _ _ hs ha => ⟨hs.1, ha⟩) <|
    .other <| .other <| .other <| .other .nil

/-- A condition keeps its counts below the bound and compares with a query that `query` yields. -/
theorem gives_condition {query : Decoder Query} {P : Query → Prop} (hq : Gives query P)
    (origin : Origin) : Gives (condition query origin) fun c =>
      (c.opens < UInt32.size ∧ c.closes < UInt32.size) ∧ ∀ q ∈ c.query, P q := by
  have hzero : 0 < UInt32.size := by decide
  refine Kept.record ?_ ⟨⟨hzero, hzero⟩, by simp⟩ _
  exact .put gives_parenCount (fun _ _ hs ha => ⟨⟨ha, hs.1.2⟩, hs.2⟩) <|
    .put gives_parenCount (fun _ _ hs ha => ⟨⟨hs.1.1, ha⟩, hs.2⟩) <|
    .other <| .other <| .other <| .other <| .other <| .other <|
    .put hq.optional (fun _ _ hs ha => ⟨hs.1, ha⟩) .nil

/-! ## Grouping and sorting -/

theorem gives_grouping (origin : Origin) :
    Gives (grouping origin) fun g => ∀ chain ∈ g.having, chain.CountsFit := by
  have hchain : Gives (groupFilter origin) Chain.CountsFit :=
    gives_chain (gives_groupCondition origin) _ _
  refine Kept.record ?_ (by simp) _
  exact .other <| .other <|
    .put hchain.optional (fun _ _ _ ha => ha) .nil

/-- An empty array is no list of sort keys but a single one, of which everything is left out. -/
theorem gives_sortKeys : Gives sortKeys (· ≠ .many []) := by
  rintro v _ h rfl
  simp only [sortKeys, either] at h
  split at h
  · rename_i hone
    cases h
    obtain ⟨key, -, hkey⟩ := map_eq_ok_iff.1 hone
    cases hkey
  · rename_i hone
    split at h
    · rename_i hmany
      cases h
      obtain ⟨keys, hkeys, hnil⟩ := map_eq_ok_iff.1 hmany
      cases hnil
      obtain rfl := list_eq_nil hkeys
      cases hone
    · cases h

/-! ## Queries -/

section Queries

variable {fd : Decoder Field} {qd : Decoder Query} {PF : Field → Prop} {PQ : Query → Prop}

theorem gives_call (hf : Gives fd PF) (origin : Origin) :
    Gives (call fd origin) fun c => ∀ f, .field f ∈ c.arguments → PF f := by
  have hargument : Gives (argument fd) fun a => ∀ f, a = .field f → PF f := by
    refine Gives.either ?_ ?_ _
    · exact Gives.map (P := fun _ => True) (fun _ _ _ => trivial) (by simp)
    · exact hf.map (by simp)
  refine Kept.record ?_ (by simp) _
  exact .other <| .put hargument.list (fun _ _ _ ha f hf => ha _ hf f rfl) <|
    .other <| .other <| .other .nil

/-- What holds of the query and the arguments in a field expression. -/
theorem gives_fieldWith (hf : Gives fd PF) (hq : Gives qd PQ) (origin : Origin) :
    Gives (fieldWith fd qd origin) fun f =>
      (∀ c, f = .call c → ∀ g, .field g ∈ c.arguments → PF g) ∧ ∀ q, f = .subquery q → PQ q := by
  intro v f h
  obtain ⟨⟨tag, content⟩, -, h⟩ := bind_eq_ok_iff.1 h
  cases tag with
  | call =>
    obtain ⟨c, hc, rfl⟩ := map_eq_ok_iff.1 h
    refine ⟨?_, by simp⟩
    rintro _ ⟨⟩
    exact gives_call hf _ hc
  | subquery =>
    obtain ⟨o, ho, h⟩ := bind_eq_ok_iff.1 h
    have hsub : Gives (subquery qd .heldBack) fun o => ∀ q ∈ o, PQ q := by
      refine Kept.record ?_ (by simp) _
      exact .put hq (by simp) .nil
    cases o with
    | none => cases h
    | some q =>
      cases h
      refine ⟨by simp, ?_⟩
      rintro _ ⟨⟩
      exact hsub ho q rfl
  | plain | path | typeOf =>
    obtain ⟨_, -, rfl⟩ := map_eq_ok_iff.1 h
    simp

/-- What holds of the fields of a query and of the queries that its conditions compare with; its
    own parts can be told from their JSON form. -/
theorem gives_queryWith (hf : Gives fd PF) (hq : Gives qd PQ) (origin : Origin) :
    Gives (queryWith fd qd origin) fun q => q.Storable ∧ (∀ f ∈ q.fields, PF f) ∧
      ∀ chain ∈ q.filter, ∀ c ∈ chain.conditions, ∀ r ∈ c.query, PQ r := by
  have hfilter : Gives (filter qd origin) fun chain => chain.CountsFit ∧
      ∀ c ∈ chain.conditions, ∀ r ∈ c.query, PQ r :=
    (gives_chain (gives_condition hq origin) _ _).mono fun chain h =>
      ⟨fun c hc => (h c hc).1, fun c hc => (h c hc).2⟩
  have hkept : Kept (fun q : Query => ((∀ chain ∈ q.filter, chain.CountsFit ∧
      ∀ c ∈ chain.conditions, ∀ r ∈ c.query, PQ r) ∧
      ∀ g ∈ q.grouping, ∀ chain ∈ g.having, chain.CountsFit) ∧
      (∀ keys ∈ q.sorting, keys ≠ .many []) ∧ ∀ f ∈ q.fields, PF f)
      (queryRecord fd qd origin).slots :=
    .put hf.list (fun _ _ hs ha => ⟨hs.1, hs.2.1, ha⟩) <| .other <|
    .put hfilter.optional (fun _ _ hs ha => ⟨⟨ha, hs.1.2⟩, hs.2⟩) <|
    .put (gives_grouping origin).optional (fun _ _ hs ha => ⟨⟨hs.1.1, ha⟩, hs.2⟩) <|
    .put gives_sortKeys.optional (fun _ _ hs ha => ⟨hs.1, ha, hs.2.2⟩) <|
    .other <| .other <| .other <| .other <| .other <| .other .nil
  intro v q h
  cases v with
  | obj ms =>
    obtain ⟨q, hrecord, h⟩ := bind_eq_ok_iff.1 h
    obtain ⟨src, -, h⟩ := bind_eq_ok_iff.1 h
    cases h
    obtain ⟨⟨hchain, hgroup⟩, hkeys, hfields⟩ :=
      hkept.recordOfMembers (by simp [queryRecord]) hrecord
    refine ⟨⟨⟨fun chain hc => (hchain chain hc).1, fun chain hc => ?_⟩, fun hs => ?_⟩, hfields,
      fun chain hc => (hchain chain hc).2⟩
    · obtain ⟨g, hg, hc⟩ := Option.bind_eq_some_iff.1 hc
      exact hgroup g hg chain hc
    · exact hkeys _ hs rfl
  | _ => cases h

end Queries

/-- What lies inside of a condition is the query that it compares with, or lies in that. -/
theorem exists_of_mem_inner {c : Condition} {x : Bool × Query} (h : x ∈ c.inner) :
    ∃ r ∈ c.query, x.2 ∈ r.all := by
  obtain ⟨_, _, _, _, _, _, _, _, query⟩ := c
  cases query with
  | none => cases h
  | some r => exact ⟨r, rfl, List.mem_map_of_mem h⟩

/-- Every query and every field that decoding yields holds only queries that can be told from
    their JSON form. -/
theorem gives_upTo (n : Nat) :
    (∀ origin, Gives (queryUpTo n origin) fun q => ∀ r ∈ q.all, r.Storable) ∧
    ∀ origin, Gives (fieldUpTo n origin) fun f => ∀ x ∈ f.inner, x.2.Storable := by
  induction n with
  | zero => exact ⟨fun _ v q h => (by cases h), fun _ v f h => (by cases h)⟩
  | succ n ih =>
    obtain ⟨ihq, ihf⟩ := ih
    refine ⟨fun origin => ?_, fun origin => ?_⟩
    · refine (gives_queryWith (ihf origin) (ihq origin) origin).mono fun q h => ?_
      obtain ⟨hown, hfields, hfilter⟩ := h
      rw [Query.all, Query.inner_eq]
      refine List.forall_mem_cons.2 ⟨hown, List.forall_mem_map.2 fun x hx => ?_⟩
      rcases List.mem_append.1 hx with hx | hx
      · obtain ⟨f, hf, hx⟩ := List.mem_flatMap.1 hx
        exact hfields f hf x hx
      · obtain ⟨c, hc, hx⟩ := List.mem_flatMap.1 hx
        obtain ⟨chain, hchain, hc⟩ := List.mem_flatMap.1 hc
        obtain ⟨r, hr, hx⟩ := exists_of_mem_inner hx
        exact hfilter chain (Option.mem_toList.1 hchain) c hc r hr x.2 hx
    · refine (gives_fieldWith (ihf .heldBack) (ihq .heldBack) origin).mono fun f h x hx => ?_
      obtain ⟨hcall, hquery⟩ := h
      cases f with
      | call c =>
        rw [Field.inner, Call.inner_eq] at hx
        obtain ⟨a, ha, hx⟩ := List.mem_flatMap.1 hx
        cases a with
        | text t => cases hx
        | field g => exact hcall c rfl g ha x hx
      | subquery q => exact hquery q rfl x.2 (List.mem_map_of_mem hx)
      | plain | path | typeOf => cases hx

theorem gives_query : Gives query fun q => ∀ r ∈ q.all, r.Storable :=
  fun v _ h => (gives_upTo (v.depth + 1)).1 .direct h

theorem query_of_ofJson {v : Json} {q : Query} (h : Query.ofJson v = .ok q) : query v = .ok q := by
  rw [Query.ofJson] at h
  split at h
  · cases h
  · split at h
    · rename_i hdecode
      cases h
      exact hdecode
    · cases h

end Decode

namespace Query

/-- **Decoding normalises**: whatever the shape of a value, the JSON form of the query that it
    stands for stands for the same query. -/
theorem ofJson_normalises {v : Json} {q : Query} (h : ofJson v = .ok q) :
    ofJson (Encode.query q).sorted = .ok q := by
  have hdecode : Decode.query v = .ok q := Decode.query_of_ofJson h
  have hstorable : ∀ r ∈ q.all, r.Storable := Decode.gives_query hdecode
  exact ofJson_sorted hstorable

/-- Structures as arrays, a number for a text, a keyword in lower case, an empty array of sort
    keys, a member that is `null` and one that no query has. -/
theorem ofJson_normalises_arrays :
    let v : Json := .obj [("alias", .bool true), ("fields", .arr [.arr [.str "Field", .str "Id"]]),
      ("groupBy", .null), ("orderBy", .arr []), ("sObject", .str "X"),
      ("where", .arr [.obj [("field", .str "A"), ("operator", .str "not in"),
        ("value", .arr [.int 5, .null, .bool true])]])]
    let c : Condition := .ofValue "A" .notIn (.list ["5", "NULL", "true"])
    let q : Query := { Query.ofObject "X" [.ofName "Id"] with
      filter := some (.single c), sorting := some (.one {}) }
    ofJson v = .ok q ∧ ofJson (Encode.query q).sorted = .ok q := by
  intro v c q
  have h : ofJson v = .ok q := rfl
  exact ⟨h, ofJson_normalises h⟩

end Query

end Soql
