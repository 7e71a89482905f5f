/-
  The JSON form of queries.

  What lies in a query is one or more levels deeper in its JSON form, so the
  depth of that form bounds how far decoding has to go.

  * `Query.Storable`: a query whose own parts have a JSON form of their own.
  * `Form.queryWith`, `Form.fieldWith`: a query and a field are read back if
    what lies in them is.
  * `Form.query`: every query is read back, if all queries in it are storable.
-/
import Mathlib
import Soql.Proofs.Codec.Clauses
import Soql.Proofs.Query.Shape

namespace Soql

open Json Decode

variable {κ σ : Type}

/-! ## Queries that can be told from their JSON form -/

/-- The counts of parentheses are numbers of 32 bits. -/
def Chain.CountsFit [Parenthesized κ] (chain : Chain κ) : Prop :=
  ∀ c ∈ chain.conditions,
    Parenthesized.opens c < UInt32.size ∧ Parenthesized.closes c < UInt32.size

/-- The counts of parentheses in the filters of a query are numbers of 32 bits. -/
def Query.CountsFit (q : Query) : Prop :=
  (∀ chain ∈ q.filter, chain.CountsFit) ∧
    ∀ chain ∈ q.grouping.bind Grouping.having, chain.CountsFit

instance [Parenthesized κ] (chain : Chain κ) : Decidable chain.CountsFit :=
  inferInstanceAs (Decidable (∀ c ∈ chain.conditions,
    Parenthesized.opens c < UInt32.size ∧ Parenthesized.closes c < UInt32.size))

instance (q : Query) : Decidable q.CountsFit :=
  inferInstanceAs (Decidable ((∀ chain ∈ q.filter, chain.CountsFit) ∧
    ∀ chain ∈ q.grouping.bind Grouping.having, chain.CountsFit))

/-- A query whose own parts are read back.  An empty list of sort keys is not: it is also the
    array of a single key of which everything is left out. -/
structure Query.Storable (q : Query) : Prop where
  counts : q.CountsFit
  keys : q.sorting ≠ some (.many [])

/-! ## Encoded lists -/

namespace Encode

theorem fields_eq (fs : List Field) : fields fs = fs.map field := by
  induction fs with
  | nil => rfl
  | cons f fs ih => rw [fields, ih, List.map_cons]

theorem arguments_eq (as : List Argument) : arguments as = as.map argument := by
  induction as with
  | nil => rfl
  | cons a as ih => rw [arguments, ih, List.map_cons]

theorem conditionLink_eq (x : Link Condition) : conditionLink x = x.map condition := by
  obtain ⟨_ | c, connective⟩ := x <;> rfl

theorem conditionLinks_eq (xs : List (Link Condition)) :
    conditionLinks xs = xs.map (Link.map condition) := by
  induction xs with
  | nil => rfl
  | cons x xs ih => rw [conditionLinks, ih, conditionLink_eq, List.map_cons]

theorem filter?_eq (o : Option (Chain Condition)) :
    filter? o = o.map fun c => chain (c.map condition) := by
  cases o with
  | none => rfl
  | some c => rw [filter?, conditionLink_eq, conditionLinks_eq]; rfl

theorem valueQuery_eq (o : Option Query) : valueQuery o = o.map query := by
  cases o <;> rfl

end Encode

/-! ## Field expressions -/

/-- An object that carries the kind of a field expression and from which, without that, `a` is
    decoded. -/
structure Tagged (tag : FieldTag) (d : Decoder σ) (v : Json) (a : σ) : Prop where
  tidy : v.Tidy
  present : v ≠ .null
  splits : ∀ origin, ∃ content, splitTag origin v.sorted = .ok (tag, content) ∧ d content = .ok a

theorem fieldTag_word (tag : FieldTag) (origin : Origin) :
    fieldTag origin (.str tag.word) = .ok tag := by
  cases tag <;> rfl

/-- The object of a kind and of the entries that fill a structure. -/
theorem Tagged.record {r : Record σ} {es : List (Text × Option Json)} {ms : List (Text × Json)}
    {tag : FieldTag} {s a : σ} (hr : r.Lawful) (ht : ∀ slot ∈ r.slots, slot.key ≠ ("type" : Text))
    (h : Fills r.slots r.blank es s) (hs : s = a) (hms : ms = Encode.tag tag ++ gather es) :
    Tagged tag (Decode.record r .heldBack) (.obj ms) a := by
  subst hs
  have hall : (r.slots.map Slot.key ++ keys (Encode.tag tag)).Nodup :=
    List.nodup_append.2
      ⟨hr.keys, List.nodup_singleton _, by simpa [Encode.tag, Encode.present] using ht⟩
  obtain ⟨htidy, ns, hns, hk, hperm⟩ := h.sorted (hms ▸ List.perm_append_comm) hall
    (by simp [Encode.tag, Encode.present, Tidy])
  have hlook : ns.lookup ("type" : Text) = some (.str tag.word) := by
    rw [lookup_eq_some_iff_mem hk, hperm.mem_iff]
    exact List.mem_append_right _ (List.mem_singleton.2 rfl)
  refine ⟨htidy, by simp, fun origin => ⟨.obj (ns.filter (·.1 != ("type" : Text))), ?_, ?_⟩⟩
  · rw [hns, splitTag, hlook]
    simp only [fieldTag_word]
    rfl
  · refine recordOfMembers_of_perm hr h rfl (filter_perm (hperm.trans List.perm_append_comm) ?_ ?_)
    · simp [Encode.tag, Encode.present, sortedValues]
    · intro m hm
      obtain ⟨slot, hslot, hkey⟩ := h.exists_slot m hm
      simpa [← hkey] using ht slot hslot

theorem Tagged.form {tag : FieldTag} {d : Decoder σ} {v : Json} {a : σ} {fd : Decoder Field}
    {qd : Decoder Query} {origin : Origin} {f : Field} (h : Tagged tag d v a)
    (hf : ∀ w content, splitTag origin w = .ok (tag, content) → d content = .ok a →
      Decode.fieldWith fd qd origin w = .ok f) :
    Form (Decode.fieldWith fd qd origin) v f := by
  obtain ⟨content, hs, hd⟩ := h.splits origin
  exact ⟨h.tidy, h.present, hf _ content hs hd⟩

namespace Form

variable {fd : Decoder Field} {qd : Decoder Query}

theorem argument {a : Argument} (h : ∀ f, a = .field f → Form fd (Encode.field f) f) :
    Form (Decode.argument fd) (Encode.argument a) a := by
  cases a with
  | text t => exact ((text t).map Argument.text).either_left _
  | field f =>
    -- A field expression is an object, so it is no text.
    cases f <;> exact either_right rfl ((h _ rfl).map Argument.field) _

end Form

/-! ### The kinds of field expressions -/

namespace Tagged

open Form

variable {fd : Decoder Field} {qd : Decoder Query}

theorem plain (f : PlainField) :
    Tagged .plain (plainField .heldBack) (Encode.field (.plain f)) f := by
  refine .record (by simp) (by simp) (.always (text f.name) <|
    .option f.owner (fun t _ => text t) rfl <|
    .option f.aliasName (fun t _ => text t) rfl .nil) rfl ?_
  simp

theorem call (c : Call) (h : ∀ f, .field f ∈ c.arguments → Form fd (Encode.field f) f) :
    Tagged .call (Decode.call fd .heldBack) (Encode.field (.call c)) c := by
  obtain ⟨name, args, aliasName, aggregate, source⟩ := c
  have hargs : Form (Decode.list (Decode.argument fd)) (.arr (args.map Encode.argument)) args :=
    list_map fun a ha => argument fun f hf => h f (hf ▸ ha)
  refine .record (by simp) (by simp) (.always (text name) <| .always hargs <|
    .option aliasName (fun t _ => text t) rfl <| .elided (bool aggregate) id rfl <|
    .option source (fun t _ => text t) rfl .nil) rfl ?_
  simp [Encode.call, Encode.arguments_eq]

theorem path (f : PathField) : Tagged .path (pathField .heldBack) (Encode.field (.path f)) f := by
  refine .record (by simp) (by simp) (.always (text f.name) <| .always (texts f.path) <|
    .option f.owner (fun t _ => text t) rfl <|
    .option f.aliasName (fun t _ => text t) rfl .nil) rfl ?_
  simp

theorem subquery (q : Query) (h : Form qd (Encode.query q) q) :
    Tagged .subquery (Decode.subquery qd .heldBack) (Encode.field (.subquery q)) (some q) := by
  refine .record (by simp) (by simp) (.always h .nil) rfl ?_
  simp

theorem typeOf (e : TypeOf) :
    Tagged .typeOf (Decode.typeOf .heldBack) (Encode.field (.typeOf e)) e := by
  have hbranches : Form (Decode.list (Decode.typeBranch .heldBack))
      (.arr (e.branches.map Encode.typeBranch)) e.branches :=
    list_map fun b _ => typeBranch b .heldBack
  refine .record (by simp) (by simp) (.always (text e.field) <| .always hbranches .nil) rfl ?_
  simp

end Tagged

namespace Form

variable {fd : Decoder Field} {qd : Decoder Query}

/-- A field expression is read back if what lies in it is. -/
theorem fieldWith {f : Field}
    (hf : ∀ c, f = .call c → ∀ g, .field g ∈ c.arguments → Form fd (Encode.field g) g)
    (hq : ∀ q, f = .subquery q → Form qd (Encode.query q) q) (origin : Origin) :
    Form (Decode.fieldWith fd qd origin) (Encode.field f) f := by
  cases f with
  | plain f =>
    refine (Tagged.plain f).form fun w content hs hd => ?_
    rw [Decode.fieldWith, hs]
    exact congrArg (Field.plain <$> ·) hd
  | call c =>
    refine (Tagged.call c (hf c rfl)).form fun w content hs hd => ?_
    rw [Decode.fieldWith, hs]
    exact congrArg (Field.call <$> ·) hd
  | path f =>
    refine (Tagged.path f).form fun w content hs hd => ?_
    rw [Decode.fieldWith, hs]
    exact congrArg (Field.path <$> ·) hd
  | subquery q =>
    refine (Tagged.subquery q (hq q rfl)).form fun w content hs hd => ?_
    rw [Decode.fieldWith, hs]
    simp only [bind, Except.bind, hd]
    rfl
  | typeOf e =>
    refine (Tagged.typeOf e).form fun w content hs hd => ?_
    rw [Decode.fieldWith, hs]
    exact congrArg (Field.typeOf <$> ·) hd

/-! ## Queries -/

/-- A condition is read back if the query that it compares with is. -/
theorem condition {c : Condition} (ho : c.opens < UInt32.size) (hc : c.closes < UInt32.size)
    (hq : ∀ q ∈ c.query, Form qd (Encode.query q) q) (origin : Origin) :
    Form (Decode.condition qd origin) (Encode.condition c) c := by
  obtain ⟨opens, closes, negated, field, call, comparison, value, kinds, query⟩ := c
  obtain ⟨negation, rfl, hnegation⟩ : ∃ o : Option Negation, negated = o.isSome ∧
      (if negated then some (Encode.keyword Negation.not) else none) = o.map Encode.keyword := by
    cases negated with
    | false => exact ⟨none, rfl, rfl⟩
    | true => exact ⟨some .not, rfl, rfl⟩
  refine record (by simp) (.elided (natBelow ho (by decide) _) id rfl <|
    .elided (natBelow hc (by decide) _) id rfl <|
    .option negation (fun k _ => keyword k) rfl <| .option field (fun t _ => text t) rfl <|
    .option call (fun call _ => flatCall call origin) rfl <| .always (keyword comparison) <|
    .option value (fun v _ => filterValue v) rfl <|
    .option kinds (fun ks _ => literalKinds ks) rfl <| .option query hq rfl .nil) rfl ?_
  simp [hnegation, Encode.valueQuery_eq]

/-- The members that name a source are read back in any order. -/
theorem source {src : Source} {ms : List (Text × Json)}
    (h : ms.Perm (sortedValues (Encode.source src))) : Decode.source (.obj ms) = .ok src := by
  cases src with
  | relationship name path =>
    have hs : Encode.source (.relationship name path) = gather
        [("relationshipName", some (.str name)),
        ("sObjectPrefix", if path = [] then none else some (Encode.texts path))] := by
      simp [Encode.source]
    have hd : relationship (.obj ms) = .ok (.relationship name path) :=
      bind_eq_ok_iff.2 ⟨(name, path), recordOfMembers_of_perm (by simp)
        (.always (text name) <| .elided (texts path) id rfl .nil) rfl (hs ▸ h), rfl⟩
    rw [Decode.source, either, hd]
  | object name =>
    -- A single member, which names no relationship.
    obtain rfl := List.perm_singleton.1 h
    rfl

/-- A number of rows by its value. -/
theorem rowCount (o : Option UInt64) : ∃ rows : Option Nat, o = rows.map Nat.toUInt64 ∧
    o.map Encode.rowCount = rows.map (fun n : Nat => Json.int n) ∧ ∀ n ∈ rows, n < UInt64.size := by
  cases o with
  | none => exact ⟨none, rfl, rfl, by simp⟩
  | some n => exact ⟨some n.toNat, by simp, rfl, by simpa using n.toNat_lt⟩

/-- The entries of a query apart from its source. -/
theorem exists_fills_query {q : Query} (h : q.Storable)
    (hf : ∀ f ∈ q.fields, Form fd (Encode.field f) f)
    (hq : ∀ chain ∈ q.filter, ∀ c ∈ chain.conditions, ∀ r ∈ c.query, Form qd (Encode.query r) r)
    (origin : Origin) : ∃ e es,
      Encode.query q = .obj (gather [e] ++ (Encode.source q.source ++ gather es)) ∧
      Fills (queryRecord fd qd origin).slots (queryRecord fd qd origin).blank (e :: es)
        { q with source := .object [] } := by
  obtain ⟨fields, src, aliasName, filter, grouping, sorting, limit, offset, categories,
    securityEnforced, forTarget, update⟩ := q
  have hfields : Form (Decode.list fd) (.arr (fields.map Encode.field)) fields := list_map hf
  have hfilter : ∀ chain ∈ filter, Form (Decode.filter qd origin)
      (Encode.chain (chain.map Encode.condition)) chain := fun c hc =>
    chain _ origin fun k hk => condition (h.counts.1 c hc k hk).1 (h.counts.1 c hc k hk).2
      (hq c hc k hk) origin
  have hgrouping : ∀ g ∈ grouping, Form (Decode.grouping origin) (Encode.grouping g) g :=
    fun g hg => Form.grouping (fun c hc => h.counts.2 c (Option.bind_eq_some_iff.2 ⟨g, hg, hc⟩))
      origin
  have hsorting : ∀ keys ∈ sorting, Form Decode.sortKeys (Encode.sortKeys keys) keys :=
    fun keys hkeys => sortKeys fun he => h.keys (he ▸ hkeys)
  obtain ⟨limit, rfl, hlimit, hlimit'⟩ := rowCount limit
  obtain ⟨offset, rfl, hoffset, hoffset'⟩ := rowCount offset
  refine ⟨_, _, ?_, .always hfields <| .option aliasName (fun t _ => text t) rfl <|
    .option filter hfilter rfl <| .option grouping hgrouping rfl <|
    .option sorting hsorting rfl <|
    .option limit (fun n hn => natBelow (hlimit' n hn) le_rfl _) rfl <|
    .option offset (fun n hn => natBelow (hoffset' n hn) le_rfl _) rfl <|
    .option categories (fun cs _ => Form.categories cs origin) rfl <|
    .elided (bool securityEnforced) (fun hs : securityEnforced = false => hs) rfl <|
    .option forTarget (fun k _ => keyword k) rfl <|
    .option update (fun k _ => keyword k) rfl .nil⟩
  simp [Encode.query, hlimit, hoffset, Encode.fields_eq, Encode.filter?_eq]

theorem lawful_queryRecord (origin : Origin) : (queryRecord fd qd origin).Lawful := by
  simp [queryRecord]

/-- The keys of the members that name a source. -/
def sourceKeys : List Text := ["relationshipName", "sObjectPrefix", "sObject"]

theorem keys_source (src : Source) : List.Sublist (keys (Encode.source src)) sourceKeys := by
  rcases src with ⟨name, _ | ⟨t, ts⟩⟩ | name
  · exact .cons_cons _ (List.nil_sublist _)
  · exact .cons_cons _ (.cons_cons _ (List.nil_sublist _))
  · exact .cons _ (.cons _ (.refl _))

theorem tidy_source (src : Source) : ∀ m ∈ Encode.source src, m.2.Tidy := by
  rcases src with ⟨name, _ | ⟨t, ts⟩⟩ | name
  · simp [Encode.source, Encode.present, Tidy]
  · simpa [Encode.source, Encode.present, Tidy] using (texts (t :: ts)).tidy
  · simp [Encode.source, Encode.present, Tidy]

/-- No member that names a source is another component of a query. -/
theorem nodup_keys_query (fd : Decoder Field) (qd : Decoder Query) (origin : Origin)
    (src : Source) :
    ((queryRecord fd qd origin).slots.map Slot.key ++ keys (Encode.source src)).Nodup := by
  have hall : ((queryRecord fd qd origin).slots.map Slot.key ++ sourceKeys).Nodup := by
    simp [queryRecord, sourceKeys]
  exact ((List.Sublist.refl _).append (keys_source src)).nodup hall

/-- A query is read back if the fields and the queries in it are. -/
theorem queryWith {q : Query} (h : q.Storable) (hf : ∀ f ∈ q.fields, Form fd (Encode.field f) f)
    (hq : ∀ chain ∈ q.filter, ∀ c ∈ chain.conditions, ∀ r ∈ c.query, Form qd (Encode.query r) r)
    (origin : Origin) : Form (Decode.queryWith fd qd origin) (Encode.query q) q := by
  obtain ⟨e, es, henc, hfills⟩ := exists_fills_query h hf hq origin
  have hkeys := nodup_keys_query fd qd origin q.source
  have hmembers : (gather [e] ++ (Encode.source q.source ++ gather es)).Perm
      (gather (e :: es) ++ Encode.source q.source) := by
    simpa using List.perm_append_comm.append_left (gather [e])
  obtain ⟨htidy, ns, hns, hk, hperm⟩ := hfills.sorted hmembers hkeys (tidy_source q.source)
  have hother := ne_key_of_nodup hkeys
  have hrest : (ns.filter fun m => (queryRecord fd qd origin).slots.all (·.key != m.1)).Perm
      (sortedValues (Encode.source q.source)) := by
    refine filter_perm hperm (fun m hm => ?_) (fun m hm => by simpa using hother m hm)
    obtain ⟨slot, hslot, hkey⟩ := hfills.exists_slot m hm
    simpa using ⟨slot, hslot, hkey⟩
  rw [henc]
  refine ⟨htidy, by simp, ?_⟩
  rw [hns]
  refine bind_eq_ok_iff.2 ⟨_, recordOfMembers_eq_ok (lawful_queryRecord origin) hfills hperm hk
    hother, ?_⟩
  simp only
  rw [source hrest]
  cases q
  rfl

end Form

/-! ## What lies in a query -/

section Depth

variable {q r : Query}

theorem depth_field_lt {f : Field} (h : f ∈ q.fields) :
    (Encode.field f).depth < (Encode.query q).depth := by
  obtain ⟨fields, _, _, _, _, _, _, _, _, _, _, _⟩ := q
  have hitems : (Encode.field f).depth < (Json.arr (Encode.fields fields)).depth := by
    rw [Encode.fields_eq]
    exact depth_lt_arr (List.mem_map_of_mem h)
  exact hitems.trans (depth_lt_obj "fields" (by simp [Encode.present]))

theorem depth_argument_lt {c : Call} {f : Field} (h : .field f ∈ c.arguments) :
    (Encode.field f).depth < (Encode.field (.call c)).depth := by
  obtain ⟨_, args, _, _, _⟩ := c
  have hitems : (Encode.field f).depth < (Json.arr (Encode.arguments args)).depth := by
    rw [Encode.arguments_eq]
    exact depth_lt_arr (List.mem_map.2 ⟨.field f, h, rfl⟩)
  exact hitems.trans (depth_lt_obj "parameters" (by simp [Encode.call, Encode.present]))

theorem depth_subquery_lt (q : Query) :
    (Encode.query q).depth < (Encode.field (.subquery q)).depth :=
  depth_lt_obj "subquery" (by simp [Encode.present])

theorem depth_filter_lt {chain : Chain Condition} (hc : chain ∈ q.filter) :
    (Encode.chain (chain.map Encode.condition)).depth < (Encode.query q).depth := by
  obtain ⟨_, _, _, filter, _, _, _, _, _, _, _, _⟩ := q
  obtain rfl := Option.mem_def.1 hc
  exact depth_lt_obj "where" (by simp [Encode.filter?_eq, Encode.present])

theorem depth_valueQuery_lt {chain : Chain Condition} {c : Condition} (hc : chain ∈ q.filter)
    (hk : c ∈ chain.conditions) (hr : r ∈ c.query) :
    (Encode.query r).depth < (Encode.query q).depth := by
  have hquery : (Encode.query r).depth < (Encode.condition c).depth := by
    obtain ⟨_, _, _, _, _, _, _, _, query⟩ := c
    obtain rfl := Option.mem_def.1 hr
    exact depth_lt_obj "valueQuery" (by simp [Encode.valueQuery, Encode.present])
  have hcondition : (Encode.condition c).depth <
      (Encode.chain (chain.map Encode.condition)).depth := by
    obtain ⟨x, xs⟩ := chain
    exact Encode.depth_condition_lt_chain Encode.condition hk
  exact (hquery.trans hcondition).trans (depth_filter_lt hc)

end Depth

/-- Queries and fields are read back if decoding may go as far as their form is deep. -/
theorem form_upTo (n : Nat) :
    (∀ q origin, (∀ r ∈ Query.all q, r.Storable) → (Encode.query q).depth < n →
      Form (queryUpTo n origin) (Encode.query q) q) ∧
    (∀ f origin, (∀ x ∈ Field.inner f, x.2.Storable) → (Encode.field f).depth < n →
      Form (fieldUpTo n origin) (Encode.field f) f) := by
  induction n with
  | zero =>
    exact ⟨fun _ _ _ hd => absurd hd (Nat.not_lt_zero _),
      fun _ _ _ hd => absurd hd (Nat.not_lt_zero _)⟩
  | succ n ih =>
    obtain ⟨ihq, ihf⟩ := ih
    constructor
    · intro q origin hs hd
      refine Form.queryWith (hs q List.mem_cons_self) (fun f hf => ?_)
        (fun chain hchain c hc r hr => ?_) origin
      · exact ihf f origin (fun x hx => hs x.2 (Query.mem_all_of_field hf hx))
          ((depth_field_lt hf).trans_le (Nat.le_of_lt_succ hd))
      · exact ihq r origin (fun t ht => hs t (Query.mem_all_of_condition hchain hc hr ht))
          ((depth_valueQuery_lt hchain hc hr).trans_le (Nat.le_of_lt_succ hd))
    · intro f origin hs hd
      refine Form.fieldWith (fun c hc g hg => ?_) (fun q hq => ?_) origin
      · subst hc
        have hinner : ∀ x ∈ g.inner, x ∈ Field.inner (.call c) := fun x hx => by
          rw [Field.inner, Call.inner_eq]
          exact List.mem_flatMap.2 ⟨.field g, hg, hx⟩
        exact ihf g .heldBack (fun x hx => hs x (hinner x hx))
          ((depth_argument_lt hg).trans_le (Nat.le_of_lt_succ hd))
      · subst hq
        have hall : ∀ r ∈ q.all, r.Storable := by
          rw [Query.all, ← List.map_cons (f := Prod.snd) (a := (true, q))]
          exact List.forall_mem_map.2 hs
        exact ihq q .heldBack hall ((depth_subquery_lt q).trans_le (Nat.le_of_lt_succ hd))

/-- **A query is read back from its JSON form.** -/
theorem Form.query {q : Query} (h : ∀ r ∈ q.all, r.Storable) :
    Form Decode.query (Encode.query q) q := by
  have hform := (form_upTo ((Encode.query q).depth + 1)).1 q .direct h (Nat.lt_succ_self _)
  refine ⟨hform.tidy, hform.present, ?_⟩
  rw [Decode.query, depth_sorted _ hform.tidy]
  exact hform.decodes

end Soql
