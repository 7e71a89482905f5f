/-
  The JSON form of the parts of a query that hold no query.

  * `Form.chain`: a filter is read back from the objects inside of one
    another that its links are.
  * `Form.flatCall`, `Form.grouping`, `Form.sortKeys`, … : so are the other
    parts, from what encoding makes of them.
-/
import Mathlib
import Soql.Proofs.Codec.Records
import Soql.Proofs.Query.Inner

namespace Soql

open Json Decode

variable {κ : Type}

/-! ## Filters as objects -/

namespace Encode

/-- The filter of the links after the first, if there are any. -/
def rest? : List (Link κ) → Option (Chain κ)
  | [] => none
  | x :: xs => some ⟨x, xs⟩

theorem links_eq (enc : κ → Json) (xs : List (Link κ)) :
    links (xs.map (Link.map enc)) = (rest? xs).map fun c => chain (c.map enc) := by
  cases xs <;> rfl

/-- A filter as an object: its first link, and the filter of the links after it. -/
theorem chain_eq (enc : κ → Json) (x : Link κ) (xs : List (Link κ)) :
    chain (Chain.map enc ⟨x, xs⟩) = .obj (gather [
      ("left", x.condition.map enc), ("operator", x.connective.map keyword),
      ("right", (rest? xs).map fun c => chain (c.map enc))]) := by
  rw [← links_eq]
  simp [chain, links, Chain.map, Chain.links, Link.map]

theorem depth_chain_tail_lt (enc : κ → Json) (x y : Link κ) (ys : List (Link κ)) :
    (chain (Chain.map enc ⟨y, ys⟩)).depth <
      (chain (Chain.map enc ⟨x, y :: ys⟩)).depth := by
  rw [chain_eq enc x]
  exact depth_lt_obj "right" (by simp [rest?, present])

/-- Every link lies in an object of its own. -/
theorem length_lt_depth_chain (enc : κ → Json) (x : Link κ) (xs : List (Link κ)) :
    xs.length < (chain (Chain.map enc ⟨x, xs⟩)).depth := by
  induction xs generalizing x with
  | nil => rw [chain_eq, depth]; exact Nat.succ_pos _
  | cons y ys ih => exact lt_of_le_of_lt (ih y) (depth_chain_tail_lt enc x y ys)

theorem depth_chain_head_lt (enc : κ → Json) {c : κ} {x : Link κ} (h : x.condition = some c)
    (xs : List (Link κ)) : (enc c).depth < (chain (Chain.map enc ⟨x, xs⟩)).depth := by
  rw [chain_eq, h]
  exact depth_lt_obj "left" (by simp [present])

/-- The conditions of a filter lie in it. -/
theorem depth_condition_lt_chain (enc : κ → Json) {c : κ} {x : Link κ} {xs : List (Link κ)}
    (h : c ∈ Link.conditions (x :: xs)) :
    (enc c).depth < (chain (Chain.map enc ⟨x, xs⟩)).depth := by
  induction xs generalizing x with
  | nil => exact depth_chain_head_lt enc (by simpa [Link.conditions] using h) []
  | cons y ys ih =>
    rw [Link.conditions_cons, List.mem_append, Option.mem_toList] at h
    rcases h with hc | hc
    · exact depth_chain_head_lt enc hc (y :: ys)
    · exact (ih hc).trans (depth_chain_tail_lt enc x y ys)

end Encode

namespace Form

/-! ## Literals and calls -/

theorem filterValue (value : FilterValue) :
    Form Decode.filterValue (Encode.filterValue value) value := by
  cases value with
  | single t => exact ⟨trivial, by simp [Encode.filterValue], rfl⟩
  | list ts =>
    have h : Form (Decode.list Decode.scalarText) (Encode.texts ts) ts :=
      list_map fun t _ => scalarText t
    refine ⟨h.tidy, h.present, ?_⟩
    have hd : Decode.filterValue (Encode.texts ts).sorted =
        .list <$> Decode.list Decode.scalarText (Encode.texts ts).sorted := rfl
    rw [Encode.filterValue, hd, h.decodes]
    rfl

theorem literalKinds (kinds : LiteralKinds) :
    Form Decode.literalKinds (Encode.literalKinds kinds) kinds := by
  cases kinds with
  | uniform kind => exact ((keyword kind).map LiteralKinds.uniform).either_left _
  | each kinds =>
    have h : Form (Decode.list Decode.keyword) (Encode.literalKinds (.each kinds)) kinds :=
      list_map fun kind _ => keyword kind
    exact either_right rfl (h.map LiteralKinds.each) _

theorem flatCall (c : FlatCall) (origin : Origin) :
    Form (Decode.flatCall origin) (Encode.flatCall c) c := by
  refine record (by simp) (.option c.source (fun t _ => text t) rfl <|
    .option c.name (fun t _ => text t) rfl <|
    .elided (texts c.arguments) id rfl <| .option c.aliasName (fun t _ => text t) rfl <|
    .elided (bool c.aggregate) id rfl .nil) rfl ?_
  simp

/-! ## Filters -/

theorem chainUpTo {enc : κ → Json} {d : Decoder κ} (name : Text) (origin : Origin)
    {x : Link κ} {xs : List (Link κ)} {n : Nat} (hn : xs.length < n)
    (h : ∀ c ∈ Link.conditions (x :: xs), Form d (enc c) c) :
    Form (Decode.chainUpTo name d origin n) (Encode.chain (Chain.map enc ⟨x, xs⟩)) ⟨x, xs⟩ := by
  induction n generalizing x xs with
  | zero => cases hn
  | succ n ih =>
    rw [Link.conditions_cons] at h
    have hleft : ∀ c ∈ x.condition, Form d (enc c) c :=
      fun c hc => h c (List.mem_append_left _ (Option.mem_toList.2 hc))
    have hright : ∀ c ∈ Encode.rest? xs, Form (Decode.chainUpTo name d origin n)
        (Encode.chain (c.map enc)) c := by
      rintro c hc
      cases xs with
      | nil => cases hc
      | cons y ys =>
        obtain rfl := Option.mem_some_iff.1 hc
        exact ih (Nat.lt_of_succ_lt_succ hn) fun k hk => h k (List.mem_append_right _ hk)
    have hnode : Node.toChain ⟨x.condition, x.connective, Encode.rest? xs⟩ = ⟨x, xs⟩ := by
      cases xs <;> rfl
    rw [Encode.chain_eq, ← hnode]
    exact Form.map (record (by simp) (.option x.condition hleft rfl <|
      .option x.connective (fun k _ => keyword k) rfl <| .option (Encode.rest? xs) hright rfl .nil)
      rfl rfl) Node.toChain

/-- A filter is read back. -/
theorem chain {enc : κ → Json} {d : Decoder κ} (name : Text) (origin : Origin) {c : Chain κ}
    (h : ∀ k ∈ c.conditions, Form d (enc k) k) :
    Form (Decode.chain name d origin) (Encode.chain (c.map enc)) c := by
  obtain ⟨x, xs⟩ := c
  have hn := Encode.length_lt_depth_chain enc x xs
  have hform := chainUpTo name origin (hn.trans (Nat.lt_succ_self _)) h
  refine ⟨hform.tidy, hform.present, ?_⟩
  rw [Decode.chain, depth_sorted _ hform.tidy]
  exact hform.decodes

/-! ## Grouping and sorting -/

theorem groupCondition {c : GroupCondition} (ho : c.opens < UInt32.size)
    (hc : c.closes < UInt32.size) (origin : Origin) :
    Form (Decode.groupCondition origin) (Encode.groupCondition c) c := by
  refine record (by simp) (.elided (natBelow ho (by decide) _) id rfl <|
    .elided (natBelow hc (by decide) _) id rfl <| .option c.field (fun t _ => text t) rfl <|
    .option c.call (fun call _ => flatCall call origin) rfl <| .always (keyword c.comparison) <|
    .always (scalarText c.value) .nil) rfl ?_
  simp

theorem groupFields (fields : GroupFields) :
    Form Decode.groupFields (Encode.groupFields fields) fields := by
  cases fields with
  | one name => exact ((text name).map GroupFields.one).either_left _
  | many names => exact either_right rfl ((texts names).map GroupFields.many) _

theorem grouping {g : Grouping} (h : ∀ filter ∈ g.having, ∀ c ∈ filter.conditions,
      c.opens < UInt32.size ∧ c.closes < UInt32.size) (origin : Origin) :
    Form (Decode.grouping origin) (Encode.grouping g) g := by
  have hhaving : ∀ filter ∈ g.having,
      Form (groupFilter origin) (Encode.chain (filter.map Encode.groupCondition)) filter :=
    fun filter hf => chain _ origin fun c hc =>
      groupCondition (h filter hf c hc).1 (h filter hf c hc).2 origin
  refine record (by simp) (.option g.fields (fun fs _ => groupFields fs) rfl <|
    .option g.call (fun call _ => flatCall call origin) rfl <|
    .option g.having hhaving rfl .nil) rfl ?_
  simp

theorem sortKey (k : SortKey) (origin : Origin) :
    Form (Decode.sortKey origin) (Encode.sortKey k) k := by
  refine record (by simp) (.option k.field (fun t _ => text t) rfl <|
    .option k.call (fun call _ => flatCall call origin) rfl <|
    .option k.order (fun o _ => keyword o) rfl <|
    .option k.nulls (fun p _ => keyword p) rfl .nil) rfl ?_
  simp

theorem sortKeys {keys : SortKeys} (h : keys ≠ .many []) :
    Form Decode.sortKeys (Encode.sortKeys keys) keys := by
  cases keys with
  | one key => exact ((sortKey key .heldBack).map SortKeys.one).either_left _
  | many keys =>
    have hlist : Form (Decode.list (Decode.sortKey .heldBack)) (Encode.sortKeys (.many keys))
        keys :=
      list_map fun k _ => sortKey k .heldBack
    -- A single key that is an array starts with a text, and the list with an object.
    cases keys with
    | nil => exact absurd rfl h
    | cons k ks => exact either_right rfl (hlist.map SortKeys.many) _

/-! ## Data categories and branches -/

theorem categoryCondition (c : CategoryCondition) (origin : Origin) :
    Form (Decode.categoryCondition origin) (Encode.categoryCondition c) c := by
  refine record (by simp) (.always (text c.group) <| .always (keyword c.selector) <|
    .always (texts c.categories) .nil) rfl ?_
  simp

theorem categories (cs : List CategoryCondition) (origin : Origin) :
    Form (Decode.categories origin) (Encode.categories cs) cs := by
  refine record (by simp) (.always (list_map fun c _ => categoryCondition c origin) .nil) rfl ?_
  simp

theorem typeBranch (b : TypeBranch) (origin : Origin) :
    Form (Decode.typeBranch origin) (Encode.typeBranch b) b := by
  refine record (by simp) (.always (keyword b.kind) <| .option b.object (fun t _ => text t) rfl <|
    .always (texts b.fields) .nil) rfl ?_
  simp

end Form

end Soql
