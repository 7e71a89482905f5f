/-
  Structures and their JSON form.

  A structure is read from an object by keys, in the order in which the
  reader has sorted them.  That order does not matter, since every component
  is put in independently of the others.

  * `Form d v a`: the value `v` is a form of `a`, which `d` decodes.
  * `Record.Lawful`: keys of components differ, and components can be put in
    in any order.
  * `Fills slots s es s'`: entries put in one after another.
  * `Form.record`: the object of entries that fill a structure is its form.
-/
import Mathlib
import Soql.Codec.Form
import Soql.Proofs.Json.Sorted

namespace Soql

open Json Decode

variable {α β σ κ : Type}

/-! ## Forms -/

/-- A value that is not `null` and from which `a` is decoded, when its members are sorted. -/
structure Form (d : Decoder α) (v : Json) (a : α) : Prop where
  tidy : v.Tidy
  present : v ≠ .null
  decodes : d v.sorted = .ok a

namespace Form

variable {d e : Decoder α} {v : Json} {a : α}

theorem text (t : Text) : Form Decode.text (.str t) t := ⟨trivial, by simp, rfl⟩

theorem bool (b : Bool) : Form Decode.bool (.bool b) b := ⟨trivial, by simp, rfl⟩

theorem scalarText (t : Text) : Form Decode.scalarText (.str t) t := ⟨trivial, by simp, rfl⟩

theorem natBelow {n bound : Nat} (hn : n < bound) (hb : bound ≤ UInt64.size) (wanted : Text) :
    Form (Decode.natBelow bound wanted) (.int n) n := by
  refine ⟨⟨by omega, by omega⟩, by simp, ?_⟩
  have h : (0 : Int) ≤ n ∧ (n : Int) < bound := by omega
  simp [Json.sorted, Decode.natBelow, h]

theorem map (h : Form d v a) (f : α → β) : Form (fun v => f <$> d v) v (f a) :=
  ⟨h.tidy, h.present, by rw [h.decodes]; rfl⟩

theorem optional (h : Form d v a) : Form (Decode.optional d) v (some a) := by
  refine ⟨h.tidy, h.present, ?_⟩
  have hd : Decode.optional d v.sorted = some <$> d v.sorted := by
    cases v with
    | null => exact absurd rfl h.present
    | _ => rfl
  rw [hd, h.decodes]
  rfl

theorem either_left (h : Form d v a) (type : Text) : Form (either type d e) v a := by
  refine ⟨h.tidy, h.present, ?_⟩
  rw [either, h.decodes]

theorem either_right {fault : Fault} (hd : d v.sorted = .error fault) (h : Form e v a)
    (type : Text) : Form (either type d e) v a := by
  refine ⟨h.tidy, h.present, ?_⟩
  rw [either, hd, h.decodes]

theorem list {vs : List Json} {as : List α} (h : List.Forall₂ (Form d) vs as) :
    Form (Decode.list d) (.arr vs) as := by
  refine ⟨?_, by simp, ?_⟩
  · refine tidyItems_iff.2 fun v hv => ?_
    induction h with
    | nil => cases hv
    | cons h _ ih =>
      rcases List.mem_cons.1 hv with rfl | hv
      · exact h.tidy
      · exact ih hv
  · rw [sorted_arr, Decode.list]
    induction h with
    | nil => rfl
    | cons h _ ih => rw [List.map_cons, List.mapM_cons, h.decodes, ih]; rfl

theorem list_map {enc : α → Json} {as : List α} (h : ∀ a ∈ as, Form d (enc a) a) :
    Form (Decode.list d) (.arr (as.map enc)) as :=
  list (List.forall₂_map_left_iff.2 (List.forall₂_same.2 h))

theorem texts (ts : List Text) : Form (Decode.list Decode.text) (Encode.texts ts) ts :=
  list_map fun t _ => text t

end Form

/-- Every keyword is found by its spelling. -/
class LawfulKeyword (κ : Type) [Keyword κ] : Prop where
  ofWord_spelling : ∀ k : κ, Keyword.ofWord? (Keyword.spelling k) = some k

instance : LawfulKeyword Comparison := ⟨by intro k; cases k <;> decide⟩

instance : LawfulKeyword Connective := ⟨by intro k; cases k <;> decide⟩

instance : LawfulKeyword Negation := ⟨by intro k; cases k; decide⟩

instance : LawfulKeyword SortOrder := ⟨by intro k; cases k <;> decide⟩

instance : LawfulKeyword NullsPlace := ⟨by intro k; cases k <;> decide⟩

instance : LawfulKeyword CategorySelector := ⟨by intro k; cases k <;> decide⟩

instance : LawfulKeyword ForTarget := ⟨by intro k; cases k <;> decide⟩

instance : LawfulKeyword UpdateTarget := ⟨by intro k; cases k <;> decide⟩

instance : LawfulKeyword BranchKind := ⟨by intro k; cases k <;> decide⟩

instance : LawfulKeyword LiteralKind := ⟨by intro k; cases k <;> decide⟩

theorem Form.keyword [Keyword κ] [LawfulKeyword κ] (k : κ) :
    Form Decode.keyword (Encode.keyword k) k := by
  refine ⟨trivial, by simp [Encode.keyword], ?_⟩
  have hword : Decode.text (Encode.keyword k).sorted = .ok (Keyword.spelling k) := rfl
  simp only [Decode.keyword, hword, bind, Except.bind, LawfulKeyword.ofWord_spelling]

/-! ## Components in any order -/

theorem bind_eq_ok_iff {x : Except Fault α} {f : α → Except Fault β} {b : β} :
    (x >>= f) = .ok b ↔ ∃ a, x = .ok a ∧ f a = .ok b := by
  cases x <;> simp [bind, Except.bind]

/-- Two components can be put in in either order. -/
def Decode.Slot.Commutes (x y : Slot σ) : Prop :=
  ∀ s v w a, (x.put s v >>= (y.put · w)) = .ok a ↔ (y.put s w >>= (x.put · v)) = .ok a

instance : Std.Symm (@Slot.Commutes σ) := ⟨fun _ _ h s v w a => (h s w v a).symm⟩

@[simp] theorem required_eq (key : Text) (d : Decoder α) (set : σ → α → σ) :
    required key d set = ⟨key, true, fun s v => set s <$> d v⟩ := rfl

@[simp] theorem defaulted_eq (key : Text) (d : Decoder α) (set : σ → α → σ) :
    defaulted key d set = ⟨key, false, fun s v => set s <$> d v⟩ := rfl

/-- Components with setters that commute. -/
@[simp] theorem commutes_of_put {d : Decoder α} {e : Decoder β} {f : σ → α → σ} {g : σ → β → σ}
    {k k' : Text} {q q' : Bool} (h : ∀ s a b, g (f s a) b = f (g s b) a) :
    Slot.Commutes ⟨k, q, fun s v => f s <$> d v⟩ ⟨k', q', fun s v => g s <$> e v⟩ := by
  intro s v w a
  dsimp only
  cases hd : d v with
  | error fault => cases e w <;> simp [bind, Except.bind, Functor.map, Except.map]
  | ok x =>
    cases he : e w with
    | error fault => simp [bind, Except.bind, Functor.map, Except.map]
    | ok y => simp [bind, Except.bind, Functor.map, Except.map, h]

/-- The keys of the components differ, and they can be put in in any order. -/
structure Decode.Record.Lawful (r : Record σ) : Prop where
  keys : (r.slots.map Slot.key).Nodup
  commutes : r.slots.Pairwise Slot.Commutes

@[simp] theorem Decode.Record.lawful_iff {r : Record σ} :
    r.Lawful ↔ (r.slots.map Slot.key).Nodup ∧ r.slots.Pairwise Slot.Commutes :=
  ⟨fun h => ⟨h.keys, h.commutes⟩, fun h => ⟨h.1, h.2⟩⟩

/-- A member of an object put in; one that is no component is passed over. -/
def putMember (slots : List (Slot σ)) (s : σ) (m : Text × Json) : Except Fault σ :=
  match slots.find? (·.key == m.1) with
  | some slot => slot.put s m.2
  | none => .ok s

theorem putMembers_cons (slots : List (Slot σ)) (s : σ) (m : Text × Json)
    (ms : List (Text × Json)) :
    putMembers slots s (m :: ms) = putMember slots s m >>= (putMembers slots · ms) := by
  rw [putMembers, putMember]
  cases slots.find? (·.key == m.1) <;> rfl

theorem putMember_of_find {slots : List (Slot σ)} {slot : Slot σ} {m : Text × Json}
    (h : slots.find? (·.key == m.1) = some slot) (s : σ) :
    putMember slots s m = slot.put s m.2 := by
  rw [putMember, h]

theorem putMember_of_forall_ne {slots : List (Slot σ)} {m : Text × Json}
    (h : ∀ slot ∈ slots, slot.key ≠ m.1) (s : σ) : putMember slots s m = .ok s := by
  have hnone : slots.find? (·.key == m.1) = none := by
    rw [List.find?_eq_none]
    simpa using h
  rw [putMember, hnone]

/-- Members with different keys can be put in in either order. -/
theorem putMember_comm {r : Record σ} (hr : r.Lawful) {m n : Text × Json} (h : m.1 ≠ n.1)
    (s a : σ) :
    (putMember r.slots s m >>= (putMember r.slots · n)) = .ok a ↔
      (putMember r.slots s n >>= (putMember r.slots · m)) = .ok a := by
  unfold putMember
  cases hx : r.slots.find? (·.key == m.1) with
  | none =>
    cases r.slots.find? (·.key == n.1) with
    | none => rfl
    | some y => cases hp : y.put s n.2 <;> simp [bind, Except.bind, hp]
  | some x =>
    cases hy : r.slots.find? (·.key == n.1) with
    | none => cases hp : x.put s m.2 <;> simp [bind, Except.bind, hp]
    | some y =>
      have hxk : x.key = m.1 := by simpa using List.find?_some hx
      have hyk : y.key = n.1 := by simpa using List.find?_some hy
      have hxy : x ≠ y := fun he => h (by rw [← hxk, ← hyk, he])
      have hc : x.Commutes y := hr.commutes.forall
        (List.mem_of_find?_eq_some hx) (List.mem_of_find?_eq_some hy) hxy
      exact hc s m.2 n.2 a

/-- **The order of members does not matter.** -/
theorem putMembers_perm {r : Record σ} (hr : r.Lawful) {ms ns : List (Text × Json)}
    (h : ms.Perm ns) (hk : (keys ms).Nodup) (s a : σ) :
    putMembers r.slots s ms = .ok a ↔ putMembers r.slots s ns = .ok a := by
  induction h generalizing s with
  | nil => rfl
  | cons m hp ih =>
    rw [putMembers_cons, putMembers_cons]
    cases putMember r.slots s m with
    | error fault => rfl
    | ok t => exact ih (List.nodup_cons.1 hk).2 t
  | swap m n ms =>
    have hne : n.1 ≠ m.1 := fun he => (List.nodup_cons.1 hk).1 (by simp [he])
    simp only [putMembers_cons, ← bind_assoc]
    rw [bind_eq_ok_iff, bind_eq_ok_iff]
    simp only [putMember_comm hr hne s]
  | trans hp _ ih₁ ih₂ => exact (ih₁ hk s).trans (ih₂ ((keys_perm hp).nodup_iff.1 hk) s)

/-- Members that are no components are passed over. -/
theorem putMembers_append_others {slots : List (Slot σ)} {others : List (Text × Json)}
    (ho : ∀ m ∈ others, ∀ slot ∈ slots, slot.key ≠ m.1) (s : σ) (ms : List (Text × Json)) :
    putMembers slots s (ms ++ others) = putMembers slots s ms := by
  induction ms generalizing s with
  | nil =>
    rw [List.nil_append]
    induction others with
    | nil => rfl
    | cons m others ih =>
      obtain ⟨hm, hothers⟩ := List.forall_mem_cons.1 ho
      rw [putMembers_cons, putMember_of_forall_ne hm]
      exact ih hothers
  | cons m ms ih => simp only [List.cons_append, putMembers_cons, ih]

/-- Fails only where a required component is missing. -/
theorem checkMembers_eq_ok {slots : List (Slot σ)} {ms : List (Text × Json)}
    (h : ∀ slot ∈ slots, slot.required = true → slot.key ∈ keys ms) :
    checkMembers ms slots = .ok () := by
  induction slots with
  | nil => rfl
  | cons slot slots ih =>
    obtain ⟨hslot, hslots⟩ := List.forall_mem_cons.1 h
    have hfound : (slot.required && (ms.lookup slot.key).isNone) = false := by
      cases hq : slot.required with
      | false => rfl
      | true =>
        obtain ⟨m, hm, hk⟩ := List.mem_map.1 (hslot hq)
        have hne : ms.lookup slot.key ≠ none := by
          rw [Ne, List.lookup_eq_none_iff]
          intro hall
          exact absurd hk.symm (by simpa using hall m hm)
        simpa [Option.isNone_iff_eq_none] using hne
    rw [checkMembers, hfound]
    exact ih hslots

/-! ## Objects of entries -/

/-- The members of entries, each of which may be absent. -/
def gather (es : List (Text × Option Json)) : List (Text × Json) :=
  es.flatMap fun e => Encode.present e.1 e.2

@[simp] theorem gather_nil : gather [] = [] := rfl

@[simp] theorem gather_cons (e : Text × Option Json) (es : List (Text × Option Json)) :
    gather (e :: es) = Encode.present e.1 e.2 ++ gather es := rfl

@[simp] theorem Encode.always_eq (key : Text) (v : Json) :
    Encode.always key v = Encode.present key (some v) := rfl

@[simp] theorem Encode.presentText_eq (key : Text) (o : Option Text) :
    Encode.presentText key o = Encode.present key (o.map .str) := rfl

@[simp] theorem Encode.flag_eq (key : Text) (b : Bool) :
    Encode.flag key b = Encode.present key (if b = false then none else some (.bool b)) := by
  cases b <;> rfl

@[simp] theorem Encode.count_eq (key : Text) (n : Nat) :
    Encode.count key n = Encode.present key (if n = 0 then none else some (.int n)) := by
  unfold Encode.count
  split <;> rfl

@[simp] theorem Encode.someTexts_eq (key : Text) (ts : List Text) :
    Encode.someTexts key ts = Encode.present key (if ts = [] then none else some (texts ts)) := by
  cases ts <;> rfl

/-- Entries put in for the components in their order, from the structure `s` to `s'`.  What may
    be left out is what the structure has already. -/
inductive Fills : List (Slot σ) → σ → List (Text × Option Json) → σ → Prop
  | nil {s : σ} : Fills [] s [] s
  | cons {α : Type} {key : Text} {q : Bool} {d : Decoder α} {set : σ → α → σ} {o : Option Json}
      {a : α} {s s' : σ} {slots : List (Slot σ)} {es : List (Text × Option Json)}
      (form : ∀ v ∈ o, Form d v a) (absent : o = none → q = false ∧ set s a = s)
      (rest : Fills slots (set s a) es s') :
      Fills (⟨key, q, fun s v => set s <$> d v⟩ :: slots) s ((key, o) :: es) s'

namespace Fills

variable {slots : List (Slot σ)} {s s' : σ} {es : List (Text × Option Json)} {key : Text} {q : Bool}
  {d : Decoder α} {v : Json} {a : α}

/-- An entry that is always there. -/
theorem always {set : σ → α → σ} (form : Form d v a) (rest : Fills slots (set s a) es s') :
    Fills (⟨key, q, fun s v => set s <$> d v⟩ :: slots) s ((key, some v) :: es) s' :=
  .cons (by rintro _ ⟨⟩; exact form) (by simp) rest

/-- An entry for a value that may be absent. -/
theorem option {enc : α → Json} {set : σ → Option α → σ} (o : Option α)
    (form : ∀ a ∈ o, Form d (enc a) a) (absent : set s none = s)
    (rest : Fills slots (set s o) es s') :
    Fills (⟨key, false, fun s v => set s <$> optional d v⟩ :: slots) s
      ((key, o.map enc) :: es) s' := by
  refine .cons (fun v hv => ?_) (fun hnone => ⟨rfl, ?_⟩) rest
  · obtain ⟨a, rfl, rfl⟩ := Option.map_eq_some_iff.1 hv
    exact (form a rfl).optional
  · rw [Option.map_eq_none_iff.1 hnone, absent]

/-- An entry that is left out for the default of the component. -/
theorem elided {set : σ → α → σ} {p : Prop} [Decidable p] {default : α} (form : Form d v a)
    (left : p → a = default) (absent : set s default = s) (rest : Fills slots (set s a) es s') :
    Fills (⟨key, false, fun s v => set s <$> d v⟩ :: slots) s
      ((key, if p then none else some v) :: es) s' := by
  refine .cons (fun w hw => ?_) (fun hnone => ⟨rfl, ?_⟩) rest
  · obtain ⟨-, rfl⟩ : ¬p ∧ v = w := by simpa using hw
    exact form
  · have hp : p := by simpa using hnone
    rw [left hp, absent]

theorem tidy (h : Fills slots s es s') : ∀ m ∈ gather es, m.2.Tidy := by
  induction h with
  | nil => simp
  | @cons _ key _ _ _ o _ _ _ _ es form _ _ ih =>
    intro m hm
    rcases List.mem_append.1 hm with hm | hm
    · cases o with
      | none => cases hm
      | some v =>
        obtain rfl := List.mem_singleton.1 hm
        exact (form v rfl).tidy
    · exact ih m hm

theorem keys_sublist (h : Fills slots s es s') :
    List.Sublist (keys (gather es)) (slots.map Slot.key) := by
  induction h with
  | nil => exact .slnil
  | @cons _ key _ _ _ o _ _ _ _ es _ _ _ ih =>
    cases o with
    | none => exact ih.cons _
    | some v => exact ih.cons_cons _

/-- Every member is a component. -/
theorem exists_slot (h : Fills slots s es s') :
    ∀ m ∈ sortedValues (gather es), ∃ slot ∈ slots, slot.key = m.1 := by
  intro m hm
  have hkey : m.1 ∈ keys (sortedValues (gather es)) := List.mem_map_of_mem hm
  rw [keys_sortedValues] at hkey
  exact List.mem_map.1 (h.keys_sublist.subset hkey)

theorem required (h : Fills slots s es s') :
    ∀ slot ∈ slots, slot.required = true → slot.key ∈ keys (gather es) := by
  induction h with
  | nil => simp
  | @cons _ key _ _ _ o _ _ _ _ es _ absent _ ih =>
    refine List.forall_mem_cons.2 ⟨fun hq => ?_, fun slot hs hq => ?_⟩
    · cases o with
      | none => exact absurd hq (by simp [(absent rfl).1])
      | some v => exact List.mem_cons_self
    · rw [gather_cons, keys_append]
      exact List.mem_append_right _ (ih slot hs hq)

/-- Entries of some of the components are put in. -/
theorem putMembers {all : List (Slot σ)} (h : Fills slots s es s')
    (hall : ∀ slot ∈ slots, all.find? (·.key == slot.key) = some slot) :
    Decode.putMembers all s (sortedValues (gather es)) = .ok s' := by
  induction h with
  | nil => rfl
  | @cons _ key _ d set o a s _ _ es form absent _ ih =>
    obtain ⟨hslot, hslots⟩ := List.forall_mem_cons.1 hall
    cases o with
    | none => rw [← (absent rfl).2]; exact ih hslots
    | some v =>
      have hput : putMember all s (key, v.sorted) = .ok (set s a) := by
        rw [putMember_of_find hslot]
        simp only [(form v rfl).decodes]
        rfl
      have hcons : sortedValues (gather ((key, some v) :: es)) =
          (key, v.sorted) :: sortedValues (gather es) := rfl
      rw [hcons, putMembers_cons, hput]
      exact ih hslots

end Fills

/-- Every component is found by its key. -/
theorem find_slot {slots : List (Slot σ)} (hk : (slots.map Slot.key).Nodup) :
    ∀ slot ∈ slots, slots.find? (·.key == slot.key) = some slot := by
  induction slots with
  | nil => simp
  | cons x slots ih =>
    rw [List.map_cons, List.nodup_cons] at hk
    refine List.forall_mem_cons.2 ⟨by simp, fun slot hs => ?_⟩
    have hne : x.key ≠ slot.key := fun he => hk.1 (he ▸ List.mem_map_of_mem hs)
    rw [List.find?_cons_of_neg (by simpa using hne)]
    exact ih hk.2 slot hs

section Objects

variable {r : Record σ} {es : List (Text × Option Json)} {s a : σ} {ms others : List (Text × Json)}

/-- The members of an object that has entries of a structure and others, in their order. -/
theorem Fills.sorted (h : Fills r.slots r.blank es a) (hms : ms.Perm (gather es ++ others))
    (hk : (r.slots.map Slot.key ++ keys others).Nodup) (ho : ∀ m ∈ others, m.2.Tidy) :
    (Json.obj ms).Tidy ∧ ∃ ns, (Json.obj ms).sorted = .obj ns ∧ (keys ns).Nodup ∧
      ns.Perm (sortedValues (gather es) ++ sortedValues others) := by
  have hkeys : (keys ms).Nodup := by
    rw [(keys_perm hms).nodup_iff, keys_append]
    exact (h.keys_sublist.append (.refl _)).nodup hk
  have hperm := sortMembers_perm (keys_sortedValues ms ▸ hkeys)
  refine ⟨⟨hkeys, tidyMembers_iff.2 fun m hm => ?_⟩, _, sorted_obj ms, ?_, hperm.trans ?_⟩
  · rcases List.mem_append.1 (hms.mem_iff.1 hm) with hm | hm
    · exact h.tidy m hm
    · exact ho m hm
  · rwa [(keys_perm hperm).nodup_iff, keys_sortedValues]
  · simpa only [sortedValues_eq, List.map_append] using hms.map _

theorem ne_key_of_nodup (hk : (r.slots.map Slot.key ++ keys others).Nodup) :
    ∀ m ∈ sortedValues others, ∀ slot ∈ r.slots, slot.key ≠ m.1 := by
  intro m hm slot hslot he
  have hmem : m.1 ∈ keys (sortedValues others) := List.mem_map_of_mem hm
  rw [keys_sortedValues] at hmem
  exact List.disjoint_of_nodup_append hk (List.mem_map_of_mem hslot) (he ▸ hmem)

/-- **A structure is read from its entries in any order, among members that are none of its
    components.** -/
theorem recordOfMembers_eq_ok (hr : r.Lawful) (h : Fills r.slots r.blank es a)
    (hms : ms.Perm (sortedValues (gather es) ++ others)) (hk : (keys ms).Nodup)
    (ho : ∀ m ∈ others, ∀ slot ∈ r.slots, slot.key ≠ m.1) :
    recordOfMembers r ms = .ok a := by
  have hput : putMembers r.slots r.blank ms = .ok a := by
    rw [putMembers_perm hr hms hk, putMembers_append_others ho]
    exact h.putMembers (find_slot hr.keys)
  have hcheck : checkMembers ms r.slots = .ok () := by
    refine checkMembers_eq_ok fun slot hs hq => ?_
    rw [(keys_perm hms).mem_iff, keys_append, keys_sortedValues]
    exact List.mem_append_left _ (h.required slot hs hq)
  rw [recordOfMembers, hput, hcheck]
  rfl

/-- A structure is read from its entries in any order. -/
theorem recordOfMembers_of_perm (hr : r.Lawful) (h : Fills r.slots r.blank es s) (hs : s = a)
    (hms : ms.Perm (sortedValues (gather es))) : recordOfMembers r ms = .ok a := by
  subst hs
  have hk : (keys ms).Nodup := by
    rw [(keys_perm hms).nodup_iff, keys_sortedValues]
    exact h.keys_sublist.nodup hr.keys
  exact recordOfMembers_eq_ok hr h (by rwa [List.append_nil]) hk (List.forall_mem_nil _)

/-- The object of the entries that fill a structure is a form of it. -/
theorem Form.record {origin : Origin} (hr : r.Lawful) (h : Fills r.slots r.blank es s) (hs : s = a)
    (hms : ms = gather es) : Form (Decode.record r origin) (.obj ms) a := by
  have hall : (r.slots.map Slot.key ++ keys []).Nodup := by simpa using hr.keys
  have hgather : ms.Perm (gather es ++ []) := by rw [hms, List.append_nil]
  obtain ⟨htidy, ns, hns, -, hperm⟩ := h.sorted hgather hall (List.forall_mem_nil _)
  refine ⟨htidy, by simp, ?_⟩
  rw [hns]
  exact recordOfMembers_of_perm hr h hs (by rwa [sortedValues, List.append_nil] at hperm)

end Objects

/-- The members left when some of them are taken out. -/
theorem filter_perm {p : Text × Json → Bool} {ms ns others : List (Text × Json)}
    (h : ns.Perm (ms ++ others)) (hms : ∀ m ∈ ms, p m = false) (ho : ∀ m ∈ others, p m = true) :
    (ns.filter p).Perm others := by
  have hnone : ms.filter p = [] := by simpa using hms
  have hf := h.filter p
  rwa [List.filter_append, hnone, List.filter_eq_self.2 ho] at hf

end Soql
