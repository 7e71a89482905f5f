/-
  Values with their members sorted.

  Where keys differ, sorting the members of an object puts them in another
  order and nothing else.

  * `sortMembers_perm`: the members stay the same.
  * `lookup_perm`: so does the value of a key.
  * `depth_sorted`: so does the depth of a value.
-/
import Mathlib
import Soql.Proofs.Json.Written

namespace Soql.Json

/-- The keys of members in order. -/
def keys (ms : List (Text × Json)) : List Text := ms.map Prod.fst

@[simp] theorem keys_nil : keys [] = [] := rfl

@[simp] theorem keys_cons (m : Text × Json) (ms : List (Text × Json)) :
    keys (m :: ms) = m.1 :: keys ms := rfl

@[simp] theorem keys_append (ms ns : List (Text × Json)) : keys (ms ++ ns) = keys ms ++ keys ns :=
  List.map_append

theorem keys_perm {ms ns : List (Text × Json)} (h : ms.Perm ns) : (keys ms).Perm (keys ns) :=
  h.map _

/-! ## The order of members -/

theorem insertMember_perm {key : Text} {ms : List (Text × Json)} (h : key ∉ keys ms) (v : Json) :
    (insertMember key v ms).Perm ((key, v) :: ms) := by
  induction ms with
  | nil => exact .refl _
  | cons m ms ih =>
    obtain ⟨k, w⟩ := m
    simp only [keys_cons, List.mem_cons, not_or] at h
    rw [insertMember, if_neg (fun hk => h.1 hk.symm)]
    split
    · exact .refl _
    · exact ((ih h.2).cons _).trans (.swap _ _ _)

theorem foldl_insertMember_perm (ms sorted : List (Text × Json))
    (h : (keys ms ++ keys sorted).Nodup) :
    (ms.foldl (fun sorted (key, v) => insertMember key v sorted) sorted).Perm (ms ++ sorted) := by
  induction ms generalizing sorted with
  | nil => exact .refl _
  | cons m ms ih =>
    obtain ⟨key, v⟩ := m
    have hkey : key ∉ keys sorted :=
      fun hk => (List.nodup_cons.1 h).1 (List.mem_append_right _ hk)
    have hperm := insertMember_perm hkey v
    have hkeys : (keys ms ++ keys (insertMember key v sorted)).Perm
        (keys ((key, v) :: ms) ++ keys sorted) :=
      ((keys_perm hperm).append_left (keys ms)).trans List.perm_middle
    exact (ih _ (hkeys.nodup_iff.2 h)).trans ((hperm.append_left ms).trans List.perm_middle)

/-- Members with different keys are put in order and stay what they are. -/
theorem sortMembers_perm {ms : List (Text × Json)} (h : (keys ms).Nodup) :
    (sortMembers ms).Perm ms := by
  have := foldl_insertMember_perm ms [] (by simpa using h)
  rwa [List.append_nil] at this

/-! ## The value of a key -/

theorem lookup_eq_some_iff_mem {ms : List (Text × Json)} (h : (keys ms).Nodup) {key : Text}
    {v : Json} : ms.lookup key = some v ↔ (key, v) ∈ ms := by
  induction ms with
  | nil => simp
  | cons m ms ih =>
    obtain ⟨k, w⟩ := m
    obtain ⟨hk, hms⟩ := List.nodup_cons.1 h
    rw [List.lookup_cons]
    by_cases heq : key = k
    · subst heq
      have hnot : (key, v) ∉ ms := fun hm => hk (List.mem_map.2 ⟨_, hm, rfl⟩)
      simp [hnot, eq_comm]
    · have hbeq : (key == k) = false := by simpa using heq
      simp [hbeq, heq, ih hms]

theorem lookup_perm {ms ns : List (Text × Json)} (h : ms.Perm ns) (hk : (keys ms).Nodup)
    (key : Text) : ms.lookup key = ns.lookup key := by
  ext v
  rw [lookup_eq_some_iff_mem hk, lookup_eq_some_iff_mem ((keys_perm h).nodup_iff.1 hk), h.mem_iff]

/-! ## Depth -/

theorem depthOfMembers_perm {ms ns : List (Text × Json)} (h : ms.Perm ns) :
    depthOfMembers ms = depthOfMembers ns := by
  induction h with
  | nil => rfl
  | cons m _ ih => rw [depthOfMembers, depthOfMembers, ih]
  | swap m n ms => simp only [depthOfMembers, max_left_comm]
  | trans _ _ ih₁ ih₂ => exact ih₁.trans ih₂

theorem sortedValues_eq (ms : List (Text × Json)) :
    sortedValues ms = ms.map fun m => (m.1, m.2.sorted) := by
  induction ms with
  | nil => rfl
  | cons m ms ih => rw [sortedValues, ih, List.map_cons]

theorem sortedItems_eq (items : List Json) : sortedItems items = items.map sorted := by
  induction items with
  | nil => rfl
  | cons v items ih => rw [sortedItems, ih, List.map_cons]

@[simp] theorem keys_sortedValues (ms : List (Text × Json)) : keys (sortedValues ms) = keys ms := by
  rw [sortedValues_eq, keys, List.map_map]
  rfl

theorem sorted_obj (ms : List (Text × Json)) :
    (obj ms).sorted = obj (sortMembers (sortedValues ms)) := rfl

theorem sorted_arr (items : List Json) : (arr items).sorted = arr (items.map sorted) := by
  rw [sorted, sortedItems_eq]

mutual

/-- Sorting members keeps the depth of a value. -/
theorem depth_sorted : ∀ v : Json, v.Tidy → v.sorted.depth = v.depth
  | .null, _ => rfl
  | .bool _, _ => rfl
  | .int _, _ => rfl
  | .real _, _ => rfl
  | .str _, _ => rfl
  | .arr items, h => by rw [sorted, depth, depth, depth_sortedItems items h]
  | .obj ms, h => by
    have hkeys : (keys (sortedValues ms)).Nodup := by rw [keys_sortedValues]; exact h.1
    rw [sorted, depth, depth, depthOfMembers_perm (sortMembers_perm hkeys),
      depth_sortedValues ms h.2]

theorem depth_sortedItems : ∀ items : List Json, TidyItems items →
    depthOfItems (sortedItems items) = depthOfItems items
  | [], _ => rfl
  | v :: items, h => by
    rw [sortedItems, depthOfItems, depthOfItems, depth_sorted v h.1, depth_sortedItems items h.2]

theorem depth_sortedValues : ∀ ms : List (Text × Json), TidyMembers ms →
    depthOfMembers (sortedValues ms) = depthOfMembers ms
  | [], _ => rfl
  | (_, v) :: ms, h => by
    rw [sortedValues, depthOfMembers, depthOfMembers, depth_sorted v h.1, depth_sortedValues ms h.2]

end

theorem depth_le_of_mem_items {v : Json} {items : List Json} (h : v ∈ items) :
    v.depth ≤ depthOfItems items := by
  induction items with
  | nil => cases h
  | cons w items ih =>
    rw [depthOfItems]
    rcases List.mem_cons.1 h with rfl | h
    · exact le_max_left _ _
    · exact (ih h).trans (le_max_right _ _)

theorem depth_le_of_mem_members {m : Text × Json} {ms : List (Text × Json)} (h : m ∈ ms) :
    m.2.depth ≤ depthOfMembers ms := by
  induction ms with
  | nil => cases h
  | cons n ms ih =>
    rw [depthOfMembers]
    rcases List.mem_cons.1 h with rfl | h
    · exact le_max_left _ _
    · exact (ih h).trans (le_max_right _ _)

/-- The items of an array lie in it. -/
theorem depth_lt_arr {v : Json} {items : List Json} (h : v ∈ items) :
    v.depth < (arr items).depth := by
  rw [depth]
  exact Nat.lt_succ_of_le (depth_le_of_mem_items h)

/-- The values of an object lie in it. -/
theorem depth_lt_obj {v : Json} {ms : List (Text × Json)} (key : Text) (h : (key, v) ∈ ms) :
    v.depth < (obj ms).depth := by
  rw [depth]
  exact Nat.lt_succ_of_le (depth_le_of_mem_members h)

theorem tidyItems_iff {items : List Json} : TidyItems items ↔ ∀ v ∈ items, v.Tidy := by
  induction items with
  | nil => simp [TidyItems]
  | cons v items ih => rw [TidyItems, ih, List.forall_mem_cons]

theorem tidyMembers_iff {ms : List (Text × Json)} : TidyMembers ms ↔ ∀ m ∈ ms, m.2.Tidy := by
  induction ms with
  | nil => simp [TidyMembers]
  | cons m ms ih => rw [TidyMembers, ih, List.forall_mem_cons]

end Soql.Json
