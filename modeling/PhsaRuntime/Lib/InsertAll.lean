import Mathlib.Data.List.AList
import Mathlib.Data.List.Nodup
import Mathlib.Logic.Function.Basic
import Mathlib.Tactic.Common

/-!
# Insertions into a map, one after the other

A log of keys and values, and the map that holds the last value of each key. The map has no
trace of the order and of repeated keys; where no key is repeated, the log and the map say the
same.

## Main results

* `lookup_insertAll_of_notMem`, `lookup_insertAll_of_mem` — the values after the insertions.
* `mem_insertAll` — the keys after them.
* `lookup_insertAll_empty_iff`, `find?_eq_lookup_insertAll` — a log without repeated keys is the
  graph of its map.
* `lookup_insertNewAll` — insertions that leave a key with the value it has keep the first value
  of each key.
* `lookup_foldl_erase` — the values after removals.
* `update_eq_some` — where a value of a partial function comes from after an update.
-/

namespace PhsaRuntime

universe u v

variable {α : Type u} {β : Type v} [DecidableEq α]

/-- Insert the entries of a list, the first one first. -/
def insertAll (m : AList fun _ : α => β) (l : List (α × β)) : AList fun _ : α => β :=
  l.foldl (fun m x => m.insert x.1 x.2) m

variable {m : AList fun _ : α => β} {l l' : List (α × β)} {k : α} {v : β} {x : α × β}

@[simp] theorem insertAll_nil : insertAll m [] = m := rfl

@[simp] theorem insertAll_cons : insertAll m (x :: l) = insertAll (m.insert x.1 x.2) l := rfl

theorem insertAll_append : insertAll m (l ++ l') = insertAll (insertAll m l) l' :=
  List.foldl_append ..

/-- The insertions leave the other keys alone. -/
theorem lookup_insertAll_of_notMem (h : k ∉ l.map Prod.fst) :
    (insertAll m l).lookup k = m.lookup k := by
  induction l generalizing m with
  | nil => rfl
  | cons x l ih =>
    simp only [List.map_cons, List.mem_cons, not_or] at h
    rw [insertAll_cons, ih h.2, AList.lookup_insert_ne h.1]

theorem mem_insertAll : k ∈ insertAll m l ↔ k ∈ m ∨ k ∈ l.map Prod.fst := by
  induction l generalizing m with
  | nil => simp
  | cons x l ih =>
    rw [insertAll_cons, ih, AList.mem_insert, List.map_cons, List.mem_cons]
    tauto

/-- A key that is inserted once gets its value. -/
theorem lookup_insertAll_of_mem (hnodup : (l.map Prod.fst).Nodup) (h : (k, v) ∈ l) :
    (insertAll m l).lookup k = some v := by
  induction l generalizing m with
  | nil => cases h
  | cons x l ih =>
    rw [List.map_cons, List.nodup_cons] at hnodup
    rw [insertAll_cons]
    rcases List.mem_cons.mp h with rfl | h
    · rw [lookup_insertAll_of_notMem hnodup.1, AList.lookup_insert]
    · exact ih hnodup.2 h

/-- A value of the map comes from the log. -/
theorem mem_of_lookup_insertAll (h : (insertAll m l).lookup k = some v) :
    (k, v) ∈ l ∨ m.lookup k = some v := by
  induction l generalizing m with
  | nil => exact .inr h
  | cons x l ih =>
    rcases ih h with hmem | hlookup
    · exact .inl (List.mem_cons_of_mem x hmem)
    · by_cases hk : k = x.1
      · rw [hk, AList.lookup_insert, Option.some.injEq] at hlookup
        refine .inl ?_
        rw [hk, ← hlookup]
        exact List.mem_cons_self
      · rw [AList.lookup_insert_ne hk] at hlookup
        exact .inr hlookup

/-- A log without repeated keys is the graph of its map. -/
theorem lookup_insertAll_empty_iff (hnodup : (l.map Prod.fst).Nodup) :
    (insertAll ∅ l).lookup k = some v ↔ (k, v) ∈ l := by
  constructor
  · intro h
    rcases mem_of_lookup_insertAll h with hmem | hempty
    · exact hmem
    · rw [AList.lookup_empty] at hempty
      cases hempty
  · exact lookup_insertAll_of_mem hnodup

theorem lookup_insertAll_empty_eq_none :
    (insertAll ∅ l).lookup k = none ↔ k ∉ l.map Prod.fst := by
  rw [AList.lookup_eq_none, mem_insertAll, not_or]
  simp

/-- **A search in the log and a lookup in the map find the same**, if no key is repeated. -/
theorem find?_eq_lookup_insertAll {f : β → α} {l : List β} (hnodup : (l.map f).Nodup) (k : α) :
    l.find? (fun v => f v = k) = (insertAll ∅ (l.map fun v => (f v, v))).lookup k := by
  have hkeys : (l.map fun v => (f v, v)).map Prod.fst = l.map f := by simp
  cases hfind : l.find? (fun v => f v = k) with
  | none =>
    symm
    rw [lookup_insertAll_empty_eq_none, hkeys, List.mem_map]
    rintro ⟨v, hv, hk⟩
    have hne := List.find?_eq_none.mp hfind v hv
    simp [hk] at hne
  | some v =>
    symm
    rw [lookup_insertAll_empty_iff (by rwa [hkeys])]
    have hk : f v = k := by simpa using List.find?_some hfind
    exact List.mem_map.mpr ⟨v, List.mem_of_find?_eq_some hfind, by rw [hk]⟩

/-! ## Insertions of new keys -/

/-- Insert a key that the map does not have. -/
def insertNew (m : AList fun _ : α => β) (k : α) (v : β) : AList fun _ : α => β :=
  if k ∈ m then m else m.insert k v

/-- Insert the entries of a list whose keys are new, the first one first. -/
def insertNewAll (m : AList fun _ : α => β) (l : List (α × β)) : AList fun _ : α => β :=
  l.foldl (fun m x => insertNew m x.1 x.2) m

theorem lookup_insertNew :
    (insertNew m x.1 x.2).lookup k = (m.lookup k).or (if x.1 = k then some x.2 else none) := by
  rw [insertNew]
  by_cases hk : x.1 = k
  · subst hk
    split
    · rename_i hmem
      obtain ⟨v, hv⟩ := Option.isSome_iff_exists.mp (AList.lookup_isSome.mpr hmem)
      simp [hv]
    · rename_i hmem
      rw [AList.lookup_insert, AList.lookup_eq_none.mpr hmem, Option.none_or, if_pos rfl]
  · have hne : k ≠ x.1 := fun h => hk h.symm
    rw [if_neg hk, Option.or_none]
    split
    · rfl
    · exact AList.lookup_insert_ne hne

/-- **The first value of a key stays.** -/
theorem lookup_insertNewAll :
    (insertNewAll m l).lookup k =
      (m.lookup k).or ((l.find? fun x => x.1 = k).map Prod.snd) := by
  induction l generalizing m with
  | nil => simp [insertNewAll]
  | cons x l ih =>
    have hcons : insertNewAll m (x :: l) = insertNewAll (insertNew m x.1 x.2) l := rfl
    rw [hcons, ih, lookup_insertNew, Option.or_assoc, List.find?_cons]
    by_cases hk : x.1 = k
    · simp [hk]
    · simp [hk]

theorem mem_insertNewAll_empty : k ∈ insertNewAll ∅ l ↔ k ∈ l.map Prod.fst := by
  rw [← AList.lookup_isSome, lookup_insertNewAll, AList.lookup_empty, Option.none_or,
    Option.isSome_map, List.find?_isSome, List.mem_map]
  simp

/-! ## Removals -/

/-- The keys of the list are gone, the others are left alone. -/
theorem lookup_foldl_erase (keys : List α) :
    (keys.foldl (fun m k => m.erase k) m).lookup k = if k ∈ keys then none else m.lookup k := by
  induction keys generalizing m with
  | nil => simp
  | cons x keys ih =>
    rw [List.foldl_cons, ih]
    by_cases hmem : k ∈ keys
    · simp [hmem]
    · by_cases hk : k = x
      · subst hk
        simp
      · rw [if_neg hmem, if_neg (by simp [hk, hmem]), AList.lookup_erase_ne hk]

/-! ## Partial functions -/

/-- A value that is found after an update was put there, or was there before. -/
theorem update_eq_some {f : α → Option β} {x y : α} {v w : β}
    (h : Function.update f x (some v) y = some w) :
    (y = x ∧ v = w) ∨ (y ≠ x ∧ f y = some w) := by
  by_cases hy : y = x
  · rw [hy, Function.update_self, Option.some.injEq] at h
    exact .inl ⟨hy, h⟩
  · rw [Function.update_of_ne hy] at h
    exact .inr ⟨hy, h⟩

/-- A value that is found after a removal was there before. -/
theorem update_none_eq_some {f : α → Option β} {x y : α} {w : β}
    (h : Function.update f x none y = some w) : y ≠ x ∧ f y = some w := by
  by_cases hy : y = x
  · rw [hy, Function.update_self] at h
    cases h
  · rw [Function.update_of_ne hy] at h
    exact ⟨hy, h⟩

end PhsaRuntime
