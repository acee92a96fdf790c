import Mathlib.Algebra.BigOperators.Group.Finset.Basic
import Mathlib.Algebra.Ring.Nat
import Mathlib.Data.List.AList

/-!
# Finite maps and bulk removal

A concurrent hash map is used as a finite map. Its iteration order means nothing, so what
is proved here of a listing depends only on lookups.
-/

namespace Base

/-- A finite map from `κ` to `ν`. -/
abbrev Map (κ ν : Type*) := AList fun _ : κ => ν

namespace Map

variable {κ ν : Type*}

/-- The number of keys. -/
def size (m : Map κ ν) : ℕ := m.entries.length

/-- The mapped values. -/
def values (m : Map κ ν) : List ν := m.entries.map fun entry => entry.2

/-- The keys whose values satisfy `p`. -/
def keysWhere (m : Map κ ν) (p : ν → Bool) : List κ :=
  (m.entries.filter fun entry => p entry.2).map fun entry => entry.1

/-- The size of a map is the number of its keys. -/
theorem size_eq_length_keys (m : Map κ ν) : size m = m.keys.length :=
  (List.length_map (f := Sigma.fst)).symm

/-- A listed key occurs once. -/
theorem nodup_keysWhere (m : Map κ ν) (p : ν → Bool) : (keysWhere m p).Nodup :=
  m.keys_nodup.sublist (List.filter_sublist.map Sigma.fst)

/-- The values of a map that never gives two keys one value are distinct. -/
theorem nodup_values_of_injective [DecidableEq κ] {m : Map κ ν}
    (h : ∀ k k' v, m.lookup k = some v → m.lookup k' = some v → k = k') : (values m).Nodup := by
  apply List.Nodup.map_on
  · intro entry he entry' he' heq
    have hk := h entry.1 entry'.1 entry.2 (AList.mem_lookup_iff.2 he)
      (by rw [heq]; exact AList.mem_lookup_iff.2 he')
    exact Sigma.ext hk (heq_of_eq heq)
  · exact m.nodupKeys.nodup

variable [DecidableEq κ]

/-- Remove every key of a list, one after another. -/
def eraseAll (m : Map κ ν) (ks : List κ) : Map κ ν := ks.foldl (fun m k => m.erase k) m

/-- A key is in the map when it has a value. -/
theorem mem_iff_lookup {m : Map κ ν} {k : κ} : k ∈ m ↔ ∃ v, m.lookup k = some v := by
  rw [← AList.lookup_isSome, Option.isSome_iff_exists]

/-- A value is mapped when some key has it. -/
theorem mem_values {m : Map κ ν} {v : ν} : v ∈ values m ↔ ∃ k, m.lookup k = some v := by
  simp only [values, List.mem_map]
  refine ⟨fun ⟨entry, he, hv⟩ => ⟨entry.1, ?_⟩, fun ⟨k, hk⟩ => ⟨⟨k, v⟩, ?_, rfl⟩⟩
  · rw [← hv]
    exact AList.mem_lookup_iff.2 he
  · exact AList.mem_lookup_iff.1 hk

/-- A key is listed when its value satisfies the predicate. -/
theorem mem_keysWhere {m : Map κ ν} {p : ν → Bool} {k : κ} :
    k ∈ keysWhere m p ↔ ∃ v, m.lookup k = some v ∧ p v = true := by
  simp only [keysWhere, List.mem_map, List.mem_filter]
  refine ⟨fun ⟨entry, he, hk⟩ => ⟨entry.2, ?_, he.2⟩, fun ⟨v, hv, hp⟩ => ⟨⟨k, v⟩, ⟨?_, hp⟩, rfl⟩⟩
  · rw [← hk]
    exact AList.mem_lookup_iff.2 he.1
  · exact AList.mem_lookup_iff.1 hv

omit [DecidableEq κ] in
/-- A map with a key is not empty. -/
theorem size_pos {m : Map κ ν} {k : κ} (h : k ∈ m) : 0 < size m := by
  rw [size_eq_length_keys]
  exact List.length_pos_of_mem (AList.mem_keys.1 h)

omit [DecidableEq κ] in
/-- Two keys of a map make its size at least two. -/
theorem two_le_size {m : Map κ ν} {k k' : κ} (h : k ∈ m) (h' : k' ∈ m) (hne : k ≠ k') :
    2 ≤ size m := by
  have hsub : [k, k'] ⊆ m.keys := by
    intro x hx
    obtain rfl | hx := List.mem_cons.1 hx
    · exact AList.mem_keys.1 h
    · rw [List.mem_singleton.1 hx]
      exact AList.mem_keys.1 h'
  have hnodup : [k, k'].Nodup := List.nodup_cons.2 ⟨by simpa using hne, List.nodup_singleton k'⟩
  rw [size_eq_length_keys]
  exact (List.subperm_of_subset hnodup hsub).length_le

/-- A new key adds one to the size. -/
theorem size_insert {m : Map κ ν} {k : κ} (h : k ∉ m) (v : ν) : size (m.insert k v) = size m + 1 := by
  rw [size, AList.entries_insert_of_notMem h, List.length_cons, size]

/-- Removing a mapped key takes one from the size. -/
theorem size_erase {m : Map κ ν} {k : κ} (h : k ∈ m) : size (m.erase k) + 1 = size m := by
  rw [size_eq_length_keys, size_eq_length_keys, AList.keys_erase]
  exact List.length_erase_add_one (AList.mem_keys.1 h)

/-- Removing a key never adds one. -/
theorem size_erase_le (m : Map κ ν) (k : κ) : size (m.erase k) ≤ size m := by
  rw [size_eq_length_keys, size_eq_length_keys, AList.keys_erase]
  exact List.length_erase_le

/-- A new key adds its value. -/
theorem values_insert {m : Map κ ν} {k : κ} (h : k ∉ m) (v : ν) :
    values (m.insert k v) = v :: values m := by
  rw [values, AList.entries_insert_of_notMem h, List.map_cons, values]

/-- A total over the values, after one was put in the place of another. -/
theorem sum_values_insert (m : Map κ ν) (k : κ) (v : ν) (g : ν → ℕ) :
    ((values (m.insert k v)).map g).sum + (m.lookup k).elim 0 g = ((values m).map g).sum + g v := by
  by_cases h : k ∈ m
  · obtain ⟨w, front, back, -, hentries, herased⟩ := List.exists_of_kerase (AList.mem_keys.1 h)
    have hlookup : m.lookup k = some w := AList.mem_lookup_iff.2 (by rw [hentries]; simp)
    rw [values, values, AList.entries_insert, herased, hentries, hlookup]
    simp only [List.map_cons, List.map_append, List.sum_cons, List.sum_append, Option.elim_some]
    omega
  · rw [values_insert h, AList.lookup_eq_none.2 h, List.map_cons, List.sum_cons, Option.elim_none]
    omega

/-- A total over the values is one over the keys. -/
theorem sum_values_eq (m : Map κ ν) (default : ν) (g : ν → ℕ) :
    ((values m).map g).sum = ∑ k ∈ m.keys.toFinset, g ((m.lookup k).getD default) := by
  rw [List.sum_toFinset _ m.keys_nodup, values, List.map_map]
  change _ = ((m.entries.map Sigma.fst).map fun k => g ((m.lookup k).getD default)).sum
  rw [List.map_map]
  refine congrArg List.sum (List.map_congr_left fun entry hentry => ?_)
  have hlookup : m.lookup entry.1 = some entry.2 := AList.mem_lookup_iff.2 hentry
  rw [Function.comp_apply, Function.comp_apply, hlookup, Option.getD_some]

/-- What a key is mapped to after an insertion. -/
theorem lookup_insert (m : Map κ ν) (k k' : κ) (v : ν) :
    (m.insert k v).lookup k' = if k' = k then some v else m.lookup k' := by
  split
  · next heq => rw [heq, AList.lookup_insert]
  · next hne => exact AList.lookup_insert_ne hne

/-- Inserting at a vacant key keeps what is mapped. -/
theorem lookup_insert_of_vacant {m : Map κ ν} {k k' : κ} {v' : ν} (hvacant : m.lookup k = none)
    (h : m.lookup k' = some v') (v : ν) : (m.insert k v).lookup k' = some v' := by
  have hne : k' ≠ k := fun heq => Option.some_ne_none v' (h.symm.trans (heq ▸ hvacant))
  exact (AList.lookup_insert_ne hne).trans h

/-- What is mapped after a removal is every other key. -/
theorem lookup_erase_eq_some_iff {m : Map κ ν} {k k' : κ} {v : ν} :
    (m.erase k).lookup k' = some v ↔ k' ≠ k ∧ m.lookup k' = some v := by
  by_cases heq : k' = k
  · subst heq
    rw [AList.lookup_erase]
    simp
  · rw [AList.lookup_erase_ne heq, and_iff_right heq]

/-- Removing a key that is not mapped changes nothing. -/
theorem erase_of_notMem {m : Map κ ν} {k : κ} (h : k ∉ m) : m.erase k = m :=
  AList.ext (List.kerase_of_notMem_keys h)

/-- What remains after a bulk removal. -/
theorem lookup_eraseAll (m : Map κ ν) (ks : List κ) (k : κ) :
    (eraseAll m ks).lookup k = if k ∈ ks then none else m.lookup k := by
  induction ks generalizing m with
  | nil => rfl
  | cons head tail ih =>
    change (eraseAll (m.erase head) tail).lookup k = _
    rw [ih]
    by_cases hk : k = head
    · subst hk
      simp
    · simp [hk, AList.lookup_erase_ne hk]

/-- What is mapped after a bulk removal is every unlisted key. -/
theorem lookup_eraseAll_eq_some_iff {m : Map κ ν} {ks : List κ} {k : κ} {v : ν} :
    (eraseAll m ks).lookup k = some v ↔ k ∉ ks ∧ m.lookup k = some v := by
  rw [lookup_eraseAll]
  split <;> simp [*]

/-- Removing distinct mapped keys takes their number from the size. -/
theorem size_eraseAll {m : Map κ ν} {ks : List κ} (hnodup : ks.Nodup) (hmem : ∀ k ∈ ks, k ∈ m) :
    size (eraseAll m ks) + ks.length = size m := by
  induction ks generalizing m with
  | nil => rfl
  | cons head tail ih =>
    rw [List.nodup_cons] at hnodup
    have htail : ∀ k ∈ tail, k ∈ m.erase head := by
      intro k hk
      rw [AList.mem_erase]
      refine ⟨?_, hmem k (List.mem_cons_of_mem head hk)⟩
      intro heq
      exact hnodup.1 (heq ▸ hk)
    have hsize := size_erase (hmem head List.mem_cons_self)
    have hrest := ih hnodup.2 htail
    change size (eraseAll (m.erase head) tail) + (tail.length + 1) = size m
    omega

end Map

end Base
