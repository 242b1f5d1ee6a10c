import Mathlib.Data.List.Basic

/-!
# Go maps

The store keeps three Go maps: a stream's `tails` and an event's `offsets` (label ↦ file offset)
and the DB's stream cache (commit ↦ stream). A `GoMap` is an association list with distinct
keys: `set` overwrites a key in place or appends it, `get?` is Go's comma-ok lookup and
`delete` is Go's `delete`. Iteration order, which Go leaves unspecified, is insertion order
here; every use in the store either sorts the keys first or is insensitive to the order.

* `get?_set`, `get?_delete` — the lookup laws every proof about a map goes through.
* `mem_keys_set`, `nodup_keys_set` — what `set` does to the key list.
-/

namespace Esdb

/-- A Go `map[K]V`: an association list in insertion order, one entry a key.
Source: Go `map`
Kind: D -/
abbrev GoMap (α β : Type) := List (α × β)

namespace GoMap

variable {α β : Type} [DecidableEq α]

/-- Go's `v, ok := m[k]`.
Source: Go `map` index expression
Kind: D -/
def get? : GoMap α β → α → Option β
  | [], _ => none
  | (k', v) :: m, k => if k' = k then some v else get? m k

/-- Go's `m[k] = v`: overwrite in place, or append a new key.
Source: Go `map` assignment
Kind: D -/
def set : GoMap α β → α → β → GoMap α β
  | [], k, v => [(k, v)]
  | (k', v') :: m, k, v => if k' = k then (k, v) :: m else (k', v') :: set m k v

/-- Go's `delete(m, k)`.
Source: Go `delete`
Kind: D -/
def delete : GoMap α β → α → GoMap α β
  | [], _ => []
  | (k', v') :: m, k => if k' = k then m else (k', v') :: delete m k

/-- The keys, in iteration order.
Source: Go `for k := range m`
Kind: D -/
def keys (m : GoMap α β) : List α := m.map Prod.fst

@[simp] theorem get?_nil (k : α) : get? ([] : GoMap α β) k = none := rfl

omit [DecidableEq α] in
@[simp] theorem keys_nil : keys ([] : GoMap α β) = [] := rfl

/-- A second assignment to a key replaces the first.
Source: Go `map` semantics
Kind: L -/
@[simp] theorem set_set (m : GoMap α β) (k : α) (v v' : β) : set (set m k v) k v' = set m k v' := by
  induction m with
  | nil => simp [set]
  | cons p m ih =>
    obtain ⟨k', w⟩ := p
    by_cases h : k' = k <;> simp [set, h, ih]

/-- Lookup after an assignment.
Source: Go `map` semantics
Kind: L -/
@[simp] theorem get?_set (m : GoMap α β) (k k' : α) (v : β) :
    get? (set m k v) k' = if k = k' then some v else get? m k' := by
  induction m with
  | nil => simp [set, get?]
  | cons p m ih =>
    obtain ⟨k'', v''⟩ := p
    by_cases h : k'' = k
    · subst h; by_cases h' : k'' = k' <;> simp [set, get?, h']
    · simp only [set, get?, h, if_false, ih]
      by_cases h' : k'' = k'
      · subst h'; simp [Ne.symm h]
      · simp [h']

/-- Assigning a key the value it holds changes nothing.
Source: Go `map` semantics
Kind: L -/
theorem set_of_get? {m : GoMap α β} {k : α} {v : β} (h : get? m k = some v) : set m k v = m := by
  induction m with
  | nil => simp at h
  | cons p m ih =>
    obtain ⟨k', v'⟩ := p
    by_cases hk : k' = k
    · subst hk
      simp only [get?, if_true, Option.some.injEq] at h
      simp [set, h]
    · simp only [get?, hk, if_false] at h
      simp [set, hk, ih h]

theorem get?_eq_none_iff (m : GoMap α β) (k : α) : get? m k = none ↔ k ∉ keys m := by
  induction m with
  | nil => simp [keys]
  | cons p m ih =>
    obtain ⟨k'', v''⟩ := p
    by_cases h : k'' = k
    · subst h; simp [get?, keys]
    · simp only [keys] at ih; simp [get?, keys, h, ih, Ne.symm h]

theorem mem_keys_iff_isSome (m : GoMap α β) (k : α) : k ∈ keys m ↔ (get? m k).isSome := by
  rw [← not_iff_not, Option.not_isSome_iff_eq_none, get?_eq_none_iff]

/-- Lookup after a deletion.
Source: Go `map` semantics
Kind: L -/
theorem get?_delete {m : GoMap α β} (hm : (keys m).Nodup) (k k' : α) :
    get? (delete m k) k' = if k = k' then none else get? m k' := by
  induction m with
  | nil => simp [delete, get?]
  | cons p m ih =>
    obtain ⟨k'', v''⟩ := p
    simp only [keys, List.map_cons, List.nodup_cons] at hm
    by_cases h : k'' = k
    · subst h
      by_cases h' : k'' = k'
      · subst h'
        simp [delete, (get?_eq_none_iff m k'').mpr hm.1]
      · simp [delete, get?, h']
    · simp only [delete, get?, h, if_false, ih hm.2]
      by_cases h' : k'' = k'
      · subst h'; simp [Ne.symm h]
      · simp [h']

theorem mem_keys_set (m : GoMap α β) (k k' : α) (v : β) :
    k' ∈ keys (set m k v) ↔ k' = k ∨ k' ∈ keys m := by
  induction m with
  | nil => simp [set, keys]
  | cons p m ih =>
    obtain ⟨k'', v''⟩ := p
    by_cases h : k'' = k
    · subst h; simp [set, keys]
    · simp only [keys] at ih; simp [set, keys, h, ih]; tauto

theorem nodup_keys_set {m : GoMap α β} (hm : (keys m).Nodup) (k : α) (v : β) :
    (keys (set m k v)).Nodup := by
  induction m with
  | nil => simp [set, keys]
  | cons p m ih =>
    obtain ⟨k'', v''⟩ := p
    simp only [keys, List.map_cons, List.nodup_cons] at hm
    by_cases h : k'' = k
    · subst h; simpa [set, keys] using hm
    · have := mem_keys_set m k k'' v
      simp only [keys] at this ih
      simp only [set, h, if_false, keys, List.map_cons, List.nodup_cons, this, false_or]
      exact ⟨hm.1, ih hm.2⟩

/-! ### Assigning a list of keys -/

/-- Lookup after `for _, k := range ks { m[k] = f(k) }`.
Source: none: infrastructure
Kind: L -/
theorem get?_foldl_set (f : α → β) (k : α) :
    ∀ (ks : List α) (m : GoMap α β),
      get? (ks.foldl (fun m k => set m k (f k)) m) k = if k ∈ ks then some (f k) else get? m k
  | [], _ => by simp
  | k' :: ks, m => by
    rw [List.foldl_cons, get?_foldl_set f k ks, get?_set]
    by_cases h : k ∈ ks
    · simp [h]
    · by_cases h' : k' = k
      · subst h'; simp [h]
      · simp [h, h', Ne.symm h']

theorem mem_keys_foldl_set (f : α → β) (k : α) :
    ∀ (ks : List α) (m : GoMap α β),
      k ∈ keys (ks.foldl (fun m k => set m k (f k)) m) ↔ k ∈ ks ∨ k ∈ keys m
  | [], _ => by simp
  | k' :: ks, m => by
    rw [List.foldl_cons, mem_keys_foldl_set f k ks, mem_keys_set]
    simp only [List.mem_cons]; tauto

theorem nodup_keys_foldl_set (f : α → β) :
    ∀ (ks : List α) {m : GoMap α β}, (keys m).Nodup →
      (keys (ks.foldl (fun m k => set m k (f k)) m)).Nodup
  | [], _, hm => hm
  | k' :: ks, _, hm => nodup_keys_foldl_set f ks (nodup_keys_set hm k' (f k'))

end GoMap

end Esdb
