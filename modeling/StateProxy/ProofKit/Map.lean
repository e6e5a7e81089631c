import Mathlib.Data.Finmap
import Mathlib.Data.List.Sort

/-! Finite maps, the order in which an iteration visits their keys, and the loop that rewrites every
value of a map in place.  A map is equal to another when both hold the same entries, and an
iteration order is any duplicate-free listing of the keys, so that a theorem about every
`IterOrder` holds for every order in which a hash table can present its entries. -/

namespace StateProxy.ProofKit

/-- A finite map from `K` to `V`, up to its contents. -/
abbrev HashMap (K V : Type) := Finmap fun _ : K => V

/-- An order of iteration: the list in which the keys of each finite set are visited. -/
structure IterOrder (K : Type) where
  visit : Finset K → List K
  nodup : ∀ keys, (visit keys).Nodup
  mem : ∀ keys k, k ∈ visit keys ↔ k ∈ keys

namespace IterOrder

/-- The order that visits the keys from the least `rank` on. -/
def sortedBy {K A : Type} [LinearOrder A] (rank : K → A) (injective : rank.Injective) :
    IterOrder K :=
  let r : K → K → Prop := fun a b => rank a ≤ rank b
  have : Std.Total r := ⟨fun a b => le_total (rank a) (rank b)⟩
  have : IsTrans K r := ⟨fun _ _ _ hab hbc => le_trans hab hbc⟩
  have : Std.Antisymm r := ⟨fun _ _ hab hba => injective (le_antisymm hab hba)⟩
  { visit := fun keys => Quot.liftOn keys.val (List.insertionSort r) fun a b h =>
      ((List.perm_insertionSort r a).trans (h.trans (List.perm_insertionSort r b).symm)).eq_of_pairwise'
        (List.pairwise_insertionSort r a) (List.pairwise_insertionSort r b)
    nodup := fun keys => by
      obtain ⟨⟨l⟩, h⟩ := keys
      exact (List.perm_insertionSort r l).nodup_iff.mpr h
    mem := fun keys k => by
      obtain ⟨⟨l⟩, h⟩ := keys
      exact (List.perm_insertionSort r l).mem_iff }

theorem length_visit {K : Type} [DecidableEq K] (order : IterOrder K) (keys : Finset K) :
    (order.visit keys).length = keys.card := by
  rw [← List.toFinset_card_of_nodup (order.nodup keys)]
  congr 1
  ext k
  rw [List.mem_toFinset, order.mem]

end IterOrder

section Maps

variable {K V : Type} [DecidableEq K]

theorem mem_keys_iff {map : HashMap K V} {k : K} : k ∈ map.keys ↔ ∃ v, map.lookup k = some v := by
  rw [Finmap.mem_keys, Finmap.mem_iff]

theorem ne_empty_iff {map : HashMap K V} : map ≠ ∅ ↔ ∃ k v, map.lookup k = some v := by
  constructor
  · intro h
    by_contra hn
    refine h (Finmap.ext_lookup fun k => ?_)
    rw [Finmap.lookup_empty]
    cases hk : map.lookup k with
    | none => rfl
    | some v => exact (hn ⟨k, v, hk⟩).elim
  · rintro ⟨k, v, hk⟩ rfl
    rw [Finmap.lookup_empty] at hk
    cases hk

theorem lookup_insert_eq (map : HashMap K V) (k j : K) (v : V) :
    (map.insert k v).lookup j = if j = k then some v else map.lookup j := by
  split
  · rename_i h
    rw [h, Finmap.lookup_insert]
  · rename_i h
    rw [Finmap.lookup_insert_of_ne _ h]

theorem lookup_erase_eq (map : HashMap K V) (k j : K) :
    (map.erase k).lookup j = if j = k then none else map.lookup j := by
  split
  · rename_i h
    rw [h, Finmap.lookup_erase]
  · rename_i h
    rw [Finmap.lookup_erase_ne h]

/-- The map without the keys of a list. -/
def eraseAll (map : HashMap K V) (keys : List K) : HashMap K V :=
  keys.foldl (fun m k => m.erase k) map

@[simp] theorem eraseAll_nil (map : HashMap K V) : eraseAll map [] = map := rfl

theorem eraseAll_cons (map : HashMap K V) (k : K) (keys : List K) :
    eraseAll map (k :: keys) = eraseAll (map.erase k) keys := rfl

theorem lookup_eraseAll (map : HashMap K V) (keys : List K) (j : K) :
    (eraseAll map keys).lookup j = if j ∈ keys then none else map.lookup j := by
  induction keys generalizing map with
  | nil => simp
  | cons k keys ih =>
    rw [eraseAll_cons, ih, lookup_erase_eq]
    by_cases hk : j = k
    · simp [hk]
    · simp [hk]

/-- `for (key, value) in &mut map`, over the keys in the order `keys`: `body` replaces the value of
each key and threads the loop's local variables. -/
def iterMut {S : Type} (body : K → V → S → V × S) : List K → HashMap K V → S → HashMap K V × S
  | [], map, s => (map, s)
  | key :: keys, map, s =>
    match map.lookup key with
    | none => iterMut body keys map s
    | some value =>
      iterMut body keys (map.insert key (body key value s).1) (body key value s).2

variable {S : Type} {body : K → V → S → V × S}

/-- When the loop body's new value does not depend on the local variables, the loop maps every
visited entry. -/
theorem lookup_iterMut {f : K → V → V} (hf : ∀ k v s, (body k v s).1 = f k v) (keys : List K)
    (hkeys : keys.Nodup) (map : HashMap K V) (s : S) (j : K) :
    (iterMut body keys map s).1.lookup j =
      if j ∈ keys then (map.lookup j).map (f j) else map.lookup j := by
  induction keys generalizing map s with
  | nil => simp [iterMut]
  | cons key keys ih =>
    obtain ⟨hnot, hrest⟩ := List.nodup_cons.mp hkeys
    cases hv : map.lookup key with
    | none =>
      simp only [iterMut, hv]
      rw [ih hrest]
      by_cases hj : j = key
      · subst hj
        simp [hnot, hv]
      · simp [hj]
    | some value =>
      simp only [iterMut, hv]
      rw [ih hrest, hf, lookup_insert_eq]
      by_cases hj : j = key
      · subst hj
        simp [hnot, hv]
      · simp [hj]

/-- The local variables after the loop: a fold over the entries as they were before it. -/
theorem iterMut_locals (keys : List K) (hkeys : keys.Nodup) (map : HashMap K V) (s : S) :
    (iterMut body keys map s).2 =
      keys.foldl (fun s k => (map.lookup k).elim s fun v => (body k v s).2) s := by
  induction keys generalizing map s with
  | nil => rfl
  | cons key keys ih =>
    obtain ⟨hnot, hrest⟩ := List.nodup_cons.mp hkeys
    cases hv : map.lookup key with
    | none =>
      simp only [iterMut, hv, List.foldl_cons, Option.elim_none]
      exact ih hrest map s
    | some value =>
      simp only [iterMut, hv, List.foldl_cons, Option.elim_some]
      rw [ih hrest]
      refine List.foldl_ext _ _ _ fun t k hk => ?_
      have hne : k ≠ key := fun h => hnot (h ▸ hk)
      rw [Finmap.lookup_insert_of_ne _ hne]

theorem lookup_iterMut_visit {f : K → V → V} (hf : ∀ k v s, (body k v s).1 = f k v)
    (order : IterOrder K) (map : HashMap K V) (s : S) (j : K) :
    (iterMut body (order.visit map.keys) map s).1.lookup j = (map.lookup j).map (f j) := by
  rw [lookup_iterMut hf _ (order.nodup _)]
  split
  · rfl
  · rename_i h
    rw [order.mem, Finmap.mem_keys, ← Finmap.lookup_eq_none] at h
    rw [h, Option.map_none]

end Maps

end StateProxy.ProofKit
