import Mathlib.Algebra.Order.Floor.Div
import Mathlib.Data.Int.CardIntervalMod
import Mathlib.Data.List.Rotate

/-! Searching a list from a position on and then from its start.  The second search has to reach the
position again for the two to find what a search of the rotated list finds; `twoLoops_eq_iff` says what
happens when it takes `n - i` elements instead of `i`.  When every element is a hit, consecutive starts
modulo the length take the positions in turn. -/

namespace StateProxy.ProofKit

variable {α : Type} {p : α → Bool}

theorem exists_find? {xs : List α} (h : ∃ x ∈ xs, p x) : ∃ y, xs.find? p = some y := by
  rw [← Option.isSome_iff_exists, List.find?_isSome]
  exact h

/-- Two prefixes of a list in which something is found give the same. -/
theorem find?_eq_of_prefix {xs ys zs : List α} {x y : α} (hxs : xs <+: zs) (hys : ys <+: zs)
    (hx : xs.find? p = some x) (hy : ys.find? p = some y) : x = y :=
  Option.some.inj ((hxs.find?_eq_some hx).symm.trans (hys.find?_eq_some hy))

/-- The first hit from position `i` on or, without one, among the first `n - i` elements. -/
def twoLoops (p : α → Bool) (xs : List α) (i : Nat) : Option α :=
  ((xs.drop i).find? p).or ((xs.take (xs.length - i)).find? p)

/-- The two loops find what a cyclic search from position `i` finds, unless all hits lie where neither
loop looks. -/
theorem twoLoops_eq_iff (xs : List α) (i : Nat) :
    twoLoops p xs i = (xs.drop i ++ xs.take i).find? p ↔
      ((∃ x ∈ xs, p x) → ∃ x ∈ xs.drop i ++ xs.take (xs.length - i), p x) := by
  unfold twoLoops
  rw [List.find?_append]
  cases hdrop : (xs.drop i).find? p with
  | some x =>
    have hx : x ∈ xs.drop i ++ xs.take (xs.length - i) :=
      List.mem_append_left _ (List.mem_of_find?_eq_some hdrop)
    exact ⟨fun _ _ => ⟨x, hx, List.find?_some hdrop⟩, fun _ => rfl⟩
  | none =>
    have hnone := List.find?_eq_none.mp hdrop
    simp only [Option.none_or]
    constructor
    · rintro heq ⟨x, hx, hpx⟩
      have htake : x ∈ xs.take i := by
        rw [← List.take_append_drop i xs] at hx
        exact (List.mem_append.mp hx).resolve_right fun h => hnone x h hpx
      obtain ⟨y, hy⟩ := exists_find? ⟨x, htake, hpx⟩
      rw [← heq] at hy
      exact ⟨y, List.mem_append_right _ (List.mem_of_find?_eq_some hy), List.find?_some hy⟩
    · intro hreached
      cases htake : (xs.take i).find? p with
      | none =>
        have hnone' := List.find?_eq_none.mp htake
        refine List.find?_eq_none.mpr fun x hx hpx => ?_
        have hmem := List.mem_of_mem_take hx
        rw [← List.take_append_drop i xs] at hmem
        rcases List.mem_append.mp hmem with h | h
        · exact hnone' x h hpx
        · exact hnone x h hpx
      | some x =>
        have hx := List.mem_of_find?_eq_some htake
        obtain ⟨y, hy, hpy⟩ := hreached ⟨x, List.mem_of_mem_take hx, List.find?_some htake⟩
        have hsecond : y ∈ xs.take (xs.length - i) :=
          (List.mem_append.mp hy).resolve_left fun h => hnone y h hpy
        obtain ⟨z, hz⟩ := exists_find? ⟨y, hsecond, hpy⟩
        rw [hz, find?_eq_of_prefix (List.take_prefix _ xs) (List.take_prefix _ xs) hz htake]

theorem twoLoops_eq_none {xs : List α} {i : Nat}
    (h : ¬ ∃ x ∈ xs.drop i ++ xs.take (xs.length - i), p x) : twoLoops p xs i = none := by
  rw [twoLoops, ← List.find?_append]
  exact List.find?_eq_none.mpr fun x hx hpx => h ⟨x, hx, hpx⟩

/-- An element of one of the two loops, by its position. -/
theorem exists_mem_loops_iff (xs : List α) (i : Nat) :
    (∃ x ∈ xs.drop i ++ xs.take (xs.length - i), p x) ↔
      ∃ j x, xs[j]? = some x ∧ p x ∧ (i ≤ j ∨ j < xs.length - i) := by
  constructor
  · rintro ⟨x, hx, hpx⟩
    rcases List.mem_append.mp hx with hx | hx
    · obtain ⟨k, hk⟩ := List.mem_iff_getElem?.mp hx
      rw [List.getElem?_drop] at hk
      exact ⟨i + k, x, hk, hpx, .inl (by omega)⟩
    · obtain ⟨j, hj⟩ := List.mem_iff_getElem?.mp hx
      rw [List.getElem?_take] at hj
      split at hj
      · rename_i hlt
        exact ⟨j, x, hj, hpx, .inr hlt⟩
      · cases hj
  · rintro ⟨j, x, hx, hpx, hj⟩
    refine ⟨x, List.mem_append.mpr ?_, hpx⟩
    rcases hj with hj | hj
    · refine .inl (List.mem_iff_getElem?.mpr ⟨j - i, ?_⟩)
      rw [List.getElem?_drop, Nat.add_sub_cancel' hj, hx]
    · refine .inr (List.mem_iff_getElem?.mpr ⟨j, ?_⟩)
      rw [List.getElem?_take, if_pos hj, hx]

/-! ### Positions in turn -/

/-- The position of the hit of `twoLoops`. -/
def hitPosition (p : α → Bool) (xs : List α) (i : Nat) : Option Nat :=
  (twoLoops (fun x => p x.1) xs.zipIdx i).map (·.2)

theorem map_fst_twoLoops (xs : List α) (i : Nat) :
    (twoLoops (fun x => p x.1) xs.zipIdx i).map (·.1) = twoLoops p xs i := by
  have hfst : xs.zipIdx.map (·.1) = xs := List.zipIdx_map_fst 0 xs
  unfold twoLoops
  conv_rhs => rw [← hfst]
  rw [Option.map_or, ← List.map_drop, List.find?_map, List.length_map, ← List.map_take, List.find?_map]
  rfl

theorem mem_of_twoLoops {xs : List α} {i : Nat} {x : α} (h : twoLoops p xs i = some x) : x ∈ xs := by
  rcases Option.or_eq_some_iff.mp h with h | ⟨-, h⟩
  · exact List.mem_of_mem_drop (List.mem_of_find?_eq_some h)
  · exact List.mem_of_mem_take (List.mem_of_find?_eq_some h)

/-- What the two loops find stands at the position of the hit. -/
theorem twoLoops_eq_getElem? (xs : List α) (i : Nat) :
    twoLoops p xs i = (hitPosition p xs i).bind fun position => xs[position]? := by
  rw [← map_fst_twoLoops, hitPosition]
  cases h : twoLoops (fun x => p x.1) xs.zipIdx i with
  | none => rfl
  | some x =>
    have hmem : (x.1, x.2) ∈ xs.zipIdx := mem_of_twoLoops h
    exact (List.mk_mem_zipIdx_iff_getElem?.mp hmem).symm

theorem hitPosition_of_all {xs : List α} (hall : ∀ x ∈ xs, p x) {i : Nat} (hi : i < xs.length) :
    hitPosition p xs i = some i := by
  have hdrop : xs.zipIdx.drop i = (xs[i], i) :: xs.zipIdx.drop (i + 1) := by
    rw [List.drop_eq_getElem_cons (by simpa using hi), List.getElem_zipIdx, Nat.zero_add]
  have hfind : (xs.zipIdx.drop i).find? (fun x => p x.1) = some (xs[i], i) := by
    rw [hdrop, List.find?_cons_of_pos (by simpa using hall _ (List.getElem_mem hi))]
  rw [hitPosition, twoLoops, hfind, Option.some_or, Option.map_some]

theorem ceilDiv_of_mod_pos {k n : Nat} (hn : 0 < n) (hmod : 0 < k % n) : k ⌈/⌉ n = k / n + 1 := by
  have hlt := Nat.mod_lt k hn
  have hsum : k + n - 1 = n * (k / n) + (k % n + n - 1) := by
    have hdiv := Nat.div_add_mod k n
    omega
  have hone : (k % n + n - 1) / n = 1 := Nat.div_eq_of_lt_le (by omega) (by omega)
  rw [Nat.ceilDiv_eq_add_pred_div, hsum, Nat.mul_add_div hn, hone]

/-- The residue that the distance from `i` has to have. -/
theorem add_mod_eq_iff {n p : Nat} (hp : p < n) (i j : Nat) :
    (i + j) % n = p ↔ j ≡ p + (n - i % n) [MOD n] := by
  have hlt := Nat.mod_lt i (by omega : n > 0)
  have hround : i + (p + (n - i % n)) ≡ p [MOD n] := by
    have hsum : i + (p + (n - i % n)) = p + n * (i / n + 1) := by
      have hdiv := Nat.div_add_mod i n
      rw [Nat.mul_add]
      omega
    rw [hsum]
    exact Nat.add_mul_mod_self_left p n (i / n + 1)
  constructor
  · intro h
    have hj : i + j ≡ p [MOD n] := by rw [Nat.ModEq, h, Nat.mod_eq_of_lt hp]
    exact Nat.ModEq.add_left_cancel' i (hj.trans hround.symm)
  · intro h
    have hj : i + j ≡ p [MOD n] := (h.add_left i).trans hround
    rwa [Nat.ModEq, Nat.mod_eq_of_lt hp] at hj

/-- Of `k` consecutive numbers, as many have a given residue modulo `n` as any other, up to one. -/
theorem countP_range'_mod {n p : Nat} (hp : p < n) (i k : Nat) :
    (List.range' i k).countP (· % n = p) = k / n ∨
      (List.range' i k).countP (· % n = p) = k ⌈/⌉ n := by
  have hn : 0 < n := by omega
  have hcount : (List.range' i k).countP (· % n = p) =
      k.count (· ≡ p + (n - i % n) [MOD n]) := by
    rw [List.range'_eq_map_range, List.countP_map, Nat.count]
    refine List.countP_congr fun j _ => ?_
    simp only [Function.comp_apply, decide_eq_true_eq]
    exact add_mod_eq_iff hp i j
  rw [hcount, Nat.count_modEq_card k hn]
  split
  · exact .inr (ceilDiv_of_mod_pos hn (by omega)).symm
  · exact .inl rfl

end StateProxy.ProofKit
