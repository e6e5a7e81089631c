import Mathlib.Algebra.Order.Floor.Div
import Mathlib.Data.Nat.Periodic

/-! Taking the elements of a list in turn, over and over, from any turn on.  A round, which has as many
turns as the list has elements, takes each of them once, wherever it begins. -/

namespace StateProxy.ProofKit

variable {α : Type}

/-- Whether the element that turn `j` takes satisfies `q`, when the elements are taken in turn. -/
def turn (q : α → Bool) (xs : List α) (j : Nat) : Bool :=
  (xs[j % xs.length]?).any q

theorem turn_periodic (q : α → Bool) (xs : List α) :
    Function.Periodic (fun j => turn q xs j = true) xs.length := by
  intro j
  simp only [turn, Nat.add_mod_right]

theorem countP_turn_range (q : α → Bool) (xs : List α) :
    (List.range xs.length).countP (fun j => (xs[j]?).any q) = xs.countP q := by
  induction xs using List.reverseRecOn with
  | nil => rfl
  | append_singleton xs x ih =>
    have hbefore : (List.range xs.length).countP (fun j => ((xs ++ [x])[j]?).any q) =
        (List.range xs.length).countP (fun j => (xs[j]?).any q) := by
      refine List.countP_congr fun j hj => ?_
      rw [List.getElem?_append_left (List.mem_range.mp hj)]
    rw [List.length_append, List.length_singleton, List.range_succ, List.countP_append, hbefore, ih,
      List.countP_append]
    congr 1
    simp [List.countP_singleton]

/-- A whole round takes every element once. -/
theorem countP_turn_round (q : α → Bool) (xs : List α) (i : Nat) :
    (List.range' i xs.length).countP (turn q xs) = xs.countP q := by
  have hround := Nat.filter_multiset_Ico_card_eq_of_periodic i xs.length _ (turn_periodic q xs)
  have hlist : Multiset.Ico i (i + xs.length) = (List.range' i xs.length : Multiset Nat) := by
    change ((List.range' i (i + xs.length - i) : List Nat) : Multiset Nat) = _
    rw [Nat.add_sub_cancel_left]
  rw [hlist, Multiset.filter_coe, Multiset.coe_card, ← List.countP_eq_length_filter] at hround
  calc (List.range' i xs.length).countP (turn q xs)
      = (List.range' i xs.length).countP (fun j => turn q xs j = true) := by
        refine List.countP_congr fun j _ => ?_
        simp
    _ = xs.length.count (fun j => turn q xs j = true) := hround
    _ = (List.range xs.length).countP (fun j => (xs[j]?).any q) := by
        rw [Nat.count]
        refine List.countP_congr fun j hj => ?_
        simp [turn, Nat.mod_eq_of_lt (List.mem_range.mp hj)]
    _ = xs.countP q := countP_turn_range q xs

theorem countP_turn_rounds (q : α → Bool) (xs : List α) (i rounds : Nat) :
    (List.range' i (xs.length * rounds)).countP (turn q xs) = xs.countP q * rounds := by
  induction rounds with
  | zero => simp
  | succ rounds ih =>
    rw [Nat.mul_succ, ← List.range'_append_1, List.countP_append, ih, countP_turn_round, Nat.mul_succ]

/-- Of `k` turns, as many take an element with the property as the elements with it take in `k / n`
rounds, rounded down at least and rounded up at most. -/
theorem countP_turn (q : α → Bool) {xs : List α} (hne : xs ≠ []) (i k : Nat) :
    xs.countP q * (k / xs.length) ≤ (List.range' i k).countP (turn q xs) ∧
      (List.range' i k).countP (turn q xs) ≤ xs.countP q * (k ⌈/⌉ xs.length) := by
  have hlength : 0 < xs.length := List.length_pos_iff.mpr hne
  rw [← countP_turn_rounds q xs i, ← countP_turn_rounds q xs i]
  constructor
  · exact (List.range'_sublist_right.mpr (Nat.mul_div_le k _)).countP_le
  · refine (List.range'_sublist_right.mpr ?_).countP_le
    exact le_smul_ceilDiv hlength

end StateProxy.ProofKit
