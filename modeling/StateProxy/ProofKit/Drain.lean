import Mathlib.Algebra.BigOperators.Finprod
import Mathlib.Data.Prod.Lex
import Mathlib.Order.OrderIsoNat

/-! Systems that drain.  Finitely many of the tasks of a system have a load, and a step changes the
load of one task, so that it changes the total load by as much.  A step that lowers an outer number,
or keeps it and lowers an inner one, cannot be taken for ever. -/

namespace StateProxy.ProofKit

section Totals

variable {T : Type}

/-- The sum of the loads of all tasks. -/
noncomputable def total (load : T → Nat) : Nat := ∑ᶠ t, load t

variable [DecidableEq T]

theorem finite_update {A : Type} {f : T → A} {rest : A} (h : {t | f t ≠ rest}.Finite) (t : T)
    (a : A) : {t' | Function.update f t a t' ≠ rest}.Finite := by
  refine (h.insert t).subset fun t' ht => ?_
  by_cases heq : t' = t
  · exact .inl heq
  · refine .inr ?_
    rwa [Set.mem_ofPred_eq, Function.update_of_ne heq] at ht

/-- One task changes its load. -/
theorem total_change {load load' : T → Nat} (hfinite : {t | load t ≠ 0}.Finite) (t : T)
    (hothers : ∀ t', t' ≠ t → load' t' = load t') :
    total load' + load t = total load + load' t := by
  have hsubset : ∀ more : T → Nat, (∀ t', t' ≠ t → more t' = load t') →
      Function.support more ⊆ ((insert t hfinite.toFinset : Finset T) : Set T) := by
    intro more hmore t' ht
    rw [Finset.coe_insert, Set.Finite.coe_toFinset]
    by_cases heq : t' = t
    · exact .inl heq
    · refine .inr ?_
      rw [Function.mem_support, hmore t' heq] at ht
      exact ht
  have hmem : t ∈ insert t hfinite.toFinset := Finset.mem_insert_self _ _
  rw [total, total, finsum_eq_sum_of_support_subset _ (hsubset load' hothers),
    finsum_eq_sum_of_support_subset _ (hsubset load fun _ _ => rfl),
    ← Finset.add_sum_erase _ load' hmem, ← Finset.add_sum_erase _ load hmem]
  have hrest : ∑ t' ∈ (insert t hfinite.toFinset).erase t, load' t' =
      ∑ t' ∈ (insert t hfinite.toFinset).erase t, load t' :=
    Finset.sum_congr rfl fun t' ht => hothers t' (Finset.ne_of_mem_erase ht)
  omega

omit [DecidableEq T] in
theorem total_eq_sum {load more : T → Nat} (hfinite : {t | load t ≠ 0}.Finite)
    (hle : ∀ t, more t ≤ load t) : total more = ∑ t ∈ hfinite.toFinset, more t := by
  refine finsum_eq_sum_of_support_subset _ fun t ht => ?_
  rw [Set.Finite.coe_toFinset]
  have hmore : more t ≠ 0 := ht
  have hload := hle t
  exact fun hzero => hmore (by omega)

omit [DecidableEq T] in
/-- No task gets more load, and one gets less. -/
theorem total_add_le {load load' : T → Nat} (hfinite : {t | load t ≠ 0}.Finite)
    (hle : ∀ t, load' t ≤ load t) {t : T} {k : Nat} (hless : load' t + k ≤ load t) :
    total load' + k ≤ total load := by
  classical
  rw [total_eq_sum hfinite hle, total_eq_sum hfinite fun _ => le_refl _]
  by_cases ht : t ∈ hfinite.toFinset
  · rw [← Finset.add_sum_erase _ load' ht, ← Finset.add_sum_erase _ load ht]
    have hrest : ∑ t' ∈ hfinite.toFinset.erase t, load' t' ≤
        ∑ t' ∈ hfinite.toFinset.erase t, load t' := Finset.sum_le_sum fun t' _ => hle t'
    omega
  · have hzero : load t = 0 := by simpa using ht
    have hall : ∑ t' ∈ hfinite.toFinset, load' t' ≤ ∑ t' ∈ hfinite.toFinset, load t' :=
      Finset.sum_le_sum fun t' _ => hle t'
    omega

end Totals

section Runs

variable {S : Type} (step : S → S → Prop) (inv : S → Prop) (outer inner : S → Nat)

/-- A run whose steps lower the outer number, or else the inner one, ends. -/
theorem not_infinite_of_lowers (hinv : ∀ s s', inv s → step s s' → inv s')
    (hlowers : ∀ s s', inv s → step s s' →
      outer s' < outer s ∨ outer s' ≤ outer s ∧ inner s' < inner s)
    (run : Nat → S) (hstart : inv (run 0)) : ¬ ∀ n, step (run n) (run (n + 1)) := by
  intro hsteps
  have hall : ∀ n, inv (run n) := by
    intro n
    induction n with
    | zero => exact hstart
    | succ n ih => exact hinv _ _ ih (hsteps n)
  have hdescends : ∀ n, toLex (outer (run (n + 1)), inner (run (n + 1))) <
      toLex (outer (run n), inner (run n)) := by
    intro n
    rw [Prod.Lex.toLex_lt_toLex]
    have h := hlowers _ _ (hall n) (hsteps n)
    simp only
    omega
  have hanti : StrictAnti fun n => toLex (outer (run n), inner (run n)) :=
    strictAnti_nat_of_succ_lt hdescends
  exact not_strictAnti_of_wellFoundedLT _ hanti

end Runs

end StateProxy.ProofKit
