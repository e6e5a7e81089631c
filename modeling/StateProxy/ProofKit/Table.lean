import Mathlib.Data.List.Induction
import Mathlib.Logic.Basic

/-! A table of entries, each kept at a position under an identity.  An operation concerns one
identity: it puts an entry of that identity at one position, drops its entries at all positions, or
changes all of them.  The table after a history is determined, position by position, by the
operations of each identity alone, so histories that agree on every identity produce one table. -/

namespace StateProxy.ProofKit

/-- The entries of a table, by position and identity. -/
abbrev Table (P I E : Type) := P → I → Option E

inductive TableOp (P I E : Type)
  | put (position : P) (id : I) (entry : E)
  | drop (id : I)
  | update (id : I) (change : E → E)

namespace TableOp

variable {P I E : Type}

/-- The identity that an operation concerns. -/
def id : TableOp P I E → I
  | .put _ i _ => i
  | .drop i => i
  | .update i _ => i

variable [DecidableEq P] [DecidableEq I]

def apply : TableOp P I E → Table P I E → Table P I E
  | .put p i e, table => fun q j => if q = p ∧ j = i then some e else table q j
  | .drop i, table => fun q j => if j = i then none else table q j
  | .update i change, table => fun q j => if j = i then (table q j).map change else table q j

/-- The table after the operations `ops`, in order, from `table`. -/
def run (ops : List (TableOp P I E)) (table : Table P I E) : Table P I E :=
  ops.foldl (fun t op => op.apply t) table

/-- The table without entries. -/
def empty : Table P I E := fun _ _ => none

@[simp] theorem run_nil (table : Table P I E) : run [] table = table := rfl

theorem run_cons (op : TableOp P I E) (ops : List (TableOp P I E)) (table : Table P I E) :
    run (op :: ops) table = run ops (op.apply table) := rfl

theorem run_append (ops more : List (TableOp P I E)) (table : Table P I E) :
    run (ops ++ more) table = run more (run ops table) :=
  List.foldl_append

theorem run_concat (ops : List (TableOp P I E)) (op : TableOp P I E) (table : Table P I E) :
    run (ops ++ [op]) table = op.apply (run ops table) :=
  run_append ops [op] table

/-- An operation leaves the entries of every other identity as they are. -/
theorem apply_of_id_ne {op : TableOp P I E} {i : I} (h : op.id ≠ i) (table : Table P I E) (p : P) :
    op.apply table p i = table p i := by
  cases op <;> simp_all [apply, id, eq_comm]

/-- The entries of an identity after an operation depend only on those before it. -/
theorem apply_congr (op : TableOp P I E) {t t' : Table P I E} {i : I} (h : ∀ p, t p i = t' p i)
    (p : P) : op.apply t p i = op.apply t' p i := by
  cases op <;> simp [apply, h]

/-- The entries of an identity are those that its own operations leave. -/
theorem run_filter (ops : List (TableOp P I E)) (i : I) {t t' : Table P I E}
    (h : ∀ p, t p i = t' p i) (p : P) :
    run ops t p i = run (ops.filter fun op => op.id = i) t' p i := by
  induction ops generalizing t t' with
  | nil => exact h p
  | cons op ops ih =>
    by_cases hop : op.id = i
    · rw [List.filter_cons_of_pos (by simpa using hop), run_cons, run_cons]
      exact ih (apply_congr op h)
    · rw [List.filter_cons_of_neg (by simpa using hop), run_cons]
      exact ih fun q => (apply_of_id_ne hop t q).trans (h q)

/-- Histories with the same operations for every identity, in the same order, leave one table. -/
theorem run_eq_of_filter_eq {ops ops' : List (TableOp P I E)}
    (h : ∀ i, (ops.filter fun op => op.id = i) = ops'.filter fun op => op.id = i)
    (table : Table P I E) : run ops table = run ops' table := by
  funext p i
  rw [run_filter ops i (fun _ => rfl), h i, ← run_filter ops' i (fun _ => rfl)]

/-- The operation neither drops the identity `i` nor puts an entry of it at `p`. -/
def Keeps (p : P) (i : I) (op : TableOp P I E) : Prop :=
  match op with
  | .put q j _ => ¬(q = p ∧ j = i)
  | .drop j => j ≠ i
  | .update _ _ => True

/-- What the operation makes of an entry of `i` that it keeps. -/
def changed (i : I) (op : TableOp P I E) (entry : E) : E :=
  match op with
  | .update j change => if j = i then change entry else entry
  | _ => entry

omit [DecidableEq P] [DecidableEq I] in
theorem keeps_update (p : P) (i j : I) (change : E → E) :
    Keeps p i (.update j change : TableOp P I E) := trivial

theorem apply_of_keeps {op : TableOp P I E} {p : P} {i : I} (h : op.Keeps p i) (t : Table P I E) :
    op.apply t p i = (t p i).map (op.changed i) := by
  cases op with
  | put q j e =>
    have hne : ¬(p = q ∧ i = j) := fun hp => h ⟨hp.1.symm, hp.2.symm⟩
    cases ht : t p i <;> simp [apply, changed, ht, hne]
  | drop j =>
    have hne : i ≠ j := fun hi => h hi.symm
    cases ht : t p i <;> simp [apply, changed, ht, hne]
  | update j change =>
    by_cases hj : i = j
    · subst hj
      cases ht : t p i <;> simp [apply, changed, ht]
    · cases ht : t p i <;> simp [apply, changed, ht, hj, Ne.symm hj]

/-- An entry after an operation was there before, unless the operation has put it. -/
theorem isSome_of_apply {op : TableOp P I E} {t : Table P I E} {p : P} {i : I}
    (h : (op.apply t p i).isSome) (hput : ∀ e, op ≠ .put p i e) : (t p i).isSome := by
  cases op with
  | put q j e =>
    have hne : ¬(p = q ∧ i = j) := by
      rintro ⟨rfl, rfl⟩
      exact hput e rfl
    simpa [apply, hne] using h
  | drop j =>
    simp only [apply] at h
    split at h
    · cases h
    · exact h
  | update j change =>
    simp only [apply] at h
    split at h
    · simpa using h
    · exact h

/-- An entry of the table is one that was put and kept since, with the changes made since. -/
theorem run_eq_some {ops : List (TableOp P I E)} {p : P} {i : I} {e : E}
    (h : run ops empty p i = some e) :
    ∃ pre e₀ post, ops = pre ++ .put p i e₀ :: post ∧ (∀ op ∈ post, op.Keeps p i) ∧
      e = post.foldl (fun e op => op.changed i e) e₀ := by
  induction ops using List.reverseRecOn generalizing e with
  | nil => simp [empty] at h
  | append_singleton ops op ih =>
    rw [run_concat] at h
    by_cases hk : op.Keeps p i
    · rw [apply_of_keeps hk, Option.map_eq_some_iff] at h
      obtain ⟨e₁, h₁, rfl⟩ := h
      obtain ⟨pre, e₀, post, rfl, hpost, rfl⟩ := ih h₁
      refine ⟨pre, e₀, post ++ [op], by simp, fun op' hop' => ?_, by simp⟩
      rcases List.mem_append.mp hop' with hop' | hop'
      · exact hpost op' hop'
      · rw [List.mem_singleton.mp hop']; exact hk
    · cases op with
      | put q j e' =>
        obtain ⟨rfl, rfl⟩ : q = p ∧ j = i := not_not.mp hk
        simp only [apply, and_self, if_true, Option.some.injEq] at h
        subst h
        exact ⟨ops, e', [], rfl, by simp, rfl⟩
      | drop j =>
        obtain rfl : j = i := not_not.mp hk
        simp [apply] at h
      | update j change => exact absurd (keeps_update p i j change) hk

/-- An entry that was put and not dropped since is in the table. -/
theorem run_isSome_of_put {pre post : List (TableOp P I E)} {p : P} {i : I} {e₀ : E}
    (h : ∀ op ∈ post, op ≠ .drop i) (t : Table P I E) :
    (run (pre ++ .put p i e₀ :: post) t p i).isSome := by
  rw [run_append, run_cons]
  have hput : (((TableOp.put p i e₀ : TableOp P I E).apply (run pre t)) p i).isSome := by
    simp [apply]
  revert hput
  generalize (TableOp.put p i e₀ : TableOp P I E).apply (run pre t) = t'
  intro hput
  induction post generalizing t' with
  | nil => exact hput
  | cons op post ih =>
    rw [run_cons]
    refine ih (fun op' hop => h op' (List.mem_cons_of_mem _ hop)) _ ?_
    cases op with
    | put q j e => simp only [apply]; split <;> simp [hput]
    | drop j =>
      have hj : i ≠ j := fun hij => h (.drop j) List.mem_cons_self (by rw [hij])
      simpa [apply, hj] using hput
    | update j change => simp only [apply]; split <;> simp [hput]

end TableOp

end StateProxy.ProofKit
