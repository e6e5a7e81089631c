import StateProxy.ProofKit.Map
import StateProxy.ProofKit.Outcome

/-! Calls that a caller makes one after another on the same state, whatever they return, and the
registries that such calls fill: maps in which the first value of a name stays and a second one is
rejected.  An invariant that relates the state to the calls made so far, and an answer that each call
gives where the invariant holds, give the answers and the state of every sequence of calls. -/

namespace StateProxy.ProofKit

section Calls

variable {ε σ α A : Type}

/-- What a call returns, and the state that it leaves. -/
def outcome : EStateM.Result ε σ α → Except ε α × σ
  | .ok a s => (.ok a, s)
  | .error e s => (.error e, s)

/-- The answers of the calls, and the state after the last. -/
def callAll (call : A → EStateM ε σ α) : List A → σ → List (Except ε α) × σ
  | [], s => ([], s)
  | a :: as, s =>
    let (answer, s) := outcome (call a s)
    let (answers, s) := callAll call as s
    (answer :: answers, s)

variable {call : A → EStateM ε σ α}

theorem callAll_append (before after : List A) (s : σ) :
    callAll call (before ++ after) s =
      ((callAll call before s).1 ++ (callAll call after (callAll call before s).2).1,
        (callAll call after (callAll call before s).2).2) := by
  induction before generalizing s with
  | nil => rfl
  | cons a before ih => simp only [List.cons_append, callAll, ih]

theorem length_callAll (as : List A) (s : σ) : (callAll call as s).1.length = as.length := by
  induction as generalizing s with
  | nil => rfl
  | cons a as ih => simp only [callAll, List.length_cons, ih]

/-- Where the invariant holds of the calls so far and the state, a call gives its answer, and the
invariant holds with the call. -/
def Answers (call : A → EStateM ε σ α) (Inv : List A → σ → Prop)
    (answer : List A → A → Except ε α) : Prop :=
  ∀ before a s, Inv before s →
    (outcome (call a s)).1 = answer before a ∧ Inv (before ++ [a]) (outcome (call a s)).2

variable {Inv : List A → σ → Prop} {answer : List A → A → Except ε α} {s : σ}

theorem Answers.invariant (answers : Answers call Inv answer) (h : Inv [] s) (as : List A) :
    Inv as (callAll call as s).2 := by
  induction as using List.reverseRecOn with
  | nil => exact h
  | append_singleton before a ih =>
    rw [callAll_append]
    exact (answers before a _ ih).2

/-- Every call of a sequence gives the answer that the calls before it decide. -/
theorem Answers.getElem? (answers : Answers call Inv answer) (h : Inv [] s) {as before after : List A}
    {a : A} (has : as = before ++ a :: after) :
    (callAll call as s).1[before.length]? = some (answer before a) := by
  have hfirst := (answers before a _ (answers.invariant h before)).1
  have hlength : (callAll call before s).1.length = before.length := length_callAll before s
  rw [has, callAll_append, ← hlength, List.getElem?_append_right (Nat.le_refl _), Nat.sub_self, ← hfirst]
  rfl

end Calls

section Registries

variable {K V : Type} [DecidableEq K]

/-- The registry holds, for every name, the first of the entries with the name. -/
def FirstOf (entries : List (K × V)) (map : HashMap K V) : Prop :=
  ∀ name, map.lookup name = (entries.find? (·.1 = name)).map (·.2)

theorem FirstOf.empty : FirstOf [] (∅ : HashMap K V) :=
  fun name => Finmap.lookup_empty name

theorem FirstOf.lookup_eq_none {entries : List (K × V)} {map : HashMap K V} (h : FirstOf entries map)
    (name : K) : map.lookup name = none ↔ name ∉ entries.map (·.1) := by
  rw [h, Option.map_eq_none_iff, List.find?_eq_none]
  simp only [decide_eq_true_eq, List.mem_map, not_exists, not_and]

theorem FirstOf.insert {entries : List (K × V)} {map : HashMap K V} (h : FirstOf entries map)
    {name : K} (hfree : map.lookup name = none) (value : V) :
    FirstOf (entries ++ [(name, value)]) (map.insert name value) := by
  intro other
  rw [List.find?_append, Option.map_or, ← h, lookup_insert_eq]
  by_cases heq : other = name
  · subst heq
    simp [hfree]
  · simp [heq, Ne.symm heq]

theorem FirstOf.keep {entries : List (K × V)} {map : HashMap K V} (h : FirstOf entries map)
    {name : K} (htaken : map.lookup name ≠ none) (value : V) :
    FirstOf (entries ++ [(name, value)]) map := by
  obtain ⟨held, hheld⟩ := Option.ne_none_iff_exists'.mp htaken
  intro other
  rw [List.find?_append, Option.map_or, ← h]
  by_cases heq : other = name
  · subst heq
    simp [hheld]
  · simp [Ne.symm heq]

variable {ε σ A : Type} {call : A → EStateM ε σ Unit} {map : σ → HashMap K V}
  {put : σ → HashMap K V → σ} {name : A → K} {value : A → V} {rejection : A → ε}

/-- The call enters its value under its name, or leaves the state as it is when the name is taken. -/
structure Registers (call : A → EStateM ε σ Unit) (map : σ → HashMap K V) (put : σ → HashMap K V → σ)
    (name : A → K) (value : A → V) (rejection : A → ε) : Prop where
  map_put : ∀ s entries, map (put s entries) = entries
  free : ∀ a s, (map s).lookup (name a) = none →
    call a s = .ok () (put s ((map s).insert (name a) (value a)))
  taken : ∀ a s, (map s).lookup (name a) ≠ none → call a s = .error (rejection a) s

theorem Registers.outcome_cases (registers : Registers call map put name value rejection) (a : A)
    (s : σ) :
    ((map s).lookup (name a) = none ∧
      outcome (call a s) = (.ok (), put s ((map s).insert (name a) (value a)))) ∨
    ((map s).lookup (name a) ≠ none ∧ outcome (call a s) = (.error (rejection a), s)) := by
  by_cases hlookup : (map s).lookup (name a) = none
  · exact .inl ⟨hlookup, by rw [registers.free a s hlookup, outcome]⟩
  · exact .inr ⟨hlookup, by rw [registers.taken a s hlookup, outcome]⟩

/-- A call, accepted or rejected, is one more entry. -/
theorem Registers.firstOf (registers : Registers call map put name value rejection)
    {entries : List (K × V)} {s : σ} (h : FirstOf entries (map s)) (a : A) :
    FirstOf (entries ++ [(name a, value a)]) (map (outcome (call a s)).2) := by
  rcases registers.outcome_cases a s with ⟨hfree, hcall⟩ | ⟨htaken, hcall⟩
  · rw [hcall]
    dsimp only
    rw [registers.map_put]
    exact h.insert hfree (value a)
  · rw [hcall]
    exact h.keep htaken (value a)

theorem Registers.answers (registers : Registers call map put name value rejection) :
    Answers call (fun before s => FirstOf (before.map fun a => (name a, value a)) (map s))
      (fun before a => if name a ∈ before.map name then .error (rejection a) else .ok ()) := by
  intro before a s hfirst
  have hfree : (map s).lookup (name a) = none ↔ name a ∉ before.map name := by
    rw [hfirst.lookup_eq_none, List.map_map]
    rfl
  have hnext := registers.firstOf hfirst a
  dsimp only
  rw [List.map_append]
  refine ⟨?_, hnext⟩
  rcases registers.outcome_cases a s with ⟨hlookup, hcall⟩ | ⟨hlookup, hcall⟩
  · rw [hcall, if_neg (hfree.mp hlookup)]
  · rw [hcall, if_pos (not_not.mp (mt hfree.mpr hlookup))]

/-- Of the calls of a sequence, the first of every name succeeds and the others are rejected. -/
theorem Registers.answer (registers : Registers call map put name value rejection) {s : σ}
    (hempty : map s = ∅) (before : List A) (a : A) (after : List A) :
    (callAll call (before ++ a :: after) s).1[before.length]? =
      some (if name a ∈ before.map name then .error (rejection a) else .ok ()) := by
  refine registers.answers.getElem? ?_ rfl
  rw [hempty]
  exact FirstOf.empty

/-- A sequence of calls leaves the value of the first call of every name. -/
theorem Registers.lookup (registers : Registers call map put name value rejection) {s : σ}
    (hempty : map s = ∅) (calls : List A) (key : K) :
    (map (callAll call calls s).2).lookup key = (calls.find? (name · = key)).map value := by
  have hnew : FirstOf ([].map fun a => (name a, value a)) (map s) := by
    rw [hempty]
    exact FirstOf.empty
  have hfirst := registers.answers.invariant hnew calls key
  rw [hfirst, List.find?_map, Option.map_map]
  rfl

end Registries

end StateProxy.ProofKit
