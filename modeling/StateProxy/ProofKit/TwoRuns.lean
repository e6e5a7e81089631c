import StateProxy.ProofKit.Outcome

/-! Two runs side by side.  Two results are alike when both programs returned the same value or both
stopped, in related states; each rule follows one way in which a program is built. -/

namespace StateProxy.ProofKit

variable {ε σ α β : Type}

/-- The state in which a program ends, whether it returns or stops. -/
def finalState : EStateM.Result ε σ α → σ
  | .ok _ s => s
  | .error _ s => s

/-- Both programs return the same value or both stop, in related states. -/
def Alike (R : σ → σ → Prop) : EStateM.Result ε σ α → EStateM.Result ε σ α → Prop
  | .ok a s, .ok b t => a = b ∧ R s t
  | .error _ s, .error _ t => R s t
  | _, _ => False

namespace Alike

variable {R : σ → σ → Prop} {s t : σ}

theorem finalState {p q : EStateM.Result ε σ α} (h : Alike R p q) :
    R (ProofKit.finalState p) (ProofKit.finalState q) := by
  cases p <;> cases q
  · exact h.2
  · exact h.elim
  · exact h.elim
  · exact h

theorem pure (a : α) (h : R s t) :
    Alike R ((Pure.pure a : EStateM ε σ α) s) ((Pure.pure a : EStateM ε σ α) t) :=
  ⟨rfl, h⟩

theorem throw (e e' : ε) (h : R s t) :
    Alike R ((throw e : EStateM ε σ α) s) ((throw e' : EStateM ε σ α) t) :=
  h

/-- The rule of a sequence. -/
theorem bind_returns {x y : EStateM ε σ α} {f g : α → EStateM ε σ β} (hx : Alike R (x s) (y t))
    (hf : ∀ a s' t', x s = .ok a s' → y t = .ok a t' → R s' t' → Alike R (f a s') (g a t')) :
    Alike R ((x >>= f) s) ((y >>= g) t) := by
  change Alike R (EStateM.bind x f s) (EStateM.bind y g t)
  unfold EStateM.bind
  cases hxs : x s <;> cases hyt : y t <;> rw [hxs, hyt] at hx
  · obtain ⟨rfl, hrelated⟩ := hx
    exact hf _ _ _ hxs hyt hrelated
  · exact hx.elim
  · exact hx.elim
  · exact hx

theorem bind {x y : EStateM ε σ α} {f g : α → EStateM ε σ β} (hx : Alike R (x s) (y t))
    (hf : ∀ a s' t', R s' t' → Alike R (f a s') (g a t')) :
    Alike R ((x >>= f) s) ((y >>= g) t) :=
  hx.bind_returns fun a s' t' _ _ h => hf a s' t' h

/-- A program that begins by reading its state. -/
theorem get {f g : σ → EStateM ε σ β} (h : Alike R (f s s) (g t t)) :
    Alike R ((MonadState.get >>= f) s) ((MonadState.get >>= g) t) :=
  h

end Alike

end StateProxy.ProofKit
