import StateProxy.ProofKit.TwoRuns

/-! Programs whose channel may close while they run.  A program interrupts cleanly when its run over a
channel that accepts only some number of events is a run over a channel that stays, cut off at the first
event that is not accepted: it sends the same events up to there, and when all of them are accepted the
two runs end alike.  Each rule follows one way in which a program is built. -/

namespace StateProxy.ProofKit

/-- Where a state keeps the sending half of a channel. -/
structure Outlet (σ τ : Type) where
  sender : σ → Sender τ
  put : σ → Sender τ → σ
  sender_put : ∀ s channel, sender (put s channel) = channel
  put_put : ∀ s channel channel', put (put s channel) channel' = put s channel'

attribute [simp] Outlet.sender_put Outlet.put_put

/-- The same result in another state. -/
def changeState {ε σ α : Type} (g : σ → σ) : EStateM.Result ε σ α → EStateM.Result ε σ α
  | .ok a s => .ok a (g s)
  | .error e s => .error e (g s)

namespace Outlet

variable {ε σ τ α β : Type} (outlet : Outlet σ τ) (closed : ε → Prop)

/-- The state with a channel that accepts only some number of further events. -/
def limit (n : Nat) (s : σ) : σ :=
  outlet.put s ⟨(outlet.sender s).sent, some n⟩

/-- The program, when it runs from `s` on, sends the same events over a channel that accepts only some
number of them, and stops because of the channel at the first one that is not accepted. -/
def Interrupts (x : EStateM ε σ α) (s : σ) : Prop :=
  ∃ events, outlet.sender (finalState (x s)) = ⟨(outlet.sender s).sent ++ events, none⟩ ∧
    ∀ n, (events.length ≤ n →
        x (outlet.limit n s) = changeState (outlet.limit (n - events.length)) (x s)) ∧
      (n < events.length → ∃ e s', x (outlet.limit n s) = .error e s' ∧ closed e ∧
        outlet.sender s' = ⟨(outlet.sender s).sent ++ events.take n, some 0⟩)

/-- Sends one event over the channel of the state; `e` is the error when the receiver has been
dropped. -/
def send (e : ε) (event : τ) : EStateM ε σ Unit := fun s =>
  match (outlet.sender s).send event with
  | none => .error e s
  | some channel => .ok () (outlet.put s channel)

variable {outlet closed} {x : EStateM ε σ α} {f : α → EStateM ε σ β} {s : σ}

namespace Interrupts

/-- A program that sends nothing and does not look at the channel. -/
theorem of_quiet (hsender : outlet.sender (finalState (x s)) = ⟨(outlet.sender s).sent, none⟩)
    (hsame : ∀ n, x (outlet.limit n s) = changeState (outlet.limit n) (x s)) :
    outlet.Interrupts closed x s := by
  refine ⟨[], by rw [hsender, List.append_nil], fun n => ⟨fun _ => hsame n, fun h => ?_⟩⟩
  exact (Nat.not_lt_zero n h).elim

theorem pure (hstays : (outlet.sender s).remaining = none) (a : α) :
    outlet.Interrupts closed (Pure.pure a) s := by
  refine of_quiet ?_ fun _ => rfl
  change outlet.sender s = _
  rw [← hstays]

theorem throw (hstays : (outlet.sender s).remaining = none) (e : ε) :
    outlet.Interrupts closed (throw e : EStateM ε σ α) s := by
  refine of_quiet ?_ fun _ => rfl
  change outlet.sender s = _
  rw [← hstays]

/-- A program that begins by reading what does not depend on the channel. -/
theorem get {g : σ → EStateM ε σ β} (hsame : ∀ n, g (outlet.limit n s) = g s)
    (h : outlet.Interrupts closed (g s) s) : outlet.Interrupts closed (MonadState.get >>= g) s := by
  obtain ⟨events, hsender, hlimited⟩ := h
  refine ⟨events, hsender, fun n => ?_⟩
  have hread : (MonadState.get >>= g) (outlet.limit n s) = g s (outlet.limit n s) :=
    congrFun (hsame n) _
  rw [hread]
  exact hlimited n

theorem send {e : ε} (hclosed : closed e) (hstays : (outlet.sender s).remaining = none) (event : τ) :
    outlet.Interrupts closed (outlet.send e event) s := by
  have hopen : outlet.send e event s =
      .ok () (outlet.put s ⟨(outlet.sender s).sent ++ [event], none⟩) := by
    simp only [Outlet.send, Sender.send_of_stays hstays]
  refine ⟨[event], by rw [hopen]; exact outlet.sender_put _ _, fun n => ⟨fun h => ?_, fun h => ?_⟩⟩
  · obtain ⟨k, rfl⟩ := Nat.exists_eq_add_of_le' h
    rw [hopen]
    simp [Outlet.send, limit, Sender.send, changeState]
  · obtain rfl : n = 0 := by simpa using h
    refine ⟨e, outlet.limit 0 s, ?_, hclosed, by simp [limit]⟩
    simp [Outlet.send, limit, Sender.send]

/-- The rule of a sequence: the channel still stays when the first part returns. -/
theorem bind (hx : outlet.Interrupts closed x s)
    (hf : ∀ a s', (outlet.sender s').remaining = none → outlet.Interrupts closed (f a) s') :
    outlet.Interrupts closed (x >>= f) s := by
  obtain ⟨events, hsender, hlimited⟩ := hx
  have hbind : ∀ s, (x >>= f) s = EStateM.bind x f s := fun _ => rfl
  cases hr : x s with
  | error e s' =>
    rw [hr] at hsender hlimited
    have hstop : (x >>= f) s = .error e s' := by rw [hbind, EStateM.bind, hr]
    refine ⟨events, by rw [hstop]; exact hsender, fun n => ⟨fun h => ?_, fun h => ?_⟩⟩
    · rw [hstop, hbind, EStateM.bind, (hlimited n).1 h]
      rfl
    · obtain ⟨e', s'', herror, hclosed, hcut⟩ := (hlimited n).2 h
      exact ⟨e', s'', by rw [hbind, EStateM.bind, herror], hclosed, hcut⟩
  | ok a s' =>
    rw [hr] at hsender hlimited
    obtain ⟨more, hsender', hlimited'⟩ := hf a s' (congrArg Sender.remaining hsender)
    have hnext : (x >>= f) s = f a s' := bind_of_ok hr
    have hsent : (outlet.sender s').sent = (outlet.sender s).sent ++ events :=
      congrArg Sender.sent hsender
    rw [hsent, List.append_assoc] at hsender'
    refine ⟨events ++ more, by rw [hnext]; exact hsender', fun n => ⟨fun h => ?_, fun h => ?_⟩⟩
    · rw [List.length_append] at h ⊢
      have hfirst : x (outlet.limit n s) = .ok a (outlet.limit (n - events.length) s') :=
        (hlimited n).1 (by omega)
      rw [hnext, bind_of_ok hfirst, (hlimited' _).1 (by omega), Nat.sub_sub]
    · rw [List.length_append] at h
      by_cases hcut : n < events.length
      · obtain ⟨e, s'', herror, hclosed, hsent'⟩ := (hlimited n).2 hcut
        refine ⟨e, s'', by rw [hbind, EStateM.bind, herror], hclosed, ?_⟩
        rw [hsent', List.take_append_of_le_length (by omega)]
      · have hfirst : x (outlet.limit n s) = .ok a (outlet.limit (n - events.length) s') :=
          (hlimited n).1 (by omega)
        obtain ⟨e, s'', herror, hclosed, hsent'⟩ := (hlimited' (n - events.length)).2 (by omega)
        refine ⟨e, s'', by rw [bind_of_ok hfirst]; exact herror, hclosed, ?_⟩
        rw [hsent', hsent, List.take_append,
          List.take_of_length_le (not_lt.mp hcut), List.append_assoc]

/-- What is sent over a channel that accepts only some number of events. -/
theorem sent_limit (h : outlet.Interrupts closed x s) : ∃ events,
    (outlet.sender (finalState (x s))).sent = (outlet.sender s).sent ++ events ∧ ∀ n,
      (outlet.sender (finalState (x (outlet.limit n s)))).sent =
        (outlet.sender s).sent ++ events.take n := by
  obtain ⟨events, hsender, hlimited⟩ := h
  refine ⟨events, congrArg Sender.sent hsender, fun n => ?_⟩
  by_cases hall : events.length ≤ n
  · have hput : ∀ k, (outlet.sender (finalState (changeState (outlet.limit k) (x s)))).sent =
        (outlet.sender (finalState (x s))).sent := by
      intro k
      cases x s <;> simp [changeState, finalState, limit]
    rw [(hlimited n).1 hall, hput, hsender, List.take_of_length_le hall]
  · obtain ⟨e, s', herror, -, hcut⟩ := (hlimited n).2 (by omega)
    rw [herror]
    exact congrArg Sender.sent hcut

end Interrupts

end Outlet

end StateProxy.ProofKit
