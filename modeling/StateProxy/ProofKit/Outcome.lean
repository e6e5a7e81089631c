import Mathlib.Data.Finmap

/-! Programs over a state that either return or stop early, the sending half of a channel as one
such program sees it, and bounded channels whose two ends different tasks use.  A program is an
`EStateM`: when it stops early, the state it had reached stays, as it does when a function returns
an error half way or a task unwinds after a panic. -/

namespace StateProxy.ProofKit

section Programs

variable {ε σ α β : Type} {x : EStateM ε σ α} {f : α → EStateM ε σ β} {s s' : σ} {b : β} {e : ε}

theorem bind_ok : (x >>= f) s = .ok b s' ↔ ∃ a s₁, x s = .ok a s₁ ∧ f a s₁ = .ok b s' := by
  change EStateM.bind x f s = _ ↔ _
  unfold EStateM.bind
  cases x s <;> simp

theorem bind_error : (x >>= f) s = .error e s' ↔
    x s = .error e s' ∨ ∃ a s₁, x s = .ok a s₁ ∧ f a s₁ = .error e s' := by
  change EStateM.bind x f s = _ ↔ _
  unfold EStateM.bind
  cases x s <;> simp

theorem bind_of_ok {a : α} {s₁ : σ} (h : x s = .ok a s₁) : (x >>= f) s = f a s₁ := by
  change EStateM.bind x f s = _
  unfold EStateM.bind
  rw [h]

@[simp] theorem pure_ok {a a' : α} : (pure a : EStateM ε σ α) s = .ok a' s' ↔ a = a' ∧ s = s' := by
  change EStateM.Result.ok a s = EStateM.Result.ok a' s' ↔ _
  rw [EStateM.Result.ok.injEq]

end Programs

/-- The results of a partial function on a list are those of its elements. -/
theorem mem_of_mapM {α β : Type} {f : α → Option β} {xs : List α} {ys : List β}
    (h : xs.mapM f = some ys) :
    (∀ y ∈ ys, ∃ x ∈ xs, f x = some y) ∧ ∀ x ∈ xs, ∃ y ∈ ys, f x = some y := by
  induction xs generalizing ys with
  | nil =>
    rw [List.mapM_nil] at h
    cases h
    simp
  | cons x xs ih =>
    rw [List.mapM_cons] at h
    obtain ⟨y, hy, h⟩ := Option.bind_eq_some_iff.mp h
    obtain ⟨ys, hys, h⟩ := Option.bind_eq_some_iff.mp h
    cases h
    obtain ⟨hfrom, hto⟩ := ih hys
    constructor
    · intro y' hy'
      rcases List.mem_cons.mp hy' with rfl | hy'
      · exact ⟨x, List.mem_cons_self, hy⟩
      · obtain ⟨x', hx', hf⟩ := hfrom y' hy'
        exact ⟨x', List.mem_cons_of_mem _ hx', hf⟩
    · intro x' hx'
      rcases List.mem_cons.mp hx' with rfl | hx'
      · exact ⟨y, List.mem_cons_self, hy⟩
      · obtain ⟨y', hy', hf⟩ := hto x' hx'
        exact ⟨y', List.mem_cons_of_mem _ hy', hf⟩

/-- What a partial function gives on the elements of a list before the first one that it is not defined
on, if there is one. -/
def beforeFailure {α β : Type} (f : α → Option β) : List α → Option (List β)
  | [] => none
  | x :: xs =>
    match f x with
    | none => some []
    | some y => (beforeFailure f xs).map (y :: ·)

theorem beforeFailure_eq_some {α β : Type} {f : α → Option β} {xs : List α} {ys : List β} :
    beforeFailure f xs = some ys ↔
      ∃ before x after, xs = before ++ x :: after ∧ before.mapM f = some ys ∧ f x = none := by
  induction xs generalizing ys with
  | nil => simp [beforeFailure]
  | cons x xs ih =>
    cases hx : f x with
    | none =>
      simp only [beforeFailure, hx, Option.some.injEq]
      constructor
      · rintro rfl
        exact ⟨[], x, xs, rfl, List.mapM_nil, hx⟩
      · rintro ⟨_ | ⟨x', before⟩, bad, after, heq, hbefore, -⟩
        · rw [List.mapM_nil] at hbefore
          exact Option.some.inj hbefore
        · obtain ⟨rfl, -⟩ := List.cons.inj heq
          simp [List.mapM_cons, hx] at hbefore
    | some y =>
      simp only [beforeFailure, hx, Option.map_eq_some_iff, ih]
      constructor
      · rintro ⟨ys, ⟨before, bad, after, rfl, hbefore, hbad⟩, rfl⟩
        exact ⟨x :: before, bad, after, rfl, by simp [List.mapM_cons, hx, hbefore], hbad⟩
      · rintro ⟨_ | ⟨x', before⟩, bad, after, heq, hbefore, hbad⟩
        · obtain ⟨rfl, -⟩ := List.cons.inj heq
          rw [hx] at hbad
          cases hbad
        · obtain ⟨rfl, rfl⟩ := List.cons.inj heq
          rw [List.mapM_cons, hx] at hbefore
          obtain ⟨_, heq', hbefore⟩ := Option.bind_eq_some_iff.mp hbefore
          obtain ⟨ys', hys', hbefore⟩ := Option.bind_eq_some_iff.mp hbefore
          cases heq'
          cases hbefore
          exact ⟨ys', ⟨before, bad, after, rfl, hys', hbad⟩, rfl⟩

theorem beforeFailure_eq_none {α β : Type} {f : α → Option β} {xs : List α} :
    beforeFailure f xs = none ↔ ∃ ys, xs.mapM f = some ys := by
  induction xs with
  | nil => simp [beforeFailure]
  | cons x xs ih =>
    cases hx : f x with
    | none => simp [beforeFailure, hx, List.mapM_cons]
    | some y =>
      simp only [beforeFailure, hx, Option.map_eq_none_iff, ih, List.mapM_cons]
      constructor
      · rintro ⟨ys, hys⟩
        exact ⟨y :: ys, by simp [hys]⟩
      · rintro ⟨ys, hys⟩
        obtain ⟨_, -, hys⟩ := Option.bind_eq_some_iff.mp hys
        obtain ⟨ys', hys', -⟩ := Option.bind_eq_some_iff.mp hys
        exact ⟨ys', hys'⟩

/-- The sending half of a channel: the events it has accepted, in order, and the number of further
events it accepts before its receiver is dropped, `none` for a receiver that stays. -/
structure Sender (α : Type) where
  sent : List α
  remaining : Option Nat
deriving DecidableEq

namespace Sender

variable {α : Type}

/-- The sending half of a new channel whose receiver stays. -/
def new : Sender α := ⟨[], none⟩

/-- Sends one event; `none` when the receiver has been dropped. -/
def send (sender : Sender α) (event : α) : Option (Sender α) :=
  match sender.remaining with
  | none => some ⟨sender.sent ++ [event], none⟩
  | some 0 => none
  | some (n + 1) => some ⟨sender.sent ++ [event], some n⟩

theorem send_sent {sender sender' : Sender α} {event : α} (h : sender.send event = some sender') :
    sender'.sent = sender.sent ++ [event] := by
  unfold send at h
  split at h <;> simp_all
  all_goals subst h; rfl

/-- A channel whose receiver stays accepts every event. -/
theorem send_of_stays {sender : Sender α} (h : sender.remaining = none) (event : α) :
    sender.send event = some ⟨sender.sent ++ [event], none⟩ := by
  unfold send
  rw [h]

/-- Sends a list of events; `none` when one of them finds the receiver dropped. -/
def sendAll (sender : Sender α) (events : List α) : Option (Sender α) :=
  events.foldlM send sender

theorem sendAll_append (sender : Sender α) (events more : List α) :
    sender.sendAll (events ++ more) = (sender.sendAll events).bind (sendAll · more) :=
  List.foldlM_append

theorem sendAll_sent {sender sender' : Sender α} {events : List α}
    (h : sender.sendAll events = some sender') : sender'.sent = sender.sent ++ events := by
  induction events generalizing sender with
  | nil =>
    cases h
    rw [List.append_nil]
  | cons event events ih =>
    obtain ⟨next, hsend, h⟩ := Option.bind_eq_some_iff.mp h
    rw [ih h, send_sent hsend, List.append_assoc]
    rfl

/-- A channel whose receiver stays accepts every list of events. -/
theorem sendAll_of_stays {sender : Sender α} (h : sender.remaining = none) (events : List α) :
    sender.sendAll events = some ⟨sender.sent ++ events, none⟩ := by
  induction events generalizing sender with
  | nil =>
    obtain ⟨sent, remaining⟩ := sender
    cases h
    rw [List.append_nil]
    rfl
  | cons event events ih =>
    have hsend := send_of_stays h event
    have hrest : (⟨sender.sent ++ [event], none⟩ : Sender α).sendAll events =
        some ⟨sender.sent ++ [event] ++ events, none⟩ := ih rfl
    rw [List.append_assoc] at hrest
    exact Option.bind_eq_some_iff.mpr ⟨_, hsend, hrest⟩

end Sender

/-- A bounded first-in first-out channel: the events its receiver has taken, and those in its
buffer. -/
structure Channel (α : Type) where
  capacity : Nat
  positive : 0 < capacity
  received : List α
  buffer : List α
  bounded : buffer.length ≤ capacity
  receiverAlive : Bool

namespace Channel

variable {α : Type}

def new (capacity : Nat) (positive : 0 < capacity) : Channel α :=
  ⟨capacity, positive, [], [], Nat.zero_le _, true⟩

/-- Puts an event into the buffer, unless it is full. -/
def push (channel : Channel α) (event : α) : Option (Channel α) :=
  if h : channel.buffer.length < channel.capacity then
    some { channel with
      buffer := channel.buffer ++ [event]
      bounded := by rw [List.length_append, List.length_singleton]; omega }
  else none

/-- Takes the first event out of the buffer. -/
def receive (channel : Channel α) : Option (Channel α) :=
  match h : channel.buffer with
  | [] => none
  | event :: rest =>
    some { channel with
      received := channel.received ++ [event]
      buffer := rest
      bounded := by have := channel.bounded; rw [h, List.length_cons] at this; omega }

def dropReceiver (channel : Channel α) : Channel α :=
  { channel with receiverAlive := false }

/-- Everything that was sent: what the receiver has taken and what it will take next. -/
def log (channel : Channel α) : List α :=
  channel.received ++ channel.buffer

theorem push_some {channel channel' : Channel α} {event : α}
    (h : channel.push event = some channel') :
    channel'.log = channel.log ++ [event] ∧ channel'.receiverAlive = channel.receiverAlive := by
  unfold push at h
  split at h
  · cases h
    exact ⟨(List.append_assoc _ _ _).symm, rfl⟩
  · cases h

theorem receive_some {channel channel' : Channel α} (h : channel.receive = some channel') :
    channel'.log = channel.log ∧ channel'.receiverAlive = channel.receiverAlive := by
  unfold receive at h
  split at h
  · cases h
  · rename_i event rest hbuffer
    cases h
    exact ⟨by simp [log, hbuffer], rfl⟩

theorem push_fields {channel channel' : Channel α} {event : α}
    (h : channel.push event = some channel') :
    channel'.received = channel.received ∧ channel'.buffer = channel.buffer ++ [event] := by
  unfold push at h
  split at h
  · cases h
    exact ⟨rfl, rfl⟩
  · cases h

theorem receive_fields {channel channel' : Channel α} (h : channel.receive = some channel') :
    ∃ event, channel.buffer = event :: channel'.buffer ∧
      channel'.received = channel.received ++ [event] := by
  unfold receive at h
  split at h
  · cases h
  · rename_i event rest hbuffer
    cases h
    exact ⟨event, hbuffer, rfl⟩

theorem receive_of_ne_nil {channel : Channel α} (h : channel.buffer ≠ []) :
    ∃ channel', channel.receive = some channel' := by
  refine Option.isSome_iff_exists.mp ?_
  unfold receive
  split
  · rename_i hbuffer
    exact (h hbuffer).elim
  · rfl

/-- A full channel has an event to receive. -/
theorem push_or_receive (channel : Channel α) (event : α) :
    (channel.push event).isSome ∨ channel.receive.isSome := by
  by_cases h : channel.buffer.length < channel.capacity
  · exact .inl (by simp [push, h])
  · right
    have hpositive := channel.positive
    unfold receive
    split
    · rename_i hbuffer
      rw [hbuffer, List.length_nil] at h
      omega
    · rfl

end Channel

end StateProxy.ProofKit
