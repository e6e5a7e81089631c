import StateProxy.Backend.Discoveries
import StateProxy.ProofKit.Drain

/-! How much work the system has left.  The load of a task is what it has still to begin: its call, and
the events in the buffer of its listener.  Beside it there are the steps that the calls already begun
and the consumers have left.  Every step that the system takes by itself lowers the load, or else the
number of steps left. -/

namespace StateProxy.Backend

open Net ProofKit ServiceManager

namespace Call

/-- The load of a call that has not begun yet; a registration brings the load of a new listener. -/
def load : Call → Nat
  | .processEvent .. | .sendPortEventsTo _ | .getEndpointFor .. => 1
  | .registerEndpointDiscovery _ => 3
  | .lockMetrics _ => 2
  | _ => 0

/-- How many steps a call that has begun has left, with those of the consumer of its events. -/
def steps : Call → Nat
  | .openPort .. => 5
  | .closePorts ports => 2 * ports.length + 3
  | .sendEvent _ _ ports => 2 * ports.length + 4
  | .dropSender | .installed | .dropMetrics _ => 2
  | .dropMap _ | .gotEndpoint _ | .dropNames _ => 1
  | .sendOpen _ _ rest => 2 * rest.length + 6
  | .install _ => 3
  | _ => 0

end Call

/-- The load of the events in the buffer of a listener, and of its end. -/
def Listener.load (l : Listener) : Nat :=
  if l.ended = none then 2 * l.channel.buffer.length + 1 else 0

/-- The load of a task: its call and its listener. -/
def System.loadAt (system : System) (t : Nat) : Nat :=
  (system.config.calls t).load + (system.listeners t).elim 0 Listener.load

namespace Config

/-- The call has not begun to wait for the lock that it wants. -/
def Unqueued (config : Config) (t : Nat) : Prop :=
  ∃ l mode, (config.calls t).wants = some (l, mode) ∧ (t, mode) ∉ (config.locks l).queue

open Classical in
/-- How many steps a task has left. -/
noncomputable def stepsAt (config : Config) (t : Nat) : Nat :=
  (config.calls t).steps + if config.Unqueued t then 1 else 0

/-- How many events a consumer has left. -/
def bufferAt (config : Config) (c : Nat) : Nat :=
  (config.channels c).elim 0 fun channel => channel.buffer.length

/-- How many steps the calls in progress and the consumers have left. -/
noncomputable def remaining (config : Config) : Nat :=
  total config.stepsAt + total config.bufferAt

end Config

/-- Only finitely many calls are in progress, and only finitely many listeners and channels exist. -/
structure System.IsFinite (system : System) : Prop where
  calls : {t | system.config.calls t ≠ .finished}.Finite
  listeners : {t | system.listeners t ≠ none}.Finite
  channels : {c | system.config.channels c ≠ none}.Finite

section Points

variable (shared : Shared)

theorem closeServices_steps (ports : List UInt16) :
    (shared.closeServices ports).2.load = 0 ∧
      (shared.closeServices ports).2.steps ≤ 2 * ports.length + 2 ∧
      (shared.closeServices ports).2.wants = none := by
  induction ports generalizing shared with
  | nil => exact ⟨rfl, le_refl _, rfl⟩
  | cons port ports ih =>
    simp only [Shared.closeServices, List.length_cons]
    split
    · obtain ⟨hload, hsteps, hwants⟩ :=
        ih { shared with portServiceMap := shared.portServiceMap.erase port }
      exact ⟨hload, by omega, hwants⟩
    · exact ⟨rfl, by simp only [Call.steps]; omega, rfl⟩

/-- A call that gets a lock begins, or has fewer steps left. -/
theorem enter_lowers (orders : Orders) {call : Call} {l : LockName} {mode : Mode}
    (hwants : call.wants = some (l, mode)) :
    (shared.enter orders call).2.load + call.registering.toList.length < call.load ∨
      call.registering = none ∧ (shared.enter orders call).2.load = call.load ∧
      (shared.enter orders call).2.steps < call.steps ∧
      (shared.enter orders call).2.wants = none := by
  cases call with
  | processEvent discovery event =>
    left
    cases event with
    | add uid isAvailable port protocol address backendProtocol =>
      simp only [Shared.enter]
      split <;> exact Nat.zero_lt_one
    | delete uid => exact Nat.zero_lt_one
    | suspend uid => exact Nat.zero_lt_one
    | resume uid => exact Nat.zero_lt_one
  | openPort port protocol =>
    right
    simp only [Shared.enter]
    split <;> exact ⟨rfl, rfl, by simp [Call.steps], rfl⟩
  | closePorts ports =>
    right
    obtain ⟨hload, hsteps, hwants'⟩ := closeServices_steps shared ports
    exact ⟨rfl, hload, Nat.lt_of_le_of_lt hsteps (Nat.lt_succ_self _), hwants'⟩
  | sendPortEventsTo c =>
    left
    cases hevents : openEvents orders.ports shared.portServiceMap <;>
      simp [Shared.enter, hevents, Shared.sendNext, Call.load, Call.registering]
  | install c => exact .inr ⟨rfl, rfl, Nat.lt_succ_self 2, rfl⟩
  | getEndpointFor port index => exact .inl (by simp [Shared.enter, Call.load, Call.registering])
  | registerEndpointDiscovery name =>
    exact .inl (by simp [Shared.enter, Call.load, Call.registering])
  | lockMetrics name =>
    left
    simp only [Shared.enter]
    split <;> simp [Call.load, Call.registering]
  | _ => cases hwants

theorem sent_lowers {call : Call} {c : Nat} {event : PortEvent}
    (hsending : call.sending = some (c, event)) :
    call.load = 0 ∧ (shared.sent call).2.load = 0 ∧ (Shared.sendFailed call).load = 0 ∧
      (shared.sent call).2.steps + (if (shared.sent call).2.wants = none then 0 else 1) + 1 <
        call.steps ∧
      (Shared.sendFailed call).steps < call.steps ∧ (Shared.sendFailed call).wants = none := by
  obtain ⟨ports, rfl⟩ | ⟨rest, rfl⟩ := Call.sending_cases hsending
  · obtain ⟨hload, hsteps, hwants⟩ := closeServices_steps shared ports
    refine ⟨rfl, hload, rfl, ?_, by simp [Shared.sendFailed, Call.steps], rfl⟩
    change (shared.closeServices ports).2.steps +
      (if (shared.closeServices ports).2.wants = none then 0 else 1) + 1 < 2 * ports.length + 4
    rw [if_pos hwants]
    omega
  · refine ⟨rfl, ?_, rfl, ?_, by simp [Shared.sendFailed, Call.steps], rfl⟩
    · cases rest <;> rfl
    · cases rest with
      | nil => simp [Shared.sent, Shared.sendNext, Call.steps, Call.wants]
      | cons event rest =>
        simp only [Shared.sent, Shared.sendNext, Call.steps, Call.wants, if_true, List.length_cons]
        omega

theorem dropping_lowers {call next : Call} {l : LockName} (h : call.dropping = some (l, next)) :
    call.load = 0 ∧ next.load = 0 ∧ next.steps < call.steps ∧ next.wants = none := by
  cases call <;> cases h <;> exact ⟨rfl, rfl, by simp [Call.steps], rfl⟩

end Points

namespace Config

variable {config config' : Config}

theorem steps_le_stepsAt (config : Config) (t : Nat) :
    (config.calls t).steps ≤ config.stepsAt t :=
  Nat.le_add_right _ _

theorem stepsAt_le (config : Config) (t : Nat) :
    config.stepsAt t ≤
      (config.calls t).steps + if (config.calls t).wants = none then 0 else 1 := by
  unfold stepsAt
  split
  · rename_i hunqueued
    obtain ⟨l, mode, hwants, -⟩ := hunqueued
    simp [hwants]
  · omega

open Classical in
theorem stepsAt_eq {t : Nat} (hcall : config'.calls t = config.calls t)
    (hqueue : ∀ l mode, (t, mode) ∈ (config'.locks l).queue ↔ (t, mode) ∈ (config.locks l).queue) :
    config'.stepsAt t = config.stepsAt t := by
  have hunqueued : config'.Unqueued t ↔ config.Unqueued t := by
    simp only [Unqueued, hcall, hqueue]
  rw [stepsAt, stepsAt, hcall]
  exact congrArg _ (if_congr hunqueued rfl rfl)

theorem finite_stepsAt (h : {t | config.calls t ≠ .finished}.Finite) :
    {t | config.stepsAt t ≠ 0}.Finite := by
  refine h.subset fun t ht hfinished => ht ?_
  have hle := config.stepsAt_le t
  rw [hfinished] at hle
  exact Nat.le_zero.mp hle

theorem finite_bufferAt (h : {c | config.channels c ≠ none}.Finite) :
    {c | config.bufferAt c ≠ 0}.Finite := by
  refine h.subset fun c hc hnone => hc ?_
  rw [bufferAt, hnone]
  rfl

/-- What is left after a step of one task on one channel. -/
theorem remaining_change (hcalls : {t | config.calls t ≠ .finished}.Finite)
    (hchannels : {c | config.channels c ≠ none}.Finite) (t c : Nat)
    (hothers : ∀ t', t' ≠ t → config'.calls t' = config.calls t')
    (hqueue : ∀ t', t' ≠ t → ∀ l mode,
      (t', mode) ∈ (config'.locks l).queue ↔ (t', mode) ∈ (config.locks l).queue)
    (hsame : ∀ c', c' ≠ c → config'.channels c' = config.channels c') :
    config'.remaining + (config.stepsAt t + config.bufferAt c) =
      config.remaining + (config'.stepsAt t + config'.bufferAt c) := by
  have hstep : ∀ t', t' ≠ t → config'.stepsAt t' = config.stepsAt t' :=
    fun t' ht => stepsAt_eq (hothers t' ht) (hqueue t' ht)
  have hsteps := total_change (finite_stepsAt hcalls) t hstep
  have hbuffer : ∀ c', c' ≠ c → config'.bufferAt c' = config.bufferAt c' := by
    intro c' hc
    rw [bufferAt, bufferAt, hsame c' hc]
  have hbuffers := total_change (finite_bufferAt hchannels) c hbuffer
  unfold remaining
  omega

/-- A call moves on to a point with fewer steps left. -/
theorem remaining_lt_of_call (hcalls : {t | config.calls t ≠ .finished}.Finite)
    (hchannels : {c | config.channels c ≠ none}.Finite) {t : Nat} {next : Call}
    (hnext : config'.calls = Function.update config.calls t next)
    (hqueue : ∀ t', t' ≠ t → ∀ l mode,
      (t', mode) ∈ (config'.locks l).queue ↔ (t', mode) ∈ (config.locks l).queue)
    (hsame : config'.channels = config.channels)
    (hsteps : next.steps < (config.calls t).steps) (hwants : next.wants = none) :
    config'.remaining < config.remaining := by
  have hself : config'.calls t = next := by rw [hnext, Function.update_self]
  have hchange := remaining_change hcalls hchannels t 0
    (fun t' ht => by rw [hnext, Function.update_of_ne ht]) hqueue fun c' _ => by rw [hsame]
  have hbuffer : config'.bufferAt 0 = config.bufferAt 0 := by rw [bufferAt, bufferAt, hsame]
  have hbefore := config.steps_le_stepsAt t
  have hafter := config'.stepsAt_le t
  rw [hself, hwants, if_pos rfl] at hafter
  omega

/-- A call begins to wait. -/
theorem remaining_lt_of_await (hcalls : {t | config.calls t ≠ .finished}.Finite)
    (hchannels : {c | config.channels c ≠ none}.Finite) {t : Nat} {l : LockName} {mode : Mode}
    (hsame : config'.calls = config.calls) (hkept : config'.channels = config.channels)
    (hlocks : config'.locks = Function.update config.locks l ((config.locks l).await t mode))
    (hwants : (config.calls t).wants = some (l, mode))
    (hnot : (t, mode) ∉ (config.locks l).queue) : config'.remaining < config.remaining := by
  have hqueue : ∀ t', t' ≠ t → ∀ l' mode',
      (t', mode') ∈ (config'.locks l').queue ↔ (t', mode') ∈ (config.locks l').queue := by
    intro t' ht l' mode'
    rw [hlocks]
    by_cases hl : l' = l
    · subst hl
      simp [RwLock.await, ht]
    · rw [Function.update_of_ne hl]
  have hchange := remaining_change hcalls hchannels t 0 (fun t' _ => by rw [hsame]) hqueue
    fun c' _ => by rw [hkept]
  have hbuffer : config'.bufferAt 0 = config.bufferAt 0 := by rw [bufferAt, bufferAt, hkept]
  have hbefore : config.stepsAt t = (config.calls t).steps + 1 := by
    rw [stepsAt, if_pos ⟨l, mode, hwants, hnot⟩]
  have hafter : config'.stepsAt t = (config.calls t).steps := by
    have hqueued : ¬ config'.Unqueued t := by
      rintro ⟨l', mode', hwants', hnot'⟩
      rw [hsame, hwants] at hwants'
      cases hwants'
      rw [hlocks, Function.update_self] at hnot'
      exact hnot' (by simp [RwLock.await])
    rw [stepsAt, if_neg hqueued, hsame, Nat.add_zero]
  omega

/-- A call sends an event, which its consumer has then left. -/
theorem remaining_lt_of_send (hcalls : {t | config.calls t ≠ .finished}.Finite)
    (hchannels : {c | config.channels c ≠ none}.Finite) {t c : Nat} {event : PortEvent}
    {channel channel' : Channel PortEvent}
    (hsent : config'.calls =
      Function.update config.calls t (config.shared.sent (config.calls t)).2)
    (hpushed : config'.channels = Function.update config.channels c (some channel'))
    (hlocks : config'.locks = config.locks)
    (hsending : (config.calls t).sending = some (c, event))
    (hchannel : config.channels c = some channel) (hpush : channel.push event = some channel') :
    config'.remaining < config.remaining := by
  obtain ⟨-, hbuffer⟩ := Channel.push_fields hpush
  obtain ⟨-, -, -, hlowers, -⟩ := sent_lowers config.shared hsending
  have hchange := remaining_change hcalls hchannels t c
    (fun t' ht => by rw [hsent, Function.update_of_ne ht]) (fun t' _ l mode => by rw [hlocks])
    fun c' hc => by rw [hpushed, Function.update_of_ne hc]
  have hbefore : config.bufferAt c = channel.buffer.length := by
    rw [bufferAt, hchannel]
    rfl
  have hafter : config'.bufferAt c = channel.buffer.length + 1 := by
    rw [bufferAt, hpushed, Function.update_self]
    simp [hbuffer]
  have hge := config.steps_le_stepsAt t
  have hle := config'.stepsAt_le t
  rw [hsent, Function.update_self] at hle
  omega

/-- A consumer receives an event. -/
theorem remaining_lt_of_receive (hcalls : {t | config.calls t ≠ .finished}.Finite)
    (hchannels : {c | config.channels c ≠ none}.Finite) {c : Nat}
    {channel channel' : Channel PortEvent} (hsame : config'.calls = config.calls)
    (hreceived : config'.channels = Function.update config.channels c (some channel'))
    (hlocks : config'.locks = config.locks) (hchannel : config.channels c = some channel)
    (hreceive : channel.receive = some channel') : config'.remaining < config.remaining := by
  obtain ⟨event, hbuffer, -⟩ := Channel.receive_fields hreceive
  have hchange := remaining_change hcalls hchannels 0 c (fun t' _ => by rw [hsame])
    (fun t' _ l mode => by rw [hlocks]) fun c' hc => by rw [hreceived, Function.update_of_ne hc]
  have hsteps : config'.stepsAt 0 = config.stepsAt 0 :=
    stepsAt_eq (by rw [hsame]) fun l mode => by rw [hlocks]
  have hbefore : config.bufferAt c = channel'.buffer.length + 1 := by
    rw [bufferAt, hchannel]
    simp [hbuffer]
  have hafter : config'.bufferAt c = channel'.buffer.length := by
    rw [bufferAt, hreceived, Function.update_self]
    rfl
  omega

end Config

/-- Work of the calls and of the consumers leaves fewer steps, unless a call begins by it. -/
theorem Transition.lowers {config config' : Config} {action : Action}
    (transition : Transition config action config') (agrees : config.LocksAgree)
    (hcalls : {t | config.calls t ≠ .finished}.Finite)
    (hchannels : {c | config.channels c ≠ none}.Finite) (hwork : action.isWork) :
    config'.remaining < config.remaining ∨ ∃ t, config.entering action = some t ∧
      (config'.calls t).load + (config.calls t).registering.toList.length <
        (config.calls t).load := by
  have henter : ∀ (t : Nat) (orders : Orders) (l : LockName) (mode : Mode) (lock : RwLock Nat),
      (config.calls t).wants = some (l, mode) →
      (∀ t', t' ≠ t → ∀ mode', (t', mode') ∈ lock.queue ↔ (t', mode') ∈ (config.locks l).queue) →
      (config.enter t orders l lock).remaining < config.remaining ∨
        ((config.enter t orders l lock).calls t).load +
          (config.calls t).registering.toList.length < (config.calls t).load := by
    intro t orders l mode lock hwants hqueue
    have hself : (config.enter t orders l lock).calls t =
        (config.shared.enter orders (config.calls t)).2 := Function.update_self _ _ _
    rcases enter_lowers config.shared orders hwants with hload | ⟨-, -, hsteps, hnone⟩
    · right
      rwa [hself]
    · left
      refine Config.remaining_lt_of_call hcalls hchannels rfl (fun t' ht l' mode' => ?_) rfl hsteps
        hnone
      by_cases hl : l' = l
      · subst hl
        rw [Config.enter_eq]
        simpa using hqueue t' ht mode'
      · rw [Config.enter_eq]
        simp [Function.update_of_ne hl]
  cases transition with
  | channel => cases hwork
  | call => cases hwork
  | @acquire t orders l mode hwants htakable =>
    rcases henter t orders l mode ((config.locks l).take t mode) hwants
      (fun t' _ mode' => Iff.rfl) with h | h
    · exact .inl h
    · exact .inr ⟨t, rfl, h⟩
  | await hwants hnot =>
    exact .inl (Config.remaining_lt_of_await hcalls hchannels rfl rfl rfl hwants hnot)
  | @grant t orders l mode hnext =>
    obtain ⟨rest, hqueue, -⟩ := RwLock.next_eq_some.mp hnext
    have hwants := agrees.waiting _ _ _ (by rw [hqueue]; exact List.mem_cons_self)
    have hrest : ∀ t', t' ≠ t → ∀ mode', (t', mode') ∈ ((config.locks l).grant t mode).queue ↔
        (t', mode') ∈ (config.locks l).queue := by
      intro t' ht mode'
      simp [RwLock.grant, hqueue, ht]
    rcases henter t orders l mode _ hwants hrest with h | h
    · exact .inl h
    · exact .inr ⟨t, by simp [Config.entering, hnext], h⟩
  | send hsending hchannel halive hpush =>
    exact .inl (Config.remaining_lt_of_send hcalls hchannels rfl rfl rfl hsending hchannel hpush)
  | @sendFailed t c event channel hsending hchannel hdropped =>
    left
    obtain ⟨-, -, -, -, hsteps, hnone⟩ := sent_lowers config.shared hsending
    exact Config.remaining_lt_of_call hcalls hchannels rfl (fun _ _ _ _ => Iff.rfl) rfl hsteps hnone
  | @release t l next hdropping =>
    left
    obtain ⟨-, -, hsteps, hnone⟩ := dropping_lowers hdropping
    refine Config.remaining_lt_of_call hcalls hchannels rfl (fun t' ht l' mode' => ?_) rfl hsteps
      hnone
    by_cases hl : l' = l
    · subst hl
      simp [RwLock.release]
    · simp [Function.update_of_ne hl]
  | receive hchannel hreceive =>
    exact .inl (Config.remaining_lt_of_receive hcalls hchannels rfl rfl rfl hchannel hreceive)
  | dropReceiver => cases hwork

/-- Work of the calls brings no load, and a registration brings less than it takes. -/
theorem Transition.load {config config' : Config} {action : Action}
    (transition : Transition config action config') (agrees : config.LocksAgree)
    (hwork : action.isWork) (t : Nat) :
    (config'.calls t).load ≤ (config.calls t).load ∧
      (config.entering action = some t → (config.calls t).registering ≠ none →
        (config'.calls t).load + 1 < (config.calls t).load) := by
  have hmoved : ∀ {t' : Nat} {next : Call}, next.load ≤ (config.calls t').load →
      (Function.update config.calls t' next t).load ≤ (config.calls t).load := by
    intro t' next hle
    by_cases ht : t = t'
    · subst ht
      rwa [Function.update_self]
    · rw [Function.update_of_ne ht]
  have henter : ∀ (t' : Nat) (orders : Orders) (l : LockName) (mode : Mode) (lock : RwLock Nat),
      (config.calls t').wants = some (l, mode) →
      ((config.enter t' orders l lock).calls t).load ≤ (config.calls t).load ∧
        (t' = t → (config.calls t).registering ≠ none →
          ((config.enter t' orders l lock).calls t).load + 1 < (config.calls t).load) := by
    intro t' orders l mode lock hwants
    have hlowers := enter_lowers config.shared orders hwants
    rw [Config.enter_eq]
    refine ⟨hmoved ?_, ?_⟩
    · rcases hlowers with hload | ⟨-, hload, -⟩
      · omega
      · omega
    · rintro rfl hregistering
      obtain ⟨name, hname⟩ := Option.ne_none_iff_exists'.mp hregistering
      rcases hlowers with hload | ⟨hnone, -⟩
      · rw [hname] at hload
        simpa using hload
      · exact (hregistering hnone).elim
  cases transition with
  | channel => cases hwork
  | call => cases hwork
  | @acquire t' orders l mode hwants htakable =>
    obtain ⟨hle, hlt⟩ := henter t' orders l mode ((config.locks l).take t' mode) hwants
    exact ⟨hle, fun hentering => hlt (Option.some.inj hentering)⟩
  | await => exact ⟨le_refl _, fun hentering => by cases hentering⟩
  | @grant t' orders l mode hnext =>
    obtain ⟨rest, hqueue, -⟩ := RwLock.next_eq_some.mp hnext
    have hwants := agrees.waiting _ _ _ (by rw [hqueue]; exact List.mem_cons_self)
    obtain ⟨hle, hlt⟩ := henter t' orders l mode ((config.locks l).grant t' mode) hwants
    refine ⟨hle, fun hentering => hlt ?_⟩
    simpa [Config.entering, hnext] using hentering
  | send hsending =>
    obtain ⟨-, hload, -⟩ := sent_lowers config.shared hsending
    exact ⟨hmoved (by omega), fun hentering => by cases hentering⟩
  | sendFailed hsending =>
    obtain ⟨-, -, hload, -⟩ := sent_lowers config.shared hsending
    exact ⟨hmoved (by omega), fun hentering => by cases hentering⟩
  | release hdropping =>
    obtain ⟨-, hload, -⟩ := dropping_lowers hdropping
    exact ⟨hmoved (by omega), fun hentering => by cases hentering⟩
  | receive => exact ⟨le_refl _, fun hentering => by cases hentering⟩
  | dropReceiver => cases hwork

namespace System

variable {system : System}

theorem IsFinite.loadAt (finite : system.IsFinite) : {t | system.loadAt t ≠ 0}.Finite := by
  refine (finite.calls.union finite.listeners).subset fun t ht => ?_
  by_contra hnot
  rw [Set.mem_union, not_or] at hnot
  have hcall : system.config.calls t = .finished := not_not.mp hnot.1
  have hlistener : system.listeners t = none := not_not.mp hnot.2
  refine ht ?_
  rw [System.loadAt, hcall, hlistener]
  rfl

/-- The load that a listener brings to its task. -/
theorem loadAt_of_listener {t : Nat} {l : Listener} (h : system.listeners t = some l) :
    system.loadAt t = (system.config.calls t).load + l.load := by
  rw [System.loadAt, h]
  rfl

theorem load_finish (l : Listener) (ending : Ending) : (l.finish ending).load = 0 := rfl

/-- A call with less load, beside a listener that stays or ends. -/
theorem loadAt_add_le {system' : System} {t k : Nat}
    (hcall : (system'.config.calls t).load + k ≤ (system.config.calls t).load)
    (hlistener : system'.listeners t = system.listeners t ∨
      ∃ ending, system'.listeners t = (system.listeners t).map (·.finish ending)) :
    system'.loadAt t + k ≤ system.loadAt t := by
  have hle : (system'.listeners t).elim 0 Listener.load ≤
      (system.listeners t).elim 0 Listener.load := by
    rcases hlistener with hsame | ⟨ending, hfinish⟩
    · rw [hsame]
    · rw [hfinish]
      cases system.listeners t with
      | none => exact le_refl _
      | some l => exact Nat.zero_le _
  unfold System.loadAt
  omega

/-- Work of the calls and of the consumers. -/
theorem lowers_manager {action : Action} {config' : Config} {spawned : Nat}
    (transition : Transition system.config action config') (agrees : system.config.LocksAgree)
    (finite : system.IsFinite) (hwork : action.isWork)
    (hfree : (system.config.registers action).isSome →
      system.listeners spawned = none ∧ (system.config.calls spawned).isFinished) :
    total (System.loadAt
        { system with config := config', listeners := system.listenersAfter action spawned }) <
      total system.loadAt ∨
    total (System.loadAt
        { system with config := config', listeners := system.listenersAfter action spawned }) ≤
      total system.loadAt ∧ config'.remaining < system.config.remaining := by
  have hcalls := fun t => transition.load agrees hwork t
  cases hregisters : system.config.registers action with
  | some name =>
    -- the load of the new listener is less than that of its registration
    left
    obtain ⟨hnone, hidle⟩ := hfree (by rw [hregisters]; rfl)
    obtain ⟨hregistering, -⟩ := Option.filter_eq_some_iff.mp hregisters
    obtain ⟨t, hentering, hregistering⟩ := Option.bind_eq_some_iff.mp hregistering
    have hlowers := (hcalls t).2 hentering (by rw [hregistering]; simp)
    have hne : spawned ≠ t := by
      rintro rfl
      rw [of_finished hidle] at hregistering
      cases hregistering
    have hle : ∀ t', System.loadAt { system with config := config' } t' ≤ system.loadAt t' :=
      fun t' => loadAt_add_le (k := 0) (hcalls t').1 (.inl rfl)
    have hless : System.loadAt { system with config := config' } t + 2 ≤ system.loadAt t :=
      loadAt_add_le hlowers (.inl rfl)
    have hbetween := total_add_le finite.loadAt hle hless
    have hfinite : {t' | System.loadAt { system with config := config' } t' ≠ 0}.Finite :=
      finite.loadAt.subset fun t' ht hzero => ht (Nat.le_zero.mp (hzero ▸ hle t'))
    have hothers : ∀ t', t' ≠ spawned → System.loadAt { system with
        config := config', listeners := system.listenersAfter action spawned } t' =
          System.loadAt { system with config := config' } t' := by
      intro t' ht
      simp only [System.loadAt, listenersAfter_of_registers hregisters, Function.update_of_ne ht]
    have hchange := total_change hfinite spawned hothers
    have hspawned : System.loadAt { system with
        config := config', listeners := system.listenersAfter action spawned } spawned =
          System.loadAt { system with config := config' } spawned + 1 := by
      simp only [System.loadAt, listenersAfter_of_registers hregisters, Function.update_self, hnone]
      rfl
    omega
  | none =>
    have hlistener : ∀ t, system.listenersAfter action spawned t = system.listeners t ∨
        ∃ ending, system.listenersAfter action spawned t =
          (system.listeners t).map (·.finish ending) := by
      intro t
      cases hfailing : system.config.failing action with
      | none => exact .inl (by rw [listenersAfter_of_none hregisters hfailing])
      | some t' =>
        rw [listenersAfter_of_failing hregisters hfailing]
        by_cases ht : t = t'
        · subst ht
          exact .inr ⟨.cannotSendPortEvent, by rw [Function.update_self]⟩
        · exact .inl (by rw [Function.update_of_ne ht])
    have hle : ∀ t, System.loadAt
        { system with config := config', listeners := system.listenersAfter action spawned } t ≤
          system.loadAt t := fun t => loadAt_add_le (k := 0) (hcalls t).1 (hlistener t)
    rcases transition.lowers agrees finite.calls finite.channels hwork with
      hremaining | ⟨t, hentering, hload⟩
    · exact .inr ⟨total_add_le (t := 0) (k := 0) finite.loadAt hle (hle 0), hremaining⟩
    · left
      have hless : System.loadAt
          { system with config := config', listeners := system.listenersAfter action spawned } t + 1 ≤
            system.loadAt t :=
        loadAt_add_le (Nat.lt_of_le_of_lt (Nat.le_add_right _ _) hload) (hlistener t)
      exact total_add_le finite.loadAt hle hless

/-- A listener changes, and with it the load of its task. -/
theorem lowers_listener {system' : System} (finite : system.IsFinite) {t : Nat}
    (hcalls : ∀ t', t' ≠ t → system'.config.calls t' = system.config.calls t')
    (hlisteners : ∀ t', t' ≠ t → system'.listeners t' = system.listeners t')
    (hless : system'.loadAt t < system.loadAt t) :
    total system'.loadAt < total system.loadAt := by
  have hothers : ∀ t', t' ≠ t → system'.loadAt t' = system.loadAt t' := by
    intro t' ht
    rw [System.loadAt, System.loadAt, hcalls t' ht, hlisteners t' ht]
  have hchange := total_change finite.loadAt t hothers
  omega

/-- Every step that the system does by itself lowers its load, or else the steps that are left. -/
theorem Step.lowers {more : List (String × EndpointEvent)} {system' : System}
    (step : system.Step true more system') (agrees : system.config.LocksAgree)
    (finite : system.IsFinite) :
    total system'.loadAt < total system.loadAt ∨
      total system'.loadAt ≤ total system.loadAt ∧
        system'.config.remaining < system.config.remaining := by
  generalize hworks : true = works at step
  cases step with
  | manager hallows hfree hstep =>
    exact lowers_manager (transition_of_step hstep) agrees finite hworks.symm hfree
  | send => cases hworks
  | disconnect => cases hworks
  | @listen t l event rest channel config' hlistener hrunning hbuffer hreceive halive hcall =>
    left
    have transition := transition_of_step hcall
    cases transition with
    | call hfinished =>
      refine lowers_listener finite (t := t) (fun t' ht => Function.update_of_ne ht _ _)
        (fun t' ht => Function.update_of_ne ht _ _) ?_
      obtain ⟨event', hbuffer', -⟩ := Channel.receive_fields hreceive
      rw [loadAt_of_listener hlistener, of_finished hfinished]
      simp only [System.loadAt, System.set, Function.update_self, Option.elim_some, Call.load,
        Listener.load, hrunning, if_true, hbuffer', List.length_cons]
      omega
  | @dismiss t l channel hlistener hrunning hreceive hgone =>
    left
    refine lowers_listener finite (t := t) (fun _ _ => rfl)
      (fun t' ht => Function.update_of_ne ht _ _) ?_
    rw [loadAt_of_listener hlistener, loadAt_of_listener (Function.update_self t _ _),
      load_finish]
    simp [System.set, Listener.load, hrunning]
  | @close t l hlistener hrunning hidle hempty hclosed =>
    left
    refine lowers_listener finite (t := t) (fun _ _ => rfl)
      (fun t' ht => Function.update_of_ne ht _ _) ?_
    rw [loadAt_of_listener hlistener, loadAt_of_listener (Function.update_self t _ _),
      load_finish]
    simp [System.set, Listener.load, hrunning]
  | dropManager => cases hworks

end System

end StateProxy.Backend
