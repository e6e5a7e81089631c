import StateProxy.Backend.Taken

/-! The manager with its discovery tasks.  Each registered task sends its events into a channel of
its own, and a listener, spawned by the registration, takes them out one after the other and calls
`process_event` for each.  A listener ends when its channel is closed and empty, when the manager is
gone, or when a port event cannot be sent.  The listeners, the callers of the other methods, the
discovery tasks and the consumers take their steps in any order. -/

namespace StateProxy.Backend

open Net ProofKit ServiceManager

/-- How many events are buffered before a discovery task has to wait. -/
def endpointEventBufferSize : Nat := 1024

/-- Why a listener has ended. -/
inductive Ending
  /-- The sender of its discovery task was dropped: the panic after the loop. -/
  | disconnected
  /-- The weak reference to the manager could not be upgraded: the return in the loop. -/
  | managerDropped
  /-- The panic of `send_event` in a call of `process_event`. -/
  | cannotSendPortEvent
deriving DecidableEq, Repr

/-- A discovery task's channel, and the listener at its other end. -/
structure Listener where
  name : String
  channel : Channel EndpointEvent
  senderAlive : Bool
  ended : Option Ending

namespace Listener

/-- The listener that `register_endpoint_discovery` spawns. -/
def new (name : String) : Listener :=
  ⟨name, .new endpointEventBufferSize (by decide), true, none⟩

/-- The receiver is dropped when the listener ends. -/
def finish (listener : Listener) (ending : Ending) : Listener :=
  { listener with channel := listener.channel.dropReceiver, ended := some ending }

end Listener

/-- The manager, whether somebody outside holds it, and the listeners, each under the number of the
task in which it calls `process_event`. -/
structure System where
  config : Config
  held : Bool
  listeners : Nat → Option Listener

/-- The name that a call is about to register. -/
def Call.registering : Call → Option String
  | .lockMetrics name => some name
  | _ => none

namespace Config

/-- The name that an action registers for the first time. -/
def registers (config : Config) (action : Action) : Option String :=
  ((config.entering action).bind fun t => (config.calls t).registering).filter
    fun name => name ∉ config.shared.registeredEndpointDiscoveryNames

/-- The call whose send fails by an action. -/
def failing (config : Config) : Action → Option Nat
  | .send t => do
    let (c, _) ← (config.calls t).sending
    let channel ← config.channels c
    if channel.receiverAlive then none else some t
  | _ => none

end Config

namespace System

/-- A new manager without listeners. -/
def initial : System := ⟨.initial, true, fun _ => none⟩

/-- The manager is alive while somebody outside holds it or a call is in progress. -/
def Alive (system : System) : Prop :=
  system.held ∨ ∃ t, ¬ (system.config.calls t).isFinished

/-- Only the listeners call `process_event`, and only who holds the manager calls its other
methods. -/
def Allows (system : System) : Action → Prop
  | .call t start => system.held ∧ system.listeners t = none ∧ start.event = none
  | _ => True

/-- The listeners after an action of the manager: a registration spawns one, in the task `spawned`,
and one whose call cannot send a port event ends. -/
def listenersAfter (system : System) (action : Action) (spawned : Nat) : Nat → Option Listener :=
  match system.config.registers action with
  | some name => Function.update system.listeners spawned (some (.new name))
  | none =>
    match system.config.failing action with
    | some t => Function.update system.listeners t
        ((system.listeners t).map (·.finish .cannotSendPortEvent))
    | none => system.listeners

section After

variable {system : System} {action : Action} {spawned : Nat}

theorem listenersAfter_of_registers {name : String}
    (h : system.config.registers action = some name) :
    system.listenersAfter action spawned =
      Function.update system.listeners spawned (some (.new name)) := by
  rw [listenersAfter, h]

theorem listenersAfter_of_failing {t : Nat} (hregisters : system.config.registers action = none)
    (hfailing : system.config.failing action = some t) :
    system.listenersAfter action spawned = Function.update system.listeners t
      ((system.listeners t).map (·.finish .cannotSendPortEvent)) := by
  rw [listenersAfter, hregisters, hfailing]

theorem listenersAfter_of_none (hregisters : system.config.registers action = none)
    (hfailing : system.config.failing action = none) :
    system.listenersAfter action spawned = system.listeners := by
  rw [listenersAfter, hregisters, hfailing]

end After

/-- The listener of a task becomes `listener`. -/
def set (system : System) (t : Nat) (listener : Listener) : System :=
  { system with listeners := Function.update system.listeners t (some listener) }

/-- A task that has a listener after one was put in has that one or the one it had. -/
theorem update_cases {listeners : Nat → Option Listener} {t t' : Nat} {l l' : Listener}
    (h : Function.update listeners t (some l) t' = some l') :
    t' = t ∧ l' = l ∨ t' ≠ t ∧ listeners t' = some l' := by
  by_cases ht : t' = t
  · subst ht
    rw [Function.update_self, Option.some.injEq] at h
    exact .inl ⟨rfl, h.symm⟩
  · rw [Function.update_of_ne ht] at h
    exact .inr ⟨ht, h⟩

/-- A change of one listener is a change of every listener, if it may also stay as it is. -/
theorem exists_of_set {system : System} {R : Listener → Listener → Prop} (hrefl : ∀ l, R l l)
    {t : Nat} {l l' : Listener} (hlistener : system.listeners t = some l) (hchange : R l l')
    {t' : Nat} {l₀ : Listener} (h : system.listeners t' = some l₀) :
    ∃ l'', (system.set t l').listeners t' = some l'' ∧ R l₀ l'' := by
  by_cases ht : t' = t
  · subst ht
    rw [hlistener] at h
    cases h
    exact ⟨l', Function.update_self _ _ _, hchange⟩
  · exact ⟨l₀, (Function.update_of_ne ht _ _).trans h, hrefl l₀⟩

end System

/-- The action is one of a call in progress or of a consumer that receives. -/
def Action.isWork : Action → Bool
  | .channel .. | .call .. | .dropReceiver _ => false
  | _ => true

/-- A step of the system: whether it is work that the system does by itself, and the event that takes
effect in it. -/
inductive System.Step (system : System) : Bool → List (String × EndpointEvent) → System → Prop
  /-- A method of the manager goes on, or a consumer does. -/
  | manager {action : Action} {config' : Config} {spawned : Nat} (hallows : system.Allows action)
      (hfree : (system.config.registers action).isSome →
        system.listeners spawned = none ∧ (system.config.calls spawned).isFinished)
      (hstep : system.config.step action = some config') :
      System.Step system action.isWork (system.config.takes action)
        { system with config := config', listeners := system.listenersAfter action spawned }
  /-- A discovery task sends an event. -/
  | send {t : Nat} {listener : Listener} {event : EndpointEvent} {channel : Channel EndpointEvent}
      (hlistener : system.listeners t = some listener) (hsender : listener.senderAlive)
      (hreceiver : listener.channel.receiverAlive)
      (hpush : listener.channel.push event = some channel) :
      System.Step system false [] (system.set t { listener with channel })
  /-- A discovery task drops its sender. -/
  | disconnect {t : Nat} {listener : Listener} (hlistener : system.listeners t = some listener) :
      System.Step system false [] (system.set t { listener with senderAlive := false })
  /-- A listener receives an event and calls `process_event`. -/
  | listen {t : Nat} {listener : Listener} {event : EndpointEvent} {rest : List EndpointEvent}
      {channel : Channel EndpointEvent} {config' : Config}
      (hlistener : system.listeners t = some listener) (hrunning : listener.ended = none)
      (hbuffer : listener.channel.buffer = event :: rest)
      (hreceive : listener.channel.receive = some channel) (halive : system.Alive)
      (hcall : system.config.step (.call t (.processEvent listener.name event)) = some config') :
      System.Step system true [] { system.set t { listener with channel } with config := config' }
  /-- A listener receives an event and finds no manager. -/
  | dismiss {t : Nat} {listener : Listener} {channel : Channel EndpointEvent}
      (hlistener : system.listeners t = some listener) (hrunning : listener.ended = none)
      (hreceive : listener.channel.receive = some channel) (hgone : ¬ system.Alive) :
      System.Step system true []
        (system.set t (Listener.finish { listener with channel } .managerDropped))
  /-- A listener finds its channel empty and closed. -/
  | close {t : Nat} {listener : Listener} (hlistener : system.listeners t = some listener)
      (hrunning : listener.ended = none) (hidle : (system.config.calls t).isFinished)
      (hempty : listener.channel.buffer = []) (hclosed : listener.senderAlive = false) :
      System.Step system true [] (system.set t (listener.finish .disconnected))
  /-- Nobody outside holds the manager any more. -/
  | dropManager : System.Step system false [] { system with held := false }

/-- The events `taken` take effect, in this order, on the way from `start` to a system. -/
inductive System.Reaches (start : System) : List (String × EndpointEvent) → System → Prop
  | refl : Reaches start [] start
  | step {taken more : List (String × EndpointEvent)} {system system' : System} {works : Bool} :
      Reaches start taken system → system.Step works more system' →
      Reaches start (taken ++ more) system'

/-! ### What an action does to the events and to the names -/

theorem event_closeServices (shared : Shared) (ports : List UInt16) :
    (shared.closeServices ports).2.event = none := by
  induction ports generalizing shared with
  | nil => rfl
  | cons port ports ih =>
    simp only [Shared.closeServices]
    split
    · exact ih _
    · rfl

theorem event_sendNext (c : Nat) (events : List PortEvent) :
    (Shared.sendNext c events).event = none := by
  cases events <;> rfl

/-- A call that has got a lock has no event to bring any more. -/
theorem event_enter (shared : Shared) (orders : Orders) {call : Call} {l : LockName} {mode : Mode}
    (hwants : call.wants = some (l, mode)) : (shared.enter orders call).2.event = none := by
  cases call with
  | processEvent discovery event =>
    cases event with
    | add uid isAvailable port protocol address backendProtocol =>
      simp only [Shared.enter]
      split <;> rfl
    | delete uid => rfl
    | suspend uid => rfl
    | resume uid => rfl
  | openPort port protocol =>
    simp only [Shared.enter]
    split <;> rfl
  | closePorts ports => exact event_closeServices shared ports
  | sendPortEventsTo c => exact event_sendNext c _
  | lockMetrics name =>
    simp only [Shared.enter]
    split <;> rfl
  | install c => rfl
  | getEndpointFor port index => rfl
  | registerEndpointDiscovery name => rfl
  | _ => cases hwants

theorem event_sent (shared : Shared) {call : Call} {c : Nat} {event : PortEvent}
    (hsending : call.sending = some (c, event)) :
    call.event = none ∧ (shared.sent call).2.event = none ∧
      (Shared.sendFailed call).event = none := by
  obtain ⟨ports, rfl⟩ | ⟨rest, rfl⟩ := Call.sending_cases hsending
  · exact ⟨rfl, event_closeServices shared ports, rfl⟩
  · exact ⟨rfl, event_sendNext c rest, rfl⟩

theorem event_dropping {call next : Call} {l : LockName} (h : call.dropping = some (l, next)) :
    call.event = none ∧ next.event = none := by
  cases call <;> cases h <;> exact ⟨rfl, rfl⟩

theorem Call.event_of_registering {call : Call} {name : String}
    (h : call.registering = some name) : call.event = none := by
  cases call <;> first | rfl | cases h

theorem event_update_of_none {calls : Nat → Call} {t : Nat} {next : Call}
    (hbefore : (calls t).event = none) (hafter : next.event = none) (t' : Nat) :
    (Function.update calls t next t').event = (calls t').event := by
  by_cases ht : t' = t
  · subst ht
    rw [Function.update_self, hbefore, hafter]
  · rw [Function.update_of_ne ht]

/-- An action takes at most the event of the call that gets a lock by it. -/
theorem Transition.event {config config' : Config} {action : Action}
    (transition : Transition config action config') (agrees : config.LocksAgree)
    (hstart : ∀ t start, action = .call t start → start.event = none) (t : Nat) :
    (config'.calls t).event =
      if config.entering action = some t then none else (config.calls t).event := by
  have henter : ∀ {t' : Nat} {orders : Orders} {l : LockName} {mode : Mode} (lock : RwLock Nat),
      (config.calls t').wants = some (l, mode) → ((config.enter t' orders l lock).calls t).event =
        if some t' = some t then none else (config.calls t).event := by
    intro t' orders l mode lock hwants
    rw [Config.enter_eq]
    by_cases ht : t' = t
    · subst ht
      rw [if_pos rfl]
      simpa using event_enter config.shared orders hwants
    · rw [if_neg (by simpa using ht)]
      simp [Function.update_of_ne (Ne.symm ht)]
  cases transition with
  | channel => rfl
  | call hfinished hstarts =>
    refine event_update_of_none ?_ (hstart _ _ rfl) t
    rw [of_finished hfinished]
    rfl
  | acquire hwants htakable => exact henter _ hwants
  | await => rfl
  | grant hnext =>
    obtain ⟨rest, hqueue, -⟩ := RwLock.next_eq_some.mp hnext
    have hwants := agrees.waiting _ _ _ (by rw [hqueue]; exact List.mem_cons_self)
    simp only [Config.entering, hnext, Option.map_some]
    exact henter _ hwants
  | send hsending =>
    obtain ⟨hbefore, hafter, -⟩ := event_sent config.shared hsending
    exact event_update_of_none hbefore hafter t
  | sendFailed hsending =>
    obtain ⟨hbefore, -, hafter⟩ := event_sent config.shared hsending
    exact event_update_of_none hbefore hafter t
  | release hdropping =>
    obtain ⟨hbefore, hafter⟩ := event_dropping hdropping
    exact event_update_of_none hbefore hafter t
  | receive => rfl
  | dropReceiver => rfl

theorem closeServices_shared (shared : Shared) (ports : List UInt16) :
    ∃ map, (shared.closeServices ports).1 = { shared with portServiceMap := map } := by
  induction ports generalizing shared with
  | nil => exact ⟨_, rfl⟩
  | cons port ports ih =>
    simp only [Shared.closeServices]
    split
    · obtain ⟨map, hmap⟩ := ih { shared with portServiceMap := shared.portServiceMap.erase port }
      exact ⟨map, hmap⟩
    · exact ⟨_, rfl⟩

/-- What a registration changes of the names and of the metrics; without one they stay. -/
def Shared.Registers (before after : Shared) : Option String → Prop
  | none =>
    after.registeredEndpointDiscoveryNames = before.registeredEndpointDiscoveryNames ∧
      after.endpointDiscoveryMetrics = before.endpointDiscoveryMetrics
  | some name =>
    after.registeredEndpointDiscoveryNames = insert name before.registeredEndpointDiscoveryNames ∧
      after.endpointDiscoveryMetrics = insert name before.endpointDiscoveryMetrics

theorem registers_closeServices (shared : Shared) (ports : List UInt16) :
    shared.Registers (shared.closeServices ports).1 none := by
  obtain ⟨map, hmap⟩ := closeServices_shared shared ports
  rw [hmap]
  exact ⟨rfl, rfl⟩

theorem registers_sent (shared : Shared) (call : Call) :
    shared.Registers (shared.sent call).1 none := by
  cases call with
  | sendEvent c event ports => exact registers_closeServices shared ports
  | _ => exact ⟨rfl, rfl⟩

/-- Only a call at its second mutex registers a name, and only a new one. -/
theorem registers_enter (shared : Shared) (orders : Orders) (call : Call) :
    shared.Registers (shared.enter orders call).1
      (call.registering.filter (· ∉ shared.registeredEndpointDiscoveryNames)) := by
  cases call with
  | processEvent discovery event =>
    cases event with
    | add uid isAvailable port protocol address backendProtocol =>
      change shared.Registers _ none
      simp only [Shared.enter]
      split <;> exact ⟨rfl, rfl⟩
    | _ => exact ⟨rfl, rfl⟩
  | openPort port protocol =>
    change shared.Registers _ none
    simp only [Shared.enter]
    split <;> exact ⟨rfl, rfl⟩
  | closePorts ports => exact registers_closeServices shared ports
  | lockMetrics name =>
    by_cases hmem : name ∈ shared.registeredEndpointDiscoveryNames
    · have hold : (some name).filter (· ∉ shared.registeredEndpointDiscoveryNames) = none := by
        simp [hmem]
      rw [Call.registering, hold]
      simp [Shared.enter, hmem, Shared.Registers]
    · have hnew : (some name).filter (· ∉ shared.registeredEndpointDiscoveryNames) = some name := by
        simp [hmem]
      rw [Call.registering, hnew]
      simp [Shared.enter, hmem, Shared.Registers]
  | _ => exact ⟨rfl, rfl⟩

theorem Transition.registers {config config' : Config} {action : Action}
    (transition : Transition config action config') :
    config.shared.Registers config'.shared (config.registers action) := by
  cases transition with
  | @acquire t orders => exact registers_enter config.shared orders (config.calls t)
  | @grant t orders l mode hnext =>
    simp only [Config.registers, Config.entering, hnext, Option.map_some, Option.bind_some]
    exact registers_enter config.shared orders (config.calls t)
  | @send t => exact registers_sent config.shared (config.calls t)
  | _ => exact ⟨rfl, rfl⟩

/-- The call is finished or will do nothing but drop its guards. -/
def Call.isOver : Call → Bool
  | .finished | .dropSender | .dropMap _ => true
  | _ => false

theorem Call.of_isOver {call : Call} (h : call.isOver) :
    call.wants = none ∧ call.sending = none ∧ call.event = none := by
  cases call <;> first | exact ⟨rfl, rfl, rfl⟩ | cases h

theorem Call.isOver_dropping {call next : Call} {l : LockName}
    (h : call.dropping = some (l, next)) (hover : call.isOver) : next.isOver := by
  cases call <;> cases h <;> first | rfl | cases hover

theorem isOver_update {calls : Nat → Call} {t t' : Nat} {next : Call}
    (hsame : t' = t → next.isOver) (h : (calls t').isOver) :
    (Function.update calls t next t').isOver := by
  by_cases ht : t' = t
  · subst ht
    rw [Function.update_self]
    exact hsame rfl
  · rwa [Function.update_of_ne ht]

/-- A call that is over stays so until its task begins another one. -/
theorem Transition.isOver {config config' : Config} {action : Action}
    (transition : Transition config action config') (agrees : config.LocksAgree) {t : Nat}
    (hstart : ∀ start, action ≠ .call t start) (h : (config.calls t).isOver) :
    (config'.calls t).isOver := by
  obtain ⟨hwants, hsending, -⟩ := Call.of_isOver h
  cases transition with
  | channel => exact h
  | call =>
    refine isOver_update ?_ h
    rintro rfl
    exact (hstart _ rfl).elim
  | acquire hwants' =>
    refine isOver_update ?_ h
    rintro rfl
    rw [hwants] at hwants'
    cases hwants'
  | await => exact h
  | grant hnext =>
    obtain ⟨rest, hqueue, -⟩ := RwLock.next_eq_some.mp hnext
    have hwants' := agrees.waiting _ _ _ (by rw [hqueue]; exact List.mem_cons_self)
    refine isOver_update ?_ h
    rintro rfl
    rw [hwants] at hwants'
    cases hwants'
  | send hsending' =>
    refine isOver_update ?_ h
    rintro rfl
    rw [hsending] at hsending'
    cases hsending'
  | sendFailed hsending' =>
    refine isOver_update ?_ h
    rintro rfl
    rw [hsending] at hsending'
    cases hsending'
  | release hdropping =>
    refine isOver_update ?_ h
    rintro rfl
    exact Call.isOver_dropping hdropping h
  | receive => exact h
  | dropReceiver => exact h

/-- A call whose send fails is over. -/
theorem Transition.isOver_of_failing {config config' : Config} {action : Action} {t : Nat}
    (transition : Transition config action config') (h : config.failing action = some t) :
    ∃ c event, (config.calls t).sending = some (c, event) ∧ (config'.calls t).isOver := by
  cases transition with
  | @send t' c event channel channel' hsending hchannel halive =>
    simp [Config.failing, hsending, hchannel, halive] at h
  | @sendFailed t' c event channel hsending hchannel hdropped =>
    have ht : t' = t := by simpa [Config.failing, hsending, hchannel, hdropped] using h
    subst ht
    refine ⟨c, event, hsending, ?_⟩
    change (Function.update config.calls t' (Shared.sendFailed (config.calls t')) t').isOver
    rw [Function.update_self]
    obtain ⟨ports, hcall⟩ | ⟨rest, hcall⟩ := Call.sending_cases hsending <;>
      rw [hcall] <;> rfl
  | _ => cases h

end StateProxy.Backend
