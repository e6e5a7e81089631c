import StateProxy.Backend.Calls
import StateProxy.Backend.Invariant
import Mathlib.Data.String.Basic

/-! The manager's locking never blocks for good.  Every reachable configuration's locks agree with
the points of its calls, every call takes the service map before the sender and the names before
the metrics, and a call that sends on a full channel waits for a receiver that has something to
receive.  So some call can always go on. -/

namespace StateProxy.Backend

open Net ProofKit ServiceManager

/-- What each action needs and does. -/
inductive Transition (config : Config) : Action → Config → Prop
  | channel {c capacity : Nat} (hfree : config.channels c = none) (hpositive : 0 < capacity) :
      Transition config (.channel c capacity)
        { config with
          channels := Function.update config.channels c (some (.new capacity hpositive)) }
  | call {t : Nat} {start : Call} (hfinished : (config.calls t).isFinished)
      (hstart : start.isStart) (hknows : config.knows start) :
      Transition config (.call t start)
        { config with calls := Function.update config.calls t start }
  | acquire {t : Nat} {orders : Orders} {l : LockName} {mode : Mode}
      (hwants : (config.calls t).wants = some (l, mode))
      (htakable : (config.locks l).Takable mode) :
      Transition config (.acquire t orders)
        (config.enter t orders l ((config.locks l).take t mode))
  | await {t : Nat} {l : LockName} {mode : Mode}
      (hwants : (config.calls t).wants = some (l, mode))
      (hnot : (t, mode) ∉ (config.locks l).queue) :
      Transition config (.await t)
        { config with locks := Function.update config.locks l ((config.locks l).await t mode) }
  | grant {t : Nat} {orders : Orders} {l : LockName} {mode : Mode}
      (hnext : (config.locks l).next = some (t, mode)) :
      Transition config (.grant l orders)
        (config.enter t orders l ((config.locks l).grant t mode))
  | send {t c : Nat} {event : PortEvent} {channel channel' : Channel PortEvent}
      (hsending : (config.calls t).sending = some (c, event))
      (hchannel : config.channels c = some channel) (halive : channel.receiverAlive)
      (hpush : channel.push event = some channel') :
      Transition config (.send t)
        { config with
          shared := (config.shared.sent (config.calls t)).1
          channels := Function.update config.channels c (some channel')
          calls := Function.update config.calls t (config.shared.sent (config.calls t)).2 }
  | sendFailed {t c : Nat} {event : PortEvent} {channel : Channel PortEvent}
      (hsending : (config.calls t).sending = some (c, event))
      (hchannel : config.channels c = some channel) (hdropped : ¬ channel.receiverAlive) :
      Transition config (.send t)
        { config with
          calls := Function.update config.calls t (Shared.sendFailed (config.calls t)) }
  | release {t : Nat} {l : LockName} {call : Call}
      (hdropping : (config.calls t).dropping = some (l, call)) :
      Transition config (.release t)
        { config with
          locks := Function.update config.locks l ((config.locks l).release t)
          calls := Function.update config.calls t call }
  | receive {c : Nat} {channel channel' : Channel PortEvent}
      (hchannel : config.channels c = some channel)
      (hreceive : channel.receive = some channel') :
      Transition config (.receive c)
        { config with channels := Function.update config.channels c (some channel') }
  | dropReceiver {c : Nat} {channel : Channel PortEvent}
      (hchannel : config.channels c = some channel) :
      Transition config (.dropReceiver c)
        { config with
          channels := Function.update config.channels c (some channel.dropReceiver) }

theorem transition_of_step {config config' : Config} {action : Action}
    (h : config.step action = some config') : Transition config action config' := by
  cases action with
  | channel c capacity =>
    simp only [Config.step] at h
    split at h
    · rename_i hcond
      cases h
      exact .channel (Option.isNone_iff_eq_none.mp hcond.1) hcond.2
    · cases h
  | call t start =>
    obtain ⟨hcond, h⟩ := Option.ite_none_right_eq_some.mp h
    cases h
    exact .call hcond.1 hcond.2.1 hcond.2.2
  | acquire t orders =>
    obtain ⟨⟨l, mode⟩, hwants, h⟩ := Option.bind_eq_some_iff.mp h
    obtain ⟨htakable, h⟩ := Option.ite_none_right_eq_some.mp h
    cases h
    exact .acquire hwants htakable
  | await t =>
    obtain ⟨⟨l, mode⟩, hwants, h⟩ := Option.bind_eq_some_iff.mp h
    obtain ⟨hcond, h⟩ := Option.ite_none_right_eq_some.mp h
    cases h
    exact .await hwants hcond.2
  | grant l orders =>
    obtain ⟨⟨t, mode⟩, hnext, h⟩ := Option.bind_eq_some_iff.mp h
    cases h
    exact .grant hnext
  | send t =>
    obtain ⟨⟨c, event⟩, hsending, h⟩ := Option.bind_eq_some_iff.mp h
    obtain ⟨channel, hchannel, h⟩ := Option.bind_eq_some_iff.mp h
    simp only [Config.send] at h
    split at h
    · rename_i halive
      obtain ⟨channel', hpush, rfl⟩ := Option.map_eq_some_iff.mp h
      exact .send hsending hchannel halive hpush
    · rename_i hdropped
      cases h
      exact .sendFailed hsending hchannel hdropped
  | release t =>
    obtain ⟨⟨l, call⟩, hdropping, h⟩ := Option.bind_eq_some_iff.mp h
    cases h
    exact .release hdropping
  | receive c =>
    obtain ⟨channel, hchannel, h⟩ := Option.bind_eq_some_iff.mp h
    obtain ⟨-, h⟩ := Option.ite_none_right_eq_some.mp h
    obtain ⟨channel', hreceive, h⟩ := Option.bind_eq_some_iff.mp h
    cases h
    exact .receive hchannel hreceive
  | dropReceiver c =>
    obtain ⟨channel, hchannel, h⟩ := Option.bind_eq_some_iff.mp h
    cases h
    exact .dropReceiver hchannel

section Points

variable (shared : Shared)

theorem holds_closeServices (ports : List UInt16) :
    (shared.closeServices ports).2.holds = Call.dropSender.holds := by
  induction ports generalizing shared with
  | nil => rfl
  | cons port ports ih =>
    simp only [Shared.closeServices]
    split
    · exact ih _
    · rfl

theorem holds_sendNext (channel : Nat) (events : List PortEvent) :
    (Shared.sendNext channel events).holds = [(.portServiceMap, .read)] := by
  cases events <;> rfl

/-- A call that gets the lock it wants holds it beside those it held. -/
theorem mem_holds_enter (orders : Orders) {call : Call} {l : LockName} {mode : Mode}
    (h : call.wants = some (l, mode)) (l' : LockName) (mode' : Mode) :
    (l', mode') ∈ (shared.enter orders call).2.holds ↔
      (l', mode') ∈ call.holds ∨ (l', mode') = (l, mode) := by
  cases call with
  | processEvent discovery event =>
    cases h
    cases event with
    | add uid isAvailable port protocol address backendProtocol =>
      simp only [Shared.enter]
      split <;> simp [Call.holds]
    | delete uid => simp [Shared.enter, Call.holds]
    | suspend uid => simp [Shared.enter, Call.holds]
    | resume uid => simp [Shared.enter, Call.holds]
  | openPort port protocol =>
    cases h
    simp only [Shared.enter]
    split <;> simp [Call.holds]
  | closePorts ports =>
    cases h
    simp only [Shared.enter]
    rw [holds_closeServices]
    simp [Call.holds]
  | sendPortEventsTo channel =>
    cases h
    simp only [Shared.enter]
    rw [holds_sendNext]
    simp [Call.holds]
  | install channel =>
    cases h
    simp [Shared.enter, Call.holds]
  | getEndpointFor port index =>
    cases h
    simp [Shared.enter, Call.holds]
  | registerEndpointDiscovery name =>
    cases h
    simp [Shared.enter, Call.holds]
  | lockMetrics name =>
    cases h
    simp only [Shared.enter]
    split <;> simp [Call.holds]
  | _ => cases h

/-- A send changes no lock. -/
theorem holds_sent {call : Call} {c : Nat} {event : PortEvent}
    (h : call.sending = some (c, event)) : (shared.sent call).2.holds = call.holds := by
  cases call with
  | sendEvent channel event ports => exact holds_closeServices shared ports
  | sendOpen channel event rest => exact holds_sendNext channel rest
  | _ => cases h

theorem holds_sendFailed (call : Call) : (Shared.sendFailed call).holds = call.holds := by
  cases call <;> rfl

theorem mem_holds_dropping {call next : Call} {l : LockName} (h : call.dropping = some (l, next))
    (l' : LockName) (mode' : Mode) :
    (l', mode') ∈ next.holds ↔ (l', mode') ∈ call.holds ∧ l' ≠ l := by
  cases call <;> cases h <;> cases l' <;> simp [Call.holds]

theorem wants_of_sending {call : Call} {c : Nat} {event : PortEvent}
    (h : call.sending = some (c, event)) : call.wants = none := by
  cases call <;> first | rfl | cases h

theorem wants_of_dropping {call next : Call} {l : LockName} (h : call.dropping = some (l, next)) :
    call.wants = none := by
  cases call <;> first | rfl | cases h

theorem holds_start {call : Call} (h : call.isStart) : call.holds = [] := by
  cases call <;> first | rfl | cases h

theorem of_finished {call : Call} (h : call.isFinished) : call = .finished := by
  cases call <;> first | rfl | cases h

/-- A call that is not finished waits for a lock, sends, or drops a guard. -/
theorem progress_of_unfinished {call : Call} (h : ¬ call.isFinished) :
    call.wants.isSome ∨ call.sending.isSome ∨ call.dropping.isSome := by
  cases call <;> simp_all [Call.wants, Call.sending, Call.dropping, Call.isFinished]

end Points

/-- The locks of a configuration agree with the points of its calls. -/
abbrev Config.LocksAgree (config : Config) : Prop :=
  Agrees Call.wants Call.holds config.locks config.calls

theorem locksAgree_initial : Config.initial.LocksAgree where
  holders := by simp [Config.initial, RwLock.free, Call.holds]
  waiting := by simp [Config.initial, RwLock.free]
  nodup := by simp [Config.initial, RwLock.free]
  alone := by simp [Config.initial, RwLock.free]

theorem Transition.locksAgree {config config' : Config} {action : Action}
    (transition : Transition config action config') (agrees : config.LocksAgree) :
    config'.LocksAgree := by
  cases transition with
  | channel => exact agrees
  | call hfinished hstart =>
    have hcall := of_finished hfinished
    refine agrees.move (agrees.not_waiting (by rw [hcall]; rfl)) fun l mode => ?_
    rw [hcall, holds_start hstart]
    rfl
  | acquire hwants htakable =>
    exact agrees.take hwants htakable (mem_holds_enter _ _ hwants)
  | await hwants hnot => exact agrees.await hwants hnot
  | grant hnext =>
    obtain ⟨rest, hqueue, -⟩ := RwLock.next_eq_some.mp hnext
    have hwants := agrees.waiting _ _ _ (by rw [hqueue]; exact List.mem_cons_self)
    exact agrees.grant hnext (mem_holds_enter _ _ hwants)
  | send hsending =>
    refine agrees.move (agrees.not_waiting (wants_of_sending hsending)) fun l mode => ?_
    rw [holds_sent _ hsending]
  | sendFailed hsending =>
    refine agrees.move (agrees.not_waiting (wants_of_sending hsending)) fun l mode => ?_
    rw [holds_sendFailed]
  | release hdropping =>
    exact agrees.release (wants_of_dropping hdropping) (mem_holds_dropping hdropping)
  | receive => exact agrees
  | dropReceiver => exact agrees

theorem Execution.locksAgree {actions : List Action} {config : Config}
    (execution : Execution actions config) : config.LocksAgree := by
  induction execution with
  | nil => exact locksAgree_initial
  | snoc action _ step ih => exact (transition_of_step step).locksAgree ih

/-- The order in which the methods take the locks. -/
def LockName.rank : LockName → Nat
  | .portServiceMap | .registeredEndpointDiscoveryNames => 0
  | .portEventSender | .endpointDiscoveryMetrics => 1

theorem rank_lt_of_wants (call : Call) (l : LockName) (mode : Mode) (l' : LockName) (mode' : Mode)
    (hwants : call.wants = some (l, mode)) (hholds : (l', mode') ∈ call.holds) :
    l'.rank < l.rank := by
  cases call <;> cases hwants <;> simp_all [Call.holds, LockName.rank]

/-- Every channel that a call or the manager sends on exists. -/
structure Config.Known (config : Config) : Prop where
  calls : ∀ t c, (config.calls t).channel = some c → (config.channels c).isSome
  sender : ∀ c, config.shared.portEventSender = some c → (config.channels c).isSome

theorem closeServices_sender (shared : Shared) (ports : List UInt16) :
    (shared.closeServices ports).1.portEventSender = shared.portEventSender := by
  induction ports generalizing shared with
  | nil => rfl
  | cons port ports ih =>
    simp only [Shared.closeServices]
    split
    · exact ih _
    · rfl

theorem closeServices_channel {shared : Shared} {ports : List UInt16} {c : Nat}
    (h : (shared.closeServices ports).2.channel = some c) : shared.portEventSender = some c := by
  induction ports generalizing shared with
  | nil => cases h
  | cons port ports ih =>
    simp only [Shared.closeServices] at h
    split at h
    · have hsender := ih h
      exact hsender
    · rename_i channel hsender
      cases h
      exact hsender

theorem sendNext_channel (channel : Nat) (events : List PortEvent) :
    (Shared.sendNext channel events).channel = some channel := by
  cases events <;> rfl

theorem enter_sender (shared : Shared) (orders : Orders) (call : Call) {c : Nat}
    (h : (shared.enter orders call).1.portEventSender = some c) :
    shared.portEventSender = some c ∨ call.channel = some c := by
  unfold Shared.enter at h
  split at h <;> try exact .inl h
  · split at h <;> exact .inl h
  · split at h <;> exact .inl h
  · rw [closeServices_sender] at h
    exact .inl h
  · cases h
    exact .inr rfl
  · split at h <;> exact .inl h

theorem enter_channel (shared : Shared) (orders : Orders) (call : Call) {c : Nat}
    (h : (shared.enter orders call).2.channel = some c) :
    shared.portEventSender = some c ∨ call.channel = some c := by
  unfold Shared.enter at h
  split at h <;> try cases h
  · split at h <;> cases h
  · split at h
    · cases h
    · rename_i channel hsender
      cases h
      exact .inl hsender
  · exact .inl (closeServices_channel h)
  · rw [sendNext_channel] at h
    exact .inr h
  · split at h <;> cases h
  · exact .inr h

theorem sent_sender (shared : Shared) (call : Call) :
    (shared.sent call).1.portEventSender = shared.portEventSender := by
  unfold Shared.sent
  split
  · exact closeServices_sender shared _
  · rfl
  · rfl

theorem sent_channel (shared : Shared) (call : Call) {c : Nat}
    (h : (shared.sent call).2.channel = some c) :
    shared.portEventSender = some c ∨ call.channel = some c := by
  unfold Shared.sent at h
  split at h
  · exact .inl (closeServices_channel h)
  · rw [sendNext_channel] at h
    exact .inr h
  · exact .inr h

theorem sendFailed_channel (call : Call) {c : Nat}
    (h : (Shared.sendFailed call).channel = some c) : call.channel = some c := by
  cases call <;> first | exact h | cases h

theorem dropping_channel {call next : Call} {l : LockName} (h : call.dropping = some (l, next)) :
    next.channel = none := by
  cases call <;> cases h <;> rfl

theorem start_channel {call : Call} {c : Nat} (hstart : call.isStart)
    (h : call.channel = some c) : call = .sendPortEventsTo c := by
  cases call <;> simp_all [Call.isStart, Call.channel]

theorem channel_of_sending {call : Call} {c : Nat} {event : PortEvent}
    (h : call.sending = some (c, event)) : call.channel = some c := by
  cases call <;> cases h <;> rfl

namespace Config.Known

variable {config : Config}

/-- A call that uses only channels that exist may move on. -/
theorem moved (known : config.Known) {t : Nat} {call : Call} {shared : Shared}
    {locks : LockName → RwLock Nat}
    (hcall : ∀ c, call.channel = some c → (config.channels c).isSome)
    (hsender : ∀ c, shared.portEventSender = some c → (config.channels c).isSome) :
    Config.Known { config with shared, locks, calls := Function.update config.calls t call } where
  calls := (Function.forall_update_iff config.calls fun _ call =>
    ∀ c, call.channel = some c → (config.channels c).isSome).mpr ⟨hcall, fun t' _ => known.calls t'⟩
  sender := hsender

/-- Channels are changed but not removed. -/
theorem changed (known : config.Known) (c : Nat) (channel : Channel PortEvent) :
    Config.Known
      { config with channels := Function.update config.channels c (some channel) } := by
  have hstays : ∀ c', (config.channels c').isSome →
      (Function.update config.channels c (some channel) c').isSome := by
    intro c' h
    by_cases hc : c' = c
    · rw [hc, Function.update_self]
      rfl
    · rw [Function.update_of_ne hc]
      exact h
  exact ⟨fun t c' h => hstays c' (known.calls t c' h), fun c' h => hstays c' (known.sender c' h)⟩

theorem enter (known : config.Known) (t : Nat) (orders : Orders) (l : LockName)
    (lock : RwLock Nat) : (config.enter t orders l lock).Known := by
  refine known.moved (fun c h => ?_) fun c h => ?_
  · rcases enter_channel _ _ _ h with h | h
    · exact known.sender c h
    · exact known.calls t c h
  · rcases enter_sender _ _ _ h with h | h
    · exact known.sender c h
    · exact known.calls t c h

end Config.Known

theorem Transition.known {config config' : Config} {action : Action}
    (transition : Transition config action config') (known : config.Known) : config'.Known := by
  cases transition with
  | channel => exact known.changed _ _
  | @call t start hfinished hstart hknows =>
    refine known.moved (fun c h => ?_) known.sender
    rw [start_channel hstart h] at hknows
    exact hknows
  | acquire => exact known.enter _ _ _ _
  | await => exact ⟨known.calls, known.sender⟩
  | grant => exact known.enter _ _ _ _
  | @send t c event channel channel' hsending hchannel =>
    refine Config.Known.changed (known.moved (fun c h => ?_) fun c h => ?_) c channel'
    · rcases sent_channel _ _ h with h | h
      · exact known.sender c h
      · exact known.calls t c h
    · rw [sent_sender] at h
      exact known.sender c h
  | @sendFailed t =>
    exact known.moved (fun c h => known.calls t c (sendFailed_channel _ h)) known.sender
  | release hdropping =>
    refine known.moved (fun c h => ?_) known.sender
    rw [dropping_channel hdropping] at h
    cases h
  | receive => exact known.changed _ _
  | dropReceiver => exact known.changed _ _

theorem Execution.known {actions : List Action} {config : Config}
    (execution : Execution actions config) : config.Known := by
  induction execution with
  | nil => exact ⟨by simp [Config.initial, Call.channel], by simp [Config.initial, Shared.new]⟩
  | snoc action _ step ih => exact (transition_of_step step).known ih

/-- The steps by which the calls and the consumers make progress: a lock is acquired, a send ends, a
guard is dropped, or a consumer receives an event from a channel on which a call sends. -/
def Config.Progresses (config : Config) : Action → Prop
  | .acquire .. | .grant .. | .send _ | .release _ => True
  | .receive c => ∃ t event, (config.calls t).sending = some (c, event)
  | _ => False

/-- A call that sends can go on, or its consumer can. -/
theorem Config.Known.send_or_receive {config : Config} (known : config.Known) {t c : Nat}
    {event : PortEvent} (h : (config.calls t).sending = some (c, event)) :
    (config.step (.send t)).isSome ∨ (config.step (.receive c)).isSome := by
  obtain ⟨channel, hchannel⟩ :=
    Option.isSome_iff_exists.mp (known.calls t c (channel_of_sending h))
  cases halive : channel.receiverAlive with
  | false =>
    left
    simp [Config.step, h, hchannel, Config.send, halive]
  | true =>
    rcases channel.push_or_receive event with hpush | hreceive
    · left
      obtain ⟨channel', hpush⟩ := Option.isSome_iff_exists.mp hpush
      simp [Config.step, h, hchannel, Config.send, halive, hpush]
    · right
      obtain ⟨channel', hreceive⟩ := Option.isSome_iff_exists.mp hreceive
      simp [Config.step, hchannel, halive, hreceive]

/-- A call that wants no lock and is not finished can go on, or its consumer can. -/
theorem Config.Known.running {config : Config} (known : config.Known) {t : Nat}
    (hwants : (config.calls t).wants = none) (hunfinished : ¬ (config.calls t).isFinished) :
    ∃ action, config.Progresses action ∧ (config.step action).isSome := by
  rcases progress_of_unfinished hunfinished with h | h | h
  · rw [hwants] at h
    cases h
  · obtain ⟨⟨c, event⟩, h⟩ := Option.isSome_iff_exists.mp h
    rcases known.send_or_receive h with hstep | hstep
    · exact ⟨.send t, trivial, hstep⟩
    · exact ⟨.receive c, ⟨t, event, h⟩, hstep⟩
  · obtain ⟨⟨l, call⟩, h⟩ := Option.isSome_iff_exists.mp h
    exact ⟨.release t, trivial, by simp [Config.step, h]⟩

/-- The orders of iteration that visit ports and endpoints from the least on. -/
def Orders.ascending : Orders where
  ports := StateProxy.Backend.ascending
  endpoints := .sortedBy (fun id => toLex (id.endpointDiscoveryName, id.uid))
    EndpointId.toLex_injective

/-- In every reachable configuration with an unfinished call, some call or consumer can go on. -/
theorem locking_deadlock_free {actions : List Action} {config : Config}
    (execution : Execution actions config) (orders : Orders) {t : Nat}
    (hunfinished : ¬ (config.calls t).isFinished) :
    ∃ action, config.Progresses action ∧ (config.step action).isSome := by
  have agrees := execution.locksAgree
  have known := execution.known
  cases hwants : (config.calls t).wants with
  | none => exact known.running hwants hunfinished
  | some wanted =>
    have hbound : ∀ l : LockName, l.rank < 2 := by
      intro l
      cases l <;> decide
    rcases agrees.exists_takable_or_running LockName.rank 2 hbound rank_lt_of_wants hwants with
      ⟨l, t', mode, hnext⟩ | ⟨t', l, mode, hwants', htakable⟩ | ⟨t', l, mode, hholds, hwants'⟩
    · exact ⟨.grant l orders, trivial, by simp [Config.step, hnext]⟩
    · exact ⟨.acquire t' orders, trivial, by simp [Config.step, hwants', htakable]⟩
    · refine known.running hwants' fun hfinished => ?_
      rw [of_finished hfinished] at hholds
      simp [Call.holds] at hholds

/-- A deletion that has the service map, beside a selection that waits for it. -/
def waitingReader : List Action :=
  [.call 0 (.processEvent "kubernetes" (.delete "pod")), .call 1 (.getEndpointFor 80 0),
    .acquire 0 .ascending, .await 1]

theorem locking_deadlock_free_of_waiting_reader :
    ∃ config, Execution waitingReader config ∧ ¬ (config.calls 1).isFinished ∧
      ∃ action, config.Progresses action ∧ (config.step action).isSome := by
  obtain ⟨config, hrun, hunfinished⟩ : ∃ config, waitingReader.foldlM Config.step .initial =
      some config ∧ ¬ (config.calls 1).isFinished := ⟨_, rfl, by decide⟩
  have execution : Execution waitingReader config := Execution.nil.trans hrun
  exact ⟨config, execution, hunfinished, locking_deadlock_free execution .ascending hunfinished⟩

end StateProxy.Backend
