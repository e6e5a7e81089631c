import StateProxy.Backend.Consumers

/-! Every execution of the manager's methods beside each other is one of the methods run one after
the other: `process_event` takes effect when it gets the write lock on the service map, and
`send_port_events_to` when it gets the write lock on the sender.  The call with the write lock on
the service map may still have services to remove and port events to send; apart from these the
configuration is the serial manager's. -/

namespace StateProxy.Backend

open Net ProofKit ServiceManager

namespace Call

/-- The services without endpoints that a call has still to remove. -/
def toClose : Call → List UInt16
  | .closePorts ports => ports
  | .sendEvent _ _ ports => ports
  | _ => []

/-- The port events that a call has still to send to the manager's consumer. -/
def pending : Call → List PortEvent
  | .openPort port protocol => [.openPort port protocol]
  | .closePorts ports => ports.map .closePort
  | .sendEvent _ event ports => event :: ports.map .closePort
  | _ => []

/-- The call has the write lock on the service map. -/
def Writes (call : Call) : Prop :=
  (.portServiceMap, .write) ∈ call.holds

theorem not_writes_of_reads {call : Call} (h : (.portServiceMap, .read) ∈ call.holds) :
    ¬ call.Writes := by
  cases call with
  | dropMap mode =>
    cases mode <;> simp_all [Writes, holds]
  | _ => simp_all [Writes, holds]

end Call

/-- `call` has the write lock on the service map, or nobody has it and `call` is finished. -/
inductive Writing (calls : Nat → Call) : Call → Prop
  | writer (t : Nat) : (calls t).Writes → Writing calls (calls t)
  | nobody : (∀ t, ¬ (calls t).Writes) → Writing calls .finished

namespace Writing

variable {calls : Nat → Call} {call : Call}

theorem eq_finished (writing : Writing calls call) (h : ∀ t, ¬ (calls t).Writes) :
    call = .finished := by
  cases writing with
  | writer t hwrites => exact (h t hwrites).elim
  | nobody => rfl

/-- A call without the write lock goes on without it. -/
theorem moved (writing : Writing calls call) {t : Nat} {next : Call} (h : ¬ (calls t).Writes)
    (hnext : ¬ next.Writes) : Writing (Function.update calls t next) call := by
  cases writing with
  | writer t' hwrites =>
    have hne : t' ≠ t := fun heq => h (heq ▸ hwrites)
    have hsame : Function.update calls t next t' = calls t' := Function.update_of_ne hne _ _
    rw [← hsame] at hwrites ⊢
    exact .writer t' hwrites
  | nobody hnobody =>
    exact .nobody ((Function.forall_update_iff calls fun _ call => ¬ call.Writes).mpr
      ⟨hnext, fun t' _ => hnobody t'⟩)

theorem self {t : Nat} {next : Call} (h : next.Writes) :
    Writing (Function.update calls t next) next := by
  have hself : Function.update calls t next t = next := Function.update_self _ _ _
  have hwriter : Writing (Function.update calls t next) (Function.update calls t next t) :=
    .writer t (by rwa [hself])
  rwa [hself] at hwriter

end Writing

section Locks

variable {config : Config} (agrees : config.LocksAgree)

include agrees

theorem writing_eq_of_writes {t : Nat} {call : Call} (writing : Writing config.calls call)
    (h : (config.calls t).Writes) : call = config.calls t := by
  cases writing with
  | writer t' hwrites => rw [agrees.eq_of_write h hwrites]
  | nobody hnobody => exact (hnobody t h).elim

/-- Beside a call with a read lock on the service map nobody has the write lock. -/
theorem not_writes_beside {t : Nat} (h : (.portServiceMap, .read) ∈ (config.calls t).holds)
    (t' : Nat) : ¬ (config.calls t').Writes := by
  intro hwrites
  rw [agrees.eq_of_write hwrites h] at h
  exact Call.not_writes_of_reads h hwrites

/-- When the last writer drops the lock, nobody has it. -/
theorem not_writes_after {t : Nat} {next : Call} (h : (config.calls t).Writes)
    (hnext : ¬ next.Writes) (t' : Nat) : ¬ (Function.update config.calls t next t').Writes := by
  revert t'
  refine (Function.forall_update_iff config.calls fun _ call => ¬ call.Writes).mpr
    ⟨hnext, fun t' ht hwrites => ht ?_⟩
  exact agrees.eq_of_write h hwrites

theorem not_writes_of_admits (h : RwLock.Admits (config.locks .portServiceMap).holders .write)
    (t : Nat) : ¬ (config.calls t).Writes := by
  intro hwrites
  have hmem := (agrees.holders .portServiceMap t .write).mpr hwrites
  have hnone : (config.locks .portServiceMap).holders = [] := h
  rw [hnone] at hmem
  cases hmem

end Locks

/-- The serial manager of a configuration in which `call` has still some of its work to do. -/
structure Config.Represents (config : Config) (call : Call) (m : ServiceManager) : Prop where
  writing : Writing config.calls call
  map : m.portServiceMap = eraseAll config.shared.portServiceMap call.toClose
  sender : m.portEventSender =
    config.shared.portEventSender.map fun c => ⟨config.log c ++ call.pending, none⟩

/-- Between two configurations the serial manager makes at most one call, and only
`send_port_events_to` changes the consumer. -/
inductive SerialStep (config config' : Config) (m : ServiceManager) : ServiceManager → Prop
  | stay (hsender : config'.shared.portEventSender = config.shared.portEventSender) :
      SerialStep config config' m m
  | processEvent {m' : ServiceManager} (order : IterOrder UInt16) (discovery : String)
      (event : EndpointEvent)
      (hsender : config'.shared.portEventSender = config.shared.portEventSender)
      (h : processEvent order discovery event m = .ok () m') : SerialStep config config' m m'
  | sendPortEventsTo (order : IterOrder UInt16) :
      SerialStep config config' m (m.sendPortEventsTo order .new)

theorem Serial.step {config config' : Config} {m m' : ServiceManager} (serial : Serial m)
    (h : SerialStep config config' m m') : Serial m' := by
  cases h with
  | stay => exact serial
  | processEvent order discovery event _ h => exact serial.processEvent order discovery event h
  | sendPortEventsTo order => exact serial.sendPortEventsTo order

theorem closeServices_toClose (shared : Shared) (ports : List UInt16) :
    eraseAll (shared.closeServices ports).1.portServiceMap (shared.closeServices ports).2.toClose =
      eraseAll shared.portServiceMap ports := by
  induction ports generalizing shared with
  | nil => rfl
  | cons port ports ih =>
    simp only [Shared.closeServices]
    split
    · exact ih _
    · rfl

theorem closeServices_pending {shared : Shared} {c : Nat} (h : shared.portEventSender = some c)
    (ports : List UInt16) :
    (shared.closeServices ports).2.pending = ports.map .closePort := by
  cases ports with
  | nil => rfl
  | cons port ports =>
    simp only [Shared.closeServices, h]
    rfl

/-- With the write lock on the service map, `process_event` does its effect, up to the work that it
has still to do. -/
theorem enter_processEvent (shared : Shared) (orders : Orders) (discovery : String)
    (event : EndpointEvent) :
    eraseAll (shared.enter orders (.processEvent discovery event)).1.portServiceMap
        (shared.enter orders (.processEvent discovery event)).2.toClose =
      (effect orders.ports discovery event shared.portServiceMap).map ∧
    (shared.enter orders (.processEvent discovery event)).2.pending =
      (effect orders.ports discovery event shared.portServiceMap).portEvents := by
  cases event with
  | add uid isAvailable port protocol address backendProtocol =>
    cases hs : shared.portServiceMap.lookup port with
    | none =>
      simp only [Shared.enter, effect, hs]
      exact ⟨rfl, rfl⟩
    | some service =>
      simp only [Shared.enter, effect, hs]
      exact ⟨rfl, rfl⟩
  | delete uid => exact ⟨rfl, rfl⟩
  | suspend uid => exact ⟨rfl, rfl⟩
  | resume uid => exact ⟨rfl, rfl⟩

/-- A call that has the write lock on the service map and gets the sender keeps what it has still to
do. -/
theorem enter_works (shared : Shared) (orders : Orders) {call : Call} {l : LockName} {mode : Mode}
    (hwants : call.wants = some (l, mode)) (hwrites : call.Writes) :
    eraseAll (shared.enter orders call).1.portServiceMap (shared.enter orders call).2.toClose =
      eraseAll shared.portServiceMap call.toClose ∧
    (shared.enter orders call).1.portEventSender = shared.portEventSender ∧
    ∀ c, shared.portEventSender = some c → (shared.enter orders call).2.pending = call.pending := by
  cases call with
  | openPort port protocol =>
    cases hs : shared.portEventSender with
    | none =>
      simp only [Shared.enter, hs]
      exact ⟨rfl, trivial, fun c h => by cases h⟩
    | some c =>
      simp only [Shared.enter, hs]
      exact ⟨rfl, trivial, fun _ _ => rfl⟩
  | closePorts ports =>
    exact ⟨closeServices_toClose shared ports, closeServices_sender shared ports,
      fun c h => closeServices_pending h ports⟩
  | _ => simp_all [Call.Writes, Call.holds, Call.wants]

theorem eq_processEvent_of_wants {call : Call}
    (h : call.wants = some (.portServiceMap, .write)) :
    ∃ discovery event, call = .processEvent discovery event := by
  cases call with
  | processEvent discovery event => exact ⟨discovery, event, rfl⟩
  | _ => cases h

/-- A call that drops a guard has done its work. -/
theorem dropping_settled {call next : Call} {l : LockName} (h : call.dropping = some (l, next)) :
    (call.toClose = [] ∧ next.toClose = []) ∧ call.pending = [] ∧ next.pending = [] := by
  cases call <;> cases h <;> exact ⟨⟨rfl, rfl⟩, rfl, rfl⟩

namespace Config.Represents

variable {config : Config} {call : Call} {m : ServiceManager}

/-- A call without the write lock goes on and changes neither map nor sender. -/
theorem moved (represents : config.Represents call m) {t : Nat} {next : Call} {shared : Shared}
    {channels : Nat → Option (Channel PortEvent)} {locks : LockName → RwLock Nat}
    (h : ¬ (config.calls t).Writes) (hnext : ¬ next.Writes)
    (hmap : shared.portServiceMap = config.shared.portServiceMap)
    (hsender : shared.portEventSender = config.shared.portEventSender)
    (hlog : ∀ c, shared.portEventSender = some c →
      (⟨shared, channels, locks, config.calls⟩ : Config).log c = config.log c) :
    Config.Represents ⟨shared, channels, locks, Function.update config.calls t next⟩ call m where
  writing := represents.writing.moved h hnext
  map := by rw [represents.map, hmap]
  sender := by
    rw [represents.sender, ← hsender]
    refine Option.map_congr fun c hc => ?_
    rw [← hlog c hc]
    rfl

/-- A channel changes, but not its events. -/
theorem changed (represents : config.Represents call m) {c : Nat} {channel : Channel PortEvent}
    (hlog : channel.log = config.log c) : Config.Represents
      { config with channels := Function.update config.channels c (some channel) } call m := by
  have hsame := log_update config c channel
  rw [hlog, Function.update_eq_self] at hsame
  refine ⟨represents.writing, represents.map, ?_⟩
  rw [hsame]
  exact represents.sender

/-- A call with the write lock goes on with its work. -/
theorem worked (represents : config.Represents call m) (agrees : config.LocksAgree) {t : Nat}
    {next : Call} {shared : Shared} {channels : Nat → Option (Channel PortEvent)}
    {locks : LockName → RwLock Nat} (h : (config.calls t).Writes) (hnext : next.Writes)
    (hmap : eraseAll shared.portServiceMap next.toClose =
      eraseAll config.shared.portServiceMap (config.calls t).toClose)
    (hsender : shared.portEventSender = config.shared.portEventSender)
    (hlog : ∀ c, shared.portEventSender = some c →
      (⟨shared, channels, locks, config.calls⟩ : Config).log c ++ next.pending =
        config.log c ++ (config.calls t).pending) :
    Config.Represents ⟨shared, channels, locks, Function.update config.calls t next⟩ next m where
  writing := Writing.self hnext
  map := by
    rw [represents.map, writing_eq_of_writes agrees represents.writing h]
    exact hmap.symm
  sender := by
    rw [represents.sender, writing_eq_of_writes agrees represents.writing h, ← hsender]
    refine Option.map_congr fun c hc => ?_
    rw [← hlog c hc]
    rfl

/-- `process_event` takes effect. -/
theorem processEvent (represents : config.Represents call m) (agrees : config.LocksAgree) {t : Nat}
    {orders : Orders} {discovery : String} {event : EndpointEvent}
    (hcall : config.calls t = .processEvent discovery event)
    (hadmits : RwLock.Admits (config.locks .portServiceMap).holders .write) (lock : RwLock Nat) :
    ∃ call' m', SerialStep config (config.enter t orders .portServiceMap lock) m m' ∧
      (config.enter t orders .portServiceMap lock).Represents call' m' := by
  obtain ⟨hmap, hpending⟩ := enter_processEvent config.shared orders discovery event
  have hwrites : (config.shared.enter orders (config.calls t)).2.Writes :=
    (mem_holds_enter config.shared orders (by rw [hcall]; rfl) _ _).mpr (.inr rfl)
  have hsender := (enter_sender_eq config.shared orders (config.calls t)).resolve_right (by
    rintro ⟨c, h⟩
    rw [hcall] at h
    cases h)
  have hidle := represents.writing.eq_finished (not_writes_of_admits agrees hadmits)
  subst hidle
  have hsame : m.portServiceMap = config.shared.portServiceMap := represents.map
  have hdeliver := deliver_of_stays (config.shared.portEventSender.map config.log)
    (effect orders.ports discovery event config.shared.portServiceMap).portEvents
  rw [Option.map_map, Option.map_map] at hdeliver
  have hbefore : m.portEventSender = config.shared.portEventSender.map
      ((fun sent => (⟨sent, none⟩ : Sender PortEvent)) ∘ config.log) := by
    rw [represents.sender]
    refine Option.map_congr fun c _ => ?_
    simp [Call.pending]
  rw [← hbefore, ← hsame] at hdeliver
  refine ⟨(config.shared.enter orders (config.calls t)).2, _, .processEvent orders.ports
    discovery event hsender (processEvent_ok.mpr ⟨_, hdeliver, rfl⟩), ?_⟩
  rw [Config.enter_eq]
  refine ⟨Writing.self hwrites, ?_, ?_⟩
  · rw [hsame, hcall]
    exact hmap.symm
  · change _ = Option.map _ (config.shared.enter orders (config.calls t)).1.portEventSender
    rw [hsender]
    refine Option.map_congr fun c _ => ?_
    rw [hcall, hpending, hsame]
    rfl

/-- `send_port_events_to` takes effect. -/
theorem install (represents : config.Represents call m) (agrees : config.LocksAgree)
    {passed : List Nat} (separate : config.Separate passed) {t c : Nat} {orders : Orders}
    (hcall : config.calls t = .install c) (l : LockName) (lock : RwLock Nat) :
    ∃ call' m', SerialStep config (config.enter t orders l lock) m m' ∧
      (config.enter t orders l lock).Represents call' m' := by
  have hreads : (.portServiceMap, .read) ∈ (config.calls t).holds := by
    rw [hcall]
    exact List.mem_cons_self
  have hidle := represents.writing.eq_finished (not_writes_beside agrees hreads)
  subst hidle
  have hfits := separate.fits t
  rw [hcall] at hfits
  obtain ⟨order, hlog⟩ := hfits
  refine ⟨.finished, m.sendPortEventsTo order .new, .sendPortEventsTo order, ?_⟩
  have hsame : m.portServiceMap = config.shared.portServiceMap := represents.map
  rw [sendPortEventsTo_new, hsame, Config.enter_eq, hcall]
  have hinstalled : ¬ Call.installed.Writes := by simp [Call.Writes, Call.holds]
  refine ⟨represents.writing.moved (not_writes_beside agrees hreads t) hinstalled, ?_, ?_⟩
  · rfl
  · change _ = some (⟨config.log c ++ [], none⟩ : Sender PortEvent)
    rw [List.append_nil, hlog]

/-- A call gets a lock. -/
theorem enter (represents : config.Represents call m) (agrees : config.LocksAgree)
    {passed : List Nat} (separate : config.Separate passed) {t : Nat} {orders : Orders}
    {l : LockName} {mode : Mode} (hwants : (config.calls t).wants = some (l, mode))
    (hadmits : RwLock.Admits (config.locks l).holders mode) (lock : RwLock Nat) :
    ∃ call' m', SerialStep config (config.enter t orders l lock) m m' ∧
      (config.enter t orders l lock).Represents call' m' := by
  have hholds := mem_holds_enter config.shared orders hwants .portServiceMap .write
  by_cases hnext : (config.shared.enter orders (config.calls t)).2.Writes
  · rcases hholds.mp hnext with hwrites | hwanted
    · obtain ⟨hmap, hsender, hpending⟩ := enter_works config.shared orders hwants hwrites
      rw [Config.enter_eq]
      refine ⟨_, m, .stay hsender, represents.worked agrees hwrites hnext hmap hsender fun c hc => ?_⟩
      rw [hpending c (hsender.symm.trans hc)]
      rfl
    · cases hwanted
      obtain ⟨discovery, event, hcall⟩ := eq_processEvent_of_wants hwants
      exact represents.processEvent agrees hcall hadmits lock
  · have hmap := (enter_map_eq config.shared orders (config.calls t)).resolve_right hnext
    rcases enter_sender_eq config.shared orders (config.calls t) with hsender | ⟨c, hcall⟩
    · have hnot : ¬ (config.calls t).Writes := fun h => hnext (hholds.mpr (.inl h))
      exact ⟨call, m, .stay hsender, represents.moved hnot hnext hmap hsender fun _ _ => rfl⟩
    · exact represents.install agrees separate hcall l lock

/-- A call sends an event. -/
theorem send (represents : config.Represents call m) (agrees : config.LocksAgree)
    {passed : List Nat} (separate : config.Separate passed) {t c : Nat} {event : PortEvent}
    {channel channel' : Channel PortEvent}
    (hsending : (config.calls t).sending = some (c, event))
    (hchannel : config.channels c = some channel) (hpush : channel.push event = some channel') :
    ∃ call', Config.Represents
      { config with
        shared := (config.shared.sent (config.calls t)).1
        channels := Function.update config.channels c (some channel')
        calls := Function.update config.calls t (config.shared.sent (config.calls t)).2 } call' m := by
  obtain ⟨hpushed, -⟩ := Channel.push_some hpush
  rw [← log_of_channel hchannel] at hpushed
  have hholds := holds_sent config.shared hsending
  obtain ⟨ports, hcall⟩ | ⟨rest, hcall⟩ := Call.sending_cases hsending
  · have hwrites : (config.calls t).Writes := by
      rw [hcall]
      exact List.mem_cons_self
    have hnext : (config.shared.sent (config.calls t)).2.Writes := by
      rw [Call.Writes, hholds]
      exact hwrites
    have hfits := separate.fits t
    rw [hcall] at hfits
    refine ⟨_, represents.worked agrees hwrites hnext ?_ (sent_sender _ _) fun c' hc' => ?_⟩
    · rw [hcall]
      exact closeServices_toClose config.shared ports
    · rw [sent_sender] at hc'
      obtain rfl : c' = c := Option.some.inj (hc'.symm.trans hfits)
      have hpending := closeServices_pending hc' ports
      have hlog := congrFun (log_update config c' channel') c'
      rw [Function.update_self] at hlog
      rw [hcall]
      change Config.log { config with channels := _ } c' ++ _ = _
      rw [hlog, hpushed, List.append_assoc]
      exact congrArg _ (congrArg _ hpending)
  · have hnot : ¬ (config.calls t).Writes := by
      rw [hcall]
      exact Call.not_writes_of_reads List.mem_cons_self
    have hnext : ¬ (config.shared.sent (config.calls t)).2.Writes := by
      rw [Call.Writes, hholds]
      exact hnot
    have hoffered := separate.offered t c
    rw [hcall] at hnext hoffered ⊢
    refine ⟨call, represents.moved hnot hnext rfl rfl fun c' hc' => ?_⟩
    have hne : c' ≠ c := by
      rintro rfl
      exact (hoffered rfl).2 hc'
    have hlog := congrFun (log_update config c channel') c'
    rw [Function.update_of_ne hne] at hlog
    exact hlog

/-- A call drops a guard. -/
theorem release (represents : config.Represents call m) (agrees : config.LocksAgree) {t : Nat}
    {l : LockName} {next : Call} (hdropping : (config.calls t).dropping = some (l, next))
    (locks : LockName → RwLock Nat) :
    ∃ call', Config.Represents
      { config with locks, calls := Function.update config.calls t next } call' m := by
  have hholds := mem_holds_dropping hdropping .portServiceMap .write
  obtain ⟨hclose, hpending⟩ := dropping_settled hdropping
  by_cases hnext : next.Writes
  · have hwrites : (config.calls t).Writes := (hholds.mp hnext).1
    refine ⟨next, represents.worked agrees hwrites hnext ?_ rfl fun c _ => ?_⟩
    · rw [hclose.1, hclose.2]
    · rw [hpending.1, hpending.2]
      rfl
  · by_cases hwrites : (config.calls t).Writes
    · have heq := writing_eq_of_writes agrees represents.writing hwrites
      subst heq
      refine ⟨.finished, .nobody (not_writes_after agrees hwrites hnext), ?_, ?_⟩
      · rw [represents.map, hclose.1]
        rfl
      · rw [represents.sender, hpending.1]
        rfl
    · exact ⟨call, represents.moved hwrites hnext rfl rfl fun _ _ => rfl⟩

end Config.Represents

/-- One action of the methods beside each other is at most one call of a method run alone, but for a send
that fails. -/
theorem Transition.represents {config config' : Config} {action : Action} {passed : List Nat}
    (transition : Transition config action config') (agrees : config.LocksAgree)
    (separate : config.Separate passed) {call : Call} {m : ServiceManager}
    (represents : config.Represents call m) :
    (∃ call' m', SerialStep config config' m m' ∧ config'.Represents call' m') ∨
      ∃ t c event channel, (config.calls t).sending = some (c, event) ∧
        config.channels c = some channel ∧ ¬ channel.receiverAlive ∧ config' = { config with
          calls := Function.update config.calls t (Shared.sendFailed (config.calls t)) } := by
  cases transition with
  | channel hfree =>
    refine .inl ⟨call, m, .stay rfl, represents.changed ?_⟩
    simp [Config.log, hfree, Channel.new, Channel.log]
  | @call t start hfinished hstart hknows =>
    have hnot : ¬ (config.calls t).Writes := by
      rw [of_finished hfinished]
      simp [Call.Writes, Call.holds]
    have hnext : ¬ start.Writes := by simp [Call.Writes, holds_start hstart]
    exact .inl ⟨call, m, .stay rfl, represents.moved hnot hnext rfl rfl fun _ _ => rfl⟩
  | acquire hwants htakable =>
    exact .inl (represents.enter agrees separate hwants htakable.2 _)
  | await => exact .inl ⟨call, m, .stay rfl, represents.writing, represents.map, represents.sender⟩
  | grant hnext =>
    obtain ⟨rest, hqueue, hadmits⟩ := RwLock.next_eq_some.mp hnext
    have hwants := agrees.waiting _ _ _ (by rw [hqueue]; exact List.mem_cons_self)
    exact .inl (represents.enter agrees separate hwants hadmits _)
  | send hsending hchannel halive hpush =>
    obtain ⟨call', represents'⟩ := represents.send agrees separate hsending hchannel hpush
    exact .inl ⟨call', m, .stay (sent_sender _ _), represents'⟩
  | sendFailed hsending hchannel hdropped =>
    exact .inr ⟨_, _, _, _, hsending, hchannel, hdropped, rfl⟩
  | release hdropping =>
    obtain ⟨call', represents'⟩ := represents.release agrees hdropping _
    exact .inl ⟨call', m, .stay rfl, represents'⟩
  | receive hchannel hreceive =>
    refine .inl ⟨call, m, .stay rfl, represents.changed ?_⟩
    rw [(Channel.receive_some hreceive).1, log_of_channel hchannel]
  | dropReceiver hchannel =>
    refine .inl ⟨call, m, .stay rfl, represents.changed ?_⟩
    rw [log_of_channel hchannel]
    rfl

/-- The actions of an execution in which every consumer has a channel of its own and stays. -/
structure OwnChannels (actions : List Action) : Prop where
  own : (actions.filterMap Action.passes).Nodup
  kept : ∀ c, .dropReceiver c ∉ actions

theorem OwnChannels.of_snoc {actions : List Action} {action : Action}
    (h : OwnChannels (actions ++ [action])) : OwnChannels actions := by
  refine ⟨?_, fun c hmem => h.kept c (List.mem_append_left _ hmem)⟩
  have hown := h.own
  rw [List.filterMap_append] at hown
  exact hown.of_append_left

/-- A receiver goes away only when it is dropped. -/
theorem Execution.alive {actions : List Action} {config : Config}
    (execution : Execution actions config) (hkept : ∀ c, .dropReceiver c ∉ actions) :
    ∀ c channel, config.channels c = some channel → channel.receiverAlive := by
  induction execution with
  | nil => exact fun c channel h => nomatch h
  | @snoc actions config config' action before step ih =>
    have alive := ih fun c hmem => hkept c (List.mem_append_left _ hmem)
    have hupdate : ∀ {c : Nat} {channel : Channel PortEvent}, channel.receiverAlive →
        ∀ c' channel', Function.update config.channels c (some channel) c' = some channel' →
          channel'.receiverAlive := by
      intro c channel hchannel
      refine (Function.forall_update_iff config.channels fun _ entry => ∀ channel',
        entry = some channel' → channel'.receiverAlive).mpr ⟨fun channel' h => ?_, fun c' _ => alive c'⟩
      cases h
      exact hchannel
    cases transition_of_step step with
    | channel => exact hupdate rfl
    | send hsending hchannel halive hpush =>
      exact hupdate ((Channel.push_some hpush).2.trans halive)
    | receive hchannel hreceive =>
      exact hupdate ((Channel.receive_some hreceive).2.trans (alive _ _ hchannel))
    | @dropReceiver c => exact (hkept c (by simp)).elim
    | _ => exact alive

theorem Config.represents_initial : Config.initial.Represents .finished .new := by
  refine ⟨.nobody ?_, rfl, rfl⟩
  simp [Config.initial, Call.Writes, Call.holds]

/-- Every execution is one of the methods run one after the other. -/
theorem Execution.represents {actions : List Action} {config : Config}
    (execution : Execution actions config) (channels : OwnChannels actions) :
    ∃ call m, Serial m ∧ config.Represents call m := by
  induction execution with
  | nil => exact ⟨.finished, .new, .new, Config.represents_initial⟩
  | @snoc actions config config' action before step ih =>
    obtain ⟨call, m, serial, represents⟩ := ih channels.of_snoc
    have transition := transition_of_step step
    have separate := before.separate channels.of_snoc.own
    obtain ⟨call', m', hserial, represents'⟩ | ⟨t, c, event, channel, -, hchannel, hdropped, -⟩ :=
      transition.represents before.locksAgree separate represents
    · exact ⟨call', m', serial.step hserial, represents'⟩
    · exact (hdropped (before.alive channels.of_snoc.kept c channel hchannel)).elim

/-- A point of no call to `process_event` or `send_port_events_to`. -/
def Call.isQuiet : Call → Bool
  | .finished | .getEndpointFor .. | .gotEndpoint _ => true
  | .registerEndpointDiscovery _ | .lockMetrics _ | .dropMetrics _ | .dropNames _ => true
  | _ => false

theorem not_writes_of_isQuiet {call : Call} (h : call.isQuiet) : ¬ call.Writes := by
  cases call <;> simp_all [Call.isQuiet, Call.Writes, Call.holds]

/-- Whenever no call to `process_event` or `send_port_events_to` is in progress, the events that the
installed consumer was sent, replayed from no open port on, are legal and open exactly the ports of
the service map with their protocols. -/
theorem port_events_mirror_service_map {actions : List Action} {config : Config}
    (execution : Execution actions config) (channels : OwnChannels actions)
    (hquiet : ∀ t, (config.calls t).isQuiet) {c : Nat}
    (hinstalled : config.shared.portEventSender = some c) :
    ∃ channel, config.channels c = some channel ∧
      replay (channel.received ++ channel.buffer) (fun _ => none) =
        some (protocolAt config.shared.portServiceMap) := by
  obtain ⟨call, m, serial, represents⟩ := execution.represents channels
  have hidle := represents.writing.eq_finished fun t => not_writes_of_isQuiet (hquiet t)
  subst hidle
  obtain ⟨channel, hchannel⟩ := Option.isSome_iff_exists.mp (execution.known.sender c hinstalled)
  have hsender := represents.sender
  rw [hinstalled, Option.map_some, log_of_channel hchannel] at hsender
  have hmirrored := serial.mirrored.2 _ hsender
  rw [represents.map, Mirrored] at hmirrored
  refine ⟨channel, hchannel, ?_⟩
  simpa [Call.pending, Call.toClose, Channel.log] using hmirrored

/-- A consumer is registered when a port is already open, and the port is closed later. -/
def registration : List Action :=
  [.channel 0 1, .call 0 (.processEvent "kubernetes" (.add "pod" true 80 "http"
      (.v4 ⟨10, 0, 0, 1⟩ 8080) "http")), .acquire 0 .ascending, .acquire 0 .ascending, .release 0,
    .release 0, .call 1 (.sendPortEventsTo 0), .acquire 1 .ascending, .send 1,
    .acquire 1 .ascending, .release 1, .release 1, .receive 0,
    .call 0 (.processEvent "kubernetes" (.delete "pod")), .acquire 0 .ascending,
    .acquire 0 .ascending, .send 0, .release 0, .release 0]

theorem port_events_mirror_registration :
    ∃ config, Execution registration config ∧ config.shared.portEventSender = some 0 ∧
      ∃ channel, config.channels 0 = some channel ∧
        replay (channel.received ++ channel.buffer) (fun _ => none) =
          some (protocolAt config.shared.portServiceMap) := by
  obtain ⟨config, hrun, hquiet, hsender⟩ : ∃ config, registration.foldlM Config.step .initial =
      some config ∧ (∀ t, (config.calls t).isQuiet) ∧ config.shared.portEventSender = some 0 :=
    ⟨_, rfl, fun t => by rcases t with _ | _ | t <;> rfl, rfl⟩
  have execution : Execution registration config := Execution.nil.trans hrun
  have channels : OwnChannels registration := ⟨by decide, by simp [registration]⟩
  exact ⟨config, execution, hsender,
    port_events_mirror_service_map execution channels hquiet hsender⟩

end StateProxy.Backend
