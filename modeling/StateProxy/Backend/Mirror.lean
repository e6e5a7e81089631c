import StateProxy.Backend.Calls
import StateProxy.Backend.Invariant

/-! Port events mirror the service map when the manager's methods run one after the other.  A
consumer that replays the events it was sent, from no open port on, is never told to open an open
port or to close a closed one, and arrives at the ports and protocols of the service map. -/

namespace StateProxy.Backend

open Net ProofKit ServiceManager

/-- The open ports, with their protocols, after a port event; `none` when the event opens an open
port or closes a closed one. -/
def PortEvent.apply (ports : UInt16 → Option String) :
    PortEvent → Option (UInt16 → Option String)
  | .openPort port protocol =>
    if ports port = none then some (Function.update ports port (some protocol)) else none
  | .closePort port => if ports port = none then none else some (Function.update ports port none)

/-- The open ports after a list of port events, when each of them is legal. -/
def replay (events : List PortEvent) (ports : UInt16 → Option String) :
    Option (UInt16 → Option String) :=
  events.foldlM PortEvent.apply ports

theorem replay_append (events more : List PortEvent) (ports : UInt16 → Option String) :
    replay (events ++ more) ports = (replay events ports).bind (replay more) :=
  List.foldlM_append

theorem replay_cons (event : PortEvent) (events : List PortEvent) (ports : UInt16 → Option String) :
    replay (event :: events) ports = (event.apply ports).bind (replay events) := rfl

/-- Every service is stored under its port. -/
def Keyed (map : ServiceMap) : Prop :=
  ∀ p s, map.lookup p = some s → s.port = p

theorem WellFormed.keyed {map : ServiceMap} (wf : WellFormed map) : Keyed map :=
  fun _ _ hs => wf.port hs

/-- Opening the services of distinct closed ports. -/
theorem replay_open {map : ServiceMap} (keyed : Keyed map) {keys : List UInt16}
    (hnodup : keys.Nodup) {ports : UInt16 → Option String} (hclosed : ∀ p ∈ keys, ports p = none) :
    replay ((keys.filterMap map.lookup).map fun s => .openPort s.port s.protocol) ports =
      some fun p => if p ∈ keys then protocolAt map p else ports p := by
  induction keys generalizing ports with
  | nil => rfl
  | cons key keys ih =>
    obtain ⟨hnot, hrest⟩ := List.nodup_cons.mp hnodup
    have hkey : ports key = none := hclosed key List.mem_cons_self
    have hkeys : ∀ p ∈ keys, ports p = none := fun p hp => hclosed p (List.mem_cons_of_mem _ hp)
    cases hs : map.lookup key with
    | none =>
      simp only [List.filterMap_cons, hs]
      rw [ih hrest hkeys]
      congr 1
      funext p
      by_cases hp : p = key
      · subst hp
        simp [hnot, protocolAt, hs, hkey]
      · simp [hp]
    | some s =>
      have hport := keyed key s hs
      have hupdate : ∀ p ∈ keys, Function.update ports key (some s.protocol) p = none := by
        intro p hp
        have hne : p ≠ key := fun h => hnot (h ▸ hp)
        rw [Function.update_of_ne hne]
        exact hkeys p hp
      simp only [List.filterMap_cons, hs]
      rw [List.map_cons, replay_cons, PortEvent.apply, hport, if_pos hkey, Option.bind_some,
        ih hrest hupdate]
      congr 1
      funext p
      by_cases hp : p = key
      · subst hp
        simp [hnot, protocolAt, hs]
      · simp [hp]

/-- The events that `send_port_events_to` sends first open the ports of the service map. -/
theorem replay_openEvents {map : ServiceMap} (keyed : Keyed map) (order : IterOrder UInt16) :
    replay (openEvents order map) (fun _ => none) = some (protocolAt map) := by
  rw [openEvents, replay_open keyed (order.nodup _) fun _ _ => rfl]
  congr 1
  funext p
  by_cases hp : p ∈ order.visit map.keys
  · rw [if_pos hp]
  · rw [order.mem, Finmap.mem_keys, ← Finmap.lookup_eq_none] at hp
    simp [protocolAt, hp]

/-- Closing distinct open ports. -/
theorem replay_close {keys : List UInt16} (hnodup : keys.Nodup) {ports : UInt16 → Option String}
    (hopen : ∀ p ∈ keys, ports p ≠ none) :
    replay (keys.map .closePort) ports = some fun p => if p ∈ keys then none else ports p := by
  induction keys generalizing ports with
  | nil => rfl
  | cons key keys ih =>
    obtain ⟨hnot, hrest⟩ := List.nodup_cons.mp hnodup
    have hupdate : ∀ p ∈ keys, Function.update ports key none p ≠ none := by
      intro p hp
      have hne : p ≠ key := fun h => hnot (h ▸ hp)
      rw [Function.update_of_ne hne]
      exact hopen p (List.mem_cons_of_mem _ hp)
    rw [List.map_cons, replay_cons, PortEvent.apply, if_neg (hopen key List.mem_cons_self),
      Option.bind_some, ih hrest hupdate]
    congr 1
    funext p
    by_cases hp : p = key
    · subst hp
      simp
    · simp [hp]

theorem protocolAt_toggled (order : IterOrder UInt16) (isAvailable : Bool) (id : EndpointId)
    (map : ServiceMap) : protocolAt (toggle order isAvailable id map).1 = protocolAt map := by
  funext p
  rw [protocolAt, protocolAt, lookup_toggle, Option.map_map]
  congr 1
  funext s
  exact available_protocol isAvailable id s

/-- The port events of an endpoint event are legal and lead to the new service map. -/
theorem replay_effect (order : IterOrder UInt16) (discovery : String) (event : EndpointEvent)
    (map : ServiceMap) :
    replay (effect order discovery event map).portEvents (protocolAt map) =
      some (protocolAt (effect order discovery event map).map) := by
  cases event with
  | add uid isAvailable port protocol address backendProtocol =>
    cases hs : map.lookup port with
    | none =>
      have hclosed : protocolAt map port = none := by simp [protocolAt, hs]
      simp only [effect, hs]
      rw [replay_cons, PortEvent.apply, if_pos hclosed]
      refine congrArg some (funext fun p => ?_)
      rw [protocolAt, lookup_insert_eq]
      by_cases hp : p = port
      · subst hp
        simp
      · simp [hp, protocolAt]
    | some service =>
      simp only [effect, hs]
      refine congrArg some (funext fun p => ?_)
      rw [protocolAt, protocolAt, lookup_insert_eq]
      by_cases hp : p = port
      · subst hp
        simp [hs]
      · simp [hp]
  | delete uid =>
    have hopen : ∀ p ∈ (scan order ⟨discovery, uid⟩ map).2.2, protocolAt map p ≠ none := by
      intro p hp
      obtain ⟨s, hs, -⟩ := mem_scan_todo.mp hp
      simp [protocolAt, hs]
    simp only [effect]
    rw [replay_close (scan_todo_nodup _ _ _) hopen]
    refine congrArg some (funext fun p => ?_)
    rw [protocolAt, protocolAt, lookup_eraseAll, lookup_scan]
    split
    · rfl
    · rw [Option.map_map]
      rfl
  | suspend uid => exact congrArg some (protocolAt_toggled order false _ map).symm
  | resume uid => exact congrArg some (protocolAt_toggled order true _ map).symm

/-- A channel whose receiver stays takes all events. -/
theorem deliver_of_stays (sender : Option (List PortEvent)) (events : List PortEvent) :
    deliver (sender.map fun sent => ⟨sent, none⟩) events =
      some (sender.map fun sent => ⟨sent ++ events, none⟩) := by
  cases sender with
  | none => exact deliver_none events
  | some sent =>
    induction events generalizing sent with
    | nil => simp [deliver]
    | cons event events ih =>
      have hsend : (⟨sent, none⟩ : Sender PortEvent).send event = some ⟨sent ++ [event], none⟩ := rfl
      simp only [Option.map_some, deliver, hsend, Option.bind_some] at ih ⊢
      rw [ih, List.append_assoc]
      rfl

namespace ServiceManager

/-- `send_port_events_to`, run to its end: the loop over the services, which returns at the first
`Open` that cannot be sent, and the new sender. -/
def sendPortEventsTo (order : IterOrder UInt16) (sender : Sender PortEvent) (m : ServiceManager) :
    ServiceManager :=
  match deliver (some sender) (openEvents order m.portServiceMap) with
  | none => m
  | some sender => { m with portEventSender := sender }

end ServiceManager

/-- The managers that are reached when the methods run one after the other, each consumer with a
channel of its own whose receiver stays. -/
inductive Serial : ServiceManager → Prop
  | new : Serial .new
  | processEvent {m m' : ServiceManager} (order : IterOrder UInt16) (discovery : String)
      (event : EndpointEvent) : Serial m → processEvent order discovery event m = .ok () m' →
      Serial m'
  | sendPortEventsTo {m : ServiceManager} (order : IterOrder UInt16) :
      Serial m → Serial (m.sendPortEventsTo order .new)

/-- What was sent to the consumer replays to the ports of the service map. -/
def Mirrored (map : ServiceMap) (sent : List PortEvent) : Prop :=
  replay sent (fun _ => none) = some (protocolAt map)

theorem sendPortEventsTo_new (order : IterOrder UInt16) (m : ServiceManager) :
    m.sendPortEventsTo order .new =
      { m with portEventSender := some ⟨openEvents order m.portServiceMap, none⟩ } := by
  have hdeliver := deliver_of_stays (some []) (openEvents order m.portServiceMap)
  simp only [Option.map_some, List.nil_append] at hdeliver
  simp only [ServiceManager.sendPortEventsTo, Sender.new, hdeliver]

/-- What the installed consumer was sent replays to the ports of the service map. -/
def ServiceManager.Mirrors (m : ServiceManager) : Prop :=
  ∀ sender, m.portEventSender = some sender → Mirrored m.portServiceMap sender.sent

theorem ServiceManager.Mirrors.processEvent {m m' : ServiceManager} (mirrors : m.Mirrors)
    {order : IterOrder UInt16} {discovery : String} {event : EndpointEvent}
    (h : processEvent order discovery event m = .ok () m') : m'.Mirrors := by
  obtain ⟨sender, hdeliver, rfl⟩ := processEvent_ok.mp h
  intro sender' hsender'
  cases hsender : m.portEventSender with
  | none =>
    rw [hsender, deliver_none] at hdeliver
    cases hdeliver
    cases hsender'
  | some before =>
    rw [hsender] at hdeliver
    obtain ⟨after, rfl, hsent⟩ := deliver_sent hdeliver
    cases hsender'
    rw [Mirrored, hsent, replay_append, mirrors before hsender, Option.bind_some]
    exact replay_effect order discovery event m.portServiceMap

/-- A new consumer, whatever the one before it was sent. -/
theorem ServiceManager.mirrors_sendPortEventsTo {m : ServiceManager} (keyed : Keyed m.portServiceMap)
    (order : IterOrder UInt16) : (m.sendPortEventsTo order .new).Mirrors := by
  rw [sendPortEventsTo_new]
  intro sender h
  cases h
  exact replay_openEvents keyed order

theorem Serial.mirrored {m : ServiceManager} (serial : Serial m) :
    WellFormed m.portServiceMap ∧ m.Mirrors := by
  induction serial with
  | new => exact ⟨wellFormed_empty, fun sender h => nomatch h⟩
  | @processEvent m m' order discovery event _ step ih =>
    refine ⟨?_, ih.2.processEvent step⟩
    obtain ⟨sender, -, rfl⟩ := processEvent_ok.mp step
    exact effect_wellFormed order discovery ih.1 event
  | @sendPortEventsTo m order _ ih =>
    refine ⟨?_, mirrors_sendPortEventsTo ih.1.keyed order⟩
    rw [sendPortEventsTo_new]
    exact ih.1

end StateProxy.Backend
