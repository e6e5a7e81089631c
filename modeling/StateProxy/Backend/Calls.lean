import StateProxy.Backend.Manager
import StateProxy.ProofKit.Locks

/-! The manager's methods as they run beside each other.  A method is cut where it waits: for a
lock, for room in a channel, or for the end of a guard's scope.  `Call` lists these points, each
with the locals that are still needed there; `enter` runs a method from the lock it has just got to
its next point.  A configuration holds the shared fields, the channels, the locks and one point for
each call, and an `Action` lets one of them take one step, in any order.  Both mutexes are locks
that are only taken for writing. -/

namespace StateProxy.Backend

open Net ProofKit ServiceManager

/-- The locks of the manager, under the names of the fields that they guard. -/
inductive LockName
  | portServiceMap
  | portEventSender
  | registeredEndpointDiscoveryNames
  | endpointDiscoveryMetrics
deriving DecidableEq, Repr

/-- The fields of the manager.  A sender is the number of its channel, and of the metrics only the
names under which they are stored are kept. -/
structure Shared where
  portServiceMap : ServiceMap
  portEventSender : Option Nat
  registeredEndpointDiscoveryNames : Finset String
  endpointDiscoveryMetrics : Finset String

/-- The points of the methods. -/
inductive Call
  | finished
  /-- `process_event`, before the write lock on the service map. -/
  | processEvent (discovery : String) (event : EndpointEvent)
  /-- The vacant `Add` branch, before the read lock on the sender. -/
  | openPort (port : UInt16) (protocol : String)
  /-- The `Delete` branch, between its two loops, before the read lock on the sender. -/
  | closePorts (servicesToDelete : List UInt16)
  /-- Inside `send_event`, with the rest of `services_to_delete`. -/
  | sendEvent (channel : Nat) (event : PortEvent) (servicesToDelete : List UInt16)
  /-- The end of the scope of the read guard on the sender. -/
  | dropSender
  /-- The end of the scope of the guard on the service map. -/
  | dropMap (mode : Mode)
  /-- `send_port_events_to`, before the read lock on the service map. -/
  | sendPortEventsTo (channel : Nat)
  /-- The loop over the services, in the send of one `Open`, with those of the other services. -/
  | sendOpen (channel : Nat) (event : PortEvent) (rest : List PortEvent)
  /-- After the loop, before the write lock on the sender. -/
  | install (channel : Nat)
  /-- The end of the scope of the write guard on the sender. -/
  | installed
  /-- `get_endpoint_for`, before the read lock on the service map. -/
  | getEndpointFor (port : UInt16) (index : Nat)
  /-- The end of `get_endpoint_for`, with what it returns, or its panic. -/
  | gotEndpoint (result : Except Panic (Option (SocketAddr × String)))
  /-- `register_endpoint_discovery`, before its first mutex. -/
  | registerEndpointDiscovery (name : String)
  /-- `register_endpoint_discovery`, before its second mutex. -/
  | lockMetrics (name : String)
  /-- The end of `register_endpoint_discovery`, where its guards are dropped one after the other. -/
  | dropMetrics (result : Except String Unit)
  | dropNames (result : Except String Unit)

namespace Call

/-- A point at which a method is called. -/
def isStart : Call → Bool
  | .processEvent .. | .sendPortEventsTo _ | .getEndpointFor .. | .registerEndpointDiscovery _ => true
  | _ => false

def isFinished : Call → Bool
  | .finished => true
  | _ => false

/-- The lock that is awaited at a point. -/
def wants : Call → Option (LockName × Mode)
  | .processEvent .. => some (.portServiceMap, .write)
  | .openPort .. | .closePorts _ => some (.portEventSender, .read)
  | .sendPortEventsTo _ => some (.portServiceMap, .read)
  | .install _ => some (.portEventSender, .write)
  | .getEndpointFor .. => some (.portServiceMap, .read)
  | .registerEndpointDiscovery _ => some (.registeredEndpointDiscoveryNames, .write)
  | .lockMetrics _ => some (.endpointDiscoveryMetrics, .write)
  | _ => none

/-- The locks whose guards are alive at a point. -/
def holds : Call → List (LockName × Mode)
  | .openPort .. | .closePorts _ => [(.portServiceMap, .write)]
  | .sendEvent .. | .dropSender => [(.portServiceMap, .write), (.portEventSender, .read)]
  | .dropMap mode => [(.portServiceMap, mode)]
  | .sendOpen .. | .install _ => [(.portServiceMap, .read)]
  | .installed => [(.portServiceMap, .read), (.portEventSender, .write)]
  | .gotEndpoint _ => [(.portServiceMap, .read)]
  | .lockMetrics _ | .dropNames _ => [(.registeredEndpointDiscoveryNames, .write)]
  | .dropMetrics _ =>
    [(.registeredEndpointDiscoveryNames, .write), (.endpointDiscoveryMetrics, .write)]
  | _ => []

/-- The lock whose guard is dropped at a point, and the point after it. -/
def dropping : Call → Option (LockName × Call)
  | .dropSender => some (.portEventSender, .dropMap .write)
  | .dropMap _ => some (.portServiceMap, .finished)
  | .installed => some (.portEventSender, .dropMap .read)
  | .gotEndpoint _ => some (.portServiceMap, .finished)
  | .dropMetrics result => some (.endpointDiscoveryMetrics, .dropNames result)
  | .dropNames _ => some (.registeredEndpointDiscoveryNames, .finished)
  | _ => none

/-- The channel and the event of the send that is awaited at a point. -/
def sending : Call → Option (Nat × PortEvent)
  | .sendEvent channel event _ => some (channel, event)
  | .sendOpen channel event _ => some (channel, event)
  | _ => none

/-- The channel that a call sends on or is to install. -/
def channel : Call → Option Nat
  | .sendEvent channel _ _ => some channel
  | .sendPortEventsTo channel => some channel
  | .sendOpen channel _ _ => some channel
  | .install channel => some channel
  | _ => none

end Call

/-- The orders in which the loops of a call visit the hash maps. -/
structure Orders where
  ports : IterOrder UInt16
  endpoints : IterOrder EndpointId

/-- The `Open` events of all services: the loop of `send_port_events_to`. -/
def openEvents (order : IterOrder UInt16) (map : ServiceMap) : List PortEvent :=
  ((order.visit map.keys).filterMap map.lookup).map fun service =>
    .openPort service.port service.protocol

namespace Shared

def new : Shared := ⟨∅, none, ∅, ∅⟩

/-- The second loop of the `Delete` branch, up to its next send. -/
def closeServices (shared : Shared) : List UInt16 → Shared × Call
  | [] => (shared, .dropSender)
  | port :: ports =>
    let removed := { shared with portServiceMap := shared.portServiceMap.erase port }
    match shared.portEventSender with
    | none => closeServices removed ports
    | some channel => (removed, .sendEvent channel (.closePort port) ports)

/-- The loop of `send_port_events_to`, up to its next send. -/
def sendNext (channel : Nat) : List PortEvent → Call
  | [] => .install channel
  | event :: rest => .sendOpen channel event rest

/-- What a call does once it has the lock that it awaited, up to the next point. -/
def enter (shared : Shared) (orders : Orders) : Call → Shared × Call
  | .processEvent discovery (.add uid isAvailable port protocol address backendProtocol) =>
    let id : EndpointId := ⟨discovery, uid⟩
    let endpoint : Endpoint := ⟨isAvailable, address, backendProtocol⟩
    match shared.portServiceMap.lookup port with
    | none =>
      let service : Service := ⟨port, protocol, (∅ : HashMap EndpointId Endpoint).insert id endpoint⟩
      ({ shared with portServiceMap := shared.portServiceMap.insert port service },
        .openPort port protocol)
    | some service =>
      let service := { service with endpoints := service.endpoints.insert id endpoint }
      ({ shared with portServiceMap := shared.portServiceMap.insert port service }, .dropMap .write)
  | .processEvent discovery (.delete uid) =>
    let (map, _, servicesToDelete) := scan orders.ports ⟨discovery, uid⟩ shared.portServiceMap
    ({ shared with portServiceMap := map }, .closePorts servicesToDelete)
  | .processEvent discovery (.suspend uid) =>
    let (map, _) := toggle orders.ports false ⟨discovery, uid⟩ shared.portServiceMap
    ({ shared with portServiceMap := map }, .dropMap .write)
  | .processEvent discovery (.resume uid) =>
    let (map, _) := toggle orders.ports true ⟨discovery, uid⟩ shared.portServiceMap
    ({ shared with portServiceMap := map }, .dropMap .write)
  | .openPort port protocol =>
    match shared.portEventSender with
    | none => (shared, .dropSender)
    | some channel => (shared, .sendEvent channel (.openPort port protocol) [])
  | .closePorts servicesToDelete => shared.closeServices servicesToDelete
  | .sendPortEventsTo channel =>
    (shared, sendNext channel (openEvents orders.ports shared.portServiceMap))
  | .install channel => ({ shared with portEventSender := some channel }, .installed)
  | .getEndpointFor port index =>
    (shared, .gotEndpoint (getEndpointFor orders.endpoints shared.portServiceMap port index))
  | .registerEndpointDiscovery name => (shared, .lockMetrics name)
  | .lockMetrics name =>
    if name ∈ shared.registeredEndpointDiscoveryNames then
      (shared, .dropMetrics (.error s!"the discovery service {name} is already registered"))
    else
      ({ shared with
          registeredEndpointDiscoveryNames := insert name shared.registeredEndpointDiscoveryNames
          endpointDiscoveryMetrics := insert name shared.endpointDiscoveryMetrics },
        .dropMetrics (.ok ()))
  | call => (shared, call)

/-- What a call does once its event is in the channel, up to the next point. -/
def sent (shared : Shared) : Call → Shared × Call
  | .sendEvent _ _ servicesToDelete => shared.closeServices servicesToDelete
  | .sendOpen channel _ rest => (shared, sendNext channel rest)
  | call => (shared, call)

/-- Where a call goes when the receiver of its channel has been dropped: `send_event` panics, and
the guards are dropped as the stack unwinds; `send_port_events_to` returns. -/
def sendFailed : Call → Call
  | .sendEvent .. => .dropSender
  | .sendOpen .. => .dropMap .read
  | call => call

end Shared

structure Config where
  shared : Shared
  channels : Nat → Option (Channel PortEvent)
  locks : LockName → RwLock Nat
  calls : Nat → Call

namespace Config

/-- A new manager that nobody has called. -/
def initial : Config := ⟨.new, fun _ => none, fun _ => .free, fun _ => .finished⟩

end Config

inductive Action
  /-- Somebody makes a channel for port events. -/
  | channel (c : Nat) (capacity : Nat)
  /-- Somebody calls a method of the manager. -/
  | call (t : Nat) (start : Call)
  /-- A call gets the lock it wants at once. -/
  | acquire (t : Nat) (orders : Orders)
  /-- A call begins to wait for the lock it wants. -/
  | await (t : Nat)
  /-- The first call that waits for a lock gets it. -/
  | grant (l : LockName) (orders : Orders)
  /-- A send of a call ends. -/
  | send (t : Nat)
  /-- A call drops a guard. -/
  | release (t : Nat)
  /-- The consumer at the other end of a channel receives an event. -/
  | receive (c : Nat)
  | dropReceiver (c : Nat)

namespace Config

/-- The call `t` has got a lock. -/
def enter (config : Config) (t : Nat) (orders : Orders) (l : LockName) (lock : RwLock Nat) :
    Config :=
  let (shared, call) := config.shared.enter orders (config.calls t)
  { config with
    shared
    locks := Function.update config.locks l lock
    calls := Function.update config.calls t call }

/-- The send of the call `t` ends: at once when its channel has room or no receiver any more, and
else not before the receiver makes room. -/
def send (config : Config) (t c : Nat) (event : PortEvent) (channel : Channel PortEvent) :
    Option Config :=
  if channel.receiverAlive then
    (channel.push event).map fun channel =>
      let (shared, call) := config.shared.sent (config.calls t)
      { config with
        shared
        channels := Function.update config.channels c (some channel)
        calls := Function.update config.calls t call }
  else
    some { config with
      calls := Function.update config.calls t (Shared.sendFailed (config.calls t)) }

/-- The channel that a new call is given exists. -/
def knows (config : Config) : Call → Bool
  | .sendPortEventsTo c => (config.channels c).isSome
  | _ => true

/-- The configuration after an action; `none` when the action is not enabled. -/
def step (config : Config) : Action → Option Config
  | .channel c capacity =>
    if h : (config.channels c).isNone ∧ 0 < capacity then
      some { config with channels := Function.update config.channels c (some (.new capacity h.2)) }
    else none
  | .call t start =>
    if (config.calls t).isFinished ∧ start.isStart ∧ config.knows start then
      some { config with calls := Function.update config.calls t start }
    else none
  | .acquire t orders => do
    let (l, mode) ← (config.calls t).wants
    if (config.locks l).Takable mode then
      some (config.enter t orders l ((config.locks l).take t mode))
    else none
  | .await t => do
    let (l, mode) ← (config.calls t).wants
    if ¬ (config.locks l).Takable mode ∧ (t, mode) ∉ (config.locks l).queue then
      some { config with
        locks := Function.update config.locks l ((config.locks l).await t mode) }
    else none
  | .grant l orders => do
    let (t, mode) ← (config.locks l).next
    some (config.enter t orders l ((config.locks l).grant t mode))
  | .send t => do
    let (c, event) ← (config.calls t).sending
    let channel ← config.channels c
    config.send t c event channel
  | .release t => do
    let (l, call) ← (config.calls t).dropping
    some { config with
      locks := Function.update config.locks l ((config.locks l).release t)
      calls := Function.update config.calls t call }
  | .receive c => do
    let channel ← config.channels c
    if channel.receiverAlive then
      let channel ← channel.receive
      some { config with channels := Function.update config.channels c (some channel) }
    else none
  | .dropReceiver c => do
    let channel ← config.channels c
    some { config with channels := Function.update config.channels c (some channel.dropReceiver) }

end Config

/-- The actions `actions` lead from a new manager to `config`. -/
inductive Execution : List Action → Config → Prop
  | nil : Execution [] .initial
  | snoc {actions : List Action} {config config' : Config} (action : Action) :
      Execution actions config → config.step action = some config' →
      Execution (actions ++ [action]) config'

theorem Execution.trans {actions more : List Action} {config config' : Config}
    (execution : Execution actions config) (h : more.foldlM Config.step config = some config') :
    Execution (actions ++ more) config' := by
  induction more generalizing actions config with
  | nil =>
    cases h
    rwa [List.append_nil]
  | cons action more ih =>
    obtain ⟨next, hstep, h⟩ := Option.bind_eq_some_iff.mp h
    have hmore := ih (execution.snoc action hstep) h
    rwa [List.append_assoc] at hmore

end StateProxy.Backend
