import StateProxy.Backend.Endpoint
import StateProxy.ProofKit.Map
import StateProxy.ProofKit.Outcome

/-! The service manager: the services that the proxy exposes, by port, the events that discovery
tasks send about their endpoints, and the selection of an endpoint for a connection.  Each function
follows the source's own branches and loops.  An `IterOrder` argument is the order in which the
loops over a hash map visit it; an expression of the source that can panic stops with a `Panic` and
leaves the state it had reached. -/

namespace StateProxy.Backend

open Net ProofKit

/-- A notification that the proxy listen on or close a specified port. -/
inductive PortEvent
  | openPort (port : UInt16) (protocol : String)
  | closePort (port : UInt16)
deriving DecidableEq, Repr

structure Service where
  port : UInt16
  protocol : String
  endpoints : HashMap EndpointId Endpoint
deriving DecidableEq

abbrev ServiceMap := HashMap UInt16 Service

structure ServiceManager where
  portServiceMap : ServiceMap
  portEventSender : Option (Sender PortEvent)
  /-- The warnings logged so far. -/
  warnings : List String
deriving DecidableEq

/-- The expressions of the manager that can panic. -/
inductive Panic
  /-- `index %= n_endpoints` with no endpoint. -/
  | remainderByZero
  /-- `n_endpoints - index` with a larger index. -/
  | subtractWithOverflow
  /-- `port_service_map.remove(&port).unwrap()` on an absent port. -/
  | unwrapOnNone
  /-- `TODO: can't send port event`. -/
  | cannotSendPortEvent
deriving DecidableEq, Repr

abbrev ManagerM := EStateM Panic ServiceManager

namespace ServiceManager

def new : ServiceManager := ⟨∅, none, []⟩

def setMap (map : ServiceMap) : ManagerM Unit :=
  modify fun m => { m with portServiceMap := map }

def warn (line : String) : ManagerM Unit :=
  modify fun m => { m with warnings := m.warnings ++ [line] }

def sendEvent (event : PortEvent) : ManagerM Unit := fun m =>
  match m.portEventSender with
  | none => .ok () m
  | some sender =>
    match sender.send event with
    | none => .error .cannotSendPortEvent m
    | some sender => .ok () { m with portEventSender := some sender }

/-- The body of the first loop of the `Delete` branch: its variables are `found` and
`services_to_delete`. -/
def removeEndpoint (id : EndpointId) (port : UInt16) (service : Service)
    (vars : Bool × List UInt16) : Service × Bool × List UInt16 :=
  let found := vars.1 || (service.endpoints.lookup id).isSome
  let service := { service with endpoints := service.endpoints.erase id }
  let servicesToDelete := if service.endpoints = ∅ then vars.2 ++ [port] else vars.2
  (service, found, servicesToDelete)

/-- The body of the loop of the `Suspend` branch, for `isAvailable := false`, and of the `Resume`
branch, for `isAvailable := true`: its variable is `found`. -/
def setAvailability (isAvailable : Bool) (id : EndpointId) (_port : UInt16) (service : Service)
    (found : Bool) : Service × Bool :=
  match service.endpoints.lookup id with
  | none => (service, found)
  | some endpoint =>
    let endpoint := if endpoint.isAvailable = isAvailable then endpoint
      else { endpoint with isAvailable }
    ({ service with endpoints := service.endpoints.insert id endpoint }, true)

/-- The first loop of the `Delete` branch: the service map after it, `found` and
`services_to_delete`. -/
def scan (order : IterOrder UInt16) (id : EndpointId) (map : ServiceMap) :
    ServiceMap × Bool × List UInt16 :=
  iterMut (removeEndpoint id) (order.visit map.keys) map (false, [])

/-- The loop of the `Suspend` and `Resume` branches: the service map after it, and `found`. -/
def toggle (order : IterOrder UInt16) (isAvailable : Bool) (id : EndpointId) (map : ServiceMap) :
    ServiceMap × Bool :=
  iterMut (setAvailability isAvailable id) (order.visit map.keys) map false

def unknownEndpoint (kind discovery uid : String) : String :=
  s!"Received a EndpointEvent::{kind} from '{discovery}' for an unknown endpoint: {uid}"

/-- The second loop of the `Delete` branch. -/
def closeServices : List UInt16 → ManagerM Unit
  | [] => pure ()
  | port :: ports => do
    let map := (← get).portServiceMap
    match map.lookup port with
    | none => throw .unwrapOnNone
    | some _ =>
      setMap (map.erase port)
      sendEvent (.closePort port)
      closeServices ports

/-- `process_event`, for an event from the discovery task named `discovery`. -/
def processEvent (order : IterOrder UInt16) (discovery : String) (event : EndpointEvent) :
    ManagerM Unit := do
  let map := (← get).portServiceMap
  match event with
  | .add uid isAvailable externalPort externalProtocol backendAddress backendProtocol =>
    let endpointId : EndpointId := ⟨discovery, uid⟩
    let endpoint : Endpoint := ⟨isAvailable, backendAddress, backendProtocol⟩
    match map.lookup externalPort with
    | none =>
      setMap (map.insert externalPort
        ⟨externalPort, externalProtocol, (∅ : HashMap EndpointId Endpoint).insert endpointId endpoint⟩)
      sendEvent (.openPort externalPort externalProtocol)
    | some service =>
      setMap (map.insert externalPort
        { service with endpoints := service.endpoints.insert endpointId endpoint })
  | .delete uid =>
    let (map, found, servicesToDelete) := scan order ⟨discovery, uid⟩ map
    setMap map
    closeServices servicesToDelete
    if !found then warn (unknownEndpoint "Delete" discovery uid)
  | .suspend uid =>
    let (map, found) := toggle order false ⟨discovery, uid⟩ map
    setMap map
    if !found then warn (unknownEndpoint "Suspend" discovery uid)
  | .resume uid =>
    let (map, found) := toggle order true ⟨discovery, uid⟩ map
    setMap map
    if !found then warn (unknownEndpoint "Resume" discovery uid)

/-- The first available candidate, with what `get_endpoint_for` returns of it. -/
def firstAvailable (candidates : List Endpoint) : Option (SocketAddr × String) :=
  (candidates.find? (·.isAvailable)).map fun candidate => (candidate.address, candidate.protocol)

/-- `service.endpoints.values()`. -/
def endpointValues (order : IterOrder EndpointId) (service : Service) : List Endpoint :=
  (order.visit service.endpoints.keys).filterMap service.endpoints.lookup

/-- `get_endpoint_for`, on a service map that the read lock keeps unchanged. -/
def getEndpointFor (order : IterOrder EndpointId) (map : ServiceMap) (port : UInt16)
    (index : Nat) : Except Panic (Option (SocketAddr × String)) :=
  match map.lookup port with
  | none => .ok none
  | some service =>
    let nEndpoints := service.endpoints.keys.card
    if nEndpoints = 0 then .error .remainderByZero
    else
      let index := index % nEndpoints
      match firstAvailable ((endpointValues order service).drop index) with
      | some found => .ok (some found)
      | none =>
        if nEndpoints < index then .error .subtractWithOverflow
        else .ok (firstAvailable ((endpointValues order service).take (nEndpoints - index)))

end ServiceManager

end StateProxy.Backend
